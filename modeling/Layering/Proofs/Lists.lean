import Mathlib.Data.List.DropRight
import Mathlib.Data.List.Forall2
import Mathlib.Data.List.Induction
import Mathlib.Data.List.Nodup
import Mathlib.Data.List.TakeWhile
import Mathlib.Logic.Relation

namespace List

variable {α : Type}

theorem lookup_cons_eq_if [BEq α] [LawfulBEq α] [DecidableEq α] {β : Type} (k a : α) (b : β) (es : List (α × β)) :
    ((a, b) :: es).lookup k = if k = a then some b else es.lookup k := by
  by_cases h : k = a
  · simp [h]
  · have hb : (k == a) = false := by simpa using h
    simp [h, lookup_cons, hb]

theorem lookup_filter_ne [BEq α] [LawfulBEq α] [DecidableEq α] {β : Type} {k a : α} (h : k ≠ a) (es : List (α × β)) :
    (es.filter (·.1 ≠ a)).lookup k = es.lookup k := by
  induction es with
  | nil => rfl
  | cons e es ih =>
      obtain ⟨b, v⟩ := e
      by_cases hb : b = a
      · have hk : k ≠ b := fun he => h (he.trans hb)
        rw [filter_cons_of_neg (by simpa using hb), ih, lookup_cons_eq_if, if_neg hk]
      · rw [filter_cons_of_pos (by simpa using hb), lookup_cons_eq_if, lookup_cons_eq_if, ih]

theorem mem_of_lookup [BEq α] [LawfulBEq α] {β : Type} {k : α} {b : β} {es : List (α × β)} (h : es.lookup k = some b) :
    (k, b) ∈ es := by
  obtain ⟨before, after, rfl, -⟩ := lookup_eq_some_iff.mp h
  exact mem_append_right _ mem_cons_self

theorem lookup_mapValues [BEq α] [LawfulBEq α] [DecidableEq α] {β γ : Type} (f : α → β → γ) (es : List (α × β)) (k : α) :
    (es.map fun e => (e.1, f e.1 e.2)).lookup k = (es.lookup k).map (f k) := by
  induction es with
  | nil => rfl
  | cons e es ih =>
      obtain ⟨a, b⟩ := e
      rw [map_cons, lookup_cons_eq_if, ih, lookup_cons_eq_if]
      by_cases ha : k = a
      · subst ha
        simp
      · simp [ha]

theorem lookup_eq_none_iff_keys [BEq α] [LawfulBEq α] {β : Type} {k : α} {es : List (α × β)} :
    es.lookup k = none ↔ k ∉ es.map (·.1) := by
  rw [lookup_eq_none_iff, mem_map, not_exists]
  exact forall_congr' fun p => by rw [bne_iff_ne, not_and]; exact imp_congr_right fun _ => ne_comm

/-- Entries with the same keys in the same order, none of them twice, are the same if every look-up finds the same. -/
theorem eq_of_lookup_eq [BEq α] [LawfulBEq α] [DecidableEq α] {β : Type} {es es' : List (α × β)}
    (hk : es.map (·.1) = es'.map (·.1)) (hn : (es.map (·.1)).Nodup) (hl : ∀ k, es.lookup k = es'.lookup k) :
    es = es' := by
  induction es generalizing es' with
  | nil => exact (map_eq_nil_iff.mp hk.symm).symm
  | cons e es ih =>
      obtain ⟨a, b⟩ := e
      obtain ⟨⟨a', b'⟩, es', rfl, ha, hk'⟩ := map_eq_cons_iff.mp hk.symm
      obtain rfl : a' = a := ha
      obtain ⟨hmem, hn'⟩ := nodup_cons.mp hn
      have hb : b = b' := by
        have h := hl a'
        simpa only [lookup_cons_self, Option.some.injEq] using h
      have htail : ∀ k, es.lookup k = es'.lookup k := by
        intro k
        have h := hl k
        by_cases hka : k = a'
        · subst hka
          rw [lookup_eq_none_iff_keys.mpr hmem, lookup_eq_none_iff_keys.mpr (hk' ▸ hmem)]
        · simpa only [lookup_cons_eq_if, if_neg hka] using h
      rw [hb, ih hk'.symm hn' htail]

theorem getElem?_concat_eq_some {l : List α} {a b : α} {i : Nat} :
    (l ++ [a])[i]? = some b ↔ l[i]? = some b ∨ i = l.length ∧ a = b := by
  rcases Nat.lt_trichotomy i l.length with h | rfl | h
  · rw [getElem?_append_left h]
    exact ⟨.inl, fun hb => hb.resolve_right fun he => by omega⟩
  · rw [getElem?_concat_length, getElem?_eq_none (Nat.le_refl _)]
    simp
  · have hl : l[i]? = none := getElem?_eq_none (by omega)
    have hc : (l ++ [a])[i]? = none := getElem?_eq_none (by rw [length_append, length_singleton]; omega)
    simp only [hl, hc, reduceCtorEq, false_or, false_iff]
    omega

/-- Two ways to take a list apart at a separator: at the same one, or one of them at an earlier one. -/
theorem append_cons_eq_append_cons_iff {l l' r r' : List α} {sep : α} : l ++ sep :: r = l' ++ sep :: r' ↔
    (l = l' ∧ r = r') ∨ (∃ m, l = l' ++ sep :: m ∧ r' = m ++ sep :: r) ∨ ∃ m, l' = l ++ sep :: m ∧ r = m ++ sep :: r' := by
  constructor
  · intro h
    rcases append_eq_append_iff.mp h with ⟨between, hl, hr⟩ | ⟨between, hl, hr⟩
    · cases between with
      | nil => exact .inl ⟨by simpa using hl.symm, (cons.inj hr).2⟩
      | cons b m =>
          obtain ⟨rfl, hr'⟩ := cons.inj hr
          exact .inr (.inr ⟨m, hl, hr'⟩)
    · cases between with
      | nil => exact .inl ⟨by simpa using hl, (cons.inj hr).2.symm⟩
      | cons b m =>
          obtain ⟨rfl, hr'⟩ := cons.inj hr
          exact .inr (.inl ⟨m, hl, hr'⟩)
  · rintro (⟨rfl, rfl⟩ | ⟨m, rfl, rfl⟩ | ⟨m, rfl, rfl⟩)
    · rfl
    · rw [append_assoc, cons_append]
    · rw [append_assoc, cons_append]

theorem eq_dropWhile_append_replicate {p : α → Bool} {a : α} (hp : ∀ b, p b → b = a) (l : List α) :
    ∃ k, l = (l.reverse.dropWhile p).reverse ++ replicate k a := by
  have ha : ∀ b ∈ l.reverse.takeWhile p, b = a := fun b hb => hp b (mem_takeWhile_imp hb)
  refine ⟨(l.reverse.takeWhile p).length, ?_⟩
  have hs : (l.reverse.takeWhile p ++ l.reverse.dropWhile p).reverse = l := by
    rw [takeWhile_append_dropWhile, reverse_reverse]
  rw [reverse_append, eq_replicate_of_mem ha, reverse_replicate] at hs
  exact hs.symm

theorem exists_forall₂_iff {β : Type} {R : α → β → Prop} {l : List α} :
    (∃ l', Forall₂ R l l') ↔ ∀ a ∈ l, ∃ b, R a b := by
  induction l with
  | nil => simp
  | cons a l ih =>
      rw [forall_mem_cons, ← ih]
      constructor
      · rintro ⟨_, h⟩
        obtain ⟨b, l', hb, hl, -⟩ := forall₂_cons_left_iff.mp h
        exact ⟨⟨b, hb⟩, l', hl⟩
      · rintro ⟨⟨b, hb⟩, l', hl⟩
        exact ⟨b :: l', .cons hb hl⟩

theorem exists_of_forall₂ {β : Type} {R : α → β → Prop} {l : List α} {l' : List β} {b : β} (h : Forall₂ R l l')
    (hb : b ∈ l') : ∃ a ∈ l, R a b := by
  induction h with
  | nil => cases hb
  | cons ha _ ih =>
      rcases mem_cons.mp hb with rfl | hb
      · exact ⟨_, mem_cons_self, ha⟩
      · obtain ⟨a, hmem, hab⟩ := ih hb
        exact ⟨a, mem_cons_of_mem _ hmem, hab⟩

theorem forall₂_concat_left_iff {β : Type} {R : α → β → Prop} {l : List α} {a : α} {l' : List β} :
    Forall₂ R (l ++ [a]) l' ↔ ∃ init b, Forall₂ R l init ∧ R a b ∧ l' = init ++ [b] := by
  constructor
  · intro h
    rw [← forall₂_reverse_iff, reverse_append, reverse_singleton, singleton_append, forall₂_cons_left_iff] at h
    obtain ⟨b, rest, hb, hrest, hl'⟩ := h
    rw [← reverse_reverse rest, forall₂_reverse_iff] at hrest
    exact ⟨rest.reverse, b, hrest, hb, by rw [← reverse_reverse l', hl', reverse_cons]⟩
  · rintro ⟨init, b, hl, hb, rfl⟩
    exact rel_append hl (.cons hb .nil)

section Arrangement

variable {r : α → α → Prop} {a b : α} {l : List α}

open Classical in
/-- How many members of the list the relation leads to from `a`, in one step or more. -/
noncomputable def reached (r : α → α → Prop) (l : List α) (a : α) : Nat := l.countP fun b => Relation.TransGen r a b

theorem reached_lt (h : ∀ a, ¬ Relation.TransGen r a a) (hb : b ∈ l) (hab : r a b) : l.reached r b < l.reached r a := by
  classical
  obtain ⟨before, after, rfl⟩ := append_of_mem hb
  have hmono : ∀ l' : List α, l'.reached r b ≤ l'.reached r a := fun l' =>
    countP_mono_left fun c _ hc => decide_eq_true ((of_decide_eq_true hc).head hab)
  have hbefore := hmono before
  have hafter := hmono after
  -- from `a` the relation leads to `b` too
  have hown : decide (Relation.TransGen r a b) = true := decide_eq_true (Relation.TransGen.single hab)
  have hnot : decide (Relation.TransGen r b b) = false := decide_eq_false (h b)
  simp only [reached, countP_append, countP_cons, hown, hnot, if_true, Bool.false_eq_true, if_false] at hbefore hafter ⊢
  omega

/-- Along a relation without cycles a list can be arranged so that nothing is related to what comes after it. -/
theorem exists_perm_pairwise_of_acyclic (h : ∀ a, ¬ Relation.TransGen r a a) (l : List α) :
    ∃ l' : List α, l'.Perm l ∧ l'.Pairwise fun a b => ¬ r a b := by
  have hsorted : (l.mergeSort fun a b => decide (l.reached r a ≤ l.reached r b)).Pairwise
      fun a b => decide (l.reached r a ≤ l.reached r b) = true := by
    apply pairwise_mergeSort
    · intro a b c hab hbc
      exact decide_eq_true ((of_decide_eq_true hab).trans (of_decide_eq_true hbc))
    · intro a b
      simpa using Nat.le_total (l.reached r a) (l.reached r b)
  refine ⟨_, mergeSort_perm l _, hsorted.imp_of_mem fun _ hb hab hr => ?_⟩
  have hlt := reached_lt h (mem_mergeSort.mp hb) hr
  exact absurd hlt (Nat.not_lt.mpr (of_decide_eq_true hab))

end Arrangement

variable [DecidableEq α]

theorem eraseDups_concat (l : List α) (a : α) :
    (l ++ [a]).eraseDups = if a ∈ l then l.eraseDups else l.eraseDups ++ [a] := by
  rw [eraseDups_append]
  by_cases ha : a ∈ l
  · simp [ha, removeAll]
  · simp [ha, removeAll, eraseDups_cons]

theorem nodup_eraseDups (l : List α) : l.eraseDups.Nodup := by
  induction l using List.reverseRecOn with
  | nil => exact nodup_nil
  | append_singleton l a ih =>
      rw [eraseDups_concat]
      by_cases ha : a ∈ l
      · simpa [ha] using ih
      · have hd : a ∉ l.eraseDups := fun h => ha (mem_eraseDups.mp h)
        simp only [ha, if_false]
        exact ih.append (nodup_singleton a) (by simpa using hd)

/-- The members of `xs`, each once, in the order in which they first occur. -/
structure FirstOccurrences (xs l : List α) : Prop where
  nodup : l.Nodup
  mem_iff : ∀ a, a ∈ l ↔ a ∈ xs
  ordered : l.Pairwise fun a b => xs.idxOf a < xs.idxOf b

theorem firstOccurrences_eraseDups (xs : List α) : xs.FirstOccurrences xs.eraseDups := by
  refine ⟨nodup_eraseDups xs, fun a => mem_eraseDups, ?_⟩
  induction xs using List.reverseRecOn with
  | nil => exact .nil
  | append_singleton xs a ih =>
      have hold : xs.eraseDups.Pairwise fun b c => (xs ++ [a]).idxOf b < (xs ++ [a]).idxOf c := by
        refine ih.imp_of_mem fun hb hc hbc => ?_
        rwa [idxOf_append_of_mem (mem_eraseDups.mp hb), idxOf_append_of_mem (mem_eraseDups.mp hc)]
      rw [eraseDups_concat]
      by_cases ha : a ∈ xs
      · rwa [if_pos ha]
      · rw [if_neg ha, pairwise_append]
        refine ⟨hold, pairwise_singleton _ _, fun b hb c hc => ?_⟩
        obtain rfl := mem_singleton.mp hc
        have hb' : b ∈ xs := mem_eraseDups.mp hb
        rw [idxOf_append_of_mem hb', idxOf_append_of_notMem ha, idxOf_cons_self, Nat.add_zero]
        exact idxOf_lt_length_iff.mpr hb'

theorem eraseDups_filter (p : α → Bool) (l : List α) : (l.filter p).eraseDups = l.eraseDups.filter p := by
  induction l using List.reverseRecOn with
  | nil => rfl
  | append_singleton l a ih =>
      rw [eraseDups_concat, filter_append]
      by_cases hp : p a = true
      · have hm : a ∈ l.filter p ↔ a ∈ l := by rw [mem_filter, and_iff_left hp]
        rw [filter_cons_of_pos hp, filter_nil, eraseDups_concat, ih]
        by_cases ha : a ∈ l
        · rw [if_pos (hm.mpr ha), if_pos ha]
        · rw [if_neg (mt hm.mp ha), if_neg ha, filter_append, filter_cons_of_pos hp, filter_nil]
      · rw [filter_cons_of_neg hp, filter_nil, append_nil, ih]
        by_cases ha : a ∈ l
        · rw [if_pos ha]
        · rw [if_neg ha, filter_append, filter_cons_of_neg hp, filter_nil, append_nil]

theorem IsPrefix.eraseDups {l l' : List α} (h : l <+: l') : l.eraseDups <+: l'.eraseDups := by
  obtain ⟨more, rfl⟩ := h
  rw [eraseDups_append]
  exact prefix_append _ _

theorem Nodup.eraseDups_eq {l : List α} (h : l.Nodup) : l.eraseDups = l := by
  induction l using List.reverseRecOn with
  | nil => rfl
  | append_singleton l a ih =>
      obtain ⟨hl, -, ha⟩ := nodup_append.mp h
      have hm : a ∉ l := fun hm => ha a hm a (mem_singleton_self a) rfl
      rw [eraseDups_concat, if_neg hm, ih hl]

end List

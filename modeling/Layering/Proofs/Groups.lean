import Layering.Proofs.Results
import Layering.Proofs.Order
import Mathlib.Data.Finset.Card
import Mathlib.Order.Bounds.Basic

namespace Layering

def IsNameChar (c : Char) : Prop := c ≠ ',' ∧ c ≠ '(' ∧ c ≠ ')' ∧ isBlank c = false

def IsName (name : String) : Prop := name ≠ "" ∧ ∀ c ∈ name.toList, IsNameChar c

namespace RankTable

/-- Groups list names, none of them twice, and only the last group may be empty. The names have their ranks in the order
in which the groups first list them, and each has that of the last group that lists it. -/
structure Consistent (t : RankTable) : Prop where
  nodup : ∀ g ∈ t.groups, g.Nodup
  named : ∀ g ∈ t.groups, ∀ name ∈ g, IsName name
  filled : ∀ g ∈ t.below, g ≠ []
  names : t.ranks.map (·.1) = t.groups.flatten.eraseDups
  greatest : ∀ name rank, t.rank name = some rank → IsGreatest {i | name ∈ t.atRank i} rank

variable {t t' : RankTable} {name : String} {rank : Nat}

theorem rankCount_eq (t : RankTable) : t.rankCount = t.below.length + 1 := by
  simp [rankCount, groups]

theorem mem_atRank : name ∈ t.atRank rank ↔ ∃ g, t.groups[rank]? = some g ∧ name ∈ g := by
  rw [atRank]
  cases t.groups[rank]? <;> simp

theorem atRank_mem_groups (h : name ∈ t.atRank rank) : t.atRank rank ∈ t.groups := by
  obtain ⟨g, hg, -⟩ := mem_atRank.mp h
  rw [atRank, hg]
  exact List.mem_of_getElem? hg

theorem lt_rankCount (h : name ∈ t.atRank rank) : rank < t.rankCount := by
  obtain ⟨g, hg, -⟩ := mem_atRank.mp h
  exact (List.getElem?_eq_some_iff.mp hg).1

theorem exists_mem_atRank_iff : (∃ rank, name ∈ t.atRank rank) ↔ name ∈ t.groups.flatten := by
  rw [List.mem_flatten]
  constructor
  · rintro ⟨rank, h⟩
    exact ⟨_, atRank_mem_groups h, h⟩
  · rintro ⟨g, hg, h⟩
    obtain ⟨rank, hr⟩ := List.mem_iff_getElem?.mp hg
    exact ⟨rank, mem_atRank.mpr ⟨g, hr, h⟩⟩

theorem isGreatest_of_mem_top (h : name ∈ t.top) : IsGreatest {i | name ∈ t.atRank i} t.below.length := by
  constructor
  · change name ∈ t.atRank t.below.length
    rwa [atRank_below]
  · intro i hi
    have hlt := lt_rankCount hi
    rw [rankCount_eq] at hlt
    exact Nat.lt_succ_iff.mp hlt

theorem rank_add (t : RankTable) (name other : String) :
    (t.add name).rank other = if other = name then some t.below.length else t.rank other :=
  lookup_assign name other t.below.length t.ranks

theorem mem_atRank_add {other : String} :
    other ∈ (t.add name).atRank rank ↔ other ∈ t.atRank rank ∨ other = name ∧ rank = t.below.length := by
  rw [atRank_add]
  by_cases hr : rank = t.below.length
  · subst hr
    rw [if_pos rfl, atRank_below]
    by_cases hm : name ∈ t.top
    · rw [if_pos hm]
      exact ⟨.inl, fun h => h.elim id fun h => h.1 ▸ hm⟩
    · simp [hm]
  · simp [hr]

theorem mem_groups_add {g : List String} (hg : g ∈ (t.add name).groups) :
    g ∈ t.groups ∨ name ∉ t.top ∧ g = t.top ++ [name] := by
  by_cases hm : name ∈ t.top
  · exact .inl (by simpa [groups, add, hm] using hg)
  · rcases List.mem_append.mp hg with hg | hg
    · exact .inl (List.mem_append_left _ hg)
    · exact .inr ⟨hm, by simpa [add, hm] using hg⟩

theorem flatten_groups_add (t : RankTable) (name : String) : (t.add name).groups.flatten =
    if name ∈ t.top then t.groups.flatten else t.groups.flatten ++ [name] := by
  by_cases hm : name ∈ t.top <;> simp [groups, add, hm]

theorem mem_top_add (t : RankTable) (name : String) : name ∈ (t.add name).top := by
  by_cases h : name ∈ t.top <;> simp [add, h]

theorem map_fst_assign (name : String) (rank : Nat) (es : List (String × Nat)) :
    (assign name rank es).map (·.1) =
      if name ∈ es.map (·.1) then es.map (·.1) else es.map (·.1) ++ [name] := by
  induction es with
  | nil => rfl
  | cons e es ih =>
      by_cases he : e.1 = name
      · simp [assign, he]
      · have hn : name ≠ e.1 := fun h => he h.symm
        rw [assign, if_neg he, List.map_cons, ih]
        by_cases hm : name ∈ es.map (·.1) <;> simp [hm, hn]

theorem Consistent.empty : RankTable.empty.Consistent := by
  refine ⟨?_, ?_, ?_, rfl, ?_⟩
  · simp [groups, RankTable.empty]
  · simp [groups, RankTable.empty]
  · simp [RankTable.empty]
  · intro name rank h
    cases h

theorem Consistent.add (h : t.Consistent) (hname : IsName name) : (t.add name).Consistent := by
  have htop : t.top ∈ t.groups := by simp [groups]
  constructor
  case nodup =>
    intro g hg
    rcases mem_groups_add hg with hg | ⟨hm, rfl⟩
    · exact h.nodup g hg
    · exact (h.nodup _ htop).append (List.nodup_singleton name) (by simpa using hm)
  case named =>
    intro g hg other ho
    rcases mem_groups_add hg with hg | ⟨-, rfl⟩
    · exact h.named g hg other ho
    · rcases List.mem_append.mp ho with ho | ho
      · exact h.named _ htop other ho
      · exact List.mem_singleton.mp ho ▸ hname
  case filled => exact h.filled
  case names =>
    have hranks : (t.add name).ranks.map (·.1) = _ := map_fst_assign name t.below.length t.ranks
    rw [hranks, h.names, flatten_groups_add]
    simp only [List.mem_eraseDups, ← List.eraseDups_concat]
    -- a name that the last group lists has been listed before
    by_cases hm : name ∈ t.top
    · have hf : name ∈ t.groups.flatten := List.mem_flatten.mpr ⟨_, htop, hm⟩
      rw [if_pos hm, List.eraseDups_concat, if_pos hf]
    · rw [if_neg hm]
  case greatest =>
    intro other rank hr
    rw [rank_add] at hr
    by_cases ho : other = name
    · subst ho
      rw [if_pos rfl] at hr
      obtain rfl := Option.some.inj hr
      exact isGreatest_of_mem_top (mem_top_add t other)
    · rw [if_neg ho] at hr
      have hset : {i | other ∈ (t.add name).atRank i} = {i | other ∈ t.atRank i} := by
        ext i
        simp [mem_atRank_add, ho]
      rw [hset]
      exact h.greatest other rank hr

theorem Consistent.openGroup (h : t.Consistent) (htop : t.top ≠ []) : t.openGroup.Consistent := by
  have hmem : ∀ g ∈ t.openGroup.groups, g ∈ t.groups ∨ g = [] := by simp [groups_openGroup]
  constructor
  case nodup =>
    intro g hg
    rcases hmem g hg with hg | rfl
    · exact h.nodup g hg
    · exact List.nodup_nil
  case named =>
    intro g hg name hn
    rcases hmem g hg with hg | rfl
    · exact h.named g hg name hn
    · cases hn
  case filled =>
    intro g hg
    rcases List.mem_append.mp hg with hg | hg
    · exact h.filled g hg
    · exact List.mem_singleton.mp hg ▸ htop
  case names =>
    have hf : t.openGroup.groups.flatten = t.groups.flatten := by simp [groups_openGroup]
    rw [hf]
    exact h.names
  case greatest =>
    simp only [atRank_openGroup]
    exact h.greatest

theorem Consistent.rank_ne_none_iff (h : t.Consistent) : t.rank name ≠ none ↔ ∃ rank, name ∈ t.atRank rank := by
  rw [exists_mem_atRank_iff, ← List.mem_eraseDups, ← h.names, rank, ne_eq, List.lookup_eq_none_iff_keys, not_not]

theorem Consistent.rank_eq_some_iff (h : t.Consistent) :
    t.rank name = some rank ↔ IsGreatest {i | name ∈ t.atRank i} rank := by
  refine ⟨h.greatest name rank, fun hg => ?_⟩
  obtain ⟨other, ho⟩ := Option.ne_none_iff_exists'.mp (h.rank_ne_none_iff.mpr ⟨rank, hg.1⟩)
  rw [ho, (h.greatest name other ho).unique hg]

theorem Consistent.count_atRank (h : t.Consistent) (hm : name ∈ t.atRank rank) : (t.atRank rank).count name = 1 :=
  List.count_eq_one_of_mem (h.nodup _ (atRank_mem_groups hm)) hm

theorem Consistent.size_eq (h : t.Consistent) : t.size = t.groups.flatten.toFinset.card := by
  have hs : t.groups.flatten.toFinset = t.groups.flatten.eraseDups.toFinset := by
    ext name
    simp only [List.mem_toFinset, List.mem_eraseDups]
  rw [hs, List.toFinset_card_of_nodup (List.nodup_eraseDups _), ← h.names, List.length_map]
  rfl

theorem Consistent.eq_of_groups (h : t.Consistent) (h' : t'.Consistent) (hg : t.groups = t'.groups) : t = t' := by
  obtain ⟨hbelow, htop⟩ := List.append_inj' hg rfl
  have hkeys : t.ranks.map (·.1) = t'.ranks.map (·.1) := by rw [h.names, h'.names, hg]
  have hnodup : (t.ranks.map (·.1)).Nodup := by
    rw [h.names]
    exact List.nodup_eraseDups _
  have hrank : ∀ name, t.rank name = t'.rank name := by
    intro name
    ext rank
    rw [h.rank_eq_some_iff, h'.rank_eq_some_iff]
    simp only [atRank, hg]
  cases t
  cases t'
  rw [mk.injEq]
  exact ⟨hbelow, List.singleton_inj.mp htop, List.eq_of_lookup_eq hkeys hnodup hrank⟩

end RankTable

namespace OrderScan

structure Consistent (s : OrderScan) : Prop where
  table : s.table.Consistent
  name : ∀ c ∈ s.name, IsNameChar c

variable {s s' : OrderScan} {c : Char}

theorem Consistent.start : OrderScan.start.Consistent :=
  ⟨.empty, nofun⟩

theorem Consistent.add (h : s.Consistent) (hn : s.name ≠ []) : (s.table.add (.ofList s.name.reverse)).Consistent := by
  refine h.table.add ⟨?_, ?_⟩
  · simpa using hn
  · intro c hc
    exact h.name c (by simpa using hc)

theorem Consistent.endName (h : s.Consistent) : s.endName.Consistent := by
  rw [OrderScan.endName]
  split
  · exact h.table
  · next hn => exact h.add (by simpa using hn)

theorem Consistent.step_comma (h : s.Consistent) (hs : s.step ',' = .ok s') : s'.Consistent := by
  by_cases hn : s.name = []
  · simp [OrderScan.step, hn] at hs
  · have hend : s.endName = s.table.add (.ofList s.name.reverse) := by simp [OrderScan.endName, hn]
    have htop : s.endName.top ≠ [] := hend ▸ List.ne_nil_of_mem (RankTable.mem_top_add _ _)
    simp only [OrderScan.step, if_true, List.isEmpty_iff, hn, if_false, Except.ok.injEq] at hs
    subst hs
    refine ⟨?_, nofun⟩
    cases hg : s.grouped with
    | true => simpa [hg] using h.endName
    | false => simpa [hg] using h.endName.openGroup htop

theorem Consistent.step (h : s.Consistent) (hs : s.step c = .ok s') : s'.Consistent := by
  by_cases hc : c = ','
  · subst hc
    exact h.step_comma hs
  -- any other character leaves the table as it is
  rw [OrderScan.step, if_neg hc] at hs
  by_cases hl : c = '('
  · rw [if_pos hl] at hs
    exact Except.ok.inj hs ▸ ⟨h.table, h.name⟩
  rw [if_neg hl] at hs
  by_cases hr : c = ')'
  · rw [if_pos hr] at hs
    exact Except.ok.inj hs ▸ ⟨h.table, h.name⟩
  rw [if_neg hr] at hs
  by_cases hb : isBlank c = true
  · rw [if_pos hb] at hs
    exact Except.ok.inj hs ▸ ⟨h.table, h.name⟩
  · rw [if_neg hb] at hs
    refine Except.ok.inj hs ▸ ⟨h.table, ?_⟩
    intro d hd
    rcases List.mem_cons.mp hd with rfl | hd
    · exact ⟨hc, hl, hr, Bool.not_eq_true _ ▸ hb⟩
    · exact h.name d hd

theorem Consistent.scan {cs : List Char} (h : s.Consistent) (hs : cs.foldlM OrderScan.step s = .ok s') :
    s'.Consistent := by
  induction cs generalizing s with
  | nil => exact Except.ok.inj hs ▸ h
  | cons c cs ih =>
      rw [List.foldlM_cons, Except.bind_eq_ok] at hs
      obtain ⟨next, hc, hs⟩ := hs
      exact ih (h.step hc) hs

end OrderScan

namespace RankTable

/-- A table at some step of the scan of some text: what was entered by then, without or with the name being read. -/
def Scanned (t : RankTable) : Prop :=
  ∃ (cs : List Char) (s : OrderScan), cs.foldlM OrderScan.step .start = .ok s ∧ (t = s.table ∨ t = s.endName)

theorem Scanned.consistent {t : RankTable} (h : t.Scanned) : t.Consistent := by
  obtain ⟨cs, s, hs, rfl | rfl⟩ := h
  · exact (OrderScan.Consistent.start.scan hs).table
  · exact (OrderScan.Consistent.start.scan hs).endName

theorem scanned_of_parse {text : String} {t : RankTable} (h : parse text = .ok t) : t.Scanned := by
  rw [parse, Except.bind_eq_ok] at h
  obtain ⟨s, hs, hf⟩ := h
  refine ⟨text.toList, s, hs, .inr ?_⟩
  rw [OrderScan.finish] at hf
  split at hf
  · cases hf
  · exact (Except.ok.inj hf).symm

theorem isName_of_parse {text name : String} {t : RankTable} (h : parse text = .ok t) (hr : t.rank name ≠ none) :
    IsName name := by
  have hc := (scanned_of_parse h).consistent
  obtain ⟨rank, hm⟩ := hc.rank_ne_none_iff.mp hr
  exact hc.named _ (atRank_mem_groups hm) name hm

/-- While an order text is scanned, and so in the table it gives: there is a last group, into which names are entered;
groups list names, none of them twice, and only the last group may be empty; just the names that are listed have a rank,
the index of the last group that lists them; and the groups determine the table. -/
theorem scanned_groups :
    (∀ text t, parse text = .ok t → t.Scanned) ∧
    (∀ t : RankTable, t.Scanned →
      0 < t.rankCount ∧ t.groups[t.rankCount - 1]? = some t.top ∧
      (∀ g ∈ t.groups, g.Nodup) ∧ (∀ g ∈ t.groups, ∀ name ∈ g, IsName name) ∧ (∀ g ∈ t.groups.dropLast, g ≠ []) ∧
      (∀ name, (∃ rank, t.rank name = some rank) ↔ ∃ g ∈ t.groups, name ∈ g) ∧
      (∀ name rank, t.rank name = some rank →
        IsGreatest {i | name ∈ t.atRank i} rank ∧ rank < t.rankCount ∧ (t.atRank rank).count name = 1) ∧
      t.size = t.groups.flatten.toFinset.card) ∧
    ∀ t t' : RankTable, t.Scanned → t'.Scanned → (t = t' ↔ t.groups = t'.groups) := by
  refine ⟨fun text t => scanned_of_parse, fun t ht => ?_, fun t t' ht ht' => ⟨congrArg groups, ?_⟩⟩
  · have h := ht.consistent
    refine ⟨?_, ?_, h.nodup, h.named, ?_, ?_, ?_, h.size_eq⟩
    · rw [rankCount_eq]
      exact Nat.succ_pos _
    · rw [rankCount_eq, Nat.add_sub_cancel, groups, List.getElem?_concat_length]
    · rw [groups, List.dropLast_concat]
      exact h.filled
    · intro name
      rw [← Option.ne_none_iff_exists', h.rank_ne_none_iff, exists_mem_atRank_iff, List.mem_flatten]
    · intro name rank hr
      have hg := h.greatest name rank hr
      exact ⟨hg, lt_rankCount hg.1, h.count_atRank hg.1⟩
  · exact ht.consistent.eq_of_groups ht'.consistent

theorem scanned_groups_twice :
    let t : RankTable := ⟨[["a", "b"], ["a", "c"]], [], [("a", 1), ("b", 0), ("c", 1)]⟩
    parse "(a,b,a),(a,c)," = .ok t ∧ t.Scanned ∧ IsGreatest {i | "a" ∈ t.atRank i} 1 ∧ t.size = 3 ∧
      ∀ t', t'.Scanned → t.groups = t'.groups → t = t' := by
  intro t
  have hp : parse "(a,b,a),(a,c)," = .ok t := by decide
  obtain ⟨hparse, hgroups, heq⟩ := scanned_groups
  have ht : t.Scanned := hparse _ t hp
  obtain ⟨-, -, -, -, -, -, hrank, -⟩ := hgroups t ht
  exact ⟨hp, ht, (hrank "a" 1 rfl).1, rfl, fun t' ht' => (heq t t' ht ht').mpr⟩

end RankTable

end Layering

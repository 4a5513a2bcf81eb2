import Layering.Proofs.Order

namespace Layering.OrderText

/-- Names that stand one after the other before the commas of `cs`, with their layers. -/
def layered (cs : List Char) (names : List String) : List (String × Nat) :=
  names.zipIdx.map fun u => (u.1, layer cs u.2)

/-- A scan that has read `cs`, of which `done` are the names before its commas. -/
structure Follows (cs : List Char) (done : List String) (s : OrderScan) : Prop where
  position : s.position = cs.length
  split : segments cs = done ++ [.ofList s.name.reverse]
  grouped : s.grouped = isOpen cs
  named : "" ∉ done
  layers : s.table.below.length = layer cs done.length
  table : s.table.Lists (layered cs done)

variable {cs : List Char} {done : List String} {s : OrderScan} {c : Char}

theorem Follows.start : Follows [] [] .start :=
  ⟨rfl, rfl, rfl, by simp, rfl, .empty⟩

theorem Follows.length_commas (h : Follows cs done s) : (commas cs).length = done.length := by
  have hl := length_segments cs
  rw [h.split] at hl
  simpa using hl.symm

theorem ofList_reverse_eq_empty {name : List Char} : String.ofList name.reverse = "" ↔ name = [] := by
  rw [← String.ofList_nil, String.ofList_inj, List.reverse_eq_nil_iff]

theorem Follows.layered_append (h : Follows cs done s) (ys : List Char) :
    layered (cs ++ ys) done = layered cs done := by
  refine List.map_congr_left fun u hu => ?_
  have hi : u.2 < done.length := by
    have hu' := List.mem_zipIdx_iff_getElem?.mp hu
    exact (List.getElem?_eq_some_iff.mp hu').1
  rw [layer_append ys (by rw [h.length_commas]; omega)]

theorem Follows.step_unnamed (h : Follows cs done s) (hn : s.name = []) :
    s.step ',' = .error (.tooManyCommas cs.length) := by
  simp [OrderScan.step, hn, h.position]

theorem Follows.step_comma (h : Follows cs done s) (hn : s.name ≠ []) :
    ∃ s', s.step ',' = .ok s' ∧ Follows (cs ++ [',']) (done ++ [.ofList s.name.reverse]) s' := by
  have hname : s.name.isEmpty = false := by simpa using hn
  have hend : s.endName = s.table.add (.ofList s.name.reverse) := by simp [OrderScan.endName, hname]
  have hbelow : s.endName.below.length = layer cs done.length := by rw [hend]; exact h.layers
  have hlists : s.endName.Lists (layered (cs ++ [',']) (done ++ [.ofList s.name.reverse])) := by
    have ha := h.table.add (.ofList s.name.reverse)
    have hl : layer (cs ++ [',']) done.length = layer cs done.length :=
      layer_append [','] (Nat.le_of_eq h.length_commas.symm)
    have hk := h.layered_append [',']
    simp only [layered] at hk ha ⊢
    rw [hend, List.zipIdx_append, List.map_append, hk]
    simpa [hl, h.layers] using ha
  have hcount : layer (cs ++ [',']) (done.length + 1) = layer cs done.length + if isOpen cs then 0 else 1 := by
    have hc := layer_comma cs []
    rwa [h.length_commas] at hc
  refine ⟨⟨if s.grouped then s.endName else s.endName.openGroup, [], s.grouped, s.position + 1⟩,
    by simp [OrderScan.step, hname], ?_⟩
  refine ⟨by simp [h.position], ?_, ?_, ?_, ?_, ?_⟩
  · have hs := segments_append cs []
    rw [h.split] at hs
    simpa [segments, nameOf] using hs
  · rw [isOpen_concat]
    exact h.grouped
  · simp only [List.mem_append, List.mem_singleton, not_or]
    exact ⟨h.named, fun he => hn (ofList_reverse_eq_empty.mp he.symm)⟩
  · simp only [List.length_append, List.length_singleton, hcount, h.grouped]
    cases isOpen cs <;> simp [RankTable.openGroup, hbelow]
  · cases hg : s.grouped with
    | true => simpa [hg] using hlists
    | false => simpa [hg] using hlists.openGroup

theorem Follows.step_char (h : Follows cs done s) (hc : c ≠ ',') :
    ∃ s', s.step c = .ok s' ∧ Follows (cs ++ [c]) done s' := by
  obtain ⟨init, last, hs, hs'⟩ := segments_concat hc cs
  rw [h.split] at hs
  obtain ⟨rfl, hlast⟩ := List.append_inj' hs rfl
  have hlast : last.filter (fun c => !isBlank c && !isParenthesis c) = s.name.reverse := by
    simpa [nameOf, String.ofList_inj] using hlast.symm
  have hlayers : s.table.below.length = layer (cs ++ [c]) done.length := by
    rw [h.layers, layer_append [c] (Nat.le_of_eq h.length_commas.symm)]
  have htable : s.table.Lists (layered (cs ++ [c]) done) := by
    rw [h.layered_append [c]]
    exact h.table
  -- what the step leaves to look at: the name, and whether a parenthesis is open
  have hnext : ∀ (name : List Char) (grouped : Bool), nameOf (last ++ [c]) = .ofList name.reverse →
      grouped = isOpen (cs ++ [c]) → Follows (cs ++ [c]) done ⟨s.table, name, grouped, s.position + 1⟩ :=
    fun name grouped hname hgrouped =>
      ⟨by simp [h.position], by rw [hs', hname], hgrouped, h.named, hlayers, htable⟩
  have hkeep : isBlank c ∨ isParenthesis c → nameOf (last ++ [c]) = .ofList s.name.reverse := by
    rintro (hb | hp)
    · simp [nameOf, List.filter_append, hlast, hb]
    · simp [nameOf, List.filter_append, hlast, hp]
  by_cases hl : c = '('
  · subst hl
    exact ⟨_, by simp [OrderScan.step], hnext s.name true (hkeep (.inr rfl)) (by simp [isOpen_concat, isParenthesis])⟩
  by_cases hr : c = ')'
  · subst hr
    exact ⟨_, by simp [OrderScan.step], hnext s.name false (hkeep (.inr rfl)) (by simp [isOpen_concat, isParenthesis])⟩
  have hp : isParenthesis c = false := by simp [isParenthesis, hl, hr]
  have hg : s.grouped = isOpen (cs ++ [c]) := by simp [isOpen_concat, hp, h.grouped]
  by_cases hb : isBlank c
  · exact ⟨_, by simp [OrderScan.step, hc, hl, hr, hb], hnext s.name s.grouped (hkeep (.inl hb)) hg⟩
  · refine ⟨_, by simp [OrderScan.step, hc, hl, hr, hb], hnext (c :: s.name) s.grouped ?_ hg⟩
    simp [nameOf, List.filter_append, hlast, hb, hp]

/-- A scan reads on to the end, or up to a comma without a name before it. -/
theorem Follows.scan (h : Follows cs done s) (rest : List Char) :
    (∃ done' s', rest.foldlM OrderScan.step s = .ok s' ∧ Follows (cs ++ rest) done' s') ∨
    ∃ before after done', rest = before ++ ',' :: after ∧ segments (cs ++ before) = done' ++ [""] ∧ "" ∉ done' ∧
      rest.foldlM OrderScan.step s = .error (.tooManyCommas (cs ++ before).length) := by
  induction rest generalizing cs done s with
  | nil => exact .inl ⟨done, s, rfl, by simpa using h⟩
  | cons c rest ih =>
      have hnext : ∀ done' s', s.step c = .ok s' → Follows (cs ++ [c]) done' s' →
          (∃ done' s', (c :: rest).foldlM OrderScan.step s = .ok s' ∧ Follows (cs ++ c :: rest) done' s') ∨
          ∃ before after done', c :: rest = before ++ ',' :: after ∧ segments (cs ++ before) = done' ++ [""] ∧
            "" ∉ done' ∧
            (c :: rest).foldlM OrderScan.step s = .error (.tooManyCommas (cs ++ before).length) := by
        intro done' s' hs h'
        have hstep : (c :: rest).foldlM OrderScan.step s = rest.foldlM OrderScan.step s' := by
          rw [List.foldlM_cons, hs]
          rfl
        rw [hstep]
        rcases ih h' with ⟨done'', s'', hf, hg⟩ | ⟨before, after, done'', hr, hseg, hn, hf⟩
        · exact .inl ⟨done'', s'', hf, by simpa using hg⟩
        · exact .inr ⟨c :: before, after, done'', by simp [hr], by simpa using hseg, hn, by simpa using hf⟩
      by_cases hc : c = ','
      · subst hc
        by_cases hn : s.name = []
        · refine .inr ⟨[], rest, done, rfl, by simpa [hn] using h.split, h.named, ?_⟩
          rw [List.foldlM_cons, h.step_unnamed hn, List.append_nil]
          rfl
        · obtain ⟨s', hs, h'⟩ := h.step_comma hn
          exact hnext _ s' hs h'
      · obtain ⟨s', hs, h'⟩ := h.step_char hc
        exact hnext done s' hs h'

/-- The names of a text with their layers, without the empty one that may stand at its end. -/
def entries (cs : List Char) : List (String × Nat) :=
  ((segments cs).zipIdx.filter (·.1 ≠ "")).map fun u => (u.1, layer cs u.2)

theorem filter_named (names : List String) (hn : "" ∉ names) : names.zipIdx.filter (·.1 ≠ "") = names.zipIdx := by
  rw [List.filter_eq_self]
  intro u hu
  have hm : u.1 ∈ names := List.mem_of_getElem? (List.mem_zipIdx_iff_getElem?.mp hu)
  have hne : u.1 ≠ "" := fun he => hn (he ▸ hm)
  simpa using hne

theorem Follows.endName_lists (h : Follows cs done s) : s.endName.Lists (entries cs) := by
  rw [entries]
  rw [h.split, List.zipIdx_append, List.filter_append, filter_named done h.named]
  by_cases hn : s.name = []
  · simpa [OrderScan.endName, hn, layered] using h.table
  · have hne : String.ofList s.name.reverse ≠ "" := fun he => hn (ofList_reverse_eq_empty.mp he)
    have ha := h.table.add (.ofList s.name.reverse)
    rw [h.layers] at ha
    simpa [OrderScan.endName, hn, hne, layered] using ha

theorem Follows.endName_rankCount (h : Follows cs done s) : s.endName.rankCount = 1 + layer cs done.length := by
  have hb : s.endName.below = s.table.below := by
    rw [OrderScan.endName]
    split <;> rfl
  simp [RankTable.rankCount, RankTable.groups, hb, h.layers, Nat.add_comm]

theorem lookup_entries {name : String} {i : Nat} (hn : name ≠ "") (hi : (segments cs)[i]? = some name)
    (hlast : ∀ j > i, (segments cs)[j]? ≠ some name) : (entries cs).reverse.lookup name = some (layer cs i) := by
  obtain ⟨hlt, hget⟩ := List.getElem?_eq_some_iff.mp hi
  have hsplit : segments cs = (segments cs).take i ++ name :: (segments cs).drop (i + 1) := by
    rw [← hget, List.getElem_cons_drop, List.take_append_drop]
  have hlen : ((segments cs).take i).length = i := by simp; omega
  rw [List.lookup_eq_some_iff]
  rw [entries]
  rw [hsplit, List.zipIdx_append, hlen, List.zipIdx_cons, List.filter_append, List.filter_cons_of_pos (by simpa using hn),
    List.map_append, List.map_cons, List.reverse_append, List.reverse_cons]
  refine ⟨_, _, (by simp only [List.append_assoc, List.singleton_append, Nat.zero_add]; rfl), ?_⟩
  intro p hp
  simp only [List.mem_reverse, List.mem_map, List.mem_filter] at hp
  obtain ⟨u, ⟨hu, -⟩, rfl⟩ := hp
  have hu' := (List.mem_zipIdx_iff_le_and_getElem?_sub.mp hu)
  rw [List.getElem?_drop] at hu'
  simp only [bne_iff_ne, ne_eq]
  rintro rfl
  exact hlast _ (by omega) hu'.2

theorem lookup_entries_eq_none {name : String} (h : name = "" ∨ name ∉ segments cs) :
    (entries cs).reverse.lookup name = none := by
  rw [List.lookup_eq_none_iff]
  intro p hp
  simp only [entries, List.mem_reverse, List.mem_map, List.mem_filter, decide_eq_true_eq] at hp
  obtain ⟨u, ⟨hu, hne⟩, rfl⟩ := hp
  have hm : u.1 ∈ segments cs := List.mem_of_getElem? (List.mem_zipIdx_iff_getElem?.mp hu)
  simp only [bne_iff_ne, ne_eq]
  rintro rfl
  exact h.elim hne (absurd hm)

theorem names_of_entries (cs : List Char) (rank : Nat) : ((entries cs).filter (·.2 = rank)).map (·.1) =
    ((segments cs).zipIdx.filter fun u => u.1 ≠ "" ∧ layer cs u.2 = rank).map (·.1) := by
  simp only [entries, List.filter_map, List.map_map, List.filter_filter, Function.comp_def]
  congr 2
  funext u
  simp [Bool.and_comm]

theorem parse_unnamed {text : String} {before after : List Char} {done : List String}
    (hf : text.toList.foldlM OrderScan.step .start = .error (.tooManyCommas before.length))
    (ht : text.toList = before ++ ',' :: after) (hs : segments before = done ++ [""]) (hd : "" ∉ done) :
    RankTable.parse text = .error (.tooManyCommas before.length) ∧
      (commas text.toList)[done.length]? = some before.length ∧
      ∀ i, (segments text.toList)[i]? = some "" → done.length ≤ i := by
  have hl : (commas before).length = done.length := by
    have hl := length_segments before
    rw [hs] at hl
    simpa using hl.symm
  refine ⟨by rw [RankTable.parse, hf]; rfl, ?_, fun i hi => ?_⟩
  · rw [ht, commas_append, ← hl]
    simp
  · by_contra hlt
    rw [ht, segments_append, hs, List.append_assoc, List.getElem?_append_left (by omega)] at hi
    exact hd (List.mem_of_getElem? hi)

theorem Follows.parse {text : String} (h : Follows text.toList done s)
    (hf : text.toList.foldlM OrderScan.step .start = .ok s) :
    RankTable.parse text = if isOpen text.toList then .error .parenthesesMismatch else .ok s.endName := by
  rw [RankTable.parse, hf]
  change s.finish = _
  rw [OrderScan.finish, h.grouped]

theorem Follows.getElem?_ne_empty (h : Follows cs done s) {i : Nat} (hi : i < (commas cs).length) :
    (OrderText.segments cs)[i]? ≠ some "" := by
  rw [h.length_commas] at hi
  rw [h.split, List.getElem?_append_left hi]
  exact fun he => h.named (List.mem_of_getElem? he)

/-- The whole reading of an order text, by its commas and the names between them. -/
theorem parse_reads (text : String) :
    (∀ i c : Nat, (commas text.toList)[i]? = some c → (segments text.toList)[i]? = some "" →
      (∀ j < i, (segments text.toList)[j]? ≠ some "") → RankTable.parse text = .error (.tooManyCommas c)) ∧
    ((∀ i : Nat, i < (commas text.toList).length → (segments text.toList)[i]? ≠ some "") →
      (isOpen text.toList = true → RankTable.parse text = .error .parenthesesMismatch) ∧
      (isOpen text.toList = false → ∃ t, RankTable.parse text = .ok t ∧
        t.rankCount = 1 + layer text.toList (commas text.toList).length ∧
        (∀ (name : String) (i : Nat), name ≠ "" → (segments text.toList)[i]? = some name →
          (∀ j > i, (segments text.toList)[j]? ≠ some name) → t.rank name = some (layer text.toList i)) ∧
        (∀ name, name = "" ∨ name ∉ segments text.toList → t.rank name = none) ∧
        (∀ rank, t.atRank rank = (((segments text.toList).zipIdx.filter fun u =>
          u.1 ≠ "" ∧ layer text.toList u.2 = rank).map (·.1)).eraseDups) ∧
        ∀ rank ≥ t.rankCount, t.atRank rank = [])) := by
  rcases Follows.start.scan text.toList with ⟨done, s, hf, h⟩ | ⟨before, after, done, ht, hs, hd, hf⟩
  · rw [List.nil_append] at h
    have hp := h.parse hf
    refine ⟨?_, fun _ => ⟨fun ho => by simpa [ho] using hp, fun ho => ?_⟩⟩
    · intro i c hc hi hfirst
      have hlt : i < (commas text.toList).length := (List.getElem?_eq_some_iff.mp hc).1
      exact absurd hi (h.getElem?_ne_empty hlt)
    · have ht := h.endName_lists
      refine ⟨s.endName, by simpa [ho] using hp, ?_, ?_, ?_, ?_, ?_⟩
      · rw [h.endName_rankCount, h.length_commas]
      · intro name i hn hi hlast
        rw [ht.rank, lookup_entries hn hi hlast]
      · intro name hn
        rw [ht.rank, lookup_entries_eq_none hn]
      · intro rank
        rw [ht.atRank, names_of_entries]
      · intro rank hr
        simp [RankTable.atRank, List.getElem?_eq_none hr]
  · rw [List.nil_append] at hs hf
    obtain ⟨hp, hc, hleast⟩ := parse_unnamed hf ht hs hd
    have hempty : (segments text.toList)[done.length]? = some "" := by
      rw [ht, segments_append, hs]
      simp
    refine ⟨fun i c hi hn hj => ?_, fun hall => ?_⟩
    · have hle := hleast i hn
      have hge : ¬ done.length < i := fun hlt => hj _ hlt hempty
      obtain rfl : i = done.length := by omega
      rw [hp, ← Option.some.inj (hi.symm.trans hc)]
    · exact absurd hempty (hall _ (List.getElem?_eq_some_iff.mp hc).1)

end Layering.OrderText

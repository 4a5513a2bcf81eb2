import Layering.Proofs.Json.RoundTrip
import Layering.Proofs.Lists
import Layering.Report.Decode
import Layering.Report.Encode

namespace Layering.Json

variable {n k : Nat} {v : Json}

theorem Readable.mono (h : Readable n v) (hk : n ≤ k) : Readable k v := by
  induction h generalizing k with
  | null => exact .null
  | bool b => exact .bool b
  | int hlow hhigh => exact .int hlow hhigh
  | str s => exact .str s
  | arr h ih =>
      cases k with
      | zero => omega
      | succ k => exact .arr fun v hv => ih v hv (by omega)
  | obj h ih =>
      cases k with
      | zero => omega
      | succ k => exact .obj fun f hf => ih f hf (by omega)

theorem lookup_insertField (key key' : String) (v : Json) (fs : List (String × Json)) :
    (insertField key v fs).lookup key' = if key' = key then some v else fs.lookup key' := by
  induction fs with
  | nil => rw [insertField, List.lookup_cons_eq_if]
  | cons f fs ih =>
      obtain ⟨name, w⟩ := f
      rw [insertField]
      by_cases hf : key = name
      · subst hf
        simp only [if_true, List.lookup_cons_eq_if]
        split <;> rfl
      · simp only [hf, if_false]
        split
        · simp only [List.lookup_cons_eq_if]
        · simp only [List.lookup_cons_eq_if, ih]
          by_cases hk : key' = name
          · have hne : name ≠ key := fun he => hf he.symm
            simp [hk, hne]
          · simp [hk]

/-- The fields of a sorted object are found as those of the object, the last of a key before the others. -/
theorem lookup_sortedFields (key : String) (read fs : List (String × Json)) :
    (sortedFields read fs).lookup key = ((fs.reverse.lookup key).map sorted).or (read.lookup key) := by
  induction fs generalizing read with
  | nil => simp [sortedFields]
  | cons f fs ih =>
      obtain ⟨name, v⟩ := f
      rw [sortedFields, ih, lookup_insertField, List.reverse_cons, List.lookup_append, List.lookup_cons_eq_if]
      cases fs.reverse.lookup key with
      | some v => simp
      | none => by_cases hk : key = name <;> simp [hk]

theorem sortedItems_eq_map (vs : List Json) : sortedItems vs = vs.map sorted := by
  induction vs with
  | nil => rfl
  | cons v vs ih => rw [sortedItems, ih, List.map_cons]

theorem insertField_last {key : String} {fs : List (String × Json)} (h : ∀ f ∈ fs, f.1 < key) (v : Json) :
    insertField key v fs = fs ++ [(key, v)] := by
  induction fs with
  | nil => rfl
  | cons f fs ih =>
      have hf : f.1 < key := h f (by simp)
      have hne : key ≠ f.1 := fun he => String.lt_irrefl key (by rwa [← he] at hf)
      have hlt : ¬ key < f.1 := fun hk => String.lt_irrefl _ (String.lt_trans hf hk)
      rw [insertField, if_neg hne, if_neg hlt, ih fun g hg => h g (by simp [hg])]
      rfl

theorem sortedFields_ascending {read fs : List (String × Json)} (h : ((read ++ fs).map (·.1)).Pairwise (· < ·))
    (hs : ∀ f ∈ fs, sorted f.2 = f.2) : sortedFields read fs = read ++ fs := by
  induction fs generalizing read with
  | nil => simp [sortedFields]
  | cons f fs ih =>
      have hlast : ∀ g ∈ read, g.1 < f.1 := by
        intro g hg
        rw [List.map_append, List.pairwise_append] at h
        exact h.2.2 g.1 (List.mem_map_of_mem hg) f.1 (by simp)
      rw [sortedFields, hs f (by simp), insertField_last hlast, ih (by simpa using h) fun g hg => hs g (by simp [hg])]
      simp

theorem sorted_ascending {fs : List (String × Json)} (h : (fs.map (·.1)).Pairwise (· < ·))
    (hs : ∀ f ∈ fs, sorted f.2 = f.2) : sorted (.obj fs) = .obj fs := by
  have hf : sortedFields [] fs = [] ++ fs := sortedFields_ascending h hs
  rw [sorted, hf]
  rfl

theorem lookup_record_eq_none {name : String} {names : List String} (h : name ∉ names) (vs : List (Option Json)) :
    (record names vs).reverse.lookup name = none := by
  induction names generalizing vs with
  | nil => simp [record]
  | cons other names ih =>
      obtain ⟨hne, hn⟩ := not_or.mp (mt List.mem_cons.mpr h)
      cases vs with
      | nil => simp [record]
      | cons v vs =>
          cases v with
          | none => exact ih hn vs
          | some v =>
              rw [record, List.reverse_cons, List.lookup_append, ih hn vs, List.lookup_cons_eq_if, if_neg hne]
              rfl

theorem lookup_record_head {name : String} {names : List String} (h : name ∉ names) (v : Json)
    (vs : List (Option Json)) : (record (name :: names) (some v :: vs)).reverse.lookup name = some v := by
  rw [record, List.reverse_cons, List.lookup_append, lookup_record_eq_none h]
  simp

theorem lookup_record {names : List String} (hn : names.Nodup) {vs : List (Option Json)}
    (hl : vs.length = names.length) : names.map (fun name => (record names vs).reverse.lookup name) = vs := by
  induction names generalizing vs with
  | nil => exact (List.length_eq_zero_iff.mp hl).symm
  | cons name names ih =>
      obtain ⟨hname, hn⟩ := List.nodup_cons.mp hn
      cases vs with
      | nil => cases hl
      | cons v vs =>
          have hi := ih hn (Nat.succ.inj hl)
          cases v with
          | none =>
              rw [List.map_cons]
              exact congrArg₂ _ (lookup_record_eq_none hname vs) hi
          | some v =>
              have hother : ∀ other ∈ names, (record (name :: names) (some v :: vs)).reverse.lookup other =
                  (record names vs).reverse.lookup other := by
                intro other ho
                have hne : other ≠ name := fun he => hname (he ▸ ho)
                rw [record, List.reverse_cons, List.lookup_append, List.lookup_cons_eq_if, if_neg hne]
                simp
              rw [List.map_cons, lookup_record_head hname, List.map_congr_left hother, hi]

theorem parts_record {names : List String} (hn : names.Nodup) {vs : List (Option Json)}
    (hl : vs.length = names.length) (spare : Nat) :
    (sorted (.obj (record names vs))).parts names spare = some (vs.map (Option.map sorted)) := by
  have hr := congrArg (List.map (Option.map sorted)) (lookup_record hn hl)
  rw [List.map_map] at hr
  simp only [sorted, parts, lookup_sortedFields, List.lookup_nil, Option.or_none]
  exact congrArg some hr

@[simp]
theorem sorted_str (s : String) : sorted (.str s) = .str s := by
  simp [sorted]

@[simp]
theorem asText?_str (s : String) : asText? (some (.str s)) = some s := rfl

@[simp]
theorem asTextOrNull?_map (s : Option String) : asTextOrNull? (s.map (sorted ∘ str)) = some s := by
  cases s with
  | none => rfl
  | some s => simp [asTextOrNull?]

theorem getD_present (v : Json) : (v.present.map sorted).getD .null = sorted v := by
  unfold present
  split <;> rfl

@[simp]
theorem sorted_count (n : UInt32) : sorted (count n) = count n := by
  simp [count, sorted]

@[simp]
theorem asCount?_count (n : UInt32) : asCount? (some (count n)) = some n := by
  have hn : n.toNat < 4294967296 := n.toNat_lt
  simp [asCount?, count, hn]

theorem mapM_asText? (items : List String) : (items.map str).mapM (fun v => asText? (some v)) = some items := by
  induction items with
  | nil => rfl
  | cons item items ih =>
      rw [List.map_cons, List.mapM_cons, ih]
      rfl

theorem sorted_strings (items : List String) : sorted (strings items) = strings items := by
  simp [strings, sorted, sortedItems_eq_map]

theorem asGroups?_order (groups : List (List String)) :
    asGroups? ((order groups).map sorted) = some groups := by
  have hm : (groups.map strings).mapM (fun group => do
      (← asItems? (some group)).mapM fun name => asText? (some name)) = some groups := by
    induction groups with
    | nil => rfl
    | cons group groups ih =>
        have hg : (do (← asItems? (some (strings group))).mapM fun name => asText? (some name)) = some group :=
          mapM_asText? group
        rw [List.map_cons, List.mapM_cons, ih, hg]
        rfl
  have hs : sorted (.arr (groups.map strings)) = .arr (groups.map strings) := by
    rw [sorted, sortedItems_eq_map, List.map_map]
    exact congrArg Json.arr (List.map_congr_left fun group _ => sorted_strings group)
  rw [order]
  split
  · next he => rw [List.isEmpty_iff.mp he]; rfl
  · rw [Option.map_some, hs]
    exact hm

theorem mem_record {names : List String} {vs : List (Option Json)} {f : String × Json} (h : f ∈ record names vs) :
    some f.2 ∈ vs := by
  induction names generalizing vs with
  | nil => simp [record] at h
  | cons name names ih =>
      cases vs with
      | nil => simp [record] at h
      | cons v vs =>
          cases v with
          | none => exact List.mem_cons_of_mem _ (ih h)
          | some v =>
              rcases List.mem_cons.mp h with rfl | h
              · exact List.mem_cons_self
              · exact List.mem_cons_of_mem _ (ih h)

theorem readable_record (names : List String) {vs : List (Option Json)} (h : ∀ v, some v ∈ vs → v.Readable n) :
    (Json.obj (record names vs)).Readable (n + 1) :=
  .obj fun f hf => h f.2 (mem_record hf)

theorem readable_count (m : UInt32) : (count m).Readable n := by
  have hm := m.toNat_lt
  exact .int (by omega) (by omega)

theorem readable_of_mem_map_str {s : Option String} (h : some v = s.map str) : v.Readable n := by
  obtain ⟨s, -, rfl⟩ := Option.map_eq_some_iff.mp h.symm
  exact .str s

theorem eq_of_mem_present {w : Json} (h : some v = w.present) : v = w := by
  unfold present at h
  split at h
  · cases h
  · exact Option.some.inj h

theorem readable_of_mem_order {groups : List (List String)} (h : some v = order groups) : v.Readable 2 := by
  rw [order] at h
  split at h
  · cases h
  · obtain rfl := Option.some.inj h
    refine .arr fun v hv => ?_
    obtain ⟨group, -, rfl⟩ := List.mem_map.mp hv
    refine .arr fun v hv => ?_
    obtain ⟨s, -, rfl⟩ := List.mem_map.mp hv
    exact .str s

end Layering.Json

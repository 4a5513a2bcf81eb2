import Mathlib.Data.List.DropRight
import Mathlib.Data.List.Induction

namespace List

variable {α : Type} [DecidableEq α]

theorem splitOn_concat {a sep : α} (h : a ≠ sep) (l : List α) :
    ∃ init last, l.splitOn sep = init ++ [last] ∧ (l ++ [a]).splitOn sep = init ++ [last ++ [a]] := by
  induction l with
  | nil => exact ⟨[], [], rfl, by simp [splitOn_cons_eq_if_modifyHead, h]⟩
  | cons b l ih =>
      obtain ⟨init, last, hs, hs'⟩ := ih
      rw [cons_append, splitOn_cons_eq_if_modifyHead, splitOn_cons_eq_if_modifyHead, hs, hs']
      by_cases hb : b = sep
      · exact ⟨[] :: init, last, by simp [hb], by simp [hb]⟩
      · cases init with
        | nil => exact ⟨[], b :: last, by simp [hb], by simp [hb]⟩
        | cons first init => exact ⟨(b :: first) :: init, last, by simp [hb], by simp [hb]⟩

theorem splitOn_eq_concat (sep : α) (l : List α) : ∃ init, l.splitOn sep = init ++ [l.rtakeWhile (· ≠ sep)] := by
  induction l using List.reverseRecOn with
  | nil => exact ⟨[], rfl⟩
  | append_singleton l a ih =>
      by_cases ha : a = sep
      · subst ha
        rw [rtakeWhile_concat_neg _ _ _ (by simp)]
        exact ⟨l.splitOn a, splitOn_append_cons_self l []⟩
      · obtain ⟨init, last, hs, hs'⟩ := splitOn_concat ha l
        obtain ⟨init', hl⟩ := ih
        obtain ⟨rfl, hlast⟩ := append_inj' (hs.symm.trans hl) rfl
        rw [rtakeWhile_concat_pos _ _ _ (by simpa using ha), ← List.singleton_inj.mp hlast]
        exact ⟨init, hs'⟩

theorem length_splitOn (sep : α) (l : List α) : (l.splitOn sep).length = l.count sep + 1 := by
  induction l with
  | nil => rfl
  | cons a l ih =>
      rw [splitOn_cons_eq_if_modifyHead]
      by_cases ha : a = sep <;> simp [ha, ih]

theorem splitOn_eq_singleton_iff {sep : α} {l a : List α} : l.splitOn sep = [a] ↔ sep ∉ l ∧ a = l := by
  constructor
  · intro h
    have hcount := length_splitOn sep l
    have hl : [sep].intercalate (l.splitOn sep) = l := intercalate_splitOn sep
    rw [h] at hcount hl
    exact ⟨count_eq_zero.mp (Nat.add_right_cancel hcount).symm, by simpa using hl⟩
  · rintro ⟨h, rfl⟩
    exact splitOn_eq_singleton h

theorem splitOn_eq_pair_iff {sep : α} {l a b : List α} :
    l.splitOn sep = [a, b] ↔ l = a ++ sep :: b ∧ sep ∉ a ∧ sep ∉ b := by
  constructor
  · intro h
    have hcount := length_splitOn sep l
    have hl : a ++ sep :: b = l := by
      have hl : [sep].intercalate (l.splitOn sep) = l := intercalate_splitOn sep
      rw [h] at hl
      simpa using hl
    rw [h, ← hl, count_append, count_cons_self] at hcount
    have hzero : a.count sep = 0 ∧ b.count sep = 0 := by
      simp only [length_cons, length_nil] at hcount
      omega
    exact ⟨hl.symm, count_eq_zero.mp hzero.1, count_eq_zero.mp hzero.2⟩
  · rintro ⟨rfl, ha, hb⟩
    rw [splitOn_append_cons_self_of_not_mem ha, splitOn_eq_singleton hb]

theorem splitOn_flatMap_concat {sep : α} {ls : List (List α)} (h : ∀ l ∈ ls, sep ∉ l) (rest : List α) :
    (ls.flatMap (· ++ [sep]) ++ rest).splitOn sep = ls ++ rest.splitOn sep := by
  induction ls with
  | nil => rfl
  | cons l ls ih =>
      have hrest := ih fun l' hl => h l' (mem_cons_of_mem l hl)
      rw [flatMap_cons, append_assoc, append_assoc, singleton_append,
        splitOn_append_cons_self_of_not_mem (h l mem_cons_self), hrest, cons_append]

theorem count_flatMap_concat (sep : α) (ls : List (List α)) :
    (ls.flatMap (· ++ [sep])).count sep = ls.flatten.count sep + ls.length := by
  induction ls with
  | nil => rfl
  | cons l ls ih =>
      rw [flatMap_cons, count_append, count_append, count_singleton_self, ih, flatten_cons, count_append, length_cons]
      omega

theorem le_length_splitOn_flatMap_concat (sep : α) (ls : List (List α)) :
    ls.length + 1 ≤ ((ls.flatMap (· ++ [sep])).splitOn sep).length := by
  rw [length_splitOn, count_flatMap_concat]
  omega

theorem length_splitOn_flatMap_concat (sep : α) (ls : List (List α)) :
    ((ls.flatMap (· ++ [sep])).splitOn sep).length = ls.length + 1 ↔ ∀ l ∈ ls, sep ∉ l := by
  rw [length_splitOn, count_flatMap_concat, Nat.add_right_cancel_iff, Nat.add_eq_right, count_eq_zero]
  simp only [mem_flatten, not_exists, not_and]

end List

namespace Layering

/-- The lines of a text; the last one is what stands behind the last line end. -/
def lines (text : String) : List String := (text.toList.splitOn '\n').map .ofList

variable {ls : List String} {c : Char} {n : Nat}

theorem toList_join_ended (ls : List String) :
    (String.join (ls.map (· ++ "\n"))).toList = (ls.map (·.toList)).flatMap (· ++ ['\n']) := by
  rw [String.toList_join, List.flatMap_map, List.flatMap_map]
  exact List.flatMap_congr fun l _ => String.toList_append

theorem join_ended_eq_empty : String.join (ls.map (· ++ "\n")) = "" ↔ ls = [] := by
  cases ls with
  | nil => simp
  | cons l ls => simp [String.join_cons]

theorem not_mem_join_ended (hc : c ≠ '\n') (h : ∀ l ∈ ls, c ∉ l.toList) :
    c ∉ (String.join (ls.map (· ++ "\n"))).toList := by
  rw [toList_join_ended, List.flatMap_map, List.mem_flatMap]
  rintro ⟨l, hl, hm⟩
  rcases List.mem_append.mp hm with hm | hm
  · exact h l hl hm
  · exact hc (List.mem_singleton.mp hm)

theorem lines_join (h : ∀ l ∈ ls, '\n' ∉ l.toList) : lines (.join (ls.map (· ++ "\n"))) = ls ++ [""] := by
  have hend : ∀ l ∈ ls.map (·.toList), '\n' ∉ l := List.forall_mem_map.mpr h
  rw [lines, toList_join_ended, ← List.append_nil (List.flatMap _ _), List.splitOn_flatMap_concat hend,
    List.map_append, List.map_map]
  simp [Function.comp_def]

theorem length_lines_join (ls : List String) : (lines (.join (ls.map (· ++ "\n")))).length =
    (((ls.map (·.toList)).flatMap (· ++ ['\n'])).splitOn '\n').length := by
  rw [lines, List.length_map, toList_join_ended]

theorem le_length_lines_join (ls : List String) : ls.length + 1 ≤ (lines (.join (ls.map (· ++ "\n")))).length := by
  rw [length_lines_join, ← List.length_map String.toList]
  exact List.le_length_splitOn_flatMap_concat '\n' _

theorem length_lines_join_iff :
    (lines (.join (ls.map (· ++ "\n")))).length = ls.length + 1 ↔ ∀ l ∈ ls, '\n' ∉ l.toList := by
  rw [length_lines_join, ← List.length_map String.toList, List.length_splitOn_flatMap_concat, List.forall_mem_map]

theorem lines_join_iff : lines (.join (ls.map (· ++ "\n"))) = ls ++ [""] ↔ ∀ l ∈ ls, '\n' ∉ l.toList := by
  constructor
  · intro h
    rw [← length_lines_join_iff, h, List.length_append]
    rfl
  · exact lines_join

theorem isDigit_of_mem_toString (h : c ∈ (toString n).toList) : c.isDigit := by
  have hdigits : (toString n).toList = Nat.toDigits 10 n := by simp
  exact Nat.isDigit_of_mem_toDigits (by decide) (by decide) (hdigits ▸ h)

end Layering

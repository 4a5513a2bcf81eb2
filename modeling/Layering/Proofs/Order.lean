import Layering.Order
import Layering.Proofs.Lines
import Layering.Proofs.Lists
import Mathlib.Data.List.Basic

namespace Layering

namespace RankTable

theorem lookup_assign (name n : String) (rank : Nat) (es : List (String × Nat)) :
    (assign name rank es).lookup n = if n = name then some rank else es.lookup n := by
  induction es with
  | nil => simp [assign, List.lookup_cons_eq_if]
  | cons e es ih =>
      obtain ⟨other, r⟩ := e
      rw [assign]
      by_cases ho : other = name
      · subst ho
        simp only [if_true, List.lookup_cons_eq_if]
        by_cases hn : n = other <;> simp [hn]
      · simp only [ho, if_false, List.lookup_cons_eq_if, ih]
        by_cases hn : n = other
        · subst hn
          simp [ho]
        · simp [hn]

structure Lists (t : RankTable) (entries : List (String × Nat)) : Prop where
  rank : ∀ name, t.rank name = entries.reverse.lookup name
  atRank : ∀ rank, t.atRank rank = ((entries.filter (·.2 = rank)).map (·.1)).eraseDups

variable {t : RankTable} {entries : List (String × Nat)}

theorem Lists.empty : RankTable.empty.Lists [] := by
  refine ⟨fun name => rfl, fun rank => ?_⟩
  cases rank <;> rfl

theorem atRank_below (t : RankTable) : t.atRank t.below.length = t.top := by
  simp [atRank, groups]

theorem atRank_add (t : RankTable) (name : String) (rank : Nat) : (t.add name).atRank rank =
    if rank = t.below.length then (if name ∈ t.top then t.top else t.top ++ [name]) else t.atRank rank := by
  by_cases hr : rank = t.below.length
  · subst hr
    simp [atRank, groups, add]
  · simp only [hr, if_false, atRank, groups, add, List.getElem?_append]
    split
    · rfl
    · have hs : rank - t.below.length ≠ 0 := by omega
      simp [hs]

theorem Lists.add (h : t.Lists entries) (name : String) :
    (t.add name).Lists (entries ++ [(name, t.below.length)]) := by
  refine ⟨fun n => ?_, fun rank => ?_⟩
  · have hn : t.ranks.lookup n = entries.reverse.lookup n := h.rank n
    simp only [RankTable.rank, RankTable.add, lookup_assign, hn, List.reverse_append, List.reverse_singleton,
      List.singleton_append, List.lookup_cons_eq_if]
  · have hr := h.atRank rank
    rw [atRank_add, List.filter_append, List.map_append]
    by_cases he : rank = t.below.length
    · subst he
      rw [atRank_below] at hr
      have hm : name ∈ t.top ↔ name ∈ (entries.filter (·.2 = t.below.length)).map (·.1) := by
        rw [hr, List.mem_eraseDups]
      have hs : ([(name, t.below.length)].filter (·.2 = t.below.length)).map (·.1) = [name] := by simp
      simp only [if_true, hs, List.eraseDups_concat, ← hr, hm]
    · have hs : ([(name, t.below.length)].filter (·.2 = rank)).map (·.1) = [] := by
        simpa using fun h => he h.symm
      simp only [he, if_false, hs, List.append_nil, hr]

theorem groups_openGroup (t : RankTable) : t.openGroup.groups = t.groups ++ [[]] := by
  simp [groups, openGroup]

theorem atRank_openGroup (t : RankTable) (rank : Nat) : t.openGroup.atRank rank = t.atRank rank := by
  simp only [atRank, groups_openGroup, List.getElem?_append]
  split
  · rfl
  · rw [List.getElem?_eq_none (by omega : t.groups.length ≤ rank), List.getElem?_singleton]
    split <;> rfl

theorem Lists.openGroup (h : t.Lists entries) : t.openGroup.Lists entries := by
  refine ⟨h.rank, fun rank => ?_⟩
  rw [atRank_openGroup]
  exact h.atRank rank

end RankTable

namespace OrderText

def isParenthesis (c : Char) : Bool := c == '(' || c == ')'

variable (cs : List Char)

def commas : List Nat := cs.findIdxs (· == ',')

def nameOf : String := .ofList (cs.filter fun c => !isBlank c && !isParenthesis c)

def segments : List String := (cs.splitOn ',').map nameOf

/-- The last parenthesis opens. -/
def isOpen : Bool := (cs.filter isParenthesis).getLast? == some '('

/-- How many of the first `i` commas have no open parenthesis before them: each of them ends a layer. -/
def layer (i : Nat) : Nat := ((commas cs).take i).countP fun c => !isOpen (cs.take c)

variable {cs : List Char} {c : Char}

theorem commas_append (xs ys : List Char) :
    commas (xs ++ ',' :: ys) = commas xs ++ xs.length :: (commas ys).map (· + (xs.length + 1)) := by
  simp only [commas, List.findIdxs_append, List.findIdxs_cons, beq_self_eq_true, if_true, Nat.zero_add]
  rw [List.findIdxs_start (s := xs.length + 1)]

theorem mem_commas_lt {i : Nat} (hi : i ∈ commas cs) : i < cs.length := by
  simpa using List.lt_add_of_mem_findIdxs i hi

theorem segments_append (xs ys : List Char) : segments (xs ++ ',' :: ys) = segments xs ++ segments ys := by
  simp [segments, List.splitOn_append_cons_self]

theorem segments_concat (hc : c ≠ ',') (cs : List Char) :
    ∃ init last, segments cs = init ++ [nameOf last] ∧ segments (cs ++ [c]) = init ++ [nameOf (last ++ [c])] := by
  obtain ⟨init, last, hs, hs'⟩ := List.splitOn_concat hc cs
  exact ⟨init.map nameOf, last, by simp [segments, hs], by simp [segments, hs']⟩

theorem length_segments (cs : List Char) : (segments cs).length = (commas cs).length + 1 := by
  induction cs with
  | nil => rfl
  | cons d ds ih =>
      simp only [segments, commas, List.length_map, List.length_findIdxs, List.countP_cons] at ih ⊢
      rw [List.splitOn_cons_eq_if_modifyHead]
      by_cases hd : d = ',' <;> simp [hd, ih]

theorem isOpen_concat (cs : List Char) (c : Char) :
    isOpen (cs ++ [c]) = if isParenthesis c then c == '(' else isOpen cs := by
  by_cases hc : isParenthesis c <;> simp [isOpen, List.filter_append, hc]

theorem layer_append {i : Nat} (ys : List Char) (hi : i ≤ (commas cs).length) : layer (cs ++ ys) i = layer cs i := by
  have hc : (commas (cs ++ ys)).take i = (commas cs).take i := by
    simp only [commas, List.findIdxs_append]
    exact List.take_append_of_le_length hi
  simp only [layer, hc]
  refine List.countP_congr fun j hj => ?_
  rw [List.take_append_of_le_length (Nat.le_of_lt (mem_commas_lt (List.mem_of_mem_take hj)))]

theorem layer_comma (cs ys : List Char) :
    layer (cs ++ ',' :: ys) ((commas cs).length + 1) =
      layer cs (commas cs).length + if isOpen cs then 0 else 1 := by
  have hc : (commas (cs ++ ',' :: ys)).take ((commas cs).length + 1) = commas cs ++ [cs.length] := by
    simp [commas_append, List.take_append, List.take_of_length_le]
  have hl := layer_append (',' :: ys) (Nat.le_refl (commas cs).length)
  simp only [layer, hc, List.countP_append, List.countP_singleton, List.take_left]
  simp only [layer, commas_append, List.take_left, List.take_length] at hl ⊢
  rw [hl]
  cases isOpen cs <;> rfl

end OrderText

end Layering

import Layering.Proofs.Groups
import Layering.Proofs.Reading
import Mathlib.Data.List.DropRight

namespace Layering

def OrderError.later (n : Nat) : OrderError → OrderError
  | .tooManyCommas position => .tooManyCommas (n + position)
  | e => e

namespace RankTable

/-- `c` has the layers of `b` on top of those of `a`: a name of both is ranked by `b`. -/
structure Stacks (a b c : RankTable) : Prop where
  below : c.below = a.groups ++ b.below
  top : c.top = b.top
  rank : ∀ name, c.rank name = ((b.rank name).map (· + a.rankCount)).or (a.rank name)

variable {a b c : RankTable}

theorem Stacks.groups (h : a.Stacks b c) : c.groups = a.groups ++ b.groups := by
  rw [RankTable.groups, h.below, h.top, List.append_assoc]
  rfl

theorem stacks_openGroup (a : RankTable) : a.Stacks .empty a.openGroup :=
  ⟨(List.append_nil _).symm, rfl, fun _ => rfl⟩

theorem Stacks.openGroup (h : a.Stacks b c) : a.Stacks b.openGroup c.openGroup := by
  refine ⟨?_, rfl, h.rank⟩
  simp only [RankTable.openGroup, h.below, h.top, List.append_assoc]

theorem Stacks.add (h : a.Stacks b c) (name : String) : a.Stacks (b.add name) (c.add name) := by
  have hheight : c.below.length = b.below.length + a.rankCount := by
    rw [h.below, List.length_append, Nat.add_comm]
    rfl
  refine ⟨h.below, ?_, fun other => ?_⟩
  · simp only [RankTable.add, h.top]
  · rw [rank_add, rank_add, h.rank, hheight]
    by_cases ho : other = name <;> simp [ho]

end RankTable

namespace OrderScan

/-- `s'` is at the same place of the same text as `s`, but with the table `a` and `n` characters behind it. -/
structure Above (a : RankTable) (n : Nat) (s s' : OrderScan) : Prop where
  table : a.Stacks s.table s'.table
  name : s'.name = s.name
  grouped : s'.grouped = s.grouped
  position : s'.position = n + s.position

variable {a : RankTable} {n : Nat} {s s' : OrderScan}

theorem above_start (a : RankTable) (n : Nat) : Above a n .start ⟨a.openGroup, [], false, n⟩ :=
  ⟨a.stacks_openGroup, rfl, rfl, rfl⟩

theorem Above.endName (h : Above a n s s') : a.Stacks s.endName s'.endName := by
  rw [OrderScan.endName, OrderScan.endName, h.name]
  split
  · exact h.table
  · exact h.table.add _

theorem Above.step (h : Above a n s s') (c : Char) :
    Except.Corresponds (OrderError.later n) (Above a n) (s.step c) (s'.step c) := by
  have hposition : s'.position + 1 = n + (s.position + 1) := by rw [h.position, Nat.add_assoc]
  rw [OrderScan.step, OrderScan.step]
  by_cases hc : c = ','
  · rw [if_pos hc, if_pos hc, h.name]
    by_cases hn : s.name.isEmpty
    · rw [if_pos hn, if_pos hn, h.position]
      exact .error (OrderError.tooManyCommas s.position)
    · rw [if_neg hn, if_neg hn, h.grouped]
      refine .ok ⟨?_, rfl, rfl, hposition⟩
      cases s.grouped with
      | true => exact h.endName
      | false => exact h.endName.openGroup
  rw [if_neg hc, if_neg hc]
  -- any other character leaves the table as it is
  by_cases hl : c = '('
  · rw [if_pos hl, if_pos hl]
    exact .ok ⟨h.table, h.name, rfl, hposition⟩
  rw [if_neg hl, if_neg hl]
  by_cases hr : c = ')'
  · rw [if_pos hr, if_pos hr]
    exact .ok ⟨h.table, h.name, rfl, hposition⟩
  rw [if_neg hr, if_neg hr]
  by_cases hb : isBlank c
  · rw [if_pos hb, if_pos hb]
    exact .ok ⟨h.table, h.name, h.grouped, hposition⟩
  · rw [if_neg hb, if_neg hb, h.name]
    exact .ok ⟨h.table, rfl, h.grouped, hposition⟩

theorem Above.scan (h : Above a n s s') (cs : List Char) :
    Except.Corresponds (OrderError.later n) (Above a n) (cs.foldlM OrderScan.step s) (cs.foldlM OrderScan.step s') :=
  .foldlM (fun c _ _ h => h.step c) h

theorem Above.finish (h : Above a n s s') :
    Except.Corresponds (OrderError.later n) (a.Stacks · ·) s.finish s'.finish := by
  rw [OrderScan.finish, OrderScan.finish, h.grouped]
  cases s.grouped with
  | true => exact .error OrderError.parenthesesMismatch
  | false => exact .ok h.endName

end OrderScan

namespace OrderText

def lastStretch (cs : List Char) : List Char := cs.rtakeWhile (· ≠ ',')

variable {cs : List Char} {done : List String} {s : OrderScan} {text : String} {t : RankTable}

theorem segments_eq_concat (cs : List Char) : ∃ init, segments cs = init ++ [nameOf (lastStretch cs)] := by
  obtain ⟨init, hs⟩ := List.splitOn_eq_concat ',' cs
  exact ⟨init.map nameOf, by rw [segments, hs, List.map_append]; rfl⟩

theorem nameOf_lastStretch_eq_empty :
    nameOf (lastStretch cs) = "" ↔ ∀ c ∈ lastStretch cs, ¬ IsNameChar c := by
  rw [nameOf, ← String.ofList_nil, String.ofList_inj, List.filter_eq_nil_iff]
  refine forall₂_congr fun c hc => not_congr ?_
  have hcomma : c ≠ ',' := by simpa using List.mem_rtakeWhile_imp hc
  simp [IsNameChar, isParenthesis, hcomma, and_comm, and_assoc]

theorem Follows.name_eq_nil_iff (h : Follows cs done s) : s.name = [] ↔ ∀ c ∈ lastStretch cs, ¬ IsNameChar c := by
  obtain ⟨init, hs⟩ := segments_eq_concat cs
  rw [h.split] at hs
  rw [← nameOf_lastStretch_eq_empty, ← List.singleton_inj.mp (List.append_inj' hs rfl).2, ofList_reverse_eq_empty]

theorem exists_follows_of_parse (h : RankTable.parse text = .ok t) : ∃ done s,
    text.toList.foldlM OrderScan.step .start = .ok s ∧ Follows text.toList done s ∧ s.grouped = false ∧ s.endName = t := by
  rcases Follows.start.scan text.toList with ⟨done, s, hf, hs⟩ | ⟨before, after, done, ht, hs, hd, hf⟩
  · have hp := hs.parse hf
    rw [h] at hp
    refine ⟨done, s, hf, hs, ?_⟩
    rw [hs.grouped]
    cases ho : isOpen text.toList with
    | true => simp [ho] at hp
    | false => simpa [ho, eq_comm] using hp
  · rw [List.nil_append] at hs hf
    rw [(parse_unnamed hf ht hs hd).1] at h
    cases h

/-- The scan of a second text goes on from where that of the first has ended, after the comma. -/
theorem parse_append_comma {lower : String} (upper : String)
    (hf : lower.toList.foldlM OrderScan.step .start = .ok s) : RankTable.parse (lower ++ "," ++ upper) =
      (s.step ',' >>= fun next => upper.toList.foldlM OrderScan.step next >>= OrderScan.finish) := by
  have htext : (lower ++ "," ++ upper).toList = lower.toList ++ ',' :: upper.toList := by simp
  rw [RankTable.parse, htext, List.foldlM_append, hf]
  change (',' :: upper.toList).foldlM OrderScan.step s >>= OrderScan.finish = _
  rw [List.foldlM_cons]
  exact bind_assoc (s.step ',') _ _

end OrderText

namespace RankTable

open OrderText

/-- Where an order text ends with a name, another text can follow after a comma: its groups come on top of the first
ones, a name in both has the rank that the second gives it, that much higher, and an error in it is told at its place in
the whole. Where it does not end with a name, a comma is one too many. -/
theorem parse_stacked {lower : String} {a : RankTable} (ha : parse lower = .ok a) :
    ((∃ c ∈ lastStretch lower.toList, IsNameChar c) → ∀ upper,
      (∀ b, parse upper = .ok b → ∃ c, parse (lower ++ "," ++ upper) = .ok c ∧ c.groups = a.groups ++ b.groups ∧
        ∀ name, c.rank name = ((b.rank name).map (· + a.rankCount)).or (a.rank name)) ∧
      (∀ position, parse upper = .error (.tooManyCommas position) →
        parse (lower ++ "," ++ upper) = .error (.tooManyCommas (lower.length + 1 + position))) ∧
      (parse upper = .error .parenthesesMismatch →
        parse (lower ++ "," ++ upper) = .error .parenthesesMismatch)) ∧
    ((∀ c ∈ lastStretch lower.toList, ¬ IsNameChar c) → ∀ upper,
      parse (lower ++ "," ++ upper) = .error (.tooManyCommas lower.length)) := by
  obtain ⟨done, s, hf, hs, hg, rfl⟩ := exists_follows_of_parse ha
  refine ⟨fun hname upper => ?_, fun hnone upper => ?_⟩
  · have hne : s.name ≠ [] := by
      rw [ne_eq, hs.name_eq_nil_iff]
      push Not
      exact hname
    have hcomma : s.step ',' = .ok ⟨s.endName.openGroup, [], false, lower.length + 1⟩ := by
      simp [OrderScan.step, hne, hg, hs.position, String.length_toList]
    have hcorr : Except.Corresponds (OrderError.later (lower.length + 1)) (s.endName.Stacks · ·) (parse upper)
        (parse (lower ++ "," ++ upper)) := by
      rw [parse_append_comma upper hf, hcomma]
      exact ((OrderScan.above_start _ _).scan upper.toList).bind fun _ _ => OrderScan.Above.finish
    refine ⟨fun b hb => ?_, fun position hp => ?_, fun hp => ?_⟩
    · obtain ⟨c, hc, h⟩ := (hb ▸ hcorr).of_ok
      exact ⟨c, hc, h.groups, h.rank⟩
    · exact (hp ▸ hcorr).of_error
    · exact (hp ▸ hcorr).of_error
  · rw [parse_append_comma upper hf, hs.step_unnamed (hs.name_eq_nil_iff.mpr hnone), String.length_toList]
    rfl

theorem parse_stacked_strays :
    let a : RankTable := ⟨[["core", "b"]], ["ui"], [("core", 0), ("b", 0), ("ui", 1)]⟩
    parse "(core,b), u)i " = .ok a ∧ (∃ c ∈ lastStretch "(core,b), u)i ".toList, IsNameChar c) ∧
      (∃ c, parse ("(core,b), u)i " ++ "," ++ "(net,core),") = .ok c ∧
        c.groups = [["core", "b"], ["ui"], ["net", "core"], []] ∧ c.rank "core" = some 2 ∧ c.rank "b" = some 0) ∧
      parse ("(core,b), u)i " ++ "," ++ "x,,y") = .error (.tooManyCommas 17) ∧
      parse ("(core,b), u)i " ++ "," ++ "(x") = .error .parenthesesMismatch ∧
      (∀ c ∈ lastStretch "core,)".toList, ¬ IsNameChar c) ∧
      parse ("core,)" ++ "," ++ ",(") = .error (.tooManyCommas 6) := by
  intro a
  have ha : parse "(core,b), u)i " = .ok a := by decide
  have hname : ∃ c ∈ lastStretch "(core,b), u)i ".toList, IsNameChar c :=
    ⟨'u', by decide, by decide, by decide, by decide, by decide⟩
  have hnone : ∀ c ∈ lastStretch "core,)".toList, ¬ IsNameChar c := by
    have hlast : lastStretch "core,)".toList = [')'] := by decide
    rw [hlast]
    intro c hc h
    exact h.2.2.1 (List.mem_singleton.mp hc)
  have hstack := (parse_stacked ha).1 hname
  obtain ⟨c, hc, hgroups, hrank⟩ := (hstack "(net,core),").1
    ⟨[["net", "core"]], [], [("net", 0), ("core", 0)]⟩ (by decide)
  refine ⟨ha, hname, ⟨c, hc, hgroups, (hrank "core").trans (by decide), (hrank "b").trans (by decide)⟩, ?_, ?_, hnone, ?_⟩
  · exact (hstack "x,,y").2.1 2 (by decide)
  · exact (hstack "(x").2.2 (by decide)
  · exact (parse_stacked (a := ⟨[["core"]], [], [("core", 0)]⟩) (by decide)).2 hnone ",("

end RankTable

end Layering

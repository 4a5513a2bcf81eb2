import Layering.Check
import Layering.Proofs.Report.Row

namespace Layering

namespace Markdown

def rule : List Char := "| --- | --- |".toList

/-- The lines of a text behind the first rule in it, up to an empty one. -/
def tableRows (text : List Char) : List (List Char) :=
  ((text.splitOn '\n').dropWhile (· ≠ rule)).tail.takeWhile (· ≠ [])

variable {cs before rest : List Char}

/-- Whether the next character begins a line, as long as no line begins with a bar. -/
def barless (fresh : Bool) (cs : List Char) : Option Bool :=
  cs.foldlM (fun fresh c => if fresh && c == '|' then none else some (c == '\n')) fresh

theorem barless_append {s s' : String} {a b c : Bool} (h : barless a s.toList = some b)
    (h' : barless b s'.toList = some c) : barless a (s ++ s').toList = some c := by
  rw [barless] at h
  rw [String.toList_append, barless, List.foldlM_append, h]
  exact h'

theorem barless_within (h : '\n' ∉ cs) : barless false cs = some false := by
  induction cs with
  | nil => rfl
  | cons c cs ih =>
      obtain ⟨hc, hcs⟩ := List.ne_and_not_mem_of_not_mem_cons h
      have hend : (c == '\n') = false := beq_eq_false_iff_ne.mpr hc.symm
      simpa [barless, hend] using ih hcs

theorem rule_ne {l : List Char} (h : l.head? ≠ some '|') : l ≠ rule := by
  rintro rfl
  exact h rfl

theorem dropWhile_splitOn_append (line : List Char) (hline : '\n' ∉ line) (hhead : line.head? ≠ some '|')
    (h : barless line.isEmpty before = some true) :
    ((line ++ (before ++ rest)).splitOn '\n').dropWhile (· ≠ rule) = (rest.splitOn '\n').dropWhile (· ≠ rule) := by
  -- on the characters; of the line that they go on with, `line` is behind
  induction before generalizing line with
  | nil =>
      have hempty : line = [] := by simpa [barless] using h
      rw [hempty, List.nil_append, List.nil_append]
  | cons c cs ih =>
      rw [barless, List.foldlM_cons] at h
      by_cases hc : c = '\n'
      · subst hc
        rw [List.cons_append, List.splitOn_append_cons_self, List.splitOn_eq_singleton hline, List.singleton_append,
          List.dropWhile_cons_of_pos (by simpa using rule_ne hhead)]
        exact ih [] List.not_mem_nil (by simp) (by simpa [barless] using h)
      · have hnext : ¬ (line.isEmpty && c == '|') := by
          intro hbar
          rw [if_pos hbar] at h
          cases h
        rw [if_neg hnext] at h
        rw [List.cons_append, List.append_cons]
        refine ih (line ++ [c]) ?_ ?_ ?_
        · simp [hline, Ne.symm hc]
        · cases line with
          | nil => simpa using hnext
          | cons d line => exact hhead
        · have hfresh : (line ++ [c]).isEmpty = (c == '\n') := by
            rw [beq_eq_false_iff_ne.mpr hc]
            cases line <;> rfl
          rw [hfresh]
          exact h

theorem tableRows_append (h : barless true before = some true) : tableRows (before ++ rest) = tableRows rest := by
  rw [tableRows, tableRows, ← List.nil_append (before ++ rest),
    dropWhile_splitOn_append [] List.not_mem_nil (by simp) h]

theorem tableRows_rule (before rest : List Char) (h : ∀ line ∈ before.splitOn '\n', line ≠ rule) :
    tableRows (before ++ '\n' :: (rule ++ '\n' :: rest)) = (rest.splitOn '\n').takeWhile (· ≠ []) := by
  have hrule : rule.splitOn '\n' = [rule] := List.splitOn_eq_singleton (by decide)
  rw [tableRows, List.splitOn_append_cons_self, List.splitOn_append_cons_self, hrule,
    List.dropWhile_append_of_pos fun line hl => by simpa using h line hl, List.singleton_append,
    List.dropWhile_cons_of_neg (by simp), List.tail_cons]

theorem takeWhile_splitOn_rows {rows : List (List Char)} (h : ∀ row ∈ rows, '\n' ∉ row ∧ row ≠ [])
    (rest : List Char) :
    ((rows.flatMap (· ++ ['\n']) ++ '\n' :: rest).splitOn '\n').takeWhile (· ≠ []) = rows := by
  have hempty : ('\n' :: rest).splitOn '\n' = [] :: rest.splitOn '\n' := by simp [List.splitOn_cons_eq_if_modifyHead]
  rw [List.splitOn_flatMap_concat fun row hr => (h row hr).1, hempty,
    List.takeWhile_append_of_pos fun row hr => by simpa using (h row hr).2, List.takeWhile_cons_of_neg (by simp),
    List.append_nil]

def rowLines (groups : List (List String)) : List (List Char) := groups.zipIdx.map fun g => rowLine g.2 g.1

theorem toList_join_rows (l : List (List String × Nat)) : (String.join (l.map fun g => row g.2 g.1)).toList =
    (l.map fun g => rowLine g.2 g.1).flatMap (· ++ ['\n']) := by
  induction l with
  | nil => rfl
  | cons g l ih =>
      rw [List.map_cons, String.join_cons, String.toList_append, toList_row, ih, List.map_cons, List.flatMap_cons]

def opening : String := "## Package order\n\n| Rank | Packages |\n| --- | --- |\n"

theorem toList_orderTable (groups : List (List String)) : (orderTable groups).toList =
    opening.toList ++ ((rowLines groups).flatMap (· ++ ['\n']) ++ ['\n']) := by
  change (opening ++ String.join _ ++ "\n").toList = _
  rw [String.toList_append, String.toList_append, toList_join_rows, List.append_assoc]
  rfl

theorem tableRows_orderTable {groups : List (List String)} (h : ∀ g ∈ groups, ∀ name ∈ g, IsName name)
    (rest : List Char) : tableRows ((orderTable groups).toList ++ rest) = rowLines groups := by
  have hopening : opening.toList = "## Package order\n\n".toList ++
      ("| Rank | Packages |".toList ++ '\n' :: (rule ++ ['\n'])) := by decide
  have hrows : ∀ row ∈ rowLines groups, '\n' ∉ row ∧ row ≠ [] := by
    intro row hr
    obtain ⟨g, hg, rfl⟩ := List.mem_map.mp hr
    exact ⟨newline_not_mem_rowLine (h g.1 (List.fst_mem_of_mem_zipIdx hg)), rowLine_ne_nil g.2 g.1⟩
  rw [toList_orderTable, hopening]
  simp only [List.append_assoc, List.cons_append, List.nil_append]
  rw [tableRows_append (by decide), tableRows_rule _ _ (by decide), takeWhile_splitOn_rows hrows]

theorem barless_number (n : Nat) : barless false (toString n).toList = some false :=
  barless_within fun h => absurd (isDigit_of_mem_toString h) (by decide)

theorem barless_count (n : UInt32) : barless false (toString n).toList = some false := barless_number n.toNat

theorem barless_verdict (v : Verdict) : barless false (verdict v).toList = some false := by
  cases v <;> decide

theorem barless_mode (mode : Mode) : barless false mode.text.toList = some false := by
  cases mode <;> decide

theorem barless_line {before value behind : String} (hbefore : barless true before.toList = some false)
    (hvalue : barless false value.toList = some false) (hbehind : barless false behind.toList = some true) :
    barless true (before ++ value ++ behind).toList = some true :=
  barless_append (barless_append hbefore hvalue) hbehind

theorem barless_counts {fresh mid : Bool} {before between behind : String} (n n' : UInt32)
    (hbefore : barless fresh before.toList = some false) (hbetween : barless false between.toList = some false)
    (hbehind : barless false behind.toList = some mid) :
    barless fresh (before ++ toString n ++ between ++ toString n' ++ behind).toList = some mid :=
  barless_append (barless_append (barless_append (barless_append hbefore (barless_count n)) hbetween)
    (barless_count n')) hbehind

theorem barless_heading {r : Report} (harchive : '\n' ∉ r.data.archive.toList)
    (hmode : barless false r.data.mode.toList = some false) : barless true (heading r).toList = some true := by
  have htitle : barless true "# swcv report\n\n".toList = some true := by decide
  have harchive : barless true (if r.data.archive.isEmpty then "" else s!"- Archive: `{r.data.archive}`\n").toList =
      some true := by
    split
    · rfl
    · exact barless_line (by decide) (barless_within harchive) (by decide)
  have hverdict : barless true s!"- Verdict: **{verdict r.verdict}**\n".toList = some true :=
    barless_line (by decide) (barless_verdict r.verdict) (by decide)
  have hmode : barless true (if r.data.mode.isEmpty then "" else s!"- Mode: {r.data.mode}\n").toList = some true := by
    split
    · rfl
    · exact barless_line (by decide) hmode (by decide)
  have hscanned : barless true
      s!"- Packages: {r.data.packagesScanned} / Dependencies: {r.data.dependenciesScanned} ".toList = some false :=
    barless_counts _ _ (by decide) (by decide) (by decide)
  have hkinds : barless false
      s!"({r.data.internalDependencies} internal, {r.data.externalDependencies} external)\n".toList = some true :=
    barless_counts _ _ (by decide) (by decide) (by decide)
  have hfindings : barless true
      s!"- Findings: {r.data.findingsEmitted} (emitted) / {r.data.findingsTotal} (total)\n\n".toList = some true :=
    barless_counts _ _ (by decide) (by decide) (by decide)
  unfold heading
  exact barless_append (barless_append (barless_append (barless_append (barless_append (barless_append htitle harchive)
    hverdict) hmode) hscanned) hkinds) hfindings

def note (reason : Option String) : String := (reason.map fun reason => s!"> Note: {reason}\n\n").getD ""

theorem barless_note {reason : Option String} (h : ∀ text ∈ reason, barless false text.toList = some false) :
    barless true (note reason).toList = some true := by
  cases reason with
  | none => rfl
  | some text => exact barless_line (by decide) (h text rfl) (by decide)

theorem getElem?_rowLines (groups : List (List String)) (i : Nat) :
    (rowLines groups)[i]? = groups[i]?.map (rowLine i) := by
  rw [rowLines, List.getElem?_map, List.getElem?_zipIdx, Option.map_map, Nat.zero_add]
  rfl

theorem rowLines_inj {groups groups' : List (List String)} (h : ∀ g ∈ groups, ∀ name ∈ g, IsName name)
    (h' : ∀ g ∈ groups', ∀ name ∈ g, IsName name) (he : rowLines groups = rowLines groups') : groups = groups' := by
  refine List.ext_getElem? fun i => ?_
  have hi : groups[i]?.map (rowLine i) = groups'[i]?.map (rowLine i) := by
    rw [← getElem?_rowLines, he, getElem?_rowLines]
  cases hg : groups[i]? with
  | none => simpa [hg] using hi
  | some g =>
      rw [hg] at hi
      obtain ⟨g', hg', hrow⟩ := Option.map_eq_some_iff.mp hi.symm
      rw [hg', rowLine_inj (h g (List.mem_of_getElem? hg)) (h' g' (List.mem_of_getElem? hg')) hrow.symm]

end Markdown

namespace Report

open Markdown

def ChecksAgainst (r : Report) (t : RankTable) : Prop :=
  ∃ (archive : Path) (startedAt finishedAt : Instant) (m : Model) (policy : Policy),
    r = .ofEvaluation archive startedAt finishedAt (m.evaluate t policy)

/-- The text behind the heading, which has the name of the archive in it as it is. -/
def body (r : Report) : List Char := r.markdown.toList.drop (heading r).toList.length

variable {r r' : Report} {t t' : RankTable}

theorem toList_markdown (r : Report) : r.markdown.toList = (heading r).toList ++ r.body := by
  rw [body, markdown]
  simp only [String.toList_append, List.append_assoc, List.drop_left]

theorem ChecksAgainst.packageOrder_eq (hr : r.ChecksAgainst t) : r.data.packageOrder = t.groups := by
  obtain ⟨_, _, _, _, _, rfl⟩ := hr
  rfl

theorem ChecksAgainst.barless_mode (hr : r.ChecksAgainst t) : barless false r.data.mode.toList = some false := by
  obtain ⟨_, _, _, _, policy, rfl⟩ := hr
  exact Markdown.barless_mode policy.mode

theorem ChecksAgainst.barless_reason (hr : r.ChecksAgainst t) :
    ∀ text ∈ r.data.truncatedReason, barless false text.toList = some false := by
  obtain ⟨_, _, _, m, policy, rfl⟩ := hr
  intro text htext
  rw [ofEvaluation, Model.evaluate] at htext
  dsimp only at htext
  split at htext
  · cases htext
    exact barless_append (by decide) (barless_number policy.maxFindings)
  · cases htext

theorem ChecksAgainst.tableRows_body (hr : r.ChecksAgainst t) (ht : t.Consistent) :
    tableRows r.body = rowLines t.groups := by
  have hgroups : ¬ t.groups.isEmpty := by simp [RankTable.groups]
  rw [body, markdown]
  simp only [String.toList_append, List.append_assoc, List.drop_left]
  rw [hr.packageOrder_eq, if_neg hgroups, ← note, tableRows_append (barless_note hr.barless_reason),
    tableRows_orderTable ht.named]

end Report

namespace Markdown

/-- In a report on any model, the table has a row for each group of the order, in the same order; a row is one line of
two cells and shows the names of its group, and only an empty group is marked. The rows tell the order: two reports have
the same rows just where they have the same groups, whatever bars, backslashes and backticks there are in the names.
Where the name of the archive is one line, the table is the first one of the whole text. -/
theorem tableRows_tell_order {text text' : String} {t t' : RankTable} {r r' : Report}
    (ht : RankTable.parse text = .ok t) (ht' : RankTable.parse text' = .ok t') (hr : r.ChecksAgainst t)
    (hr' : r'.ChecksAgainst t') :
    (tableRows r.body).length = t.rankCount ∧
    (∀ (rank : Nat) row, (tableRows r.body)[rank]? = some row → Shows rank (t.atRank rank) row) ∧
    ('\n' ∉ r.data.archive.toList → tableRows r.markdown.toList = tableRows r.body) ∧
    (tableRows r.body = tableRows r'.body ↔ r.data.packageOrder = r'.data.packageOrder) := by
  have hc := (RankTable.scanned_of_parse ht).consistent
  have hc' := (RankTable.scanned_of_parse ht').consistent
  have hrows := hr.tableRows_body hc
  have hrows' := hr'.tableRows_body hc'
  refine ⟨?_, fun rank row hrow => ?_, fun harchive => ?_, ?_⟩
  · rw [hrows, rowLines, List.length_map, List.length_zipIdx, RankTable.rankCount]
  · rw [hrows, getElem?_rowLines] at hrow
    obtain ⟨g, hg, rfl⟩ := Option.map_eq_some_iff.mp hrow
    have hrank : t.atRank rank = g := by rw [RankTable.atRank, hg, Option.getD_some]
    rw [hrank]
    exact shows_rowLine (hc.named g (List.mem_of_getElem? hg))
  · rw [r.toList_markdown, tableRows_append (barless_heading harchive hr.barless_mode)]
  · rw [hrows, hrows', hr.packageOrder_eq, hr'.packageOrder_eq]
    exact ⟨rowLines_inj hc.named hc'.named, congrArg rowLines⟩

theorem tableRows_tell_order_barred :
    let t : RankTable := ⟨[["a|b", "`"], ["a\\|"]], [], [("a|b", 0), ("`", 0), ("a\\|", 1)]⟩
    let t' : RankTable := ⟨[["a|b", "`"], ["a|"]], [], [("a|b", 0), ("`", 0), ("a|", 1)]⟩
    let r : Report := .ofEvaluation "lib.swc" .epoch .epoch (Model.empty.evaluate t .default)
    let r' : Report := .ofEvaluation "lib.swc" .epoch .epoch (Model.empty.evaluate t' .default)
    RankTable.parse "(a|b, `), a\\|," = .ok t ∧ RankTable.parse "(a|b, `), a|," = .ok t' ∧
      (tableRows r.body).length = 3 ∧ tableRows r.markdown.toList = tableRows r.body ∧
      tableRows r.body ≠ tableRows r'.body := by
  intro t t' r r'
  have ht : RankTable.parse "(a|b, `), a\\|," = .ok t := by decide
  have ht' : RankTable.parse "(a|b, `), a|," = .ok t' := by decide
  have hr : r.ChecksAgainst t := ⟨_, _, _, _, _, rfl⟩
  have hr' : r'.ChecksAgainst t' := ⟨_, _, _, _, _, rfl⟩
  obtain ⟨hlength, -, hwhole, hsame⟩ := tableRows_tell_order ht ht' hr hr'
  have hdiffer : r.data.packageOrder ≠ r'.data.packageOrder := by decide
  exact ⟨ht, ht', hlength, hwhole (by decide), fun he => hdiffer (hsame.mp he)⟩

end Markdown

end Layering

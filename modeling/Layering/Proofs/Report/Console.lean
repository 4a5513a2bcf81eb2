import Layering.Check
import Layering.Report.Console
import Layering.Proofs.Accounting
import Layering.Proofs.Groups
import Layering.Proofs.Lines

namespace Layering

namespace Finding

theorem console_ofViolation (v : Violation) : (ofViolation v).console = "Dependency validation failure: package " ++
    v.package ++ " cannot import or use symbol: " ++ v.symbol.display := rfl

theorem console_ofMissingRank (e : MissingRank) : (ofMissingRank e).console =
    "Package order file should rank ALL packages in swc. Package " ++ e.package ++ " is missing." := rfl

/-- A finding that tells of a symbol or a package with a line end in its name. -/
inductive Breaks : Finding → Prop
  | symbol (v : Violation) (h : '\n' ∈ v.symbol.name.toList) : Breaks (.ofViolation v)
  | package (e : MissingRank) (h : '\n' ∈ e.package.toList) : Breaks (.ofMissingRank e)

variable {f : Finding} {v : Violation} {e : MissingRank}

theorem newline_mem_console_ofViolation : '\n' ∈ (ofViolation v).console.toList ↔
    '\n' ∈ v.package.toList ∨ '\n' ∈ v.symbol.package.toList ∨ '\n' ∈ v.symbol.name.toList := by
  rw [console_ofViolation]
  simp [Symbol.display]

theorem newline_mem_console_ofMissingRank :
    '\n' ∈ (ofMissingRank e).console.toList ↔ '\n' ∈ e.package.toList := by
  rw [console_ofMissingRank]
  simp

theorem Breaks.newline_mem (h : f.Breaks) : '\n' ∈ f.console.toList := by
  cases h with
  | symbol v h => exact newline_mem_console_ofViolation.mpr (.inr (.inr h))
  | package e h => exact newline_mem_console_ofMissingRank.mpr h

end Finding

theorem RankTable.newline_not_mem_of_parse {text name : String} {t : RankTable} (h : parse text = .ok t)
    (hr : t.rank name ≠ none) : '\n' ∉ name.toList := by
  intro hc
  have hblank := ((isName_of_parse h hr).2 _ hc).2.2.2
  exact absurd hblank (by decide)

namespace Model

variable {m : Model} {t : RankTable} {policy : Policy} {f : Finding}

/-- The packages of a violation have ranks, and so names without line ends. -/
theorem WellFormed.breaks_iff (h : m.WellFormed) {order : String} (ht : RankTable.parse order = .ok t)
    (hf : f ∈ m.findings t policy) : f.Breaks ↔ '\n' ∈ f.console.toList := by
  refine ⟨Finding.Breaks.newline_mem, fun hm => ?_⟩
  cases hv : m.validate t policy.mode with
  | ok vs =>
      rw [findings_of_ok hv] at hf
      obtain ⟨v, hmem, rfl⟩ := List.mem_map.mp hf
      obtain ⟨low, hlow, high, hhigh, -⟩ := h.below_of_mem hv hmem
      have hpackage := RankTable.newline_not_mem_of_parse ht (Option.ne_none_iff_exists'.mpr ⟨low, hlow⟩)
      have howner := RankTable.newline_not_mem_of_parse ht (Option.ne_none_iff_exists'.mpr ⟨high, hhigh⟩)
      rcases Finding.newline_mem_console_ofViolation.mp hm with hm | hm | hm
      · exact absurd hm hpackage
      · exact absurd hm howner
      · exact .symbol v hm
  | error e =>
      rw [findings_of_error hv] at hf
      obtain rfl := List.mem_singleton.mp hf
      exact .package e (Finding.newline_mem_console_ofMissingRank.mp hm)

theorem truncatedReason_evaluate : (m.evaluate t policy).data.truncatedReason =
    if policy.maxFindings < (m.findings t policy).length then
      some s!"findings truncated to max_findings={policy.maxFindings}"
    else none := rfl

/-- A limit that leaves findings out is told of, so that nothing is told just where nothing was found. -/
theorem evaluate_tells_nothing_iff : (m.evaluate t policy).findings = [] ∧
    (m.evaluate t policy).data.truncatedReason = none ↔ m.findings t policy = [] := by
  rw [findings_evaluate, truncatedReason_evaluate]
  constructor
  · rintro ⟨htake, hreason⟩
    have hfit : (m.findings t policy).length ≤ policy.maxFindings := by simpa using hreason
    rwa [List.take_of_length_le hfit] at htake
  · intro hnone
    simp [hnone]

theorem length_findings_lt (hfew : ∀ vs, m.validate t .all = .ok vs → vs.length < UInt32.size) :
    (m.findings t policy).length < UInt32.size := by
  obtain ⟨mode, limit⟩ := policy
  cases mode with
  | first => exact Nat.lt_of_le_of_lt (length_findings_first rfl) (by decide)
  | all =>
      cases hv : m.validate t .all with
      | ok vs =>
          rw [findings_of_ok hv, List.length_map]
          exact hfew vs hv
      | error e =>
          rw [findings_of_error hv]
          exact (by decide : 1 < UInt32.size)

end Model

namespace Report

def told (r : Report) : List String :=
  r.findings.map (·.console) ++ r.data.truncatedReason.toList.map fun reason => s!"({reason})"

theorem console_eq (r : Report) : r.console = .join (r.told.map (· ++ "\n")) := by
  have hfindings : (r.findings.map (·.console)).map (· ++ "\n") = r.findings.map fun f => s!"{f.console}\n" :=
    List.map_map
  have hnote : .join ((r.data.truncatedReason.toList.map fun reason => s!"({reason})").map (· ++ "\n")) =
      (r.data.truncatedReason.map fun reason => s!"({reason})\n").getD "" := by
    cases r.data.truncatedReason with
    | none => rfl
    | some reason =>
        change String.join ["(" ++ reason ++ ")" ++ "\n"] = "(" ++ reason ++ ")\n"
        rw [String.join_cons, String.join_nil, String.append_empty, String.append_assoc]
        rfl
  rw [console, told, List.map_append, String.join_append, hfindings, hnote]

theorem console_eq_empty_iff (r : Report) : r.console = "" ↔ r.findings = [] ∧ r.data.truncatedReason = none := by
  rw [console_eq, join_ended_eq_empty, told, List.append_eq_nil_iff, List.map_eq_nil_iff, List.map_eq_nil_iff,
    Option.toList_eq_nil_iff]

variable {m : Model} {t : RankTable} {policy : Policy} {archive : Path} {startedAt finishedAt : Instant}

theorem newline_not_mem_note {reason : String}
    (h : (ofEvaluation archive startedAt finishedAt (m.evaluate t policy)).data.truncatedReason = some reason) :
    '\n' ∉ s!"({reason})".toList := by
  have hnumber : '\n' ∉ (toString policy.maxFindings).toList := fun hc =>
    absurd (isDigit_of_mem_toString hc) (by decide)
  have hreason : (m.evaluate t policy).data.truncatedReason = some reason := h
  rw [Model.truncatedReason_evaluate] at hreason
  split at hreason
  · obtain rfl := Option.some.inj hreason
    change '\n' ∉ ("(" ++ ("findings truncated to max_findings=" ++ toString policy.maxFindings) ++ ")").toList
    simpa using hnumber
  · cases hreason

theorem newline_not_mem_told_iff (hm : m.WellFormed) {order : String} (ht : RankTable.parse order = .ok t)
    {r : Report} (hr : r = ofEvaluation archive startedAt finishedAt (m.evaluate t policy)) :
    (∀ l ∈ r.told, '\n' ∉ l.toList) ↔ ∀ f ∈ r.findings, ¬ f.Breaks := by
  have hnote : ∀ l ∈ r.data.truncatedReason.toList.map fun reason => s!"({reason})", '\n' ∉ l.toList := by
    subst hr
    exact List.forall_mem_map.mpr fun reason hl => newline_not_mem_note (Option.mem_toList.mp hl)
  have hbreaks : ∀ f ∈ r.findings, (f.Breaks ↔ '\n' ∈ f.console.toList) := by
    subst hr
    exact fun f hf => hm.breaks_iff ht (Model.mem_evaluate hf)
  rw [told, List.forall_mem_append, and_iff_left hnote, List.forall_mem_map]
  exact forall₂_congr fun f hf => not_congr (hbreaks f hf).symm

/-- Each finding that is shown is told by its package, and its symbol, behind the one before; last that there were more,
if so. This takes a line for each just where no finding has a line end in a name that it tells, and else more lines. -/
theorem console_lines_iff {m : Model} (hm : Reachable m) {order : String} {t : RankTable}
    (ht : RankTable.parse order = .ok t) (policy : Policy) (archive : Path) (startedAt finishedAt : Instant) :
    let r := ofEvaluation archive startedAt finishedAt (m.evaluate t policy)
    let note := r.data.truncatedReason.toList.map fun reason => s!"({reason})"
    r.data.findingsEmitted = .ofNat r.findings.length ∧
    (∀ f ∈ r.findings,
      (∃ v, f = .ofViolation v ∧ f.console = "Dependency validation failure: package " ++ v.package ++
        " cannot import or use symbol: " ++ v.symbol.display) ∨
      ∃ e, f = .ofMissingRank e ∧
        f.console = "Package order file should rank ALL packages in swc. Package " ++ e.package ++ " is missing.") ∧
    r.findings.length + note.length + 1 ≤ (lines r.console).length ∧
    ((lines r.console).length = r.findings.length + note.length + 1 ↔ ∀ f ∈ r.findings, ¬ f.Breaks) ∧
    (lines r.console = r.findings.map (·.console) ++ note ++ [""] ↔ ∀ f ∈ r.findings, ¬ f.Breaks) := by
  intro r note
  have htold : r.findings.length + note.length = r.told.length := by
    simp [told, note]
  refine ⟨rfl, fun f hf => ?_, ?_, ?_, ?_⟩
  · cases Model.evaluated_of_mem_findings (Model.mem_evaluate hf) with
    | violation v => exact .inl ⟨v, rfl, Finding.console_ofViolation v⟩
    | missingRank e => exact .inr ⟨e, rfl, Finding.console_ofMissingRank e⟩
  · rw [htold, console_eq]
    exact le_length_lines_join r.told
  · rw [htold, console_eq, length_lines_join_iff, newline_not_mem_told_iff hm.wellFormed ht rfl]
  · rw [console_eq, ← newline_not_mem_told_iff hm.wellFormed ht rfl]
    exact lines_join_iff

theorem console_lines_iff_truncated :
    let panel : Symbol := ⟨"view", "Panel", by decide⟩
    let frame : Symbol := ⟨"view", "Frame", by decide⟩
    let m := Model.empty.replay [.define panel, .define frame, .addDependency "base" panel, .addDependency "base" frame]
    let t : RankTable := ⟨[["base"]], ["view"], [("base", 0), ("view", 1)]⟩
    let r := ofEvaluation "lib.swc" .epoch .epoch (m.evaluate t ⟨.all, 1⟩)
    Reachable m ∧ RankTable.parse "base,view" = .ok t ∧ r.findings.length = 1 ∧
      lines r.console = ["Dependency validation failure: package base cannot import or use symbol: view:Panel",
        "(findings truncated to max_findings=1)", ""] ∧ ∀ f ∈ r.findings, ¬ f.Breaks := by
  intro panel frame m t r
  have hm : Reachable m := ⟨_, rfl⟩
  have ht : RankTable.parse "base,view" = .ok t := rfl
  have hlines : lines r.console =
      ["Dependency validation failure: package base cannot import or use symbol: view:Panel",
        "(findings truncated to max_findings=1)", ""] := by decide +kernel
  have hone : r.findings.length = 1 := by decide
  have hnote : r.data.truncatedReason.toList.length = 1 := by decide
  obtain ⟨-, -, -, hlength, -⟩ := console_lines_iff hm ht ⟨.all, 1⟩ "lib.swc" .epoch .epoch
  refine ⟨hm, ht, hone, hlines, hlength.mp ?_⟩
  rw [hlines, hone, List.length_map, hnote]
  rfl

theorem console_breaks_line :
    let panel : Symbol := ⟨"view", "Pa\nnel", by decide⟩
    let m := Model.empty.replay [.define panel, .addDependency "base" panel]
    let t : RankTable := ⟨[["base"]], ["view"], [("base", 0), ("view", 1)]⟩
    let r := ofEvaluation "lib.swc" .epoch .epoch (m.evaluate t .default)
    Reachable m ∧ RankTable.parse "base,view" = .ok t ∧ r.data.findingsEmitted = 1 ∧ r.data.truncatedReason = none ∧
      lines r.console =
        ["Dependency validation failure: package base cannot import or use symbol: view:Pa", "nel", ""] := by
  intro panel m t r
  exact ⟨⟨_, rfl⟩, rfl, by decide, by decide, by decide⟩

/-- A check that passes prints nothing, and any other prints something, whatever the limit on findings. -/
theorem console_silent_iff {m : Model} (hm : Reachable m) (t : RankTable) (policy : Policy) (archive : Path)
    (startedAt finishedAt : Instant) (hfew : ∀ vs, m.validate t .all = .ok vs → vs.length < UInt32.size) :
    let r := ofEvaluation archive startedAt finishedAt (m.evaluate t policy)
    (r.console = "" ↔ r.verdict = .pass) ∧ (r.verdict = .pass ↔ m.Ordered t) := by
  intro r
  have hverdict : r.verdict = .pass ↔ m.Ordered t :=
    hm.wellFormed.verdict_evaluate (Model.length_findings_lt hfew)
  refine ⟨?_, hverdict⟩
  rw [hverdict, console_eq_empty_iff, ← hm.wellFormed.findings_eq_nil_iff]
  exact Model.evaluate_tells_nothing_iff

theorem console_silent_iff_unshown :
    let base : Symbol := ⟨"base", "Point", by decide⟩
    let view : Symbol := ⟨"view", "Panel", by decide⟩
    let m := Model.empty.replay [.define base, .addDependency "base" view, .define view]
    let t : RankTable := ⟨[["base"]], ["view"], [("base", 0), ("view", 1)]⟩
    let r := ofEvaluation "lib.swc" .epoch .epoch (m.evaluate t ⟨.all, 0⟩)
    Reachable m ∧ (∀ vs, m.validate t .all = .ok vs → vs.length < UInt32.size) ∧
      r.console = "(findings truncated to max_findings=0)\n" ∧ r.verdict ≠ .pass ∧ ¬ m.Ordered t := by
  intro base view m t r
  have hm : Reachable m := ⟨_, rfl⟩
  have hv : m.validate t .all = .ok [⟨"base", 0, view, "view", 1⟩] := by decide
  have hfew : ∀ vs, m.validate t .all = .ok vs → vs.length < UInt32.size := by
    intro vs h
    obtain rfl := Except.ok.inj (hv.symm.trans h)
    decide
  have htold : r.console = "(findings truncated to max_findings=0)\n" := by decide
  obtain ⟨hsilent, hordered⟩ := console_silent_iff hm t ⟨.all, 0⟩ "lib.swc" .epoch .epoch hfew
  have hfail : r.verdict ≠ .pass := fun hp => absurd (htold.symm.trans (hsilent.mpr hp)) (by decide)
  exact ⟨hm, hfew, htold, hfail, fun ho => hfail (hordered.mpr ho)⟩

end Report

end Layering

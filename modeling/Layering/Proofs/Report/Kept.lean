import Layering.Proofs.Gate
import Layering.Proofs.Json.Canonical

namespace Layering

namespace Json

variable {n : Nat} {v w : Json} {part : Option Json}

theorem asText?_eq_some {s : String} (h : asText? part = some s) : part = some (.str s) := by
  unfold asText? at h
  split at h
  · rw [Option.some.inj h]
  · cases h

theorem asItems?_eq_some {vs : List Json} (h : asItems? part = some vs) : part = some (.arr vs) := by
  unfold asItems? at h
  split at h
  · rw [Option.some.inj h]
  · cases h

theorem Canonical.of_mem_parts {names : List String} {spare : Nat} {ps : List (Option Json)} (h : Canonical (n + 1) v)
    (hp : v.parts names spare = some ps) (hw : some w ∈ ps) : Canonical n w := by
  cases h with
  | arr h =>
      rw [parts] at hp
      split at hp
      · obtain rfl := Option.some.inj hp
        rcases List.mem_append.mp hw with hw | hw
        · obtain ⟨u, hu, he⟩ := List.mem_map.mp hw
          exact Option.some.inj he ▸ h u hu
        · cases List.eq_of_mem_replicate hw
      · cases hp
  | @obj _ fs _ h =>
      obtain rfl := Option.some.inj hp
      obtain ⟨name, -, hl⟩ := List.mem_map.mp hw
      exact h (name, w) (List.mem_of_lookup hl)
  | _ => cases hp

end Json

namespace Finding

variable {n : Nat} {f : Finding}

theorem data_of_ofParts? {ps : List (Option Json)} (h : ofParts? ps = some f) : some f.data ∈ ps ∨ f.data = .null := by
  unfold ofParts? at h
  split at h
  · next severity checkId code message help fingerprint data =>
      simp only [Option.bind_eq_bind, Option.bind_eq_some_iff, Option.pure_def, Option.some.injEq] at h
      obtain ⟨_, -, _, -, _, -, _, -, _, -, _, -, rfl⟩ := h
      cases data with
      | none => exact .inr rfl
      | some data => exact .inl (by simp)
  · cases h

theorem canonical_of_ofJson? {v : Json} (h : v.Canonical (n + 1)) (hf : ofJson? v = some f) : f.data.Canonical n := by
  obtain ⟨ps, hp, hf⟩ := Option.bind_eq_some_iff.mp hf
  rcases data_of_ofParts? hf with hd | hd
  · exact h.of_mem_parts hp hd
  · exact hd ▸ .null

theorem plain_of_canonical (h : f.data.Canonical (Json.nestingLimit - 3)) (hf : f.data.FloatFree) : f.Plain :=
  ⟨h.readable hf, h.sorted_eq⟩

end Finding

namespace Report

variable {r : Report} {text : String}

theorem ofParts?_eq_some {ps : List (Option Json)} (h : ofParts? ps = some r) :
    ps.head? = some (some (.str r.schema)) ∧ ∃ vs, some (.arr vs) ∈ ps ∧ vs.mapM Finding.ofJson? = some r.findings := by
  unfold ofParts? at h
  split at h
  · next schema tool startedAt finishedAt verdict findings data =>
      simp only [Option.bind_eq_bind, Option.bind_eq_some_iff, Option.pure_def, Option.some.injEq] at h
      obtain ⟨s, hs, _, -, _, -, _, -, _, -, vs, hvs, fs, hfs, _, -, rfl⟩ := h
      obtain rfl := Json.asText?_eq_some hs
      obtain rfl := Json.asItems?_eq_some hvs
      exact ⟨rfl, vs, by simp, hfs⟩
  · cases h

/-- Two containers of a report are around each of its findings, which is one itself. -/
theorem canonical_of_ofJson? {n : Nat} {v : Json} (h : v.Canonical (n + 3)) (hr : ofJson? v = some r) :
    ∀ f ∈ r.findings, f.data.Canonical n := by
  obtain ⟨ps, hp, hr⟩ := Option.bind_eq_some_iff.mp hr
  obtain ⟨-, vs, hvs, hm⟩ := ofParts?_eq_some hr
  cases h.of_mem_parts hp hvs with
  | arr hitems =>
      intro f hf
      obtain ⟨u, hu, hfu⟩ := Option.exists_of_mem_mapM hm hf
      exact Finding.canonical_of_ofJson? (hitems u hu) hfu

theorem schema_of_ofJson? {v : Json} (h : ofJson? v = some r)
    (hs : (v.get? "schema" >>= Json.asString?).getD "" = reportSchema) : r.schema = reportSchema := by
  obtain ⟨ps, hp, hr⟩ := Option.bind_eq_some_iff.mp h
  have hhead := (ofParts?_eq_some hr).1
  cases v with
  | obj fs =>
      obtain rfl := Option.some.inj hp
      have hl : fs.lookup "schema" = some (.str r.schema) := Option.some.inj hhead
      rw [Json.get?, hl] at hs
      exact hs
  | arr vs =>
      -- the schema is looked up by its name, which an array has none of
      have hne : "" ≠ reportSchema := by decide
      exact absurd hs hne
  | _ => cases hp

theorem read_eq_ok (h : read text = .ok r) :
    ∃ v, Json.parse text = some v ∧ ofJson? v = some r ∧ r.schema = reportSchema := by
  unfold read at h
  split at h
  · cases h
  · next v hv =>
      dsimp only at h
      split at h
      · cases h
      · next hs =>
          split at h
          · next hr =>
              obtain rfl := Except.ok.inj h
              exact ⟨v, hv, hr, schema_of_ofJson? hr (not_not.mp hs)⟩
          · cases h

/-- The reports that are returned: by a check, which begins and ends whenever it does; of a failure; and by reading. -/
inductive Returned : Report → Prop
  | check {q : CheckRequest} {w w' : Workspace} {result : CheckResult} (h : w.perform q.run = (.ok result, w')) :
      Returned result.report
  | evaluation (archive : Path) (startedAt finishedAt : Instant) (m : Model) (t : RankTable) (policy : Policy) :
      Returned (.ofEvaluation archive startedAt finishedAt (m.evaluate t policy))
  | failure (now : Instant) (archive message : String) : Returned (.ofRuntimeError now archive message)
  | read {text : String} {r : Report} (h : Report.read text = .ok r) : Returned r

theorem exists_evaluation {q : CheckRequest} {w w' : Workspace} {result : CheckResult}
    (h : w.perform q.run = (.ok result, w')) : ∃ (m : Model) (t : RankTable) (policy : Policy),
      result.report = .ofEvaluation q.archive w.clock w.clock (m.evaluate t policy) := by
  obtain ⟨x, hx, hholds⟩ := w.reads_run q
  obtain ⟨rfl, -⟩ := Prod.mk.inj (hx.symm.trans h)
  obtain ⟨resolved, -, source, -, m, -, t, -, rfl⟩ := (hholds result).mp rfl
  exact ⟨m, t, resolved.policy, rfl⟩

theorem plain_evaluation {archive : Path} {startedAt finishedAt : Instant} {m : Model} {t : RankTable}
    {policy : Policy} : ∀ f ∈ (Report.ofEvaluation archive startedAt finishedAt (m.evaluate t policy)).findings,
      f.Plain :=
  fun _ hf => (Model.mem_findings (Model.mem_evaluate hf)).1

theorem Returned.schema (h : r.Returned) : r.schema = reportSchema := by
  cases h with
  | check h =>
      obtain ⟨m, t, policy, hr⟩ := exists_evaluation h
      rw [hr]
      rfl
  | evaluation archive startedAt finishedAt m t policy => rfl
  | failure now archive message => rfl
  | read h =>
      obtain ⟨v, -, -, hs⟩ := read_eq_ok h
      exact hs

theorem Returned.plain (h : r.Returned) (hf : ∀ f ∈ r.findings, f.data.FloatFree) : ∀ f ∈ r.findings, f.Plain := by
  cases h with
  | check h =>
      obtain ⟨m, t, policy, hr⟩ := exists_evaluation h
      rw [hr]
      exact plain_evaluation
  | evaluation archive startedAt finishedAt m t policy => exact plain_evaluation
  | failure now archive message => exact CheckCommand.plain_ofRuntimeError now archive message
  | read h =>
      obtain ⟨v, hv, hr, -⟩ := read_eq_ok h
      intro f hm
      exact Finding.plain_of_canonical (canonical_of_ofJson? (Json.canonical_of_parseTo hv) hr f hm) (hf f hm)

theorem Returned.read_write (h : r.Returned) (hf : ∀ f ∈ r.findings, f.data.FloatFree) : Report.read r.write = .ok r :=
  Report.read_write h.schema (h.plain hf)

end Report

namespace Workspace

variable {w : Workspace} {p : Path} {r : Report}

theorem reads_readReport (p : Path) (w : Workspace) : w.Reads (readReport p) (w.HasReport p) := by
  have hread := ((reads_readText p w).during s!"read report: {p}").bind fun text _ => reads_lift (Report.read text) w
  refine hread.congr fun r => ⟨?_, ?_⟩
  · rintro ⟨text, ⟨content, hc, ht⟩, hr⟩
    exact ⟨content, text, hc, ht, hr⟩
  · rintro ⟨content, text, hc, ht, hr⟩
    exact ⟨text, ⟨content, hc, ht⟩, hr⟩

theorem HasReport.unique {r' : Report} (h : w.HasReport p r) (h' : w.HasReport p r') : r = r' := by
  obtain ⟨content, text, hc, ht, hr⟩ := h
  obtain ⟨content', text', hc', ht', hr'⟩ := h'
  obtain rfl : content = content' := Item.file.inj (Except.ok.inj (hc.symm.trans hc'))
  obtain rfl : text = text' := Option.some.inj (ht.symm.trans ht')
  exact Except.ok.inj (hr.symm.trans hr')

theorem run_printed (h : w.HasReport p r) (shown : Report → String) :
    (Command.printed (do return shown (← readReport p)) : StateM Workspace Outcome).run w = (⟨0, shown r, ""⟩, w) := by
  have hread : w.perform (do return shown (← readReport p)) = (.ok (shown r), w) := by
    rw [perform_bind_ok ((reads_readReport p w).perform_eq_ok h)]
    rfl
  rw [Command.printed, run_bind hread]
  rfl

end Workspace

namespace Report

/-- A report that was returned, with no floating-point number among what its findings add, is read from its text as it is;
so to write what was read gives the same text again, and what is shown of a file with the report is what is shown of the
report. -/
theorem read_write_of_returned {r : Report} (h : r.Returned) (hf : ∀ f ∈ r.findings, f.data.FloatFree) :
    Report.read r.write = .ok r ∧ (∀ r', Report.read r.write = .ok r' → r'.write = r.write) ∧
    ∀ (w : Workspace) (p : Path), w.find p = .ok (.file r.write.toUTF8) →
      (Command.run (.markdown p none) : StateM Workspace Outcome).run w = (⟨0, r.markdown, ""⟩, w) ∧
      (∀ max, (Command.run (.annotations p max) : StateM Workspace Outcome).run w =
        (⟨0, .join ((r.annotations max).map (· ++ "\n")), ""⟩, w)) ∧
      w.HasReport p r ∧ ∀ r', w.HasReport p r' → r'.console = r.console := by
  have hread := h.read_write hf
  refine ⟨hread, fun r' hr' => ?_, fun w p hp => ?_⟩
  · rw [Except.ok.inj (hr'.symm.trans hread)]
  · have hfile : w.HasReport p r := Workspace.hasReport_of_find h.schema (h.plain hf) hp
    refine ⟨Workspace.run_printed hfile markdown, fun max => ?_, hfile, fun r' hr' => ?_⟩
    · exact Workspace.run_printed hfile fun r => .join ((r.annotations max).map (· ++ "\n"))
    · rw [hr'.unique hfile]

theorem read_write_of_returned_payload :
    let quote : Symbol := ⟨"quo\"te", "a\nb", by decide⟩
    let m := Model.empty.replay [.define quote, .addDependency "app" quote, .addDependency "app" quote]
    let t : RankTable := ⟨[["app"]], ["quo\"te"], [("app", 0), ("quo\"te", 1)]⟩
    let later : Instant := ⟨⟨2024, 2, 29, 23, 59, 59, 250000000, -90⟩, by decide⟩
    let r := Report.ofEvaluation "lib.swc" .epoch later (m.evaluate t ⟨.all, 0⟩)
    let extra : Json := .obj [("a", .arr [.int (-2), .obj [], .str "é"]), ("package", .str "app")]
    let r' : Report := { r with findings := [⟨.warning, "order.style", "name", "", none, some "f", extra⟩] }
    let w : Workspace := ⟨[(["report.json".toList], .file r'.write.toUTF8)], [], later⟩
    r.Returned ∧ Report.read r.write = .ok r ∧ r'.Returned ∧ (∀ f ∈ r'.findings, f.data.FloatFree) ∧
      w.find "report.json" = .ok (.file r'.write.toUTF8) ∧
      (Command.run (.markdown "report.json" none) : StateM Workspace Outcome).run w = (⟨0, r'.markdown, ""⟩, w) := by
  intro quote m t later r extra r' w
  have hr : r.Returned := .evaluation _ _ _ _ _ _
  have hnone : ∀ f ∈ r.findings, f.data.FloatFree := nofun
  have hitems : ∀ v ∈ [Json.int (-2), .obj [], .str "é"], v.Canonical 122 ∧ v.FloatFree :=
    List.forall_mem_cons.mpr ⟨⟨.int (by decide) (by decide), .int _⟩,
      List.forall_mem_cons.mpr ⟨⟨.obj .nil nofun, .obj nofun⟩, List.forall_mem_singleton.mpr ⟨.str _, .str _⟩⟩⟩
  have hfields : ∀ f ∈ [("a", Json.arr [.int (-2), .obj [], .str "é"]), ("package", .str "app")],
      f.2.Canonical 123 ∧ f.2.FloatFree :=
    List.forall_mem_cons.mpr ⟨⟨.arr fun v hv => (hitems v hv).1, .arr fun v hv => (hitems v hv).2⟩,
      List.forall_mem_singleton.mpr ⟨.str _, .str _⟩⟩
  have hfree : ∀ f ∈ r'.findings, f.data.FloatFree :=
    List.forall_mem_singleton.mpr (.obj fun f hf => (hfields f hf).2)
  have hplain : ∀ f ∈ r'.findings, f.Plain := by
    intro f hf
    obtain rfl := List.mem_singleton.mp hf
    have hextra : extra.Canonical 124 := .obj (by decide) fun f hf => (hfields f hf).1
    exact Finding.plain_of_canonical hextra (hfree _ hf)
  have hr' : r'.Returned := .read (Report.read_write rfl hplain)
  have hfollow : w.followAll "report.json" (Path.pieces "report.json") = .ok ["report.json".toList] := by decide +kernel
  have hfind : w.find "report.json" = .ok (.file r'.write.toUTF8) :=
    Workspace.find_eq_ok.mpr ⟨_, hfollow, rfl⟩
  exact ⟨hr, (read_write_of_returned hr hnone).1, hr', hfree, hfind,
    ((read_write_of_returned hr' hfree).2.2 w "report.json" hfind).1⟩

end Report

end Layering

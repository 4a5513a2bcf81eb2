import Layering.Proofs.Catalog
import Layering.Proofs.Disk.Saving
import Layering.Proofs.Evaluation
import Layering.Proofs.Settings

namespace Layering

theorem Archive.reachable_of_read {label : String} {bytes : ByteArray} {m : Model}
    (h : Archive.read label bytes = .ok m) : Reachable m := by
  obtain ⟨text, -, hm⟩ := Except.bind_eq_ok.mp h
  exact Catalog.reachable_of_parse (doing_eq_ok.mp hm)

namespace Workspace

/-- Something that changes nothing, and whose result is what `holds`; there is no result where nothing does. -/
def Reads {α : Type} (w : Workspace) (x : ExceptT Failure (StateM Workspace) α) (holds : α → Prop) : Prop :=
  ∃ r, w.perform x = (r, w) ∧ ∀ a, r = .ok a ↔ holds a

section

variable {α β : Type} {w : Workspace} {x : ExceptT Failure (StateM Workspace) α} {holds holds' : α → Prop}

theorem Reads.congr (h : w.Reads x holds) (hh : ∀ a, holds a ↔ holds' a) : w.Reads x holds' := by
  obtain ⟨r, hr, ha⟩ := h
  exact ⟨r, hr, fun a => (ha a).trans (hh a)⟩

theorem Reads.during (h : w.Reads x holds) (activity : String) : w.Reads (during activity x) holds := by
  obtain ⟨r, hr, ha⟩ := h
  exact ⟨_, perform_during activity hr, fun a => doing_eq_ok.trans (ha a)⟩

theorem Reads.bind {y : α → ExceptT Failure (StateM Workspace) β} {yields : α → β → Prop} (h : w.Reads x holds)
    (hy : ∀ a, holds a → w.Reads (y a) (yields a)) : w.Reads (x >>= y) fun b => ∃ a, holds a ∧ yields a b := by
  obtain ⟨r, hr, ha⟩ := h
  cases r with
  | error f =>
      refine ⟨.error f, perform_bind_error hr, fun b => ⟨fun hb => (by cases hb), ?_⟩⟩
      rintro ⟨a, hh, -⟩
      cases (ha a).mpr hh
  | ok a =>
      obtain ⟨r', hr', hb⟩ := hy a ((ha a).mp rfl)
      refine ⟨r', (perform_bind_ok hr).trans hr', fun b => (hb b).trans ⟨fun h => ⟨a, (ha a).mp rfl, h⟩, ?_⟩⟩
      rintro ⟨a', hh, h⟩
      obtain rfl := Except.ok.inj ((ha a').mpr hh)
      exact h

theorem reads_pure (a : α) (w : Workspace) : w.Reads (pure a) (a = ·) := ⟨.ok a, rfl, fun _ => by simp⟩

theorem reads_lift (r : Except Failure α) (w : Workspace) : w.Reads (liftM r) (r = .ok ·) := by
  cases r with
  | error f => exact ⟨_, rfl, by simp⟩
  | ok a => exact ⟨_, rfl, by simp⟩

theorem reads_now (w : Workspace) : w.Reads (Disk.now : StateM Workspace _) (w.clock = ·) := ⟨_, rfl, by simp⟩

theorem Reads.perform_eq_ok {a : α} (h : w.Reads x holds) (ha : holds a) : w.perform x = (.ok a, w) := by
  obtain ⟨r, hr, hh⟩ := h
  rw [hr, (hh a).mpr ha]

end

def HasSettings (w : Workspace) (p : Path) (text : String) : Prop :=
  match w.find p with
  | .ok (.file content) => String.fromUTF8? content = some text
  | .ok .directory => False
  | .error (.other _ _) => False
  | .error _ => text = ""

def HasArchive (w : Workspace) (p : Path) (m : Model) : Prop :=
  ∃ content, w.find p = .ok (.file content) ∧ Archive.read p content = .ok m

def HasOrder (w : Workspace) (t : RankTable) : OrderSource → Prop
  | .inline text => RankTable.parse text = .ok t
  | .file p => ∃ content, w.find p = .ok (.file content) ∧ RankTable.ofBytes content = .ok t

theorem run_find (p : Path) (w : Workspace) : (Disk.find p : StateM Workspace _).run w = (w.find p, w) := rfl

theorem reads_readText (p : Path) (w : Workspace) : w.Reads (orReadError (Disk.readText p)) fun text =>
    ∃ content, w.find p = .ok (.file content) ∧ String.fromUTF8? content = some text := by
  obtain ⟨r, hr, ht⟩ : ∃ r, (Disk.readText p : StateM Workspace _).run w = (r, w) ∧ ∀ text, r = .ok text ↔
      ∃ content, w.find p = .ok (.file content) ∧ String.fromUTF8? content = some text := by
    rw [Disk.readText, run_bind (run_find p w)]
    cases w.find p with
    | error e => exact ⟨_, rfl, by simp⟩
    | ok i =>
        cases i with
        | directory => exact ⟨_, rfl, by simp⟩
        | file content =>
            refine ⟨_, rfl, fun text => ?_⟩
            cases h : String.fromUTF8? content <;> simp [h]
  exact ⟨_, perform_orReadError hr, fun text => Except.mapError_eq_ok.trans (ht text)⟩

theorem reads_readArchive (p : Path) (w : Workspace) :
    w.Reads (ExceptT.mk (readArchive p)) (w.HasArchive p) := by
  unfold Reads HasArchive perform
  rw [ExceptT.run_mk, readArchive, run_bind (run_find p w)]
  cases w.find p with
  | error e => exact ⟨_, rfl, by simp [doing_eq_ok]⟩
  | ok i => cases i <;> exact ⟨_, rfl, by simp [doing_eq_ok]⟩

theorem reads_readOrder (s : OrderSource) (w : Workspace) :
    w.Reads (ExceptT.mk (readOrder s)) fun t => w.HasOrder t s := by
  cases s with
  | inline text => exact ⟨_, rfl, fun t => doing_eq_ok.trans Except.mapError_eq_ok⟩
  | file p =>
      rw [Reads, perform]
      rw [ExceptT.run_mk, readOrder, run_bind (run_find p w)]
      simp only [HasOrder]
      cases w.find p with
      | error e => exact ⟨_, rfl, by simp⟩
      | ok i => cases i <;> exact ⟨_, rfl, by simp [doing_eq_ok, Except.mapError_eq_ok]⟩

end Workspace

namespace CheckCommand

variable (c : CheckCommand)

/-- What a check needs is there: settings that tell where the order is, a model in the archive, and a table. -/
structure Loads (w : Workspace) (r : Resolved) (m : Model) (t : RankTable) : Prop where
  settings : ∃ text, w.HasSettings c.settings text ∧ (c.request text).resolve = .ok r
  archive : w.HasArchive c.archive m
  order : ∃ source, r.order = some source ∧ w.HasOrder t source

variable {c} {w : Workspace} {r : Resolved} {m : Model} {t : RankTable}

theorem Loads.wellFormed (h : c.Loads w r m t) : m.WellFormed := by
  obtain ⟨content, -, hm⟩ := h.archive
  exact (Archive.reachable_of_read hm).wellFormed

end CheckCommand

namespace Workspace

theorem reads_runWith (q : CheckRequest) (startedAt : Instant) (r : Resolved) (w : Workspace) :
    w.Reads (q.runWith startedAt r) fun result => ∃ source, r.order = some source ∧ ∃ m, w.HasArchive q.archive m ∧
      ∃ t, w.HasOrder t source ∧ ⟨.ofEvaluation q.archive startedAt w.clock (m.evaluate t r.policy), r⟩ = result := by
  rw [CheckRequest.runWith]
  cases r.order with
  | none => exact ⟨_, rfl, by simp⟩
  | some source =>
      have hread := (reads_readArchive q.archive w).bind fun m _ => (reads_readOrder source w).bind fun t _ =>
        (reads_now w).bind fun finishedAt _ => reads_pure
          (CheckResult.mk (.ofEvaluation q.archive startedAt finishedAt (m.evaluate t r.policy)) r) w
      exact hread.congr fun result => by simp

theorem reads_run (q : CheckRequest) (w : Workspace) : w.Reads q.run fun result =>
    ∃ r, q.resolve = .ok r ∧ ∃ source, r.order = some source ∧ ∃ m, w.HasArchive q.archive m ∧ ∃ t, w.HasOrder t source ∧
      ⟨.ofEvaluation q.archive w.clock w.clock (m.evaluate t r.policy), r⟩ = result := by
  have hread := (reads_now w).bind fun startedAt _ => (reads_lift q.resolve w).bind fun r _ =>
    reads_runWith q startedAt r w
  exact hread.congr fun result => by simp

end Workspace

end Layering

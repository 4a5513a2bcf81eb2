import Layering.Archive
import Layering.Disk.Basic
import Layering.Report.Encode
import Layering.Settings.Reader
import Layering.Text.Basic

namespace Layering

structure CheckRequest where
  archive : Path
  settings : String
  settingsDir : Path
  given : Choices

structure CheckResult where
  report : Report
  resolved : Resolved

namespace Report

def ofEvaluation (archive : Path) (startedAt finishedAt : Instant) (e : Evaluation) : Report :=
  { schema := reportSchema
    tool := thisTool
    startedAt
    finishedAt
    verdict := e.verdict
    findings := e.findings
    data := { e.data with archive } }

end Report

namespace CheckRequest

def resolve (r : CheckRequest) : Except Failure Resolved := do
  let settings ← if r.settings.toList.all isBlank then .ok .empty else doing "parse config" (Settings.parse r.settings)
  doing "resolve config" (settings.toChoices.resolve r.settingsDir r.given)

end CheckRequest

section

variable {m : Type → Type} [Monad m] [Disk m]

def readArchive (p : Path) : m (Except Failure Model) := do
  return doing s!"read swc {p}" <|
    match ← Disk.find p with
    | .error e => .error ⟨[s!"open {p}"], .read (.os e)⟩
    | .ok .directory => .error ⟨[Archive.unreadable p], .malformedZip⟩
    | .ok (.file bytes) => Archive.read p bytes

def readOrder : OrderSource → m (Except Failure RankTable)
  | .inline text => return doing "parse package order" ((RankTable.parse text).mapError .ofOrder)
  | .file p => do
    return match ← Disk.find p with
    | .error e => .error ⟨[s!"open package order file {p}"], .read (.os e)⟩
    | .ok .directory =>
      doing s!"parse package order file {p}" (.error (.ofOrder (.unreadable (.os .isADirectory))))
    | .ok (.file bytes) => doing s!"parse package order file {p}" ((RankTable.ofBytes bytes).mapError .ofOrder)

def CheckRequest.runWith (r : CheckRequest) (startedAt : Instant) (resolved : Resolved) :
    ExceptT Failure m CheckResult :=
  match resolved.order with
  | none => throw ⟨[], .noOrder⟩
  | some source => do
    let model ← ExceptT.mk (readArchive r.archive)
    let order ← ExceptT.mk (readOrder source)
    let finishedAt ← Disk.now (m := m)
    return ⟨.ofEvaluation r.archive startedAt finishedAt (model.evaluate order resolved.policy), resolved⟩

/-- The settings are resolved, then the archive is read, then the order; the first failure is that of the check. -/
def CheckRequest.run (r : CheckRequest) : ExceptT Failure m CheckResult := do
  let startedAt ← Disk.now (m := m)
  r.runWith startedAt (← r.resolve)

def readInventory (p : Path) : ExceptT Failure m (List PackageInventory) := do
  return (← ExceptT.mk (readArchive p)).inventory

end

end Layering

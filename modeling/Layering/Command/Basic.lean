import Layering.Check
import Layering.Explanation
import Layering.Report.Annotation
import Layering.Report.Console
import Layering.Report.Decode
import Layering.Report.Markdown

namespace Layering

structure Outcome where
  code : UInt32
  stdout : String
  stderr : String
  deriving DecidableEq, Repr

def Verdict.exitCode : Verdict → UInt32
  | .pass => 0
  | .fail => 2

structure CheckCommand where
  settings : Path
  archive : Path
  given : Choices
  report : Path
  markdown : Option Path
  deriving DecidableEq, Repr

inductive Command where
  | check (c : CheckCommand)
  | inventory (archive : Path)
  | markdown (report : Path) (output : Option Path)
  | annotations (report : Path) (max : Nat)
  | explain (id : String)
  deriving DecidableEq, Repr

section

variable {m : Type → Type} [Monad m] [Disk m]

def during {α : Type} (activity : String) (x : ExceptT Failure m α) : ExceptT Failure m α :=
  ExceptT.mk (doing activity <$> x.run)

def orOsError {α : Type} (x : m (Except OsError α)) : ExceptT Failure m α :=
  ExceptT.mk (Except.mapError (fun e => ⟨[], .read (.os e)⟩) <$> x)

def orReadError {α : Type} (x : m (Except ReadError α)) : ExceptT Failure m α :=
  ExceptT.mk (Except.mapError (fun e => ⟨[], .read e⟩) <$> x)

def makeParent (p : Path) : ExceptT Failure m Unit :=
  match p.parent? with
  | some dir => during s!"create directory: {dir}" (orOsError (Disk.makeDirectories dir))
  | none => pure ()

def writeFile (activity : String) (p : Path) (text : String) : ExceptT Failure m Unit := do
  makeParent p
  during s!"{activity}: {p}" (orOsError (Disk.write p text.toUTF8))

def readSettings (p : Path) : ExceptT Failure m String := do
  match ← (Disk.find p : m _) with
  | .error (.other code text) => throw ⟨[s!"read config {p}"], .read (.os (.other code text))⟩
  | .error _ => return ""
  | .ok _ => during s!"read config {p}" (orReadError (Disk.readText p))

namespace CheckCommand

variable (c : CheckCommand)

def request (settings : String) : CheckRequest := ⟨c.archive, settings, c.settings.parent?.getD "", c.given⟩

def writeReport (r : Report) : ExceptT Failure m Unit :=
  during "write report json" (writeFile "write report" c.report r.write)

def writeMarkdown (r : Report) : ExceptT Failure m Unit :=
  match c.markdown with
  | some p => during "write markdown" (writeFile "write text" p r.markdown)
  | none => pure ()

def attempt : ExceptT Failure m Report := do
  let result ← (c.request (← readSettings c.settings)).run
  c.writeReport result.report
  c.writeMarkdown result.report
  return result.report

/-- A check that fails leaves a report of its failure, if that can be written. -/
def run : m Outcome := do
  match ← c.attempt.run with
  | .ok report => return ⟨report.verdict.exitCode, report.console, ""⟩
  | .error f =>
    let report := Report.ofRuntimeError (← Disk.now) c.archive f.message
    discard (writeFile "write report" c.report report.write).run
    return ⟨1, "", s!"swcv error: {f.message}\n"⟩

end CheckCommand

def readReport (p : Path) : ExceptT Failure m Report := do
  Report.read (← during s!"read report: {p}" (orReadError (Disk.readText p)))

namespace Command

def printed (x : ExceptT Failure m String) : m Outcome := do
  match ← x.run with
  | .ok text => return ⟨0, text, ""⟩
  | .error f => return ⟨1, "", f.report⟩

def run : Command → m Outcome
  | check c => c.run
  | inventory archive =>
    printed do return InventoryEntry.report ((← readInventory archive).map .ofPackage)
  | markdown report none => printed do return (← readReport report).markdown
  | markdown report (some p) => printed do
      during "write markdown output" (writeFile "write text" p (← readReport report).markdown)
      return ""
  | annotations report max => printed do
      return .join (((← readReport report).annotations max).map (· ++ "\n"))
  | explain id =>
    match Explanation.explain id with
    | .ok text => return ⟨0, text, ""⟩
    | .error text => return ⟨1, "", text⟩

end Command

end

end Layering

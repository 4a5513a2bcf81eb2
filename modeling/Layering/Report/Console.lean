import Layering.Failure
import Layering.Report.Basic

namespace Layering

namespace Finding

def plainConsole (f : Finding) : String :=
  if f.code = upwardDependencyCode then s!"Dependency validation failure: {f.message}"
  else if f.code = runtimeErrorCode then s!"Error: {f.message}"
  else s!"[{f.checkId}:{f.code}] {f.message}"

def console (f : Finding) : String :=
  match f.package? with
  | some package =>
    if f.code = missingRankCode then
      s!"Package order file should rank ALL packages in swc. Package {package} is missing."
    else f.plainConsole
  | none => f.plainConsole

end Finding

/-- A line for each finding, and one that says so if there were more. -/
def Report.console (r : Report) : String :=
  .join (r.findings.map fun f => s!"{f.console}\n") ++ (r.data.truncatedReason.map fun reason => s!"({reason})\n").getD ""

structure InventoryEntry where
  package : String
  exports : List String
  internal : List String
  internalPackages : List String
  external : List String
  externalPackages : List String
  deriving DecidableEq, Repr

namespace InventoryEntry

def ofPackage (i : PackageInventory) : InventoryEntry :=
  { package := i.package
    exports := i.exports.map (·.name)
    internal := i.internal.map (·.display)
    internalPackages := i.internalPackages
    external := i.external.map (·.display)
    externalPackages := i.externalPackages }

def block (heading : String) (items : List String) : String :=
  let lines := if items.isEmpty then ["<Empty>"] else items
  s!"\t{heading}\n" ++ .join (lines.map fun line => s!"\t\t{line}\n")

def text (e : InventoryEntry) : String :=
  s!"{e.package}\n" ++ block "Exports" e.exports ++ block "Dependencies" e.internal ++
    block "Dependencies By Package" e.internalPackages ++ block "External Dependencies" e.external ++
    block "External Dependencies By Package" e.externalPackages

def report (entries : List InventoryEntry) : String := .join (entries.map text)

end InventoryEntry

namespace Failure

def indented (first later text : String) : String := .join (first :: text.toList.map fun c =>
  if c = '\n' then "\n" ++ later else c.toString)

def numberedCause (number : Nat) (text : String) : String :=
  indented ("".pushn ' ' (5 - (toString number).length) ++ s!"{number}: ") "       " text

/-- What was being done, and below it why it failed: the one cause, or the numbered ones. -/
def report (f : Failure) : String :=
  match f.chain with
  | [] => ""
  | [head] => s!"Error: {head}\n"
  | [head, why] => s!"Error: {head}\n\nCaused by:\n" ++ indented "    " "    " why ++ "\n"
  | head :: whys =>
    s!"Error: {head}\n\nCaused by:\n" ++ .join (whys.zipIdx.map fun w => numberedCause w.2 w.1 ++ "\n")

end Failure

end Layering

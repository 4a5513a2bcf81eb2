import Layering.Evaluation
import Layering.Json.Basic

namespace Layering

def Severity.text : Severity → String
  | .info => "info"
  | .warning => "warning"
  | .error => "error"

def Verdict.text : Verdict → String
  | .pass => "pass"
  | .fail => "fail"

namespace Json

def count (n : UInt32) : Json := .int n.toNat

def strings (items : List String) : Json := .arr (items.map .str)

def present : Json → Option Json
  | .null => none
  | v => some v

def order (groups : List (List String)) : Option Json :=
  if groups.isEmpty then none else some (.arr (groups.map strings))

end Json

def Finding.toJson (f : Finding) : Json := .obj <| Json.record Finding.keys
  [some (.str f.severity.text), some (.str f.checkId), some (.str f.code), some (.str f.message), f.help.map .str,
    f.fingerprint.map .str, f.data.present]

def Summary.toJson (d : Summary) : Json := .obj <| Json.record Summary.keys
  [some (.str d.archive), some (.str d.mode), some (.count d.packagesScanned), some (.count d.dependenciesScanned),
    some (.count d.internalDependencies), some (.count d.externalDependencies), some (.count d.rankGroups),
    Json.order d.packageOrder, some (.count d.findingsTotal), some (.count d.findingsEmitted),
    d.truncatedReason.map .str]

def Evaluation.toJson (e : Evaluation) : Json := .obj
  [("verdict", .str e.verdict.text), ("findings", .arr (e.findings.map Finding.toJson)), ("data", e.data.toJson)]

def Tool.toJson (t : Tool) : Json := .obj <| Json.record Tool.keys [some (.str t.name), some (.str t.version)]

namespace Report

variable (r : Report)

def toJson : Json := .obj <| Json.record Report.keys
  [some (.str r.schema), some r.tool.toJson, some (.str r.startedAt.text), some (.str r.finishedAt.text),
    some (.str r.verdict.text), some (.arr (r.findings.map Finding.toJson)), some r.data.toJson]

def write : String := r.toJson.pretty

end Report

end Layering

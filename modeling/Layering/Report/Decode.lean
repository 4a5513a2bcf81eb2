import Layering.Failure
import Layering.Json.Reader
import Layering.Report.Basic

namespace Layering

namespace Json

/-- The named parts of a structure, `none` for one that is not there: an object, whose unknown fields are passed over, or
an array of all of them, but for the last `spare` at most. -/
def parts (names : List String) (spare : Nat) : Json → Option (List (Option Json))
  | obj fields => some (names.map (fields.lookup ·))
  | arr items =>
    if names.length - spare ≤ items.length ∧ items.length ≤ names.length then
      some (items.map some ++ List.replicate (names.length - items.length) none)
    else none
  | _ => none

def asText? : Option Json → Option String
  | some (str s) => some s
  | _ => none

def asTextOrNull? : Option Json → Option (Option String)
  | none | some null => some none
  | some (str s) => some (some s)
  | _ => none

def asCount? : Option Json → Option UInt32
  | some (int n) => if 0 ≤ n ∧ n < UInt32.size then some (.ofNat n.toNat) else none
  | _ => none

def asItems? : Option Json → Option (List Json)
  | some (arr items) => some items
  | _ => none

def asGroups? : Option Json → Option (List (List String))
  | none => some []
  | order => do (← asItems? order).mapM fun group => do (← asItems? (some group)).mapM fun name => asText? (some name)

def asInstant? (v : Option Json) : Option Instant := asText? v >>= Instant.parse

def asAlternative? : Json → Option String
  | str s => some s
  | obj [(s, null)] => some s
  | _ => none

end Json

def Severity.ofJson? (v : Json) : Option Severity := do
  match ← v.asAlternative? with
  | "info" => some .info
  | "warning" => some .warning
  | "error" => some .error
  | _ => none

def Verdict.ofJson? (v : Json) : Option Verdict := do
  match ← v.asAlternative? with
  | "pass" => some .pass
  | "fail" => some .fail
  | _ => none

def Finding.ofParts? : List (Option Json) → Option Finding
  | [severity, checkId, code, message, help, fingerprint, data] => do
    return {
      severity := ← severity >>= Severity.ofJson?
      checkId := ← Json.asText? checkId
      code := ← Json.asText? code
      message := ← Json.asText? message
      help := ← Json.asTextOrNull? help
      fingerprint := ← Json.asTextOrNull? fingerprint
      data := data.getD .null }
  | _ => none

def Finding.ofJson? (v : Json) : Option Finding := v.parts keys 1 >>= ofParts?

def Summary.ofParts? : List (Option Json) → Option Summary
  | [archive, mode, packages, dependencies, internal, external, groups, order, total, emitted, truncated] => do
    return {
      archive := ← Json.asText? archive
      mode := ← Json.asText? mode
      packagesScanned := ← Json.asCount? packages
      dependenciesScanned := ← Json.asCount? dependencies
      internalDependencies := ← Json.asCount? internal
      externalDependencies := ← Json.asCount? external
      rankGroups := ← Json.asCount? groups
      packageOrder := ← Json.asGroups? order
      findingsTotal := ← Json.asCount? total
      findingsEmitted := ← Json.asCount? emitted
      truncatedReason := ← Json.asTextOrNull? truncated }
  | _ => none

def Summary.ofJson? (v : Json) : Option Summary := v.parts keys 0 >>= ofParts?

def Tool.ofParts? : List (Option Json) → Option Tool
  | [name, version] => do return { name := ← Json.asText? name, version := ← Json.asText? version }
  | _ => none

def Tool.ofJson? (v : Json) : Option Tool := v.parts keys 0 >>= ofParts?

namespace Report

def ofParts? : List (Option Json) → Option Report
  | [schema, tool, startedAt, finishedAt, verdict, findings, data] => do
    return {
      schema := ← Json.asText? schema
      tool := ← tool >>= Tool.ofJson?
      startedAt := ← Json.asInstant? startedAt
      finishedAt := ← Json.asInstant? finishedAt
      verdict := ← verdict >>= Verdict.ofJson?
      findings := ← (← Json.asItems? findings).mapM Finding.ofJson?
      data := ← data >>= Summary.ofJson? }
  | _ => none

def ofJson? (v : Json) : Option Report := v.parts keys 0 >>= ofParts?

/-- Reads the text of a report file. The schema it names is looked at before anything else. -/
def read (text : String) : Except Failure Report :=
  match Json.parse text with
  | none => .error ⟨["parse report json"], .malformedJson⟩
  | some v =>
    let schema := (v.get? "schema" >>= Json.asString?).getD ""
    if schema ≠ reportSchema then .error ⟨[], .unknownReportSchema schema⟩
    else match ofJson? v with
      | some r => .ok r
      | none => .error ⟨["parse swcv report"], .unexpectedJson⟩

end Report

end Layering

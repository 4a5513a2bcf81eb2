import Layering.Violation

namespace Layering

inductive Cause where
  | symbol (e : SymbolError)
  | order (e : OrderError)
  | read (e : ReadError)
  | malformedXml
  | noLibraries
  | missingDefinition (script : String)
  | missingId (element script : String)
  | malformedZip
  | noManifest (archive : String)
  | malformedSettings
  | unknownSettingsSchema (schema : String)
  | unknownMode (mode : String)
  | conflictingOrders
  | noOrder
  | malformedJson
  | unexpectedJson
  | unknownReportSchema (schema : String)
  deriving DecidableEq, Repr

def Cause.message : Cause → String
  | .symbol e => e.message
  | .order e => e.message
  | .read e => e.message
  | .malformedXml => "catalog.xml is not well-formed: invalid XML"
  | .noLibraries => "cannot find library information in swc"
  | .missingDefinition script => s!"no def for script {quoted script}"
  | .missingId element script => s!"no id attribute for <{element}> in script {quoted script}"
  | .malformedZip => "invalid Zip archive"
  | .noManifest archive => s!"{archive} does not contain a catalog.xml"
  | .malformedSettings => "invalid TOML"
  | .unknownSettingsSchema schema => s!"unsupported config schema: {schema} (expected swcv.config.v1)"
  | .unknownMode mode => s!"unknown mode: {mode} (expected 'first' or 'all')"
  | .conflictingOrders => "`order` and `order_file` are mutually exclusive"
  | .noOrder => "no package order given (use --order, --order-file, or `order` in swcv.toml)"
  | .malformedJson => "invalid JSON"
  | .unexpectedJson => "invalid report"
  | .unknownReportSchema schema => s!"unknown report schema: {schema} (expected swcv.report.v1)"

structure Failure where
  context : List String
  cause : Cause
  deriving DecidableEq, Repr

namespace Failure

variable (f : Failure)

def chain : List String := f.context ++ [f.cause.message]

def message : String := ": ".intercalate f.chain

def within (activity : String) : Failure := { f with context := activity :: f.context }

/-- An order whose text could not be read is told twice, as the order's error and as the reader's. -/
def ofOrder : OrderError → Failure
  | .unreadable cause => ⟨[(OrderError.unreadable cause).message], .read cause⟩
  | e => ⟨[], .order e⟩

end Failure

def doing {α : Type} (activity : String) : Except Failure α → Except Failure α := Except.mapError (·.within activity)

def Mode.parse : String → Except Failure Mode
  | "first" => .ok .first
  | "all" => .ok .all
  | other => .error ⟨[], .unknownMode other⟩

end Layering

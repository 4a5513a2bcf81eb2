import Layering.Order
import Layering.Report.Basic

namespace Layering

structure Explanation where
  title : String
  description : String
  remediation : String
  before : String
  after : String
  deriving DecidableEq, Repr

namespace Explanation

def lines (ls : List String) : String := "\n".intercalate ls

def missingRank : Explanation where
  title := "Every Package Must Be Ranked"
  description := lines [
    "Detects packages defined in the SWC that do not appear in the package order.",
    "",
    "The order is only meaningful when it covers the whole library. A package with no",
    "rank cannot be compared against anything, so validation stops before any",
    "dependency is examined."]
  remediation := lines [
    "Add the missing package to the package order, either as its own rank or inside",
    "a parenthesized group with packages it may freely depend on:",
    "",
    "    com.acme.util, (com.acme.model, com.acme.net), com.acme.ui",
    "",
    "Use `swcv inventory <swc>` to list every package the SWC defines."]
  before := "com.acme.util, com.acme.ui"
  after := "com.acme.util, com.acme.model, com.acme.ui"

def upwardDependency : Explanation where
  title := "No Upward Dependencies"
  description := lines [
    "Detects a package that uses a symbol exported by a package of higher rank.",
    "",
    "Packages listed earlier in the order are lower layers. A package may depend on",
    "symbols from packages of the same or a lower rank only. Dependencies on symbols",
    "the SWC does not define (for example `flash.display:Sprite` from playerglobal)",
    "are external and never checked.",
    "",
    "In the example below `com.acme.model` uses `com.acme.view:Renderer`."]
  remediation := lines [
    "Either move the offending code so the dependency points downward, or, if the",
    "layering was wrong, reorder the packages. Packages that legitimately depend on",
    "each other belong in the same parenthesized group:",
    "",
    "    com.acme.util, (com.acme.model, com.acme.view)"]
  before := "com.acme.model, com.acme.view"
  after := "(com.acme.model, com.acme.view)"

def runtimeError : Explanation where
  title := "Runtime Error"
  description := lines [
    "swcv could not complete the check. Typical causes are an unreadable archive, a",
    "SWC without a catalog.xml, a malformed catalog, or a package order that does",
    "not parse (too many commas, an unclosed parenthesis)."]
  remediation := lines [
    "Read the finding message for the underlying cause. Run `swcv -v check ...` for",
    "debug logging."]
  before := "com.acme.util,, (com.acme.model"
  after := "com.acme.util, (com.acme.model)"

/-- What is explained: a check, the code of its finding, and the explanation of both. -/
def registry : List (String × String × Explanation) := [
  (completenessCheck, missingRankCode, missingRank),
  (layeringCheck, upwardDependencyCode, upwardDependency),
  (runtimeCheck, runtimeErrorCode, runtimeError)]

def find? (id : String) : Option Explanation :=
  (registry.find? fun e => e.1 == id || e.2.1 == id).map (·.2.2)

def heading (title : String) (rule : Char) : String :=
  s!"{title}\n" ++ .ofList (List.replicate title.length rule) ++ "\n"

def orderExample (label order : String) : String :=
  s!"{label}:\n    {order}\n" ++
    match RankTable.parse order with
    | .ok t => .join (t.groups.zipIdx.map fun g => s!"  rank {g.2}: " ++ ", ".intercalate g.1 ++ "\n")
    | .error e => s!"  {e.message}\n"

def text (e : Explanation) : String :=
  heading e.title '=' ++ s!"\n{e.description}\n\n" ++
    heading "Remediation" '-' ++ s!"{e.remediation}\n\n" ++
    heading "Package order" '-' ++ "\n" ++
    orderExample "Before (violation)" e.before ++ "\n" ++ orderExample "After (fixed)" e.after

def notFoundText (id : String) (checks codes : List String) : String :=
  let list (title : String) (names : List String) : String :=
    s!"\n{title}:\n" ++ .join (names.map fun name => s!"  - {name}\n")
  s!"Unknown check_id or code: {id}\n" ++ list "Available check_ids" checks ++ list "Available codes" codes

def explain (id : String) : Except String String :=
  match find? id with
  | some e => .ok e.text
  | none => .error (notFoundText id (registry.map (·.1)) (registry.map (·.2.1)))

end Explanation

end Layering

import Layering.Report.Basic

namespace Layering.Annotation

def level : Severity → String
  | .error => "error"
  | .warning => "warning"
  | .info => "notice"

def replace (c : Char) (code : List Char) (cs : List Char) : List Char :=
  cs.flatMap fun d => if d = c then code else [d]

/-- Line ends, and the sign that spells them, as percent codes. The sign is replaced first, since it stands in the codes
as well. -/
def escape (s : String) : String :=
  .ofList (replace '\n' ['%', '0', 'A'] (replace '\r' ['%', '0', 'D'] (replace '%' ['%', '2', '5'] s.toList)))

def summary (f : Finding) : String := s!"[{f.checkId}:{f.code}] {f.message}"

def ofFinding (f : Finding) : String := s!"::{level f.severity}::{escape (summary f)}"

end Annotation

def Report.annotations (r : Report) (max : Nat) : List String := (r.findings.map Annotation.ofFinding).take max

end Layering

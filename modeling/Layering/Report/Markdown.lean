import Layering.Report.Basic

namespace Layering.Markdown

/-- A bar would end a table cell, even between backticks. -/
def escapeCell (s : String) : String := .ofList (s.toList.flatMap fun c => if c = '|' then ['\\', '|'] else [c])

def cell (group : List String) : String :=
  if group.isEmpty then "_(empty)_" else ", ".intercalate (group.map fun name => s!"`{escapeCell name}`")

def row (rank : Nat) (group : List String) : String := s!"| {rank} | {cell group} |\n"

def orderTable (groups : List (List String)) : String :=
  "## Package order\n\n| Rank | Packages |\n| --- | --- |\n" ++ .join (groups.zipIdx.map fun g => row g.2 g.1) ++ "\n"

def severity : Severity → String
  | .info => "INFO"
  | .warning => "WARN"
  | .error => "ERROR"

def finding (f : Finding) : String :=
  s!"- [{severity f.severity}] `{f.checkId}` / `{f.code}`: {f.message}\n" ++
    (f.help.map fun help => s!"  - help: {help}\n").getD ""

def verdict : Verdict → String
  | .pass => "PASS"
  | .fail => "FAIL"

def heading (r : Report) : String :=
  let d := r.data
  "# swcv report\n\n" ++
    (if d.archive.isEmpty then "" else s!"- Archive: `{d.archive}`\n") ++
    s!"- Verdict: **{verdict r.verdict}**\n" ++
    (if d.mode.isEmpty then "" else s!"- Mode: {d.mode}\n") ++
    s!"- Packages: {d.packagesScanned} / Dependencies: {d.dependenciesScanned} " ++
    s!"({d.internalDependencies} internal, {d.externalDependencies} external)\n" ++
    s!"- Findings: {d.findingsEmitted} (emitted) / {d.findingsTotal} (total)\n\n"

end Markdown

def Report.markdown (r : Report) : String :=
  Markdown.heading r ++
    (r.data.truncatedReason.map fun reason => s!"> Note: {reason}\n\n").getD "" ++
    (if r.data.packageOrder.isEmpty then "" else Markdown.orderTable r.data.packageOrder) ++
    if r.findings.isEmpty then "No findings.\n"
    else "## Findings\n\n" ++ .join (r.findings.map Markdown.finding)

end Layering

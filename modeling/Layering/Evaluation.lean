import Layering.Digest
import Layering.Model
import Layering.Report.Basic
import Layering.Violation

namespace Layering

structure Policy where
  mode : Mode
  maxFindings : Nat
  deriving DecidableEq, Repr

def Policy.default : Policy := ⟨.first, 200⟩

structure Evaluation where
  verdict : Verdict
  findings : List Finding
  data : Summary
  deriving BEq, Repr

namespace Finding

def ofViolation (v : Violation) : Finding :=
  { severity := .error
    checkId := layeringCheck
    code := upwardDependencyCode
    message := v.message
    help := some (s!"'{v.package}' (rank {v.packageRank}) may only depend on packages of rank {v.packageRank} or lower; " ++
      s!"'{v.owner}' has rank {v.ownerRank}.")
    fingerprint := some (Fingerprint.ofFinding layeringCheck upwardDependencyCode v.package (some v.symbol.display))
    data := .obj [("owner", .str v.owner), ("owner_rank", .word v.ownerRank), ("package", .str v.package),
      ("package_rank", .word v.packageRank), ("symbol", .str v.symbol.display)] }

def ofMissingRank (e : MissingRank) : Finding :=
  { severity := .error
    checkId := completenessCheck
    code := missingRankCode
    message := s!"package '{e.package}' is not ranked by the package order"
    help := some "Add the package to the package order."
    fingerprint := some (Fingerprint.ofFinding completenessCheck missingRankCode e.package none)
    data := .obj [("package", .str e.package)] }

end Finding

namespace Model

variable (m : Model) (t : RankTable) (policy : Policy)

def findings : List Finding :=
  match m.validate t policy.mode with
  | .ok violations => violations.map .ofViolation
  | .error e => [.ofMissingRank e]

def evaluate : Evaluation :=
  let found := m.findings t policy
  let total : UInt32 := .ofNat found.length
  let emitted := found.take policy.maxFindings
  { verdict := if 0 < total then .fail else .pass
    findings := emitted
    data :=
      { archive := ""
        mode := policy.mode.text
        packagesScanned := .ofNat m.packages.length
        dependenciesScanned := .ofNat m.dependencyCount
        internalDependencies := .ofNat m.internalCount
        externalDependencies := .ofNat m.externalCount
        rankGroups := .ofNat t.rankCount
        packageOrder := t.groups
        findingsTotal := total
        findingsEmitted := .ofNat emitted.length
        truncatedReason :=
          if policy.maxFindings < found.length then some s!"findings truncated to max_findings={policy.maxFindings}"
          else none } }

end Model

end Layering

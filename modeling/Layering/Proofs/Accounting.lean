import Layering.Proofs.Evaluation
import Layering.Proofs.Partition
import Mathlib.Data.List.Infix

namespace Layering.Model

variable {m : Model} {t : RankTable} {policy other : Policy}

theorem findings_congr (h : policy.mode = other.mode) : m.findings t policy = m.findings t other := by
  rw [findings, findings, h]

theorem findings_prefix_of_limit (hmode : policy.mode = other.mode) (hlimit : policy.maxFindings ≤ other.maxFindings) :
    (m.evaluate t policy).findings <+: (m.evaluate t other).findings := by
  rw [findings_evaluate, findings_evaluate, findings_congr hmode]
  exact List.take_prefix_take_left hlimit

theorem findings_prefix_of_mode (limit : Nat) :
    (m.evaluate t ⟨.first, limit⟩).findings <+: (m.evaluate t ⟨.all, limit⟩).findings := by
  rw [findings_evaluate, findings_evaluate, findings_first limit limit]
  exact List.IsPrefix.take (List.take_prefix 1 _) limit

theorem subjects_of_ok {vs : List Violation} (hv : m.validate t policy.mode = .ok vs) :
    (m.findings t policy).map (·.subject) =
      vs.map fun v => ("upward_dependency", some v.package, some v.symbol.display) := by
  rw [findings_of_ok hv, List.map_map]
  rfl

theorem subjects_of_error {missing : MissingRank} (hv : m.validate t policy.mode = .error missing) :
    (m.findings t policy).map (·.subject) = [("missing_rank", some missing.package, none)] := by
  rw [findings_of_error hv]
  rfl

section

variable (hfew : (m.findings t policy).length < UInt32.size)
include hfew

theorem findingsTotal_toNat : (m.evaluate t policy).data.findingsTotal.toNat = (m.findings t policy).length :=
  UInt32.toNat_ofNat_of_lt' hfew

theorem findingsEmitted_toNat :
    (m.evaluate t policy).data.findingsEmitted.toNat = (m.evaluate t policy).findings.length := by
  refine UInt32.toNat_ofNat_of_lt' (Nat.lt_of_le_of_lt ?_ hfew)
  exact List.length_take_le' _ _

theorem truncatedReason_isSome_iff : (m.evaluate t policy).data.truncatedReason.isSome ↔
    (m.evaluate t policy).data.findingsEmitted < (m.evaluate t policy).data.findingsTotal := by
  have hreason : (m.evaluate t policy).data.truncatedReason.isSome ↔
      policy.maxFindings < (m.findings t policy).length := by
    rw [evaluate]
    dsimp only
    split <;> simp [*]
  rw [hreason, UInt32.lt_iff_toNat_lt, findingsTotal_toNat hfew, findingsEmitted_toNat hfew, findings_evaluate,
    List.length_take]
  omega

end

theorem dependencies_evaluate (hfew : m.dependencyCount < UInt32.size) :
    (m.evaluate t policy).data.dependenciesScanned.toNat = m.dependencyCount ∧
    (m.evaluate t policy).data.internalDependencies.toNat + (m.evaluate t policy).data.externalDependencies.toNat =
      m.dependencyCount := by
  have htotal := m.internalCount_add_externalCount
  have hinternal : m.internalCount < UInt32.size := by omega
  have hexternal : m.externalCount < UInt32.size := by omega
  refine ⟨UInt32.toNat_ofNat_of_lt' hfew, ?_⟩
  calc
    _ = m.internalCount + m.externalCount :=
      congrArg₂ (· + ·) (UInt32.toNat_ofNat_of_lt' hinternal) (UInt32.toNat_ofNat_of_lt' hexternal)
    _ = m.dependencyCount := htotal

/-- Of what is found, the violations in the order of the scan or the one package without a rank, each told by its code,
its package and its symbol, the first findings are shown, as many as the limit allows. As long as nothing outgrows a
counter of 32 bits, the counts are those of the findings, found and shown, of the dependencies of both kinds and of the
groups of the order, and a note tells of a limit just where fewer are shown than were found. A higher limit shows those
findings and more behind them, and so does the search for all violations. -/
theorem evaluate_accounts (m : Model) (t : RankTable) (policy : Policy) :
    let found := m.findings t policy
    let e := m.evaluate t policy
    (∀ vs, m.validate t policy.mode = .ok vs → found = vs.map .ofViolation ∧
      found.map (·.subject) = vs.map fun v => ("upward_dependency", some v.package, some v.symbol.display)) ∧
    (∀ missing, m.validate t policy.mode = .error missing → found = [.ofMissingRank missing] ∧
      found.map (·.subject) = [("missing_rank", some missing.package, none)]) ∧
    e.findings <+: found ∧ e.findings.length = min found.length policy.maxFindings ∧
    (found.length < UInt32.size → e.data.findingsTotal.toNat = found.length ∧
      e.data.findingsEmitted.toNat = e.findings.length ∧
      (e.data.truncatedReason.isSome ↔ e.data.findingsEmitted < e.data.findingsTotal)) ∧
    (m.dependencyCount < UInt32.size → e.data.dependenciesScanned.toNat = m.dependencyCount ∧
      e.data.dependenciesScanned.toNat = e.data.internalDependencies.toNat + e.data.externalDependencies.toNat) ∧
    e.data.packageOrder = t.groups ∧
    (t.rankCount < UInt32.size → e.data.rankGroups.toNat = e.data.packageOrder.length) ∧
    (∀ other : Policy, policy.mode = other.mode → policy.maxFindings ≤ other.maxFindings →
      e.findings <+: (m.evaluate t other).findings) ∧
    ∀ limit, (m.evaluate t ⟨.first, limit⟩).findings <+: (m.evaluate t ⟨.all, limit⟩).findings := by
  intro found e
  refine ⟨fun vs hv => ⟨findings_of_ok hv, subjects_of_ok hv⟩,
    fun missing hv => ⟨findings_of_error hv, subjects_of_error hv⟩, List.take_prefix _ _, ?_, fun hfew => ?_,
    fun hfew => ?_, rfl, UInt32.toNat_ofNat_of_lt', fun other => findings_prefix_of_limit, findings_prefix_of_mode⟩
  · rw [findings_evaluate, List.length_take, Nat.min_comm]
  · exact ⟨findingsTotal_toNat hfew, findingsEmitted_toNat hfew, truncatedReason_isSome_iff hfew⟩
  · obtain ⟨hscanned, htotal⟩ := @dependencies_evaluate m t policy hfew
    exact ⟨hscanned, hscanned.trans htotal.symm⟩

theorem evaluate_accounts_truncated :
    let base : Symbol := ⟨"base", "Point", by decide⟩
    let view : Symbol := ⟨"view", "Panel", by decide⟩
    let gone : Symbol := ⟨"net", "Socket", by decide⟩
    let m := Model.empty.replay [.define base, .define view, .addDependency "base" view, .addDependency "app" view,
      .addDependency "app" gone, .addDependency "app" base]
    let t : RankTable := ⟨[["app"], ["base"]], ["view"], [("app", 0), ("base", 1), ("view", 2)]⟩
    let low : Violation := ⟨"base", 1, view, "view", 2⟩
    let e := m.evaluate t ⟨.all, 1⟩
    m.validate t .all = .ok [low, ⟨"app", 0, view, "view", 2⟩, ⟨"app", 0, base, "base", 1⟩] ∧
      (m.findings t ⟨.all, 1⟩).map (·.subject) = [("upward_dependency", some "base", some "view:Panel"),
        ("upward_dependency", some "app", some "view:Panel"), ("upward_dependency", some "app", some "base:Point")] ∧
      (m.findings t ⟨.all, 1⟩).length = 3 ∧ e.findings.length = 1 ∧ e.data.findingsTotal.toNat = 3 ∧
      e.data.findingsEmitted.toNat = 1 ∧ e.data.truncatedReason.isSome ∧
      e.data.dependenciesScanned.toNat = 4 ∧ e.data.rankGroups.toNat = 3 ∧
      e.findings <+: (m.evaluate t ⟨.all, 2⟩).findings ∧
      (m.evaluate t ⟨.first, 1⟩).findings <+: e.findings := by
  intro base view gone m t low e
  obtain ⟨hok, -, -, hshown, hcounts, hdependencies, -, hgroups, hlimit, hmode⟩ := evaluate_accounts m t ⟨.all, 1⟩
  have hv : m.validate t .all = .ok [low, ⟨"app", 0, view, "view", 2⟩, ⟨"app", 0, base, "base", 1⟩] := by decide
  obtain ⟨hfindings, hsubjects⟩ := hok _ hv
  have hfound : (m.findings t ⟨.all, 1⟩).length = 3 := by rw [hfindings]; rfl
  obtain ⟨htotal, hemitted, hreason⟩ := hcounts (by rw [hfound]; decide)
  have hone : e.findings.length = 1 := hshown.trans (by rw [hfound]; rfl)
  have htwo : e.data.findingsEmitted < e.data.findingsTotal := by
    rw [UInt32.lt_iff_toNat_lt, htotal, hemitted, hone, hfound]
    decide
  exact ⟨hv, hsubjects, hfound, hone, htotal.trans hfound, hemitted.trans hone, hreason.mpr htwo,
    (hdependencies (by decide)).1.trans (by decide), (hgroups (by decide)).trans rfl, hlimit ⟨.all, 2⟩ rfl (by decide),
    hmode 1⟩

end Layering.Model

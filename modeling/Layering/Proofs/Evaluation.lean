import Layering.Evaluation
import Layering.Proofs.Chain
import Layering.Proofs.Report.RoundTrip

namespace Layering

theorem Json.readable_word {k : Nat} (n : Nat) : (Json.word n).Readable k := by
  have hn : (UInt64.ofNat n).toNat < 2 ^ 64 := UInt64.toNat_lt _
  exact .int (by omega) (by omega)

theorem Json.sorted_word (n : Nat) : (Json.word n).sorted = .word n := by
  simp [word, sorted]

namespace Finding

inductive Evaluated : Finding → Prop
  | violation (v : Violation) : Evaluated (.ofViolation v)
  | missingRank (e : MissingRank) : Evaluated (.ofMissingRank e)

def symbol? (f : Finding) : Option String := f.data.get? "symbol" >>= Json.asString?

/-- What a finding tells: its code, its package and its symbol. -/
def subject (f : Finding) : String × Option String × Option String := (f.code, f.package?, f.symbol?)

theorem package?_ofViolation (v : Violation) : (ofViolation v).package? = some v.package := rfl

theorem symbol?_ofViolation (v : Violation) : (ofViolation v).symbol? = some v.symbol.display := rfl

theorem package?_ofMissingRank (e : MissingRank) : (ofMissingRank e).package? = some e.package := rfl

theorem symbol?_ofMissingRank (e : MissingRank) : (ofMissingRank e).symbol? = none := rfl

theorem plain_ofViolation (v : Violation) : (ofViolation v).Plain := by
  have hkeys : ["owner", "owner_rank", "package", "package_rank", "symbol"].Pairwise (· < ·) := by decide
  constructor
  case readable =>
    refine .obj fun f hf => ?_
    simp only [List.mem_cons, List.not_mem_nil, or_false] at hf
    rcases hf with rfl | rfl | rfl | rfl | rfl
    · exact .str _
    · exact Json.readable_word _
    · exact .str _
    · exact Json.readable_word _
    · exact .str _
  case sorted =>
    refine Json.sorted_ascending hkeys fun f hf => ?_
    simp only [List.mem_cons, List.not_mem_nil, or_false] at hf
    rcases hf with rfl | rfl | rfl | rfl | rfl
    · exact Json.sorted_str _
    · exact Json.sorted_word _
    · exact Json.sorted_str _
    · exact Json.sorted_word _
    · exact Json.sorted_str _

theorem plain_ofMissingRank (e : MissingRank) : (ofMissingRank e).Plain := by
  constructor
  case readable =>
    refine .obj fun f hf => ?_
    obtain rfl := List.mem_singleton.mp hf
    exact .str _
  case sorted =>
    refine Json.sorted_ascending (List.pairwise_singleton _ _) fun f hf => ?_
    obtain rfl := List.mem_singleton.mp hf
    exact Json.sorted_str _

end Finding

namespace Model

variable {m : Model} {t : RankTable} {policy : Policy}

theorem evaluated_of_mem_findings {f : Finding} (hf : f ∈ m.findings t policy) : f.Evaluated := by
  rw [findings] at hf
  cases hv : m.validate t policy.mode with
  | ok vs =>
      rw [hv] at hf
      obtain ⟨v, -, rfl⟩ := List.mem_map.mp hf
      exact .violation v
  | error e =>
      rw [hv] at hf
      obtain rfl := List.mem_singleton.mp hf
      exact .missingRank e

theorem mem_findings {f : Finding} (hf : f ∈ m.findings t policy) : f.Plain ∧ f.code ≠ runtimeErrorCode := by
  cases evaluated_of_mem_findings hf with
  | violation v =>
      exact ⟨Finding.plain_ofViolation v, by simp [Finding.ofViolation, upwardDependencyCode, runtimeErrorCode]⟩
  | missingRank e =>
      exact ⟨Finding.plain_ofMissingRank e, by simp [Finding.ofMissingRank, missingRankCode, runtimeErrorCode]⟩

theorem findings_evaluate : (m.evaluate t policy).findings = (m.findings t policy).take policy.maxFindings := rfl

theorem mem_evaluate {f : Finding} (hf : f ∈ (m.evaluate t policy).findings) : f ∈ m.findings t policy :=
  List.mem_of_mem_take hf

theorem WellFormed.findings_eq_nil_iff (h : m.WellFormed) : m.findings t policy = [] ↔ m.Ordered t := by
  have hv : m.validate t policy.mode = .ok [] ↔ m.Ordered t := h.validate_eq_nil_iff
  rw [← hv, findings]
  cases m.validate t policy.mode with
  | ok vs => simp
  | error e => simp

/-- The verdict goes by a count of 32 bits, which comes round to zero. -/
theorem verdict_evaluate_eq_pass :
    (m.evaluate t policy).verdict = .pass ↔ UInt32.size ∣ (m.findings t policy).length := by
  have hc : 0 < UInt32.ofNat (m.findings t policy).length ↔ 0 < (m.findings t policy).length % UInt32.size := by
    rw [UInt32.lt_iff_toNat_lt, UInt32.toNat_ofNat']
    rfl
  simp only [evaluate, hc, Nat.dvd_iff_mod_eq_zero]
  split
  · next hpos =>
      simp only [reduceCtorEq, false_iff]
      omega
  · next hpos =>
      simp only [true_iff]
      omega

theorem verdict_evaluate_eq_fail :
    (m.evaluate t policy).verdict = .fail ↔ ¬ UInt32.size ∣ (m.findings t policy).length := by
  rw [← verdict_evaluate_eq_pass]
  cases (m.evaluate t policy).verdict <;> simp

/-- A check passes just for an ordered model, unless it finds so much that the count of it comes round to zero. -/
theorem WellFormed.verdict_evaluate (h : m.WellFormed) (hl : (m.findings t policy).length < UInt32.size) :
    (m.evaluate t policy).verdict = .pass ↔ m.Ordered t := by
  have hn : m.findings t policy = [] ↔ m.Ordered t := h.findings_eq_nil_iff
  rw [verdict_evaluate_eq_pass, ← hn, ← List.length_eq_zero_iff]
  constructor
  · exact fun hd => Nat.eq_zero_of_dvd_of_lt hd hl
  · exact fun hz => hz ▸ Nat.dvd_zero _

theorem findings_unranked (h : ∃ p ∈ m.packages, t.rank p.name = none) : (m.findings t policy).length = 1 := by
  rcases ranked_or_first_unranked m t with hr | ⟨before, p, after, hl, hp, hb⟩
  · obtain ⟨p, hp, hn⟩ := h
    exact absurd hn (hr p hp)
  · rw [findings, validate_eq_error policy.mode hl hp hb]
    rfl

theorem WellFormed.length_findings (h : m.WellFormed) (hr : ∀ p ∈ m.packages, t.rank p.name ≠ none) :
    (m.findings t policy).length = match policy.mode with
      | .first => min 1 (m.upwardDependencies t).length
      | .all => (m.upwardDependencies t).length := by
  have hs : (m.scanPackages t .all m.packages).length = (m.upwardDependencies t).length :=
    (h.scanPackages_records m.packages hr).length_eq.symm
  rw [findings, validate_eq_ok policy.mode hr]
  cases policy.mode with
  | first => simp only [scanPackages_first, List.length_map, List.length_take, hs]
  | all => simp only [List.length_map, hs]

theorem findings_of_ok {vs : List Violation} (h : m.validate t policy.mode = .ok vs) :
    m.findings t policy = vs.map .ofViolation := by
  rw [findings, h]

theorem findings_of_error {e : MissingRank} (h : m.validate t policy.mode = .error e) :
    m.findings t policy = [.ofMissingRank e] := by
  rw [findings, h]

theorem findings_first (limit limit' : Nat) :
    m.findings t ⟨.first, limit⟩ = (m.findings t ⟨.all, limit'⟩).take 1 := by
  have hfirst : m.validate t .first = (m.validate t .all).map (·.take 1) := validate_first m t
  cases hall : m.validate t .all with
  | error e =>
      rw [hall] at hfirst
      rw [findings_of_error hfirst, findings_of_error hall]
      rfl
  | ok vs =>
      rw [hall] at hfirst
      rw [findings_of_ok hfirst, findings_of_ok hall, List.map_take]

theorem length_findings_first (hp : policy.mode = .first) : (m.findings t policy).length ≤ 1 := by
  obtain ⟨mode, limit⟩ := policy
  obtain rfl : mode = .first := hp
  rw [findings_first limit limit]
  exact List.length_take_le 1 _

end Model

end Layering

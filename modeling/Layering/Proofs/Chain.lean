import Layering.Proofs.Upward
import Mathlib.Data.List.Chain

namespace Layering

namespace RankTable

variable {t : RankTable} {a b c : String}

theorem AtMost.refl (h : t.rank a ≠ none) : t.AtMost a a := by
  obtain ⟨n, hn⟩ := Option.ne_none_iff_exists'.mp h
  exact ⟨n, hn, n, hn, Nat.le_refl n⟩

theorem AtMost.trans (hab : t.AtMost a b) (hbc : t.AtMost b c) : t.AtMost a c := by
  obtain ⟨i, hi, j, hj, hij⟩ := hab
  obtain ⟨j', hj', k, hk, hjk⟩ := hbc
  obtain rfl : j = j' := Option.some.inj (hj.symm.trans hj')
  exact ⟨i, hi, k, hk, Nat.le_trans hij hjk⟩

theorem AtMost.antisymm (hab : t.AtMost a b) (hba : t.AtMost b a) : t.rank a = t.rank b := by
  obtain ⟨i, hi, j, hj, hij⟩ := hab
  obtain ⟨j', hj', i', hi', hji⟩ := hba
  obtain rfl : j = j' := Option.some.inj (hj.symm.trans hj')
  obtain rfl : i = i' := Option.some.inj (hi.symm.trans hi')
  rw [hi, hj, Nat.le_antisymm hij hji]

theorem atMost_or_below (ha : t.rank a ≠ none) (hb : t.rank b ≠ none) : t.AtMost a b ∨ t.Below b a := by
  obtain ⟨i, hi⟩ := Option.ne_none_iff_exists'.mp ha
  obtain ⟨j, hj⟩ := Option.ne_none_iff_exists'.mp hb
  rcases Nat.lt_or_ge j i with h | h
  · exact .inr ⟨j, hj, i, hi, h⟩
  · exact .inl ⟨i, hi, j, hj, h⟩

theorem AtMost.not_below (h : t.AtMost a b) : ¬ t.Below b a := by
  obtain ⟨i, hi, j, hj, hij⟩ := h
  rintro ⟨j', hj', i', hi', hji⟩
  obtain rfl : j = j' := Option.some.inj (hj.symm.trans hj')
  obtain rfl : i = i' := Option.some.inj (hi.symm.trans hi')
  omega

end RankTable

namespace Model

/-- Every package has a rank, and none needs what a package of a higher rank exports. -/
structure Ordered (m : Model) (t : RankTable) : Prop where
  ranked : ∀ p ∈ m.packages, t.rank p.name ≠ none
  downward : ∀ p ∈ m.packages, ∀ d ∈ p.dependencies, m.Exports d → t.AtMost d.package p.name

variable {m : Model} {t : RankTable} {mode : Mode}

theorem scanPackages_eq_nil (mode : Mode) (ps : List Package) :
    m.scanPackages t mode ps = [] ↔ m.scanPackages t .all ps = [] := by
  cases mode with
  | first => rw [scanPackages_first, List.take_eq_nil_iff]; simp
  | all => rfl

theorem upwardDependencies_eq_nil :
    m.upwardDependencies t = [] ↔
      ∀ p ∈ m.packages, ∀ d ∈ p.dependencies, m.Exports d → ¬ t.Below p.name d.package := by
  simp only [upwardDependencies, List.flatMap_eq_nil_iff, List.map_eq_nil_iff, upward]
  refine forall₂_congr fun p _ => ?_
  rw [List.eq_nil_iff_forall_not_mem]
  simp only [List.mem_eraseDups, List.mem_filter, decide_eq_true_eq, not_and]

theorem WellFormed.scanPackages_eq_nil_iff (h : m.WellFormed) (hr : ∀ p ∈ m.packages, t.rank p.name ≠ none) :
    m.scanPackages t mode m.packages = [] ↔ m.upwardDependencies t = [] := by
  have hs := h.scanPackages_records m.packages hr
  rw [scanPackages_eq_nil, ← List.length_eq_zero_iff, ← List.length_eq_zero_iff]
  exact iff_of_eq (congrArg (· = 0) hs.length_eq.symm)

theorem Exports.ranked {d : Symbol} (he : m.Exports d) (hr : ∀ p ∈ m.packages, t.rank p.name ≠ none) :
    t.rank d.package ≠ none := by
  obtain ⟨q, hq, hn, -⟩ := he
  exact hn ▸ hr q hq

theorem WellFormed.validate_eq_nil_iff (h : m.WellFormed) : m.validate t mode = .ok [] ↔ m.Ordered t := by
  constructor
  · intro hv
    have hr := ranked_of_validate hv
    rw [validate_eq_ok mode hr, Except.ok.injEq, h.scanPackages_eq_nil_iff hr, upwardDependencies_eq_nil] at hv
    refine ⟨hr, fun p hp d hd he => ?_⟩
    exact (RankTable.atMost_or_below (he.ranked hr) (hr p hp)).resolve_right (hv p hp d hd he)
  · intro ho
    rw [validate_eq_ok mode ho.ranked, Except.ok.injEq, h.scanPackages_eq_nil_iff ho.ranked,
      upwardDependencies_eq_nil]
    exact fun p hp d hd he => (ho.downward p hp d hd he).not_below

def Needs (p q : Package) : Prop := ∃ d ∈ p.dependencies, d ∈ q.exports

structure IsChain (m : Model) (ps : List Package) : Prop where
  mem : ∀ p ∈ ps, p ∈ m.packages
  needs : ps.IsChain Needs

theorem IsChain.tail {p : Package} {ps : List Package} (h : m.IsChain (p :: ps)) : m.IsChain ps :=
  ⟨fun q hq => h.mem q (List.mem_cons_of_mem p hq), h.needs.tail⟩

theorem Ordered.atMost_of_needs (ho : m.Ordered t) (h : m.WellFormed) {p q : Package} (hp : p ∈ m.packages)
    (hq : q ∈ m.packages) (hn : Needs p q) : t.AtMost q.name p.name := by
  obtain ⟨d, hd, he⟩ := hn
  have hname := h.owned q hq d he
  rw [← hname]
  exact ho.downward p hp d hd ⟨q, hq, hname.symm, he⟩

/-- Along a chain every package is at most as high as the first one, and at least as high as the last one. -/
theorem Ordered.atMost_of_chain (ho : m.Ordered t) (h : m.WellFormed) {p : Package} {ps : List Package}
    (hc : m.IsChain (p :: ps)) (q : Package) (hq : q ∈ p :: ps) :
    t.AtMost q.name p.name ∧ t.AtMost ((p :: ps).getLast (by simp)).name q.name := by
  induction ps generalizing p q with
  | nil =>
      obtain rfl := List.mem_singleton.mp hq
      have hr := RankTable.AtMost.refl (ho.ranked q (hc.mem q hq))
      exact ⟨hr, hr⟩
  | cons r rs ih =>
      have hstep : t.AtMost r.name p.name :=
        ho.atMost_of_needs h (hc.mem p (by simp)) (hc.mem r (by simp)) (List.isChain_cons_cons.mp hc.needs).1
      rw [List.getLast_cons (by simp)]
      rcases List.mem_cons.mp hq with rfl | hq
      · exact ⟨.refl (ho.ranked q (hc.mem q (by simp))), (ih hc.tail r (by simp)).2.trans hstep⟩
      · obtain ⟨hfirst, hlast⟩ := ih hc.tail q hq
        exact ⟨hfirst.trans hstep, hlast⟩

theorem Ordered.rank_eq_of_cycle (ho : m.Ordered t) (h : m.WellFormed) {p : Package} {ps : List Package}
    (hc : m.IsChain (p :: ps)) (hl : Needs ((p :: ps).getLast (by simp)) p) (q : Package) (hq : q ∈ p :: ps) :
    t.rank q.name = t.rank p.name := by
  obtain ⟨hfirst, hlast⟩ := ho.atMost_of_chain h hc q hq
  have hback := ho.atMost_of_needs h (hc.mem _ (List.getLast_mem _)) (hc.mem p (by simp)) hl
  exact hfirst.antisymm (hback.trans hlast)

/-- Without violations, in either mode, no chain of dependencies leads up and every cycle stays on one layer; and where
no chain leads up there is no violation. -/
theorem no_violation_iff_chains {m : Model} (hm : Reachable m) (t : RankTable) (mode : Mode) :
    (m.validate t mode = .ok [] →
      (∀ p ps, m.IsChain (p :: ps) → t.AtMost ((p :: ps).getLast (by simp)).name p.name) ∧
      (∀ p ps, m.IsChain (p :: ps) → Needs ((p :: ps).getLast (by simp)) p →
        ∀ q ∈ p :: ps, ∀ r ∈ p :: ps, t.rank q.name = t.rank r.name)) ∧
    (∀ vs, m.validate t mode = .ok vs →
      (∀ p ps, m.IsChain (p :: ps) → t.AtMost ((p :: ps).getLast (by simp)).name p.name) → vs = []) := by
  have h := hm.wellFormed
  refine ⟨fun hv => ?_, fun vs hv hc => ?_⟩
  · have ho := h.validate_eq_nil_iff.mp hv
    refine ⟨fun p ps hc => (ho.atMost_of_chain h hc p (by simp)).2, fun p ps hc hl q hq r hr => ?_⟩
    exact (ho.rank_eq_of_cycle h hc hl q hq).trans (ho.rank_eq_of_cycle h hc hl r hr).symm
  · have hr := ranked_of_validate hv
    have ho : m.Ordered t := by
      refine ⟨hr, fun p hp d hd he => ?_⟩
      obtain ⟨q, hq, hn, he⟩ := he
      have hpq := hc p [q] ⟨by simp [hp, hq], by simpa using ⟨d, hd, he⟩⟩
      rw [← hn]
      simpa using hpq
    have hn : m.validate t mode = .ok [] := h.validate_eq_nil_iff.mpr ho
    exact Except.ok.inj (hv.symm.trans hn)

theorem no_violation_on_cycle :
    let base : Symbol := ⟨"base", "Point", by decide⟩
    let view : Symbol := ⟨"view", "Panel", by decide⟩
    let m := Model.empty.replay [.define base, .addDependency "base" view, .define view, .addDependency "view" base,
      .addDependency "app" view]
    let t : RankTable := ⟨[["base", "view"]], ["app"], [("base", 0), ("view", 0), ("app", 1)]⟩
    let low : Package := ⟨"base", [base], [view]⟩
    let high : Package := ⟨"view", [view], [base]⟩
    let app : Package := ⟨"app", [], [view]⟩
    Reachable m ∧ m.packages = [low, high, app] ∧ RankTable.parse "(base,view),app" = .ok t ∧ m.validate t .first = .ok [] ∧
      t.AtMost "base" "app" ∧ t.rank "base" = t.rank "view" := by
  intro base view m t low high app
  have hm : Reachable m := ⟨_, rfl⟩
  have hv : m.validate t .first = .ok [] := by decide
  have hneeds : Needs low high ∧ Needs high low ∧ Needs app high :=
    ⟨⟨view, by decide⟩, ⟨base, by decide⟩, ⟨view, by decide⟩⟩
  have hchain : m.IsChain [app, high, low] := ⟨by decide, by simpa using ⟨hneeds.2.2, hneeds.2.1⟩⟩
  have hcycle : m.IsChain [low, high] := ⟨by decide, by simpa using hneeds.1⟩
  obtain ⟨hc, hr⟩ := (no_violation_iff_chains hm t .first).1 hv
  exact ⟨hm, rfl, rfl, hv, hc app [high, low] hchain,
    hr low [high] hcycle hneeds.2.1 low (by simp) high (by simp)⟩

end Model

end Layering

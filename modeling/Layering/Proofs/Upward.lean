import Layering.Agreement
import Layering.Proofs.Index
import Layering.Proofs.Lists
import Mathlib.Data.List.Forall2

namespace Layering

namespace RankTable

variable (t : RankTable) (a b : String)

/-- Both packages have a rank, that of `a` below that of `b`. -/
def Below : Prop := ∃ low ∈ t.rank a, ∃ high ∈ t.rank b, low < high

def AtMost : Prop := ∃ low ∈ t.rank a, ∃ high ∈ t.rank b, low ≤ high

instance : Decidable (t.Below a b) := inferInstanceAs (Decidable (∃ low ∈ t.rank a, ∃ high ∈ t.rank b, low < high))

instance : Decidable (t.AtMost a b) := inferInstanceAs (Decidable (∃ low ∈ t.rank a, ∃ high ∈ t.rank b, low ≤ high))

theorem Below.trans {t : RankTable} {a b c : String} (hab : t.Below a b) (hbc : t.Below b c) : t.Below a c := by
  obtain ⟨i, hi, j, hj, hij⟩ := hab
  obtain ⟨j', hj', k, hk, hjk⟩ := hbc
  obtain rfl : j = j' := Option.some.inj (hj.symm.trans hj')
  exact ⟨i, hi, k, hk, Nat.lt_trans hij hjk⟩

theorem Below.irrefl {t : RankTable} (a : String) : ¬ t.Below a a := by
  rintro ⟨i, hi, j, hj, hij⟩
  obtain rfl : i = j := Option.some.inj (hi.symm.trans hj)
  exact Nat.lt_irrefl i hij

end RankTable

namespace Model

variable (m : Model) (t : RankTable)

def Exports (d : Symbol) : Prop := ∃ q ∈ m.packages, q.name = d.package ∧ d ∈ q.exports

instance (d : Symbol) : Decidable (m.Exports d) :=
  inferInstanceAs (Decidable (∃ q ∈ m.packages, q.name = d.package ∧ d ∈ q.exports))

/-- The dependencies of `p` that go up, in the order in which they first occur. -/
def upward (p : Package) : List Symbol :=
  (p.dependencies.filter fun d => m.Exports d ∧ t.Below p.name d.package).eraseDups

def upwardDependencies : List (Package × Symbol) := m.packages.flatMap fun p => (m.upward t p).map (p, ·)

end Model

structure Violation.Records (t : RankTable) (p : Package) (d : Symbol) (v : Violation) : Prop where
  package : v.package = p.name
  packageRank : t.rank p.name = some v.packageRank
  symbol : v.symbol = d
  owner : v.owner = d.package
  ownerRank : t.rank d.package = some v.ownerRank

def Violation.between (t : RankTable) (name : String) (d : Symbol) : Violation :=
  ⟨name, (t.rank name).getD 0, d, d.package, (t.rank d.package).getD 0⟩

theorem Violation.Records.eq_between {t : RankTable} {p : Package} {d : Symbol} {v : Violation}
    (h : v.Records t p d) : v = .between t p.name d := by
  rw [between, h.packageRank, h.ownerRank, Option.getD_some, Option.getD_some, ← h.package, ← h.owner, ← h.symbol]

namespace Model

variable {m : Model} {t : RankTable} {p : Package} {low : Nat}

theorem WellFormed.exports_iff (h : m.WellFormed) {d : Symbol} :
    m.Exports d ↔ ∃ q, m.resolve d = .internal q ∧ q.name = d.package := by
  constructor
  · rintro ⟨q, hq, hn, hd⟩
    exact ⟨q, h.resolve_eq_internal_iff.mpr ⟨hq, hn, hd⟩, hn⟩
  · rintro ⟨q, hr, hn⟩
    obtain ⟨hq, -, hd⟩ := h.resolve_eq_internal_iff.mp hr
    exact ⟨q, hq, hn, hd⟩

theorem WellFormed.name_of_resolve (h : m.WellFormed) {d : Symbol} {q : Package} (hr : m.resolve d = .internal q) :
    q.name = d.package :=
  (h.resolve_eq_internal_iff.mp hr).2.1

/-- The scan of one package, wherever it stands: `reported` holds what is not to be told again. -/
theorem WellFormed.scanDependencies_records (h : m.WellFormed) (hp : t.rank p.name = some low)
    (reported ds : List Symbol) :
    List.Forall₂ (Violation.Records t p)
      ((ds.filter fun d => (m.Exports d ∧ t.Below p.name d.package) ∧ d ∉ reported).eraseDups)
      (m.scanDependencies t .all p low reported ds) := by
  induction ds generalizing reported with
  | nil => exact .nil
  | cons d ds ih =>
      have hskip : ¬ ((m.Exports d ∧ t.Below p.name d.package) ∧ d ∉ reported) →
          List.Forall₂ (Violation.Records t p)
            (((d :: ds).filter fun d => (m.Exports d ∧ t.Below p.name d.package) ∧ d ∉ reported).eraseDups)
            (m.scanDependencies t .all p low reported ds) := by
        intro hd
        rw [List.filter_cons_of_neg (by simpa using hd)]
        exact ih reported
      rw [scanDependencies]
      cases hr : m.resolve d with
      | external =>
          refine hskip fun hd => ?_
          obtain ⟨q, hq, -⟩ := h.exports_iff.mp hd.1.1
          simp [hr] at hq
      | internal owner =>
          have hn := h.name_of_resolve hr
          have he : m.Exports d := h.exports_iff.mpr ⟨owner, hr, hn⟩
          simp only [hn]
          cases hh : t.rank d.package with
          | none =>
              refine hskip fun hd => ?_
              obtain ⟨_, _, high, hhigh, _⟩ := hd.1.2
              simp [hh] at hhigh
          | some high =>
              have hb : t.Below p.name d.package ↔ low < high := by simp [RankTable.Below, hp, hh]
              by_cases hd : high ≤ low ∨ d ∈ reported
              · simp only [hd, if_true]
                refine hskip fun hu => ?_
                have := hb.mp hu.1.2
                rcases hd with hd | hd
                · omega
                · exact hu.2 hd
              · simp only [hd, if_false]
                obtain ⟨hl, hm⟩ := not_or.mp hd
                have hu : (m.Exports d ∧ t.Below p.name d.package) ∧ d ∉ reported :=
                  ⟨⟨he, hb.mpr (by omega)⟩, hm⟩
                rw [List.filter_cons_of_pos (by simpa using hu), List.eraseDups_cons, List.filter_filter]
                refine .cons ⟨rfl, hp, rfl, rfl, hh⟩ ?_
                convert ih (d :: reported) using 4 with a
                simp only [List.mem_cons, not_or]
                grind

theorem WellFormed.scanPackages_records (h : m.WellFormed) (ps : List Package)
    (hr : ∀ p ∈ ps, t.rank p.name ≠ none) :
    List.Forall₂ (fun u => Violation.Records t u.1 u.2) (ps.flatMap fun p => (m.upward t p).map (p, ·))
      (m.scanPackages t .all ps) := by
  induction ps with
  | nil => exact .nil
  | cons p ps ih =>
      obtain ⟨low, hp⟩ := Option.ne_none_iff_exists'.mp (hr p (by simp))
      have hs := h.scanDependencies_records hp [] p.dependencies
      simp only [List.not_mem_nil, not_false_eq_true, and_true] at hs
      have hs' : List.Forall₂ (fun u => Violation.Records t u.1 u.2) ((m.upward t p).map (p, ·))
          (m.scanDependencies t .all p low [] p.dependencies) := List.forall₂_map_left_iff.mpr hs
      simp only [scanPackages, hp, List.flatMap_cons]
      exact List.rel_append hs' (ih fun q hq => hr q (by simp [hq]))

theorem validate_eq_error (mode : Mode) {before after : List Package} (hl : m.packages = before ++ p :: after)
    (hp : t.rank p.name = none) (hb : ∀ q ∈ before, t.rank q.name ≠ none) :
    m.validate t mode = .error ⟨p.name⟩ := by
  have hf : m.packages.find? (fun p => (t.rank p.name).isNone) = some p :=
    List.find?_eq_some_iff_append.mpr ⟨by simpa using hp, before, after, hl, by simpa [Option.isSome_iff_ne_none] using hb⟩
  simp [validate, complete, unranked?, hf, bind, Except.bind]

theorem validate_eq_ok (mode : Mode) (h : ∀ p ∈ m.packages, t.rank p.name ≠ none) :
    m.validate t mode = .ok (m.scanPackages t mode m.packages) := by
  have hn : m.packages.find? (fun p => (t.rank p.name).isNone) = none := by
    simpa [List.find?_eq_none] using h
  simp [validate, complete, unranked?, hn, bind, Except.bind, pure, Except.pure]

theorem ranked_or_first_unranked (m : Model) (t : RankTable) :
    (∀ p ∈ m.packages, t.rank p.name ≠ none) ∨ ∃ before p after, m.packages = before ++ p :: after ∧
      t.rank p.name = none ∧ ∀ q ∈ before, t.rank q.name ≠ none := by
  cases hf : m.packages.find? (fun p => (t.rank p.name).isNone) with
  | none => exact .inl (by simpa [List.find?_eq_none] using hf)
  | some p =>
      obtain ⟨hp, before, after, hl, hb⟩ := List.find?_eq_some_iff_append.mp hf
      exact .inr ⟨before, p, after, hl, by simpa using hp, by simpa [Option.isSome_iff_ne_none] using hb⟩

theorem validate_eq_error_iff (mode : Mode) {e : MissingRank} :
    m.validate t mode = .error e ↔ ∃ before p after, m.packages = before ++ p :: after ∧ e.package = p.name ∧
      t.rank p.name = none ∧ ∀ q ∈ before, t.rank q.name ≠ none := by
  constructor
  · intro he
    rcases ranked_or_first_unranked m t with hr | ⟨before, p, after, hl, hp, hb⟩
    · rw [validate_eq_ok mode hr] at he
      cases he
    · rw [validate_eq_error mode hl hp hb] at he
      cases he
      exact ⟨before, p, after, hl, rfl, hp, hb⟩
  · rintro ⟨before, p, after, hl, he, hp, hb⟩
    rw [validate_eq_error mode hl hp hb, ← he]

theorem validate_unranked (mode : Mode) (h : ¬ ∀ p ∈ m.packages, t.rank p.name ≠ none) :
    ∃ e, m.validate t mode = .error e := by
  obtain ⟨before, p, after, hl, hp, hb⟩ := (ranked_or_first_unranked m t).resolve_left h
  exact ⟨_, validate_eq_error mode hl hp hb⟩

theorem ranked_of_validate {mode : Mode} {vs : List Violation} (h : m.validate t mode = .ok vs) :
    ∀ p ∈ m.packages, t.rank p.name ≠ none := by
  rcases ranked_or_first_unranked m t with hr | ⟨before, p, after, hl, hp, hb⟩
  · exact hr
  · rw [validate_eq_error mode hl hp hb] at h
    cases h

theorem map_upwardDependencies (m : Model) (t : RankTable) : (m.upwardDependencies t).map (fun u => (u.1.name, u.2)) =
    m.packages.flatMap fun p => (m.upward t p).map (p.name, ·) := by
  simp [upwardDependencies, List.map_flatMap, Function.comp_def]

theorem WellFormed.upwardDependencies_nodup (h : m.WellFormed) (t : RankTable) :
    ((m.upwardDependencies t).map fun u => (u.1.name, u.2)).Nodup := by
  have hn := List.pairwise_map.mp h.names_nodup
  rw [map_upwardDependencies, List.nodup_flatMap]
  refine ⟨fun p _ => (List.nodup_eraseDups _).map fun a b hab => (Prod.mk.inj hab).2, hn.imp fun hpq => ?_⟩
  intro u hu hv
  obtain ⟨d, -, rfl⟩ := List.mem_map.mp hu
  obtain ⟨d', -, hd⟩ := List.mem_map.mp hv
  exact hpq (Prod.mk.inj hd).1.symm

theorem mem_upwardDependencies {d : Symbol} : (p, d) ∈ m.upwardDependencies t ↔
    p ∈ m.packages ∧ d ∈ p.dependencies ∧ m.Exports d ∧ t.Below p.name d.package := by
  simp only [upwardDependencies, upward, List.mem_flatMap, List.mem_map, Prod.mk.injEq, List.mem_eraseDups,
    List.mem_filter, decide_eq_true_eq]
  constructor
  · rintro ⟨q, hq, e, he, rfl, rfl⟩
    exact ⟨hq, he⟩
  · rintro ⟨hp, hd⟩
    exact ⟨p, hp, d, hd, rfl, rfl⟩

theorem upward_eq_filter (m : Model) (t : RankTable) (p : Package) : m.upward t p =
    p.dependencies.eraseDups.filter fun d => m.Exports d ∧ t.Below p.name d.package :=
  List.eraseDups_filter _ _

/-- All violations, written out: each is told by the name of its package and its symbol alone. -/
theorem WellFormed.scanPackages_eq_map (h : m.WellFormed) (hr : ∀ p ∈ m.packages, t.rank p.name ≠ none) :
    m.scanPackages t .all m.packages =
      ((m.upwardDependencies t).map fun u => (u.1.name, u.2)).map fun u => .between t u.1 u.2 := by
  rw [List.map_map, ← List.forall₂_eq_eq_eq, List.forall₂_map_right_iff]
  exact ((h.scanPackages_records m.packages hr).imp fun u v hv => hv.eq_between).flip

theorem WellFormed.exists_upward (h : m.WellFormed) {mode : Mode} {vs : List Violation}
    (hv : m.validate t mode = .ok vs) {v : Violation} (hm : v ∈ vs) :
    ∃ p d, (p, d) ∈ m.upwardDependencies t ∧ v = .between t p.name d := by
  have hr := ranked_of_validate hv
  have hall : v ∈ m.scanPackages t .all m.packages := by
    obtain rfl : m.scanPackages t mode m.packages = vs := Except.ok.inj ((validate_eq_ok mode hr).symm.trans hv)
    cases mode with
    | all => exact hm
    | first =>
        rw [scanPackages_first] at hm
        exact List.mem_of_mem_take hm
  rw [h.scanPackages_eq_map hr, List.map_map] at hall
  obtain ⟨⟨p, d⟩, hu, rfl⟩ := List.mem_map.mp hall
  exact ⟨p, d, hu, rfl⟩

theorem WellFormed.below_of_mem (h : m.WellFormed) {mode : Mode} {vs : List Violation} (hv : m.validate t mode = .ok vs)
    {v : Violation} (hm : v ∈ vs) : t.Below v.package v.symbol.package := by
  obtain ⟨p, d, hu, rfl⟩ := h.exists_upward hv hm
  exact (mem_upwardDependencies.mp hu).2.2.2

/-- To look for all violations fails with the first package that has no rank. Else it finds the dependencies that go up
and nothing else, each told once a package, in the order of the packages and of their declarations. -/
theorem validate_all_reports {m : Model} (hm : Reachable m) (t : RankTable) :
    (∀ e, m.validate t .all = .error e ↔ ∃ before p after, m.packages = before ++ p :: after ∧ e.package = p.name ∧
      t.rank p.name = none ∧ ∀ q ∈ before, t.rank q.name ≠ none) ∧
    ((∃ e, m.validate t .all = .error e) ↔ ∃ p ∈ m.packages, t.rank p.name = none) ∧
    ((∀ p ∈ m.packages, t.rank p.name ≠ none) → ∃ vs, m.validate t .all = .ok vs ∧
      List.Forall₂ (fun u => Violation.Records t u.1 u.2) (m.upwardDependencies t) vs ∧
      (vs.map fun v => (v.package, v.symbol)).Nodup) := by
  refine ⟨fun e => validate_eq_error_iff .all, ?_, fun hr => ?_⟩
  · constructor
    · rintro ⟨e, he⟩
      obtain ⟨before, p, after, hl, -, hp, -⟩ := (validate_eq_error_iff .all).mp he
      exact ⟨p, by simp [hl], hp⟩
    · rintro ⟨p, hp, hn⟩
      cases hv : m.validate t .all with
      | error e => exact ⟨e, rfl⟩
      | ok vs => exact absurd hn (ranked_of_validate hv p hp)
  · have hs := hm.wellFormed.scanPackages_records m.packages hr
    refine ⟨_, validate_eq_ok .all hr, hs, ?_⟩
    have hk : List.Forall₂ (fun (u : Package × Symbol) (v : Violation) => (u.1.name, u.2) = (v.package, v.symbol))
        (m.upwardDependencies t) (m.scanPackages t .all m.packages) :=
      hs.imp fun u v hv => by rw [hv.package, hv.symbol]
    have he : (m.upwardDependencies t).map (fun u => (u.1.name, u.2)) =
        (m.scanPackages t .all m.packages).map fun v => (v.package, v.symbol) := by
      rw [← List.forall₂_eq_eq_eq, List.forall₂_map_left_iff, List.forall₂_map_right_iff]
      exact hk
    rw [← he]
    exact hm.wellFormed.upwardDependencies_nodup t

theorem validate_all_reports_once :
    let base : Symbol := ⟨"base", "Point", by decide⟩
    let view : Symbol := ⟨"view", "Panel", by decide⟩
    let m := Model.empty.replay [.define base, .addDependency "base" view, .addDependency "base" base,
      .addDependency "base" view, .define view]
    let t : RankTable := ⟨[["base"]], ["view"], [("base", 0), ("view", 1)]⟩
    Reachable m ∧ RankTable.parse "base,view" = .ok t ∧ (∀ p ∈ m.packages, t.rank p.name ≠ none) ∧
      (m.upwardDependencies t).map (fun u => (u.1.name, u.2)) = [("base", view)] ∧
      ∃ vs, m.validate t .all = .ok vs ∧
        List.Forall₂ (fun u => Violation.Records t u.1 u.2) (m.upwardDependencies t) vs ∧
        (vs.map fun v => (v.package, v.symbol)).Nodup :=
  ⟨⟨_, rfl⟩, rfl, by decide, by decide, (validate_all_reports ⟨_, rfl⟩ _).2.2 (by decide)⟩

end Model

end Layering

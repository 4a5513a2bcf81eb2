import Layering.Proofs.Upward

namespace Layering

/-- What steps make of a package: it keeps its name, its exports, and its dependencies before all new ones. -/
structure Package.Grows (p p' : Package) : Prop where
  name : p'.name = p.name
  exports : p.exports ⊆ p'.exports
  dependencies : p.dependencies <+: p'.dependencies

namespace Package

variable {p q r : Package}

theorem Grows.refl (p : Package) : p.Grows p := ⟨rfl, List.Subset.refl _, List.prefix_refl _⟩

theorem Grows.trans (h : p.Grows q) (h' : q.Grows r) : p.Grows r :=
  ⟨h'.name.trans h.name, List.Subset.trans h.exports h'.exports, h.dependencies.trans h'.dependencies⟩

theorem grows_define (p : Package) (s : Symbol) : p.Grows (p.define s) :=
  ⟨rfl, fun _ ha => mem_insertExport.mpr (.inr ha), List.prefix_refl _⟩

theorem grows_addDependency (p : Package) (d : Symbol) : p.Grows (p.addDependency d) :=
  ⟨rfl, List.Subset.refl _, List.prefix_append _ _⟩

/-- Each package has grown in its place, and there may be more packages behind. -/
inductive Grow : List Package → List Package → Prop
  | nil (more : List Package) : Grow [] more
  | cons {p p' : Package} {ps ps' : List Package} (hp : p.Grows p') (hps : Grow ps ps') : Grow (p :: ps) (p' :: ps')

variable {ps qs rs : List Package}

theorem Grow.refl (ps : List Package) : Grow ps ps := by
  induction ps with
  | nil => exact .nil []
  | cons p ps ih => exact .cons (.refl p) ih

theorem Grow.trans (h : Grow ps qs) (h' : Grow qs rs) : Grow ps rs := by
  induction h generalizing rs with
  | nil => exact .nil rs
  | cons hp _ ih =>
      cases h' with
      | cons hq hqs => exact .cons (hp.trans hq) (ih hqs)

theorem grow_append (ps more : List Package) : Grow ps (ps ++ more) := by
  induction ps with
  | nil => exact .nil more
  | cons p ps ih => exact .cons (.refl p) ih

theorem grow_modify {i : Nat} {f : Package → Package} (h : ∀ p, ps[i]? = some p → p.Grows (f p)) :
    Grow ps (ps.modify i f) := by
  induction ps generalizing i with
  | nil => exact .nil _
  | cons p ps ih =>
      cases i with
      | zero => exact .cons (h p rfl) (.refl ps)
      | succ i => exact .cons (.refl p) (ih h)

theorem Grow.names (h : Grow ps qs) : ps.map (·.name) <+: qs.map (·.name) := by
  induction h with
  | nil more => exact List.nil_prefix
  | cons hp _ ih =>
      rw [List.map_cons, List.map_cons, hp.name]
      exact List.cons_prefix_cons.mpr ⟨rfl, ih⟩

theorem Grow.exists_mem (h : Grow ps qs) (hp : p ∈ ps) : ∃ q ∈ qs, p.Grows q := by
  induction h with
  | nil more => cases hp
  | @cons p' q' _ _ hpq _ ih =>
      rcases List.mem_cons.mp hp with rfl | hp
      · exact ⟨q', List.mem_cons_self, hpq⟩
      · obtain ⟨q, hq, hg⟩ := ih hp
        exact ⟨q, List.mem_cons_of_mem q' hq, hg⟩

end Package

namespace Model

def Grows (m m' : Model) : Prop := Package.Grow m.packages m'.packages

variable {m m' : Model} {t : RankTable}

theorem grows_update {name : String} {f : Package → Package} (h : ∀ p, m.find? name = some p → p.Grows (f p)) :
    m.Grows (m.update name f) := by
  rw [update]
  cases hn : m.position? name with
  | some i =>
      apply Package.grow_modify
      intro p hp
      apply h
      rw [find?, hn]
      exact hp
  | none => exact Package.grow_append _ _

/-- A refused export leaves its package as it was, or new and empty. -/
theorem grows_addExport (m : Model) (name : String) (s : Symbol) : m.Grows (m.addExport name s).1 := by
  rw [addExport, Package.addExport]
  by_cases hs : s.package = ((m.find? name).getD (.empty name)).name
  · simp only [hs, if_true]
    apply grows_update
    intro p hp
    rw [hp]
    exact p.grows_define s
  · simp only [hs, if_false]
    exact grows_update fun p _ => .refl p

theorem grows_apply (m : Model) (step : Step) : m.Grows (m.apply step) := by
  cases step with
  | define s => exact grows_update fun p _ => p.grows_define s
  | touch name => exact grows_update fun p _ => .refl p
  | addExport name s => exact m.grows_addExport name s
  | addDependency name d => exact grows_update fun p _ => p.grows_addDependency d

theorem grows_replay (m : Model) (steps : List Step) : m.Grows (m.replay steps) := by
  induction steps generalizing m with
  | nil => exact .refl m.packages
  | cons step steps ih => exact (m.grows_apply step).trans (ih (m.apply step))

theorem Grows.exports (h : m.Grows m') {d : Symbol} (he : m.Exports d) : m'.Exports d := by
  obtain ⟨q, hq, hn, hd⟩ := he
  obtain ⟨q', hq', hg⟩ := Package.Grow.exists_mem h hq
  exact ⟨q', hq', hg.name.trans hn, hg.exports hd⟩

/-- The older dependencies come first, so that each still first occurs where it did; some that were external may go up
now between them. -/
theorem Grows.upward_sublist (h : m.Grows m') {p p' : Package} (hp : p.Grows p') :
    (m.upward t p).Sublist (m'.upward t p') := by
  rw [upward_eq_filter, upward_eq_filter, hp.name]
  have hup : (p.dependencies.eraseDups.filter fun d => m.Exports d ∧ t.Below p.name d.package).Sublist
      (p.dependencies.eraseDups.filter fun d => m'.Exports d ∧ t.Below p.name d.package) := by
    apply List.monotone_filter_right
    intro d hd
    obtain ⟨he, hb⟩ := of_decide_eq_true hd
    exact decide_eq_true ⟨h.exports he, hb⟩
  exact hup.trans (hp.dependencies.eraseDups.filter _).sublist

theorem Grows.flatMap_upward_sublist (h : m.Grows m') {ps ps' : List Package} (hps : Package.Grow ps ps') :
    (ps.flatMap fun p => (m.upward t p).map (p.name, ·)).Sublist
      (ps'.flatMap fun p => (m'.upward t p).map (p.name, ·)) := by
  induction hps with
  | nil more => exact List.nil_sublist _
  | @cons p p' _ _ hp _ ih =>
      rw [List.flatMap_cons, List.flatMap_cons, hp.name]
      exact ((h.upward_sublist hp).map _).append ih

theorem Grows.upwardDependencies_sublist (h : m.Grows m') :
    ((m.upwardDependencies t).map fun u => (u.1.name, u.2)).Sublist
      ((m'.upwardDependencies t).map fun u => (u.1.name, u.2)) := by
  rw [map_upwardDependencies, map_upwardDependencies]
  exact h.flatMap_upward_sublist h

theorem Grows.ranked (h : m.Grows m') (hr : ∀ p ∈ m'.packages, t.rank p.name ≠ none) :
    ∀ p ∈ m.packages, t.rank p.name ≠ none := by
  intro p hp
  obtain ⟨p', hp', hg⟩ := Package.Grow.exists_mem h hp
  rw [← hg.name]
  exact hr p' hp'

theorem unranked?_eq (m : Model) (t : RankTable) :
    m.unranked? t = (m.packages.map (·.name)).find? fun name => (t.rank name).isNone := by
  rw [unranked?, List.find?_map]
  rfl

theorem Grows.unranked? (h : m.Grows m') {name : String} (hn : m.unranked? t = some name) :
    m'.unranked? t = some name := by
  rw [unranked?_eq] at hn ⊢
  obtain ⟨more, hm⟩ := Package.Grow.names h
  rw [← hm, List.find?_append, hn]
  rfl

theorem validate_eq_error_iff_unranked (mode : Mode) {e : MissingRank} :
    m.validate t mode = .error e ↔ m.unranked? t = some e.package := by
  obtain ⟨name⟩ := e
  rw [validate, complete]
  cases m.unranked? t with
  | none => simp [bind, Except.bind, pure, Except.pure]
  | some other => simp [bind, Except.bind]

/-- More steps take no finding away: a model that lacks a rank lacks it still, for the same package, and as long as every
package has one, each violation stays in the list of violations, before and behind the same others. -/
theorem validate_grown {m : Model} (hm : Reachable m) (steps : List Step) (t : RankTable) :
    (∀ e, m.validate t .all = .error e → (m.replay steps).validate t .all = .error e) ∧
    ((∀ p ∈ (m.replay steps).packages, t.rank p.name ≠ none) → ∃ vs vs', m.validate t .all = .ok vs ∧
      (m.replay steps).validate t .all = .ok vs' ∧ vs.Sublist vs') := by
  have hg := m.grows_replay steps
  refine ⟨fun e he => ?_, fun hr' => ?_⟩
  · rw [validate_eq_error_iff_unranked] at he ⊢
    exact hg.unranked? he
  · have hr := hg.ranked hr'
    refine ⟨_, _, validate_eq_ok .all hr, validate_eq_ok .all hr', ?_⟩
    rw [hm.wellFormed.scanPackages_eq_map hr, (hm.replay steps).wellFormed.scanPackages_eq_map hr']
    exact hg.upwardDependencies_sublist.map _

theorem validate_grown_between :
    let base : Symbol := ⟨"base", "Point", by decide⟩
    let view : Symbol := ⟨"view", "Panel", by decide⟩
    let m := Model.empty.replay [.define base, .addDependency "app" view, .addDependency "app" base]
    let steps : List Step := [.addDependency "base" view, .define view, .addDependency "app" base, .addExport "app" view]
    let t : RankTable := ⟨[["app"], ["base"]], ["view"], [("app", 0), ("base", 1), ("view", 2)]⟩
    let short : RankTable := ⟨[], ["base"], [("base", 0)]⟩
    Reachable m ∧ RankTable.parse "app,base,view" = .ok t ∧ RankTable.parse "base" = .ok short ∧
      m.validate short .all = .error ⟨"app"⟩ ∧ (m.replay steps).validate short .all = .error ⟨"app"⟩ ∧
      (∀ p ∈ (m.replay steps).packages, t.rank p.name ≠ none) ∧
      m.validate t .all = .ok [⟨"app", 0, base, "base", 1⟩] ∧
      ∃ vs', (m.replay steps).validate t .all = .ok vs' ∧ vs'.length = 3 ∧
        [⟨"app", 0, base, "base", 1⟩].Sublist vs' := by
  intro base view m steps t short
  have hm : Reachable m := ⟨_, rfl⟩
  have hshort : m.validate short .all = .error ⟨"app"⟩ := by decide
  have hr : ∀ p ∈ (m.replay steps).packages, t.rank p.name ≠ none := by decide
  have hv : m.validate t .all = .ok [⟨"app", 0, base, "base", 1⟩] := by decide
  have hv' : (m.replay steps).validate t .all = .ok
      [⟨"base", 1, view, "view", 2⟩, ⟨"app", 0, view, "view", 2⟩, ⟨"app", 0, base, "base", 1⟩] := by decide
  obtain ⟨vs, vs', hvs, hvs', hsub⟩ := (validate_grown hm steps t).2 hr
  obtain rfl := Except.ok.inj (hvs.symm.trans hv)
  refine ⟨hm, rfl, rfl, hshort, (validate_grown hm steps short).1 _ hshort, hr, hv, vs', hvs', ?_, hsub⟩
  obtain rfl := Except.ok.inj (hvs'.symm.trans hv')
  rfl

end Model

end Layering

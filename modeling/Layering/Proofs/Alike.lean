import Layering.Proofs.Chain

namespace Layering.Model

/-- The same packages by name, each with the same exports and the same dependencies among those that the model exports. -/
structure Alike (m m' : Model) : Prop where
  names : ∀ name, (∃ p ∈ m.packages, p.name = name) ↔ ∃ p' ∈ m'.packages, p'.name = name
  exports : ∀ p ∈ m.packages, ∀ p' ∈ m'.packages, p.name = p'.name → ∀ s, s ∈ p.exports ↔ s ∈ p'.exports
  internal : ∀ p ∈ m.packages, ∀ p' ∈ m'.packages, p.name = p'.name →
    ∀ d, d ∈ p.dependencies ∧ m.Exports d ↔ d ∈ p'.dependencies ∧ m'.Exports d

variable {m m' : Model} {t : RankTable}

theorem Alike.symm (h : m.Alike m') : m'.Alike m :=
  ⟨fun name => (h.names name).symm, fun p' hp' p hp hn s => (h.exports p hp p' hp' hn.symm s).symm,
    fun p' hp' p hp hn d => (h.internal p hp p' hp' hn.symm d).symm⟩

theorem Alike.partner (h : m.Alike m') {p : Package} (hp : p ∈ m.packages) : ∃ p' ∈ m'.packages, p'.name = p.name :=
  (h.names p.name).mp ⟨p, hp, rfl⟩

theorem Alike.ranked (h : m.Alike m') (hr : ∀ p ∈ m.packages, t.rank p.name ≠ none) :
    ∀ p' ∈ m'.packages, t.rank p'.name ≠ none := by
  intro p' hp'
  obtain ⟨p, hp, hn⟩ := h.symm.partner hp'
  rw [← hn]
  exact hr p hp

theorem Alike.ordered (h : m.Alike m') (ho : m.Ordered t) : m'.Ordered t := by
  refine ⟨h.ranked ho.ranked, fun p' hp' d hd he => ?_⟩
  obtain ⟨p, hp, hn⟩ := h.symm.partner hp'
  obtain ⟨hd, he⟩ := (h.internal p hp p' hp' hn d).mpr ⟨hd, he⟩
  rw [← hn]
  exact ho.downward p hp d hd he

theorem Alike.upwardDependencies_subset (h : m.Alike m') (t : RankTable) :
    (m.upwardDependencies t).map (fun u => (u.1.name, u.2)) ⊆
      (m'.upwardDependencies t).map fun u => (u.1.name, u.2) := by
  intro u hu
  obtain ⟨⟨p, d⟩, hpd, rfl⟩ := List.mem_map.mp hu
  obtain ⟨hp, hd, he, hb⟩ := mem_upwardDependencies.mp hpd
  obtain ⟨p', hp', hn⟩ := h.partner hp
  obtain ⟨hd, he⟩ := (h.internal p hp p' hp' hn.symm d).mp ⟨hd, he⟩
  exact List.mem_map.mpr ⟨(p', d), mem_upwardDependencies.mpr ⟨hp', hd, he, hn ▸ hb⟩, by rw [hn]⟩

theorem Alike.upwardDependencies_perm (h : m.Alike m') (hm : m.WellFormed) (hm' : m'.WellFormed) (t : RankTable) :
    ((m.upwardDependencies t).map fun u => (u.1.name, u.2)).Perm
      ((m'.upwardDependencies t).map fun u => (u.1.name, u.2)) := by
  rw [List.perm_ext_iff_of_nodup (hm.upwardDependencies_nodup t) (hm'.upwardDependencies_nodup t)]
  exact fun u => ⟨fun hu => h.upwardDependencies_subset t hu, fun hu => h.symm.upwardDependencies_subset t hu⟩

/-- Models that look alike both lack a rank for some package, or have the same violations, as many of each; and the first
mode passes both or neither. -/
theorem validate_alike {m m' : Model} (hm : Reachable m) (hm' : Reachable m') (h : m.Alike m') (t : RankTable) :
    ((∃ e, m.validate t .all = .error e) ∧ (∃ e, m'.validate t .all = .error e) ∨
      ∃ vs vs', m.validate t .all = .ok vs ∧ m'.validate t .all = .ok vs' ∧ vs.Perm vs') ∧
    (m.validate t .first = .ok [] ↔ m'.validate t .first = .ok []) := by
  have hw := hm.wellFormed
  have hw' := hm'.wellFormed
  refine ⟨?_, ?_⟩
  · by_cases hr : ∀ p ∈ m.packages, t.rank p.name ≠ none
    · have hr' := h.ranked hr
      refine .inr ⟨_, _, validate_eq_ok .all hr, validate_eq_ok .all hr', ?_⟩
      rw [hw.scanPackages_eq_map hr, hw'.scanPackages_eq_map hr']
      exact (h.upwardDependencies_perm hw hw' t).map _
    · have hr' : ¬ ∀ p' ∈ m'.packages, t.rank p'.name ≠ none := fun hr' => hr (h.symm.ranked hr')
      exact .inl ⟨validate_unranked .all hr, validate_unranked .all hr'⟩
  · rw [hw.validate_eq_nil_iff, hw'.validate_eq_nil_iff]
    exact ⟨h.ordered, h.symm.ordered⟩

theorem validate_alike_shuffled :
    let base : Symbol := ⟨"base", "Point", by decide⟩
    let view : Symbol := ⟨"view", "Panel", by decide⟩
    let sprite : Symbol := ⟨"flash", "Sprite", by decide⟩
    let m := Model.empty.replay [.define base, .addDependency "base" view, .addDependency "base" sprite, .define view,
      .addDependency "app" base, .addDependency "app" base]
    let m' := Model.empty.replay [.addDependency "app" sprite, .addDependency "app" base, .define view, .define base,
      .addDependency "base" view, .addDependency "base" view]
    let t : RankTable := ⟨[["app"], ["base"]], ["view"], [("app", 0), ("base", 1), ("view", 2)]⟩
    Reachable m ∧ Reachable m' ∧ m.Alike m' ∧ RankTable.parse "app,base,view" = .ok t ∧
      ∃ vs vs', m.validate t .all = .ok vs ∧ m'.validate t .all = .ok vs' ∧ vs ≠ vs' ∧ vs.Perm vs' := by
  intro base view sprite m m' t
  have hp : m.packages = [⟨"base", [base], [view, sprite]⟩, ⟨"view", [view], []⟩, ⟨"app", [], [base, base]⟩] := rfl
  have hp' : m'.packages = [⟨"app", [], [sprite, base]⟩, ⟨"view", [view], []⟩, ⟨"base", [base], [view, view]⟩] := rfl
  have he : ∀ d, m.Exports d ↔ d = base ∨ d = view := by
    simp only [Exports, hp, List.mem_cons, List.not_mem_nil, or_false, exists_eq_or_imp, exists_eq_left]
    grind
  have he' : ∀ d, m'.Exports d ↔ d = base ∨ d = view := by
    simp only [Exports, hp', List.mem_cons, List.not_mem_nil, or_false, exists_eq_or_imp, exists_eq_left]
    grind
  have h : m.Alike m' := by
    constructor
    case names =>
      simp only [hp, hp', List.mem_cons, List.not_mem_nil, or_false, exists_eq_or_imp, exists_eq_left]
      grind
    case exports =>
      simp only [hp, hp', List.mem_cons, List.not_mem_nil]
      grind
    case internal =>
      simp only [hp, hp', he, he', List.mem_cons, List.not_mem_nil]
      grind
  have hm : Reachable m := ⟨_, rfl⟩
  have hm' : Reachable m' := ⟨_, rfl⟩
  have hall : m.validate t .all = .ok [⟨"base", 1, view, "view", 2⟩, ⟨"app", 0, base, "base", 1⟩] := by decide
  have hall' : m'.validate t .all = .ok [⟨"app", 0, base, "base", 1⟩, ⟨"base", 1, view, "view", 2⟩] := by decide
  obtain ⟨⟨e, hn⟩, -⟩ | ⟨vs, vs', hvs, hvs', hperm⟩ := (validate_alike hm hm' h t).1
  · cases hn.symm.trans hall
  · refine ⟨hm, hm', h, rfl, vs, vs', hvs, hvs', ?_, hperm⟩
    obtain rfl := Except.ok.inj (hvs.symm.trans hall)
    obtain rfl := Except.ok.inj (hvs'.symm.trans hall')
    decide

end Layering.Model

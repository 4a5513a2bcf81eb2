import Layering.Model
import Layering.Proofs.Upward

namespace Layering.Model

variable {m : Model} {t : RankTable} {p : Package}

theorem WellFormed.isInternal_iff (h : m.WellFormed) {d : Symbol} : m.isInternal d ↔ m.Exports d := by
  rw [h.exports_iff, isInternal]
  cases hr : m.resolve d with
  | external => simp
  | internal q =>
      have hn := h.name_of_resolve hr
      simp [hn]

theorem map_inventory (m : Model) : m.inventory.map (·.package) = m.packages.map (·.name) := by
  rw [inventory, List.map_map]
  rfl

theorem WellFormed.upward_eq_internal (h : m.WellFormed) (t : RankTable) (p : Package) : m.upward t p =
    ((m.inventoryOf p).internal.filter fun d => t.Below p.name d.package).eraseDups := by
  rw [upward, inventoryOf, List.filter_filter]
  congr 2
  funext d
  rw [Bool.eq_iff_iff, Bool.and_eq_true, h.isInternal_iff, decide_eq_true_eq, decide_eq_true_eq, and_comm]

theorem WellFormed.not_exports_of_external (h : m.WellFormed) {d : Symbol} (hd : d ∈ (m.inventoryOf p).external) :
    ¬ m.Exports d := by
  have hnot := (List.mem_filter.mp hd).2
  rw [Bool.not_eq_true', Bool.eq_false_iff, ne_eq, h.isInternal_iff] at hnot
  exact hnot

theorem WellFormed.upwardDependencies_of_package (h : m.WellFormed) (t : RankTable) (hp : p ∈ m.packages) :
    (((m.upwardDependencies t).map fun u => (u.1.name, u.2)).filter (·.1 = p.name)).map (·.2) = m.upward t p := by
  obtain ⟨before, after, hl⟩ := List.append_of_mem hp
  have hother : ∀ ps : List Package, ps ⊆ before ++ after →
      (ps.flatMap fun q => (m.upward t q).map (q.name, ·)).filter (·.1 = p.name) = [] := by
    intro ps hps
    rw [List.filter_eq_nil_iff]
    intro u hu
    obtain ⟨q, hq, hu⟩ := List.mem_flatMap.mp hu
    obtain ⟨d, -, rfl⟩ := List.mem_map.mp hu
    have hne : q.name ≠ p.name := h.name_ne hl (hps hq)
    simpa using hne
  have hown : ((m.upward t p).map (p.name, ·)).filter (·.1 = p.name) = (m.upward t p).map (p.name, ·) := by
    rw [List.filter_eq_self]
    intro u hu
    obtain ⟨d, -, rfl⟩ := List.mem_map.mp hu
    simp
  rw [map_upwardDependencies, hl, List.flatMap_append, List.flatMap_cons, List.filter_append, List.filter_append, hown,
    hother before (List.subset_append_left before after), hother after (List.subset_append_right before after),
    List.nil_append, List.append_nil, List.map_map]
  exact List.map_id _

variable (hr : ∀ p ∈ m.packages, t.rank p.name ≠ none)
include hr

theorem WellFormed.symbols_of_package (h : m.WellFormed) (hp : p ∈ m.packages) :
    ((m.scanPackages t .all m.packages).filter (·.package = p.name)).map (·.symbol) = m.upward t p := by
  rw [h.scanPackages_eq_map hr, List.filter_map, List.map_map, ← h.upwardDependencies_of_package t hp]
  rfl

theorem WellFormed.exists_between (h : m.WellFormed) {v : Violation} (hv : v ∈ m.scanPackages t .all m.packages) :
    ∃ p ∈ m.packages, ∃ d, v = .between t p.name d := by
  obtain ⟨p, d, hu, rfl⟩ := h.exists_upward (validate_eq_ok .all hr) hv
  exact ⟨p, (mem_upwardDependencies.mp hu).1, d, rfl⟩

theorem WellFormed.exists_violation_iff (h : m.WellFormed) (hp : p ∈ m.packages) {d : Symbol} :
    (∃ v ∈ m.scanPackages t .all m.packages, v.package = p.name ∧ v.symbol = d) ↔
      d ∈ p.dependencies ∧ m.Exports d ∧ t.Below p.name d.package := by
  have hs : d ∈ ((m.scanPackages t .all m.packages).filter (·.package = p.name)).map (·.symbol) ↔ d ∈ m.upward t p := by
    rw [h.symbols_of_package hr hp]
  simpa [upward, and_assoc] using hs

theorem WellFormed.exists_owner_iff (h : m.WellFormed) (hp : p ∈ m.packages) {owner : String} :
    (∃ v ∈ m.scanPackages t .all m.packages, v.package = p.name ∧ v.owner = owner) ↔
      owner ∈ (m.inventoryOf p).internalPackages ∧ t.Below p.name owner := by
  simp only [inventoryOf, List.mem_eraseDups, List.mem_map, List.mem_filter, h.isInternal_iff]
  constructor
  · rintro ⟨v, hv, hpackage, rfl⟩
    obtain ⟨q, -, d, rfl⟩ := h.exists_between hr hv
    obtain ⟨hd, he, hb⟩ := (h.exists_violation_iff hr hp).mp ⟨_, hv, hpackage, rfl⟩
    exact ⟨⟨d, ⟨hd, he⟩, rfl⟩, hb⟩
  · rintro ⟨⟨d, ⟨hd, he⟩, rfl⟩, hb⟩
    obtain ⟨v, hv, hpackage, rfl⟩ := (h.exists_violation_iff hr hp).mpr ⟨hd, he, hb⟩
    obtain ⟨q, -, d, rfl⟩ := h.exists_between hr hv
    exact ⟨_, hv, hpackage, rfl⟩

omit hr

/-- Every package has one entry in the inventory, and the two tell the same of it: a violation against a package of a
higher rank just where the entry names that package among those needed; the symbols that are reported are the internal
ones of the entry that go up, in their order, each once; and none of the external ones is. -/
theorem violations_match_inventory {m : Model} (hm : Reachable m) {t : RankTable}
    (hr : ∀ p ∈ m.packages, t.rank p.name ≠ none) :
    m.inventory.map (·.package) = m.packages.map (·.name) ∧ (m.inventory.map (·.package)).Nodup ∧
    ∃ vs, m.validate t .all = .ok vs ∧ (∀ v ∈ vs, ∃ i ∈ m.inventory, i.package = v.package) ∧
      ∀ i ∈ m.inventory,
        (∀ owner, (∃ v ∈ vs, v.package = i.package ∧ v.owner = owner) ↔
          owner ∈ i.internalPackages ∧ t.Below i.package owner) ∧
        (vs.filter (·.package = i.package)).map (·.symbol) =
          (i.internal.filter fun d => t.Below i.package d.package).eraseDups ∧
        ∀ d ∈ i.external, ¬ ∃ v ∈ vs, v.package = i.package ∧ v.symbol = d := by
  have h := hm.wellFormed
  refine ⟨m.map_inventory, by rw [map_inventory]; exact h.names_nodup, _, validate_eq_ok .all hr, ?_, ?_⟩
  · intro v hv
    obtain ⟨p, hp, d, rfl⟩ := h.exists_between hr hv
    exact ⟨m.inventoryOf p, List.mem_map_of_mem hp, rfl⟩
  · intro i hi
    obtain ⟨p, hp, rfl⟩ := List.mem_map.mp hi
    refine ⟨fun owner => h.exists_owner_iff hr hp, ?_, fun d hd hv => ?_⟩
    · exact (h.symbols_of_package hr hp).trans (h.upward_eq_internal t p)
    · have hup := (h.exists_violation_iff hr hp).mp hv
      exact h.not_exports_of_external hd hup.2.1

theorem violations_match_inventory_mixed :
    let base : Symbol := ⟨"base", "Point", by decide⟩
    let view : Symbol := ⟨"view", "Panel", by decide⟩
    let gone : Symbol := ⟨"view", "Gone", by decide⟩
    let m := Model.empty.replay [.define base, .addDependency "base" gone, .addDependency "base" view,
      .addDependency "base" base, .addDependency "base" view, .define view, .addDependency "view" base]
    let t : RankTable := ⟨[["base"]], ["view"], [("base", 0), ("view", 1)]⟩
    let i : PackageInventory := ⟨"base", [base], [view, base, view], ["view", "base"], [gone], ["view"]⟩
    Reachable m ∧ RankTable.parse "base,view" = .ok t ∧ (∀ p ∈ m.packages, t.rank p.name ≠ none) ∧ i ∈ m.inventory ∧
      ∃ vs, m.validate t .all = .ok vs ∧ (∃ v ∈ vs, v.package = "base" ∧ v.owner = "view") ∧
        (vs.filter (·.package = "base")).map (·.symbol) = [view] ∧
        ¬ ∃ v ∈ vs, v.package = "base" ∧ v.symbol = gone := by
  intro base view gone m t i
  have hm : Reachable m := ⟨_, rfl⟩
  have hr : ∀ p ∈ m.packages, t.rank p.name ≠ none := by decide
  have hi : i ∈ m.inventory := by decide
  obtain ⟨-, -, vs, hvs, -, hentry⟩ := violations_match_inventory hm hr
  obtain ⟨howner, hsymbols, hexternal⟩ := hentry i hi
  exact ⟨hm, rfl, hr, hi, vs, hvs, (howner "view").mpr (by decide), hsymbols.trans (by decide),
    hexternal gone (by decide)⟩

end Layering.Model

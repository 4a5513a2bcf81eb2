import Layering.Report.Console
import Layering.Proofs.History
import Mathlib.Algebra.GroupWithZero.Nat

namespace Layering

namespace Model

/-- Dependencies parted, one after the other, into those that come from a package of the model and the others. -/
inductive Parted (m : Model) : List Symbol → List Symbol → List Symbol → Prop
  | nil : Parted m [] [] []
  | internal {d : Symbol} {owner : Package} {ds inner outer : List Symbol} (hd : m.resolve d = .internal owner)
      (h : Parted m ds inner outer) : Parted m (d :: ds) (d :: inner) outer
  | external {d : Symbol} {ds inner outer : List Symbol} (hd : m.resolve d = .external)
      (h : Parted m ds inner outer) : Parted m (d :: ds) inner (d :: outer)

end Model

structure PackageInventory.Tells (m : Model) (p : Package) (i : PackageInventory) : Prop where
  package : i.package = p.name
  exports : i.exports = p.exports
  parted : m.Parted p.dependencies i.internal i.external
  internalPackages : (i.internal.map (·.package)).FirstOccurrences i.internalPackages
  externalPackages : (i.external.map (·.package)).FirstOccurrences i.externalPackages
  ascending : (InventoryEntry.ofPackage i).exports.Pairwise (· < ·)

namespace Model

variable {m : Model} {p : Package}

theorem parted_filter (m : Model) (ds : List Symbol) :
    m.Parted ds (ds.filter m.isInternal) (ds.filter (!m.isInternal ·)) := by
  induction ds with
  | nil => exact .nil
  | cons d ds ih =>
      cases hd : m.resolve d with
      | internal owner =>
          have hi : m.isInternal d = true := by simp [isInternal, hd]
          simpa [hi] using ih.internal hd
      | external =>
          have hi : m.isInternal d = false := by simp [isInternal, hd]
          simpa [hi] using ih.external hd

/-- The exports of a package being its own, their names ascend as they do. -/
theorem WellFormed.names_ascending (h : m.WellFormed) (hp : p ∈ m.packages) (ha : p.exports.Pairwise (· < ·)) :
    (p.exports.map (·.name)).Pairwise (· < ·) := by
  refine List.pairwise_map.mpr (ha.imp_of_mem fun {a b} hs hs' hlt => ?_)
  have hsame : a.package = b.package := (h.owned p hp a hs).trans (h.owned p hp b hs').symm
  rcases hlt with hlt | ⟨-, hlt⟩
  · exact absurd (hsame ▸ hlt) (String.lt_irrefl _)
  · exact hlt

theorem tells_inventoryOf (hm : Reachable m) (hp : p ∈ m.packages) : (m.inventoryOf p).Tells m p := by
  obtain ⟨steps, rfl⟩ := hm
  have h : (Model.empty.replay steps).WellFormed := WellFormed.empty.replay steps
  have hr := (records_replay steps).packages p hp
  exact
    { package := rfl
      exports := rfl
      parted := parted_filter _ p.dependencies
      internalPackages := List.firstOccurrences_eraseDups _
      externalPackages := List.firstOccurrences_eraseDups _
      ascending := h.names_ascending hp hr.ascending }

theorem sum_filter (m : Model) (q : Symbol → Bool) :
    (m.packages.map fun p => (p.dependencies.filter q).length).sum = m.dependencies.countP q := by
  rw [dependencies, List.countP_flatMap]
  congr 2
  funext p
  exact List.countP_eq_length_filter.symm

theorem sum_internal (m : Model) : (m.inventory.map (·.internal.length)).sum = m.internalCount := by
  rw [inventory, List.map_map]
  exact m.sum_filter m.isInternal

theorem sum_external (m : Model) : (m.inventory.map (·.external.length)).sum = m.externalCount := by
  rw [inventory, List.map_map]
  exact m.sum_filter (!m.isInternal ·)

theorem internalCount_add_externalCount (m : Model) : m.internalCount + m.externalCount = m.dependencyCount := by
  have hnot : ∀ d, (!m.isInternal d) = decide (¬ m.isInternal d = true) := by simp
  rw [internalCount, externalCount, dependencyCount, List.length_eq_countP_add_countP m.isInternal]
  simp only [hnot]

/-- The inventory has an entry for each package, in the order of their discovery: its dependencies parted by where they
come from, as declared; the packages that each part names, each once, in the order of their first mention; and its
exports by ascending names. Over all entries the two parts are as long as the model counts them, and together as long as
all dependencies. -/
theorem inventory_tells {m : Model} (hm : Reachable m) :
    List.Forall₂ (PackageInventory.Tells m) m.packages m.inventory ∧
    (m.inventory.map (·.internal.length)).sum = m.internalCount ∧
    (m.inventory.map (·.external.length)).sum = m.externalCount ∧
    (m.inventory.map (·.internal.length)).sum + (m.inventory.map (·.external.length)).sum = m.dependencyCount := by
  refine ⟨?_, m.sum_internal, m.sum_external, ?_⟩
  · rw [inventory, List.forall₂_map_right_iff, List.forall₂_same]
    exact fun p hp => tells_inventoryOf hm hp
  · rw [sum_internal, sum_external, internalCount_add_externalCount]

theorem inventory_tells_shared :
    let point : Symbol := ⟨"base", "Point", by decide⟩
    let area : Symbol := ⟨"base", "Area", by decide⟩
    let view : Symbol := ⟨"view", "Panel", by decide⟩
    let gone : Symbol := ⟨"view", "Gone", by decide⟩
    let m := Model.empty.replay [.define point, .addDependency "base" gone, .addDependency "base" view,
      .addExport "base" area, .addDependency "base" point, .addDependency "base" view, .define view,
      .addDependency "view" gone]
    let i : PackageInventory := ⟨"base", [area, point], [view, point, view], ["view", "base"], [gone], ["view"]⟩
    let i' : PackageInventory := ⟨"view", [view], [], [], [gone], ["view"]⟩
    Reachable m ∧ m.inventory = [i, i'] ∧ List.Forall₂ (PackageInventory.Tells m) m.packages [i, i'] ∧
      (InventoryEntry.ofPackage i).exports = ["Area", "Point"] ∧ m.internalCount = 3 ∧ m.externalCount = 2 ∧
      m.dependencyCount = 5 := by
  intro point area view gone m i i'
  have hm : Reachable m := ⟨_, rfl⟩
  have hi : m.inventory = [i, i'] := by decide
  obtain ⟨htells, hinternal, hexternal, htotal⟩ := inventory_tells hm
  rw [hi] at htells hinternal hexternal htotal
  exact ⟨hm, hi, htells, rfl, hinternal.symm, hexternal.symm, htotal.symm⟩

end Model

end Layering

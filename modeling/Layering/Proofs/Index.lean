import Layering.Model
import Layering.Proofs.Lists

namespace Layering.Model

structure WellFormed (m : Model) : Prop where
  position : ∀ name i, m.position? name = some i ↔ ∃ p, m.packages[i]? = some p ∧ p.name = name
  owned : ∀ p ∈ m.packages, ∀ s ∈ p.exports, s.package = p.name

variable {m : Model}

theorem WellFormed.empty : Model.empty.WellFormed :=
  ⟨by simp [position?, Model.empty], by simp [Model.empty]⟩

theorem WellFormed.find?_eq_some_iff (h : m.WellFormed) {name : String} {p : Package} :
    m.find? name = some p ↔ p ∈ m.packages ∧ p.name = name := by
  constructor
  · intro hf
    obtain ⟨i, hi, hp⟩ := Option.bind_eq_some_iff.mp hf
    obtain ⟨q, hq, hn⟩ := (h.position name i).mp hi
    obtain rfl : q = p := Option.some.inj (hq.symm.trans hp)
    exact ⟨List.mem_of_getElem? hq, hn⟩
  · rintro ⟨hp, hn⟩
    obtain ⟨i, hi⟩ := List.mem_iff_getElem?.mp hp
    have hx := (h.position name i).mpr ⟨p, hi, hn⟩
    exact Option.bind_eq_some_iff.mpr ⟨i, hx, hi⟩

theorem WellFormed.position_eq_none (h : m.WellFormed) {name : String} (hn : m.position? name = none)
    {p : Package} (hp : p ∈ m.packages) : p.name ≠ name := by
  intro he
  obtain ⟨i, hi⟩ := List.mem_iff_getElem?.mp hp
  have hs := (h.position name i).mpr ⟨p, hi, he⟩
  simp [hn] at hs

theorem WellFormed.names_nodup (h : m.WellFormed) : (m.packages.map (·.name)).Nodup := by
  rw [List.nodup_iff_injective_getElem]
  rintro ⟨i, hi⟩ ⟨j, hj⟩ he
  simp only [List.length_map, List.getElem_map] at hi hj he
  have hx := (h.position _ i).mpr ⟨_, List.getElem?_eq_getElem hi, he⟩
  have hy := (h.position _ j).mpr ⟨_, List.getElem?_eq_getElem hj, rfl⟩
  simpa using hx.symm.trans hy

theorem WellFormed.name_ne (h : m.WellFormed) {before after : List Package} {p q : Package}
    (hl : m.packages = before ++ p :: after) (hq : q ∈ before ++ after) : q.name ≠ p.name := by
  have hn := h.names_nodup
  rw [hl, List.map_append, List.map_cons, List.nodup_middle, List.nodup_cons, ← List.map_append] at hn
  exact fun he => hn.1 (he ▸ List.mem_map_of_mem hq)

theorem WellFormed.resolve_eq_internal_iff (h : m.WellFormed) {d : Symbol} {q : Package} :
    m.resolve d = .internal q ↔ q ∈ m.packages ∧ q.name = d.package ∧ d ∈ q.exports := by
  rw [← and_assoc, ← h.find?_eq_some_iff]
  rw [resolve]
  cases hf : m.find? d.package with
  | none => simp
  | some owner =>
      by_cases he : owner.has d
      · have hd : d ∈ owner.exports := by simpa [Package.has] using he
        simp only [he, if_true, Origin.internal.injEq, Option.some.injEq]
        exact ⟨fun hq => ⟨hq, hq ▸ hd⟩, And.left⟩
      · have hd : d ∉ owner.exports := by simpa [Package.has] using he
        simp only [he, Option.some.injEq, Bool.false_eq_true, if_false, reduceCtorEq, false_iff, not_and]
        rintro rfl
        exact hd

theorem WellFormed.modify (h : m.WellFormed) {i : Nat} {p : Package} {f : Package → Package}
    (hp : m.packages[i]? = some p) (hname : (f p).name = p.name)
    (howned : ∀ s ∈ (f p).exports, s.package = p.name) :
    WellFormed { m with packages := m.packages.modify i f } := by
  have hmod : ∀ j, (m.packages.modify i f)[j]? = if i = j then some (f p) else m.packages[j]? := by
    intro j
    rw [List.getElem?_modify]
    by_cases hj : i = j
    · subst hj; simp [hp]
    · simp [hj]
  refine ⟨?_, ?_⟩
  · intro other j
    change m.position? other = some j ↔ _
    rw [h.position other j]
    simp only [hmod]
    by_cases hj : i = j
    · subst hj; simp [hp, hname]
    · simp [hj]
  · intro q hq
    obtain ⟨j, hj⟩ := List.mem_iff_getElem?.mp hq
    simp only [hmod] at hj
    by_cases hi : i = j
    · simp only [hi, if_true, Option.some.injEq] at hj
      subst hj
      rw [hname]
      exact howned
    · simp only [hi, if_false] at hj
      exact h.owned q (List.mem_of_getElem? hj)

theorem WellFormed.insert (h : m.WellFormed) {q : Package} (hn : m.position? q.name = none)
    (howned : ∀ s ∈ q.exports, s.package = q.name) :
    WellFormed ⟨m.packages ++ [q], (q.name, m.packages.length) :: m.index⟩ := by
  refine ⟨?_, ?_⟩
  · intro other j
    have hp : (⟨m.packages ++ [q], (q.name, m.packages.length) :: m.index⟩ : Model).position? other =
        if other = q.name then some m.packages.length else m.position? other :=
      List.lookup_cons_eq_if other q.name m.packages.length m.index
    simp only [hp, List.getElem?_concat_eq_some]
    by_cases ho : other = q.name
    · rw [if_pos ho, Option.some.injEq, ho]
      constructor
      · rintro rfl
        exact ⟨q, .inr ⟨rfl, rfl⟩, rfl⟩
      · rintro ⟨p, hp | ⟨hj, -⟩, he⟩
        · exact absurd he (h.position_eq_none hn (List.mem_of_getElem? hp))
        · exact hj.symm
    · rw [if_neg ho, h.position other j]
      refine exists_congr fun p => and_congr_left fun he => ⟨.inl, fun hp => hp.resolve_right ?_⟩
      rintro ⟨-, rfl⟩
      exact ho he.symm
  · intro p hp
    rcases List.mem_append.mp hp with hp | hp
    · exact h.owned p hp
    · obtain rfl := List.mem_singleton.mp hp
      exact howned

/-- A change to a package that keeps its name and leaves it no foreign exports. -/
def Lawful (name : String) (f : Package → Package) : Prop :=
  ∀ p, p.name = name → (∀ s ∈ p.exports, s.package = name) →
    (f p).name = name ∧ ∀ s ∈ (f p).exports, s.package = name

theorem WellFormed.update (h : m.WellFormed) {name : String} {f : Package → Package} (hf : Lawful name f) :
    (m.update name f).WellFormed := by
  rw [Model.update]
  cases hn : m.position? name with
  | some i =>
      obtain ⟨p, hp, rfl⟩ := (h.position name i).mp hn
      obtain ⟨hname, howned⟩ := hf p rfl (h.owned p (List.mem_of_getElem? hp))
      exact h.modify hp hname howned
  | none =>
      obtain ⟨hname, howned⟩ := hf (.empty name) rfl (by simp [Package.empty])
      have hq := h.insert (q := f (.empty name)) (by rwa [hname]) (by rwa [hname])
      rwa [hname] at hq

theorem lawful_define (s : Symbol) : Lawful s.package (·.define s) := by
  intro p hp ho
  refine ⟨hp, ?_⟩
  intro a ha
  rcases Package.mem_insertExport.mp ha with rfl | ha
  · rfl
  · exact ho a ha

theorem WellFormed.addExport (h : m.WellFormed) (name : String) (s : Symbol) : (m.addExport name s).1.WellFormed := by
  have hn : ((m.find? name).getD (.empty name)).name = name := by
    cases hf : m.find? name with
    | none => rfl
    | some p => exact (h.find?_eq_some_iff.mp hf).2
  have ho : ∀ a ∈ ((m.find? name).getD (.empty name)).exports, a.package = name := by
    cases hf : m.find? name with
    | none => simp [Package.empty]
    | some p =>
        obtain ⟨hp, rfl⟩ := h.find?_eq_some_iff.mp hf
        exact h.owned p hp
  rw [Model.addExport, Package.addExport]
  by_cases hs : s.package = ((m.find? name).getD (.empty name)).name
  · simp only [hs, if_true]
    rw [hn] at hs
    subst hs
    exact h.update fun _ _ _ => lawful_define s _ hn ho
  · simp only [hs, if_false]
    exact h.update fun _ hp ho => ⟨hp, ho⟩

theorem WellFormed.apply (h : m.WellFormed) (step : Step) : (m.apply step).WellFormed := by
  cases step with
  | define s => exact h.update (lawful_define s)
  | touch name => exact h.update fun _ hp ho => ⟨hp, ho⟩
  | addExport name s => exact h.addExport name s
  | addDependency name d => exact h.update fun _ hp ho => ⟨hp, ho⟩

theorem WellFormed.replay (h : m.WellFormed) (steps : List Step) : (m.replay steps).WellFormed := by
  induction steps generalizing m with
  | nil => exact h
  | cons step steps ih => exact ih (h.apply step)

/-- After any steps, refused exports among them, names of packages are distinct, the index leads from each name to the
place of its package and from nothing else anywhere, packages export symbols of their own, and a symbol is internal just
by the package of its name that exports it. -/
theorem replay_keeps_index (steps : List Step) :
    let m := Model.empty.replay steps
    (m.packages.map (·.name)).Nodup ∧
    (∀ name i, m.position? name = some i ↔ ∃ h : i < m.packages.length, m.packages[i].name = name) ∧
    (∀ (i : Nat) (h : i < m.packages.length), ∀ s ∈ m.packages[i].exports, s.package = m.packages[i].name) ∧
    ∀ d q, m.resolve d = .internal q ↔ q ∈ m.packages ∧ q.name = d.package ∧ d ∈ q.exports := by
  intro m
  have h : m.WellFormed := WellFormed.empty.replay steps
  refine ⟨h.names_nodup, ?_, ?_, fun d q => h.resolve_eq_internal_iff⟩
  · intro name i
    rw [h.position name i]
    constructor
    · rintro ⟨p, hp, hn⟩
      obtain ⟨hi, rfl⟩ := List.getElem?_eq_some_iff.mp hp
      exact ⟨hi, hn⟩
    · rintro ⟨hi, hn⟩
      exact ⟨_, List.getElem?_eq_getElem hi, hn⟩
  · intro i hi s hs
    exact h.owned _ (List.getElem_mem hi) s hs

theorem replay_keeps_index_refused :
    let base : Symbol := ⟨"base", "Point", by decide⟩
    let m := Model.empty.replay [.addExport "app" base, .define base, .addDependency "app" base, .touch "base"]
    (m.packages.map (·.name)).Nodup ∧ m.position? "app" = some 0 ∧
      (∃ h : 0 < m.packages.length, m.packages[0].name = "app") ∧
      (∀ s ∈ m.packages[1].exports, s.package = m.packages[1].name) ∧
      m.resolve base = .internal ⟨"base", [base], []⟩ := by
  intro base m
  obtain ⟨hn, hp, ho, hr⟩ := replay_keeps_index
    [.addExport "app" base, .define base, .addDependency "app" base, .touch "base"]
  exact ⟨hn, rfl, (hp "app" 0).mp rfl, ho 1 (by decide), (hr _ _).mpr (by decide)⟩

end Layering.Model

namespace Layering

theorem Reachable.wellFormed {m : Model} (h : Reachable m) : m.WellFormed := by
  obtain ⟨steps, rfl⟩ := h
  exact Model.WellFormed.empty.replay steps

theorem Reachable.replay {m : Model} (h : Reachable m) (steps : List Model.Step) : Reachable (m.replay steps) := by
  obtain ⟨before, rfl⟩ := h
  exact ⟨before ++ steps, (List.foldl_append ..).symm⟩

end Layering

import Layering.Proofs.Index

namespace Layering

namespace Symbol

variable {a b c : Symbol}

theorem lt_irrefl (a : Symbol) : ¬ a < a := by
  rintro (h | ⟨-, h⟩)
  · exact String.lt_irrefl _ h
  · exact String.lt_irrefl _ h

theorem lt_trans (hab : a < b) (hbc : b < c) : a < c := by
  rcases hab with hab | ⟨hab, hab'⟩
  · rcases hbc with hbc | ⟨hbc, -⟩
    · exact .inl (String.lt_trans hab hbc)
    · exact .inl (hbc ▸ hab)
  · rcases hbc with hbc | ⟨hbc, hbc'⟩
    · exact .inl (hab ▸ hbc)
    · exact .inr ⟨hab.trans hbc, String.lt_trans hab' hbc'⟩

theorem lt_of_not_lt (hab : ¬ a < b) (hne : a ≠ b) : b < a := by
  obtain ⟨hpackage, hname⟩ := not_or.mp hab
  by_cases hp : a.package = b.package
  · refine .inr ⟨hp.symm, ?_⟩
    by_contra hba
    have hn : a.name = b.name := String.le_antisymm (String.not_lt.mp hba) (String.not_lt.mp fun h => hname ⟨hp, h⟩)
    cases a
    cases b
    exact hne (by simp_all)
  · left
    by_contra hba
    exact hp (String.le_antisymm (String.not_lt.mp hba) (String.not_lt.mp hpackage))

end Symbol

theorem Package.ascending_insertExport {xs : List Symbol} (h : xs.Pairwise (· < ·)) (s : Symbol) :
    (insertExport s xs).Pairwise (· < ·) := by
  induction xs with
  | nil => exact List.pairwise_singleton _ _
  | cons x xs ih =>
      obtain ⟨hx, hxs⟩ := List.pairwise_cons.mp h
      rw [insertExport]
      by_cases hlt : s < x
      · rw [if_pos hlt]
        refine List.pairwise_cons.mpr ⟨fun a ha => ?_, h⟩
        rcases List.mem_cons.mp ha with rfl | ha
        · exact hlt
        · exact Symbol.lt_trans hlt (hx a ha)
      · rw [if_neg hlt]
        by_cases he : s = x
        · rw [if_pos he]
          exact h
        · rw [if_neg he]
          refine List.pairwise_cons.mpr ⟨fun a ha => ?_, ih hxs⟩
          rcases mem_insertExport.mp ha with rfl | ha
          · exact Symbol.lt_of_not_lt hlt he
          · exact hx a ha

namespace Model

namespace Step

def package : Step → String
  | define s => s.package
  | touch name | addExport name _ | addDependency name _ => name

def change : Step → Package → Package
  | define s, p => p.define s
  | touch _, p => p
  | addExport name s, p => if s.package = name then p.define s else p
  | addDependency _ d, p => p.addDependency d

def dependencyOf (name : String) : Step → Option Symbol
  | addDependency other d => if other = name then some d else none
  | _ => none

def isDependency : Step → Bool
  | addDependency .. => true
  | _ => false

end Step

/-- Some step gave this symbol to the package it names. -/
def Exported (steps : List Step) (s : Symbol) : Prop := .define s ∈ steps ∨ .addExport s.package s ∈ steps

end Model

open Model

/-- A package that holds what the steps on it gave, and nothing else. -/
structure Package.Records (steps : List Step) (p : Package) : Prop where
  dependencies : p.dependencies = steps.filterMap (Step.dependencyOf p.name)
  exports : ∀ s, s ∈ p.exports ↔ s.package = p.name ∧ Exported steps s
  ascending : p.exports.Pairwise (· < ·)

namespace Model

variable {m : Model} {steps : List Step} {step : Step} {p : Package} {s : Symbol} {name : String}

@[simp] theorem Step.change_name (step : Step) (p : Package) : (step.change p).name = p.name := by
  cases step with
  | addExport name s =>
      rw [change]
      split <;> rfl
  | define | touch | addDependency => rfl

theorem Step.dependencies_change (step : Step) (p : Package) :
    (step.change p).dependencies = p.dependencies ++ (step.dependencyOf step.package).toList := by
  cases step with
  | addExport name s =>
      rw [change]
      split <;> exact (List.append_nil _).symm
  | define | touch => exact (List.append_nil _).symm
  | addDependency => simp [change, package, dependencyOf, Package.addDependency]

theorem Step.mem_exports_change :
    s ∈ (step.change p).exports ↔ s ∈ p.exports ∨ step = .define s ∨ step = .addExport s.package s := by
  cases step with
  | define a => simp [change, Package.define, Package.mem_insertExport, or_comm, eq_comm]
  | touch name => simp [change]
  | addExport name a =>
      by_cases ha : a.package = name
      · subst ha
        simp only [change, if_true, Package.define, Package.mem_insertExport, reduceCtorEq, false_or, addExport.injEq]
        constructor
        · rintro (rfl | hs)
          · exact .inr ⟨rfl, rfl⟩
          · exact .inl hs
        · rintro (hs | ⟨-, rfl⟩)
          · exact .inr hs
          · exact .inl rfl
      · simp only [change, ha, if_false, reduceCtorEq, false_or, addExport.injEq]
        refine ⟨.inl, fun h => h.resolve_right ?_⟩
        rintro ⟨rfl, rfl⟩
        exact ha rfl
  | addDependency name d => simp [change, Package.addDependency]

theorem exported_concat : Exported (steps ++ [step]) s ↔
    Exported steps s ∨ step = .define s ∨ step = .addExport s.package s := by
  simp only [Exported, List.mem_append, List.mem_singleton, eq_comm (b := step)]
  tauto

theorem Step.package_of_exports (h : step = .define s ∨ step = .addExport s.package s) : step.package = s.package := by
  rcases h with rfl | rfl <;> rfl

theorem Step.dependencyOf_eq_some : step.dependencyOf name = some s ↔ step = .addDependency name s := by
  cases step with
  | addDependency other d => simp [dependencyOf]
  | define | touch | addExport => simp [dependencyOf]

theorem Step.dependencyOf_eq_none (h : step.package ≠ name) : step.dependencyOf name = none := by
  cases step with
  | addDependency other d => exact if_neg h
  | define | touch | addExport => rfl

end Model

namespace Package

variable {steps : List Step} {step : Step} {p : Package} {name : String}

theorem records_empty (h : name ∉ steps.map Step.package) : (empty name).Records steps := by
  have hother : ∀ step ∈ steps, step.package ≠ name := fun step hs he => h (he ▸ List.mem_map_of_mem hs)
  refine ⟨?_, fun s => ?_, .nil⟩
  · have hnone : steps.filterMap (Step.dependencyOf name) = [] :=
      List.filterMap_eq_nil_iff.mpr fun step hs => Step.dependencyOf_eq_none (hother step hs)
    exact hnone.symm
  · refine iff_of_false List.not_mem_nil ?_
    rintro ⟨rfl, hs | hs⟩
    · exact hother _ hs rfl
    · exact hother _ hs rfl

theorem Records.change (h : p.Records steps) (hn : step.package = p.name) :
    (step.change p).Records (steps ++ [step]) := by
  refine ⟨?_, fun s => ?_, ?_⟩
  · rw [Step.dependencies_change, Step.change_name, h.dependencies, hn, List.filterMap_append]
    cases hd : step.dependencyOf p.name <;> simp [hd]
  · rw [Step.mem_exports_change, Step.change_name, h.exports, exported_concat]
    have hs : step = .define s ∨ step = .addExport s.package s → s.package = p.name :=
      fun he => (Step.package_of_exports he).symm.trans hn
    tauto
  · cases step with
    | define s => exact ascending_insertExport h.ascending s
    | touch | addDependency => exact h.ascending
    | addExport name s =>
        rw [Step.change]
        split
        · exact ascending_insertExport h.ascending s
        · exact h.ascending

theorem Records.other (h : p.Records steps) (hn : step.package ≠ p.name) : p.Records (steps ++ [step]) := by
  refine ⟨?_, fun s => ?_, h.ascending⟩
  · rw [h.dependencies, List.filterMap_append]
    simp [Step.dependencyOf_eq_none hn]
  · rw [h.exports, exported_concat]
    have hs : step = .define s ∨ step = .addExport s.package s → s.package ≠ p.name :=
      fun he hp => hn ((Step.package_of_exports he).trans hp)
    tauto

theorem Records.mem_dependencies (h : p.Records steps) {d : Symbol} :
    d ∈ p.dependencies ↔ .addDependency p.name d ∈ steps := by
  simp only [h.dependencies, List.mem_filterMap, Step.dependencyOf_eq_some, exists_eq_right]

end Package

namespace Model

variable {m : Model} {steps : List Step} {step : Step} {p : Package} {s : Symbol} {name : String}

theorem WellFormed.packages_update (h : m.WellFormed) (name : String) (f : Package → Package) :
    (∃ before p after, m.packages = before ++ p :: after ∧ p.name = name ∧
      (m.update name f).packages = before ++ f p :: after) ∨
    (∀ p ∈ m.packages, p.name ≠ name) ∧ (m.update name f).packages = m.packages ++ [f (.empty name)] := by
  rw [Model.update]
  cases hn : m.position? name with
  | some i =>
      obtain ⟨p, hp, hname⟩ := (h.position name i).mp hn
      obtain ⟨hi, hget⟩ := List.getElem?_eq_some_iff.mp hp
      refine .inl ⟨m.packages.take i, p, m.packages.drop (i + 1), ?_, hname, ?_⟩
      · rw [← hget, List.getElem_cons_drop, List.take_append_drop]
      · rw [← hget]
        exact List.modify_eq_take_cons_drop hi
  | none => exact .inr ⟨fun p hp => h.position_eq_none hn hp, rfl⟩

theorem WellFormed.touch_eq_self (h : m.WellFormed) (hp : p ∈ m.packages) (hn : p.name = name) : m.touch name = m := by
  obtain ⟨i, hi⟩ := List.mem_iff_getElem?.mp hp
  rw [touch, Model.update, (h.position name i).mpr ⟨p, hi, hn⟩]
  simp

theorem WellFormed.named (h : m.WellFormed) (name : String) : ((m.find? name).getD (.empty name)).name = name := by
  cases hf : m.find? name with
  | none => rfl
  | some p => exact (h.find?_eq_some_iff.mp hf).2

theorem WellFormed.addExport_foreign (h : m.WellFormed) (hs : s.package ≠ name) :
    m.addExport name s = (m.touch name, .error (.foreignExport name s.display)) := by
  rw [Model.addExport, Package.addExport, h.named, if_neg hs]

theorem update_congr {f g : Package → Package}
    (hfg : f ((m.find? name).getD (.empty name)) = g ((m.find? name).getD (.empty name))) :
    m.update name f = m.update name g := by
  simp only [Model.update]
  cases hn : m.position? name with
  | none => simpa [find?, hn] using hfg
  | some i =>
      simp only [find?, hn, Option.bind_eq_bind, Option.bind_some] at hfg
      have hmodify : m.packages.modify i f = m.packages.modify i g := by
        apply List.ext_getElem?
        intro j
        by_cases hj : i = j
        · subst hj
          cases hp : m.packages[i]? with
          | none => simp [hp]
          | some p => simpa [hp] using hfg
        · simp [hj]
      simp only [hmodify]

theorem WellFormed.addExport_own (h : m.WellFormed) (hs : s.package = name) :
    m.addExport name s = (m.update name (·.define s), .ok ()) := by
  rw [Model.addExport, Package.addExport, h.named, if_pos hs]
  exact Prod.ext (update_congr rfl) rfl

theorem WellFormed.apply_eq_update (h : m.WellFormed) (step : Step) :
    m.apply step = m.update step.package step.change := by
  cases step with
  | define | touch | addDependency => rfl
  | addExport name s =>
      by_cases hs : s.package = name
      · have hc : Step.change (.addExport name s) = (·.define s) := by
          funext p
          exact if_pos hs
        rw [Model.apply, h.addExport_own hs, hc]
        rfl
      · have hc : Step.change (.addExport name s) = id := by
          funext p
          exact if_neg hs
        rw [Model.apply, h.addExport_foreign hs, hc]
        rfl

structure Records (steps : List Step) (m : Model) : Prop where
  names : m.packages.map (·.name) = (steps.map Step.package).eraseDups
  packages : ∀ p ∈ m.packages, p.Records steps
  count : m.dependencyCount = steps.countP Step.isDependency

theorem records_empty : Model.empty.Records [] := ⟨rfl, nofun, rfl⟩

theorem Records.mem_names (h : m.Records steps) : name ∈ steps.map Step.package ↔ ∃ p ∈ m.packages, p.name = name := by
  rw [← List.mem_eraseDups, ← h.names, List.mem_map]

theorem Step.length_dependencies_change (step : Step) (p : Package) :
    (step.change p).dependencies.length = p.dependencies.length + [step].countP isDependency := by
  rw [dependencies_change, List.length_append]
  cases step <;> simp [dependencyOf, package, isDependency]

theorem Records.changed (hr : m.Records steps) (h : m.WellFormed) {m' : Model} {before after : List Package}
    (hl : m.packages = before ++ p :: after) (hp : p.name = step.package)
    (hl' : m'.packages = before ++ step.change p :: after) : m'.Records (steps ++ [step]) := by
  have hmem : step.package ∈ steps.map Step.package := hr.mem_names.mpr ⟨p, by simp [hl], hp⟩
  have hcount := hr.count
  refine ⟨?_, fun q hq => ?_, ?_⟩
  · rw [List.map_append, List.map_singleton, List.eraseDups_concat, if_pos hmem, ← hr.names, hl', hl]
    simp
  · rw [hl'] at hq
    have hq' : q = step.change p ∨ q ∈ before ++ after := by
      simpa [or_left_comm] using hq
    rcases hq' with rfl | hq'
    · exact (hr.packages p (by simp [hl])).change hp.symm
    · have hold : q ∈ m.packages := by
        rw [hl]
        simp only [List.mem_append, List.mem_cons] at hq' ⊢
        tauto
      exact (hr.packages q hold).other fun he => h.name_ne hl hq' (he.symm.trans hp.symm)
  · simp only [dependencyCount, dependencies, hl, hl', List.flatMap_append, List.flatMap_cons, List.length_append,
      List.countP_append, step.length_dependencies_change] at hcount ⊢
    omega

theorem Records.added (hr : m.Records steps) {m' : Model} (hnew : ∀ p ∈ m.packages, p.name ≠ step.package)
    (hl' : m'.packages = m.packages ++ [step.change (.empty step.package)]) : m'.Records (steps ++ [step]) := by
  have hmem : step.package ∉ steps.map Step.package := by
    rw [hr.mem_names]
    rintro ⟨p, hp, hn⟩
    exact hnew p hp hn
  have hcount := hr.count
  refine ⟨?_, fun q hq => ?_, ?_⟩
  · rw [List.map_append, List.map_singleton, List.eraseDups_concat, if_neg hmem, ← hr.names, hl']
    simp [Package.empty]
  · rw [hl'] at hq
    rcases List.mem_append.mp hq with hq | hq
    · exact (hr.packages q hq).other fun he => hnew q hq he.symm
    · obtain rfl := List.mem_singleton.mp hq
      exact (Package.records_empty hmem).change rfl
  · have hempty : (Package.empty step.package).dependencies.length = 0 := rfl
    simp only [dependencyCount, dependencies, hl', List.flatMap_append, List.flatMap_cons, List.flatMap_nil,
      List.append_nil, List.length_append, List.countP_append, step.length_dependencies_change, hempty] at hcount ⊢
    omega

theorem Records.apply (hr : m.Records steps) (h : m.WellFormed) (step : Step) :
    (m.apply step).Records (steps ++ [step]) := by
  rw [h.apply_eq_update]
  rcases h.packages_update step.package step.change with ⟨before, p, after, hl, hp, hl'⟩ | ⟨hnew, hl'⟩
  · exact hr.changed h hl hp hl'
  · exact hr.added hnew hl'

theorem records_replay (steps : List Step) : (Model.empty.replay steps).Records steps := by
  induction steps using List.reverseRecOn with
  | nil => exact records_empty
  | append_singleton steps step ih =>
      have hstep : Model.empty.replay (steps ++ [step]) = (Model.empty.replay steps).apply step := List.foldl_concat ..
      rw [hstep]
      exact ih.apply (WellFormed.empty.replay steps) step

theorem Exported.package_mem (h : Exported steps s) : s.package ∈ steps.map Step.package := by
  rcases h with h | h
  · exact List.mem_map.mpr ⟨_, h, rfl⟩
  · exact List.mem_map.mpr ⟨_, h, rfl⟩

theorem Records.exists_internal_iff (hr : m.Records steps) (h : m.WellFormed) :
    (∃ q ∈ m.packages, q.name = s.package ∧ m.resolve s = .internal q) ↔ Exported steps s := by
  constructor
  · rintro ⟨q, hq, -, hs⟩
    obtain ⟨-, -, hs⟩ := h.resolve_eq_internal_iff.mp hs
    exact (((hr.packages q hq).exports s).mp hs).2
  · intro he
    obtain ⟨q, hq, hn⟩ := hr.mem_names.mp he.package_mem
    have hs := ((hr.packages q hq).exports s).mpr ⟨hn.symm, he⟩
    exact ⟨q, hq, hn, h.resolve_eq_internal_iff.mpr ⟨hq, hn, hs⟩⟩

theorem Records.resolve_eq_external_iff (hr : m.Records steps) (h : m.WellFormed) :
    m.resolve s = .external ↔ ¬ Exported steps s := by
  rw [← hr.exists_internal_iff h]
  cases hs : m.resolve s with
  | external => simp
  | internal q =>
      obtain ⟨hq, hn, -⟩ := h.resolve_eq_internal_iff.mp hs
      exact iff_of_false nofun (not_not.mpr ⟨q, hq, hn, rfl⟩)

/-- After any steps the packages are those that were touched, each once, in the order of their first touch; each has the
dependencies that were added to it, in that order, repeats among them, and the symbols of its own that were defined or
exported; a symbol is internal just if some step exported it; a foreign symbol is refused, which touches the package and
does nothing else; and as many dependencies are counted as were added. -/
theorem replay_tells_history (steps : List Step) :
    let m := Model.empty.replay steps
    m.packages.map (·.name) = (steps.map Step.package).eraseDups ∧
    (∀ p ∈ m.packages, p.dependencies = steps.filterMap (Step.dependencyOf p.name) ∧
      (∀ s, s ∈ p.exports ↔ s.package = p.name ∧ (.define s ∈ steps ∨ .addExport p.name s ∈ steps)) ∧
      p.exports.Pairwise (· < ·)) ∧
    (∀ d, (∃ q ∈ m.packages, q.name = d.package ∧ m.resolve d = .internal q) ↔
      .define d ∈ steps ∨ .addExport d.package d ∈ steps) ∧
    (∀ d, m.resolve d = .external ↔ ¬ (.define d ∈ steps ∨ .addExport d.package d ∈ steps)) ∧
    (∀ name s, (m.addExport name s).2 = if s.package = name then .ok () else .error (.foreignExport name s.display)) ∧
    (∀ name s, s.package ≠ name → (m.addExport name s).1 = m.touch name) ∧
    (∀ name, name ∈ steps.map Step.package → m.touch name = m) ∧
    (∀ name, name ∉ steps.map Step.package → (m.touch name).packages = m.packages ++ [.empty name]) ∧
    m.dependencyCount = steps.countP Step.isDependency := by
  intro m
  have h : m.WellFormed := WellFormed.empty.replay steps
  have hr : m.Records steps := records_replay steps
  refine ⟨hr.names, fun p hp => ?_, fun d => hr.exists_internal_iff h, fun d => hr.resolve_eq_external_iff h,
    fun name s => ?_, fun name s hs => ?_, fun name hn => ?_, fun name hn => ?_, hr.count⟩
  · have hp' := hr.packages p hp
    refine ⟨hp'.dependencies, fun s => ?_, hp'.ascending⟩
    rw [hp'.exports, Exported]
    exact and_congr_right fun hs => by rw [hs]
  · by_cases hs : s.package = name
    · rw [if_pos hs, h.addExport_own hs]
    · rw [if_neg hs, h.addExport_foreign hs]
  · rw [h.addExport_foreign hs]
  · obtain ⟨p, hp, hn⟩ := hr.mem_names.mp hn
    exact h.touch_eq_self hp hn
  · rcases h.packages_update name id with ⟨before, p, after, hl, hp, -⟩ | ⟨-, hl⟩
    · exact absurd (hr.mem_names.mpr ⟨p, by simp [hl], hp⟩) hn
    · exact hl

theorem replay_tells_history_mixed :
    let base : Symbol := ⟨"base", "Point", by decide⟩
    let view : Symbol := ⟨"view", "Panel", by decide⟩
    let steps : List Step := [.addDependency "app" view, .addExport "app" base, .define base, .addDependency "base" view,
      .addExport "base" view, .touch "app", .addDependency "app" view, .addDependency "app" base]
    let m := Model.empty.replay steps
    m.packages = [⟨"app", [], [view, view, base]⟩, ⟨"base", [base], [view]⟩] ∧
      (∃ q ∈ m.packages, q.name = "base" ∧ m.resolve base = .internal q) ∧ m.resolve view = .external ∧
      (m.addExport "view" base).1 = m.touch "view" ∧
      (m.touch "view").packages = m.packages ++ [.empty "view"] ∧ m.touch "app" = m ∧
      (m.addExport "view" base).2 = .error (.foreignExport "view" "base:Point") ∧
      m.dependencyCount = 4 := by
  intro base view steps m
  obtain ⟨-, -, hinternal, hexternal, hresult, hforeign, hold, hnew, hcount⟩ := replay_tells_history steps
  have hpackages : m.packages = [⟨"app", [], [view, view, base]⟩, ⟨"base", [base], [view]⟩] := by decide
  exact ⟨hpackages, (hinternal base).mpr (by decide), (hexternal view).mpr (by decide), hforeign "view" base (by decide),
    hnew "view" (by decide), hold "app" (by decide), hresult "view" base, hcount⟩

end Model

end Layering

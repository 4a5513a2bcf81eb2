import Layering.Proofs.Chain
import Mathlib.Data.List.Flatten

namespace Layering

/-- What a violation tells but for the numbers of the ranks: who needs what of whom. -/
def Violation.parties (v : Violation) : String × Symbol × String := (v.package, v.symbol, v.owner)

namespace Model

/-- Both tables rank the packages of the model, and what is at most as high as another for the first table is so for the
second one: neighbouring layers may become one, but no two change places. -/
structure Merges (m : Model) (t t' : RankTable) : Prop where
  ranked : ∀ p ∈ m.packages, t.rank p.name ≠ none
  ranked' : ∀ p ∈ m.packages, t'.rank p.name ≠ none
  atMost : ∀ p ∈ m.packages, ∀ q ∈ m.packages, t.AtMost p.name q.name → t'.AtMost p.name q.name

variable {m : Model} {t t' : RankTable}

theorem Merges.below (h : m.Merges t t') {p q : Package} (hp : p ∈ m.packages) (hq : q ∈ m.packages)
    (hb : t'.Below p.name q.name) : t.Below p.name q.name := by
  rcases RankTable.atMost_or_below (h.ranked q hq) (h.ranked p hp) with hle | hlt
  · exact absurd hb (h.atMost q hq p hp hle).not_below
  · exact hlt

theorem Merges.upward_sublist (h : m.Merges t t') {p : Package} (hp : p ∈ m.packages) :
    (m.upward t' p).Sublist (m.upward t p) := by
  rw [upward_eq_filter, upward_eq_filter]
  apply List.monotone_filter_right
  intro d hd
  obtain ⟨he, hb⟩ := of_decide_eq_true hd
  obtain ⟨q, hq, hn, -⟩ := id he
  refine decide_eq_true ⟨he, ?_⟩
  rw [← hn] at hb ⊢
  exact h.below hp hq hb

theorem Merges.upwardDependencies_sublist (h : m.Merges t t') :
    (m.upwardDependencies t').Sublist (m.upwardDependencies t) := by
  apply List.Sublist.flatMap_right
  intro p hp
  exact (h.upward_sublist hp).map _

theorem WellFormed.parties_scanPackages (hw : m.WellFormed) (hr : ∀ p ∈ m.packages, t.rank p.name ≠ none) :
    (m.scanPackages t .all m.packages).map Violation.parties =
      (m.upwardDependencies t).map fun u => (u.1.name, u.2, u.2.package) := by
  rw [hw.scanPackages_eq_map hr, List.map_map, List.map_map]
  rfl

theorem Merges.parties_sublist (h : m.Merges t t') (hw : m.WellFormed) :
    ((m.scanPackages t' .all m.packages).map Violation.parties).Sublist
      ((m.scanPackages t .all m.packages).map Violation.parties) := by
  rw [hw.parties_scanPackages h.ranked, hw.parties_scanPackages h.ranked']
  exact h.upwardDependencies_sublist.map _

/-- Each way the violations are a part of the others, so that they are the same; in the first mode the first of each. -/
theorem Merges.parties_eq (h : m.Merges t t') (h' : m.Merges t' t) (hw : m.WellFormed) (mode : Mode) :
    (m.scanPackages t' mode m.packages).map Violation.parties =
      (m.scanPackages t mode m.packages).map Violation.parties := by
  have hall := (h.parties_sublist hw).antisymm (h'.parties_sublist hw)
  cases mode with
  | first => rw [scanPackages_first, scanPackages_first, List.map_take, List.map_take, hall]
  | all => exact hall

theorem Merges.ordered (h : m.Merges t t') (ho : m.Ordered t) : m.Ordered t' := by
  refine ⟨h.ranked', fun p hp d hd he => ?_⟩
  obtain ⟨q, hq, hn, -⟩ := id he
  have hle := ho.downward p hp d hd he
  rw [← hn] at hle ⊢
  exact h.atMost q hq p hp hle

/-- Merging layers leaves no violation that was not there, in the same order; so it makes none where there was none. And
two tables that order the packages of the model alike have the same violations but for the numbers, in either mode. -/
theorem validate_merged {m : Model} (hm : Reachable m) {t t' : RankTable} (h : m.Merges t t') :
    (∃ vs vs', m.validate t .all = .ok vs ∧ m.validate t' .all = .ok vs' ∧
      (vs'.map Violation.parties).Sublist (vs.map Violation.parties)) ∧
    (∀ mode, m.validate t mode = .ok [] → m.validate t' mode = .ok []) ∧
    (m.Merges t' t → ∀ mode, ∃ vs vs', m.validate t mode = .ok vs ∧ m.validate t' mode = .ok vs' ∧
      vs'.map Violation.parties = vs.map Violation.parties) := by
  have hw := hm.wellFormed
  refine ⟨?_, fun mode hv => ?_, fun h' mode => ?_⟩
  · exact ⟨_, _, validate_eq_ok .all h.ranked, validate_eq_ok .all h.ranked', h.parties_sublist hw⟩
  · exact hw.validate_eq_nil_iff.mpr (h.ordered (hw.validate_eq_nil_iff.mp hv))
  · exact ⟨_, _, validate_eq_ok mode h.ranked, validate_eq_ok mode h.ranked', h.parties_eq h' hw mode⟩

theorem validate_merged_layers :
    let base : Symbol := ⟨"base", "Point", by decide⟩
    let view : Symbol := ⟨"view", "Panel", by decide⟩
    let app : Symbol := ⟨"app", "Main", by decide⟩
    let m := Model.empty.replay [.define base, .addDependency "base" view, .define view, .addDependency "view" app,
      .addDependency "view" app, .define app, .addDependency "app" base]
    let t : RankTable := ⟨[["base"], ["view"]], ["app"], [("base", 0), ("view", 1), ("app", 2)]⟩
    let merged : RankTable := ⟨[["base"]], ["view", "app"], [("base", 0), ("view", 1), ("app", 1)]⟩
    let spread : RankTable := ⟨[["base", "flash"], ["gone"], ["view"], ["app"]], [],
      [("base", 0), ("flash", 0), ("gone", 1), ("view", 2), ("app", 3)]⟩
    Reachable m ∧ RankTable.parse "base,view,app" = .ok t ∧ RankTable.parse "base,(view,app)" = .ok merged ∧
      RankTable.parse "(base,flash),gone,((view)),app," = .ok spread ∧
      m.Merges t merged ∧ m.Merges t spread ∧ m.Merges spread t ∧
      (∃ vs vs', m.validate t .all = .ok vs ∧ m.validate merged .all = .ok vs' ∧
        vs'.length < vs.length ∧ (vs'.map Violation.parties).Sublist (vs.map Violation.parties)) ∧
      ∃ vs vs', m.validate t .all = .ok vs ∧ m.validate spread .all = .ok vs' ∧ vs' ≠ vs ∧
        vs'.map Violation.parties = vs.map Violation.parties := by
  intro base view app m t merged spread
  have hm : Reachable m := ⟨_, rfl⟩
  have hmerged : m.Merges t merged := ⟨by decide, by decide, by decide⟩
  have hspread : m.Merges t spread := ⟨by decide, by decide, by decide⟩
  have hback : m.Merges spread t := ⟨by decide, by decide, by decide⟩
  obtain ⟨vs, vs', hvs, hvs', hsub⟩ := (validate_merged hm hmerged).1
  obtain ⟨ws, ws', hws, hws', heq⟩ := (validate_merged hm hspread).2.2 hback .all
  have ht : m.validate t .all = .ok [⟨"base", 0, view, "view", 1⟩, ⟨"view", 1, app, "app", 2⟩] := by decide
  have hm' : m.validate merged .all = .ok [⟨"base", 0, view, "view", 1⟩] := by decide
  have hs : m.validate spread .all = .ok [⟨"base", 0, view, "view", 2⟩, ⟨"view", 2, app, "app", 3⟩] := by decide
  refine ⟨hm, rfl, rfl, rfl, hmerged, hspread, hback, ⟨vs, vs', hvs, hvs', ?_, hsub⟩, ws, ws', hws, hws', ?_, heq⟩
  · obtain rfl := Except.ok.inj (hvs.symm.trans ht)
    obtain rfl := Except.ok.inj (hvs'.symm.trans hm')
    decide
  · obtain rfl := Except.ok.inj (hws.symm.trans ht)
    obtain rfl := Except.ok.inj (hws'.symm.trans hs)
    decide

end Model

end Layering

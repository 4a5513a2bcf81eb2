import Layering.Proofs.Catalog
import Layering.Proofs.History
import Layering.Proofs.Symbol
import Layering.Proofs.Upward

namespace Layering

namespace Script

open Model

variable {scripts : List Script} {p : Package} {s d : Symbol} {name : String}

theorem mem_steps {step : Step} : step ∈ scripts.flatMap steps ↔ ∃ script ∈ scripts,
    step = .define script.definition ∨ ∃ d ∈ script.dependencies, step = .addDependency script.definition.package d := by
  simp [steps, eq_comm]

theorem mem_exports_model (hp : p ∈ (model scripts).packages) :
    s ∈ p.exports ↔ s.package = p.name ∧ ∃ script ∈ scripts, s = script.definition := by
  rw [((records_replay _).packages p hp).exports, Exported, mem_steps, mem_steps]
  simp

theorem mem_dependencies_model (hp : p ∈ (model scripts).packages) :
    d ∈ p.dependencies ↔ ∃ script ∈ scripts, script.definition.package = p.name ∧ d ∈ script.dependencies := by
  rw [((records_replay _).packages p hp).mem_dependencies, mem_steps]
  simp [and_comm, eq_comm]

theorem exists_definition (hp : p ∈ (model scripts).packages) :
    ∃ script ∈ scripts, script.definition.package = p.name := by
  obtain ⟨step, hstep, hn⟩ := List.mem_map.mp ((records_replay _).mem_names.mpr ⟨p, hp, rfl⟩)
  obtain ⟨script, hscript, rfl | ⟨d, -, rfl⟩⟩ := mem_steps.mp hstep
  · exact ⟨script, hscript, hn⟩
  · exact ⟨script, hscript, hn⟩

end Script

/-- A package, and symbols, that ids can name; and something that the package exports. -/
structure Package.WellNamed (p : Package) : Prop where
  exports : p.exports ≠ []
  name : Symbol.IsPart p.name
  symbols : ∀ s, s ∈ p.exports ∨ s ∈ p.dependencies → Symbol.IsPart s.package ∧ Symbol.IsPart s.name

namespace Model

def Mentions (m : Model) (s : Symbol) : Prop := ∃ p ∈ m.packages, s ∈ p.exports ∨ s ∈ p.dependencies

variable {m : Model} {t : RankTable} {mode : Mode} {vs : List Violation} {v : Violation}

theorem WellFormed.names_of_mem (h : m.WellFormed) (hv : m.validate t mode = .ok vs) (hm : v ∈ vs) :
    ∃ p ∈ m.packages, ∃ q ∈ m.packages, v.package = p.name ∧ v.owner = q.name ∧ p.name ≠ q.name := by
  obtain ⟨p, d, hu, rfl⟩ := h.exists_upward hv hm
  obtain ⟨hp, -, ⟨q, hq, hn, -⟩, hbelow⟩ := mem_upwardDependencies.mp hu
  refine ⟨p, hp, q, hq, rfl, hn.symm, fun he => ?_⟩
  rw [← hn, ← he] at hbelow
  exact RankTable.Below.irrefl _ hbelow

end Model

namespace Catalog

variable {element : Xml.Node} {script : Script} {s : Symbol} {text : String} {m : Model} {p : Package}

theorem Names.parts (h : Names element s) : Symbol.IsPart s.package ∧ Symbol.IsPart s.name := by
  obtain ⟨id, -, hid⟩ := h
  exact Symbol.parts_of_parse hid

theorem Tells.parts (h : Tells element script) (hs : s = script.definition ∨ s ∈ script.dependencies) :
    Symbol.IsPart s.package ∧ Symbol.IsPart s.name := by
  rcases hs with rfl | hs
  · obtain ⟨d, -, hd⟩ := h.definition
    exact hd.parts
  · obtain ⟨c, -, hc⟩ := List.exists_of_forall₂ h.dependencies hs
    exact hc.parts

theorem wellNamed_of_parse (h : parse text = .ok m) (hp : p ∈ m.packages) : p.WellNamed := by
  obtain ⟨root, -, -, scripts, htells, rfl⟩ := parse_eq_ok.mp h
  have hparts : ∀ script ∈ scripts, ∀ s, s = script.definition ∨ s ∈ script.dependencies →
      Symbol.IsPart s.package ∧ Symbol.IsPart s.name := by
    intro script hscript s hs
    obtain ⟨element, -, helement⟩ := List.exists_of_forall₂ htells hscript
    exact helement.parts hs
  obtain ⟨script, hscript, hn⟩ := Script.exists_definition hp
  refine ⟨?_, ?_, fun s hs => ?_⟩
  · exact List.ne_nil_of_mem ((Script.mem_exports_model hp).mpr ⟨hn, script, hscript, rfl⟩)
  · exact hn ▸ (hparts script hscript _ (.inl rfl)).1
  · rcases hs with hs | hs
    · obtain ⟨-, script, hscript, hdefined⟩ := (Script.mem_exports_model hp).mp hs
      exact hparts script hscript s (.inl hdefined)
    · obtain ⟨script, hscript, -, hneeded⟩ := (Script.mem_dependencies_model hp).mp hs
      exact hparts script hscript s (.inr hneeded)

/-- In the model of a catalog every package exports something, and what it is called, exports and needs can be named in an
id; so the symbols in it are told apart by what they are displayed as. A violation in it is between two packages. -/
theorem parse_well_named (h : parse text = .ok m) :
    (∀ p ∈ m.packages, p.WellNamed) ∧
    (∀ s s', m.Mentions s → m.Mentions s' → (s = s' ↔ s.display = s'.display)) ∧
    ∀ t mode vs, m.validate t mode = .ok vs → ∀ v ∈ vs,
      ∃ p ∈ m.packages, ∃ q ∈ m.packages, v.package = p.name ∧ v.owner = q.name ∧ p.name ≠ q.name := by
  refine ⟨fun p hp => wellNamed_of_parse h hp, ?_, fun t mode vs hv v hm => ?_⟩
  · rintro s s' ⟨p, hp, hs⟩ ⟨p', hp', hs'⟩
    obtain ⟨hpackage, hname⟩ := (wellNamed_of_parse h hp).symbols s hs
    obtain ⟨hpackage', hname'⟩ := (wellNamed_of_parse h hp').symbols s' hs'
    exact (Symbol.display_inj hpackage hname hpackage' hname').symm
  · exact (reachable_of_parse h).wellFormed.names_of_mem hv hm

theorem parse_well_named_layers :
    let base : Symbol := ⟨"base", "P", by decide⟩
    let view : Symbol := ⟨"view", "Q", by decide⟩
    let text := "<swc><libraries><library><script><def id='base:P'/><dep id='view:Q'/></script>" ++
      "<script><def id='view:Q'/></script></library></libraries></swc>"
    let m := Model.empty.replay [.define base, .addDependency "base" view, .define view]
    let p : Package := ⟨"base", [base], [view]⟩
    let t : RankTable := ⟨[["base"]], ["view"], [("base", 0), ("view", 1)]⟩
    let v : Violation := ⟨"base", 0, view, "view", 1⟩
    parse text = .ok m ∧ p ∈ m.packages ∧ Symbol.IsPart p.name ∧ m.Mentions base ∧ m.Mentions view ∧
      base.display ≠ view.display ∧ RankTable.parse "base,view" = .ok t ∧ m.validate t .first = .ok [v] ∧
      v.package ≠ v.owner := by
  intro base view text m p t v
  have htext : parse text = .ok m := by decide +kernel
  obtain ⟨hnamed, hdisplay, hviolation⟩ := parse_well_named htext
  have hp : p ∈ m.packages := by decide
  have hbase : m.Mentions base := ⟨p, hp, by decide⟩
  have hview : m.Mentions view := ⟨p, hp, by decide⟩
  have hne : base.display ≠ view.display := fun h => absurd ((hdisplay base view hbase hview).mpr h) (by decide)
  have hv : m.validate t .first = .ok [v] := rfl
  obtain ⟨q, -, q', -, hpackage, howner, hq⟩ := hviolation t .first [v] hv v List.mem_cons_self
  exact ⟨htext, hp, (hnamed p hp).name, hbase, hview, hne, rfl, hv, hpackage ▸ howner ▸ hq⟩

end Catalog

end Layering

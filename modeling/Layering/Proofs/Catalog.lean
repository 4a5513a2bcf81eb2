import Layering.Archive
import Layering.Proofs.Lists
import Layering.Proofs.Results

namespace Layering

namespace Xml.Node

variable {n c : Node} {key : String}

def FirstChild (n : Node) (key : String) (c : Node) : Prop :=
  ∃ before after, n.children = before ++ c :: after ∧ c.isElement key ∧ ∀ b ∈ before, ¬ b.isElement key

theorem childElement?_eq_some_iff : n.childElement? key = some c ↔ n.FirstChild key c := by
  rw [childElement?, List.find?_eq_some_iff_append]
  constructor
  · rintro ⟨hc, before, after, hl, hb⟩
    exact ⟨before, after, hl, hc, by simpa using hb⟩
  · rintro ⟨before, after, hl, hc, hb⟩
    exact ⟨hc, before, after, hl, by simpa using hb⟩

theorem childElement?_eq_none_iff : n.childElement? key = none ↔ ∀ c ∈ n.children, ¬ c.isElement key :=
  List.find?_eq_none

theorem FirstChild.unique {c' : Node} (h : n.FirstChild key c) (h' : n.FirstChild key c') : c = c' :=
  Option.some.inj ((childElement?_eq_some_iff.mpr h).symm.trans (childElement?_eq_some_iff.mpr h'))

theorem FirstChild.mem (h : n.FirstChild key c) : c ∈ n.children ∧ c.isElement key := by
  obtain ⟨before, after, hl, hc, -⟩ := h
  exact ⟨by simp [hl], hc⟩

end Xml.Node

namespace Catalog

open Xml

def Names (element : Node) (s : Symbol) : Prop := ∃ id, element.attribute? "id" = some id ∧ Symbol.parse id = .ok s

inductive Unnamed (script key : String) (element : Node) : Failure → Prop
  | missing : element.attribute? "id" = none → Unnamed script key element ⟨[], .missingId key script⟩
  | malformed {id : String} {e : SymbolError} : element.attribute? "id" = some id → Symbol.parse id = .error e →
      Unnamed script key element ⟨[s!"invalid symbol in catalog: {e.message}"], .symbol e⟩

/-- What a `script` element tells: the symbol of its first `def`, and those of every `dep`, wherever it stands. -/
structure Tells (element : Node) (s : Script) : Prop where
  definition : ∃ d, element.FirstChild "def" d ∧ Names d s.definition
  dependencies : List.Forall₂ Names (element.children.filter (·.isElement "dep")) s.dependencies

structure Accepted (element : Node) : Prop where
  definition : ∃ d, element.FirstChild "def" d ∧ ∃ s, Names d s
  dependencies : ∀ c ∈ element.children, c.isElement "dep" → ∃ s, Names c s

/-- The `script` elements of every `library`, in the order of the document, less those without any content. -/
def scriptsIn (parent : Node) : List Node :=
  (parent.children.filter (·.isElement "library")).flatMap fun library =>
    library.children.filter fun c => c.isElement "script" && !c.children.isEmpty

/-- Why a `script` element is refused: its definition comes first, then each `dep`. -/
inductive Refused (element : Node) : Failure → Prop
  | undefined : (∀ c ∈ element.children, ¬ c.isElement "def") →
      Refused element ⟨[], .missingDefinition (scriptName element)⟩
  | definition {d : Node} {f : Failure} : element.FirstChild "def" d → Unnamed (scriptName element) "def" d f →
      Refused element f
  | dependency {d c : Node} {s : Symbol} {before after : List Node} {f : Failure} :
      element.FirstChild "def" d → Names d s →
      element.children.filter (·.isElement "dep") = before ++ c :: after → (∀ b ∈ before, ∃ s, Names b s) →
      Unnamed (scriptName element) "dep" c f → Refused element f

variable {root parent element : Node} {script key text : String} {s : Symbol} {f : Failure}

theorem symbolOf_eq_ok : symbolOf script key element = .ok s ↔ Names element s := by
  rw [symbolOf, Names]
  cases element.attribute? "id" with
  | none => simp
  | some id => simp [Except.mapError_eq_ok]

theorem symbolOf_eq_error : symbolOf script key element = .error f ↔ Unnamed script key element f := by
  rw [symbolOf]
  constructor
  · intro h
    cases hid : element.attribute? "id" with
    | none =>
        rw [hid] at h
        exact Except.error.inj h ▸ .missing hid
    | some id =>
        rw [hid] at h
        obtain ⟨e, he, rfl⟩ := Except.mapError_eq_error.mp h
        exact .malformed hid he
  · rintro (hid | ⟨hid, he⟩)
    · rw [hid]
    · rw [hid]
      exact Except.mapError_eq_error.mpr ⟨_, he, rfl⟩

theorem scriptOf_eq_ok {script : Script} : scriptOf element = .ok script ↔ Tells element script := by
  rw [scriptOf]
  cases hd : element.childElement? "def" with
  | none =>
      refine ⟨nofun, fun h => ?_⟩
      obtain ⟨d, hfirst, -⟩ := h.definition
      cases hd.symm.trans (Node.childElement?_eq_some_iff.mpr hfirst)
  | some d =>
      have hfirst := Node.childElement?_eq_some_iff.mp hd
      simp only [Except.bind_eq_ok, Except.pure_eq_ok, Except.mapM_eq_ok, symbolOf_eq_ok]
      constructor
      · rintro ⟨s, hs, ds, hds, rfl⟩
        exact ⟨⟨d, hfirst, hs⟩, hds⟩
      · rintro ⟨⟨d', hfirst', hs⟩, hds⟩
        obtain rfl := hfirst.unique hfirst'
        exact ⟨_, hs, _, hds, rfl⟩

theorem scriptOf_eq_error : scriptOf element = .error f ↔ Refused element f := by
  rw [scriptOf]
  cases hd : element.childElement? "def" with
  | none =>
      have hnone := Node.childElement?_eq_none_iff.mp hd
      constructor
      · intro h
        exact Except.error.inj h ▸ .undefined hnone
      · rintro (- | ⟨hfirst, -⟩ | ⟨hfirst, -, -, -, -⟩)
        · rfl
        · exact absurd hfirst.mem.2 (hnone _ hfirst.mem.1)
        · exact absurd hfirst.mem.2 (hnone _ hfirst.mem.1)
  | some d =>
      have hfirst := Node.childElement?_eq_some_iff.mp hd
      have hpure : ∀ s : Script, (pure s : Except Failure Script) ≠ .error f := nofun
      simp only [Except.bind_eq_error, Except.mapM_eq_error, symbolOf_eq_ok, symbolOf_eq_error, hpure, and_false,
        exists_false, or_false]
      constructor
      · rintro (hf | ⟨s, hs, before, c, after, hl, hb, hf⟩)
        · exact .definition hfirst hf
        · exact .dependency hfirst hs hl hb hf
      · rintro (hnone | ⟨hfirst', hf⟩ | ⟨hfirst', hs, hl, hb, hf⟩)
        · exact absurd hfirst.mem.2 (hnone _ hfirst.mem.1)
        · obtain rfl := hfirst.unique hfirst'
          exact .inl hf
        · obtain rfl := hfirst.unique hfirst'
          exact .inr ⟨_, hs, _, _, _, hl, hb, hf⟩

theorem exists_tells_iff : (∃ script, Tells element script) ↔ Accepted element := by
  constructor
  · rintro ⟨script, ⟨d, hfirst, hs⟩, hds⟩
    refine ⟨⟨d, hfirst, _, hs⟩, fun c hc hdep => ?_⟩
    exact List.exists_forall₂_iff.mp ⟨_, hds⟩ c (List.mem_filter.mpr ⟨hc, hdep⟩)
  · rintro ⟨⟨d, hfirst, s, hs⟩, hdeps⟩
    have hnamed : ∀ c ∈ element.children.filter (·.isElement "dep"), ∃ s, Names c s := by
      intro c hc
      obtain ⟨hc, hdep⟩ := List.mem_filter.mp hc
      exact hdeps c hc hdep
    obtain ⟨ds, hds⟩ := List.exists_forall₂_iff.mpr hnamed
    exact ⟨⟨s, ds⟩, ⟨d, hfirst, hs⟩, hds⟩

theorem Unnamed.cause_ne (h : Unnamed script key element f) : f.cause ≠ .noLibraries ∧ f.cause ≠ .malformedXml := by
  cases h <;> exact ⟨nofun, nofun⟩

theorem Refused.cause_ne (h : Refused element f) : f.cause ≠ .noLibraries ∧ f.cause ≠ .malformedXml := by
  cases h with
  | undefined => exact ⟨nofun, nofun⟩
  | definition _ hf => exact hf.cause_ne
  | dependency _ _ _ _ hf => exact hf.cause_ne

theorem libraries_of_first (hroot : root.isElement "swc") (hparent : root.FirstChild "libraries" parent) :
    libraries root = parent.children.filter (·.isElement "library") := by
  rw [libraries, if_pos hroot, Node.childElement?_eq_some_iff.mpr hparent]
  rfl

theorem libraries_eq_nil_iff : libraries root = [] ↔ ¬ root.isElement "swc" ∨
    (∀ c ∈ root.children, ¬ c.isElement "libraries") ∨
      ∃ parent, root.FirstChild "libraries" parent ∧ ∀ c ∈ parent.children, ¬ c.isElement "library" := by
  by_cases hroot : root.isElement "swc"
  · cases hl : root.childElement? "libraries" with
    | none =>
        have hnil : libraries root = [] := by simp [libraries, hroot, hl]
        exact iff_of_true hnil (.inr (.inl (Node.childElement?_eq_none_iff.mp hl)))
    | some parent =>
        have hparent := Node.childElement?_eq_some_iff.mp hl
        rw [libraries_of_first hroot hparent, List.filter_eq_nil_iff]
        constructor
        · exact fun h => .inr (.inr ⟨parent, hparent, h⟩)
        · rintro (h | h | ⟨other, hother, h⟩)
          · exact absurd hroot h
          · exact absurd hparent.mem.2 (h parent hparent.mem.1)
          · exact hparent.unique hother ▸ h
  · simp [libraries, hroot]

theorem scriptElements_libraries (hroot : root.isElement "swc") (hparent : root.FirstChild "libraries" parent) :
    scriptElements (libraries root) = scriptsIn parent := by
  rw [libraries_of_first hroot hparent, scriptElements, scriptsIn, List.filter_flatMap]
  simp only [Node.childElements, List.filter_filter, Bool.and_comm]

theorem ofXml_eq_ok {m : Model} (hl : libraries root ≠ []) : ofXml root = .ok m ↔
    ∃ scripts, List.Forall₂ Tells (scriptElements (libraries root)) scripts ∧ Script.model scripts = m := by
  rw [ofXml, if_neg (by simpa using hl)]
  simp only [Except.bind_eq_ok, Except.pure_eq_ok, Except.mapM_eq_ok, scriptOf_eq_ok]

theorem ofXml_eq_error (hl : libraries root ≠ []) : ofXml root = .error f ↔
    ∃ before s after, scriptElements (libraries root) = before ++ s :: after ∧ (∀ b ∈ before, Accepted b) ∧
      Refused s f := by
  have hpure : ∀ m : Model, (pure m : Except Failure Model) ≠ .error f := nofun
  rw [ofXml, if_neg (by simpa using hl)]
  simp only [Except.bind_eq_error, Except.mapM_eq_error, scriptOf_eq_ok, scriptOf_eq_error, exists_tells_iff, hpure,
    and_false, exists_false, or_false]

theorem ofXml_eq_noLibraries_iff : ofXml root = .error ⟨[], .noLibraries⟩ ↔ libraries root = [] := by
  constructor
  · intro h
    by_contra hl
    obtain ⟨-, s, -, -, -, hs⟩ := (ofXml_eq_error hl).mp h
    exact hs.cause_ne.1 rfl
  · intro hl
    rw [ofXml, hl]
    rfl

theorem ofXml_ne_malformedXml : ofXml root ≠ .error ⟨[], .malformedXml⟩ := by
  intro h
  by_cases hl : libraries root = []
  · rw [ofXml_eq_noLibraries_iff.mpr hl] at h
    cases h
  · obtain ⟨-, s, -, -, -, hs⟩ := (ofXml_eq_error hl).mp h
    exact hs.cause_ne.2 rfl

theorem parse_eq_malformedXml_iff : parse text = .error ⟨[], .malformedXml⟩ ↔ Xml.parse text = none := by
  rw [parse]
  cases Xml.parse text with
  | none => simp
  | some root => simpa using ofXml_ne_malformedXml

theorem parse_eq_ok {m : Model} : parse text = .ok m ↔ ∃ root, Xml.parse text = some root ∧ libraries root ≠ [] ∧
    ∃ scripts, List.Forall₂ Tells (scriptElements (libraries root)) scripts ∧ Script.model scripts = m := by
  rw [parse]
  cases Xml.parse text with
  | none => simp
  | some root =>
      by_cases hl : libraries root = []
      · simp [ofXml_eq_noLibraries_iff.mpr hl, hl]
      · simp [ofXml_eq_ok hl, hl]

theorem reachable_of_parse {m : Model} (h : parse text = .ok m) : Reachable m := by
  obtain ⟨-, -, -, scripts, -, rfl⟩ := parse_eq_ok.mp h
  exact ⟨_, rfl⟩

/-- A text that is no document is malformed. A document has no libraries unless it is an `swc` with some `library` in its
first `libraries`. Otherwise it is read just if all its scripts are accepted, and the model is that of their definitions
and dependencies, step by step; else the first script that is not accepted is refused for the first thing wrong with it. -/
theorem parse_tells_scripts :
    (∀ text, parse text = .error ⟨[], .malformedXml⟩ ↔ Xml.parse text = none) ∧
    (∀ text root, Xml.parse text = some root → parse text = ofXml root) ∧
    (∀ root, ofXml root = .error ⟨[], .noLibraries⟩ ↔ ¬ root.isElement "swc" ∨
      (∀ c ∈ root.children, ¬ c.isElement "libraries") ∨
        ∃ parent, root.FirstChild "libraries" parent ∧ ∀ c ∈ parent.children, ¬ c.isElement "library") ∧
    ∀ root parent, root.isElement "swc" → root.FirstChild "libraries" parent →
      (∃ c ∈ parent.children, c.isElement "library") →
      ((∃ m, ofXml root = .ok m) ↔ ∀ s ∈ scriptsIn parent, Accepted s) ∧
      (∀ m, ofXml root = .ok m ↔ ∃ scripts, List.Forall₂ Tells (scriptsIn parent) scripts ∧
        m = Model.empty.replay (scripts.flatMap fun s =>
          .define s.definition :: s.dependencies.map (.addDependency s.definition.package))) ∧
      ∀ f, ofXml root = .error f ↔ ∃ before s after, scriptsIn parent = before ++ s :: after ∧
        (∀ b ∈ before, Accepted b) ∧ Refused s f := by
  refine ⟨fun text => parse_eq_malformedXml_iff, fun text root h => by rw [parse, h],
    fun root => ofXml_eq_noLibraries_iff.trans libraries_eq_nil_iff, ?_⟩
  intro root parent hroot hparent ⟨c, hc, hlibrary⟩
  have hscripts := scriptElements_libraries hroot hparent
  have hl : libraries root ≠ [] := by
    rw [libraries_of_first hroot hparent]
    exact List.ne_nil_of_mem (List.mem_filter.mpr ⟨hc, hlibrary⟩)
  have hok : ∀ m, ofXml root = .ok m ↔ ∃ scripts, List.Forall₂ Tells (scriptsIn parent) scripts ∧
      Script.model scripts = m := by
    intro m
    rw [ofXml_eq_ok hl, hscripts]
  refine ⟨?_, ?_, ?_⟩
  · simp only [hok, ← exists_tells_iff, ← List.exists_forall₂_iff]
    exact ⟨fun ⟨_, scripts, hs, _⟩ => ⟨scripts, hs⟩, fun ⟨scripts, hs⟩ => ⟨_, scripts, hs, rfl⟩⟩
  · intro m
    rw [hok]
    exact exists_congr fun scripts => and_congr_right fun _ => eq_comm
  · intro f
    rw [ofXml_eq_error hl, hscripts]

theorem parse_tells_scripts_late :
    let element (name : String) (ids : List String) (children : List Node) : Node :=
      .element ⟨some "catalog", name⟩ (ids.map fun id => ⟨⟨none, "id"⟩, id⟩) children
    let early := element "script" [] [element "dep" ["b:B"] [], .comment "swc", element "def" ["a:A"] [], element "def" [] []]
    let late := element "script" [] [element "def" ["a:B"] [], element "dep" [":B"] [], element "dep" [] []]
    let parent := element "libraries" [] [element "library" [] [early, element "script" [] []], .text " ",
      element "library" [] [late]]
    let root := element "swc" [] [parent]
    let e : SymbolError := .emptyPackage ":B"
    root.isElement "swc" ∧ root.FirstChild "libraries" parent ∧ (∃ c ∈ parent.children, c.isElement "library") ∧
      scriptsIn parent = [early, late] ∧ Accepted early ∧
      ofXml root = .error ⟨[s!"invalid symbol in catalog: {e.message}"], .symbol e⟩ := by
  intro element early late parent root e
  have hparent : root.FirstChild "libraries" parent := ⟨[], [], rfl, rfl, nofun⟩
  have hlibrary : ∃ c ∈ parent.children, c.isElement "library" := ⟨_, List.mem_cons_self, rfl⟩
  have hearly : Accepted early := by
    have hdef : early.FirstChild "def" (element "def" ["a:A"] []) :=
      ⟨[element "dep" ["b:B"] [], .comment "swc"], [element "def" [] []], rfl, rfl, by simp [element, Node.isElement]⟩
    have hdeps : early.children.filter (·.isElement "dep") = [element "dep" ["b:B"] []] := rfl
    refine ⟨⟨_, hdef, ⟨"a", "A", by decide⟩, "a:A", rfl, rfl⟩, fun c hc hdep => ?_⟩
    have hmem : c ∈ early.children.filter (·.isElement "dep") := List.mem_filter.mpr ⟨hc, hdep⟩
    obtain rfl := List.mem_singleton.mp (hdeps ▸ hmem)
    exact ⟨⟨"b", "B", by decide⟩, "b:B", rfl, rfl⟩
  have hlate : Refused late ⟨[s!"invalid symbol in catalog: {e.message}"], .symbol e⟩ := by
    have hdef : late.FirstChild "def" (element "def" ["a:B"] []) := ⟨[], _, rfl, rfl, nofun⟩
    have hname : Names (element "def" ["a:B"] []) ⟨"a", "B", by decide⟩ := ⟨"a:B", rfl, rfl⟩
    have hdeps : late.children.filter (·.isElement "dep") = [] ++ element "dep" [":B"] [] :: [element "dep" [] []] := rfl
    have hid : (element "dep" [":B"] []).attribute? "id" = some ":B" := rfl
    exact .dependency hdef hname hdeps nofun (.malformed hid rfl)
  refine ⟨rfl, hparent, hlibrary, rfl, hearly, ?_⟩
  exact ((parse_tells_scripts.2.2.2 root parent rfl hparent hlibrary).2.2 _).mpr
    ⟨[early], late, [], rfl, by simpa using hearly, hlate⟩

end Catalog

end Layering

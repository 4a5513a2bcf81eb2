import Layering.Catalog.Writer
import Layering.Proofs.Catalog
import Layering.Proofs.Xml.Layout

namespace Layering.Catalog

open Xml

/-- The element of a single id; it is a line of the text, as every tag of a catalog is. -/
def idLayout (key : String) (others : List (String × String)) (id : String) : Layout :=
  ⟨"\n        ", key, none, ("id", id) :: others, [], ""⟩

def scriptLayout (definition : String) (dependencies : List String) : Layout :=
  ⟨"\n      ", "script", none, [("name", pathOf definition), ("mod", "1300000000000")],
    idLayout "def" [] definition :: dependencies.map (idLayout "dep" [("type", "i")]), "\n      "⟩

def libraryLayout (scripts : List (String × List String)) : Layout :=
  ⟨"\n    ", "library", none, [("path", "library.swf")], scripts.map fun s => scriptLayout s.1 s.2, "\n    "⟩

def librariesLayout (scripts : List (String × List String)) : Layout :=
  ⟨"\n  ", "libraries", none, [], [libraryLayout scripts], "\n  "⟩

def catalogLayout (scripts : List (String × List String)) : Layout :=
  ⟨"\n", "swc", some "http://www.adobe.com/flash/swccatalog/9", [], [librariesLayout scripts], "\n"⟩

/-- Lines with their ends, and the same lines each after the end of the one before. -/
def Shifted (lines : String) (stretches : List Char) : Prop := '\n' :: lines.toList = stretches ++ ['\n']

variable {lines lines' : String} {stretches stretches' : List Char} {scripts : List (String × List String)}

theorem Shifted.append (h : Shifted lines stretches) (h' : Shifted lines' stretches') :
    Shifted (lines ++ lines') (stretches ++ stretches') := by
  rw [Shifted] at h h' ⊢
  calc '\n' :: (lines ++ lines').toList = (stretches ++ ['\n']) ++ lines'.toList := by
        rw [String.toList_append, ← List.cons_append, h]
    _ = stretches ++ (stretches' ++ ['\n']) := by rw [List.append_assoc, List.singleton_append, h']
    _ = stretches ++ stretches' ++ ['\n'] := by rw [List.append_assoc]

theorem Shifted.join {α : Type} {f : α → String} {g : α → List Char} (h : ∀ a, Shifted (f a) (g a)) (as : List α) :
    Shifted (.join (as.map f)) (as.flatMap g) := by
  induction as with
  | nil => rfl
  | cons a as ih =>
      rw [List.map_cons, String.join_cons]
      exact (h a).append ih

theorem Shifted.element {before name after first last : String} {space : Option String}
    {attributes : List (String × String)} {children : List Layout}
    (hfirst : Shifted first (before.toList ++ (LocalTag.start name (Layout.written space attributes) false).chars))
    (hlines : Shifted lines (children.flatMap Layout.chars))
    (hlast : Shifted last (after.toList ++ (LocalTag.stop name).chars)) (h : after ≠ "") :
    Shifted (first ++ lines ++ last) (Layout.chars ⟨before, name, space, attributes, children, after⟩) := by
  rw [Layout.chars_eq, if_neg fun he => h he.2]
  simpa using (hfirst.append hlines).append hlast

theorem shifted_definition (id : String) :
    Shifted s!"        <def id=\"{id}\" />\n" (idLayout "def" [] id).chars := by
  rw [Layout.chars_eq]
  simp [Shifted, toString, idLayout, Layout.written, LocalTag.chars, LocalTag.attributeChars]

theorem shifted_dependency (id : String) : Shifted (writeDependency id) (idLayout "dep" [("type", "i")] id).chars := by
  unfold writeDependency
  rw [Layout.chars_eq]
  simp [Shifted, toString, idLayout, Layout.written, LocalTag.chars, LocalTag.attributeChars]

theorem shifted_script (definition : String) (dependencies : List String) :
    Shifted (writeScript definition dependencies) (scriptLayout definition dependencies).chars := by
  have hlines : Shifted (s!"        <def id=\"{definition}\" />\n" ++ .join (dependencies.map writeDependency))
      ((scriptLayout definition dependencies).children.flatMap Layout.chars) := by
    rw [scriptLayout, List.flatMap_cons, List.flatMap_map]
    exact (shifted_definition definition).append (Shifted.join shifted_dependency dependencies)
  have hwrite : writeScript definition dependencies =
      s!"      <script name=\"{pathOf definition}\" mod=\"1300000000000\">\n" ++
        (s!"        <def id=\"{definition}\" />\n" ++ .join (dependencies.map writeDependency)) ++
        "      </script>\n" := by
    unfold writeScript
    simp only [String.append_assoc]
  rw [hwrite]
  refine Shifted.element ?_ hlines ?_ (by decide)
  · simp [Shifted, toString, Layout.written, LocalTag.chars, LocalTag.attributeChars]
  · simp [Shifted, LocalTag.chars]

theorem shifted_library (scripts : List (String × List String)) :
    Shifted ("    <library path=\"library.swf\">\n" ++ .join (scripts.map fun s => writeScript s.1 s.2) ++
      "    </library>\n") (libraryLayout scripts).chars := by
  have hlines : Shifted (.join (scripts.map fun s => writeScript s.1 s.2))
      ((libraryLayout scripts).children.flatMap Layout.chars) := by
    have hscripts := Shifted.join (fun s : String × List String => shifted_script s.1 s.2) scripts
    rw [libraryLayout, List.flatMap_map]
    exact hscripts
  refine Shifted.element ?_ hlines ?_ (by decide)
  · simp [Shifted, Layout.written, LocalTag.chars, LocalTag.attributeChars]
  · simp [Shifted, LocalTag.chars]

theorem shifted_libraries (scripts : List (String × List String)) :
    Shifted ("  <libraries>\n" ++ ("    <library path=\"library.swf\">\n" ++
      .join (scripts.map fun s => writeScript s.1 s.2) ++ "    </library>\n") ++ "  </libraries>\n")
      (librariesLayout scripts).chars := by
  have hlines := shifted_library scripts
  rw [← List.flatMap_singleton Layout.chars] at hlines
  refine Shifted.element ?_ hlines ?_ (by decide)
  · simp [Shifted, Layout.written, LocalTag.chars]
  · simp [Shifted, LocalTag.chars]

theorem toList_write (scripts : List (String × List String)) :
    (write scripts).toList = Document.declaration ++ ((catalogLayout scripts).chars ++ ['\n']) := by
  have hlines := shifted_libraries scripts
  rw [← List.flatMap_singleton Layout.chars] at hlines
  have hcatalog : Shifted ("<swc xmlns=\"http://www.adobe.com/flash/swccatalog/9\">\n" ++ _ ++ "</swc>\n")
      (catalogLayout scripts).chars :=
    Shifted.element (by simp [Shifted, Layout.written, LocalTag.chars, LocalTag.attributeChars]) hlines
      (by simp [Shifted, LocalTag.chars]) (by decide)
  have hfirst : "<?xml version=\"1.0\" encoding=\"utf-8\"?>\n".toList = Document.declaration ++ ['\n'] := by
    unfold Document.declaration
    simp
  unfold Shifted at hcatalog
  rw [← hcatalog, ← List.singleton_append, ← List.append_assoc, ← hfirst, ← String.toList_append]
  unfold write
  simp only [String.append_assoc]

theorem isLiteral_pathOf {id : String} (h : IsLiteral id) : IsLiteral (pathOf id) := by
  intro c hc
  rw [pathOf, String.toList_map] at hc
  obtain ⟨d, hd, rfl⟩ := List.mem_map.mp hc
  split
  · decide
  · exact h d hd

theorem plain_idLayout {key id : String} {others : List (String × String)} (hkey : isLocalName key) (h : IsLiteral id)
    (hothers : ∀ a ∈ others, isLocalName a.1 ∧ a.1 ≠ "xmlns" ∧ IsLiteral a.2)
    (hkeys : ("id" :: others.map (·.1)).Nodup) : (idLayout key others id).Plain := by
  have hgaps : IsText "\n        " ∧ IsText "" := by decide
  have hid : isLocalName "id" ∧ "id" ≠ "xmlns" := by decide
  exact .mk hgaps.1 hgaps.2 hkey nofun (List.forall_mem_cons.mpr ⟨⟨hid.1, hid.2, h⟩, hothers⟩) hkeys nofun

theorem plain_scriptLayout {definition : String} {dependencies : List String}
    (h : ∀ id ∈ definition :: dependencies, IsLiteral id) : (scriptLayout definition dependencies).Plain := by
  obtain ⟨hdefinition, hdependencies⟩ := List.forall_mem_cons.mp h
  have hgap : IsText "\n      " := by decide
  have hkeys : isLocalName "script" ∧ ["name", "mod"].Nodup := by decide
  have hname : isLocalName "name" ∧ "name" ≠ "xmlns" := by decide
  have hmod : isLocalName "mod" ∧ "mod" ≠ "xmlns" ∧ IsLiteral "1300000000000" := by decide
  have htype : isLocalName "type" ∧ "type" ≠ "xmlns" ∧ IsLiteral "i" := by decide
  refine .mk hgap hgap hkeys.1 nofun ?_ hkeys.2 ?_
  · exact List.forall_mem_cons.mpr
      ⟨⟨hname.1, hname.2, isLiteral_pathOf hdefinition⟩, List.forall_mem_singleton.mpr hmod⟩
  · refine List.forall_mem_cons.mpr ⟨plain_idLayout (by decide) hdefinition nofun (by decide), fun c hc => ?_⟩
    obtain ⟨id, hid, rfl⟩ := List.mem_map.mp hc
    exact plain_idLayout (by decide) (hdependencies id hid) (List.forall_mem_singleton.mpr htype) (by decide)

theorem plain_libraryLayout (h : ∀ s ∈ scripts, ∀ id ∈ s.1 :: s.2, IsLiteral id) : (libraryLayout scripts).Plain := by
  have hgap : IsText "\n    " := by decide
  have hname : isLocalName "library" ∧ ["path"].Nodup := by decide
  have hpath : isLocalName "path" ∧ "path" ≠ "xmlns" ∧ IsLiteral "library.swf" := by decide
  refine .mk hgap hgap hname.1 nofun (List.forall_mem_singleton.mpr hpath) hname.2 fun c hc => ?_
  obtain ⟨s, hs, rfl⟩ := List.mem_map.mp hc
  exact plain_scriptLayout (h s hs)

theorem plain_catalogLayout (h : ∀ s ∈ scripts, ∀ id ∈ s.1 :: s.2, IsLiteral id) : (catalogLayout scripts).Plain := by
  have hgaps : IsText "\n  " ∧ IsText "\n" := by decide
  have hnames : isLocalName "libraries" ∧ isLocalName "swc" := by decide
  have hspace : IsLiteral "http://www.adobe.com/flash/swccatalog/9" ∧
      "http://www.adobe.com/flash/swccatalog/9" ≠ Document.xmlSpace ∧
      "http://www.adobe.com/flash/swccatalog/9" ≠ Document.xmlnsSpace := by decide
  have hlibraries : (librariesLayout scripts).Plain :=
    .mk hgaps.1 hgaps.1 hnames.1 nofun nofun List.nodup_nil (List.forall_mem_singleton.mpr (plain_libraryLayout h))
  refine .mk hgaps.2 hgaps.2 hnames.2 (fun s hs => ?_) nofun List.nodup_nil (List.forall_mem_singleton.mpr hlibraries)
  obtain rfl := Option.some.inj hs
  exact hspace

variable {definition id : String} {dependencies : List String} {inherited : Option String}

theorem firstChild_node {l c : Layout} {key : String} (h : l.children.find? (·.name == key) = some c) :
    (l.node inherited).FirstChild key (c.node (l.space.or inherited)) := by
  rw [← Node.childElement?_eq_some_iff, Node.childElement?, ← List.head?_filter, Layout.filter_isElement,
    List.head?_map, List.head?_filter, h]
  rfl

theorem names_idLayout {key : String} {others : List (String × String)} {s : Symbol} (h : Symbol.parse id = .ok s) :
    Names ((idLayout key others id).node inherited) s := by
  refine ⟨id, ?_, h⟩
  rw [Layout.attribute?_node]
  exact List.lookup_cons_self

structure Spells (s : String × List String) (script : Script) : Prop where
  definition : Symbol.parse s.1 = .ok script.definition
  dependencies : List.Forall₂ (fun id d => Symbol.parse id = .ok d) s.2 script.dependencies

theorem Spells.unique : Relator.RightUnique Spells := by
  rintro s ⟨definition, dependencies⟩ ⟨definition', dependencies'⟩ h h'
  obtain rfl := Except.ok.inj (h.definition.symm.trans h'.definition)
  obtain rfl := List.right_unique_forall₂' (fun _ _ _ hd hd' => Except.ok.inj (hd.symm.trans hd')) h.dependencies
    h'.dependencies
  rfl

theorem exists_spells_iff {s : String × List String} :
    (∃ script, Spells s script) ↔ ∀ id ∈ s.1 :: s.2, ∃ symbol, Symbol.parse id = .ok symbol := by
  rw [List.forall_mem_cons, ← List.exists_forall₂_iff]
  constructor
  · rintro ⟨script, h⟩
    exact ⟨⟨_, h.definition⟩, _, h.dependencies⟩
  · rintro ⟨⟨definition, hdefinition⟩, dependencies, hdependencies⟩
    exact ⟨⟨definition, dependencies⟩, hdefinition, hdependencies⟩

theorem Spells.tells {s : String × List String} {script : Script} (h : Spells s script) :
    Tells ((scriptLayout s.1 s.2).node inherited) script := by
  constructor
  · exact ⟨_, firstChild_node (c := idLayout "def" [] s.1) rfl, names_idLayout h.definition⟩
  · have hfilter : (scriptLayout s.1 s.2).children.filter (·.name == "dep") =
        s.2.map (idLayout "dep" [("type", "i")]) := by
      rw [scriptLayout, List.filter_cons_of_neg (by simp [idLayout]), List.filter_eq_self]
      simp [idLayout]
    rw [Layout.filter_isElement, hfilter, List.map_map, List.forall₂_map_left_iff]
    exact h.dependencies.imp fun _ _ hd => names_idLayout hd

theorem filter_libraries (scripts : List (String × List String)) :
    ((librariesLayout scripts).node inherited).children.filter (·.isElement "library") =
      [(libraryLayout scripts).node inherited] := by
  rw [Layout.filter_isElement]
  rfl

theorem scriptsIn_librariesLayout (scripts : List (String × List String)) :
    scriptsIn ((librariesLayout scripts).node inherited) =
      scripts.map fun s => (scriptLayout s.1 s.2).node inherited := by
  have hscript : ∀ s : String × List String, ((scriptLayout s.1 s.2).node inherited).isElement "script" &&
      !((scriptLayout s.1 s.2).node inherited).children.isEmpty := by
    intro s
    rw [Layout.isElement_node, Layout.children_node]
    simp [scriptLayout, Layout.nodes]
  rw [scriptsIn, filter_libraries, List.flatMap_singleton, Layout.filter_children fun _ => rfl, libraryLayout,
    List.map_map, List.filter_eq_self.mpr]
  · rfl
  · intro n hn
    obtain ⟨s, -, rfl⟩ := List.mem_map.mp hn
    exact hscript s

theorem parse_xml_write (h : ∀ s ∈ scripts, ∀ id ∈ s.1 :: s.2, IsLiteral id) :
    Xml.parse (write scripts) = some ((catalogLayout scripts).node none) := by
  have hafter : IsText "\n" := by decide
  have hblank : ("\n".toList ++ "\n".toList).all isSpace := by decide
  have hparse := (plain_catalogLayout h).parse_document hafter (List.all_eq_true.mp hblank)
  rw [show "\n".toList = ['\n'] from rfl, ← toList_write, String.ofList_toList] at hparse
  exact hparse

/-- A catalog of ids that name symbols and can stand in the text as they are reads back as the model of its scripts: each
defines its symbol and then adds the others to its package, in turn. -/
theorem parse_write (hliteral : ∀ s ∈ scripts, ∀ id ∈ s.1 :: s.2, IsLiteral id)
    (hsymbol : ∀ s ∈ scripts, ∀ id ∈ s.1 :: s.2, ∃ symbol, Symbol.parse id = .ok symbol) :
    ∃ read : List Script, List.Forall₂ Spells scripts read ∧
      parse (write scripts) = .ok (Model.empty.replay
        (read.flatMap fun s => .define s.definition :: s.dependencies.map (.addDependency s.definition.package))) := by
  obtain ⟨read, hread⟩ := List.exists_forall₂_iff.mpr fun s hs => exists_spells_iff.mpr (hsymbol s hs)
  have hroot : ((catalogLayout scripts).node none).isElement "swc" := by
    rw [Layout.isElement_node]
    rfl
  have hparent : ((catalogLayout scripts).node none).FirstChild "libraries" ((librariesLayout scripts).node _) :=
    firstChild_node rfl
  have hlibraries : libraries ((catalogLayout scripts).node none) ≠ [] := by
    rw [libraries_of_first hroot hparent, filter_libraries]
    exact List.cons_ne_nil _ _
  have htells : List.Forall₂ Tells (scriptElements (libraries ((catalogLayout scripts).node none))) read := by
    rw [scriptElements_libraries hroot hparent, scriptsIn_librariesLayout, List.forall₂_map_left_iff]
    exact hread.imp fun _ _ h => h.tells
  refine ⟨read, hread, ?_⟩
  rw [parse, parse_xml_write hliteral]
  exact (ofXml_eq_ok hlibraries).mpr ⟨read, htells, rfl⟩

theorem parse_write_repeated :
    let x : Symbol := ⟨"com.a", "X", by decide⟩
    let y : Symbol := ⟨"下.b", "Y>", by decide⟩
    let z : Symbol := ⟨"default", "Z", by decide⟩
    let scripts := [("com.a:X", ["下.b:Y>", "下.b:Y>", "Z"]), ("下.b:Y>", ["com.a:X"]), ("下.b:Y>", [])]
    (∀ s ∈ scripts, ∀ id ∈ s.1 :: s.2, IsLiteral id) ∧
    (∀ s ∈ scripts, ∀ id ∈ s.1 :: s.2, ∃ symbol, Symbol.parse id = .ok symbol) ∧
    parse (write scripts) =
      .ok ⟨[⟨"com.a", [x], [y, y, z]⟩, ⟨"下.b", [y], [x]⟩], [("下.b", 1), ("com.a", 0)]⟩ ∧
    parse (write []) = .ok .empty := by
  intro x y z scripts
  have hspells : List.Forall₂ Spells scripts [⟨x, [y, y, z]⟩, ⟨y, [x]⟩, ⟨y, []⟩] :=
    .cons ⟨rfl, .cons rfl (.cons rfl (.cons rfl .nil))⟩ (.cons ⟨rfl, .cons rfl .nil⟩ (.cons ⟨rfl, .nil⟩ .nil))
  have hliteral : ∀ s ∈ scripts, ∀ id ∈ s.1 :: s.2, IsLiteral id := by decide
  have hsymbol : ∀ s ∈ scripts, ∀ id ∈ s.1 :: s.2, ∃ symbol, Symbol.parse id = .ok symbol := fun s hs =>
    exists_spells_iff.mp (List.exists_forall₂_iff.mp ⟨_, hspells⟩ s hs)
  obtain ⟨read, hread, hparse⟩ := parse_write hliteral hsymbol
  obtain rfl := List.right_unique_forall₂' Spells.unique hspells hread
  have hmodel : Model.empty.replay ([(⟨x, [y, y, z]⟩ : Script), ⟨y, [x]⟩, ⟨y, []⟩].flatMap fun s =>
      .define s.definition :: s.dependencies.map (.addDependency s.definition.package)) =
      ⟨[⟨"com.a", [x], [y, y, z]⟩, ⟨"下.b", [y], [x]⟩], [("下.b", 1), ("com.a", 0)]⟩ := by
    decide
  rw [hmodel] at hparse
  have hnone : ∀ s ∈ ([] : List (String × List String)), ∀ id ∈ s.1 :: s.2, IsLiteral id := nofun
  obtain ⟨_, hnil, hempty⟩ := parse_write hnone nofun
  cases hnil
  exact ⟨hliteral, hsymbol, hparse, hempty⟩

end Layering.Catalog

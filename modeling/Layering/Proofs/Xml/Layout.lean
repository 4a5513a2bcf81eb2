import Layering.Proofs.Lists
import Layering.Proofs.Xml.Tag
import Layering.Xml.Document

namespace Layering.Xml

/-- An element with the text before it, the default namespace that it declares, and the text before its end. Without any
content it is a single tag. -/
structure Layout where
  before : String
  name : String
  space : Option String
  attributes : List (String × String)
  children : List Layout
  after : String

def Node.ofText (text : String) : List Node := if text = "" then [] else [.text text]

@[simp]
theorem Node.reverse_ofText (text : String) : (ofText text).reverse = ofText text := by
  unfold ofText
  split <;> rfl

def Attribute.bare (a : String × String) : Attribute := ⟨⟨none, a.1⟩, a.2⟩

namespace Layout

def written (space : Option String) (attributes : List (String × String)) : List (String × String) :=
  space.toList.map ("xmlns", ·) ++ attributes

mutual

def tags : Layout → List (String × LocalTag)
  | ⟨before, name, space, attributes, children, after⟩ =>
    if children.isEmpty ∧ after = "" then [(before, .start name (written space attributes) true)]
    else (before, .start name (written space attributes) false) :: (tagsOf children ++ [(after, .stop name)])

def tagsOf : List Layout → List (String × LocalTag)
  | [] => []
  | l :: ls => tags l ++ tagsOf ls

end

mutual

/-- The element that is meant, where the default namespace is `inherited`. -/
def node (inherited : Option String) : Layout → Node
  | ⟨_, name, space, attributes, children, after⟩ =>
    .element ⟨space.or inherited, name⟩ (attributes.map Attribute.bare)
      (nodes (space.or inherited) children ++ Node.ofText after)

def nodes (inherited : Option String) : List Layout → List Node
  | [] => []
  | l :: ls => Node.ofText l.before ++ node inherited l :: nodes inherited ls

end

inductive Plain : Layout → Prop
  | mk {l : Layout} (hbefore : IsText l.before) (hafter : IsText l.after) (hname : isLocalName l.name)
      (hspace : ∀ s ∈ l.space, IsLiteral s ∧ s ≠ Document.xmlSpace ∧ s ≠ Document.xmlnsSpace)
      (hattributes : ∀ a ∈ l.attributes, isLocalName a.1 ∧ a.1 ≠ "xmlns" ∧ IsLiteral a.2)
      (hkeys : (l.attributes.map (·.1)).Nodup) (hchildren : ∀ c ∈ l.children, Plain c) : Plain l

variable {l : Layout} {ls : List Layout}

theorem tagsOf_eq_flatMap (ls : List Layout) : tagsOf ls = ls.flatMap tags := by
  induction ls with
  | nil => rfl
  | cons l ls ih => rw [tagsOf, ih, List.flatMap_cons]

theorem tags_eq (l : Layout) : l.tags =
    if l.children.isEmpty ∧ l.after = "" then [(l.before, .start l.name (written l.space l.attributes) true)]
    else (l.before, .start l.name (written l.space l.attributes) false) ::
      (l.children.flatMap tags ++ [(l.after, .stop l.name)]) := by
  cases l
  rw [tags, tagsOf_eq_flatMap]

theorem Plain.tags (h : l.Plain) : ∀ t ∈ l.tags, IsText t.1 ∧ t.2.Plain := by
  induction h with
  | @mk l hbefore hafter hname hspace hattributes _ _ ih =>
      have hwritten : ∀ a ∈ written l.space l.attributes, isLocalName a.1 ∧ IsLiteral a.2 := by
        intro a ha
        rcases List.mem_append.mp ha with ha | ha
        · obtain ⟨s, hs, rfl⟩ := List.mem_map.mp ha
          exact ⟨(by decide : isLocalName "xmlns"), (hspace s (by simpa using hs)).1⟩
        · exact ⟨(hattributes a ha).1, (hattributes a ha).2.2⟩
      intro t ht
      rw [tags_eq] at ht
      split at ht
      · obtain rfl := List.mem_singleton.mp ht
        exact ⟨hbefore, hname, hwritten⟩
      · rcases List.mem_cons.mp ht with rfl | ht
        · exact ⟨hbefore, hname, hwritten⟩
        · rcases List.mem_append.mp ht with ht | ht
          · obtain ⟨c, hc, ht⟩ := List.mem_flatMap.mp ht
            exact ih c hc t ht
          · obtain rfl := List.mem_singleton.mp ht
            exact ⟨hafter, hname⟩

end Layout

def Layout.opened (l : Layout) (spaces : Document.Spaces) : Document.Open :=
  ⟨⟨"", l.name⟩, ⟨(l.space.toList.map ("", ·) ++ spaces).lookup "", l.name⟩, l.attributes.map Attribute.bare,
    l.space.toList.map ("", ·) ++ spaces, []⟩

def Document.State.spaces (s : State) : Spaces := (s.stack.head?.map (·.spaces)).getD []

namespace Document

open Layout (written)

variable {attributes : List (String × String)} {space : Option String}

theorem foldlM_addAttribute (spaces : Spaces) (as : List Attribute)
    (h : ((as ++ attributes.map Attribute.bare).map (·.name)).Nodup) :
    (attributes.map fun a => ((⟨"", a.1⟩ : Written), a.2)).foldlM (addAttribute spaces) as =
      some (as ++ attributes.map Attribute.bare) := by
  induction attributes generalizing as with
  | nil => simp
  | cons b bs ih =>
      have hnew : ∀ a ∈ as, a.name ≠ ⟨none, b.1⟩ := by
        rw [List.map_append, List.nodup_append] at h
        exact fun a ha => h.2.2 _ (List.mem_map_of_mem ha) _ (List.mem_map_of_mem List.mem_cons_self)
      have hadd : addAttribute spaces as (⟨"", b.1⟩, b.2) = some (as ++ [.bare b]) := by
        simp [addAttribute, attributeName, eq_true hnew, Attribute.bare]
      have htail := ih (as ++ [.bare b]) (by simpa using h)
      rw [List.map_cons, List.foldlM_cons, hadd]
      simpa using htail

theorem mapM_decode (h : ∀ a ∈ attributes, IsLiteral a.2) :
    (attributes.map fun a => ((⟨"", a.1⟩ : Written), a.2.toList)).mapM
        (fun a => (Reference.decode true a.2).map (a.1, ·)) =
      some (attributes.map fun a => (⟨"", a.1⟩, a.2)) := by
  induction attributes with
  | nil => rfl
  | cons a as ih =>
      obtain ⟨ha, has⟩ := List.forall_mem_cons.mp h
      simp [ha.decode, ih has]

theorem partition_written (h : ∀ a ∈ attributes, a.1 ≠ "xmlns") :
    ((written space attributes).map fun a => ((⟨"", a.1⟩ : Written), a.2)).partition (isDeclaration ·.1) =
      (space.toList.map (⟨"", "xmlns"⟩, ·), attributes.map fun a => (⟨"", a.1⟩, a.2)) := by
  have hspace : ∀ a ∈ space.toList.map fun s => ((⟨"", "xmlns"⟩ : Written), s), isDeclaration a.1 := by
    simp [isDeclaration]
  have hothers : ∀ a ∈ attributes.map fun a => ((⟨"", a.1⟩ : Written), a.2), ¬ isDeclaration a.1 := by
    intro a ha
    obtain ⟨b, hb, rfl⟩ := List.mem_map.mp ha
    simpa [isDeclaration] using h b hb
  have hsplit : (written space attributes).map (fun a => ((⟨"", a.1⟩ : Written), a.2)) =
      space.toList.map (fun s => ((⟨"", "xmlns"⟩ : Written), s)) ++ attributes.map fun a => (⟨"", a.1⟩, a.2) := by
    simp [written]
  rw [List.partition_eq_filter_filter, hsplit, List.filter_append, List.filter_append, List.filter_eq_self.mpr hspace,
    List.filter_eq_nil_iff.mpr hothers, List.append_nil, List.filter_eq_nil_iff.mpr (by simpa using hspace),
    List.filter_eq_self.mpr (by simpa using hothers), List.nil_append]

theorem openTag_written {l : Layout} (spaces : Spaces)
    (hspace : ∀ s ∈ l.space, IsLiteral s ∧ s ≠ xmlSpace ∧ s ≠ xmlnsSpace)
    (hattributes : ∀ a ∈ l.attributes, isLocalName a.1 ∧ a.1 ≠ "xmlns" ∧ IsLiteral a.2)
    (hkeys : (l.attributes.map (·.1)).Nodup) :
    openTag spaces ⟨"", l.name⟩ ((written l.space l.attributes).map fun a => (⟨"", a.1⟩, a.2.toList)) =
      some (l.opened spaces) := by
  have hliteral : ∀ a ∈ written l.space l.attributes, IsLiteral a.2 := by
    intro a ha
    rcases List.mem_append.mp ha with ha | ha
    · obtain ⟨s, hs, rfl⟩ := List.mem_map.mp ha
      exact (hspace s (by simpa using hs)).1
    · exact (hattributes a ha).2.2
  have hdeclared : (l.space.toList.map fun s => ((⟨"", "xmlns"⟩ : Written), s)).foldlM
      (fun declared d => declare declared d.1 d.2) [] = some (l.space.toList.map ("", ·)) := by
    cases hl : l.space with
    | none => rfl
    | some s => simp [declare, hspace s hl]
  have hnames : ((l.attributes.map Attribute.bare).map (·.name)).Nodup := by
    have hmap := hkeys.map (f := fun key => (⟨none, key⟩ : Name)) fun _ _ he => (Name.mk.inj he).2
    simpa [Function.comp_def, Attribute.bare] using hmap
  have hbare := foldlM_addAttribute (l.space.toList.map ("", ·) ++ spaces) [] hnames
  rw [openTag, mapM_decode hliteral]
  simp only [Option.bind_eq_bind, Option.bind_some, partition_written fun a ha => (hattributes a ha).2.1, hdeclared,
    hbare]
  simp [elementName, Layout.opened]

/-- No text stands last, so that the next one does not join it. -/
def Settled (children : List Node) : Prop := ∀ content, children.head? ≠ some (.text content)

@[simp]
theorem State.spaces_cons (o : Open) (stack : List Open) (root : Option Node) :
    State.spaces ⟨o :: stack, root⟩ = o.spaces := rfl

theorem step_start {s : State} {o : Open} {tag : Written} {raw : List (Written × List Char)}
    (h : openTag s.spaces tag raw = some o) (empty : Bool) :
    step s (.start tag raw empty) = if empty then deliver (close o) s else some { s with stack := o :: s.stack } := by
  rw [State.spaces] at h
  simp [step, h]

theorem foldlM_ofText {text : String} {o : Open} (h : IsText text) (ho : Settled o.children) (stack : List Open)
    (root : Option Node) : (Markup.ofText text).foldlM step ⟨o :: stack, root⟩ =
      some ⟨{ o with children := Node.ofText text ++ o.children } :: stack, root⟩ := by
  have hadd : addChild o.children (.text text) = .text text :: o.children := by
    unfold addChild
    split
    · next new hnew =>
        obtain rfl := Node.text.inj hnew
        split
        · next old rest hold => exact absurd (by rw [hold]; rfl) (ho old)
        · rfl
    · next hne => exact absurd rfl (hne text)
  by_cases ht : text = ""
  · simp [Markup.ofText, Node.ofText, ht]
  · simp [Markup.ofText, Node.ofText, ht, step, h.decode, deliver, hadd]

end Document

namespace Layout

open Document

def markup (l : Layout) : List Markup := l.tags.flatMap fun t => Markup.ofText t.1 ++ [t.2.markup]

/-- Once the text before it is read, an element is read as a whole, in the namespace that it stands in. -/
def Delivers (l : Layout) : Prop := ∀ s s', (Markup.ofText l.before).foldlM step s = some s' →
  l.markup.foldlM step s = deliver (l.node (s'.spaces.lookup "")) s'

variable {l : Layout} {ls : List Layout} {o : Open} {children : List Node} {inherited : Option String}

theorem markup_eq (l : Layout) : l.markup = Markup.ofText l.before ++
    if l.children.isEmpty ∧ l.after = "" then
      [.start ⟨"", l.name⟩ ((written l.space l.attributes).map fun a => (⟨"", a.1⟩, a.2.toList)) true]
    else .start ⟨"", l.name⟩ ((written l.space l.attributes).map fun a => (⟨"", a.1⟩, a.2.toList)) false ::
      (l.children.flatMap markup ++ (Markup.ofText l.after ++ [.stop ⟨"", l.name⟩])) := by
  rw [markup, tags_eq]
  split
  · simp [LocalTag.markup]
  · simp [LocalTag.markup, List.flatMap_assoc]
    rfl

theorem node_eq (inherited : Option String) (l : Layout) : l.node inherited =
    .element ⟨l.space.or inherited, l.name⟩ (l.attributes.map Attribute.bare)
      (nodes (l.space.or inherited) l.children ++ Node.ofText l.after) := by
  cases l
  rw [node]

@[simp]
theorem isElement_node (key : String) : (l.node inherited).isElement key = (l.name == key) := by
  rw [node_eq]
  rfl

theorem attribute?_node (key : String) : (l.node inherited).attribute? key = l.attributes.lookup key := by
  have hfind : ∀ as : List (String × String),
      ((as.map Attribute.bare).find? (·.name = ⟨none, key⟩)).map (·.value) = as.lookup key := by
    intro as
    induction as with
    | nil => rfl
    | cons a as ih =>
        obtain ⟨k, v⟩ := a
        rw [List.lookup_cons_eq_if, ← ih]
        by_cases hk : key = k
        · simp [Attribute.bare, hk]
        · simp [Attribute.bare, hk, Ne.symm hk]
  rw [node_eq]
  exact hfind l.attributes

theorem children_node : (l.node inherited).children =
    nodes (l.space.or inherited) l.children ++ Node.ofText l.after := by
  rw [node_eq]
  rfl

theorem filter_children {p : Node → Bool} (hp : ∀ text, p (.text text) = false) :
    (l.node inherited).children.filter p = (l.children.map (node (l.space.or inherited))).filter p := by
  have htext : ∀ text, (Node.ofText text).filter p = [] := by
    intro text
    unfold Node.ofText
    split
    · rfl
    · simp [hp]
  have hnodes : ∀ ls inherited, (nodes inherited ls).filter p = (ls.map (node inherited)).filter p := by
    intro ls inherited
    induction ls with
    | nil => rfl
    | cons l ls ih => simp [nodes, htext, ih, List.filter_cons]
  rw [children_node, List.filter_append, htext, hnodes, List.append_nil]

theorem filter_isElement (key : String) : (l.node inherited).children.filter (·.isElement key) =
    (l.children.filter (·.name == key)).map (node (l.space.or inherited)) := by
  rw [filter_children fun _ => rfl, List.filter_map]
  congr 2
  funext c
  exact isElement_node key

theorem Plain.before (h : l.Plain) : IsText l.before := by
  cases h
  assumption

theorem settled_node : Settled (l.node inherited :: children) := by
  rw [node_eq]
  exact nofun

theorem settled_nodes (h : Settled children) : Settled ((nodes inherited ls).reverse ++ children) := by
  induction ls generalizing children with
  | nil => exact h
  | cons l ls ih => simpa [nodes] using ih settled_node

theorem deliver_node (stack : List Open) (root : Option Node) : deliver (l.node inherited) ⟨o :: stack, root⟩ =
    some ⟨{ o with children := l.node inherited :: o.children } :: stack, root⟩ := by
  rw [node_eq]
  rfl

theorem deliver_root : deliver (l.node inherited) ⟨[], none⟩ = some ⟨[], some (l.node inherited)⟩ := by
  rw [node_eq]
  rfl

theorem foldlM_children (h : ∀ l ∈ ls, IsText l.before ∧ l.Delivers) (ho : Settled o.children) (stack : List Open)
    (root : Option Node) : (ls.flatMap markup).foldlM step ⟨o :: stack, root⟩ =
      some ⟨{ o with children := (nodes (o.spaces.lookup "") ls).reverse ++ o.children } :: stack, root⟩ := by
  induction ls generalizing o with
  | nil => rfl
  | cons l ls ih =>
      obtain ⟨⟨htext, hl⟩, htail⟩ := List.forall_mem_cons.mp h
      have hnode := hl _ _ (foldlM_ofText htext ho stack root)
      rw [deliver_node, State.spaces_cons] at hnode
      rw [List.flatMap_cons, List.foldlM_append, hnode]
      simpa [nodes] using ih (o := { o with children := _ :: (Node.ofText l.before ++ o.children) }) htail settled_node

theorem foldlM_content {text : String} (h : ∀ l ∈ ls, IsText l.before ∧ l.Delivers) (htext : IsText text)
    (ho : o.children = []) (stack : List Open) (root : Option Node) :
    (ls.flatMap markup ++ Markup.ofText text).foldlM step ⟨o :: stack, root⟩ =
      some ⟨{ o with children := Node.ofText text ++ (nodes (o.spaces.lookup "") ls).reverse } :: stack, root⟩ := by
  have hsettled : Settled o.children := ho ▸ nofun
  have hnil : Settled [] := nofun
  rw [List.foldlM_append, foldlM_children h hsettled, ho]
  simpa using foldlM_ofText (o := { o with children := _ }) htext (settled_nodes hnil) stack root

theorem lookup_opened (l : Layout) (spaces : Spaces) :
    (l.opened spaces).spaces.lookup "" = l.space.or (spaces.lookup "") := by
  cases hl : l.space <;> simp [opened, hl]

theorem close_opened (l : Layout) (spaces : Spaces) :
    close { l.opened spaces with
      children := Node.ofText l.after ++ (nodes ((l.opened spaces).spaces.lookup "") l.children).reverse } =
      l.node (spaces.lookup "") := by
  have hname : (l.opened spaces).name = ⟨(l.opened spaces).spaces.lookup "", l.name⟩ := rfl
  rw [node_eq, close, hname, lookup_opened]
  simp
  rfl

theorem Plain.delivers (h : l.Plain) : l.Delivers := by
  induction h with
  | @mk l hbefore hafter hname hspace hattributes hkeys hchildren ih =>
      intro s s' hs
      have hopen := openTag_written s'.spaces hspace hattributes hkeys
      rw [markup_eq, List.foldlM_append, hs]
      split
      · next hempty =>
          obtain ⟨hnil, hnone⟩ := hempty
          rw [List.isEmpty_iff] at hnil
          have hclose : close (l.opened s'.spaces) = l.node (s'.spaces.lookup "") := by
            rw [← close_opened, hnil, hnone]
            rfl
          simp [step_start hopen, hclose]
      · have hcontent := foldlM_content (o := l.opened s'.spaces)
          (fun c hc => ⟨(hchildren c hc).before, ih c hc⟩) hafter rfl s'.stack s'.root
        rw [← List.append_assoc, Option.bind_eq_bind, Option.bind_some, List.foldlM_cons, step_start hopen,
          if_neg Bool.false_ne_true, Option.bind_eq_bind, Option.bind_some, List.foldlM_append, hcontent,
          ← close_opened]
        simp [step, opened]

theorem foldlM_blank {text : String} (h : ∀ c ∈ text.toList, isSpace c) (root : Option Node) :
    (Markup.ofText text).foldlM step ⟨[], root⟩ = some ⟨[], root⟩ := by
  unfold Markup.ofText
  split
  · rfl
  · rw [List.foldlM_cons, step, if_pos ⟨rfl, List.all_eq_true.mpr h⟩]
    rfl

end Layout

namespace Document

def declaration : List Char := "<?xml version=\"1.0\" encoding=\"utf-8\"?>".toList

theorem skipDeclaration_declaration (rest : List Char) : skipDeclaration (declaration ++ rest) = some rest := by
  have hstart : after? (declaration ++ rest) ['<', '?', 'x', 'm', 'l', ' '] =
      some ("version=\"1.0\" encoding=\"utf-8\"?>".toList ++ rest) := rfl
  have hspaces : skipSpaces ("version=\"1.0\" encoding=\"utf-8\"?>".toList ++ rest) =
      "version=\"1.0\" encoding=\"utf-8\"?>".toList ++ rest := rfl
  have hkey : after? ("version=\"1.0\" encoding=\"utf-8\"?>".toList ++ rest) ['v', 'e', 'r', 's', 'i', 'o', 'n'] =
      some ("=\"1.0\" encoding=\"utf-8\"?>".toList ++ rest) := rfl
  have hversion : skipAttribute ("version=\"1.0\" encoding=\"utf-8\"?>".toList ++ rest) =
      some (" encoding=\"utf-8\"?>".toList ++ rest) := rfl
  have hgap : skipGap (" encoding=\"utf-8\"?>".toList ++ rest) = some ("encoding=\"utf-8\"?>".toList ++ rest) := rfl
  have hencoding : skipOptional ['e', 'n', 'c', 'o', 'd', 'i', 'n', 'g'] ("encoding=\"utf-8\"?>".toList ++ rest) =
      some ("?>".toList ++ rest) := rfl
  -- the encoding is not left out, which shows in the length
  have hlength : ("?>".toList ++ rest).length ≠ ("encoding=\"utf-8\"?>".toList ++ rest).length := by
    rw [List.length_append, List.length_append, Ne, Nat.add_right_cancel_iff]
    decide
  simp only [skipDeclaration, hstart, hspaces, hkey, hversion, hgap, hencoding, if_neg hlength, Option.bind_eq_bind,
    Option.bind_some]
  simp [skipGap, skipOptional, after?, skipSpaces, isSpace]

end Document

namespace Layout

def chars (l : Layout) : List Char := l.tags.flatMap fun t => t.1.toList ++ t.2.chars

theorem chars_eq (l : Layout) : l.chars = l.before.toList ++
    if l.children.isEmpty ∧ l.after = "" then (LocalTag.start l.name (written l.space l.attributes) true).chars
    else (LocalTag.start l.name (written l.space l.attributes) false).chars ++
      (l.children.flatMap chars ++ (l.after.toList ++ (LocalTag.stop l.name).chars)) := by
  rw [chars, tags_eq]
  split
  · simp
  · simp [List.flatMap_assoc]
    rfl

theorem Plain.isChar {l : Layout} {c : Char} (h : l.Plain) (hc : c ∈ l.chars) : isChar c := by
  obtain ⟨t, ht, hc⟩ := List.mem_flatMap.mp hc
  obtain ⟨htext, htag⟩ := h.tags t ht
  rcases List.mem_append.mp hc with hc | hc
  · exact (htext c hc).1
  · exact htag.isChar hc

/-- A document that is written from a layout, after its declaration and with blanks around it, reads back as the element
that is meant. -/
theorem Plain.parse_document {l : Layout} {after : String} (h : l.Plain) (hafter : IsText after)
    (hblank : ∀ c ∈ l.before.toList ++ after.toList, isSpace c) :
    parse (.ofList (Document.declaration ++ (l.chars ++ after.toList))) = some (l.node none) := by
  have hchars : (Document.declaration ++ (l.chars ++ after.toList)).all Xml.isChar := by
    rw [List.all_append, List.all_append, Bool.and_eq_true, Bool.and_eq_true]
    exact ⟨by decide, List.all_eq_true.mpr fun c => h.isChar, List.all_eq_true.mpr fun c hc => (hafter c hc).1⟩
  have hroot : l.markup.foldlM Document.step ⟨[], none⟩ = some ⟨[], some (l.node none)⟩ := by
    have hbefore := foldlM_blank (fun c hc => hblank c (List.mem_append_left _ hc)) none
    exact (h.delivers _ _ hbefore).trans deliver_root
  have hend := foldlM_blank (fun c hc => hblank c (List.mem_append_right _ hc)) (some (l.node none))
  have htree : Document.ofMarkup (l.markup ++ Markup.ofText after) = some (l.node none) := by
    simp [Document.ofMarkup, hroot, hend]
  have hscan : Markup.scan (l.chars ++ after.toList) = some (l.markup ++ Markup.ofText after) :=
    Markup.scan_tags h.tags hafter
  rw [parse, String.toList_ofList]
  -- the declaration starts with no byte order mark
  change (do
    guard ((Document.declaration ++ (l.chars ++ after.toList)).all Xml.isChar)
    let cs ← Document.skipDeclaration (Document.declaration ++ (l.chars ++ after.toList))
    Document.ofMarkup (← Markup.scan cs)) = _
  rw [hchars, Document.skipDeclaration_declaration]
  simp [hscan, htree]

end Layout

end Layering.Xml

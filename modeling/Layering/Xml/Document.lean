import Layering.Xml.Basic
import Layering.Xml.Markup

namespace Layering.Xml

namespace Document

def xmlSpace : String := "http://www.w3.org/XML/1998/namespace"

def xmlnsSpace : String := "http://www.w3.org/2000/xmlns/"

/-- What a prefix stands for; the empty one for names without. -/
abbrev Spaces := List (String × String)

structure Open where
  written : Written
  name : Name
  attributes : List Attribute
  spaces : Spaces
  children : List Node

/-- The open elements, the innermost first, and the outermost one once it is closed. -/
structure State where
  stack : List Open
  root : Option Node

/-- Takes a namespace declaration of a tag; those before it stand in `declared`. -/
def declare (declared : Spaces) (key : Written) (value : String) : Option Spaces :=
  if key.before = "xmlns" then
    if value = xmlnsSpace ∨ (key.name = "xml") ≠ (value = xmlSpace) ∨ (declared.lookup key.name).isSome then none
    else if key.name = "xml" then some declared
    else some ((key.name, value) :: declared)
  else if value = xmlSpace ∨ value = xmlnsSpace then none
  else some (declared ++ [("", value)])

def isDeclaration (key : Written) : Bool := key.before == "xmlns" || key.name == "xmlns"

def attributeName (spaces : Spaces) (key : Written) : Option Name :=
  if key.before = "xml" then some ⟨some xmlSpace, key.name⟩
  else if key.before = "" then some ⟨none, key.name⟩
  else (spaces.lookup key.before).map fun space => ⟨some space, key.name⟩

def elementName (spaces : Spaces) (key : Written) : Option Name :=
  if key.before = "" then some ⟨spaces.lookup "", key.name⟩
  else (spaces.lookup key.before).map fun space => ⟨some space, key.name⟩

def addAttribute (spaces : Spaces) (as : List Attribute) (a : Written × String) : Option (List Attribute) := do
  let name ← attributeName spaces a.1
  guard (as.all (·.name ≠ name))
  return as ++ [⟨name, a.2⟩]

def openTag (inherited : Spaces) (written : Written) (raw : List (Written × List Char)) : Option Open := do
  guard (written.before ≠ "xmlns")
  let values ← raw.mapM fun a => (Reference.decode true a.2).map (a.1, ·)
  let (declarations, others) := values.partition (isDeclaration ·.1)
  let declared ← declarations.foldlM (fun declared d => declare declared d.1 d.2) []
  let spaces := declared ++ inherited
  let attributes ← others.foldlM (addAttribute spaces) []
  return ⟨written, ← elementName spaces written, attributes, spaces, []⟩

def addChild (children : List Node) : Node → List Node
  | .text new =>
    match children with
    | .text old :: rest => .text (old ++ new) :: rest
    | _ => .text new :: children
  | n => n :: children

/-- A node is complete; outside of the root element only its own kind of node may be. -/
def deliver (n : Node) (s : State) : Option State :=
  match s.stack with
  | o :: rest => some { s with stack := { o with children := addChild o.children n } :: rest }
  | [] =>
    match n with
    | .element .. => if s.root.isNone then some { s with root := some n } else none
    | .text _ => none
    | _ => some s

def close (o : Open) : Node := .element o.name o.attributes o.children.reverse

def step (s : State) : Markup → Option State
  | .start written raw empty => do
    let o ← openTag ((s.stack.head?.map (·.spaces)).getD []) written raw
    if empty then deliver (close o) s else return { s with stack := o :: s.stack }
  | .stop written =>
    match s.stack with
    | o :: rest => if o.written = written then deliver (close o) { s with stack := rest } else none
    | [] => none
  | .text raw => if s.stack.isEmpty ∧ raw.all isSpace then some s else do deliver (.text (← Reference.decode false raw)) s
  | .cdata content => deliver (.text (.ofList content)) s
  | .comment content => deliver (.comment (.ofList content)) s
  | .instruction target content => deliver (.instruction (.ofList target) (.ofList content)) s

def ofMarkup (ms : List Markup) : Option Node := do
  let s ← ms.foldlM step ⟨[], none⟩
  if s.stack.isEmpty then s.root else none

def after? (cs : List Char) : List Char → Option (List Char)
  | [] => some cs
  | w :: ws =>
    match cs with
    | c :: cs => if c = w then after? cs ws else none
    | [] => none

def skipSpaces (cs : List Char) : List Char := cs.dropWhile isSpace

def skipAttribute (cs : List Char) : Option (List Char) := do
  let _ ← Written.ofChars (cs.takeWhile isQualifiedChar)
  match skipSpaces (cs.dropWhile isQualifiedChar) with
  | '=' :: rest =>
    match skipSpaces rest with
    | mark :: rest => do
      guard (mark = '"' ∨ mark = '\'')
      match rest.dropWhile fun c => c ≠ mark ∧ c ≠ '<' with
      | c :: rest => if c = mark then some rest else none
      | [] => none
    | [] => none
  | _ => none

def skipGap (cs : List Char) : Option (List Char) :=
  if cs.head?.any isSpace ∨ (after? cs ['?', '>']).isSome then some (skipSpaces cs) else none

def skipOptional (key : List Char) (cs : List Char) : Option (List Char) :=
  if (after? cs key).isSome then skipAttribute cs else some cs

/-- `<?xml version="1.0" encoding="…" standalone="…"?>`; all but the version may be left out. -/
def skipDeclaration (cs : List Char) : Option (List Char) :=
  match after? cs ['<', '?', 'x', 'm', 'l', ' '] with
  | none => some cs
  | some rest => do
    let rest := skipSpaces rest
    let _ ← after? rest ['v', 'e', 'r', 's', 'i', 'o', 'n']
    let rest ← skipGap (← skipAttribute rest)
    let encoded ← skipOptional ['e', 'n', 'c', 'o', 'd', 'i', 'n', 'g'] rest
    let rest ← if encoded.length = rest.length then some rest else skipGap encoded
    let rest ← skipOptional ['s', 't', 'a', 'n', 'd', 'a', 'l', 'o', 'n', 'e'] rest
    after? (skipSpaces rest) ['?', '>']

end Document

/-- The root element of a document. There is no type declaration, and so no entity but the five predefined ones. -/
def parse (text : String) : Option Node := do
  let cs := match text.toList with
    | '\uFEFF' :: cs => cs
    | cs => cs
  guard (cs.all isChar)
  Document.ofMarkup (← Markup.scan (← Document.skipDeclaration cs))

end Layering.Xml

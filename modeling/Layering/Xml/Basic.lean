namespace Layering.Xml

structure Name where
  space : Option String
  name : String
  deriving DecidableEq, Repr

structure Attribute where
  name : Name
  value : String
  deriving DecidableEq, Repr

inductive Node where
  | element (name : Name) (attributes : List Attribute) (children : List Node)
  | text (content : String)
  | comment (content : String)
  | instruction (target content : String)
  deriving Repr

namespace Node

def children : Node → List Node
  | element _ _ cs => cs
  | _ => []

def isElement (key : String) : Node → Bool
  | element n _ _ => n.name == key
  | _ => false

def attribute? (key : String) : Node → Option String
  | element _ as _ => (as.find? fun a => a.name = ⟨none, key⟩).map (·.value)
  | _ => none

def childElement? (n : Node) (key : String) : Option Node := n.children.find? (·.isElement key)

def childElements (n : Node) (key : String) : List Node := n.children.filter (·.isElement key)

end Node

def isSpace (c : Char) : Bool := c == ' ' || c == '\t' || c == '\n' || c == '\r'

def isChar (c : Char) : Bool := if c < ' ' then isSpace c else c.toNat != 0xFFFE && c.toNat != 0xFFFF

def inRanges (ranges : List (Nat × Nat)) (n : Nat) : Bool := ranges.any fun r => r.1 ≤ n && n ≤ r.2

/-- The letters of names, without the colon. -/
def nameStartRanges : List (Nat × Nat) := [
  (0x41, 0x5A), (0x5F, 0x5F), (0x61, 0x7A), (0xC0, 0xD6), (0xD8, 0xF6), (0xF8, 0x2FF), (0x370, 0x37D),
  (0x37F, 0x1FFF), (0x200C, 0x200D), (0x2070, 0x218F), (0x2C00, 0x2FEF), (0x3001, 0xD7FF), (0xF900, 0xFDCF),
  (0xFDF0, 0xFFFD), (0x10000, 0xEFFFF)]

def isNameStart (c : Char) : Bool := inRanges nameStartRanges c.toNat

def isNameChar (c : Char) : Bool :=
  isNameStart c || inRanges [(0x2D, 0x2E), (0x30, 0x39), (0xB7, 0xB7), (0x300, 0x36F), (0x203F, 0x2040)] c.toNat

def isQualifiedChar (c : Char) : Bool := c == ':' || isNameChar c

namespace Reference

/-- Characters so far in reverse, the reference being read in reverse, and whether a line end may still turn out to be
the second half of one. -/
structure Scan where
  read : List Char
  pending : Option (List Char)
  afterReturn : Bool

def hexDigit? (c : Char) : Option Nat :=
  if c.isDigit then some (c.toNat - '0'.toNat)
  else if 'a' ≤ c ∧ c ≤ 'f' then some (c.toNat - 'a'.toNat + 10)
  else if 'A' ≤ c ∧ c ≤ 'F' then some (c.toNat - 'A'.toNat + 10)
  else none

def number? (base : Nat) (cs : List Char) : Option Nat := do
  guard (!cs.isEmpty)
  cs.foldlM (fun n c => do
    let d ← hexDigit? c
    guard (d < base)
    return base * n + d) 0

def ofCodePoint (n : Nat) : Option Char := do
  guard (n < UInt32.size)
  let c := if n.isValidChar then Char.ofNat n else '\uFFFD'
  guard (isChar c)
  return c

def resolve (cs : List Char) : Option Char :=
  match cs with
  | '#' :: 'x' :: ds => number? 16 ds >>= ofCodePoint
  | '#' :: ds => number? 10 ds >>= ofCodePoint
  | _ => [("quot", '"'), ("amp", '&'), ("apos", '\''), ("lt", '<'), ("gt", '>')].lookup (.ofList cs)

variable (inAttribute : Bool)

def lineEnd : Char := if inAttribute then ' ' else '\n'

def step (s : Scan) (c : Char) : Option Scan :=
  match s.pending with
  | some name =>
    if c = ';' then (resolve name.reverse).map fun c => ⟨c :: s.read, none, false⟩
    else some { s with pending := some (c :: name) }
  | none =>
    if c = '&' then some ⟨s.read, some [], false⟩
    else if c = '\r' then some ⟨lineEnd inAttribute :: s.read, none, true⟩
    else if c = '\n' then some ⟨if s.afterReturn then s.read else lineEnd inAttribute :: s.read, none, false⟩
    else if c = '\t' ∧ inAttribute then some ⟨' ' :: s.read, none, false⟩
    else some ⟨c :: s.read, none, false⟩

/-- `none` for a reference that is not one. -/
def decode (cs : List Char) : Option String := do
  let s ← cs.foldlM (step inAttribute) ⟨[], none, false⟩
  guard s.pending.isNone
  return .ofList s.read.reverse

end Reference

end Layering.Xml

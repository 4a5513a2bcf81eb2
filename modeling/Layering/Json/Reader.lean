import Layering.Json.Number

namespace Layering.Json

inductive Token where
  | openArray
  | closeArray
  | openObject
  | closeObject
  | comma
  | colon
  | scalar (v : Json)

namespace Token

/-- What the next character belongs to. Characters read so far stand in reverse. -/
inductive Mode where
  | blank
  | word (read : List Char)
  | number (read : List Char)
  | string (read : List Char)
  | escape (read : List Char)
  | unicode (read : List Char) (high : Option Nat) (digits value : Nat)
  | surrogate (read : List Char) (high : Nat) (slash : Bool)

structure Scan where
  tokens : List Token
  mode : Mode

def isNumeric (c : Char) : Bool := c.isDigit || c == '-' || c == '+' || c == '.' || c == 'e' || c == 'E'

def hexValue? (c : Char) : Option Nat :=
  if '0' ≤ c ∧ c ≤ '9' then some (c.toNat - '0'.toNat)
  else if 'a' ≤ c ∧ c ≤ 'f' then some (c.toNat - 'a'.toNat + 10)
  else if 'A' ≤ c ∧ c ≤ 'F' then some (c.toNat - 'A'.toNat + 10)
  else none

def ofWord (cs : List Char) : Option Token :=
  if cs = ['n', 'u', 'l', 'l'] then some (.scalar .null)
  else if cs = ['t', 'r', 'u', 'e'] then some (.scalar (.bool true))
  else if cs = ['f', 'a', 'l', 's', 'e'] then some (.scalar (.bool false))
  else none

def ofMark : Char → Option Token
  | '[' => some .openArray
  | ']' => some .closeArray
  | '{' => some .openObject
  | '}' => some .closeObject
  | ',' => some .comma
  | ':' => some .colon
  | _ => none

def unescape : Char → Option Char
  | '"' => some '"'
  | '\\' => some '\\'
  | '/' => some '/'
  | 'b' => some '\x08'
  | 'f' => some '\x0c'
  | 'n' => some '\n'
  | 'r' => some '\r'
  | 't' => some '\t'
  | _ => none

def isHigh (n : Nat) : Bool := 0xD800 ≤ n && n < 0xDC00

def isLow (n : Nat) : Bool := 0xDC00 ≤ n && n < 0xE000

/-- The mode after the four digits of a `\u` escape; no half of a surrogate pair stands alone. -/
def endUnicode (read : List Char) (high : Option Nat) (n : Nat) : Option Mode :=
  match high with
  | none => if isHigh n then some (.surrogate read n false) else if isLow n then none else some (.string (.ofNat n :: read))
  | some h => if isLow n then some (.string (.ofNat (0x10000 + (h - 0xD800) * 0x400 + (n - 0xDC00)) :: read)) else none

namespace Scan

def start : Scan := ⟨[], .blank⟩

/-- Ends a word or a number, which no character of its own does. -/
def settle (s : Scan) : Option (List Token) :=
  match s.mode with
  | .blank => some s.tokens
  | .word read => (ofWord read.reverse).map (· :: s.tokens)
  | .number read => (Number.ofChars read.reverse).map (.scalar · :: s.tokens)
  | _ => none

def begin (tokens : List Token) (c : Char) : Option Scan :=
  if c = ' ' ∨ c = '\n' ∨ c = '\t' ∨ c = '\r' then some ⟨tokens, .blank⟩
  else if c = '"' then some ⟨tokens, .string []⟩
  else if c.isDigit ∨ c = '-' then some ⟨tokens, .number [c]⟩
  else if c.isLower then some ⟨tokens, .word [c]⟩
  else (ofMark c).map fun t => ⟨t :: tokens, .blank⟩

def step (s : Scan) (c : Char) : Option Scan :=
  match s.mode with
  | .blank => begin s.tokens c
  | .word read => if c.isLower then some ⟨s.tokens, .word (c :: read)⟩ else s.settle >>= (begin · c)
  | .number read => if isNumeric c then some ⟨s.tokens, .number (c :: read)⟩ else s.settle >>= (begin · c)
  | .string read =>
    if c = '"' then some ⟨.scalar (.str (.ofList read.reverse)) :: s.tokens, .blank⟩
    else if c = '\\' then some ⟨s.tokens, .escape read⟩
    else if c < ' ' then none
    else some ⟨s.tokens, .string (c :: read)⟩
  | .escape read =>
    if c = 'u' then some ⟨s.tokens, .unicode read none 0 0⟩
    else (unescape c).map fun c => ⟨s.tokens, .string (c :: read)⟩
  | .unicode read high digits value => do
    let value := 16 * value + (← hexValue? c)
    if digits < 3 then return ⟨s.tokens, .unicode read high (digits + 1) value⟩
    else return ⟨s.tokens, ← endUnicode read high value⟩
  | .surrogate read high slash =>
    if !slash ∧ c = '\\' then some ⟨s.tokens, .surrogate read high true⟩
    else if slash ∧ c = 'u' then some ⟨s.tokens, .unicode read (some high) 0 0⟩
    else none

end Scan

def scan (cs : List Char) : Option (List Token) := do
  return (← (← cs.foldlM Scan.step .start).settle).reverse

end Token

namespace Reader

inductive Container where
  | array (items : List Json)
  | object (fields : List (String × Json))
  | field (fields : List (String × Json)) (key : String)

inductive State where
  | value (outer : List Container)
  | firstItem (outer : List Container)
  | firstKey (outer : List Container)
  | key (fields : List (String × Json)) (outer : List Container)
  | colon (fields : List (String × Json)) (key : String) (outer : List Container)
  | next (inner : Container) (outer : List Container)
  | done (v : Json)

def deliver (v : Json) : List Container → Option State
  | [] => some (.done v)
  | .array items :: outer => some (.next (.array (v :: items)) outer)
  | .field fields key :: outer => some (.next (.object (insertField key v fields)) outer)
  | .object _ :: _ => none

def begin (limit : Nat) (outer : List Container) : Token → Option State
  | .scalar v => deliver v outer
  | .openArray => if outer.length < limit then some (.firstItem outer) else none
  | .openObject => if outer.length < limit then some (.firstKey outer) else none
  | _ => none

def step (limit : Nat) : State → Token → Option State
  | .value outer, t => begin limit outer t
  | .firstItem outer, .closeArray => deliver (.arr []) outer
  | .firstItem outer, t => begin limit (.array [] :: outer) t
  | .firstKey outer, .closeObject => deliver (.obj []) outer
  | .firstKey outer, .scalar (.str key) => some (.colon [] key outer)
  | .key fields outer, .scalar (.str key) => some (.colon fields key outer)
  | .colon fields key outer, .colon => some (.value (.field fields key :: outer))
  | .next (.array items) outer, .comma => some (.value (.array items :: outer))
  | .next (.array items) outer, .closeArray => deliver (.arr items.reverse) outer
  | .next (.object fields) outer, .comma => some (.key fields outer)
  | .next (.object fields) outer, .closeObject => deliver (.obj fields) outer
  | _, _ => none

end Reader

def nestingLimit : Nat := 127

def parseTo (limit : Nat) (text : String) : Option Json := do
  let tokens ← Token.scan text.toList
  match ← tokens.foldlM (Reader.step limit) (.value []) with
  | .done v => some v
  | _ => none

def parse (text : String) : Option Json := parseTo nestingLimit text

end Layering.Json

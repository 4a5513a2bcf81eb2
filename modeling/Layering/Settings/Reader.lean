import Layering.Settings.Basic

namespace Layering.Settings

namespace Number

def digit? (base : Nat) (c : Char) : Option Nat :=
  let d :=
    if c.isDigit then c.toNat - '0'.toNat
    else if 'a' ≤ c ∧ c ≤ 'f' then c.toNat - 'a'.toNat + 10
    else if 'A' ≤ c ∧ c ≤ 'F' then c.toNat - 'A'.toNat + 10
    else base
  if d < base then some d else none

/-- Digits; an underscore may stand between two of them. -/
def digits? (base : Nat) (cs : List Char) : Option Nat := do
  guard ((cs.splitOn '_').all (!·.isEmpty))
  (cs.filter (· ≠ '_')).foldlM (fun n c => do return base * n + (← digit? base c)) 0

def decimal? (cs : List Char) : Option Nat := if cs.head? = some '0' ∧ cs ≠ ['0'] then none else digits? 10 cs

/-- A whole number from 0 to 2 ^ 32 - 1. Decimal ones may have a sign. -/
def parse (cs : List Char) : Option UInt32 := do
  let n ← match cs with
    | '0' :: 'x' :: cs => digits? 16 cs
    | '0' :: 'o' :: cs => digits? 8 cs
    | '0' :: 'b' :: cs => digits? 2 cs
    | '+' :: cs => decimal? cs
    | '-' :: cs => (decimal? cs).filter (· = 0)
    | cs => decimal? cs
  guard (n < UInt32.size)
  return .ofNat n

end Number

/-- A key that stands twice, is not known, or has a value of another kind is refused. -/
def setText (s : Settings) (key value : String) : Option Settings :=
  match key with
  | "schema" => if s.schema.isNone then some { s with schema := some value } else none
  | "order" => if s.order.isNone then some { s with order := some value } else none
  | "order_file" => if s.orderFile.isNone then some { s with orderFile := some value } else none
  | "mode" => if s.mode.isNone then some { s with mode := some value } else none
  | _ => none

def setNumber (s : Settings) (key : String) (value : UInt32) : Option Settings :=
  if key = "max_findings" ∧ s.maxFindings.isNone then some { s with maxFindings := some value } else none

namespace Reader

inductive Role where
  | key
  | value (key : String)

structure Quotes where
  mark : Char
  isLong : Bool

inductive Escape where
  | plain
  | backslash
  | code (left value : Nat)
  /-- A backslash at the end of a line swallows the blanks after it; `ended` once the line has ended. -/
  | lineEnd (ended : Bool)

/-- What the next character belongs to. Characters read so far stand in reverse. -/
inductive Mode where
  | line
  | comment
  | bareKey (read : List Char)
  | afterKey (key : String)
  | beforeValue (key : String)
  | number (key : String) (read : List Char)
  | opening (role : Role) (mark : Char) (marks : Nat)
  | opened (role : Role) (mark : Char)
  /-- `marks` quotes stand at the end of what is read of a long string. -/
  | quoted (role : Role) (quotes : Quotes) (read : List Char) (escape : Escape) (marks : Nat)
  | afterValue

structure Scan where
  settings : Settings
  mode : Mode

/-- A return stands only before a line feed, and counts as a blank. -/
def isGap (c : Char) : Bool := c == ' ' || c == '\t' || c == '\r'

def isPlain (c : Char) : Bool := c == '\t' || (!(c < ' ') && c != '\x7f')

def isBareKey (c : Char) : Bool := c.isAlphanum || c == '_' || c == '-'

def isMark (c : Char) : Bool := c == '"' || c == '\''

def shortEscape? (c : Char) : Option Char :=
  [('b', '\x08'), ('t', '\t'), ('n', '\n'), ('f', '\x0c'), ('r', '\r'), ('e', '\x1b'), ('"', '"'), ('\\', '\\')].lookup c

def codeLength? (c : Char) : Option Nat := [('x', 2), ('u', 4), ('U', 8)].lookup c

variable (s : Settings)

def atLine (c : Char) : Option Scan :=
  if isGap c ∨ c = '\n' then some ⟨s, .line⟩
  else if c = '#' then some ⟨s, .comment⟩
  else if isMark c then some ⟨s, .opening .key c 1⟩
  else if isBareKey c then some ⟨s, .bareKey [c]⟩
  else none

def afterKey (key : String) (c : Char) : Option Scan :=
  if isGap c then some ⟨s, .afterKey key⟩
  else if c = '=' then some ⟨s, .beforeValue key⟩
  else none

def afterValue (c : Char) : Option Scan :=
  if isGap c then some ⟨s, .afterValue⟩
  else if c = '\n' then some ⟨s, .line⟩
  else if c = '#' then some ⟨s, .comment⟩
  else none

def endString (role : Role) (read : List Char) : Option Scan :=
  match role with
  | .key => some ⟨s, .afterKey (.ofList read.reverse)⟩
  | .value key => (setText s key (.ofList read.reverse)).map (⟨·, .afterValue⟩)

def outside (t : Scan) (c : Char) : Option Scan :=
  match t.mode with
  | .afterKey key => afterKey t.settings key c
  | .afterValue => afterValue t.settings c
  | _ => none

def endNumber (key : String) (read : List Char) : Option Settings := Number.parse read.reverse >>= setNumber s key

def inString (role : Role) (q : Quotes) (read : List Char) (marks : Nat) (c : Char) : Option Scan :=
  if c = q.mark then
    if !q.isLong then endString s role read
    else if marks = 4 then endString s role (read.drop 2)
    else some ⟨s, .quoted role q (c :: read) .plain (marks + 1)⟩
  else if 3 ≤ marks then endString s role (read.drop 3) >>= (outside · c)
  else if c = '\\' ∧ q.mark = '"' then some ⟨s, .quoted role q read .backslash 0⟩
  else if isPlain c ∨ q.isLong ∧ (c = '\n' ∨ c = '\r') then some ⟨s, .quoted role q (c :: read) .plain 0⟩
  else none

def inEscape (role : Role) (q : Quotes) (read : List Char) (c : Char) : Option Scan :=
  match shortEscape? c, codeLength? c with
  | some e, _ => some ⟨s, .quoted role q (e :: read) .plain 0⟩
  | none, some left => some ⟨s, .quoted role q read (.code left 0) 0⟩
  | none, none =>
    if q.isLong ∧ (isGap c ∨ c = '\n') then some ⟨s, .quoted role q read (.lineEnd (c = '\n')) 0⟩ else none

def inCode (role : Role) (q : Quotes) (read : List Char) (left value : Nat) (c : Char) : Option Scan := do
  let value := 16 * value + (← Number.digit? 16 c)
  if left ≤ 1 then
    guard value.isValidChar
    return ⟨s, .quoted role q (.ofNat value :: read) .plain 0⟩
  else return ⟨s, .quoted role q read (.code (left - 1) value) 0⟩

def inLongStart (role : Role) (mark c : Char) : Option Scan :=
  if c = '\r' then some ⟨s, .opened role mark⟩
  else if c = '\n' then some ⟨s, .quoted role ⟨mark, true⟩ [] .plain 0⟩
  else inString s role ⟨mark, true⟩ [] 0 c

def inOpening (role : Role) (mark : Char) (marks : Nat) (c : Char) : Option Scan :=
  if marks = 1 then
    if c = mark then some ⟨s, .opening role mark 2⟩ else inString s role ⟨mark, false⟩ [] 0 c
  else
    match role with
    | .value _ => if c = mark then some ⟨s, .opened role mark⟩ else endString s role [] >>= (outside · c)
    | .key => endString s role [] >>= (outside · c)

def step (t : Scan) (c : Char) : Option Scan :=
  let s := t.settings
  match t.mode with
  | .line => atLine s c
  | .comment =>
    if c = '\n' then some ⟨s, .line⟩ else if isPlain c ∨ c = '\r' then some ⟨s, .comment⟩ else none
  | .bareKey read =>
    if isBareKey c then some ⟨s, .bareKey (c :: read)⟩ else afterKey s (.ofList read.reverse) c
  | .beforeValue key =>
    if isGap c then some ⟨s, .beforeValue key⟩
    else if isMark c then some ⟨s, .opening (.value key) c 1⟩
    else some ⟨s, .number key [c]⟩
  | .number key read =>
    if isGap c ∨ c = '\n' ∨ c = '#' then endNumber s key read >>= (afterValue · c)
    else some ⟨s, .number key (c :: read)⟩
  | .opening role mark marks => inOpening s role mark marks c
  | .opened role mark => inLongStart s role mark c
  | .quoted role q read .plain marks => inString s role q read marks c
  | .quoted role q read .backslash _ => inEscape s role q read c
  | .quoted role q read (.code left value) _ => inCode s role q read left value c
  | .quoted role q read (.lineEnd ended) _ =>
    if isGap c ∨ c = '\n' then some ⟨s, .quoted role q read (.lineEnd (ended || c == '\n')) 0⟩
    else if ended then inString s role q read 0 c
    else none
  | .afterKey _ | .afterValue => outside t c

def finish (t : Scan) : Option Settings :=
  match t.mode with
  | .line | .comment | .afterValue => some t.settings
  | .number key read => endNumber t.settings key read
  | .opening (.value key) _ 2 => setText t.settings key ""
  | .quoted (.value key) ⟨_, true⟩ read .plain marks =>
    if 3 ≤ marks then setText t.settings key (.ofList (read.drop 3).reverse) else none
  | _ => none

def hasWholeLineEnds : List Char → Bool
  | '\r' :: '\n' :: cs => hasWholeLineEnds cs
  | '\r' :: _ => false
  | _ :: cs => hasWholeLineEnds cs
  | [] => true

end Reader

/-- Lines of a key, an equals sign and a value, a string or a whole number; a byte order mark may stand before them. No
key has a value of another kind, or a table. -/
def ofText (text : String) : Option Settings := do
  let cs := match text.toList with
    | '\uFEFF' :: cs => cs
    | cs => cs
  guard (Reader.hasWholeLineEnds cs)
  Reader.finish (← cs.foldlM Reader.step ⟨empty, .line⟩)

def parse (text : String) : Except Failure Settings :=
  match ofText text with
  | none => .error ⟨[], .malformedSettings⟩
  | some s =>
    match s.schema with
    | some schema => if schema = settingsSchema then .ok s else .error ⟨[], .unknownSettingsSchema schema⟩
    | none => .ok s

end Layering.Settings

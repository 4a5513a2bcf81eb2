import Layering.Xml.Basic

namespace Layering.Xml

/-- A name as it is written: what stands before its colon, empty without one, and the rest. -/
structure Written where
  before : String
  name : String
  deriving DecidableEq, Repr

def Written.ofChars (cs : List Char) : Option Written :=
  let isName : List Char → Bool
    | [] => false
    | c :: _ => isNameStart c
  match cs.splitOn ':' with
  | [name] => if isName name then some ⟨"", .ofList name⟩ else none
  | [before, name] => if (before.isEmpty || isName before) && isName name then some ⟨.ofList before, .ofList name⟩ else none
  | _ => none

inductive Markup where
  | start (name : Written) (attributes : List (Written × List Char)) (empty : Bool)
  | stop (name : Written)
  | text (raw : List Char)
  | cdata (content : List Char)
  | comment (content : List Char)
  | instruction (target content : List Char)
  deriving Repr

namespace Markup

structure Tag where
  name : Written
  attributes : List (Written × List Char)

/-- What the next character belongs to. Characters read so far stand in reverse. -/
inductive Mode where
  | text (read : List Char)
  | opening
  /-- After `<!`, with what is still to come of a comment's or a section's beginning. -/
  | declaration
  | commentStart
  | cdataStart (rest : List Char)
  | comment (read : List Char) (hyphens : Nat)
  | cdata (read : List Char) (brackets : Nat)
  | target (read : List Char)
  | instruction (target read : List Char) (question : Bool)
  | startName (read : List Char)
  | tag (tag : Tag) (spaced : Bool)
  | attributeName (tag : Tag) (read : List Char)
  | equals (tag : Tag) (key : Written)
  | quote (tag : Tag) (key : Written)
  | value (tag : Tag) (key : Written) (mark : Char) (read : List Char)
  | emptyTag (tag : Tag)
  | stopName (read : List Char)
  | stopTag (name : Written)

structure Scan where
  markup : List Markup
  mode : Mode

namespace Scan

def start : Scan := ⟨[], .text []⟩

variable (done : List Markup)

/-- Whether `]]>` stands in the text, which only the end of a section may. -/
def endsSection : List Char → Bool
  | ']' :: ']' :: '>' :: _ => true
  | _ :: cs => endsSection cs
  | [] => false

def endText (read : List Char) : Option (List Markup) :=
  if read.isEmpty then some done
  else if endsSection read.reverse then none
  else some (.text read.reverse :: done)

def inTag (tag : Tag) (spaced : Bool) (c : Char) : Option Scan :=
  if isSpace c then some ⟨done, .tag tag true⟩
  else if c = '/' then some ⟨done, .emptyTag tag⟩
  else if c = '>' then some ⟨.start tag.name tag.attributes.reverse false :: done, .text []⟩
  else if spaced ∧ isQualifiedChar c then some ⟨done, .attributeName tag [c]⟩
  else none

def afterKey (tag : Tag) (key : Written) (c : Char) : Option Scan :=
  if isSpace c then some ⟨done, .equals tag key⟩
  else if c = '=' then some ⟨done, .quote tag key⟩
  else none

def afterStop (name : Written) (c : Char) : Option Scan :=
  if isSpace c then some ⟨done, .stopTag name⟩
  else if c = '>' then some ⟨.stop name :: done, .text []⟩
  else none

def inInstruction (target read : List Char) (question : Bool) (c : Char) : Option Scan :=
  if question ∧ c = '>' then some ⟨.instruction target (read.drop 1).reverse :: done, .text []⟩
  else if read.isEmpty ∧ isSpace c then some ⟨done, .instruction target [] false⟩
  else some ⟨done, .instruction target (c :: read) (c == '?')⟩

def step (s : Scan) (c : Char) : Option Scan :=
  let done := s.markup
  match s.mode with
  | .text read =>
    if c = '<' then (endText done read).map (⟨·, .opening⟩) else some ⟨done, .text (c :: read)⟩
  | .opening =>
    if c = '!' then some ⟨done, .declaration⟩
    else if c = '?' then some ⟨done, .target []⟩
    else if c = '/' then some ⟨done, .stopName []⟩
    else if isQualifiedChar c then some ⟨done, .startName [c]⟩
    else none
  | .declaration =>
    if c = '-' then some ⟨done, .commentStart⟩
    else if c = '[' then some ⟨done, .cdataStart ['C', 'D', 'A', 'T', 'A', '[']⟩
    else none
  | .commentStart => if c = '-' then some ⟨done, .comment [] 0⟩ else none
  | .cdataStart rest =>
    match rest with
    | [] => none
    | [r] => if c = r then some ⟨done, .cdata [] 0⟩ else none
    | r :: rest => if c = r then some ⟨done, .cdataStart rest⟩ else none
  | .comment read hyphens =>
    if hyphens = 2 then if c = '>' then some ⟨.comment (read.drop 2).reverse :: done, .text []⟩ else none
    else some ⟨done, .comment (c :: read) (if c = '-' then hyphens + 1 else 0)⟩
  | .cdata read brackets =>
    if c = '>' ∧ 2 ≤ brackets then some ⟨.cdata (read.drop 2).reverse :: done, .text []⟩
    else some ⟨done, .cdata (c :: read) (if c = ']' then brackets + 1 else 0)⟩
  | .target read =>
    if isQualifiedChar c ∧ (!read.isEmpty ∨ isNameStart c ∨ c = ':') then some ⟨done, .target (c :: read)⟩
    else if read.isEmpty ∨ read = ['l', 'm', 'x'] ∧ c = ' ' then none
    else inInstruction done read.reverse [] false c
  | .instruction target read question => inInstruction done target read question c
  | .startName read =>
    if isQualifiedChar c then some ⟨done, .startName (c :: read)⟩
    else Written.ofChars read.reverse >>= fun name => inTag done ⟨name, []⟩ false c
  | .tag tag spaced => inTag done tag spaced c
  | .attributeName tag read =>
    if isQualifiedChar c then some ⟨done, .attributeName tag (c :: read)⟩
    else Written.ofChars read.reverse >>= fun key => afterKey done tag key c
  | .equals tag key => afterKey done tag key c
  | .quote tag key =>
    if isSpace c then some ⟨done, .quote tag key⟩
    else if c = '"' ∨ c = '\'' then some ⟨done, .value tag key c []⟩
    else none
  | .value tag key mark read =>
    if c = mark then some ⟨done, .tag { tag with attributes := (key, read.reverse) :: tag.attributes } false⟩
    else if c = '<' then none
    else some ⟨done, .value tag key mark (c :: read)⟩
  | .emptyTag tag =>
    if c = '>' then some ⟨.start tag.name tag.attributes.reverse true :: done, .text []⟩ else none
  | .stopName read =>
    if isQualifiedChar c then some ⟨done, .stopName (c :: read)⟩
    else Written.ofChars read.reverse >>= fun name => afterStop done name c
  | .stopTag name => afterStop done name c

def finish (s : Scan) : Option (List Markup) :=
  match s.mode with
  | .text read => (endText s.markup read).map List.reverse
  | _ => none

end Scan

def scan (cs : List Char) : Option (List Markup) := do (← cs.foldlM Scan.step .start).finish

end Markup

end Layering.Xml

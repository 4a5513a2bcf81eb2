import Layering.Deflate
import Layering.Text.Basic
import Layering.Zip.Directory

namespace Layering.Zip

/-- An entry as the directory tells it: its name and comment, whether it is encrypted, and if so as AES tells it, how it
is packed, the checksum of its content, the sizes of it packed and unpacked, and where its own header starts. -/
structure Entry where
  name : ByteArray
  comment : String
  isLocked : Bool
  isAes : Bool
  method : Nat
  checksum : Nat
  packed : Nat
  unpacked : Nat
  start : Nat

namespace Entry

variable (b : ByteArray) (e : Entry)

def isReadable : Bool := !e.isLocked && !e.isAes && (e.method == 0 || e.method == 8)

def contentStart? : Option Nat := do
  guard (hasMark b localMark e.start)
  return e.start + 30 + (← number? b (e.start + 26) 2) + (← number? b (e.start + 28) 2)

def packed? : Option ByteArray := do
  guard e.isReadable
  let i ← e.contentStart? b
  return b.extract i (i + e.packed)

def unpack? (content : ByteArray) : Option ByteArray := if e.method = 8 then Deflate.inflate content else some content

def isIntact (content : ByteArray) : Bool := (Crc32.checksum content).toNat == e.checksum

end Entry

namespace Extra

structure Progress where
  entry : Entry
  place : Nat

inductive Stop where
  | short
  | refused

abbrev Scan := ExceptT Stop (StateM Progress)

def require (condition : Bool) : Scan Unit := unless condition do throw .refused

def update (f : Entry → Entry) : Scan Unit := modify fun p => { p with entry := f p.entry }

def entry : Scan Entry := return (← get).entry

def next {α : Type} (n : Nat) (part? : Nat → Nat → Option α) : Scan α := do
  let i := (← get).place
  match part? i n with
  | some part =>
    modify fun p => { p with place := i + n }
    return part
  | none => throw .short

variable (x : ByteArray)

def number (n : Nat) : Scan Nat := next n (number? x)

def bytes (n : Nat) : Scan ByteArray := next n (bytes? x)

/-- Sizes and places that do not fit into 32 bits, those that stand out in the entry, or all. -/
def wide (length : Nat) : Scan Unit := do
  let i := (← get).place
  let outgrown (value : Nat) : Bool := 24 ≤ length || value == 0xFFFFFFFF
  if outgrown (← entry).unpacked then
    let unpacked ← number x 8
    update fun e => { e with unpacked }
  if outgrown (← entry).packed then
    let packed ← number x 8
    update fun e => { e with packed }
  if outgrown (← entry).start then
    let start ← number x 8
    update fun e => { e with start }
  let taken := (← get).place - i
  require (taken ≤ length)
  discard (bytes x (length - taken))

/-- A text in the place of a plain one, of which it has the checksum. -/
def text (length : Nat) (plain : ByteArray) : Scan String := do
  let _ ← number x 1
  let checksum ← number x 4
  require (5 ≤ length)
  let content ← bytes x (length - 5)
  require (checksum == (Crc32.checksum plain).toNat)
  match String.fromUTF8? content with
  | some s => return s
  | none => throw .refused

def encryption (length : Nat) : Scan Unit := do
  require (length == 7)
  let version ← number x 2
  let vendor ← number x 2
  let strength ← number x 1
  let method ← number x 2
  require (vendor == 0x4541 && (version == 1 || version == 2) && 1 ≤ strength && strength ≤ 3)
  update fun e => { e with isAes := true, method }

def systemTimes (length : Nat) : Scan Unit := do
  require (length == 32)
  let _ ← number x 4
  require ((← number x 2) == 1)
  require ((← number x 2) == 24)
  discard (bytes x 24)

/-- Up to three times, each told by a flag; there may be one alone, whatever the flags. -/
def times (length : Nat) : Scan Unit := do
  let flags ← number x 1
  require (flags < 8)
  require (length == 5 || length == 1 + 4 * (List.range 3).countP (flags.testBit ·))
  discard (bytes x (length - 1))

/-- The content of a field of this kind. Times and comments must be well-formed but do not count, and other kinds may be
anything. -/
def content (kind length : Nat) : Scan Unit := do
  match kind with
  | 0x0001 => wide x length
  | 0x000a => systemTimes x length
  | 0x5455 => times x length
  | 0x6375 =>
    let comment ← text x length (← entry).comment.toUTF8
    update fun e => { e with comment }
  | 0x7075 =>
    let name ← text x length (← entry).name
    update fun e => { e with name := name.toUTF8 }
  | 0x9901 => encryption x length
  | _ => discard (bytes x length)

def fields : Nat → Scan Unit
  | 0 => return
  | n + 1 => do
    let kind ← number x 2
    let length ← number x 2
    content x kind length
    fields n

def read (e : Entry) : Option Entry :=
  match (fields x x.size).run ⟨e, 0⟩ with
  | (.error .refused, _) => none
  | (_, p) => some p.entry

end Extra

variable (b : ByteArray)

/-- The entry that the directory holds at `i`, and where the next one follows. Its own header starts before the
directory. -/
def entry? (d : Directory) (i : Nat) : Option (Entry × Nat) := do
  guard (hasMark b centralMark i)
  let flags ← number? b (i + 8) 2
  let nameLength ← number? b (i + 28) 2
  let extraLength ← number? b (i + 30) 2
  let commentLength ← number? b (i + 32) 2
  let name ← bytes? b (i + 46) nameLength
  let extra ← bytes? b (i + 46 + nameLength) extraLength
  let comment ← bytes? b (i + 46 + nameLength + extraLength) commentLength
  let e ← Extra.read extra {
    name
    comment := if flags.testBit 11 then lenientText comment else codePageText comment
    isLocked := flags.testBit 0
    isAes := false
    method := ← number? b (i + 10) 2
    checksum := ← number? b (i + 16) 4
    packed := ← number? b (i + 20) 4
    unpacked := ← number? b (i + 24) 4
    start := ← number? b (i + 42) 4 }
  guard (e.method ≠ 99 ∨ e.isAes)
  let start := e.start + d.shift
  guard (start < d.start)
  return ({ e with start }, i + 46 + nameLength + extraLength + commentLength)

def entriesFrom? (d : Directory) : Nat → Nat → Option (List Entry)
  | 0, _ => some []
  | n + 1, i => do
    let (e, next) ← entry? b d i
    return e :: (← entriesFrom? d n next)

/-- The entries of the last directory that can be read, looking for end records that begin before `i`. -/
def entriesBefore? : Nat → Option (List Entry)
  | 0 => none
  | i + 1 => (directory? b i >>= fun d => entriesFrom? b d d.count d.start) <|> entriesBefore? i

def entries? : Option (List Entry) := entriesBefore? b b.size

/-- Of entries with one name the last counts. -/
def find? (name : String) (entries : List Entry) : Option Entry :=
  entries.reverse.find? fun e => e.name.data.toList = name.toUTF8.data.toList

end Layering.Zip

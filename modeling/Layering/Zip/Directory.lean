import Layering.Digest

namespace Layering.Zip

variable (b : ByteArray)

def byte? (i : Nat) : Option Nat := b[i]?.map (·.toNat)

/-- The number in the `n` bytes from `i` on, the lowest first. -/
def number? (i : Nat) : Nat → Option Nat
  | 0 => some 0
  | n + 1 => do return (← byte? b i) + 256 * (← number? (i + 1) n)

def ofNumber (value : Nat) : Nat → List UInt8
  | 0 => []
  | n + 1 => value.toUInt8 :: ofNumber (value / 256) n

def bytes? (i n : Nat) : Option ByteArray := if i + n ≤ b.size then some (b.extract i (i + n)) else none

def localMark : Nat := 0x04034b50

def centralMark : Nat := 0x02014b50

def endMark : Nat := 0x06054b50

def wideEndMark : Nat := 0x06064b50

def locatorMark : Nat := 0x07064b50

/-- By how much the archive is shifted, where its directory starts, and how many entries that has. -/
structure Directory where
  shift : Nat
  start : Nat
  count : Nat
  deriving DecidableEq, Repr

def hasMark (mark i : Nat) : Bool := number? b i 4 == some mark

def firstMark? (mark start limit : Nat) : Option Nat :=
  if hasMark b mark start then some start else (List.range' start (limit - start - 3)).find? (hasMark b mark ·)

/-- Whether a record for archives that outgrow the end record stands at `i`. It ends where its locator stands, and the
entries that it counts fit before it. -/
def hasWideRecord (locator i : Nat) : Bool :=
  hasMark b wideEndMark i && ((do
    let length ← number? b (i + 4) 8
    guard (44 ≤ length ∧ i + 12 + length = locator)
    guard ((← number? b (locator + 4) 4) = (← number? b (i + 20) 4))
    guard (46 * (← number? b (i + 32) 8) + (← number? b (i + 48) 8) ≤ i)) : Option Unit).isSome

def locator? (i : Nat) : Option Nat := do
  guard (20 ≤ i ∧ hasMark b locatorMark (i - 20))
  return i - 20

def wideDirectory? (locator : Nat) : Option Directory := do
  let offset ← number? b (locator + 8) 8
  guard (offset < locator ∧ (← number? b (locator + 16) 4) ≤ 1)
  let i ← (List.range' offset (locator - offset)).find? (hasWideRecord b locator ·)
  guard ((← number? b (i + 14) 2) ≤ (← number? b (i + 12) 2))
  guard ((← number? b (i + 16) 4) = (← number? b (i + 20) 4))
  let total ← number? b (i + 32) 8
  guard ((← number? b (i + 24) 8) ≤ total)
  return ⟨i - offset, (← number? b (i + 48) 8) + (i - offset), total⟩

/-- The directory of an end record at `i`, whose comment must fit into the file. -/
def directory? (i : Nat) : Option Directory := do
  guard (hasMark b endMark i)
  guard (i + 22 + (← number? b (i + 20) 2) ≤ b.size)
  let here ← number? b (i + 8) 2
  let total ← number? b (i + 10) 2
  let offset ← number? b (i + 16) 4
  match if total = 0xFFFF ∨ offset = 0xFFFFFFFF then locator? b i else none with
  | some locator => wideDirectory? b locator
  | none =>
    guard ((← number? b (i + 4) 2) = (← number? b (i + 6) 2))
    if total = 0 then return ⟨i - offset, offset + (i - offset), here⟩
    else
      guard (offset < i)
      let start ← firstMark? b centralMark offset i
      return ⟨start - offset, start, here⟩

structure Member where
  name : String
  content : ByteArray

namespace Member

variable (m : Member)

/-- What the header of the entry and the directory both tell, from the version that is needed to read it on. -/
def description : List UInt8 :=
  let name := m.name.toUTF8
  let flags := if name.data.toList.all (· < 128) then 0 else 0x800
  ofNumber 20 2 ++ ofNumber flags 2 ++ ofNumber 0 2 ++ ofNumber 0 2 ++ ofNumber 0x21 2 ++
    ofNumber (Crc32.checksum m.content).toNat 4 ++ ofNumber m.content.size 4 ++ ofNumber m.content.size 4 ++
    ofNumber name.size 2 ++ ofNumber 0 2

def entry : List UInt8 := ofNumber localMark 4 ++ m.description ++ m.name.toUTF8.data.toList ++ m.content.data.toList

def directoryEntry (start : Nat) : List UInt8 :=
  ofNumber centralMark 4 ++ ofNumber 20 2 ++ m.description ++ ofNumber 0 2 ++ ofNumber 0 2 ++ ofNumber 0 2 ++
    ofNumber 0 4 ++ ofNumber start 4 ++ m.name.toUTF8.data.toList

end Member

def directoryFrom (start : Nat) : List Member → List UInt8
  | [] => []
  | m :: ms => m.directoryEntry start ++ directoryFrom (start + m.entry.length) ms

def write (members : List Member) : ByteArray :=
  let contents := members.flatMap Member.entry
  let directory := directoryFrom 0 members
  let ending := ofNumber endMark 4 ++ ofNumber 0 2 ++ ofNumber 0 2 ++ ofNumber members.length 2 ++
    ofNumber members.length 2 ++ ofNumber directory.length 4 ++ ofNumber contents.length 4 ++ ofNumber 0 2
  ⟨(contents ++ directory ++ ending).toArray⟩

end Layering.Zip

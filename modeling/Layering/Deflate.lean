namespace Layering.Deflate

/-- What is left of the data: of the byte that was begun, the lowest bit first, and the bytes after it. -/
structure Source where
  bits : List Bool
  bytes : List UInt8

abbrev Reader := StateT Source Option

def Source.ofBytes (bytes : ByteArray) : Source := ⟨[], bytes.data.toList⟩

def bit : Reader Bool := fun s =>
  match s.bits, s.bytes with
  | b :: bits, _ => some (b, { s with bits })
  | [], c :: bytes => some (c.toNat.testBit 0, ⟨(List.range 7).map fun i => c.toNat.testBit (i + 1), bytes⟩)
  | [], [] => none

def number : Nat → Reader Nat
  | 0 => return 0
  | n + 1 => do
    let b ← bit
    return b.toNat + 2 * (← number n)

def align : Reader Unit := modify fun s => { s with bits := [] }

def byte : Reader UInt8 := return (← number 8).toUInt8

inductive Code where
  | unused
  | symbol (value : Nat)
  | branch (zero one : Code)
  deriving Repr

namespace Code

def zero : Code → Code
  | branch z _ => z
  | _ => unused

def one : Code → Code
  | branch _ o => o
  | _ => unused

def insert (value : Nat) : List Bool → Code → Code
  | [], _ => symbol value
  | false :: bits, c => branch (insert value bits c.zero) c.one
  | true :: bits, c => branch c.zero (insert value bits c.one)

/-- Codes of at most 15 bits share the numbers of 15 bits: each takes those that begin with it. -/
def share (length : Nat) : Nat := 32768 >>> length

def assign (start : Nat) : List (Nat × Nat) → List (Nat × List Bool)
  | [] => []
  | (length, value) :: rest =>
    (value, (List.range length).map fun i => start.testBit (14 - i)) :: assign (start + share length) rest

def used (lengths : List Nat) : List (Nat × Nat) :=
  (lengths.zipIdx.filter (·.1 ≠ 0)).mergeSort fun a b => a.1 ≤ b.1

/-- The code in which value `i` has a code of `lengths[i]` bits, none for 0. Every sequence of bits must begin with a
code, unless no value is used, or only one, with a code of one bit. -/
def ofLengths (lengths : List Nat) : Option Code := do
  let values := used lengths
  guard (values.map (·.1) ∈ [[], [1]] ∨ values.foldl (fun n v => n + share v.1) 0 = 32768)
  return (assign 0 values).foldl (fun c v => c.insert v.1 v.2) unused

def read : Code → Reader Nat
  | unused => failure
  | symbol value => return value
  | branch zero one => do if ← bit then one.read else zero.read

end Code

/-- The shortest length of a repetition code and the number of bits to add to it, from code 257 on. -/
def lengthTable : Array (Nat × Nat) := #[
  (3, 0), (4, 0), (5, 0), (6, 0), (7, 0), (8, 0), (9, 0), (10, 0), (11, 1), (13, 1), (15, 1), (17, 1), (19, 2), (23, 2),
  (27, 2), (31, 2), (35, 3), (43, 3), (51, 3), (59, 3), (67, 4), (83, 4), (99, 4), (115, 4), (131, 5), (163, 5),
  (195, 5), (227, 5), (258, 0)]

def distanceTable : Array (Nat × Nat) := #[
  (1, 0), (2, 0), (3, 0), (4, 0), (5, 1), (7, 1), (9, 2), (13, 2), (17, 3), (25, 3), (33, 4), (49, 4), (65, 5), (97, 5),
  (129, 6), (193, 6), (257, 7), (385, 7), (513, 8), (769, 8), (1025, 9), (1537, 9), (2049, 10), (3073, 10), (4097, 11),
  (6145, 11), (8193, 12), (12289, 12), (16385, 13), (24577, 13)]

/-- The order in which a block tells the lengths of the codes for its code lengths. -/
def lengthOrder : List Nat := [16, 17, 18, 0, 8, 7, 9, 6, 10, 5, 11, 4, 12, 3, 13, 2, 14, 1, 15]

structure Codes where
  literals : Code
  distances : Code

def Codes.ofLengths (literals distances : List Nat) : Option Codes :=
  return ⟨← Code.ofLengths literals, ← Code.ofLengths distances⟩

def Codes.fixed : Option Codes :=
  Codes.ofLengths (.replicate 144 8 ++ .replicate 112 9 ++ .replicate 24 7 ++ .replicate 8 8) (.replicate 32 5)

/-- Repeats `length` bytes, the first of which stands `distance` before the end; they may reach into those that are
added here. Before the first byte of all there are zeros. -/
def repeatFrom (distance : Nat) : Nat → ByteArray → ByteArray
  | 0, out => out
  | length + 1, out =>
    repeatFrom distance length (out.push (if distance ≤ out.size then out[out.size - distance]?.getD 0 else 0))

def tableValue (table : Array (Nat × Nat)) (i : Nat) : Reader Nat := do
  let (least, bits) ← table[i]?
  return least + (← number bits)

def symbols (codes : Codes) : Nat → ByteArray → Reader ByteArray
  | 0, _ => failure
  | n + 1, out => do
    let value ← codes.literals.read
    if value < 256 then symbols codes n (out.push value.toUInt8)
    else if value = 256 then return out
    else
      let length ← tableValue lengthTable (value - 257)
      let distance ← tableValue distanceTable (← codes.distances.read)
      symbols codes n (repeatFrom distance length out)

def lengthRun (code : Code) (last : Option Nat) : Reader (Nat × Nat) := do
  match ← code.read with
  | 16 => return (3 + (← number 2), ← last)
  | 17 => return (3 + (← number 3), 0)
  | 18 => return (11 + (← number 7), 0)
  | length => return (1, length)

/-- Code lengths in reverse, in at most `n` runs after those that are read, until there are `count`. -/
def codeLengths (code : Code) (count : Nat) : Nat → List Nat → Reader (List Nat)
  | 0, read => return read
  | n + 1, read => do
    if count ≤ read.length then return read
    else
      let (times, length) ← lengthRun code read.head?
      codeLengths code count n (.replicate times length ++ read)

def dynamicCodes : Reader Codes := do
  let literals := 257 + (← number 5)
  let distances := 1 + (← number 5)
  let told := 4 + (← number 4)
  guard (literals ≤ 286 ∧ distances ≤ 30)
  let lengths ← (List.range told).mapM fun _ => number 3
  let code ← Code.ofLengths ((List.range 19).map fun i => ((lengthOrder.zip lengths).lookup i).getD 0)
  let lengths := (← codeLengths code (literals + distances) (literals + distances) []).reverse
  guard (lengths.length = literals + distances)
  Codes.ofLengths (lengths.take literals) (lengths.drop literals)

def storedBlock (out : ByteArray) : Reader ByteArray := do
  align
  let length ← number 16
  guard (length + (← number 16) = 0xFFFF)
  (List.range length).foldlM (fun out _ => return out.push (← byte)) out

def block (most : Nat) (out : ByteArray) : Reader ByteArray := do
  match ← number 2 with
  | 0 => storedBlock out
  | 1 => symbols (← Codes.fixed) most out
  | 2 => symbols (← dynamicCodes) most out
  | _ => failure

/-- Each block and each code in it takes a bit at least, so that there are at most `most` of either. -/
def blocks (most : Nat) : Nat → ByteArray → Reader ByteArray
  | 0, _ => failure
  | n + 1, out => do
    let last ← bit
    let out ← block most out
    if last then return out else blocks most n out

def inflate (bytes : ByteArray) : Option ByteArray :=
  (blocks (8 * bytes.size) (8 * bytes.size) .empty).run' (.ofBytes bytes)

end Layering.Deflate

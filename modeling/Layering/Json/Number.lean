import Layering.Json.Basic

namespace Layering.Json.Number

def digit (c : Char) : Nat := c.toNat - '0'.toNat

/-- The number that digits write, read on until the next one would not fit 64 bits, and the digits left. -/
def significand (n : Nat) : List Char → Nat × List Char
  | [] => (n, [])
  | c :: cs =>
    let n' := 10 * n + digit c
    if n' < UInt64.size then significand n' cs else (n, c :: cs)

def pow10 (n : Nat) : Float := .ofScientific 1 false n

def scale (n : Nat) (exponent : Int) : Option Float :=
  let x := n.toUInt64.toFloat
  if exponent > 308 then if n = 0 then some 0 else none
  else if exponent ≥ 0 then
    let y := x * pow10 exponent.toNat
    if y.isInf then none else some y
  else if exponent ≥ -308 then some (x / pow10 (-exponent).toNat)
  else if exponent ≥ -616 then some (x / pow10 308 / pow10 (-exponent - 308).toNat)
  else some 0

structure Parts where
  negative : Bool
  whole : List Char
  fraction : Option (List Char)
  exponent : Option (Bool × List Char)

def takeSign : List Char → Bool × List Char
  | '-' :: cs => (true, cs)
  | cs => (false, cs)

def takeFraction : List Char → Option (List Char) × List Char
  | '.' :: cs => (some (cs.takeWhile Char.isDigit), cs.dropWhile Char.isDigit)
  | cs => (none, cs)

def takeExponent : List Char → Option (Bool × List Char) × List Char
  | 'e' :: '-' :: cs | 'E' :: '-' :: cs => (some (true, cs), [])
  | 'e' :: '+' :: cs | 'E' :: '+' :: cs => (some (false, cs), [])
  | 'e' :: cs | 'E' :: cs => (some (false, cs), [])
  | cs => (none, cs)

def isWhole : List Char → Bool
  | [] | '0' :: _ :: _ => false
  | _ => true

def Parts.ofChars (cs : List Char) : Option Parts := do
  let (negative, cs) := takeSign cs
  let whole := cs.takeWhile Char.isDigit
  let (fraction, cs) := takeFraction (cs.dropWhile Char.isDigit)
  let (exponent, cs) := takeExponent cs
  guard (cs.isEmpty && isWhole whole && fraction != some [])
  guard (exponent.all fun (_, ds) => !ds.isEmpty && ds.all Char.isDigit)
  return ⟨negative, whole, fraction, exponent⟩

def signed (negative : Bool) (x : Float) : Json := .float (if negative then -x else x).toBits

/-- Without fraction and exponent an integer, if 64 bits hold it, and else a double: as many leading digits as fit 64 bits,
scaled by one power of ten. An exponent of more than 31 bits leaves only zero. -/
def Parts.value (p : Parts) : Option Json :=
  let (n, dropped) := significand 0 p.whole
  match p.fraction, p.exponent, dropped with
  | none, none, [] =>
    if !p.negative then some (.int n)
    else if 0 < n ∧ n ≤ 0x8000000000000000 then some (.int (-n))
    else some (signed true n.toUInt64.toFloat)
  | fraction, exponent, dropped =>
    let (n, unread) := significand n (fraction.getD [])
    let shift : Int := dropped.length - ((fraction.getD []).length - unread.length : Nat)
    let (down, e) := match exponent with
      | some (down, ds) => (down, ds.foldl (fun e c => min (10 * e + digit c) (0x80000000)) 0)
      | none => (false, 0)
    if e = 0x80000000 then if n = 0 ∨ down then some (signed p.negative 0) else none
    else (scale n (if down then shift - e else shift + e)).map (signed p.negative)

def ofChars (cs : List Char) : Option Json := Parts.ofChars cs >>= Parts.value

end Layering.Json.Number

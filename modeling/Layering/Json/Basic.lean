namespace Layering

namespace Decimal

/-- A finite positive double as `mantissa * 2 ^ exponent`, and whether the double below is only half as far. -/
structure Binary where
  mantissa : Nat
  exponent : Int
  narrow : Bool

/-- `0.d₁d₂… * 10 ^ point` -/
structure Digits where
  digits : List Char
  point : Int

def Binary.ofBits (bits : UInt64) : Binary :=
  let fraction := bits.toNat % 0x10000000000000
  let e : Nat := bits.toNat / 0x10000000000000 % 2048
  if e = 0 then ⟨fraction, -1074, false⟩ else ⟨0x10000000000000 + fraction, e - 1075, fraction == 0 && 1 < e⟩

structure Ratio where
  num : Nat
  den : Nat

def Ratio.le (a b : Ratio) : Bool := a.num * b.den ≤ b.num * a.den

def Ratio.lt (a b : Ratio) : Bool := a.num * b.den < b.num * a.den

def Ratio.scaled (n base : Nat) (e : Int) : Ratio :=
  if 0 ≤ e then ⟨n * base.pow e.toNat, 1⟩ else ⟨n, base.pow (-e).toNat⟩

def Ratio.times (a b : Ratio) : Ratio := ⟨a.num * b.num, a.den * b.den⟩

variable (b : Binary)

def Binary.value : Ratio := .scaled (4 * b.mantissa) 2 (b.exponent - 2)

def Binary.low : Ratio := .scaled (4 * b.mantissa - if b.narrow then 1 else 2) 2 (b.exponent - 2)

def Binary.high : Ratio := .scaled (4 * b.mantissa + 2) 2 (b.exponent - 2)

/-- Whether a decimal reads back as this double: ends of the interval do if the mantissa is even. -/
def Binary.names (r : Ratio) : Bool :=
  if b.mantissa % 2 = 0 then b.low.le r && r.le b.high else b.low.lt r && r.lt b.high

def Binary.point : Int :=
  let below := (List.range 700).find? fun (k : Nat) => (Ratio.scaled 1 10 (309 - (k : Int))).le b.value
  310 - (below.getD 0 : Int)

/-- The two decimals of `n` digits around the value, the nearer one first. -/
def Binary.around (n : Nat) : List Nat :=
  let q := b.value.times (.scaled 1 10 (n - b.point))
  let floor := q.num / q.den
  let rest := 2 * (q.num % q.den)
  if rest < q.den ∨ rest = q.den ∧ floor % 2 = 0 then [floor, floor + 1] else [floor + 1, floor]

def Binary.shortest : Digits :=
  let point := b.point
  let hit := (List.range' 1 17).findSome? fun n =>
    (b.around n).find? (fun c => b.names (.scaled c 10 (point - n))) |>.map fun c => (n, c)
  let (n, c) := hit.getD (17, 0)
  let digits := Nat.toDigits 10 c
  ⟨(digits.reverse.dropWhile (· == '0')).reverse, point + (digits.length - n : Int)⟩

end Decimal

/-- A JSON value. A number that is no 64-bit integer is a double, by its bits. -/
inductive Json where
  | null
  | bool (b : Bool)
  | int (n : Int)
  | float (bits : UInt64)
  | str (s : String)
  | arr (items : List Json)
  | obj (fields : List (String × Json))
  deriving BEq, Repr, Inhabited

namespace Json

/-- Keeps the keys ascending by code point; a later value replaces an earlier one. -/
def insertField (key : String) (value : Json) : List (String × Json) → List (String × Json)
  | [] => [(key, value)]
  | f :: fs =>
    if key = f.1 then (key, value) :: fs
    else if key < f.1 then (key, value) :: f :: fs
    else f :: insertField key value fs

def get? (key : String) : Json → Option Json
  | obj fields => fields.lookup key
  | _ => none

def asString? : Json → Option String
  | str s => some s
  | _ => none

def record : List String → List (Option Json) → List (String × Json)
  | name :: names, some v :: vs => (name, v) :: record names vs
  | _ :: names, none :: vs => record names vs
  | _, _ => []

def word (n : Nat) : Json := int (UInt64.ofNat n).toNat

namespace Writer

def escape (c : Char) : List Char :=
  match c with
  | '"' => ['\\', '"']
  | '\\' => ['\\', '\\']
  | '\x08' => ['\\', 'b']
  | '\x0c' => ['\\', 'f']
  | '\n' => ['\\', 'n']
  | '\r' => ['\\', 'r']
  | '\t' => ['\\', 't']
  | c =>
    if c < ' ' then ['\\', 'u', '0', '0', Nat.digitChar (c.toNat / 16), Nat.digitChar (c.toNat % 16)] else [c]

def string (s : String) : List Char := '"' :: s.toList.flatMap escape ++ ['"']

/-- Positional from `1e-5` up to `1e16`, always with a point; otherwise one digit before the point, and an exponent with
its sign. -/
def decimal (d : Decimal.Digits) : List Char :=
  let n : Int := d.digits.length
  if n ≤ d.point ∧ d.point ≤ 16 then d.digits ++ List.replicate (d.point - n).toNat '0' ++ ['.', '0']
  else if 0 < d.point ∧ d.point ≤ 16 then d.digits.take d.point.toNat ++ '.' :: d.digits.drop d.point.toNat
  else if -5 < d.point ∧ d.point ≤ 0 then '0' :: '.' :: List.replicate (-d.point).toNat '0' ++ d.digits
  else
    let mantissa := match d.digits with
      | first :: second :: more => first :: '.' :: second :: more
      | digits => digits
    mantissa ++ 'e' :: (if 0 < d.point then '+' else '-') :: Nat.toDigits 10 (d.point - 1).natAbs

def float (bits : UInt64) : List Char :=
  let negative := 0x8000000000000000 ≤ bits.toNat
  let size := if negative then bits - 0x8000000000000000 else bits
  let text := if size = 0 then ['0', '.', '0'] else decimal (Decimal.Binary.ofBits size).shortest
  if negative then '-' :: text else text

structure Layout where
  line : Nat → List Char
  gap : List Char

def pretty : Layout := ⟨fun depth => '\n' :: List.replicate (2 * depth) ' ', [' ']⟩

def compact : Layout := ⟨fun _ => [], []⟩

variable (l : Layout)

mutual

def value (depth : Nat) : Json → List Char
  | .null => ['n', 'u', 'l', 'l']
  | .bool true => ['t', 'r', 'u', 'e']
  | .bool false => ['f', 'a', 'l', 's', 'e']
  | .int n => (toString n).toList
  | .float bits => float bits
  | .str s => string s
  | .arr [] => ['[', ']']
  | .arr (v :: vs) => '[' :: l.line (depth + 1) ++ value (depth + 1) v ++ items depth vs
  | .obj [] => ['{', '}']
  | .obj (f :: fs) =>
    '{' :: l.line (depth + 1) ++ string f.1 ++ ':' :: l.gap ++ value (depth + 1) f.2 ++ fields depth fs

def items (depth : Nat) : List Json → List Char
  | [] => l.line depth ++ [']']
  | v :: vs => ',' :: l.line (depth + 1) ++ value (depth + 1) v ++ items depth vs

def fields (depth : Nat) : List (String × Json) → List Char
  | [] => l.line depth ++ ['}']
  | f :: fs => ',' :: l.line (depth + 1) ++ string f.1 ++ ':' :: l.gap ++ value (depth + 1) f.2 ++ fields depth fs

end

end Writer

def pretty (v : Json) : String := .ofList (Writer.value Writer.pretty 0 v)

def compact (v : Json) : String := .ofList (Writer.value Writer.compact 0 v)

end Json

end Layering

import Layering.Text.Basic
import Layering.Disk.Basic

namespace Layering

inductive OrderError where
  | tooManyCommas (position : Nat)
  | parenthesesMismatch
  | unreadable (cause : ReadError)
  deriving DecidableEq, Repr

def OrderError.message : OrderError → String
  | .tooManyCommas position => s!"package order parse error: too many commas (',') at position {position}"
  | .parenthesesMismatch => "package order parse error: parentheses mismatch"
  | .unreadable cause => s!"package order read error: {cause.message}"

/-- Packages by layer, the lowest first: the groups below, and the group on top of them. A name may stand in
several groups; its rank is the one it was given last. -/
structure RankTable where
  below : List (List String)
  top : List String
  ranks : List (String × Nat)
  deriving DecidableEq, Repr

namespace RankTable

def empty : RankTable := ⟨[], [], []⟩

def assign (name : String) (rank : Nat) : List (String × Nat) → List (String × Nat)
  | [] => [(name, rank)]
  | e :: es => if e.1 = name then (name, rank) :: es else e :: assign name rank es

variable (t : RankTable)

def groups : List (List String) := t.below ++ [t.top]

def rankCount : Nat := t.groups.length

def rank (name : String) : Option Nat := t.ranks.lookup name

def atRank (rank : Nat) : List String := t.groups[rank]?.getD []

def size : Nat := t.ranks.length

def isEmpty : Bool := t.ranks.isEmpty

def add (name : String) : RankTable :=
  { t with
    top := if name ∈ t.top then t.top else t.top ++ [name]
    ranks := assign name t.below.length t.ranks }

def openGroup : RankTable := { t with below := t.below ++ [t.top], top := [] }

end RankTable

structure OrderScan where
  table : RankTable
  name : List Char
  grouped : Bool
  position : Nat

namespace OrderScan

def start : OrderScan := ⟨.empty, [], false, 0⟩

variable (s : OrderScan)

def endName : RankTable := if s.name.isEmpty then s.table else s.table.add (.ofList s.name.reverse)

def step (c : Char) : Except OrderError OrderScan :=
  let s' := { s with position := s.position + 1 }
  if c = ',' then
    if s.name.isEmpty then .error (.tooManyCommas s.position)
    else .ok { s' with table := if s.grouped then s.endName else s.endName.openGroup, name := [] }
  else if c = '(' then .ok { s' with grouped := true }
  else if c = ')' then .ok { s' with grouped := false }
  else if isBlank c then .ok s'
  else .ok { s' with name := c :: s.name }

def finish : Except OrderError RankTable :=
  if s.grouped then .error .parenthesesMismatch else .ok s.endName

end OrderScan

namespace RankTable

/-- Names between commas, each on a layer of its own above the one before; names in parentheses share a layer.
Blanks count nowhere, not even inside a name, and a parenthesis that closes nothing is passed over. -/
def parse (text : String) : Except OrderError RankTable := do
  (← text.toList.foldlM OrderScan.step .start).finish

def ofBytes (bytes : ByteArray) : Except OrderError RankTable :=
  match String.fromUTF8? bytes with
  | some text => parse text
  | none => .error (.unreadable .notUtf8)

end RankTable

end Layering

import Layering.Model
import Layering.Order

namespace Layering

inductive Mode where
  | first
  | all
  deriving DecidableEq, Repr

def Mode.text : Mode → String
  | .first => "first"
  | .all => "all"

structure MissingRank where
  package : String
  deriving DecidableEq, Repr

def MissingRank.message (e : MissingRank) : String :=
  s!"package order should rank ALL packages in swc. Package {e.package} is missing."

/-- `package` needs `symbol`, which the higher `owner` exports. -/
structure Violation where
  package : String
  packageRank : Nat
  symbol : Symbol
  owner : String
  ownerRank : Nat
  deriving DecidableEq, Repr

def Violation.message (v : Violation) : String :=
  s!"package {v.package} cannot import or use symbol: {v.symbol.display}"

namespace Model

variable (m : Model) (t : RankTable)

def unranked? : Option String := (m.packages.find? fun p => (t.rank p.name).isNone).map (·.name)

def complete : Except MissingRank Unit :=
  match m.unranked? t with
  | some package => .error ⟨package⟩
  | none => .ok ()

variable (mode : Mode)

/-- The violations among dependencies of a package of rank `low`, as declared; none for a symbol in `reported`, those
that the package is known to violate. -/
def scanDependencies (p : Package) (low : Nat) (reported : List Symbol) : List Symbol → List Violation
  | [] => []
  | d :: ds =>
    match m.resolve d with
    | .external => scanDependencies p low reported ds
    | .internal owner =>
      match t.rank owner.name with
      | none => scanDependencies p low reported ds
      | some high =>
        if high ≤ low ∨ d ∈ reported then scanDependencies p low reported ds
        else ⟨p.name, low, d, owner.name, high⟩ ::
          match mode with
          | .first => []
          | .all => scanDependencies p low (d :: reported) ds

def scanPackages : List Package → List Violation
  | [] => []
  | p :: ps =>
    match t.rank p.name with
    | none => scanPackages ps
    | some low =>
      match mode, m.scanDependencies t mode p low [] p.dependencies with
      | .first, v :: vs => v :: vs
      | _, found => found ++ scanPackages ps

/-- A package may depend on packages of its own rank and lower. Without a rank for every package no
dependency is looked at. -/
def validate : Except MissingRank (List Violation) := do
  m.complete t
  return m.scanPackages t mode m.packages

end Model

end Layering

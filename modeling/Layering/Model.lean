import Layering.Text.Quoted

namespace Layering

inductive SymbolError where
  | emptyPackage (id : String)
  | malformedId (id : String)
  | foreignExport (package symbol : String)
  deriving DecidableEq, Repr

def SymbolError.message : SymbolError → String
  | .emptyPackage id => s!"symbol has an empty package name: {quoted id}"
  | .malformedId id => s!"malformed symbol id: {quoted id}"
  | .foreignExport package symbol =>
      s!"package {package} cannot export symbol {symbol} owned by another package"

structure Symbol where
  package : String
  name : String
  package_ne_empty : package ≠ ""
  deriving DecidableEq, Repr

namespace Symbol

def defaultPackage : String := "default"

def display (s : Symbol) : String := s.package ++ ":" ++ s.name

instance : ToString Symbol := ⟨display⟩

def make (package name : String) : Except SymbolError Symbol :=
  if h : package = "" then .error (.emptyPackage (package ++ ":" ++ name)) else .ok ⟨package, name, h⟩

/-- A qualified id is `package:name`, or a bare name in the default package; the name is never empty. -/
def parse (id : String) : Except SymbolError Symbol :=
  match id.toList.splitOn ':' with
  | [[]] | [_, []] => .error (.malformedId id)
  | [name] => make defaultPackage (.ofList name)
  | [package, name] => make (.ofList package) (.ofList name)
  | _ => .error (.malformedId id)

instance : LT Symbol := ⟨fun a b => a.package < b.package ∨ a.package = b.package ∧ a.name < b.name⟩

instance (a b : Symbol) : Decidable (a < b) :=
  inferInstanceAs (Decidable (a.package < b.package ∨ a.package = b.package ∧ a.name < b.name))

def sort (symbols : List Symbol) : List Symbol := symbols.mergeSort fun a b => !decide (b < a)

end Symbol

/-- The symbols a package defines, ascending and without repeats, and those it needs, as declared. -/
structure Package where
  name : String
  exports : List Symbol
  dependencies : List Symbol
  deriving DecidableEq, Repr

namespace Package

def empty (name : String) : Package := ⟨name, [], []⟩

def insertExport (s : Symbol) : List Symbol → List Symbol
  | [] => [s]
  | x :: xs => if s < x then s :: x :: xs else if s = x then x :: xs else x :: insertExport s xs

theorem mem_insertExport {s a : Symbol} {xs : List Symbol} : a ∈ insertExport s xs ↔ a = s ∨ a ∈ xs := by
  induction xs with
  | nil => simp [insertExport]
  | cons x xs ih =>
      by_cases hx : s = x
      · subst hx
        by_cases hl : s < s <;> simp [insertExport, hl]
      · by_cases hl : s < x <;> simp [insertExport, hl, hx, ih, or_left_comm]

variable (p : Package) (s : Symbol)

def has : Bool := p.exports.contains s

def define : Package := { p with exports := insertExport s p.exports }

def addExport : Except SymbolError Package :=
  if s.package = p.name then .ok (p.define s) else .error (.foreignExport p.name s.display)

def addDependency : Package := { p with dependencies := p.dependencies ++ [s] }

end Package

/-- The packages of one archive in the order of their discovery, and the position of each by its name. -/
structure Model where
  packages : List Package
  index : List (String × Nat)
  deriving DecidableEq, Repr

namespace Model

def empty : Model := ⟨[], []⟩

inductive Origin where
  | internal (owner : Package)
  | external
  deriving DecidableEq, Repr

variable (m : Model)

def position? (name : String) : Option Nat := m.index.lookup name

def find? (name : String) : Option Package := m.position? name >>= (m.packages[·]?)

/-- Changes the package of this name, a new one at the end of the list if there is none. -/
def update (name : String) (f : Package → Package) : Model :=
  match m.position? name with
  | some i => { m with packages := m.packages.modify i f }
  | none => ⟨m.packages ++ [f (.empty name)], (name, m.packages.length) :: m.index⟩

def touch (name : String) : Model := m.update name id

def define (s : Symbol) : Model := m.update s.package (·.define s)

/-- A refused export has still touched its package. -/
def addExport (name : String) (s : Symbol) : Model × Except SymbolError Unit :=
  match ((m.find? name).getD (.empty name)).addExport s with
  | .ok p => (m.update name fun _ => p, .ok ())
  | .error e => (m.touch name, .error e)

def addDependency (name : String) (d : Symbol) : Model := m.update name (·.addDependency d)

/-- A needed symbol is internal if its package is in the model and exports exactly it. -/
def resolve (d : Symbol) : Origin :=
  match m.find? d.package with
  | some owner => if owner.has d then .internal owner else .external
  | none => .external

def isInternal (d : Symbol) : Bool :=
  match m.resolve d with
  | .internal _ => true
  | .external => false

def dependencies : List Symbol := m.packages.flatMap (·.dependencies)

def dependencyCount : Nat := m.dependencies.length

inductive Step where
  | define (s : Symbol)
  | touch (name : String)
  | addExport (name : String) (s : Symbol)
  | addDependency (name : String) (d : Symbol)
  deriving DecidableEq, Repr

def apply : Step → Model
  | .define s => m.define s
  | .touch name => m.touch name
  | .addExport name s => (m.addExport name s).1
  | .addDependency name d => m.addDependency name d

def replay (steps : List Step) : Model := steps.foldl apply m

end Model

def Reachable (m : Model) : Prop := ∃ steps, m = Model.empty.replay steps

/-- A package with its exports, and its dependencies split by where they come from: as declared, and the
packages they name, each once. -/
structure PackageInventory where
  package : String
  exports : List Symbol
  internal : List Symbol
  internalPackages : List String
  external : List Symbol
  externalPackages : List String
  deriving DecidableEq, Repr

namespace Model

variable (m : Model)

def inventoryOf (p : Package) : PackageInventory :=
  let internal := p.dependencies.filter m.isInternal
  let external := p.dependencies.filter (!m.isInternal ·)
  { package := p.name
    exports := p.exports
    internal
    internalPackages := (internal.map (·.package)).eraseDups
    external
    externalPackages := (external.map (·.package)).eraseDups }

def inventory : List PackageInventory := m.packages.map m.inventoryOf

def internalCount : Nat := m.dependencies.countP m.isInternal

def externalCount : Nat := m.dependencies.countP (!m.isInternal ·)

end Model

end Layering

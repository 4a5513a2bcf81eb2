import Layering.Disk.Basic

namespace Layering

abbrev Location := List (List Char)

structure Workspace where
  items : List (Location × Item)
  here : Location
  clock : Instant

namespace Workspace

variable (w : Workspace)

def item? (l : Location) : Option Item := if l = [] then some .directory else w.items.lookup l

def put (l : Location) (i : Item) : Workspace := { w with items := (l, i) :: w.items.filter (·.1 ≠ l) }

def isDirectory (l : Location) : Bool :=
  match w.item? l with
  | some .directory => true
  | _ => false

def enter (l : Location) : Except OsError Unit :=
  match w.item? l with
  | some .directory => .ok ()
  | some (.file _) => .error .notADirectory
  | none => .error .notFound

def follow (l : Location) (piece : List Char) : Except OsError Location := do
  w.enter l
  if Path.isIdle piece then return l
  else if piece = ['.', '.'] then return l.dropLast
  else if 255 < (String.ofList piece).utf8ByteSize then throw .nameTooLong
  else return l ++ [piece]

def followAll (p : Path) (pieces : List (List Char)) : Except OsError Location := do
  if p.isEmpty then throw .notFound
  if '\x00' ∈ p.toList then throw .unusablePath
  if 4096 ≤ p.utf8ByteSize then throw .nameTooLong
  pieces.foldlM w.follow (if p.isAbsolute then [] else w.here)

def find (p : Path) : Except OsError Item := do
  match w.item? (← w.followAll p p.pieces) with
  | some i => return i
  | none => throw .notFound

def backwards (p : Path) : List (List Char) := p.pieces.reverse.dropWhile (·.isEmpty)

/-- Where an item of this path is or would be, in a directory that is there; `occupied` if the path names a directory by
way of dots, or the root. -/
def place (p : Path) (occupied : OsError) : Except OsError Location :=
  match backwards p with
  | [] => if p.isEmpty then .error .notFound else .error occupied
  | name :: before => do
    let dir ← w.followAll p before.reverse
    let l ← w.follow dir name
    if Path.isIdle name ∨ name = ['.', '.'] then throw occupied
    return l

def write (p : Path) (content : ByteArray) : Except OsError Workspace := do
  let l ← w.place p .isADirectory
  if p.toList.getLast? = some '/' ∨ w.isDirectory l then throw .isADirectory
  return w.put l (.file content)

def makeDirectory (p : Path) : Except OsError Workspace := do
  let l ← w.place p .alreadyExists
  match w.item? l with
  | some _ => throw .alreadyExists
  | none => return w.put l .directory

def change (f : Workspace → Except OsError Workspace) : StateM Workspace (Except OsError Unit) := do
  match f (← get) with
  | .ok w =>
    set w
    return .ok ()
  | .error e => return .error e

instance : Disk (StateM Workspace) where
  find p := return (← get).find p
  write p content := change (·.write p content)
  makeDirectory p := change (·.makeDirectory p)
  now := return (← get).clock

end Workspace

end Layering

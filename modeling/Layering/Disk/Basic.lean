import Layering.Report.Basic

namespace Layering

inductive OsError where
  | notFound
  | alreadyExists
  | notADirectory
  | isADirectory
  | nameTooLong
  | unusablePath
  | other (code : Nat) (text : String)
  deriving DecidableEq, Repr

def OsError.message : OsError → String
  | .notFound => "No such file or directory (os error 2)"
  | .alreadyExists => "File exists (os error 17)"
  | .notADirectory => "Not a directory (os error 20)"
  | .isADirectory => "Is a directory (os error 21)"
  | .nameTooLong => "File name too long (os error 36)"
  | .unusablePath => "file name contained an unexpected NUL byte"
  | .other code text => s!"{text} (os error {code})"

inductive ReadError where
  | os (cause : OsError)
  | notUtf8
  | corrupt
  deriving DecidableEq, Repr

def ReadError.message : ReadError → String
  | .os cause => cause.message
  | .notUtf8 => "stream did not contain valid UTF-8"
  | .corrupt => "corrupt data"

/-- A path as it is written. Pieces are divided by slashes; a path that begins with one is absolute. -/
abbrev Path := String

namespace Path

def isAbsolute (p : Path) : Bool := p.toList.head? == some '/'

/-- An absolute path replaces the directory; any other follows it after one slash. -/
def join (dir p : Path) : Path :=
  if p.isAbsolute ∨ dir.isEmpty then p
  else if dir.toList.getLast? = some '/' then dir ++ p
  else dir ++ "/" ++ p

def pieces (p : Path) : List (List Char) := p.toList.splitOn '/'

def ofPieces (ps : List (List Char)) : Path := .ofList (['/'].intercalate ps)

def isIdle (piece : List Char) : Bool := piece == [] || piece == ['.']

def dropIdle (ps : List (List Char)) : List (List Char) := (ps.reverse.dropWhile isIdle).reverse

/-- What is left without the last piece that leads anywhere; a dot in front does too. The root and the empty path have
no parent. -/
def parent? (p : Path) : Option Path :=
  match p.pieces with
  | [] :: p :: ps =>
    match dropIdle (p :: ps) with
    | [] => none
    | ps => some ("/" ++ ofPieces (dropIdle ps.dropLast))
  | [[]] | [] => none
  | p :: ps =>
    match dropIdle ps with
    | [] => some ""
    | ps => some (ofPieces (p :: dropIdle ps.dropLast))

/-- The directories that a path is in, the nearest first; at most `n` of them. -/
def ancestors (p : Path) : Nat → List Path
  | 0 => []
  | n + 1 =>
    match p.parent? with
    | some parent => if parent.isEmpty then [] else parent :: ancestors parent n
    | none => []

end Path

inductive Item where
  | file (content : ByteArray)
  | directory

class Disk (m : Type → Type) where
  find : Path → m (Except OsError Item)
  write : Path → ByteArray → m (Except OsError Unit)
  makeDirectory : Path → m (Except OsError Unit)
  now : m Instant

namespace Disk

variable {m : Type → Type} [Monad m] [Disk m]

def isDirectory (p : Path) : m Bool := do
  match ← find p with
  | .ok .directory => return true
  | _ => return false

def readText (p : Path) : m (Except ReadError String) := do
  match ← find p with
  | .error e => return .error (.os e)
  | .ok .directory => return .error (.os .isADirectory)
  | .ok (.file content) => return (String.fromUTF8? content).elim (.error .notUtf8) .ok

def ensureDirectory (p : Path) : m (Except OsError Unit) := do
  match ← makeDirectory p with
  | .ok () => return .ok ()
  | .error e => return if ← isDirectory p then .ok () else .error e

/-- Makes a directory. Where its parent is missing, that is made before; the directories it is in are given, the nearest
first. -/
def makeFrom (p : Path) : List Path → m (Except OsError Unit)
  | [] => ensureDirectory p
  | parent :: above => do
    match ← ensureDirectory p with
    | .error .notFound =>
      match ← makeFrom parent above with
      | .ok () => ensureDirectory p
      | .error e => return .error e
    | r => return r

/-- Makes a directory and all that it is in. The empty path is the directory that one is in. -/
def makeDirectories (p : Path) : m (Except OsError Unit) :=
  if p.isEmpty then pure (.ok ()) else makeFrom p (p.ancestors p.length)

end Disk

end Layering

import Layering.Command.Line
import Std.Time.DateTime.Timestamp

namespace Layering

/-- Codes of the system are told as they are or below 2 ^ 32. -/
def OsError.ofCode (code : UInt32) (text : String) : OsError :=
  match if code < 0x80000000 then code else 0 - code with
  | 2 => .notFound
  | 17 => .alreadyExists
  | 20 => .notADirectory
  | 21 => .isADirectory
  | 22 => .unusablePath
  | 36 => .nameTooLong
  | code => .other code.toNat text

def OsError.ofIO : IO.Error → OsError
  | .noFileOrDirectory _ code text => .ofCode code text
  | .alreadyExists _ code text | .inappropriateType _ code text | .invalidArgument _ code text
  | .permissionDenied _ code text | .resourceExhausted _ code text => .ofCode code text
  | .otherError code text | .illegalOperation code text | .resourceBusy code text => .ofCode code text
  | e => .other 0 (toString e)

def orRefused {α : Type} (x : IO α) : IO (Except OsError α) := do
  try return .ok (← x) catch e => return .error (.ofIO e)

instance : Disk IO where
  find p := do
    match ← orRefused (IO.FS.readBinFile p) with
    | .ok content => return .ok (.file content)
    | .error .isADirectory => return .ok .directory
    | .error e => return .error e
  write p content := orRefused (IO.FS.writeBinFile p content)
  makeDirectory p := orRefused (IO.FS.createDir p)
  now := do
    let t := (← Std.Time.Timestamp.now).toNanosecondsSinceUnixEpoch.toInt.toNat
    let d := DateTime.ofUnix (t / 1000000000) (t % 1000000000)
    return if valid : d.Valid then ⟨d, valid⟩ else .epoch

end Layering

def main (args : List String) : IO UInt32 := do
  let o ← Layering.CommandLine.run args
  IO.print o.stdout
  IO.eprint o.stderr
  return o.code

import Layering.Disk.Basic
import Layering.Evaluation
import Layering.Failure

namespace Layering

/-- What may be chosen in the settings file and again on the command line. -/
structure Choices where
  order : Option String
  orderFile : Option Path
  mode : Option String
  maxFindings : Option UInt32
  deriving DecidableEq, Repr

def Choices.none : Choices := ⟨.none, .none, .none, .none⟩

structure Settings extends Choices where
  schema : Option String
  deriving DecidableEq, Repr

def Settings.empty : Settings := ⟨.none, none⟩

def settingsSchema : String := "swcv.config.v1"

inductive OrderSource where
  | inline (text : String)
  | file (path : Path)
  deriving DecidableEq, Repr

structure Resolved where
  policy : Policy
  order : Option OrderSource
  deriving DecidableEq, Repr

namespace Choices

def orderSource (c : Choices) : Except Failure (Option OrderSource) :=
  match c.order, c.orderFile with
  | some _, some _ => .error ⟨[], .conflictingOrders⟩
  | some text, .none => .ok (some (.inline text))
  | .none, some path => .ok (some (.file path))
  | .none, .none => .ok .none

def relativeTo (dir : Path) (c : Choices) : Choices := { c with orderFile := c.orderFile.map dir.join }

/-- What was chosen in the end, on the command line (`given`) before in the settings file. -/
def resolve (file : Choices) (dir : Path) (given : Choices) : Except Failure Resolved := do
  let mode ← ((given.mode.or file.mode).map Mode.parse).getD (.ok Policy.default.mode)
  let maxFindings := ((given.maxFindings.or file.maxFindings).map (·.toNat)).getD Policy.default.maxFindings
  let chosen ← doing "invalid command line order" given.orderSource
  let configured ← doing "invalid config order" (file.relativeTo dir).orderSource
  return ⟨⟨mode, maxFindings⟩, chosen.or configured⟩

end Choices

end Layering

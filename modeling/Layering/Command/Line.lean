import Layering.Command.Basic

namespace Layering.CommandLine

/-- An option by its name and letter. Flags take no value; `accepts` tells which values the others take. -/
structure Switch where
  name : String
  letter : Option Char
  isFlag : Bool
  accepts : String → Bool

def flag (name : String) (letter : Option Char) : Switch := ⟨name, letter, true, fun _ => true⟩

def valued (name : String) : Switch := ⟨name, none, false, fun _ => true⟩

inductive Instead where
  | help
  | version
  | misuse
  deriving DecidableEq, Repr

/-- What is read of the arguments: values by the names of their options, operands in reverse, an option whose value is to
come, and whether nothing but operands follows. -/
structure Scan where
  values : List (String × String)
  operands : List String
  awaiting : Option Switch
  ended : Bool

namespace Scan

def start : Scan := ⟨[], [], none, false⟩

variable (switches : List Switch) (most : Nat) (s : Scan)

def value? (name : String) : Option String := s.values.lookup name

def give (w : Switch) (value : String) : Except Instead Scan :=
  if (s.value? w.name).isSome ∨ !w.accepts value then .error .misuse
  else .ok { s with values := (w.name, value) :: s.values, awaiting := none }

def raise (w : Switch) : Except Instead Scan :=
  match w.name with
  | "help" => .error .help
  | "version" => .error .version
  | _ => s.give w ""

def option (w : Switch) (attached : Option (List Char)) : Except Instead Scan :=
  if s.awaiting.isSome then .error .misuse
  else if w.isFlag then if attached.isSome then .error .misuse else s.raise w
  else
    match attached with
    | some value => s.give w (.ofList value)
    | none => .ok { s with awaiting := some w }

def long (text : List Char) : Except Instead Scan :=
  match switches.find? (·.name.toList = text.takeWhile (· ≠ '=')) with
  | some w => s.option w (text.dropWhile (· ≠ '=')).tail?
  | none => .error .misuse

/-- What follows one hyphen: letters of flags, and last that of an option with its value. -/
def letters (s : Scan) : List Char → Except Instead Scan
  | [] => .ok s
  | c :: rest =>
    match switches.find? (·.letter = some c) with
    | none => .error .misuse
    | some w =>
      if w.isFlag then do letters (← s.option w none) rest
      else
        match rest with
        | [] => s.option w none
        | '=' :: value | value => s.option w (some value)

def operand (a : String) : Except Instead Scan :=
  if s.awaiting.isSome ∨ most ≤ s.operands.length then .error .misuse
  else .ok { s with operands := a :: s.operands }

def isPlain (a : String) : Bool := a == "-" || a.toList.head? != some '-'

def argument (a : String) : Except Instead Scan :=
  if s.ended then s.operand most a
  else if isPlain a then
    match s.awaiting with
    | some w => s.give w a
    | none => s.operand most a
  else if a = "--" then .ok { s with ended := true }
  else
    match a.toList with
    | '-' :: '-' :: text => s.long switches text
    | text => letters switches s text.tail

def finish : Except Instead (List String) :=
  if s.awaiting.isSome ∨ s.operands.length ≠ most then .error .misuse else .ok s.operands.reverse

end Scan

def natural? (cs : List Char) : Option Nat :=
  if cs.isEmpty ∨ !cs.all Char.isDigit then none
  else some (cs.foldl (fun n c => 10 * n + (c.toNat - '0'.toNat)) 0)

def number? (limit : Nat) (text : String) : Option Nat :=
  (match text.toList with
    | '+' :: cs => natural? cs
    | cs => natural? cs).filter (· < limit)

/-- Zero may have a minus sign here. -/
def limit? (text : String) : Option UInt32 :=
  match text.toList with
  | '-' :: cs => ((natural? cs).filter (· = 0)).map fun _ => 0
  | _ => (number? UInt32.size text).map .ofNat

def globalSwitches : List Switch := [valued "config", flag "verbose" (some 'v'), flag "help" (some 'h')]

def rootSwitches : List Switch := flag "version" (some 'V') :: globalSwitches

/-- A command by its name: its own options, the number of its operands, and what it comes to, from the settings file,
the options and the operands. -/
structure Form where
  name : String
  switches : List Switch
  operands : Nat
  command : Path → Scan → List String → Except Instead Command

def checkForm : Form where
  name := "check"
  switches := [valued "order", valued "order-file", valued "mode",
    ⟨"max-findings", none, false, fun v => (limit? v).isSome⟩, valued "report-out", flag "write-markdown" none,
    valued "markdown-out"]
  operands := 1
  command config s operands :=
    if (s.value? "order").isSome ∧ (s.value? "order-file").isSome then .error .misuse
    else .ok (.check {
      settings := config
      archive := operands.headD ""
      given := ⟨s.value? "order", s.value? "order-file", s.value? "mode", s.value? "max-findings" >>= limit?⟩
      report := (s.value? "report-out").getD "artifacts/swcv/report.json"
      markdown := (s.value? "write-markdown").map fun _ => (s.value? "markdown-out").getD "artifacts/swcv/comment.md" })

def inventoryForm : Form where
  name := "inventory"
  switches := []
  operands := 1
  command _ _ operands := .ok (.inventory (operands.headD ""))

def reportOf (s : Scan) : Path := (s.value? "report").getD "artifacts/swcv/report.json"

def markdownForm : Form where
  name := "md"
  switches := [valued "report", { valued "output" with letter := some 'o' }]
  operands := 0
  command _ s _ := .ok (.markdown (reportOf s) (s.value? "output"))

def annotationsForm : Form where
  name := "annotations"
  switches := [valued "report", ⟨"max", none, false, fun v => (number? UInt64.size v).isSome⟩]
  operands := 0
  command _ s _ := .ok (.annotations (reportOf s) ((s.value? "max" >>= number? UInt64.size).getD 10))

def explainForm : Form where
  name := "explain"
  switches := []
  operands := 1
  command _ _ operands := .ok (.explain (operands.headD ""))

def forms : List Form := [checkForm, inventoryForm, markdownForm, annotationsForm, explainForm]

def form? (name : String) : Option Form := forms.find? (·.name = name)

def defaultSettings : Path := "swcv.toml"

/-- Reads what follows the name of a command; its options go before those in front of the name. -/
def parseForm (root : Scan) (f : Form) (args : List String) : Except Instead Command := do
  let s ← args.foldlM (Scan.argument (f.switches ++ globalSwitches) f.operands) .start
  f.command (((s.value? "config").or (root.value? "config")).getD defaultSettings) s (← s.finish f.operands)

def parseHelp : List String → Instead
  | [] => .help
  | [name] => if name = "help" ∨ (form? name).isSome then .help else .misuse
  | _ => .misuse

def parseFrom (s : Scan) : List String → Except Instead Command
  | [] => .error .misuse
  | a :: rest =>
    if s.awaiting.isNone ∧ !s.ended ∧ Scan.isPlain a then
      match form? a with
      | some f => parseForm s f rest
      | none => .error (if a = "help" then parseHelp rest else .misuse)
    else do parseFrom (← s.argument rootSwitches 0 a) rest

def parse (args : List String) : Except Instead Command := parseFrom .start args

def usage : String := "\n".intercalate [
  "Checks the order of packages in component library archives.",
  "",
  "Usage: swcv [--config FILE] [-v] COMMAND",
  "",
  "  check ARCHIVE [--order ORDER | --order-file FILE] [--mode first|all] [--max-findings N]",
  "      [--report-out FILE] [--write-markdown] [--markdown-out FILE]",
  "  inventory ARCHIVE",
  "  md [--report FILE] [-o FILE]",
  "  annotations [--report FILE] [--max N]",
  "  explain ID",
  ""]

def run {m : Type → Type} [Monad m] [Disk m] (args : List String) : m Outcome :=
  match parse args with
  | .ok c => c.run
  | .error .help => return ⟨0, usage, ""⟩
  | .error .version => return ⟨0, s!"{thisTool.name} {thisTool.version}\n", ""⟩
  | .error .misuse => return ⟨2, "", usage⟩

end Layering.CommandLine

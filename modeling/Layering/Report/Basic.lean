import Layering.Json.Basic

namespace Layering

/-- A calendar date, a time of day, and the distance from UTC in minutes, of any numbers. -/
structure DateTime where
  year : Nat
  month : Nat
  day : Nat
  hour : Nat
  minute : Nat
  second : Nat
  nanosecond : Nat
  offset : Int
  deriving DecidableEq, Repr

namespace DateTime

def isLeap (year : Nat) : Bool := year % 4 == 0 && (year % 100 != 0 || year % 400 == 0)

def daysIn (year : Nat) : Nat → Nat
  | 2 => if isLeap year then 29 else 28
  | 4 | 6 | 9 | 11 => 30
  | _ => 31

structure Valid (t : DateTime) : Prop where
  year : t.year ≤ 9999
  month : 1 ≤ t.month ∧ t.month ≤ 12
  day : 1 ≤ t.day ∧ t.day ≤ daysIn t.year t.month
  hour : t.hour ≤ 23
  minute : t.minute ≤ 59
  second : t.second ≤ 59
  nanosecond : t.nanosecond < 1000000000
  offset : t.offset.natAbs < 24 * 60

instance (t : DateTime) : Decidable t.Valid :=
  decidable_of_iff (t.year ≤ 9999 ∧ (1 ≤ t.month ∧ t.month ≤ 12) ∧ (1 ≤ t.day ∧ t.day ≤ daysIn t.year t.month) ∧
      t.hour ≤ 23 ∧ t.minute ≤ 59 ∧ t.second ≤ 59 ∧ t.nanosecond < 1000000000 ∧ t.offset.natAbs < 24 * 60)
    ⟨fun ⟨a, b, c, d, e, f, g, h⟩ => ⟨a, b, c, d, e, f, g, h⟩, fun ⟨a, b, c, d, e, f, g, h⟩ => ⟨a, b, c, d, e, f, g, h⟩⟩

/-- The last minute of a month in UTC, the only one that may have a leap second. -/
def isMonthEnd (t : DateTime) : Bool :=
  let minutes : Int := 60 * t.hour + t.minute - t.offset
  minutes % 1440 == 1439 &&
    if minutes < 0 then t.day == 1
    else if minutes < 1440 then t.day == daysIn t.year t.month
    else t.day + 1 == daysIn t.year t.month

/-- The date and time in UTC that comes so long after the beginning of 1970. Years are counted from March on, by 400,
so that a leap day is the last of its year. -/
def ofUnix (seconds nanosecond : Nat) : DateTime :=
  let days := seconds / 86400 + 719468
  let day := days % 146097
  let year := (day - day / 1460 + day / 36524 - day / 146096) / 365
  let day := day - (365 * year + year / 4 - year / 100)
  let month := (5 * day + 2) / 153
  { year := 400 * (days / 146097) + year + if month < 10 then 0 else 1
    month := if month < 10 then month + 3 else month - 9
    day := day - (153 * month + 2) / 5 + 1
    hour := seconds / 3600 % 24
    minute := seconds / 60 % 60
    second := seconds % 60
    nanosecond
    offset := 0 }

end DateTime

structure Instant extends DateTime where
  valid : toDateTime.Valid
  deriving DecidableEq, Repr

namespace Instant

def epoch : Instant := ⟨.ofUnix 0 0, by decide⟩

def number? (cs : List Char) : Option Nat :=
  if cs.all Char.isDigit then some (cs.foldl (fun n c => 10 * n + (c.toNat - '0'.toNat)) 0) else none

def offset? : List Char → Option Int
  | ['Z'] | ['z'] => some 0
  | [sign, h, h', ':', m, m'] => do
    let hours ← number? [h, h']
    let minutes ← number? [m, m']
    guard (hours ≤ 23 ∧ minutes ≤ 59)
    if sign = '+' then return 60 * hours + minutes
    else if sign = '-' then return -(60 * hours + minutes : Int)
    else none
  | _ => none

/-- Digits beyond the ninth say nothing. -/
def fraction? : List Char → Option (Nat × List Char)
  | '.' :: cs => do
    let digits := cs.takeWhile Char.isDigit
    guard (!digits.isEmpty)
    return (← number? ((digits ++ List.replicate 9 '0').take 9), cs.dropWhile Char.isDigit)
  | cs => some (0, cs)

/-- `2025-01-31T23:59:59.5+01:00`, or `Z` for an offset of zero. Any ASCII character may stand in the place of the `T`. A
leap second is read as the last nanosecond before it. -/
def parse (text : String) : Option Instant :=
  match text.toList with
  | y :: y' :: y'' :: y''' :: '-' :: o :: o' :: '-' :: d :: d' :: sep :: h :: h' :: ':' :: m :: m' :: ':' :: s :: s' ::
      rest => do
    guard (sep.toNat < 128)
    let (nanosecond, rest) ← fraction? rest
    let t : DateTime :=
      { year := ← number? [y, y', y'', y''']
        month := ← number? [o, o']
        day := ← number? [d, d']
        hour := ← number? [h, h']
        minute := ← number? [m, m']
        second := ← number? [s, s']
        nanosecond
        offset := ← offset? rest }
    let t' := if t.second = 60 then { t with second := 59, nanosecond := 999999999 } else t
    if h : t'.Valid ∧ (t.second = 60 → t'.isMonthEnd) then some ⟨t', h.1⟩ else none
  | _ => none

def padded (width n : Nat) : List Char :=
  let digits := Nat.toDigits 10 n
  List.replicate (width - digits.length) '0' ++ digits

variable (t : Instant)

def fractionText : List Char :=
  if t.nanosecond = 0 then [] else '.' :: ((padded 9 t.nanosecond).reverse.dropWhile (· == '0')).reverse

def offsetText : List Char :=
  if t.offset = 0 then ['Z']
  else (if t.offset < 0 then '-' else '+') ::
    (padded 2 (t.offset.natAbs / 60) ++ ':' :: padded 2 (t.offset.natAbs % 60))

def text : String := .ofList <|
  padded 4 t.year ++ '-' :: padded 2 t.month ++ '-' :: padded 2 t.day ++ 'T' :: padded 2 t.hour ++
    ':' :: padded 2 t.minute ++ ':' :: padded 2 t.second ++ t.fractionText ++ t.offsetText

end Instant

inductive Severity where
  | info
  | warning
  | error
  deriving DecidableEq, Repr

inductive Verdict where
  | pass
  | fail
  deriving DecidableEq, Repr

def completenessCheck : String := "order.completeness"
def layeringCheck : String := "order.layering"
def runtimeCheck : String := "tool.runtime"
def missingRankCode : String := "missing_rank"
def upwardDependencyCode : String := "upward_dependency"
def runtimeErrorCode : String := "runtime_error"

structure Finding where
  severity : Severity
  checkId : String
  code : String
  message : String
  help : Option String
  fingerprint : Option String
  data : Json
  deriving BEq, Repr

/-- The names of its fields, as of the structures below, in the order of their declaration. -/
def Finding.keys : List String := ["severity", "check_id", "code", "message", "help", "fingerprint", "data"]

def Finding.package? (f : Finding) : Option String := f.data.get? "package" >>= Json.asString?

structure Summary where
  archive : String
  mode : String
  packagesScanned : UInt32
  dependenciesScanned : UInt32
  internalDependencies : UInt32
  externalDependencies : UInt32
  rankGroups : UInt32
  packageOrder : List (List String)
  findingsTotal : UInt32
  findingsEmitted : UInt32
  truncatedReason : Option String
  deriving DecidableEq, Repr

def Summary.keys : List String :=
  ["archive", "mode", "packages_scanned", "dependencies_scanned", "internal_dependencies", "external_dependencies",
    "rank_groups", "package_order", "findings_total", "findings_emitted", "truncated_reason"]

def Summary.blank : Summary := ⟨"", "", 0, 0, 0, 0, 0, [], 0, 0, none⟩

structure Tool where
  name : String
  version : String
  deriving DecidableEq, Repr

def Tool.keys : List String := ["name", "version"]

structure Report where
  schema : String
  tool : Tool
  startedAt : Instant
  finishedAt : Instant
  verdict : Verdict
  findings : List Finding
  data : Summary
  deriving BEq, Repr

def Report.keys : List String := ["schema", "tool", "started_at", "finished_at", "verdict", "findings", "data"]

def reportSchema : String := "swcv.report.v1"

def thisTool : Tool := ⟨"swcv", "0.1.0"⟩

def Report.ofRuntimeError (now : Instant) (archive message : String) : Report :=
  { schema := reportSchema
    tool := thisTool
    startedAt := now
    finishedAt := now
    verdict := .fail
    findings := [{
      severity := .error
      checkId := runtimeCheck
      code := runtimeErrorCode
      message
      help := some "Fix the tool error and re-run swcv."
      fingerprint := none
      data := .null }]
    data := { Summary.blank with archive, findingsTotal := 1, findingsEmitted := 1 } }

end Layering

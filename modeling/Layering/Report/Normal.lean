import Layering.Json.Basic

namespace Layering.Json

def isTimeKey (key : String) : Bool := key == "started_at" || key == "finished_at"

def timeMark : Json := .str "__TIMESTAMP__"

def versionMark : Json := .str "__VERSION__"

mutual

def markTimes : Json → Json
  | .arr items => .arr (markTimesItems items)
  | .obj fields => .obj (markTimesFields fields)
  | v => v

def markTimesItems : List Json → List Json
  | [] => []
  | v :: vs => markTimes v :: markTimesItems vs

def markTimesFields : List (String × Json) → List (String × Json)
  | [] => []
  | f :: fs => (f.1, if isTimeKey f.1 then timeMark else markTimes f.2) :: markTimesFields fs

end

def replace (key : String) (value : Json) (fields : List (String × Json)) : List (String × Json) :=
  fields.map fun f => if f.1 = key then (key, value) else f

def isEnvelope (fields : List (String × Json)) : Bool :=
  ["schema", "tool", "verdict", "findings"].all fun key => (fields.lookup key).isSome

/-- Marks the version of the tool that wrote a report; a `tool` elsewhere is left alone. -/
def markVersion : Json → Json
  | .obj fields =>
    match isEnvelope fields, fields.lookup "tool" with
    | true, some (.obj tool) => .obj (replace "tool" (.obj (replace "version" versionMark tool)) fields)
    | _, _ => .obj fields
  | v => v

def normalize (v : Json) : Json := markTimes (markVersion v)

end Layering.Json

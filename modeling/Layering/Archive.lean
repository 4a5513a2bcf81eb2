import Layering.Failure
import Layering.Xml.Document
import Layering.Zip.Entry

namespace Layering

structure Script where
  definition : Symbol
  dependencies : List Symbol
  deriving DecidableEq, Repr

namespace Script

/-- What a script needs, the package of its definition needs. -/
def steps (s : Script) : List Model.Step :=
  .define s.definition :: s.dependencies.map (.addDependency s.definition.package)

def model (scripts : List Script) : Model := Model.empty.replay (scripts.flatMap steps)

end Script

namespace Catalog

open Xml

def libraries (root : Node) : List Node :=
  if root.isElement "swc" then ((root.childElement? "libraries").map (·.childElements "library")).getD [] else []

/-- The `script` elements, less those without any content. -/
def scriptElements (libraries : List Node) : List Node :=
  (libraries.flatMap (·.childElements "script")).filter (!·.children.isEmpty)

def scriptName (script : Node) : String := (script.attribute? "name").getD ""

def symbolOf (script : String) (key : String) (element : Node) : Except Failure Symbol :=
  match element.attribute? "id" with
  | none => .error ⟨[], .missingId key script⟩
  | some id => (Symbol.parse id).mapError fun e => ⟨[s!"invalid symbol in catalog: {e.message}"], .symbol e⟩

def scriptOf (script : Node) : Except Failure Script := do
  match script.childElement? "def" with
  | none => throw ⟨[], .missingDefinition (scriptName script)⟩
  | some element =>
    let definition ← symbolOf (scriptName script) "def" element
    return ⟨definition, ← (script.childElements "dep").mapM (symbolOf (scriptName script) "dep")⟩

/-- Of `libraries` the first counts, of `library` and `script` each, and in a script the first `def` and each `dep`. -/
def ofXml (root : Node) : Except Failure Model :=
  if (libraries root).isEmpty then .error ⟨[], .noLibraries⟩
  else do return Script.model (← (scriptElements (libraries root)).mapM scriptOf)

def parse (text : String) : Except Failure Model :=
  match Xml.parse text with
  | some root => ofXml root
  | none => .error ⟨[], .malformedXml⟩

end Catalog

namespace Archive

def catalogName : String := "catalog.xml"

/-- The text of an entry. Bytes that are no text are told before a checksum that does not fit. -/
def textOf (bytes : ByteArray) (e : Zip.Entry) : Except Failure String :=
  match e.packed? bytes with
  | none => .error ⟨[], .malformedZip⟩
  | some packed =>
    match e.unpack? packed with
    | none => .error ⟨[], .read .corrupt⟩
    | some content =>
      match String.fromUTF8? content with
      | none => .error ⟨[], .read .notUtf8⟩
      | some text => if e.isIntact content then .ok text else .error ⟨[], .read .corrupt⟩

def unreadable (label : String) : String := s!"{label} is not a readable swc archive"

def catalogText (label : String) (bytes : ByteArray) : Except Failure String :=
  match Zip.entries? bytes with
  | none => .error ⟨[unreadable label], .malformedZip⟩
  | some entries =>
    match Zip.find? catalogName entries with
    | none => .error ⟨[], .noManifest label⟩
    | some e => doing s!"read {catalogName} from {label}" (textOf bytes e)

def read (label : String) (bytes : ByteArray) : Except Failure Model := do
  doing s!"parse {catalogName} from {label}" (Catalog.parse (← catalogText label bytes))

def write (catalog : String) : ByteArray :=
  Zip.write [⟨catalogName, catalog.toUTF8⟩, ⟨"library.swf", "FWS placeholder".toUTF8⟩]

end Archive

end Layering

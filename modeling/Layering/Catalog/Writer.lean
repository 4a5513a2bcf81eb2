namespace Layering.Catalog

def pathOf (id : String) : String := id.map fun c => if c = '.' ∨ c = ':' then '/' else c

def writeDependency (id : String) : String := s!"        <dep id=\"{id}\" type=\"i\" />\n"

def writeScript (definition : String) (dependencies : List String) : String :=
  s!"      <script name=\"{pathOf definition}\" mod=\"1300000000000\">\n" ++
    s!"        <def id=\"{definition}\" />\n" ++
    .join (dependencies.map writeDependency) ++ "      </script>\n"

/-- Ids are written as they are, so that one with a mark of its own does not read back. -/
def write (scripts : List (String × List String)) : String :=
  "<?xml version=\"1.0\" encoding=\"utf-8\"?>\n" ++
    "<swc xmlns=\"http://www.adobe.com/flash/swccatalog/9\">\n" ++
    "  <libraries>\n" ++
    "    <library path=\"library.swf\">\n" ++
    .join (scripts.map fun s => writeScript s.1 s.2) ++
    "    </library>\n" ++
    "  </libraries>\n" ++
    "</swc>\n"

end Layering.Catalog

import ArcSelection.Decimal.Reading
import ArcSelection.Fault
import ArcSelection.Xml.Element

/-!
# Words of the graph file format

Graph files live in one namespace.  Every attribute of a node or edge refers to a key,
which gives its name and the type of its data.
-/

namespace ArcSelection.GraphML

/-- The namespace of the format. -/
def space : String := "http://graphml.graphdrawing.org/xmlns"

/-- The namespace of schema instances. -/
def instanceSpace : String := "http://www.w3.org/2001/XMLSchema-instance"

/-- Where the schema of the format is found. -/
def schema : String := space ++ " " ++ space ++ "/1.0/graphml.xsd"

/-- The namespace of the extension that diagram editors use. -/
def diagramSpace : String := "http://www.yworks.com/xml/graphml"

/-- The node attribute that holds a shape. -/
def shapeAttribute : String := "shape"

/-- A name of the format. -/
def named (tag : String) : Xml.Name := ⟨space, tag⟩

/-- A name of the diagram extension. -/
def diagramNamed (tag : String) : Xml.Name := ⟨diagramSpace, tag⟩

/-- The type of the data of a key. -/
inductive DataType where
  | text
  | integer
  | real
  | truth
deriving DecidableEq

namespace DataType

/-- The type a file names. -/
def ofWord? : String -> Option DataType
  | "string" => some .text
  | "yfiles" => some .text
  | "integer" => some .integer
  | "int" => some .integer
  | "long" => some .integer
  | "float" => some .real
  | "double" => some .real
  | "boolean" => some .truth
  | _ => none

/-- The word a type is written with. -/
def word : DataType -> String
  | .text => "string"
  | .integer => "long"
  | .real => "double"
  | .truth => "boolean"

/-- The truth value written by a text, in either case. -/
def readTruth? (s : String) : Option Bool :=
  match Text.lower s with
  | "true" => some true
  | "1" => some true
  | "false" => some false
  | "0" => some false
  | _ => none

/-- Reads data of a type. -/
def read (t : DataType) (s : String) : Except Fault Value :=
  match t with
  | .text => .ok (.text s)
  | .integer => (Decimal.readInt? s).elim (.error (.unreadableInteger 10 s)) fun n => .ok (.int n)
  | .real => (Decimal.readFloat? s).elim (.error (.unreadableReal s)) fun x => .ok (.float x)
  | .truth => (readTruth? s).elim (.error .unknownAttributeType) fun b => .ok (.bool b)

/-- What a default without text is read as. -/
def readMissing : DataType -> Except Fault Value
  | .text => .ok (.text "None")
  | .truth => .error .unsupported
  | .integer | .real => .error .wrongType

/-- The type that a value is written with. -/
def ofValue : Value -> DataType
  | .bool _ => .truth
  | .int _ => .integer
  | .float _ => .real
  | _ => .text

end DataType

end ArcSelection.GraphML

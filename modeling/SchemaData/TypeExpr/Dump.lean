import SchemaData.TypeExpr

/-!
# SchemaData.TypeExpr.Dump -- a tree written out for inspection

The dump names every constructor and every part of it: a node without parts is
its capitalised label, a node with parts is the label followed by them between
braces, lists stand between brackets, and texts between quotation marks.
-/

namespace SchemaData

set_option autoImplicit false

namespace Dump

/-- The items between brackets. -/
def listing (items : List String) : String :=
  "[" ++ ", ".intercalate items ++ "]"

/-- A label with named parts between braces. -/
def parts (label : String) (members : List (String × String)) : String :=
  label ++ " \x7b " ++ ", ".intercalate (members.map fun m => m.1 ++ ": " ++ m.2) ++ " \x7d"

end Dump

open Dump

def Primitive.dump : Primitive → String
  | .bool => "Bool"
  | .bytes => "Bytes"
  | .int32 => "Int32"
  | .int64 => "Int64"
  | .float32 => "Float32"
  | .float64 => "Float64"
  | .string => "String"
  | .date => "Date"
  | .datetime => "Datetime"

def Name.dump (n : Name) : String :=
  parts "Name" [("namespace", Text.quote n.qualifier), ("local", Text.quote n.localPart)]

namespace TypeExpr

mutual

/-- The tree written out. -/
def dump : TypeExpr → String
  | primitive p => p.dump
  | array item => parts "Array" [("item", dump item)]
  | map item => parts "Map" [("item", dump item)]
  | optional item => parts "Optional" [("item", dump item)]
  | enum name symbols =>
      parts "Enum" [("name", name.dump), ("symbols", listing (symbols.map Text.quote))]
  | record name fields =>
      parts "Record" [("name", name.dump), ("fields", listing (dumpFields fields))]
  | variant name cases =>
      parts "Variant" [("name", name.dump), ("cases", listing (dumpCases cases))]
  | newtype name underlying =>
      parts "Newtype" [("name", name.dump), ("underlying", dump underlying)]
  | reference name => parts "Reference" [("name", name.dump)]
termination_by structural e => e

def dumpFields : List (Field TypeExpr) → List String
  | [] => []
  | ⟨name, type⟩ :: fields =>
      parts "Field" [("name", Text.quote name), ("ty", dump type)] :: dumpFields fields
termination_by structural fields => fields

def dumpCases : List (Case TypeExpr) → List String
  | [] => []
  | ⟨name, parameters⟩ :: cases =>
      parts "Case"
        [("name", Text.quote name), ("parameters", listing (dumpFields parameters))] ::
        dumpCases cases
termination_by structural cases => cases

end

end TypeExpr

end SchemaData

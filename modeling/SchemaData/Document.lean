import SchemaData.Name

/-!
# SchemaData.Document -- structured text, after reading

A document is what a schema or a configuration is stored in: null, truth values,
numbers, texts, lists and objects.  An object lists its members in the order in
which a reader meets them, and no key occurs twice.

Reading a domain object from a document fails with a `DecodeError`, which tells an
invalid name from every other fault.
-/

namespace SchemaData

set_option autoImplicit false

inductive Document
  | null
  | boolean (b : Bool)
  | integer (i : Int)
  /-- A number that is not written as an integer; no domain object has one. -/
  | decimal
  | text (s : String)
  | list (items : List Document)
  | object (members : List (String × Document))

/-- Why a document is not what a reader asked for. -/
inductive DecodeError
  | invalidName (e : InvalidName)
  | malformed
deriving DecidableEq

namespace Document

instance : Inhabited Document := ⟨.null⟩

/-- The member of an object with a given key. -/
def member? (key : String) : List (String × Document) → Option Document
  | [] => none
  | (k, d) :: rest => if k = key then some d else member? key rest

def decodeText : Document → Except DecodeError String
  | text s => .ok s
  | _ => .error .malformed

def decodeName : Document → Except DecodeError Name
  | text s => (Name.parse s).mapError .invalidName
  | _ => .error .malformed

def encodeName (n : Name) : Document := text n.text

def encodeShape (s : Shape) : Document := text s.label

/-- A shape is its label, or an object whose only member is that label with
null. -/
def decodeShape : Document → Except DecodeError Shape
  | text s | object [(s, null)] =>
      match Shape.ofLabel? s with
      | some shape => .ok shape
      | none => .error .malformed
  | _ => .error .malformed

theorem decodeShape_encodeShape (s : Shape) : decodeShape (encodeShape s) = .ok s := by
  simp [decodeShape, encodeShape, Shape.ofLabel?_label]

end Document

end SchemaData

import SchemaData.Document
import SchemaData.Module

/-!
# SchemaData.Document.Schema -- schemas as documents

A type node is an object with its shape's label under `kind` and one member for
each of its parts; a field has a `name` and a `type`, a case a `name` and its
`parameters`, and a module its `definitions` by name.  `encodeType` and
`encodeModule` write this form.

Reading is more liberal.  Unknown members are ignored, absent `parameters` are
none, and every object may also be the list of its members in declared order, the
one under `kind` first.  Below the root of a definition a shape may also be given
by its position in `Shape.all`.  The shape is read first, then the members in the
order of the document; a missing member is a fault after all faults of the members
that are there.  The structure of a node is not judged.
-/

namespace SchemaData.Document

set_option autoImplicit false

/-- The parts of nodes, fields and cases. -/
inductive Member
  | item
  | underlying
  | type
  /-- The qualified name of a node. -/
  | name
  /-- The plain name of a field or case. -/
  | label
  | symbols
  | fields
  | parameters
  | cases
deriving DecidableEq

/-- The key under which an object holds the part. -/
def Member.key : Member → String
  | .item => "item"
  | .underlying => "underlying"
  | .type => "type"
  | .name | .label => "name"
  | .symbols => "symbols"
  | .fields => "fields"
  | .parameters => "parameters"
  | .cases => "cases"

/-- The parts of a node beside its shape, in declared order. -/
def membersOf : Shape → List Member
  | .primitive _ => []
  | .array | .map | .optional => [.item]
  | .enum => [.name, .symbols]
  | .record => [.name, .fields]
  | .variant => [.name, .cases]
  | .newtype => [.name, .underlying]
  | .reference => [.name]

def membersOfField : List Member := [.label, .type]

def membersOfCase : List Member := [.label, .parameters]

/-! ## Writing -/

mutual

/-- The document of a type tree. -/
def encodeType : TypeExpr → Document
  | .primitive p => object [("kind", text p.label)]
  | .array item => object [("item", encodeType item), ("kind", text "array")]
  | .map item => object [("item", encodeType item), ("kind", text "map")]
  | .optional item => object [("item", encodeType item), ("kind", text "optional")]
  | .enum name symbols =>
      object [("kind", text "enum"), ("name", encodeName name),
        ("symbols", list (symbols.map text))]
  | .record name fields =>
      object [("fields", list (encodeFields fields)), ("kind", text "record"),
        ("name", encodeName name)]
  | .variant name cases =>
      object [("cases", list (encodeCases cases)), ("kind", text "variant"),
        ("name", encodeName name)]
  | .newtype name underlying =>
      object [("kind", text "newtype"), ("name", encodeName name),
        ("underlying", encodeType underlying)]
  | .reference name => object [("kind", text "reference"), ("name", encodeName name)]
termination_by structural e => e

def encodeFields : List (Field TypeExpr) → List Document
  | [] => []
  | ⟨name, type⟩ :: fields =>
      object [("name", text name), ("type", encodeType type)] :: encodeFields fields
termination_by structural fields => fields

def encodeCases : List (Case TypeExpr) → List Document
  | [] => []
  | ⟨name, parameters⟩ :: cases =>
      object [("name", text name), ("parameters", list (encodeFields parameters))] ::
        encodeCases cases
termination_by structural cases => cases

end

/-- The document of a module. -/
def encodeModule (m : Module) : Document :=
  object [("definitions",
    object (m.definitions.entries.map fun d => (d.1.text, encodeType d.2)))]

/-! ## Reading -/

/-- What was read for one part. -/
inductive Part
  | type (e : TypeExpr)
  | name (n : Name)
  | label (s : String)
  | symbols (symbols : List String)
  | fields (fields : List (Field TypeExpr))
  | cases (cases : List (Case TypeExpr))

/-- The parts read so far. -/
abbrev Parts := List (Member × Part)

namespace Parts

def find? (m : Member) : Parts → Option Part
  | [] => none
  | (m', part) :: rest => if m' = m then some part else find? m rest

def typeAt (m : Member) (parts : Parts) : Except DecodeError TypeExpr :=
  match find? m parts with
  | some (.type e) => .ok e
  | _ => .error .malformed

def nameOf (parts : Parts) : Except DecodeError Name :=
  match find? .name parts with
  | some (.name n) => .ok n
  | _ => .error .malformed

def labelOf (parts : Parts) : Except DecodeError String :=
  match find? .label parts with
  | some (.label s) => .ok s
  | _ => .error .malformed

/-- The node of a shape with the given parts. -/
def assembleType (parts : Parts) : Shape → Except DecodeError TypeExpr
  | .primitive p => .ok (.primitive p)
  | .array => (typeAt .item parts).map .array
  | .map => (typeAt .item parts).map .map
  | .optional => (typeAt .item parts).map .optional
  | .enum => do
      let name ← nameOf parts
      match find? .symbols parts with
      | some (.symbols symbols) => .ok (.enum name symbols)
      | _ => .error .malformed
  | .record => do
      let name ← nameOf parts
      match find? .fields parts with
      | some (.fields fields) => .ok (.record name fields)
      | _ => .error .malformed
  | .variant => do
      let name ← nameOf parts
      match find? .cases parts with
      | some (.cases cases) => .ok (.variant name cases)
      | _ => .error .malformed
  | .newtype => do
      let name ← nameOf parts
      let underlying ← typeAt .underlying parts
      .ok (.newtype name underlying)
  | .reference => (nameOf parts).map .reference

def assembleField (parts : Parts) : Except DecodeError (Field TypeExpr) := do
  let name ← labelOf parts
  let type ← typeAt .type parts
  .ok ⟨name, type⟩

/-- The case with the given parts; absent parameters are none. -/
def assembleCase (parts : Parts) : Except DecodeError (Case TypeExpr) := do
  let name ← labelOf parts
  match find? .parameters parts with
  | some (.fields parameters) => .ok ⟨name, parameters⟩
  | some _ => .error .malformed
  | none => .ok ⟨name, []⟩

end Parts

/-- The shape under `kind`: a label or, where positions are allowed, a position in
`Shape.all`. -/
def decodeKind (positions : Bool) : Document → Except DecodeError Shape
  | text s =>
      match Shape.ofLabel? s with
      | some shape => .ok shape
      | none => .error .malformed
  | integer (.ofNat i) =>
      match Shape.all[i]? with
      | some shape => if positions then .ok shape else .error .malformed
      | none => .error .malformed
  | _ => .error .malformed

mutual

/-- Reads a type tree. -/
def decodeType (positions : Bool) (d : Document) : Except DecodeError TypeExpr :=
  match d with
  | object members =>
      match member? "kind" members with
      | none => .error .malformed
      | some kind => do
          let shape ← decodeKind positions kind
          let parts ← decodeMembers (membersOf shape) members
          parts.assembleType shape
  | list (kind :: items) => do
      let shape ← decodeKind positions kind
      let parts ← decodeInOrder (membersOf shape) items
      parts.assembleType shape
  | _ => .error .malformed
termination_by (sizeOf d, 0)

/-- Reads the wanted members of an object, in the order of the object. -/
def decodeMembers (wanted : List Member) (members : List (String × Document)) :
    Except DecodeError Parts :=
  match members with
  | [] => .ok []
  | (key, d) :: rest =>
      match wanted.find? fun m => m.key = key with
      | some m => do
          let part ← decodePart m d
          let parts ← decodeMembers wanted rest
          .ok ((m, part) :: parts)
      | none => decodeMembers wanted rest
termination_by (sizeOf members, 0)

/-- Reads the wanted members from a list that may end early. -/
def decodeInOrder (wanted : List Member) (items : List Document) :
    Except DecodeError Parts :=
  match wanted, items with
  | _, [] => .ok []
  | [], _ :: _ => .error .malformed
  | m :: wanted, d :: rest => do
      let part ← decodePart m d
      let parts ← decodeInOrder wanted rest
      .ok ((m, part) :: parts)
termination_by (sizeOf items, 0)

def decodePart (m : Member) (d : Document) : Except DecodeError Part :=
  match m with
  | .item | .underlying | .type => (decodeType true d).map .type
  | .name => (decodeName d).map .name
  | .label => (decodeText d).map .label
  | .symbols =>
      match d with
      | list items => (items.mapM decodeText).map .symbols
      | _ => .error .malformed
  | .fields | .parameters =>
      match d with
      | list items => (decodeFields items).map .fields
      | _ => .error .malformed
  | .cases =>
      match d with
      | list items => (decodeCases items).map .cases
      | _ => .error .malformed
termination_by (sizeOf d, 1)

/-- Reads the wanted members of an object or of the list that stands for it. -/
def decodeParts (wanted : List Member) (d : Document) : Except DecodeError Parts :=
  match d with
  | object members => decodeMembers wanted members
  | list items => decodeInOrder wanted items
  | _ => .error .malformed
termination_by (sizeOf d, 0)

def decodeFields (items : List Document) : Except DecodeError (List (Field TypeExpr)) :=
  match items with
  | [] => .ok []
  | d :: rest => do
      let parts ← decodeParts membersOfField d
      let field ← parts.assembleField
      let fields ← decodeFields rest
      .ok (field :: fields)
termination_by (sizeOf items, 0)

def decodeCases (items : List Document) : Except DecodeError (List (Case TypeExpr)) :=
  match items with
  | [] => .ok []
  | d :: rest => do
      let parts ← decodeParts membersOfCase d
      let c ← parts.assembleCase
      let cases ← decodeCases rest
      .ok (c :: cases)
termination_by (sizeOf items, 0)

end

/-- Reads definitions in the order of the document, each name before its type. -/
def decodeDefinitions : List (String × Document) → Except DecodeError (List (Name × TypeExpr))
  | [] => .ok []
  | (key, d) :: rest => do
      let name ← decodeName (text key)
      let e ← decodeType false d
      let definitions ← decodeDefinitions rest
      .ok ((name, e) :: definitions)

/-- Reads the table of definitions. -/
def decodeTable : Document → Except DecodeError Module
  | object members => (decodeDefinitions members).map fun entries => ⟨NameMap.ofList entries⟩
  | _ => .error .malformed

/-- Reads a module, from an object or from the list of its only member. -/
def decodeModule : Document → Except DecodeError Module
  | object members =>
      match member? "definitions" members with
      | some table => decodeTable table
      | none => .error .malformed
  | list (table :: rest) => do
      let m ← decodeTable table
      if rest.isEmpty then .ok m else .error .malformed
  | _ => .error .malformed

end SchemaData.Document

import SchemaData.Name

/-!
# SchemaData.Mismatch -- where and why a payload does not fit its type

A `Mismatch` is a reason and the steps from the root of a payload to the place
where it holds.  The text of a path is `$` followed by its steps, and the text of
a mismatch is its path, a colon and its reason: `$.lines[2]?: expected int32,
found string`.
-/

namespace SchemaData

set_option autoImplicit false

/-- One step from a payload into a component. -/
inductive Segment
  /-- A record field or case parameter. -/
  | field (name : String)
  /-- An element of an array. -/
  | index (i : Nat)
  /-- The entry of a map. -/
  | key (k : String)
  /-- What an optional holds. -/
  | content
  /-- The chosen case of a variant. -/
  | case (name : String)
deriving DecidableEq

def Segment.text : Segment → String
  | .field name => "." ++ name
  | .index i => "[" ++ toString i ++ "]"
  | .key k => "\x7b" ++ Text.quote k ++ "\x7d"
  | .content => "?"
  | .case name => "#" ++ name

inductive MismatchReason
  | shape (expected found : Shape)
  /-- A symbol that the enum does not have. -/
  | unknownSymbol (symbol : String)
  /-- A case that the variant does not have. -/
  | unknownCase (name : String)
  /-- Too many or too few components. -/
  | arity (expected found : Nat)
  /-- A reference without a definition. -/
  | unresolvedReference (name : Name)
  /-- References that lead on for ever and never reach a node with a payload. -/
  | indirectionCycle (name : Name)
deriving DecidableEq

def MismatchReason.message : MismatchReason → String
  | .shape expected found => "expected " ++ expected.label ++ ", found " ++ found.label
  | .unknownSymbol symbol => "unknown enum symbol " ++ Text.quote symbol
  | .unknownCase name => "unknown variant case " ++ Text.quote name
  | .arity expected found =>
      "expected " ++ toString expected ++ " components, found " ++ toString found
  | .unresolvedReference name => "unresolved reference '" ++ name.text ++ "'"
  | .indirectionCycle name => "reference '" ++ name.text ++ "' loops without a payload"

structure Mismatch where
  path : List Segment
  reason : MismatchReason
deriving DecidableEq

namespace Mismatch

/-- A mismatch of the payload itself. -/
def atRoot (reason : MismatchReason) : Mismatch := ⟨[], reason⟩

/-- The mismatch of a component, seen from the payload that it stands in. -/
def within (segment : Segment) (m : Mismatch) : Mismatch := ⟨segment :: m.path, m.reason⟩

def pathText (m : Mismatch) : String :=
  m.path.foldl (fun text segment => text ++ segment.text) "$"

def message (m : Mismatch) : String :=
  m.pathText ++ ": " ++ m.reason.message

end Mismatch

end SchemaData

import SchemaData.Shape
import SchemaData.Text.Quoted

/-!
# SchemaData.Name -- qualified names

A name identifies a definition.  Its text is `qualifier.localPart`, split at the
last dot, so `acme.billing.Invoice` has the qualifier `acme.billing` and the
local part `Invoice`; a name with no dot has the empty qualifier.

The two parts of a `Name` always satisfy `Name.Valid`: the local part is not
empty and holds no dot, and the qualifier is empty or a dotted sequence of
non-empty segments.  `Name.make` checks two given parts, `Name.parse` splits a
text; both answer with the reason for a refusal.  Names are ordered by qualifier,
then by local part.
-/

namespace SchemaData

set_option autoImplicit false

/-- The first segment of a dotted text, and the segments after it. -/
def segments : List Char → List Char × List (List Char)
  | [] => ([], [])
  | c :: cs =>
      if c = '.' then ([], (segments cs).1 :: (segments cs).2)
      else (c :: (segments cs).1, (segments cs).2)

/-- All segments of a dotted text in order; a text without a dot is its only
segment. -/
def segmentList (cs : List Char) : List (List Char) :=
  (segments cs).1 :: (segments cs).2

/-- What stands before and after the last dot of a text that has one. -/
def splitLastDot? : List Char → Option (List Char × List Char)
  | [] => none
  | c :: cs =>
      match splitLastDot? cs with
      | some (before, after) => some (c :: before, after)
      | none => if c = '.' then some ([], cs) else none

/-- Why two parts, or a text, make no name. -/
inductive NameFault
  | empty
  | emptyLocal
  | dottedLocal
  | emptySegment
  /-- A definition was to take its name from a node that carries none. -/
  | unnamed (shape : Shape)
deriving DecidableEq

def NameFault.message : NameFault → String
  | .empty => "name is empty"
  | .emptyLocal => "local part is empty"
  | .dottedLocal => "local part contains '.'"
  | .emptySegment => "namespace has an empty segment"
  | .unnamed shape => shape.label ++ " node carries no name"

/-- A text that is no name, and why. -/
structure InvalidName where
  input : String
  fault : NameFault
deriving DecidableEq

def InvalidName.message (e : InvalidName) : String :=
  "invalid qualified name " ++ Text.quote e.input ++ ": " ++ e.fault.message

/-- What the two parts of a name satisfy. -/
def Name.Valid (qualifier localPart : String) : Prop :=
  localPart.toList ≠ [] ∧ '.' ∉ localPart.toList ∧
    (qualifier.toList = [] ∨ [] ∉ segmentList qualifier.toList)

instance (qualifier localPart : String) : Decidable (Name.Valid qualifier localPart) :=
  inferInstanceAs (Decidable (_ ∧ _ ∧ (_ ∨ _)))

/-- A qualified name. -/
structure Name where
  /-- The dotted part, possibly empty. -/
  qualifier : String
  /-- The part after the last dot. -/
  localPart : String
  valid : Name.Valid qualifier localPart
deriving DecidableEq

namespace Name

/-- The text of two parts: joined by a dot unless there is no qualifier. -/
def join (qualifier localPart : String) : String :=
  if qualifier.toList = [] then localPart else qualifier ++ "." ++ localPart

/-- The text of a name. -/
def text (n : Name) : String :=
  join n.qualifier n.localPart

/-- The name with the given parts.  The local part is judged first, then the
qualifier; a refusal shows the text that the parts would have had. -/
def make (qualifier localPart : String) : Except InvalidName Name :=
  if hEmpty : localPart.toList = [] then .error ⟨join qualifier localPart, .emptyLocal⟩
  else if hDot : '.' ∈ localPart.toList then .error ⟨join qualifier localPart, .dottedLocal⟩
  else if hSegment : qualifier.toList ≠ [] ∧ [] ∈ segmentList qualifier.toList then
    .error ⟨join qualifier localPart, .emptySegment⟩
  else
    .ok ⟨qualifier, localPart, hEmpty, hDot, by
      by_cases h : qualifier.toList = []
      · exact .inl h
      · exact .inr fun segment => hSegment ⟨h, segment⟩⟩

/-- The name with the given text, split at the last dot. -/
def parse (s : String) : Except InvalidName Name :=
  if s.toList = [] then .error ⟨s, .empty⟩
  else
    match splitLastDot? s.toList with
    | some ([], _) => .error ⟨s, .emptySegment⟩
    | some (before, after) => make (String.ofList before) (String.ofList after)
    | none => make "" s

/-- Names ascend by qualifier, then by local part, both by code point. -/
protected def Less (a b : Name) : Prop :=
  a.qualifier < b.qualifier ∨ (a.qualifier = b.qualifier ∧ a.localPart < b.localPart)

instance : LT Name := ⟨Name.Less⟩

instance (a b : Name) : Decidable (a < b) :=
  inferInstanceAs (Decidable (_ ∨ (_ ∧ _)))

instance : Ord Name := ⟨fun a b => if a < b then .lt else if a = b then .eq else .gt⟩

@[ext] theorem ext_parts {a b : Name} (hq : a.qualifier = b.qualifier)
    (hl : a.localPart = b.localPart) : a = b := by
  cases a; cases b; simp_all

theorem lt_irrefl (a : Name) : ¬ a < a := by
  rintro (h | ⟨-, h⟩)
  · exact String.lt_irrefl _ h
  · exact String.lt_irrefl _ h

theorem lt_trans {a b c : Name} (h₁ : a < b) (h₂ : b < c) : a < c := by
  rcases h₁ with h₁ | ⟨e₁, h₁⟩ <;> rcases h₂ with h₂ | ⟨e₂, h₂⟩
  · exact .inl (String.lt_trans h₁ h₂)
  · exact .inl (e₂ ▸ h₁)
  · exact .inl (e₁ ▸ h₂)
  · exact .inr ⟨e₁.trans e₂, String.lt_trans h₁ h₂⟩

/-- Of two names, one is below the other or they are the same. -/
theorem lt_trichotomy (a b : Name) : a < b ∨ a = b ∨ b < a := by
  rcases Std.lt_trichotomy a.qualifier b.qualifier with hq | hq | hq
  · exact .inl (.inl hq)
  · rcases Std.lt_trichotomy a.localPart b.localPart with hl | hl | hl
    · exact .inl (.inr ⟨hq, hl⟩)
    · exact .inr (.inl (ext_parts hq hl))
    · exact .inr (.inr (.inr ⟨hq.symm, hl⟩))
  · exact .inr (.inr (.inl hq))

end Name

end SchemaData

import SchemaData.SchemaError

/-!
# SchemaData.DrawError -- why a draw fails

A draw fails when a reference leads nowhere or only to other references, when
there is nothing to choose from, or when a generator asks about the schema and is
refused.
-/

namespace SchemaData

set_option autoImplicit false

inductive DrawError
  /-- A reference to a name without a definition. -/
  | unresolvedReference (name : Name)
  /-- References that lead on for ever; the one at which this was noticed. -/
  | indirectionCycle (name : Name)
  /-- A choice among no alternatives. -/
  | emptyChoice (what : String)
  | schema (e : SchemaError)
deriving DecidableEq

def DrawError.message : DrawError → String
  | .unresolvedReference name =>
      "unresolved reference '" ++ name.text ++ "': schema graph is ill-formed"
  | .indirectionCycle name =>
      "reference '" ++ name.text ++ "' loops without reaching a generatable shape"
  | .emptyChoice what => "nothing to choose from: " ++ what
  | .schema e => e.message

end SchemaData

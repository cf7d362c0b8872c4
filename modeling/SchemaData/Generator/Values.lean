import SchemaData.Generator.Scalars
import SchemaData.Overrides

/-!
# SchemaData.Generator.Values -- draws of values of a type

A value of a type is drawn along the type: scalars as `Generator.scalar`, containers
with a length up to the budget, and one component for each field.  A named node
whose name is in the table of overrides is drawn by its override instead, with a
budget smaller by `overrideCost`; a reference is looked up in the table before it is
looked up in the module.

A newtype draws its underlying node and puts its own type on the result, a reference
its definition as it is.  References are counted until a payload is drawn, and more
of them than there are definitions, one apart, are a cycle.

`structural` passes over the override of the outermost name, and only until a payload
is drawn, so that an override can call for what it stands for, one level down.
-/

namespace SchemaData

set_option autoImplicit false

variable {σ : Type} [RandomSource σ]

/-- How much smaller the budget of an override is. -/
def overrideCost : Nat := 10

/-- The weights of an absent and of a present content of an optional. -/
def optionalWeights : List Nat := [1, 19]

namespace Generator

omit [RandomSource σ] in
/-- A value of a type under the overrides in force. -/
def ofType (t : BoundType) : Generator σ Value := fun ctx s =>
  ctx.draw none t ctx.size s

omit [RandomSource σ] in
/-- As `ofType`, but without the override of the type's own name. -/
def structural (t : BoundType) : Generator σ Value := fun ctx s =>
  ctx.draw t.name? t ctx.size s

omit [RandomSource σ] in
/-- One component for each field, in declared order. -/
def components (t : BoundType) : List (Field TypeExpr) → Generator σ (List Value)
  | [] => pure []
  | f :: fields => do
      let v ← ofType (t.child f.type)
      let rest ← components t fields
      pure (v :: rest)

/-- A map: the keys first, then an item for each distinct one in the order of their
first draws. -/
def entries (item : BoundType) : Generator σ (List (String × Value)) := do
  let keys := (← listOf string).eraseDups
  let items ← vectorOf keys.length (ofType item)
  pure (keys.zip items)

/-- The content of an optional. -/
def content (item : BoundType) : Generator σ (Option Value) := do
  if (← weightedIndex optionalWeights) = 0 then pure none
  else do pure (some (← ofType item))

/-- The payload of a node that is neither a newtype nor a reference. -/
def payload (t : BoundType) : Generator σ Payload :=
  match t.expr with
  | .primitive p => do pure (.scalar (← scalar p))
  | .array item => do pure (.array (← listOf (ofType (t.child item))))
  | .map item => do pure (.ofEntries (← entries (t.child item)))
  | .optional item => do pure (.optional (← content (t.child item)))
  | .enum name symbols => do
      pure (.enum (← chooseFrom ("enum '" ++ name.text ++ "'") symbols))
  | .record _ fields => do pure (.record (← components t fields))
  | .variant name cases => do
      let c ← chooseFrom ("variant '" ++ name.text ++ "'") cases
      pure (.variant c.name (← components t c.parameters))
  | .newtype name _ | .reference name => fail (.indirectionCycle name)

end Generator

omit [RandomSource σ] in
/-- The override of a type's name, unless it is the one to pass over. -/
def overrideOf (table : Option (Overrides σ)) (skip : Option Name) (t : BoundType) :
    Option (Generator σ Value) := do
  let overrides ← table
  let name ← t.name?
  if skip = some name then none else overrides.get? name

omit [RandomSource σ] in
theorem overrideOf_empty (skip : Option Name) (t : BoundType) :
    overrideOf (some (∅ : Overrides σ)) skip t = none := by
  rw [overrideOf]
  cases named : t.name? with
  | none => simp [bind]
  | some n => by_cases passed : skip = some n <;> simp [bind, passed, NameMap.get?_empty]

/-- Draws a value of a type with a given budget.  `table` holds the overrides in
force, `skip` is a name whose override is passed over, and `hops` counts the
references followed since the last payload. -/
def drawValue (table : Option (Overrides σ)) :
    (fuel hops : Nat) → (skip : Option Name) → BoundType → (size : Nat) → σ → Outcome σ Value
  | 0, _, _, _, _, _ => .unfinished
  | fuel + 1, hops, skip, t, size, s =>
      let ctx : Context σ := ⟨fuel, size, table.map (·.size), drawValue table fuel 0⟩
      match overrideOf table skip t with
      | some g => g (ctx.withSize (size - overrideCost)) s
      | none =>
          match t.expr with
          | .newtype _ underlying =>
              (drawValue table fuel hops skip (t.child underlying) size s).map
                fun v => ⟨t, v.payload⟩
          | .reference n =>
              match t.home.module.get? n with
              | none => .failed (.unresolvedReference n) s
              | some target =>
                  if t.home.module.size < hops then .failed (.indirectionCycle n) s
                  else drawValue table fuel (hops + 1) skip (t.child target) size s
          | _ => (Generator.payload t ctx s).map fun p => ⟨t, p⟩

namespace Context

/-- A context for draws under a table of overrides, or without one. -/
def start (fuel size : Nat) (table : Option (Overrides σ)) : Context σ :=
  ⟨fuel, size, table.map (·.size), drawValue table fuel 0⟩

/-- The context with a table of overrides in the place of the one in force. -/
def withOverrides (ctx : Context σ) (table : Overrides σ) : Context σ :=
  start ctx.fuel ctx.size (some table)

end Context

/-! ## One step of a draw -/

/-- The ways in which a draw goes on after `hops` references, from a node that no override
draws. -/
inductive BoundType.Way (t : BoundType) (hops : Nat) : Prop
  | direct : t.expr.isIndirect = false → Way t hops
  | newtype {n : Name} {u : TypeExpr} : t.expr = .newtype n u → Way t hops
  | undefined {n : Name} :
      t.expr = .reference n → t.home.module.get? n = none → Way t hops
  | cycle {n : Name} {target : TypeExpr} :
      t.expr = .reference n → t.home.module.get? n = some target →
      t.home.module.size < hops → Way t hops
  | definition {n : Name} {target : TypeExpr} :
      t.expr = .reference n → t.home.module.get? n = some target →
      hops ≤ t.home.module.size → Way t hops

/-- There is no other way. -/
theorem BoundType.way (t : BoundType) (hops : Nat) : t.Way hops := by
  cases form : t.expr with
  | newtype n u => exact .newtype form
  | reference n =>
      cases found : t.home.module.get? n with
      | none => exact .undefined form found
      | some target =>
          rcases Nat.lt_or_ge t.home.module.size hops with many | few
          · exact .cycle form found many
          · exact .definition form found few
  | _ => exact .direct (congrArg TypeExpr.isIndirect form)

section Step

variable {table : Option (Overrides σ)} {fuel hops size : Nat} {skip : Option Name}
  {t : BoundType} {n : Name}

theorem drawValue_override {g : Generator σ Value} (found : overrideOf table skip t = some g)
    (s : σ) :
    drawValue table (fuel + 1) hops skip t size s =
      g (Context.start fuel (size - overrideCost) table) s := by
  rw [drawValue]
  simp only [found]
  rfl

theorem drawValue_newtype {u : TypeExpr} (plain : overrideOf table skip t = none)
    (form : t.expr = .newtype n u) (s : σ) :
    drawValue table (fuel + 1) hops skip t size s =
      (drawValue table fuel hops skip (t.child u) size s).map fun v => ⟨t, v.payload⟩ := by
  rw [drawValue]
  simp only [plain, form]

theorem drawValue_undefined (plain : overrideOf table skip t = none)
    (form : t.expr = .reference n) (missing : t.home.module.get? n = none) (s : σ) :
    drawValue table (fuel + 1) hops skip t size s = .failed (.unresolvedReference n) s := by
  rw [drawValue]
  simp only [plain, form, missing]

theorem drawValue_cycle {target : TypeExpr} (plain : overrideOf table skip t = none)
    (form : t.expr = .reference n) (found : t.home.module.get? n = some target)
    (many : t.home.module.size < hops) (s : σ) :
    drawValue table (fuel + 1) hops skip t size s = .failed (.indirectionCycle n) s := by
  rw [drawValue]
  simp only [plain, form, found, if_pos many]

theorem drawValue_reference {target : TypeExpr} (plain : overrideOf table skip t = none)
    (form : t.expr = .reference n) (found : t.home.module.get? n = some target)
    (few : hops ≤ t.home.module.size) (s : σ) :
    drawValue table (fuel + 1) hops skip t size s =
      drawValue table fuel (hops + 1) skip (t.child target) size s := by
  rw [drawValue]
  simp only [plain, form, found, if_neg (Nat.not_lt.2 few)]

theorem drawValue_direct (plain : overrideOf table skip t = none)
    (direct : t.expr.isIndirect = false) (s : σ) :
    drawValue table (fuel + 1) hops skip t size s =
      (Generator.payload t (Context.start fuel size table) s).map fun p => ⟨t, p⟩ := by
  rw [drawValue]
  simp only [plain]
  split
  · rename_i form
    rw [form] at direct
    cases direct
  · rename_i form
    rw [form] at direct
    cases direct
  · rfl

end Step

/-- Draws under a table of overrides. -/
def Generator.withOverrides {α : Type} (table : Overrides σ) (g : Generator σ α) :
    Generator σ α :=
  fun ctx s => g (ctx.withOverrides table) s

/-- Values of one type under one table of overrides. -/
structure ValueGenerator (σ : Type) where
  overrides : Overrides σ
  type : BoundType

namespace ValueGenerator

omit [RandomSource σ] in
/-- Values of a type without overrides. -/
def plain (t : BoundType) : ValueGenerator σ := ⟨∅, t⟩

def generator (g : ValueGenerator σ) : Generator σ Value :=
  (Generator.ofType g.type).withOverrides g.overrides

omit [RandomSource σ] in
def dump (g : ValueGenerator σ) : String :=
  Dump.parts "ValueGen" [("ty", g.type.dump), ("overrides", g.overrides.dump)]

end ValueGenerator

end SchemaData

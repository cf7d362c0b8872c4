import SchemaData.Proofs.OneNode
import SchemaData.Proofs.Reach

/-!
# SchemaData.Proofs.Under -- what holds of every draw under overrides

A draw goes down a schema from node to node.  `Descends` says that its steps keep an
invariant of its place, and `DrawRules` what they make of the values that they find below
and how they fail.  `DrawRules.meets` is the induction, on the fuel: if the steps keep to the
rules, and the overrides that are called on the way do, then so does every draw.

A draw may pass its overrides on, and they may draw values of the same types again.  So what
is asked of an override is asked for less fuel than the draw has, and a proof that an
override keeps its part may use the statement about draws.

`m.ReachesUnder table e e'` are the nodes that a draw of `e` can come to when it looks for
an entry in the table first: a node whose name has one is not opened.
-/

namespace SchemaData

set_option autoImplicit false

variable {σ : Type}

/-- The entry for the name of a node. -/
def TypeExpr.override? (table : Overrides σ) (e : TypeExpr) : Option (Generator σ Value) :=
  e.name?.bind table.get?

theorem overrideOf_none (table : Overrides σ) (t : BoundType) :
    overrideOf (some table) none t = t.expr.override? table := by
  rw [overrideOf, TypeExpr.override?]
  cases named : t.name? with
  | none =>
      rw [BoundType.name?] at named
      rw [named]
      rfl
  | some n =>
      rw [BoundType.name?] at named
      rw [named]
      rfl

theorem exists_get?_of_overrideOf {table : Overrides σ} {skip : Option Name} {t : BoundType}
    {g : Generator σ Value} (called : overrideOf (some table) skip t = some g) :
    ∃ n, t.expr.name? = some n ∧ table.get? n = some g := by
  change (t.expr.name?.bind fun n => if skip = some n then none else table.get? n) = some g
    at called
  obtain ⟨n, named, called⟩ := Option.bind_eq_some_iff.1 called
  split at called
  · cases called
  · exact ⟨n, named, called⟩

namespace Module

/-- Any number of steps down from a node, none of them from a node with an entry. -/
def ReachesUnder (m : Module) (table : Overrides σ) : TypeExpr → TypeExpr → Prop :=
  Relation.ReflTransGen fun e e' => e.override? table = none ∧ m.Leads e e'

variable {m : Module} {table : Overrides σ} {e e' c : TypeExpr}

theorem ReachesUnder.tail (reaches : m.ReachesUnder table e e') (plain : e'.override? table = none)
    (leads : m.Leads e' c) : m.ReachesUnder table e c :=
  Relation.ReflTransGen.tail reaches ⟨plain, leads⟩

theorem ReachesUnder.reaches (reaches : m.ReachesUnder table e e') : m.Reaches e e' :=
  Relation.ReflTransGen.mono (fun _ _ => And.right) _ _ reaches

end Module

/-! ## The places of a draw -/

/-- The invariant `Good` of the place of a draw is kept on the way down.  A place is the
number of references since the last payload, the name that is passed over, and the node. -/
structure Descends (table : Option (Overrides σ)) (home : Instance)
    (Good : Nat → Option Name → TypeExpr → Prop) : Prop where
  /-- The children of a node that bears a payload begin chains of their own. -/
  children {hops : Nat} {skip : Option Name} {e c : TypeExpr} :
    Good hops skip e → overrideOf table skip ⟨home, e⟩ = none → e.isIndirect = false →
      c ∈ e.children → Good 0 none c
  underlying {hops : Nat} {skip : Option Name} {n : Name} {u : TypeExpr} :
    Good hops skip (.newtype n u) → overrideOf table skip ⟨home, .newtype n u⟩ = none →
      Good hops skip u
  definition {hops : Nat} {skip : Option Name} {n : Name} {target : TypeExpr} :
    Good hops skip (.reference n) → overrideOf table skip ⟨home, .reference n⟩ = none →
      home.module.get? n = some target → hops ≤ home.module.size → Good (hops + 1) skip target

theorem descends_throughout (table : Option (Overrides σ)) (home : Instance)
    (P : TypeExpr → Prop) : Descends table home fun _ _ => home.module.Throughout P where
  children all _ _ child := all.next (.child child)
  underlying all _ := all.next (.child List.mem_cons_self)
  definition all _ found _ := all.next (.definition found)

theorem descends_reachesUnder (table : Overrides σ) (home : Instance) (e : TypeExpr) :
    Descends (some table) home fun _ skip e' =>
      skip = none ∧ home.module.ReachesUnder table e e' := by
  have plain : ∀ {e}, overrideOf (some table) none ⟨home, e⟩ = none → e.override? table = none :=
    fun none => (overrideOf_none table _).symm.trans none
  constructor
  · rintro _ _ _ _ ⟨rfl, reaches⟩ none - child
    exact ⟨rfl, reaches.tail (plain none) (.child child)⟩
  · rintro _ _ _ _ ⟨rfl, reaches⟩ none
    exact ⟨rfl, reaches.tail (plain none) (.child List.mem_cons_self)⟩
  · rintro _ _ _ _ ⟨rfl, reaches⟩ none found -
    exact ⟨rfl, reaches.tail (plain none) (.definition found)⟩

/-! ## The steps of a draw -/

/-- What one step of a draw does from a place that satisfies `Good`: `P` is to hold of the
values drawn for a node, and `E` of the errors. -/
structure DrawRules (table : Option (Overrides σ)) (home : Instance)
    (Good : Nat → Option Name → TypeExpr → Prop) (P : TypeExpr → Value → Prop)
    (E : DrawError → Prop) : Prop extends Descends table home Good where
  payload {hops : Nat} {skip : Option Name} {e : TypeExpr} {p : Payload} :
    Good hops skip e → overrideOf table skip ⟨home, e⟩ = none → e.isIndirect = false →
      Built P e p → P e ⟨⟨home, e⟩, p⟩
  newtype {n : Name} {u : TypeExpr} {v : Value} :
    P u v → P (.newtype n u) ⟨⟨home, .newtype n u⟩, v.payload⟩
  reference {n : Name} {target : TypeExpr} {v : Value} :
    home.module.get? n = some target → P target v → P (.reference n) v
  choice {hops : Nat} {skip : Option Name} {e : TypeExpr} (what : String) :
    Good hops skip e → e.checkLocal ≠ .ok () → E (.emptyChoice what)
  undefined {hops : Nat} {skip : Option Name} {n : Name} :
    Good hops skip (.reference n) → home.module.get? n = none → E (.unresolvedReference n)
  cycle {hops : Nat} {skip : Option Name} {n : Name} {target : TypeExpr} :
    Good hops skip (.reference n) → home.module.get? n = some target →
      home.module.size < hops → E (.indirectionCycle n)

variable [RandomSource σ]

/-- The overrides that are called at such places, with less fuel than `bound`, give values
for which `P` holds and fail with errors for which `E` does. -/
def CallsEnsure (table : Option (Overrides σ)) (home : Instance) (bound : Nat)
    (Good : Nat → Option Name → TypeExpr → Prop) (P : TypeExpr → Value → Prop)
    (E : DrawError → Prop) : Prop :=
  ∀ fuel < bound, ∀ (hops : Nat) skip e g, Good hops skip e →
    overrideOf table skip ⟨home, e⟩ = some g →
      ∀ size, g.Ensures (Context.start fuel size table) (P e) E

/-- Without overrides nothing is asked of them. -/
theorem callsEnsure_empty (home : Instance) (bound : Nat)
    (Good : Nat → Option Name → TypeExpr → Prop) (P : TypeExpr → Value → Prop)
    (E : DrawError → Prop) :
    CallsEnsure (some (∅ : Overrides σ)) home bound Good P E := by
  intro _ _ _ skip e g _ called
  rw [overrideOf_empty] at called
  cases called

namespace DrawRules

variable {table : Option (Overrides σ)} {home : Instance}
  {Good : Nat → Option Name → TypeExpr → Prop} {P : TypeExpr → Value → Prop}
  {E : DrawError → Prop}

/-- **Induction on a draw.**  What the steps of a draw and the overrides on its way keep
holds of the draw. -/
theorem meets (rules : DrawRules table home Good P E) {bound : Nat}
    (calls : CallsEnsure table home bound Good P E) {fuel : Nat} (enough : fuel ≤ bound)
    (hops : Nat) (skip : Option Name) (e : TypeExpr) (good : Good hops skip e) (size : Nat)
    (s : σ) :
    (drawValue table fuel hops skip ⟨home, e⟩ size s).Meets (P e) E := by
  induction fuel generalizing hops skip e size s with
  | zero => trivial
  | succ fuel ih =>
      have ih := ih (Nat.le_of_succ_le enough)
      cases called : overrideOf table skip ⟨home, e⟩ with
      | some g =>
          rw [drawValue_override called]
          exact calls fuel enough hops skip e g good called _ s
      | none =>
          cases (BoundType.mk home e).way hops with
          | direct bears =>
              rw [drawValue_direct called bears]
              have draws : ∀ c ∈ e.children, (Generator.ofType ⟨home, c⟩).Ensures
                  (Context.start fuel size table) (P c) E := fun c child s =>
                ih 0 none c (rules.children good called bears child) size s
              have made : (Generator.payload ⟨home, e⟩).Ensures (Context.start fuel size table)
                  (fun p => p.Bounded size ∧ Built P e p) E :=
                Generator.ensures_payload (t := ⟨home, e⟩) bears draws fun what =>
                  rules.choice what good
              exact Outcome.meets_map ((made s).imp
                (fun p built => rules.payload good called bears built.2) fun _ => id)
          | @newtype n u form =>
              obtain rfl : e = .newtype n u := form
              rw [drawValue_newtype called rfl]
              have below := ih hops skip u (rules.underlying good called) size s
              exact Outcome.meets_map (below.imp (fun v => rules.newtype) fun _ => id)
          | @undefined n form found =>
              obtain rfl : e = .reference n := form
              rw [drawValue_undefined called rfl found]
              exact rules.undefined good found
          | @cycle n target form found many =>
              obtain rfl : e = .reference n := form
              rw [drawValue_cycle called rfl found many]
              exact rules.cycle good found many
          | @definition n target form found few =>
              obtain rfl : e = .reference n := form
              rw [drawValue_reference called rfl found few]
              have good := rules.definition good called found few
              have below := ih (hops + 1) skip target good size s
              exact below.imp (fun v => rules.reference found) fun _ => id

end DrawRules

end SchemaData

import SchemaData.Proofs.Guarded
import SchemaData.Proofs.Under
import SchemaData.Proofs.WellTyped

/-!
# SchemaData.Proofs.Overridden -- overrides keep the claims of the types

An override puts a value of its own in the place of a node, and whatever type that value
names is either discarded, at a newtype, or stays inside the payload, where the check does
not look at it.  So what matters is that the payload fits the node: if the entry for a name
gives only payloads that fit every node which carries the name (`Overrides.Keeps`), then
draws under the table give only payloads that fit their types.

* `accepted_of_overridden` says so.  As without overrides, it needs that no variant which is
  drawn along its type has two cases of one name (`repeated_case_overridden`).
* `keeps_of_guarded`: overrides with a guard are such entries, if their fixed values fit.
  They draw the definitions of their names again, so this is an induction on the fuel: an
  entry may rely on the table for the draws inside its own.
-/

namespace SchemaData

set_option autoImplicit false

variable {σ : Type}

/-- A node stands in the type or in a definition of its module. -/
def BoundType.Occurs (t : BoundType) (e : TypeExpr) : Prop :=
  e ∈ t.expr.nodes ∨ ∃ d ∈ t.home.module.definitions.entries, e ∈ d.2.nodes

theorem BoundType.forall_occurs {t : BoundType} {P : TypeExpr → Prop}
    (tree : ∀ e ∈ t.expr.nodes, P e)
    (definitions : ∀ d ∈ t.home.module.definitions.entries, ∀ e ∈ d.2.nodes, P e) :
    ∀ e, t.Occurs e → P e
  | e, .inl member => tree e member
  | e, .inr ⟨d, member, inside⟩ => definitions d member e inside

theorem BoundType.throughout_of_occurs {t : BoundType} {P : TypeExpr → Prop}
    (all : ∀ e, t.Occurs e → P e) : t.home.module.Throughout P t.expr :=
  Module.throughout_of_nodes (fun e member => all e (.inl member))
    fun d member e inside => all e (.inr ⟨d, member, inside⟩)

variable [RandomSource σ]

/-- In draws under the table, the entry for a name gives only payloads that fit each node
which carries the name. -/
def Overrides.Keeps (table : Overrides σ) (t : BoundType) : Prop :=
  ∀ n g, table.get? n = some g → ∀ e, t.Occurs e → e.name? = some n →
    ∀ fuel size s v s', g (Context.start fuel size (some table)) s = .value v s' →
      (t.child e).accepts v.payload = true

omit [RandomSource σ] in
/-- The steps of a draw keep the claims of the types, where cases have different names. -/
theorem conformingRules {home : Instance} {table : Option (Overrides σ)}
    {Good : Nat → Option Name → TypeExpr → Prop} (descends : Descends table home Good)
    (distinct : ∀ {hops skip e}, Good hops skip e → overrideOf table skip ⟨home, e⟩ = none →
      e.CasesDistinct) :
    DrawRules table home Good (fun e v => Conforms home.module e v.payload) fun _ => True where
  toDescends := descends
  payload good plain _ built := conforms_of_built (distinct good plain) built
  newtype fits := .newtype fits
  reference found fits := .reference found fits
  choice _ _ _ := trivial
  undefined _ _ := trivial
  cycle _ _ _ := trivial

/-- **Overrides keep the claims of the types.**  Let the entry for each name of a table give
only payloads that fit each node which carries the name, in the type or in its module; and
let the cases of every variant to which a draw comes without passing such a node have
different names.  Then all payloads that are drawn for the type under the table fit it. -/
theorem accepted_of_overridden (t : BoundType) (table : Overrides σ) (keeps : table.Keeps t)
    (distinct : ∀ e, t.home.module.ReachesUnder table t.expr e → e.override? table = none →
      e.CasesDistinct)
    (ctx : Context σ) (s s' : σ) (v : Value)
    (drawn : (ValueGenerator.mk table t).generator ctx s = .value v s') :
    t.accepts v.payload = true := by
  have rules := conformingRules (descends_reachesUnder table t.home t.expr) <| by
    rintro hops _ e ⟨rfl, reaches⟩ plain
    exact distinct e reaches ((overrideOf_none table _).symm.trans plain)
  have occurs : t.home.module.Throughout t.Occurs t.expr :=
    BoundType.throughout_of_occurs fun _ here => here
  have calls : CallsEnsure (some table) t.home ctx.fuel
      (fun _ skip e => skip = none ∧ t.home.module.ReachesUnder table t.expr e)
      (fun e v => Conforms t.home.module e v.payload) fun _ => True := by
    rintro fuel - hops skip e g ⟨-, reaches⟩ called size
    obtain ⟨n, named, found⟩ := exists_get?_of_overrideOf called
    refine Generator.ensures_of_outcomes (fun s v s' ended => ?_) fun _ _ _ _ => trivial
    have accepted := keeps n g found e (occurs e reaches.reaches) named fuel size s v s' ended
    exact ((t.child e).accepts_iff_conforms v.payload).1 accepted
  have fits := rules.meets calls (Nat.le_refl _) 0 none t.expr ⟨rfl, .refl⟩ ctx.size s
  change drawValue (some table) ctx.fuel 0 none t ctx.size s = .value v s' at drawn
  rw [drawn] at fits
  exact (t.accepts_iff_conforms v.payload).2 fits

/-! ## Overrides with a guard -/

/-- A variant has cases with different names, and none of certain names is carried by other
nodes than the references to it and its definition. -/
structure Module.Regular (m : Module) (names : List Name) (e : TypeExpr) : Prop where
  distinct : e.CasesDistinct
  definite : ∀ n ∈ names, e.name? = some n → e = .reference n ∨ m.get? n = some e

instance (m : Module) (names : List Name) : DecidablePred (m.Regular names) := fun e =>
  decidable_of_iff
    (e.CasesDistinct ∧ ∀ n ∈ names, e.name? = some n → e = .reference n ∨ m.get? n = some e)
    ⟨fun ⟨distinct, definite⟩ => ⟨distinct, definite⟩,
      fun ⟨distinct, definite⟩ => ⟨distinct, definite⟩⟩

theorem Module.Regular.conforms {m : Module} {names : List Name} {e : TypeExpr} {n : Name}
    {p : Payload} (regular : m.Regular names e) (member : n ∈ names) (named : e.name? = some n)
    (fits : Conforms m (.reference n) p) : Conforms m e p := by
  obtain rfl | found := regular.definite n member named
  · exact fits
  · cases fits with
    | reference found' behind =>
        rw [found] at found'
        cases found'
        exact behind

section Guarded

variable {home : Instance} {names : List Name} {base : Name → Value}

/-- What a guarded override draws fits what its name stands for. -/
theorem ensures_guarded (fits : ∀ n ∈ names, Conforms home.module (.reference n) (base n).payload)
    (regular : ∀ n target, home.module.get? n = some target →
      home.module.Throughout (home.module.Regular names) target)
    {n : Name} (member : n ∈ names) (limit fuel size : Nat) :
    (Generator.guarded limit home base n : Generator σ Value).Ensures
      (Context.start fuel size (some (guardedTable names limit home base)))
      (fun v => Conforms home.module (.reference n) v.payload) fun _ => True := by
  induction fuel using Nat.strongRecOn generalizing n size with
  | ind fuel ih =>
      let table : Overrides σ := guardedTable names limit home base
      have calls : CallsEnsure (some table) home fuel
          (fun _ _ => home.module.Throughout (home.module.Regular names))
          (fun e v => Conforms home.module e v.payload) fun _ => True := by
        intro k less hops skip e g all called size'
        rw [show table = .ofNames names _ from rfl, overrideOf_ofNames] at called
        obtain ⟨n', covered, rfl⟩ := Option.map_eq_some_iff.1 called
        obtain ⟨named, -, member'⟩ := TypeExpr.covering?_eq_some.1 covered
        exact (ih k less member' size').imp fun v => all.here.conforms member' named
      have rules := conformingRules (descends_throughout (some table) home
        (home.module.Regular names)) fun all _ => all.here.distinct
      intro s
      change ((if size ≤ limit then pure (base n) else Generator.fallback home n :
        Generator σ Value) (Context.start fuel size (some table)) s).Meets _ _
      split
      · exact fits n member
      · cases fits n member with
        | @reference _ target _ found _ =>
            rw [Generator.fallback_of_found found]
            have drawn := rules.meets calls (Nat.le_refl _) 0 target.name? target
              (regular n target found) size s
            exact drawn.imp (fun v => .reference found) fun _ => id

/-- **Overrides with a guard keep the claims of the types** if their fixed values fit. -/
theorem keeps_of_guarded {t : BoundType} {limit : Nat}
    (regular : ∀ e, t.Occurs e → t.home.module.Regular names e)
    (fits : ∀ n ∈ names, Conforms t.home.module (.reference n) (base n).payload) :
    (guardedTable names limit t.home base : Overrides σ).Keeps t := by
  have inside : ∀ n target, t.home.module.get? n = some target →
      t.home.module.Throughout (t.home.module.Regular names) target := by
    intro n target found
    have defined := NameMap.mem_entries_of_get? found
    exact Module.throughout_of_nodes (fun e member => regular e (.inr ⟨_, defined, member⟩))
      fun d member e inside => regular e (.inr ⟨d, member, inside⟩)
  intro n g found e occurs named fuel size s v s' drawn
  rw [guardedTable, Overrides.get?_ofNames] at found
  split at found
  · rename_i member
    cases found
    have conforms := ensures_guarded fits inside member limit fuel size s
    rw [drawn] at conforms
    exact ((t.child e).accepts_iff_conforms v.payload).2
      ((regular e occurs).conforms member named conforms)
  · cases found

end Guarded

namespace Example

def list : Name := ⟨"t", "List", by decide⟩

/-- A shelf is empty or holds lists of numbers, each of which is a number and the rest. -/
def shelf : BoundType :=
  ⟨⟨1, ⟨.ofList [
      (list, .variant list
        [⟨"Nil", []⟩,
          ⟨"Cons", [⟨"head", .primitive .int32⟩, ⟨"tail", .reference list⟩]⟩])]⟩⟩,
    .variant ⟨"t", "Shelf", by decide⟩
      [⟨"Empty", []⟩,
        ⟨"Full", [⟨"first", .reference list⟩, ⟨"others", .array (.reference list)⟩]⟩]⟩

/-- The list without numbers, under the label of another type. -/
def noList : Value := ⟨.ofPrimitive .bool, .variant "Nil" []⟩

def shortLists : Overrides Padded := guardedTable [list] 5 shelf.home fun _ => noList

end Example

open Example in
/-- The entry for lists draws their definition again, down to a value with a label that is not
its own. -/
theorem accepted_of_overridden_shelf :
    shortLists.Keeps shelf ∧
      (∀ e, shelf.home.module.ReachesUnder shortLists shelf.expr e → e.override? shortLists = none →
        e.CasesDistinct) ∧
      ∃ v s', (ValueGenerator.mk shortLists shelf).generator (Context.start 20 20 none)
          ⟨[0x80000000, 0x80000000, 7, 0x1000000000000000]⟩ = .value v s' ∧
        shelf.accepts v.payload = true := by
  have regular : ∀ e, shelf.Occurs e → shelf.home.module.Regular [list] e :=
    BoundType.forall_occurs (by decide) (by decide)
  have fits : Conforms shelf.home.module (.reference list) noList.payload :=
    ((shelf.child (.reference list)).accepts_iff_conforms noList.payload).1 (by decide)
  have keeps : shortLists.Keeps shelf :=
    keeps_of_guarded regular fun n member => List.mem_singleton.1 member ▸ fits
  have distinct : ∀ e, shelf.home.module.ReachesUnder shortLists shelf.expr e →
      e.override? shortLists = none → e.CasesDistinct := fun e reaches _ =>
    BoundType.throughout_of_occurs (fun e occurs => (regular e occurs).distinct) e reaches.reaches
  obtain ⟨v, s', drawn⟩ : ∃ v s', (ValueGenerator.mk shortLists shelf).generator
      (Context.start 20 20 none)
      ⟨[0x80000000, 0x80000000, 7, 0x1000000000000000]⟩ = .value v s' := ⟨_, _, rfl⟩
  exact ⟨keeps, distinct, v, s', drawn,
    accepted_of_overridden shelf shortLists keeps distinct _ _ _ _ drawn⟩

namespace Example

def switch : Name := ⟨"t", "Switch", by decide⟩

/-- A variant with two cases of one name, of which only the second has a parameter. -/
def repeatedSwitch : BoundType :=
  ⟨.base, .variant ⟨"t", "Lamp", by decide⟩
    [⟨"A", []⟩, ⟨"A", [⟨"x", .enum switch ["on"]⟩]⟩]⟩

/-- The parameter has an override. -/
def alwaysOn : Overrides Scripted :=
  .ofNames [switch] fun _ => pure ⟨.ofPrimitive .bool, .enum "on"⟩

end Example

open Example in
/-- The condition on cases is needed also where a part of the variant is overridden. -/
theorem repeated_case_overridden :
    alwaysOn.Keeps repeatedSwitch ∧ ∃ v s',
      (ValueGenerator.mk alwaysOn repeatedSwitch).generator (Context.start 9 0 none)
          (Scripted.start [0x80000000] 0) = .value v s' ∧
        repeatedSwitch.accepts v.payload = false := by
  refine ⟨?_, _, _, rfl, by decide⟩
  have fits : ∀ e, repeatedSwitch.Occurs e → e.name? = some switch →
      (repeatedSwitch.child e).accepts (.enum "on") = true :=
    BoundType.forall_occurs (by decide) (by decide)
  intro n g found e occurs named fuel size v s s' drawn
  rw [alwaysOn, Overrides.get?_ofNames] at found
  split at found
  · rename_i member
    obtain rfl := List.mem_singleton.1 member
    cases found
    cases drawn
    exact fits e occurs named
  · cases found

end SchemaData

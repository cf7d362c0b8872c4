import Mathlib.Data.List.Permutation
import SchemaData.Proofs.Acyclic
import SchemaData.Proofs.Ends
import SchemaData.Proofs.Fuel

/-!
# SchemaData.Proofs.Terminates -- draws of schemas without recursion succeed

A draw of a type ends with a value if the module is well formed and has no recursive
names, the type itself is sound and refers to definitions only, and the loops of the
source end.

* `halts_iff_ends`: `g.Halts size Q` is the case of `Generator.Ends` in which there are no
  overrides and a draw must not fail.  So the rules for nodes are the ones there.
* `exists_head_halts`: the induction over the nodes that a node leads to, which is well
  founded without recursive names (`Module.leads_wellFounded`).  It finds the head of
  the node, so that no reference is undefined and no chain is given up, and it shows
  that a payload is drawn for the head.
* `drawn_of_acyclic`: both together, for a whole draw.
-/

namespace SchemaData

set_option autoImplicit false

variable {σ α : Type} [RandomSource σ]

namespace Generator

open RandomSource

variable {size : Nat}

/-! ## Draws that end with a value -/

/-- Where loops end, a draw ends with a value that satisfies `Q`. -/
def Halts (size : Nat) (g : Generator σ α) (Q : α → Prop) : Prop :=
  ∀ s, LoopsEnd s → ∃ a s', Q a ∧ LoopsEnd s' ∧ g.Gives size s a s'

/-- To halt is to end without overrides and not with a failure. -/
theorem halts_iff_ends {g : Generator σ α} {Q : α → Prop} :
    g.Halts size Q ↔ g.Ends (some ∅) LoopsEnd size Q fun _ => False := by
  refine forall₂_congr fun s _ => ⟨?_, ?_⟩
  · rintro ⟨a, s', good, still, gives⟩
    exact ⟨.value a s', ⟨good, still⟩, gives⟩
  · rintro ⟨o, ended, draws⟩
    cases o with
    | value a s' => exact ⟨a, s', ended.1, ended.2, draws⟩
    | failed e s' => exact ended.1.elim
    | unfinished => exact ended.elim

variable {t : BoundType}

theorem halts_payload (direct : t.expr.isIndirect = false) (sound : t.expr.checkLocal = .ok ())
    (draws : ∀ c ∈ t.expr.children,
      (ofType (t.child c) : Generator σ Value).Halts size fun _ => True) :
    (payload t : Generator σ Payload).Halts size fun _ => True :=
  halts_iff_ends.2 (ends_payload steady_loopsEnd direct sound fun c child =>
    halts_iff_ends.1 (draws c child))

theorem halts_ofType_of_head (head : ∃ h, t.home.module.head t.expr = .settled h ∧
      (payload (t.child h) : Generator σ Payload).Halts size fun _ => True) :
    (ofType t : Generator σ Value).Halts size fun _ => True := by
  obtain ⟨h, settled, halts⟩ := head
  obtain ⟨label, behind⟩ := gives_ofType_of_head σ settled
  intro s loops
  obtain ⟨p, s', -, still, gives⟩ := halts s loops
  exact ⟨_, s', trivial, still, behind size s p s' gives⟩

end Generator

/-! ## Schemas without recursion -/

namespace Module

/-- What a draw needs of a node itself: it passes its own check, and it is no reference
without a definition. -/
def Admits (m : Module) (e : TypeExpr) : Prop :=
  e.checkLocal = .ok () ∧ ∀ n, e = .reference n → m.contains n = true

theorem admits_of_mem_nodes {m : Module} {e : TypeExpr} (sound : e.checkStructure = .ok ())
    (closed : ∀ n ∈ e.references, m.contains n = true) : ∀ e' ∈ e.nodes, m.Admits e' := by
  intro e' member
  refine ⟨(TypeExpr.checkStructure_eq_ok_iff e).1 sound e' member, ?_⟩
  rintro n rfl
  exact closed n (List.mem_filterMap.2 ⟨_, member, rfl⟩)

/-- In a well-formed module, a draw never comes to a node that it cannot draw. -/
theorem throughout_admits {m : Module} {e : TypeExpr} (wellFormed : m.checkWellFormed = .ok ())
    (sound : e.checkStructure = .ok ()) (closed : ∀ n ∈ e.references, m.contains n = true) :
    m.Throughout m.Admits e := by
  refine throughout_of_nodes (admits_of_mem_nodes sound closed) fun d member => ?_
  obtain ⟨soundHere, closedHere⟩ := (checkWellFormed_eq_ok_iff m).1 wellFormed d member
  exact admits_of_mem_nodes soundHere ((checkClosed_eq_ok_iff m d.2).1 closedHere)

theorem throughout_admits_of_get? {m : Module} {n : Name} {target : TypeExpr}
    (wellFormed : m.checkWellFormed = .ok ()) (found : m.get? n = some target) :
    m.Throughout m.Admits target := by
  obtain ⟨sound, closed⟩ :=
    (checkWellFormed_eq_ok_iff m).1 wellFormed _ (NameMap.mem_entries_of_get? found)
  exact throughout_admits wellFormed sound ((checkClosed_eq_ok_iff m target).1 closed)

end Module

/-- **Without recursive names, a node has a head for which a payload is drawn.** -/
theorem exists_head_halts {home : Instance} {size : Nat} (acyclic : home.module.recursiveNames = [])
    (e : TypeExpr) (admits : home.module.Throughout home.module.Admits e) :
    ∃ h, home.module.head e = .settled h ∧
      (Generator.payload ⟨home, h⟩ : Generator σ Payload).Halts size fun _ => True := by
  induction e using (Module.leads_wellFounded acyclic).induction with
  | h e ih =>
      cases e with
      | newtype n u =>
          have below : home.module.Leads (.newtype n u) u := .child List.mem_cons_self
          obtain ⟨h, settled, halts⟩ := ih u below (admits.next below)
          exact ⟨h, (Module.head_newtype n u).trans settled, halts⟩
      | reference n =>
          obtain ⟨target, found⟩ := (home.module.contains_iff n).1 (admits.here.2 n rfl)
          have below : home.module.Leads (.reference n) target := .definition found
          obtain ⟨h, settled, halts⟩ := ih target below (admits.next below)
          exact ⟨h, (Module.head_reference_settled_iff found).2 settled, halts⟩
      | _ =>
          -- A node that bears a payload is its own head, and its children are below it.
          refine ⟨_, Module.head_of_direct rfl, Generator.halts_payload rfl admits.here.1 ?_⟩
          intro c child
          have below := Module.Leads.child (m := home.module) child
          exact Generator.halts_ofType_of_head (ih c below (admits.next below))

/-- **Draws of schemas without recursion succeed.**  In a well-formed module without
recursive names, a type that passes its own checks is drawn with success from every
source whose loops end, whatever the budget. -/
theorem drawn_of_acyclic (t : BoundType) (size : Nat) (s : σ)
    (wellFormed : t.home.module.checkWellFormed = .ok ())
    (acyclic : t.home.module.recursiveNames = [])
    (sound : t.expr.checkStructure = .ok ())
    (closed : ∀ n ∈ t.expr.references, t.home.module.contains n = true)
    (loops : RandomSource.LoopsEnd s) :
    ∃ v s' bound, ∀ ctx : Context σ, ctx.size = size → bound ≤ ctx.fuel →
      (ValueGenerator.plain t).generator ctx s = .value v s' := by
  have admits := Module.throughout_admits wellFormed sound closed
  have halts : (Generator.ofType t : Generator σ Value).Halts size fun _ => True :=
    Generator.halts_ofType_of_head (exists_head_halts acyclic t.expr admits)
  obtain ⟨v, s', -, -, gives⟩ := halts s loops
  exact ⟨v, s', Generator.gives_plain gives⟩

namespace Example

/-- A source of given words with zeros behind them. -/
structure Padded where
  words : List UInt64

def Padded.next : Padded → UInt64 × Padded
  | ⟨[]⟩ => (0, ⟨[]⟩)
  | ⟨w :: rest⟩ => (w, ⟨rest⟩)

instance : RandomSource Padded where
  next32 s := (s.next.1.toUInt32, s.next.2)
  next64 := Padded.next
  nextBytes := RandomSource.bytesByWords 8 Padded.next RandomSource.bytes64
  nextBytes_length :=
    RandomSource.bytesByWords_length (by decide) Padded.next fun _ => rfl

/-- A loop that accepts zero ends when the words are used up, if not before. -/
theorem Padded.loop_ends {ω : Type} (view : UInt64 → ω) {accept : ω → Option Nat} {a : Nat}
    (zero : accept (view 0) = some a) (words : List UInt64) :
    ∃ tries, Generator.firstAccepted (fun s : Padded => (view s.next.1, s.next.2)) accept tries
      ⟨words⟩ ≠ .unfinished := by
  induction words with
  | nil =>
      refine ⟨1, ?_⟩
      rw [Generator.firstAccepted]
      cases answer : accept (view (next ⟨[]⟩).1) with
      | some b => exact fun same => by cases same
      | none => cases answer.symm.trans zero
  | cons w rest ih =>
      obtain ⟨tries, ends⟩ := ih
      refine ⟨tries + 1, ?_⟩
      rw [Generator.firstAccepted]
      cases answer : accept (view (next ⟨w :: rest⟩).1) with
      | some b => exact fun same => by cases same
      | none => exact ends

theorem Padded.loopsEnd (s : Padded) : RandomSource.LoopsEnd s := by
  intro s' _
  constructor
  · intro range _
    exact loop_ends UInt64.toUInt32 (Uniform.pick?_zero 32 range) s'.words
  · intro range _
    exact loop_ends id (Uniform.pick?_zero 64 range) s'.words
  · intro range _
    exact loop_ends UInt64.toUInt32 (Uniform.pickExact?_zero 32 range) s'.words

/-- A mark, which is one of two signs. -/
def mark : Name := ⟨"t", "Mark", by decide⟩

def pair : Name := ⟨"t", "Pair", by decide⟩

def signs : TypeExpr := .enum ⟨"t", "Sign", by decide⟩ ["off", "on"]

def twoMarks : TypeExpr :=
  .record pair [⟨"left", .reference mark⟩, ⟨"right", .optional (.reference mark)⟩]

/-- Lists of pairs of marks, without recursion: each definition refers only to the next
one. -/
def pairs : BoundType :=
  ⟨⟨1, ⟨.ofList [(pair, twoMarks), (mark, .newtype mark signs)]⟩⟩, .array (.reference pair)⟩

/-- A mark with one of the signs. -/
def marked (sign : String) : Value := ⟨pairs.child (.newtype mark signs), .enum sign⟩

/-- A list of one pair. -/
def offOn : Value :=
  ⟨pairs, .array [⟨pairs.child twoMarks, .record [marked "off",
    ⟨pairs.child (.optional (.reference mark)), .optional (some (marked "on"))⟩]⟩]⟩

/-- Words for this list.  The first one is refused as a length. -/
def offOnWords : Padded :=
  ⟨[0xFFFFFFFFFFFFFFFF, 0x6000000000000000, 7, 0x80000000, 0x80000000]⟩

end Example

open Example in
/-- The conditions hold of a list of pairs and of a source of five words. -/
theorem drawn_of_acyclic_pairs :
    RandomSource.LoopsEnd offOnWords ∧
      ∃ bound, ∀ ctx : Context Padded, ctx.size = 2 → bound ≤ ctx.fuel →
        (ValueGenerator.plain pairs).generator ctx offOnWords = .value offOn ⟨[]⟩ := by
  refine ⟨Padded.loopsEnd _, ?_⟩
  obtain ⟨v, s', bound, drawn⟩ :=
    drawn_of_acyclic pairs 2 offOnWords rfl (by cbv) rfl (by decide) (Padded.loopsEnd _)
  have computed : (ValueGenerator.plain pairs).generator (Context.start 9 2 none) offOnWords =
      .value offOn ⟨[]⟩ := by rfl
  have same := drawn (Context.start (max bound 9) 2 none) rfl (Nat.le_max_left bound 9)
  rw [ValueGenerator.plain, drawn_of_le Overrides.last_empty computed _ rfl
    (Nat.le_max_right bound 9)] at same
  cases same
  exact ⟨bound, drawn⟩

end SchemaData

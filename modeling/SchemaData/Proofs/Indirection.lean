import SchemaData.Proofs.Acyclic
import SchemaData.Proofs.Conforms

/-!
# SchemaData.Proofs.Indirection -- what the check says of a chain

`m.chain k e` is the node number `k` of the chain of `e`: a newtype is followed by its
underlying node and a reference by its definition, and nothing follows a node that bears
a payload or a reference without a definition.  No count bounds a chain, and so it ends
at a payload, it ends at a name without a definition (`Dangles`), or it is `Endless`.

`Module.head` counts the references that it follows.  The count is exact:

* `head_undefined_iff`, `exists_looping_iff`, `head_settled_iff`: the walk reports an
  undefined name exactly when the chain dangles from it, and a loop exactly when the chain
  is endless; and it settles exactly at the node at which the chain ends.
* `exists_round`: the reference at which a loop is noticed stands on the loop and not on
  the way to it, because by then more references were followed than there are names.

`findMismatch_of_chain` says the same of the check: at the root it reports an undefined
name or a loop for these chains and for no others, whatever the payload, and the name of
a loop is one of `Module.recursiveNames`.

`m.Along P r e c` is the part of a chain from `e` to `c`, with the number `r` of the
references on it; `P` holds of every node before `c`.
-/

namespace SchemaData

set_option autoImplicit false

/-- The node at which a walk stops. -/
def Head.node : Head → TypeExpr
  | settled h => h
  | undefined n | looping n => .reference n

theorem TypeExpr.unwrap_mem_nodes : (e : TypeExpr) → e.unwrap ∈ e.nodes
  | newtype n u => List.mem_cons_of_mem (newtype n u) (unwrap_mem_nodes u)
  | primitive _ | array _ | map _ | optional _ | enum .. | record .. | variant .. |
    reference _ => List.mem_cons_self

namespace Module

/-! ## Chains -/

/-- The node behind a newtype or a reference. -/
def next? (m : Module) : TypeExpr → Option TypeExpr
  | .newtype _ underlying => some underlying
  | .reference n => m.get? n
  | _ => none

/-- The node number `k` of the chain of a node, if the chain goes on that far. -/
def chain (m : Module) : Nat → TypeExpr → Option TypeExpr
  | 0, e => some e
  | k + 1, e => (m.next? e).bind (m.chain k)

/-- The chain goes on for ever. -/
def Endless (m : Module) (e : TypeExpr) : Prop :=
  ∀ k, ∃ c, m.chain k e = some c

/-- The chain ends at a reference to a name without a definition. -/
def Dangles (m : Module) (e : TypeExpr) (x : Name) : Prop :=
  m.get? x = none ∧ ∃ k, m.chain k e = some (.reference x)

/-- The reference to a name comes again on the chain, so that it stands on a loop. -/
def ComesAgain (m : Module) (e : TypeExpr) (x : Name) : Prop :=
  ∃ i j, i < j ∧ m.chain i e = some (.reference x) ∧ m.chain j e = some (.reference x)

variable {m : Module} {e c d : TypeExpr} {i j k : Nat} {x : Name}

theorem chain_add (i j : Nat) (e : TypeExpr) :
    m.chain (i + j) e = (m.chain i e).bind (m.chain j) := by
  induction i generalizing e with
  | zero => rw [Nat.zero_add, chain, Option.bind_some]
  | succ i ih =>
      rw [Nat.succ_add, chain, chain, Option.bind_assoc]
      exact congrArg _ (funext ih)

/-- A chain goes on behind one of its nodes as the chain of that node. -/
theorem chain_behind (reached : m.chain i e = some c) (j : Nat) :
    m.chain (i + j) e = m.chain j c := by
  rw [chain_add, reached, Option.bind_some]

theorem exists_chain_of_le (le : i ≤ j) (reached : m.chain j e = some c) :
    ∃ d, m.chain i e = some d := by
  rw [← Nat.add_sub_cancel' le, chain_add] at reached
  obtain ⟨d, earlier, -⟩ := Option.bind_eq_some_iff.1 reached
  exact ⟨d, earlier⟩

theorem chain_beyond (reached : m.chain i e = some c) (last : m.next? c = none) (less : i < j) :
    m.chain j e = none := by
  obtain ⟨k, rfl⟩ : ∃ k, j = i + (k + 1) := ⟨j - (i + 1), by omega⟩
  rw [chain_behind reached, chain, last, Option.bind_none]

/-- A chain has one end at most. -/
theorem last_unique (reached : m.chain i e = some c) (last : m.next? c = none)
    (reached' : m.chain j e = some d) (last' : m.next? d = none) : c = d := by
  rcases Nat.lt_trichotomy i j with less | rfl | less
  · rw [chain_beyond reached last less] at reached'
    cases reached'
  · exact Option.some.inj (reached.symm.trans reached')
  · rw [chain_beyond reached' last' less] at reached
    cases reached

theorem Endless.next?_ne_none (endless : m.Endless e) (reached : m.chain i e = some c) :
    m.next? c ≠ none := by
  intro last
  obtain ⟨d, further⟩ := endless (i + 1)
  rw [chain_beyond reached last (Nat.lt_succ_self i)] at further
  cases further

theorem Endless.behind (endless : m.Endless e) (reached : m.chain i e = some c) :
    m.Endless c := by
  intro k
  rw [← chain_behind reached]
  exact endless (i + k)

theorem next?_of_direct (direct : e.isIndirect = false) : m.next? e = none := by
  cases e with
  | newtype n u | reference n => cases direct
  | _ => rfl

/-! ## Parts of chains -/

/-- The node `c` is on the chain of a node behind so many references, and `P` holds of
every node before it. -/
inductive Along (m : Module) (P : TypeExpr → Prop) : Nat → TypeExpr → TypeExpr → Prop
  | here {c : TypeExpr} : Along m P 0 c c
  | unwrap {r : Nat} {n : Name} {u c : TypeExpr} :
      P (.newtype n u) → Along m P r u c → Along m P r (.newtype n u) c
  | follow {r : Nat} {n : Name} {target c : TypeExpr} :
      P (.reference n) → m.get? n = some target → Along m P r target c →
      Along m P (r + 1) (.reference n) c

variable {P : TypeExpr → Prop} {r r' : Nat}

theorem Along.imp {Q : TypeExpr → Prop} (along : m.Along P r e c) (weaker : ∀ e, P e → Q e) :
    m.Along Q r e c := by
  induction along with
  | here => exact .here
  | unwrap holds _ ih => exact .unwrap (weaker _ holds) ih
  | follow holds found _ ih => exact .follow (weaker _ holds) found ih

/-- A node that is passed on a chain has another one behind it. -/
theorem Along.passed (along : m.Along P r e c) :
    m.Along (fun e => P e ∧ m.next? e ≠ none) r e c := by
  induction along with
  | here => exact .here
  | unwrap holds _ ih => exact .unwrap ⟨holds, nofun⟩ ih
  | follow holds found _ ih => exact .follow ⟨holds, by rw [next?, found]; nofun⟩ found ih

theorem Along.trans (first : m.Along P r e c) (second : m.Along P r' c d) :
    m.Along P (r + r') e d := by
  induction first with
  | here => rwa [Nat.zero_add]
  | unwrap holds _ ih => exact .unwrap holds (ih second)
  | follow holds found _ ih =>
      rw [Nat.add_right_comm]
      exact .follow holds found (ih second)

theorem Along.exists_chain (along : m.Along P r e c) : ∃ k, m.chain k e = some c := by
  induction along with
  | here => exact ⟨0, rfl⟩
  | unwrap _ _ ih =>
      obtain ⟨k, reached⟩ := ih
      exact ⟨k + 1, reached⟩
  | follow _ found _ ih =>
      obtain ⟨k, reached⟩ := ih
      refine ⟨k + 1, ?_⟩
      rwa [chain, next?, found, Option.bind_some]

/-- A chain comes to a first node without `P` behind one number of references. -/
theorem Along.count_unique (along : m.Along P r e c) (stop : ¬ P c) (along' : m.Along P r' e d)
    (stop' : ¬ P d) : r = r' := by
  induction along generalizing r' with
  | here =>
      cases along' with
      | here => rfl
      | unwrap holds _ | follow holds _ _ => exact absurd holds stop
  | unwrap holds _ ih =>
      cases along' with
      | here => exact absurd holds stop'
      | unwrap _ rest => exact ih stop rest
  | follow holds found _ ih =>
      cases along' with
      | here => exact absurd holds stop'
      | follow _ found' rest =>
          rw [found] at found'
          cases found'
          rw [ih stop rest]

/-- The references before a first node without `P` have different names.  One that came
again would be as far from that node as before. -/
theorem Along.exists_names (along : m.Along P r e c) (stop : ¬ P c) :
    ∃ names : List Name, names.length = r ∧ names.Nodup ∧
      ∀ n ∈ names, m.contains n = true ∧ ∃ k ≤ r, m.Along P k (.reference n) c := by
  induction along with
  | here => exact ⟨[], rfl, List.nodup_nil, nofun⟩
  | unwrap _ _ ih => exact ih stop
  | @follow r n target c holds found rest ih =>
      obtain ⟨names, length, distinct, members⟩ := ih stop
      have whole : m.Along P (r + 1) (.reference n) c := .follow holds found rest
      have new : n ∉ names := by
        intro member
        obtain ⟨-, k, less, again⟩ := members n member
        have same := whole.count_unique stop again stop
        omega
      refine ⟨n :: names, congrArg (· + 1) length, List.nodup_cons.2 ⟨new, distinct⟩, ?_⟩
      refine List.forall_mem_cons.2 ⟨⟨?_, r + 1, Nat.le_refl _, whole⟩, fun n' member => ?_⟩
      · exact (m.contains_iff n).2 ⟨target, found⟩
      · obtain ⟨defined, k, less, again⟩ := members n' member
        exact ⟨defined, k, Nat.le_succ_of_le less, again⟩

/-- A first node without `P` is behind no more references than there are definitions. -/
theorem Along.le_size (along : m.Along P r e c) (stop : ¬ P c) : r ≤ m.size := by
  obtain ⟨names, rfl, distinct, members⟩ := along.exists_names stop
  have defined : names ⊆ m.names := fun n member =>
    (m.contains_iff_mem_names n).1 (members n member).1
  exact (List.subperm_of_subset distinct defined).length_le.trans_eq m.definitions.length_names

theorem along_unwrap : (e : TypeExpr) → (∀ r c, m.Along P r e c → P c) → m.Along P 0 e e.unwrap
  | .newtype n u, all => by
      have here : P (.newtype n u) := all 0 _ .here
      exact .unwrap here (along_unwrap u fun r c along => all r c (.unwrap here along))
  | .primitive _, _ | .array _, _ | .map _, _ | .optional _, _ | .enum .., _ | .record .., _ |
    .variant .., _ | .reference _, _ => .here

/-- The node at which a walk stops is on the chain, behind no more references than the
walk may follow; and behind exactly as many if it reports a loop. -/
theorem along_of_headWithin {k : Nat} {e : TypeExpr} (all : ∀ r c, m.Along P r e c → P c) :
    ∃ r ≤ k, m.Along P r e (m.headWithin k e).node ∧
      ∀ x, m.headWithin k e = .looping x → r = k := by
  have unwrapping := along_unwrap e all
  rcases m.unwrap_cases e with ⟨n, unwrapped, missing⟩ | ⟨n, target, unwrapped, found⟩ | direct
  · rw [unwrapped] at unwrapping
    rw [headWithin_undefined unwrapped missing]
    exact ⟨0, k.zero_le, unwrapping, nofun⟩
  · rw [unwrapped] at unwrapping
    cases k with
    | zero =>
        rw [headWithin_looping unwrapped found]
        exact ⟨0, Nat.le_refl 0, unwrapping, fun _ _ => rfl⟩
    | succ k =>
        have step : ∀ {r c}, m.Along P r target c → m.Along P (r + 1) e c := fun along => by
          have further := unwrapping.trans (.follow (all 0 _ unwrapping) found along)
          rwa [Nat.zero_add] at further
        obtain ⟨r, le, along, whole⟩ :=
          along_of_headWithin (k := k) fun r c along => all (r + 1) c (step along)
        rw [headWithin_found unwrapped found]
        exact ⟨r + 1, Nat.succ_le_succ le, step along, fun x same => by rw [whole x same]⟩
  · rw [headWithin_settled direct]
    exact ⟨0, k.zero_le, unwrapping, nofun⟩

theorem exists_chain_head (m : Module) (e : TypeExpr) :
    ∃ k, m.chain k e = some (m.head e).node := by
  obtain ⟨r, -, along, -⟩ :=
    along_of_headWithin (P := fun _ => True) (k := m.size + 1) fun _ _ _ => trivial
  exact along.exists_chain

/-! ## How a walk ends -/

theorem direct_of_settled {h : TypeExpr} (settled : m.headWithin k e = .settled h) :
    h.isIndirect = false := by
  induction k generalizing e with
  | zero =>
      obtain ⟨-, direct⟩ | ⟨n, target, j, more, -⟩ := settled_cases settled
      · exact direct
      · omega
  | succ k ih =>
      obtain ⟨-, direct⟩ | ⟨n, target, j, more, -, -, behind⟩ := settled_cases settled
      · exact direct
      · obtain rfl := Nat.succ.inj more
        exact ih behind

theorem missing_of_undefined {k : Nat} {e : TypeExpr}
    (dangling : m.headWithin k e = .undefined x) : m.get? x = none := by
  rcases m.unwrap_cases e with ⟨n, unwrapped, missing⟩ | ⟨n, target, unwrapped, found⟩ | direct
  · rw [headWithin_undefined unwrapped missing] at dangling
    exact Head.undefined.inj dangling ▸ missing
  · cases k with
    | zero =>
        rw [headWithin_looping unwrapped found] at dangling
        cases dangling
    | succ k =>
        rw [headWithin_found unwrapped found] at dangling
        exact missing_of_undefined dangling
  · rw [headWithin_settled direct] at dangling
    cases dangling

/-- **A loop is noticed at a reference that stands on it.**  From that reference on, the
names of the references that follow come round to it. -/
theorem exists_round (looping : m.head e = .looping x) :
    ∃ (name : Nat → Name) (d : Nat), 0 < d ∧ name 0 = x ∧ name d = x ∧
      ∀ k, ∃ target, m.get? (name k) = some target ∧
        target.unwrap = .reference (name (k + 1)) := by
  have going : ¬ (m.headWithin m.size e).Ended := by
    intro ended
    rw [← headWithin_of_le (Nat.le_succ _) ended] at ended
    rw [head] at looping
    rwa [looping] at ended
  obtain ⟨i, d, positive, early, loop⟩ := exists_loop going
  choose name target found unwrapped using
    fun k => exists_of_not_ended (not_ended_of_not_ended_size going k)
  have noticed : name (m.size + 1) = x := by
    rw [head, ← Nat.zero_add (m.size + 1), headWithin_iterate,
      headWithin_looping (unwrapped _) (found _)] at looping
    exact Head.looping.inj looping
  -- By then the walk has gone round the loop, and it comes to every node again.
  have again : m.hop^[m.size + 1 + d] e = m.hop^[m.size + 1] e := by
    obtain ⟨r, rounds⟩ : ∃ r, m.size + 1 = r + (i + 1) := ⟨m.size - i, by omega⟩
    rw [rounds, Nat.add_assoc, Nat.add_right_comm i 1 d, Function.iterate_add_apply, loop,
      ← Function.iterate_add_apply]
  refine ⟨fun k => name (m.size + 1 + k), d, positive, noticed, ?_, fun k => ?_⟩
  · show name (m.size + 1 + d) = x
    have same := unwrapped (m.size + 1 + d)
    rw [again, unwrapped] at same
    rw [← TypeExpr.reference.inj same, noticed]
  · refine ⟨_, found _, ?_⟩
    rw [← hop_found (unwrapped _) (found _), ← Function.iterate_succ_apply' m.hop]
    exact unwrapped (m.size + 1 + (k + 1))

/-- The name at which a loop is noticed is recursive. -/
theorem mem_recursiveNames_of_looping (looping : m.head e = .looping x) :
    x ∈ m.recursiveNames := by
  obtain ⟨name, d, positive, first, last, refers⟩ := exists_round looping
  have step : ∀ k, Relation.TransGen (fun a b => b ∈ m.successors a) (name k) (name (k + 1)) := by
    intro k
    obtain ⟨target, found, unwrapped⟩ := refers k
    obtain ⟨_, defined, -⟩ := refers (k + 1)
    exact .single (mem_successors found (unwrapped ▸ target.unwrap_mem_nodes) defined)
  have cycle := Nat.rel_of_forall_rel_succ_of_lt _ step positive
  rw [first, last] at cycle
  exact mem_recursiveNames_of_cycle cycle

/-- From the reference at which a loop is noticed, the chain comes back to it. -/
theorem exists_chain_back (looping : m.head e = .looping x) :
    ∃ k, 0 < k ∧ m.chain k (.reference x) = some (.reference x) := by
  obtain ⟨name, d, positive, first, last, refers⟩ := exists_round looping
  have step : ∀ k, ∃ j, m.chain (j + 1) (.reference (name k)) =
      some (.reference (name (k + 1))) := by
    intro k
    obtain ⟨target, found, unwrapped⟩ := refers k
    obtain ⟨j, reached⟩ :=
      (along_unwrap (m := m) (P := fun _ => True) target fun _ _ _ => trivial).exists_chain
    exact ⟨j, by rw [chain, next?, found, Option.bind_some, reached, unwrapped]⟩
  have rounds : ∀ k, ∃ j, k ≤ j ∧ m.chain j (.reference (name 0)) =
      some (.reference (name k)) := by
    intro k
    induction k with
    | zero => exact ⟨0, Nat.le_refl 0, rfl⟩
    | succ k ih =>
        obtain ⟨j, le, reached⟩ := ih
        obtain ⟨l, further⟩ := step k
        refine ⟨j + (l + 1), by omega, ?_⟩
        rw [chain_behind reached, further]
  obtain ⟨j, le, reached⟩ := rounds d
  rw [first, last] at reached
  exact ⟨j, by omega, reached⟩

theorem comesAgain_of_looping (looping : m.head e = .looping x) : m.ComesAgain e x := by
  obtain ⟨i, reached⟩ := m.exists_chain_head e
  rw [looping, Head.node] at reached
  obtain ⟨j, positive, back⟩ := exists_chain_back looping
  exact ⟨i, i + j, by omega, reached, by rw [chain_behind reached, back]⟩

theorem ComesAgain.endless (again : m.ComesAgain e x) : m.Endless e := by
  obtain ⟨i, j, less, reached, reached'⟩ := again
  obtain ⟨d, rfl⟩ : ∃ d, j = i + d := ⟨j - i, by omega⟩
  rw [chain_behind reached] at reached'
  have rounds : ∀ k, m.chain (d * k) (.reference x) = some (.reference x) := by
    intro k
    induction k with
    | zero => rfl
    | succ k ih => rw [Nat.mul_succ, chain_behind ih, reached']
  intro k
  have positive : 0 < d := by omega
  have far : k ≤ i + d * k := (Nat.le_mul_of_pos_left k positive).trans (Nat.le_add_left _ _)
  refine exists_chain_of_le far (c := .reference x) ?_
  rw [chain_behind reached, rounds]

/-- The walk reports an undefined name exactly when the chain ends at it. -/
theorem head_undefined_iff : m.head e = .undefined x ↔ m.Dangles e x := by
  obtain ⟨i, stop⟩ := m.exists_chain_head e
  constructor
  · intro dangling
    rw [dangling] at stop
    exact ⟨missing_of_undefined dangling, i, stop⟩
  · rintro ⟨missing, k, reached⟩
    have last : m.next? (.reference x) = none := missing
    cases answer : m.head e with
    | settled h =>
        rw [answer] at stop
        have direct := direct_of_settled answer
        have same : h = .reference x := last_unique stop (next?_of_direct direct) reached last
        rw [same] at direct
        cases direct
    | undefined n =>
        rw [answer] at stop
        have missing' : m.next? (.reference n) = none := missing_of_undefined answer
        have same := last_unique stop missing' reached last
        cases same
        rfl
    | looping n =>
        exact absurd last ((comesAgain_of_looping answer).endless.next?_ne_none reached)

/-- The walk reports a loop exactly when the chain is endless. -/
theorem exists_looping_iff : (∃ x, m.head e = .looping x) ↔ m.Endless e := by
  constructor
  · rintro ⟨x, looping⟩
    exact (comesAgain_of_looping looping).endless
  · intro endless
    obtain ⟨i, stop⟩ := m.exists_chain_head e
    have further := endless.next?_ne_none stop
    cases answer : m.head e with
    | settled h =>
        rw [answer] at further
        exact absurd (next?_of_direct (direct_of_settled answer)) further
    | undefined n =>
        rw [answer] at further
        exact absurd (missing_of_undefined answer) further
    | looping n => exact ⟨n, rfl⟩

/-- The walk settles exactly at the node that bears a payload on the chain. -/
theorem head_settled_iff {h : TypeExpr} :
    m.head e = .settled h ↔ h.isIndirect = false ∧ ∃ k, m.chain k e = some h := by
  obtain ⟨i, stop⟩ := m.exists_chain_head e
  constructor
  · intro settled
    rw [settled] at stop
    exact ⟨direct_of_settled settled, i, stop⟩
  · rintro ⟨direct, k, reached⟩
    have last : m.next? h = none := next?_of_direct direct
    cases answer : m.head e with
    | settled h' =>
        rw [answer] at stop
        have last' : m.next? h' = none := next?_of_direct (direct_of_settled answer)
        have same : h' = h := last_unique stop last' reached last
        rw [same]
    | undefined n =>
        rw [answer] at stop
        have same : .reference n = h := last_unique stop (missing_of_undefined answer) reached last
        rw [← same] at direct
        cases direct
    | looping n =>
        exact absurd last ((comesAgain_of_looping answer).endless.next?_ne_none reached)

/-- A node reaches the nodes of its chain. -/
theorem reaches_of_chain {k : Nat} {e : TypeExpr} (reached : m.chain k e = some c) :
    m.Reaches e c := by
  induction k generalizing e with
  | zero =>
      cases reached
      exact .refl
  | succ k ih =>
      obtain ⟨d, next, rest⟩ := Option.bind_eq_some_iff.1 reached
      refine .head ?_ (ih rest)
      cases e with
      | newtype n u =>
          cases next
          exact .child List.mem_cons_self
      | reference n => exact .definition next
      | _ => cases next

theorem reaches_head (m : Module) (e : TypeExpr) : m.Reaches e (m.head e).node := by
  obtain ⟨k, reached⟩ := m.exists_chain_head e
  exact reaches_of_chain reached

/-! ## What the check reports at the root -/

theorem path_ne_nil_of_items {item : TypeExpr} {vs : List Value} {f : Mismatch}
    (found : m.mismatchInItems item i vs = some f) : f.path ≠ [] := by
  induction vs generalizing i with
  | nil => cases found
  | cons v vs ih =>
      rw [mismatchInItems] at found
      split at found
      · cases found
        exact List.cons_ne_nil _ _
      · exact ih found

theorem path_ne_nil_of_entries {item : TypeExpr} {es : List (String × Value)} {f : Mismatch}
    (found : m.mismatchInEntries item es = some f) : f.path ≠ [] := by
  induction es with
  | nil => cases found
  | cons e es ih =>
      rw [mismatchInEntries] at found
      split at found
      · cases found
        exact List.cons_ne_nil _ _
      · exact ih found

theorem path_ne_nil_of_components {fields : List (Field TypeExpr)} {vs : List Value}
    {f : Mismatch} (found : m.mismatchInComponents fields vs = some f) : f.path ≠ [] := by
  induction vs generalizing fields with
  | nil => cases found
  | cons v vs ih =>
      cases fields with
      | nil => cases found
      | cons g fields =>
          rw [mismatchInComponents] at found
          split at found
          · cases found
            exact List.cons_ne_nil _ _
          · exact ih found

/-- A node that bears a payload is never blamed on a chain. -/
theorem mismatchAtHead_ne (h : TypeExpr) (p : Payload) (x : Name) :
    m.mismatchAtHead h p ≠ some (.atRoot (.unresolvedReference x)) ∧
      m.mismatchAtHead h p ≠ some (.atRoot (.indirectionCycle x)) := by
  suffices deeper : ∀ reason, m.mismatchAtHead h p = some (.atRoot reason) →
      reason ≠ .unresolvedReference x ∧ reason ≠ .indirectionCycle x from
    ⟨fun found => (deeper _ found).1 rfl, fun found => (deeper _ found).2 rfl⟩
  intro reason found
  unfold mismatchAtHead at found
  split at found
  · split at found <;> cases found
    simp
  · exact absurd rfl (path_ne_nil_of_items found)
  · exact absurd rfl (path_ne_nil_of_entries found)
  · cases found
  · obtain ⟨_, -, same⟩ := Option.map_eq_some_iff.1 found
    cases same
  · split at found <;> cases found
    simp
  · split at found
    · exact absurd rfl (path_ne_nil_of_components found)
    · cases found
      simp
  · split at found
    · cases found
      simp
    · obtain ⟨_, -, same⟩ := Option.map_eq_some_iff.1 found
      cases same
  · cases found
    simp

theorem findMismatch_of_undefined (dangling : m.head e = .undefined x) (p : Payload) :
    m.findMismatch e p = some (.atRoot (.unresolvedReference x)) := by
  rw [findMismatch, judgeHead, dangling]

theorem findMismatch_of_looping (looping : m.head e = .looping x) (p : Payload) :
    m.findMismatch e p = some (.atRoot (.indirectionCycle x)) := by
  rw [findMismatch, judgeHead, looping]

/-- At the root, the check reports an undefined name for the walk that ends there. -/
theorem findMismatch_undefined_iff {p : Payload} :
    m.findMismatch e p = some (.atRoot (.unresolvedReference x)) ↔ m.head e = .undefined x := by
  refine ⟨fun found => ?_, fun dangling => findMismatch_of_undefined dangling p⟩
  cases answer : m.head e with
  | settled h =>
      rw [findMismatch_of_settled answer] at found
      exact absurd found (mismatchAtHead_ne h p x).1
  | undefined n =>
      rw [findMismatch_of_undefined answer] at found
      cases found
      rfl
  | looping n =>
      rw [findMismatch_of_looping answer] at found
      cases found

/-- At the root, the check reports a loop for the walk that notices it there. -/
theorem findMismatch_looping_iff {p : Payload} :
    m.findMismatch e p = some (.atRoot (.indirectionCycle x)) ↔ m.head e = .looping x := by
  refine ⟨fun found => ?_, fun looping => findMismatch_of_looping looping p⟩
  cases answer : m.head e with
  | settled h =>
      rw [findMismatch_of_settled answer] at found
      exact absurd found (mismatchAtHead_ne h p x).2
  | undefined n =>
      rw [findMismatch_of_undefined answer] at found
      cases found
  | looping n =>
      rw [findMismatch_of_looping answer] at found
      cases found
      rfl

end Module

/-- **What the check says of chains.**  Whatever the payload, the check reports at the
root

* the undefined name at which the chain of the type ends, if it ends at one;
* a loop, if the chain is endless, at a reference that comes again on the chain and so
  stands on the loop itself, whose name is recursive;
* neither of them, if the chain ends at a node that bears a payload. -/
theorem findMismatch_of_chain (t : BoundType) (p : Payload) :
    (∀ x, t.findMismatch p = some (.atRoot (.unresolvedReference x)) ↔
        t.home.module.Dangles t.expr x) ∧
      ((∃ x, t.findMismatch p = some (.atRoot (.indirectionCycle x))) ↔
        t.home.module.Endless t.expr) ∧
      (∀ x, t.findMismatch p = some (.atRoot (.indirectionCycle x)) →
        t.home.module.ComesAgain t.expr x ∧ x ∈ t.home.module.recursiveNames) ∧
      ∀ k h, t.home.module.chain k t.expr = some h → h.isIndirect = false →
        ∀ x, t.findMismatch p ≠ some (.atRoot (.unresolvedReference x)) ∧
          t.findMismatch p ≠ some (.atRoot (.indirectionCycle x)) := by
  have dangles : ∀ x, t.findMismatch p = some (.atRoot (.unresolvedReference x)) ↔
      t.home.module.Dangles t.expr x := fun x =>
    Module.findMismatch_undefined_iff.trans Module.head_undefined_iff
  have loops : ∀ x, t.findMismatch p = some (.atRoot (.indirectionCycle x)) ↔
      t.home.module.head t.expr = .looping x := fun x => Module.findMismatch_looping_iff
  have endless : (∃ x, t.findMismatch p = some (.atRoot (.indirectionCycle x))) ↔
      t.home.module.Endless t.expr :=
    (exists_congr loops).trans Module.exists_looping_iff
  refine ⟨dangles, endless, fun x found => ?_, fun k h reached direct x => ⟨?_, ?_⟩⟩
  · have looping := (loops x).1 found
    exact ⟨Module.comesAgain_of_looping looping, Module.mem_recursiveNames_of_looping looping⟩
  · intro found
    obtain ⟨missing, i, stop⟩ := (dangles x).1 found
    have same : h = .reference x :=
      Module.last_unique reached (Module.next?_of_direct direct) stop missing
    rw [same] at direct
    cases direct
  · intro found
    exact (endless.1 ⟨x, found⟩).next?_ne_none reached (Module.next?_of_direct direct)

end SchemaData

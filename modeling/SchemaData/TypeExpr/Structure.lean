import SchemaData.SchemaError
import SchemaData.TypeExpr

/-!
# SchemaData.TypeExpr.Structure -- what a node must satisfy by itself

An enum has symbols, a variant has cases, and no symbol, case or field is named
twice by its owner; the parameters of different cases may share names.
`checkLocal` judges one node, `checkStructure` a whole tree in pre-order, and
`enumeration`, `makeRecord` and `makeVariant` make only nodes that pass.  A
`TypeExpr` that comes from elsewhere may break the rules, and is then refused
where it is used.
-/

namespace SchemaData

set_option autoImplicit false

/-- The first element that stands in `seen` or earlier in the list. -/
def firstRepeatAfter (seen : List String) : List String → Option String
  | [] => none
  | x :: xs => if x ∈ seen then some x else firstRepeatAfter (x :: seen) xs

/-- The first element that occurs earlier in the list. -/
def firstRepeat? (xs : List String) : Option String :=
  firstRepeatAfter [] xs

theorem firstRepeatAfter_eq_none_iff (seen xs : List String) :
    firstRepeatAfter seen xs = none ↔ xs.Nodup ∧ ∀ x ∈ xs, x ∉ seen := by
  induction xs generalizing seen with
  | nil => simp [firstRepeatAfter]
  | cons x xs ih =>
      by_cases member : x ∈ seen
      · simp [firstRepeatAfter, member]
      · simp only [firstRepeatAfter, member, if_false, ih, List.nodup_cons]
        grind

/-- A list has no repeat exactly when its elements are pairwise distinct. -/
theorem firstRepeat?_eq_none_iff (xs : List String) : firstRepeat? xs = none ↔ xs.Nodup := by
  simp [firstRepeat?, firstRepeatAfter_eq_none_iff]

/-- One check after another passes exactly when both do. -/
theorem seq_eq_ok_iff {ε : Type} {first second : Except ε Unit} :
    (first >>= fun _ => second) = .ok () ↔ first = .ok () ∧ second = .ok () := by
  cases first with
  | ok => exact ⟨fun passes => ⟨rfl, passes⟩, fun both => both.2⟩
  | error e => exact ⟨nofun, fun both => nomatch both.1⟩

/-- One check after another fails in the first, or in the second when the first passes. -/
theorem seq_eq_error_iff {ε : Type} {first second : Except ε Unit} {e : ε} :
    (first >>= fun _ => second) = .error e ↔
      first = .error e ∨ first = .ok () ∧ second = .error e := by
  cases first with
  | ok => exact ⟨fun failed => .inr ⟨rfl, failed⟩, fun either => (either.resolve_left nofun).2⟩
  | error e' => exact ⟨.inl, fun either => either.resolve_right fun both => nomatch both.1⟩

/-- A check of a list in turn passes exactly when every element does. -/
theorem forM_eq_ok_iff {ε α : Type} {check : α → Except ε Unit} {xs : List α} :
    xs.forM check = .ok () ↔ ∀ x ∈ xs, check x = .ok () := by
  induction xs with
  | nil => exact ⟨fun _ => nofun, fun _ => rfl⟩
  | cons x xs ih =>
      rw [List.forall_mem_cons, ← ih]
      exact seq_eq_ok_iff

/-- A check of a list in turn fails as the first element does that fails. -/
theorem forM_eq_error_iff {ε α : Type} {check : α → Except ε Unit} {xs : List α} {e : ε} :
    xs.forM check = .error e ↔ ∃ before x after, xs = before ++ x :: after ∧
      (∀ y ∈ before, check y = .ok ()) ∧ check x = .error e := by
  induction xs with
  | nil => exact ⟨nofun, fun ⟨before, x, after, same, _⟩ => by simp at same⟩
  | cons x xs ih =>
      have unfolded : (x :: xs).forM check = check x >>= fun _ => xs.forM check := rfl
      rw [unfolded]
      cases here : check x with
      | error e' =>
          constructor
          · intro failed
            exact ⟨[], x, xs, rfl, nofun, here.trans failed⟩
          · rintro ⟨before, y, after, same, passed, failed⟩
            cases before with
            | nil =>
                obtain ⟨rfl, rfl⟩ := List.cons.inj same
                exact here.symm.trans failed
            | cons z before =>
                obtain ⟨rfl, rfl⟩ := List.cons.inj same
                rw [passed x List.mem_cons_self] at here
                cases here
      | ok =>
          refine Iff.trans ih ⟨?_, ?_⟩
          · rintro ⟨before, y, after, rfl, passed, failed⟩
            exact ⟨x :: before, y, after, rfl, List.forall_mem_cons.2 ⟨here, passed⟩, failed⟩
          · rintro ⟨before, y, after, same, passed, failed⟩
            cases before with
            | nil =>
                obtain ⟨rfl, rfl⟩ := List.cons.inj same
                rw [failed] at here
                cases here
            | cons z before =>
                obtain ⟨rfl, rfl⟩ := List.cons.inj same
                exact ⟨before, y, after, rfl, fun w member =>
                  passed w (List.mem_cons_of_mem _ member), failed⟩

/-- Refuses items of `owner` of which two are the same. -/
def checkDistinct (item : Item) (owner : Name) (items : List String) :
    Except SchemaError Unit :=
  match firstRepeat? items with
  | some repeated => .error (.duplicate item repeated owner)
  | none => .ok ()

theorem checkDistinct_eq_ok_iff {item : Item} {owner : Name} {items : List String} :
    checkDistinct item owner items = .ok () ↔ items.Nodup := by
  rw [← firstRepeat?_eq_none_iff, checkDistinct]
  cases firstRepeat? items with
  | none => simp
  | some x => simp

namespace TypeExpr

/-- What a node must satisfy by itself.  An empty list is refused before a
repeated element, and a repeated case before a repeated parameter. -/
def checkLocal : TypeExpr → Except SchemaError Unit
  | enum name symbols =>
      if symbols = [] then .error (.emptyEnum name)
      else checkDistinct .symbol name symbols
  | record name fields => checkDistinct .field name (fields.map (·.name))
  | variant name cases =>
      if cases = [] then .error (.emptyVariant name)
      else do
        checkDistinct .case name (cases.map (·.name))
        cases.forM fun c => checkDistinct .field name (c.parameters.map (·.name))
  | _ => .ok ()

/-- Judges every node of a tree; the first one in pre-order that fails decides. -/
def checkStructure (e : TypeExpr) : Except SchemaError Unit :=
  e.nodes.forM checkLocal

theorem checkStructure_eq_ok_iff (e : TypeExpr) :
    e.checkStructure = .ok () ↔ ∀ e' ∈ e.nodes, e'.checkLocal = .ok () :=
  forM_eq_ok_iff

theorem nodup_of_checkLocal_record {name : Name} {fields : List (Field TypeExpr)}
    (sound : (record name fields).checkLocal = .ok ()) : (fields.map (·.name)).Nodup :=
  checkDistinct_eq_ok_iff.1 sound

theorem nodup_of_checkLocal_variant {name : Name} {cases : List (Case TypeExpr)}
    {c : Case TypeExpr} (sound : (variant name cases).checkLocal = .ok ()) (member : c ∈ cases) :
    (c.parameters.map (·.name)).Nodup := by
  rw [checkLocal] at sound
  split at sound
  · cases sound
  · have parameters := forM_eq_ok_iff.1 (seq_eq_ok_iff.1 sound).2
    exact checkDistinct_eq_ok_iff.1 (parameters c member)

/-- Runs an action on each child in order. -/
def forEachChild {m : Type → Type} [Monad m] (e : TypeExpr) (act : TypeExpr → m Unit) : m Unit :=
  e.children.forM act

/-- The node itself, if it passes `checkLocal`. -/
def checked (e : TypeExpr) : Except SchemaError TypeExpr :=
  e.checkLocal.map fun _ => e

/-- An enum over the symbols. -/
def enumeration (name : Name) (symbols : List String) : Except SchemaError TypeExpr :=
  checked (enum name symbols)

/-- A record with the fields in declared order. -/
def makeRecord (name : Name) (fields : List (Field TypeExpr)) : Except SchemaError TypeExpr :=
  checked (record name fields)

/-- A tagged sum over the cases. -/
def makeVariant (name : Name) (cases : List (Case TypeExpr)) : Except SchemaError TypeExpr :=
  checked (variant name cases)

end TypeExpr

end SchemaData

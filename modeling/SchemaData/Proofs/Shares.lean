import Mathlib.Algebra.BigOperators.Group.Finset.Basic
import Mathlib.Algebra.Order.Floor.Div
import Mathlib.Data.FinEnum
import Mathlib.Data.Rat.Defs
import Mathlib.Order.Interval.Finset.Nat
import SchemaData.Proofs.Keyed

/-!
# SchemaData.Proofs.Shares -- every weight gets its exact share of the words

A choice by weight takes words of 32 bits until one is accepted, and reads the number of a
weight off it.  Among all words, every weight has as many as it says, times how often the sum
of the weights goes into the number of words; the words that are left over are refused.

The argument has three layers.  The words that `Uniform.pickExact?` takes for a number are an
interval (`Uniform.pickExact?_eq_some_iff_mem`), and the interval of every number below the
range is equally long, so that a set of numbers has its share (`Uniform.card_wordsFor`).  The
numbers that `shareOf` takes for a weight are an interval as well, as long as the weight is
large (`shareOf_eq_iff`); a weight of zero has the empty one, wherever it stands in the list.
That is the rule of a search in the table of sums (`shareOf_eq_countP`).  And the loop answers
with the first word that is accepted (`firstAccepted_eq_value_iff`), so that
`weightedIndex_exact` counts the words that it can answer.
-/

namespace SchemaData

set_option autoImplicit false

/-! ## Words for a number -/

namespace Uniform

variable {bits range v x : Nat}

/-- The accepted remainders fill the words up to the last whole multiple of the range. -/
theorem exactZone_succ (positive : 0 < range) (fits : range ≤ wordCount bits) :
    exactZone bits range + 1 = wordCount bits / range * range := by
  have left : (wordCount bits - range) % range = wordCount bits % range := by
    rw [← Nat.mod_eq_sub_mod fits]
  have small := Nat.mod_lt (wordCount bits) positive
  have whole := Nat.div_add_mod (wordCount bits) range
  rw [Nat.mul_comm] at whole
  rw [exactZone, left]
  omega

/-- A word stands for a number when its product lies in the part of that number. -/
theorem pickExact?_eq_some_iff (positive : 0 < range) (fits : range ≤ wordCount bits) :
    pickExact? bits range v = some x ↔ x * wordCount bits ≤ v * range ∧
      v * range < x * wordCount bits + wordCount bits / range * range := by
  have zone := exactZone_succ positive fits
  have whole : wordCount bits / range * range ≤ wordCount bits := Nat.div_mul_le_self _ _
  have product := Nat.div_add_mod (v * range) (wordCount bits)
  rw [Nat.mul_comm] at product
  rw [pickExact?, Option.ite_none_right_eq_some, Option.some_inj, remainder, scaled]
  constructor
  · rintro ⟨small, rfl⟩
    omega
  · rintro ⟨least, below⟩
    have quotient : v * range / wordCount bits = x :=
      Nat.div_eq_of_lt_le least (by rw [Nat.succ_mul]; omega)
    rw [quotient] at product
    exact ⟨by omega, quotient⟩

/-- The first word that stands for a number. -/
def firstWord (bits range x : Nat) : Nat := x * wordCount bits ⌈/⌉ range

/-- The words for a number follow one another, and every number has as many of them. -/
theorem pickExact?_eq_some_iff_mem (positive : 0 < range) (fits : range ≤ wordCount bits) :
    pickExact? bits range v = some x ↔
      v ∈ Finset.Ico (firstWord bits range x)
        (firstWord bits range x + wordCount bits / range) := by
  have first : ∀ v, firstWord bits range x ≤ v ↔ x * wordCount bits ≤ v * range := fun v => by
    rw [firstWord, ceilDiv_le_iff_le_mul positive, Nat.mul_comm range]
  rw [pickExact?_eq_some_iff positive fits, Finset.mem_Ico, first]
  refine and_congr_right fun _ => ?_
  rw [← not_le, ← not_le, not_iff_not]
  -- The upper bound says that the word one share below, if there is one, comes before the first.
  rcases Nat.lt_or_ge v (wordCount bits / range) with few | many
  · have less := Nat.mul_lt_mul_of_pos_right few positive
    constructor <;> intro beyond <;> omega
  · obtain ⟨u, rfl⟩ := Nat.exists_eq_add_of_le' many
    rw [Nat.add_mul, Nat.add_le_add_iff_right, Nat.add_le_add_iff_right, first]

/-- All the words for a number below the range are words. -/
theorem firstWord_add_le (inRange : x < range) :
    firstWord bits range x + wordCount bits / range ≤ wordCount bits := by
  have positive : 0 < range := by omega
  have whole : wordCount bits / range * range ≤ wordCount bits := Nat.div_mul_le_self _ _
  have next : (x + 1) * wordCount bits ≤ range * wordCount bits :=
    Nat.mul_le_mul_right _ inRange
  have enough : firstWord bits range x ≤ wordCount bits - wordCount bits / range := by
    rw [firstWord, ceilDiv_le_iff_le_mul positive, Nat.mul_sub, Nat.mul_comm range (_ / _)]
    rw [Nat.succ_mul] at next
    omega
  have := Nat.div_le_self (wordCount bits) range
  omega

/-- The words that stand for some number of a set. -/
def wordsFor (bits range : Nat) (S : Finset Nat) : Finset Nat :=
  (Finset.range (wordCount bits)).filter fun v => ∃ x ∈ S, pickExact? bits range v = some x

/-- **Every number has its share.**  The words for a set of numbers are as many for each of
them as the range goes into the number of all words. -/
theorem card_wordsFor (fits : range ≤ wordCount bits) {S : Finset Nat}
    (inRange : ∀ x ∈ S, x < range) :
    (wordsFor bits range S).card = S.card * (wordCount bits / range) := by
  have parts : wordsFor bits range S = S.biUnion fun x =>
      Finset.Ico (firstWord bits range x) (firstWord bits range x + wordCount bits / range) := by
    ext v
    rw [wordsFor, Finset.mem_filter, Finset.mem_biUnion, Finset.mem_range]
    constructor
    · rintro ⟨-, x, member, stands⟩
      have positive : 0 < range := Nat.zero_lt_of_lt (inRange x member)
      exact ⟨x, member, (pickExact?_eq_some_iff_mem positive fits).1 stands⟩
    · rintro ⟨x, member, inside⟩
      have positive : 0 < range := Nat.zero_lt_of_lt (inRange x member)
      have last : firstWord bits range x + wordCount bits / range ≤ wordCount bits :=
        firstWord_add_le (inRange x member)
      have below := (Finset.mem_Ico.1 inside).2
      exact ⟨by omega, x, member, (pickExact?_eq_some_iff_mem positive fits).2 inside⟩
  rw [parts, Finset.card_biUnion]
  · simp
  · intro x member y _ other
    have positive : 0 < range := Nat.zero_lt_of_lt (inRange x member)
    refine Finset.disjoint_left.2 fun v inside inside' => other ?_
    rw [← pickExact?_eq_some_iff_mem positive fits] at inside inside'
    exact Option.some.inj (inside.symm.trans inside')

/-- The words of 32 bits that stand for some number of a set. -/
def words32For (range : Nat) (S : Finset Nat) : Finset UInt32 :=
  Finset.univ.filter fun w => ∃ x ∈ S, pickExact? 32 range w.toNat = some x

theorem card_words32For (fits : range ≤ wordCount 32) {S : Finset Nat}
    (inRange : ∀ x ∈ S, x < range) :
    (words32For range S).card = S.card * (wordCount 32 / range) := by
  have back : ∀ v < wordCount 32, (UInt32.ofNat v).toNat = v := fun v small =>
    UInt32.toNat_ofNat_of_lt' small
  rw [← card_wordsFor fits inRange]
  refine Finset.card_nbij' UInt32.toNat UInt32.ofNat ?_ ?_ ?_ ?_
  · intro w member
    rw [Finset.mem_coe, words32For, Finset.mem_filter] at member
    rw [Finset.mem_coe, wordsFor, Finset.mem_filter]
    exact ⟨Finset.mem_range.2 w.toNat_lt, member.2⟩
  · intro v member
    rw [Finset.mem_coe, wordsFor, Finset.mem_filter, Finset.mem_range] at member
    rw [Finset.mem_coe, words32For, Finset.mem_filter, back v member.1]
    exact ⟨Finset.mem_univ _, member.2⟩
  · exact fun w _ => UInt32.ofNat_toNat
  · intro v member
    rw [Finset.mem_coe, wordsFor, Finset.mem_filter, Finset.mem_range] at member
    exact back v member.1

end Uniform

/-! ## The weight in whose share a number lies -/

namespace Generator

theorem totalWeight_eq (weights : List Nat) : totalWeight weights = weights.sum := by
  induction weights with
  | nil => rfl
  | cons w weights ih => rw [totalWeight, ih, List.sum_cons]

/-- The sum of the weights before the one with a given number. -/
def weightBefore (weights : List Nat) (i : Nat) : Nat := (weights.take i).sum

@[simp]
theorem weightBefore_zero (weights : List Nat) : weightBefore weights 0 = 0 := rfl

@[simp]
theorem weightBefore_cons (w : Nat) (weights : List Nat) (i : Nat) :
    weightBefore (w :: weights) (i + 1) = w + weightBefore weights i := by
  rw [weightBefore, List.take_succ_cons, List.sum_cons, weightBefore]

/-- A number lies in the share that begins with the sum of the weights before. -/
theorem shareOf_eq_iff {weights : List Nat} {x i : Nat} (inside : x < totalWeight weights) :
    shareOf weights x = i ↔
      ∃ h : i < weights.length,
        x ∈ Finset.Ico (weightBefore weights i) (weightBefore weights i + weights[i]) := by
  induction weights generalizing x i with
  | nil => cases inside
  | cons w weights ih =>
      rw [totalWeight] at inside
      rw [shareOf]
      cases i with
      | zero => by_cases here : x < w <;> simp [here]
      | succ i =>
          by_cases here : x < w
          · have before : ¬ w + weightBefore weights i ≤ x := by omega
            simp [here, before]
          · -- Behind the first weight, the number and all the sums are smaller by it.
            have behind : x - w < totalWeight weights := by omega
            have lower : w + weightBefore weights i ≤ x ↔ weightBefore weights i ≤ x - w := by
              omega
            have upper : ∀ n, x < w + weightBefore weights i + n ↔
                x - w < weightBefore weights i + n := by
              omega
            rw [if_neg here, Nat.add_right_cancel_iff, ih behind]
            simp only [Finset.mem_Ico, weightBefore_cons, List.length_cons,
              List.getElem_cons_succ, Nat.add_lt_add_iff_right, lower, upper]

/-- The rule by which a table of sums is searched: the number of the weight is that of the sums,
the total left out, which do not exceed the number. -/
theorem shareOf_eq_countP {weights : List Nat} {x : Nat} (inside : x < totalWeight weights) :
    shareOf weights x =
      (List.range (weights.length - 1)).countP fun j => weightBefore weights (j + 1) ≤ x := by
  induction weights generalizing x with
  | nil => cases inside
  | cons w weights ih =>
      rw [totalWeight] at inside
      rw [shareOf]
      by_cases here : x < w
      · have none : ∀ i, ¬ w + weightBefore weights i ≤ x := by omega
        simp [here, none]
      · have behind : x - w < totalWeight weights := by omega
        obtain ⟨n, count⟩ : ∃ n, weights.length = n + 1 := by
          cases weights with
          | nil => cases behind
          | cons => exact ⟨_, rfl⟩
        have lower : ∀ i, w + weightBefore weights i ≤ x ↔ weightBefore weights i ≤ x - w := by
          omega
        rw [if_neg here, ih behind, List.length_cons, count, Nat.add_sub_cancel,
          Nat.add_sub_cancel, List.range_succ_eq_map, List.countP_cons, List.countP_map]
        simp [lower, Function.comp_def, Nat.le_of_not_lt here]

/-! ## Words for a weight -/

/-- The number of the weight for which a word stands, unless the word is refused. -/
def weightOfWord? (weights : List Nat) (w : UInt32) : Option Nat :=
  (Uniform.pickExact? 32 (totalWeight weights) w.toNat).map (shareOf weights)

/-- The words that stand for the weight with a given number. -/
def wordsOfWeight (weights : List Nat) (i : Nat) : Finset UInt32 :=
  Finset.univ.filter fun w => weightOfWord? weights w = some i

/-- The words that are not refused. -/
def acceptedWords (weights : List Nat) : Finset UInt32 :=
  Finset.univ.filter fun w => weightOfWord? weights w ≠ none

section Counts

variable {weights : List Nat} (positive : 0 < totalWeight weights)
  (fits : totalWeight weights ≤ Uniform.wordCount 32)

include positive

/-- A word stands for the weight in whose share its number lies. -/
theorem weightOfWord?_eq_some_iff {w : UInt32} {i : Nat} :
    weightOfWord? weights w = some i ↔ ∃ h : i < weights.length,
      ∃ x ∈ Finset.Ico (weightBefore weights i) (weightBefore weights i + weights[i]),
        Uniform.pickExact? 32 (totalWeight weights) w.toNat = some x := by
  rw [weightOfWord?, Option.map_eq_some_iff]
  constructor
  · rintro ⟨x, picked, share⟩
    have inside := Uniform.pickExact?_lt w.toNat_lt positive picked
    obtain ⟨inRange, member⟩ := (shareOf_eq_iff inside).1 share
    exact ⟨inRange, x, member, picked⟩
  · rintro ⟨inRange, x, member, picked⟩
    have inside := Uniform.pickExact?_lt w.toNat_lt positive picked
    exact ⟨x, picked, (shareOf_eq_iff inside).2 ⟨inRange, member⟩⟩

include fits

theorem card_wordsOfWeight {i : Nat} (inRange : i < weights.length) :
    (wordsOfWeight weights i).card =
      weights[i] * (Uniform.wordCount 32 / totalWeight weights) := by
  have below : ∀ x ∈ Finset.Ico (weightBefore weights i) (weightBefore weights i + weights[i]),
      x < totalWeight weights := by
    intro x member
    have upTo : weightBefore weights i + weights[i] ≤ totalWeight weights := by
      rw [weightBefore, ← List.sum_take_succ, totalWeight_eq]
      exact (List.take_sublist _ _).sum_le_sum fun _ _ => Nat.zero_le _
    have := (Finset.mem_Ico.1 member).2
    omega
  have same : wordsOfWeight weights i = Uniform.words32For (totalWeight weights)
      (Finset.Ico (weightBefore weights i) (weightBefore weights i + weights[i])) := by
    refine Finset.filter_congr fun w _ => ?_
    rw [weightOfWord?_eq_some_iff positive, exists_prop_of_true inRange]
  rw [same, Uniform.card_words32For fits below, Nat.card_Ico, Nat.add_sub_cancel_left]

theorem card_acceptedWords :
    (acceptedWords weights).card =
      totalWeight weights * (Uniform.wordCount 32 / totalWeight weights) := by
  have same : acceptedWords weights = Uniform.words32For (totalWeight weights)
      (Finset.range (totalWeight weights)) := by
    refine Finset.filter_congr fun w _ => ?_
    rw [weightOfWord?, Ne, Option.map_eq_none_iff, ← Ne, Option.ne_none_iff_exists']
    constructor
    · rintro ⟨x, picked⟩
      have inside := Uniform.pickExact?_lt w.toNat_lt positive picked
      exact ⟨x, Finset.mem_range.2 inside, picked⟩
    · rintro ⟨x, -, picked⟩
      exact ⟨x, picked⟩
  rw [same, Uniform.card_words32For fits fun x => Finset.mem_range.1, Finset.card_range]

/-- Of the words that are not refused, a weight has the part that it has in the sum. -/
theorem card_wordsOfWeight_div {i : Nat} (inRange : i < weights.length) :
    ((wordsOfWeight weights i).card : Rat) / (acceptedWords weights).card =
      weights[i] / totalWeight weights := by
  have often : (↑(Uniform.wordCount 32 / totalWeight weights) : Rat) ≠ 0 :=
    Nat.cast_ne_zero.2 (Nat.ne_of_gt (Nat.div_pos fits positive))
  rw [card_wordsOfWeight positive fits inRange, card_acceptedWords positive fits,
    Nat.cast_mul, Nat.cast_mul, mul_div_mul_right _ _ often]

end Counts

/-! ## The loop -/

section Loop

variable {σ ω α β : Type} {next : σ → ω × σ} {accept : ω → Option α} {s s' : σ}

/-- Words taken from a source, one after another. -/
inductive TakesWords (next : σ → ω × σ) : σ → List ω → σ → Prop
  | none {s : σ} : TakesWords next s [] s
  | more {s s' : σ} {ws : List ω} :
      TakesWords next (next s).2 ws s' → TakesWords next s ((next s).1 :: ws) s'

/-- A loop takes words until one is accepted: those before it are refused, and none is taken
after it. -/
theorem firstAccepted_eq_value_iff {n : Nat} {a : α} :
    firstAccepted next accept n s = .value a s' ↔
      ∃ refused w, TakesWords next s (refused ++ [w]) s' ∧ refused.length < n ∧
        (∀ x ∈ refused, accept x = none) ∧ accept w = some a := by
  induction n generalizing s with
  | zero =>
      constructor
      · intro ended
        cases ended
      · rintro ⟨refused, w, -, few, -⟩
        cases few
  | succ n ih =>
      rw [firstAccepted]
      constructor
      · intro ended
        cases answer : accept (next s).1 with
        | some b =>
            rw [answer] at ended
            cases ended
            exact ⟨[], (next s).1, .more .none, Nat.succ_pos n, List.forall_mem_nil _, answer⟩
        | none =>
            rw [answer] at ended
            obtain ⟨refused, w, takes, few, none, accepted⟩ := ih.1 ended
            exact ⟨(next s).1 :: refused, w, .more takes, Nat.succ_lt_succ few,
              List.forall_mem_cons.2 ⟨answer, none⟩, accepted⟩
      · rintro ⟨refused, w, takes, few, none, accepted⟩
        cases refused with
        | nil =>
            cases takes with
            | more takes =>
                cases takes
                rw [accepted]
        | cons x refused =>
            obtain ⟨first, later⟩ := List.forall_mem_cons.1 none
            cases takes with
            | more takes =>
                rw [first]
                exact ih.2 ⟨refused, w, takes, Nat.lt_of_succ_lt_succ few, later, accepted⟩

theorem map_firstAccepted (f : α → β) (n : Nat) (s : σ) :
    (firstAccepted next accept n s).map f =
      firstAccepted next (fun w => (accept w).map f) n s := by
  induction n generalizing s with
  | zero => rfl
  | succ n ih =>
      rw [firstAccepted, firstAccepted]
      cases accept (next s).1 with
      | some a => rfl
      | none => exact ih _

theorem firstAccepted_ne_failed (n : Nat) (s : σ) (e : DrawError) :
    firstAccepted next accept n s ≠ .failed e s' := by
  intro failed
  have meets : (firstAccepted next accept n s).Meets (fun _ => True) fun _ => False :=
    meets_firstAccepted (fun _ _ _ => trivial) n s
  rw [failed] at meets
  exact meets

end Loop

/-! ## Choices by weight -/

variable {σ : Type} [RandomSource σ] {weights : List Nat}

theorem totalWeight_eq_zero_iff : totalWeight weights = 0 ↔ ∀ w ∈ weights, w = 0 := by
  rw [totalWeight_eq, List.sum_eq_zero_iff]

theorem totalWeight_pos_iff : 0 < totalWeight weights ↔ ¬ ∀ w ∈ weights, w = 0 := by
  rw [Nat.pos_iff_ne_zero, Ne, totalWeight_eq_zero_iff]

/-- Without a weight above zero the choice fails at once. -/
theorem weightedIndex_of_zero (allZero : totalWeight weights = 0) (ctx : Context σ) (s : σ) :
    ∃ what, weightedIndex weights ctx s = .failed (.emptyChoice what) s := by
  rw [weightedIndex]
  split
  · exact ⟨_, rfl⟩
  · exact ⟨_, rfl⟩

/-- A choice by weight is one loop over words. -/
theorem weightedIndex_eq (positive : 0 < totalWeight weights) (ctx : Context σ) (s : σ) :
    weightedIndex weights ctx s =
      firstAccepted RandomSource.next32 (weightOfWord? weights) ctx.fuel s := by
  have listed : weights ≠ [] := by
    rintro rfl
    cases positive
  rw [weightedIndex, if_neg listed, if_neg (Nat.ne_of_gt positive)]
  exact map_firstAccepted (shareOf weights) ctx.fuel s

theorem zero_of_weightedIndex_failed {ctx : Context σ} {s s' : σ} {e : DrawError}
    (failed : weightedIndex weights ctx s = .failed e s') : ∀ w ∈ weights, w = 0 := by
  rcases Nat.eq_zero_or_pos (totalWeight weights) with allZero | positive
  · exact totalWeight_eq_zero_iff.1 allZero
  · rw [weightedIndex_eq positive] at failed
    exact absurd failed (firstAccepted_ne_failed _ _ _)

/-- A weight above zero is chosen, or none. -/
theorem inRange_of_weightedIndex_value {ctx : Context σ} {s s' : σ} {i : Nat}
    (chosen : weightedIndex weights ctx s = .value i s') :
    ∃ h : i < weights.length, 0 < weights[i] := by
  rcases Nat.eq_zero_or_pos (totalWeight weights) with allZero | positive
  · obtain ⟨what, atOnce⟩ := weightedIndex_of_zero allZero ctx s
    rw [atOnce] at chosen
    cases chosen
  · rw [weightedIndex_eq positive, firstAccepted_eq_value_iff] at chosen
    obtain ⟨-, w, -, -, -, stands⟩ := chosen
    obtain ⟨inRange, x, member, -⟩ := (weightOfWord?_eq_some_iff positive).1 stands
    rw [Finset.mem_Ico] at member
    exact ⟨inRange, by omega⟩

/-- What is drawn by weight is drawn by the generator with the chosen number. -/
theorem frequency_eq {α : Type} (weighted : List (Nat × Generator σ α)) (ctx : Context σ)
    (s : σ) : frequency weighted ctx s =
      (weightedIndex (weighted.map Prod.fst) ctx s).andThen fun i s' =>
        match weighted[i]? with
        | some (_, g) => g ctx s'
        | none => .failed (.emptyChoice "frequency") s' := by
  show (weightedIndex (weighted.map Prod.fst) ctx s).andThen _ = _
  refine congrArg _ (funext fun i => funext fun s' => ?_)
  beta_reduce
  cases weighted[i]? <;> rfl

/-- **Every weight gets its exact share.**  A choice fails, and then without taking a word, just
when no weight is above zero.  Otherwise it takes words until one stands for a weight, refusing
those before it, and answers with the number of that weight, which is above zero.  Of all words
of 32 bits, each weight has as many as it says, times how often the sum of the weights goes into
their number; of the words that are not refused, it has the part that it has in the sum.  A draw
by weight is a draw of the generator with the chosen number. -/
theorem weightedIndex_exact (weights : List Nat)
    (fits : totalWeight weights < Uniform.wordCount 32) :
    (∀ (ctx : Context σ) (s : σ),
        (∃ what, weightedIndex weights ctx s = .failed (.emptyChoice what) s) ↔
          weights = [] ∨ ∀ w ∈ weights, w = 0) ∧
      ((¬ ∀ w ∈ weights, w = 0) →
        (∀ (ctx : Context σ) (s s' : σ),
          (∀ e, weightedIndex weights ctx s ≠ .failed e s') ∧
          ∀ i, (weightedIndex weights ctx s = .value i s' ↔
              ∃ refused w, TakesWords RandomSource.next32 s (refused ++ [w]) s' ∧
                refused.length < ctx.fuel ∧ (∀ x ∈ refused, weightOfWord? weights x = none) ∧
                weightOfWord? weights w = some i) ∧
            (weightedIndex weights ctx s = .value i s' →
              ∃ h : i < weights.length, 0 < weights[i])) ∧
        ∀ (i : Nat) (h : i < weights.length),
          (wordsOfWeight weights i).card =
            weights[i] * (Uniform.wordCount 32 / totalWeight weights) ∧
          ((wordsOfWeight weights i).card : Rat) / (acceptedWords weights).card =
            weights[i] / totalWeight weights) ∧
      ∀ {α : Type} (weighted : List (Nat × Generator σ α)), weighted.map Prod.fst = weights →
        ∀ (ctx : Context σ) (s s' : σ),
          (∀ i, weightedIndex weights ctx s = .value i s' →
            ∃ h : i < weighted.length, frequency weighted ctx s = weighted[i].2 ctx s') ∧
          ∀ e, weightedIndex weights ctx s = .failed e s' →
            frequency weighted ctx s = .failed e s' := by
  refine ⟨fun ctx s => ⟨?_, ?_⟩, fun listed => ⟨fun ctx s s' => ⟨?_, fun i => ⟨?_, ?_⟩⟩, ?_⟩, ?_⟩
  · rintro ⟨what, failed⟩
    exact .inr (zero_of_weightedIndex_failed failed)
  · intro without
    have allZero : ∀ w ∈ weights, w = 0 := by
      rcases without with rfl | allZero
      · exact nofun
      · exact allZero
    exact weightedIndex_of_zero (totalWeight_eq_zero_iff.2 allZero) ctx s
  · exact fun e failed => listed (zero_of_weightedIndex_failed failed)
  · have positive := totalWeight_pos_iff.2 listed
    rw [weightedIndex_eq positive, firstAccepted_eq_value_iff]
  · intro chosen
    exact inRange_of_weightedIndex_value chosen
  · have positive := totalWeight_pos_iff.2 listed
    intro i inRange
    exact ⟨card_wordsOfWeight positive fits.le inRange,
      card_wordsOfWeight_div positive fits.le inRange⟩
  · rintro α weighted rfl ctx s s'
    refine ⟨fun i chosen => ?_, fun e failed => ?_⟩
    · obtain ⟨inRange, -⟩ := inRange_of_weightedIndex_value chosen
      rw [List.length_map] at inRange
      refine ⟨inRange, ?_⟩
      rw [frequency_eq, chosen, Outcome.andThen, List.getElem?_eq_getElem inRange]
    · rw [frequency_eq, failed, Outcome.andThen]

/-- Of five parts, two go to a weight of two behind a weight of zero; the one word in 2 ^ 32 that
five leaves over goes to none. -/
theorem weightedIndex_exact_gaps :
    totalWeight [0, 2, 0, 3] < Uniform.wordCount 32 ∧
      (wordsOfWeight [0, 2, 0, 3] 1).card = 1717986918 ∧
      (wordsOfWeight [0, 2, 0, 3] 2).card = 0 ∧
      ((wordsOfWeight [0, 2, 0, 3] 1).card : Rat) / (acceptedWords [0, 2, 0, 3]).card =
        2 / 5 := by
  obtain ⟨-, shares, -⟩ := weightedIndex_exact (σ := Scripted) [0, 2, 0, 3] (by decide)
  obtain ⟨-, shares⟩ := shares (by decide)
  refine ⟨by decide, ?_, ?_, ?_⟩
  · rw [(shares 1 (by decide)).1]
    rfl
  · rw [(shares 2 (by decide)).1]
    rfl
  · rw [(shares 1 (by decide)).2]
    rfl

end Generator

end SchemaData

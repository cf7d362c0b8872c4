import Mathlib.Data.List.Basic
import SchemaData.Name

/-!
# SchemaData.Proofs.Names -- a name and its text determine each other

A text is `Dotted` when it is one or more segments with dots between them, none of them empty
and none with a dot inside.  Both ways to make a name accept this grammar, although each of them
judges other parts of it: `Name.make` the qualifier and the local part, `Name.parse` what stands
before and after the last dot.

* `make_eq_ok_iff`: a name is made of its own two parts and of no others.
* `parse_eq_ok_iff`: a text gives a name exactly when it is the text of that name.
* `dotted_iff_exists_name`: the dotted texts are the texts of names.

A refusal is judged on the same parts, and shows them joined again.
-/

namespace SchemaData

set_option autoImplicit false

/-- A sequence of one or more segments with dots between them.  No segment is empty, and none
holds a dot. -/
def Dotted (s : String) : Prop :=
  ∃ segs : List String, segs ≠ [] ∧ (∀ seg ∈ segs, seg ≠ "" ∧ '.' ∉ seg.toList) ∧
    s = ".".intercalate segs

/-! ## Segments -/

theorem segmentList_eq (cs : List Char) : segmentList cs = cs.splitOn '.' := by
  induction cs with
  | nil => rfl
  | cons c cs ih =>
      rw [List.splitOn_cons_eq_if_modifyHead, ← ih, segmentList, segments]
      by_cases dot : c = '.'
      · simp [dot, segmentList]
      · simp [dot, segmentList]

theorem segmentList_append (before after : List Char) :
    segmentList (before ++ '.' :: after) = segmentList before ++ segmentList after := by
  simp only [segmentList_eq, List.splitOn_append_cons_self]

theorem segmentList_of_no_dot {cs : List Char} (plain : '.' ∉ cs) : segmentList cs = [cs] := by
  rw [segmentList_eq, List.splitOn_eq_singleton plain]

theorem no_dot_of_mem_segmentList {cs seg : List Char} (member : seg ∈ segmentList cs) :
    '.' ∉ seg := by
  induction cs generalizing seg with
  | nil =>
      obtain rfl := List.mem_singleton.1 member
      exact List.not_mem_nil
  | cons c cs ih =>
      rw [segmentList, segments] at member
      split at member
      · rcases List.mem_cons.1 member with rfl | later
        · exact List.not_mem_nil
        · exact ih later
      · rename_i other
        rcases List.mem_cons.1 member with rfl | later
        · have first := ih List.mem_cons_self
          simp [first, Ne.symm other]
        · exact ih (List.mem_cons_of_mem _ later)

/-- A text is dotted exactly when cutting it at every dot leaves no empty segment. -/
theorem dotted_iff {s : String} : Dotted s ↔ [] ∉ segmentList s.toList := by
  constructor
  · rintro ⟨segs, some, each, rfl⟩ member
    have plain : ∀ cs ∈ segs.map String.toList, '.' ∉ cs := by
      intro cs inside
      obtain ⟨seg, inSegs, rfl⟩ := List.mem_map.1 inside
      exact (each seg inSegs).2
    have cut : segmentList (".".intercalate segs).toList = segs.map String.toList := by
      rw [segmentList_eq, String.toList_intercalate]
      exact List.splitOn_intercalate '.' plain (by simpa using some)
    rw [cut] at member
    obtain ⟨seg, inSegs, none⟩ := List.mem_map.1 member
    exact (each seg inSegs).1 (String.toList_eq_nil_iff.1 none)
  · intro whole
    refine ⟨(segmentList s.toList).map String.ofList, by simp [segmentList], ?_, ?_⟩
    · intro seg member
      obtain ⟨cs, inside, rfl⟩ := List.mem_map.1 member
      have some : cs ≠ [] := fun none => whole (none ▸ inside)
      exact ⟨by simpa using some, by simpa using no_dot_of_mem_segmentList inside⟩
    · have joined : ['.'].intercalate (segmentList s.toList) = s.toList := by
        rw [segmentList_eq, List.intercalate_splitOn]
      rw [← String.toList_inj, String.toList_intercalate, List.map_map]
      simpa [Function.comp_def] using joined.symm

/-! ## The last dot -/

theorem splitLastDot?_eq_none_iff {cs : List Char} : splitLastDot? cs = none ↔ '.' ∉ cs := by
  induction cs with
  | nil => simp [splitLastDot?]
  | cons c cs ih =>
      rw [splitLastDot?]
      cases behind : splitLastDot? cs with
      | some parts =>
          have dot : '.' ∈ cs := by
            by_contra plain
            rw [ih.2 plain] at behind
            cases behind
          simp [dot]
      | none => simp [ih.1 behind, eq_comm]

theorem splitLastDot?_append {before after : List Char} (plain : '.' ∉ after) :
    splitLastDot? (before ++ '.' :: after) = some (before, after) := by
  induction before with
  | nil => rw [List.nil_append, splitLastDot?, splitLastDot?_eq_none_iff.2 plain, if_pos rfl]
  | cons c before ih => rw [List.cons_append, splitLastDot?, ih]

theorem splitLastDot?_eq_some_iff {cs before after : List Char} :
    splitLastDot? cs = some (before, after) ↔ cs = before ++ '.' :: after ∧ '.' ∉ after := by
  refine ⟨fun split => ?_, fun ⟨whole, plain⟩ => whole ▸ splitLastDot?_append plain⟩
  induction cs generalizing before with
  | nil => cases split
  | cons c cs ih =>
      rw [splitLastDot?] at split
      cases behind : splitLastDot? cs with
      | some parts =>
          rw [behind] at split
          cases split
          obtain ⟨whole, plain⟩ := ih behind
          exact ⟨congrArg (c :: ·) whole, plain⟩
      | none =>
          simp only [behind] at split
          split at split
          · rename_i dot
            cases split
            exact ⟨congrArg (· :: after) dot, splitLastDot?_eq_none_iff.1 behind⟩
          · cases split

/-! ## Names -/

namespace Name

theorem toList_join {qualifier : String} (some : qualifier.toList ≠ []) (localPart : String) :
    (join qualifier localPart).toList = qualifier.toList ++ '.' :: localPart.toList := by
  rw [join, if_neg some]
  simp

theorem join_empty {qualifier : String} (none : qualifier.toList = []) (localPart : String) :
    join qualifier localPart = localPart :=
  if_pos none

/-- **A name is made of its own two parts.** -/
theorem make_eq_ok_iff {qualifier localPart : String} {n : Name} :
    make qualifier localPart = .ok n ↔ n.qualifier = qualifier ∧ n.localPart = localPart := by
  constructor
  · intro made
    simp only [make] at made
    split at made
    · cases made
    split at made
    · cases made
    split at made
    · cases made
    cases made
    exact ⟨rfl, rfl⟩
  · rintro ⟨rfl, rfl⟩
    obtain ⟨named, plain, segments⟩ := n.valid
    have whole : ¬(n.qualifier.toList ≠ [] ∧ [] ∈ segmentList n.qualifier.toList) := by
      rintro ⟨qualified, member⟩
      exact segments.elim qualified fun absent => absent member
    rw [make, dif_neg named, dif_neg plain, dif_neg whole]

theorem input_of_make {qualifier localPart : String} {e : InvalidName}
    (refused : make qualifier localPart = .error e) : e.input = join qualifier localPart := by
  simp only [make] at refused
  split at refused
  · cases refused
    rfl
  split at refused
  · cases refused
    rfl
  split at refused
  · cases refused
    rfl
  cases refused

theorem exists_make_iff {qualifier localPart : String} :
    (∃ n, make qualifier localPart = .ok n) ↔ Valid qualifier localPart := by
  constructor
  · rintro ⟨n, made⟩
    obtain ⟨rfl, rfl⟩ := make_eq_ok_iff.1 made
    exact n.valid
  · intro valid
    exact ⟨⟨qualifier, localPart, valid⟩, make_eq_ok_iff.2 ⟨rfl, rfl⟩⟩

/-- Unless it is refused at once, a text is read as the two parts that it joins. -/
theorem parse_cases (s : String) :
    (∃ fault, parse s = .error ⟨s, fault⟩) ∨
      ∃ qualifier localPart, parse s = make qualifier localPart ∧ join qualifier localPart = s := by
  rw [parse]
  split
  · exact .inl ⟨_, rfl⟩
  split
  · exact .inl ⟨_, rfl⟩
  · rename_i before after qualified split
    have named : (String.ofList before).toList ≠ [] := by
      rw [String.toList_ofList]
      exact qualified
    refine .inr ⟨_, _, rfl, String.toList_inj.1 ?_⟩
    rw [toList_join named, String.toList_ofList, String.toList_ofList]
    exact (splitLastDot?_eq_some_iff.1 split).1.symm
  · exact .inr ⟨_, _, rfl, join_empty rfl s⟩

theorem text_unqualified {n : Name} (unqualified : n.qualifier.toList = []) :
    n.text = n.localPart :=
  join_empty unqualified _

theorem toList_text {n : Name} (qualified : n.qualifier.toList ≠ []) :
    n.text.toList = n.qualifier.toList ++ '.' :: n.localPart.toList :=
  toList_join qualified _

theorem parse_text (n : Name) : parse n.text = .ok n := by
  obtain ⟨named, plain, -⟩ := n.valid
  by_cases unqualified : n.qualifier.toList = []
  · rw [text_unqualified unqualified, parse, if_neg named, splitLastDot?_eq_none_iff.2 plain]
    exact make_eq_ok_iff.2 ⟨String.toList_eq_nil_iff.1 unqualified, rfl⟩
  · have whole := toList_text unqualified
    have present : n.text.toList ≠ [] := by simp [whole]
    have split := splitLastDot?_eq_some_iff.2 ⟨whole, plain⟩
    obtain ⟨c, cs, first⟩ := List.exists_cons_of_ne_nil unqualified
    rw [parse, if_neg present, split, first]
    show make (String.ofList (c :: cs)) (String.ofList n.localPart.toList) = .ok n
    rw [← first, String.ofList_toList, String.ofList_toList]
    exact make_eq_ok_iff.2 ⟨rfl, rfl⟩

/-- **A text gives a name exactly when it is the text of that name.** -/
theorem parse_eq_ok_iff {s : String} {n : Name} : parse s = .ok n ↔ n.text = s := by
  refine ⟨fun parsed => ?_, fun same => same ▸ parse_text n⟩
  rcases parse_cases s with ⟨fault, refused⟩ | ⟨qualifier, localPart, read, joined⟩
  · rw [refused] at parsed
    cases parsed
  · rw [read] at parsed
    obtain ⟨rfl, rfl⟩ := make_eq_ok_iff.1 parsed
    exact joined

theorem input_of_parse {s : String} {e : InvalidName} (refused : parse s = .error e) :
    e.input = s := by
  rcases parse_cases s with ⟨fault, atOnce⟩ | ⟨qualifier, localPart, read, joined⟩
  · rw [atOnce] at refused
    cases refused
    rfl
  · rw [read] at refused
    rw [input_of_make refused, joined]

/-- The dotted texts are the texts of names. -/
theorem dotted_iff_exists_name {s : String} : Dotted s ↔ ∃ n : Name, n.text = s := by
  constructor
  · intro dotted
    have whole := dotted_iff.1 dotted
    cases split : splitLastDot? s.toList with
    | none =>
        have plain := splitLastDot?_eq_none_iff.1 split
        rw [segmentList_of_no_dot plain, List.mem_singleton] at whole
        exact ⟨⟨"", s, fun none => whole none.symm, plain, .inl rfl⟩, text_unqualified rfl⟩
    | some parts =>
        -- The last segment is the local part, and the segments before it make the qualifier.
        obtain ⟨before, after⟩ := parts
        obtain ⟨joined, plain⟩ := splitLastDot?_eq_some_iff.1 split
        rw [joined, segmentList_append, segmentList_of_no_dot plain, List.mem_append, not_or,
          List.mem_singleton] at whole
        obtain ⟨segments, named⟩ := whole
        have qualified : before ≠ [] := by
          rintro rfl
          exact segments List.mem_cons_self
        have valid : Valid (String.ofList before) (String.ofList after) := by
          refine ⟨?_, ?_, .inr ?_⟩
          · simpa using Ne.symm named
          · simpa using plain
          · simpa using segments
        have same : (join (String.ofList before) (String.ofList after)).toList = s.toList := by
          rw [toList_join (by simpa using qualified), String.toList_ofList,
            String.toList_ofList, joined]
        exact ⟨⟨_, _, valid⟩, String.toList_inj.1 same⟩
  · rintro ⟨n, rfl⟩
    obtain ⟨named, plain, segments⟩ := n.valid
    rw [dotted_iff]
    by_cases unqualified : n.qualifier.toList = []
    · rw [text_unqualified unqualified, segmentList_of_no_dot plain, List.mem_singleton]
      exact Ne.symm named
    · rw [toList_text unqualified, segmentList_append, segmentList_of_no_dot plain]
      simp [segments.resolve_left unqualified, Ne.symm named]

theorem valid_iff {qualifier localPart : String} : Valid qualifier localPart ↔
    localPart ≠ "" ∧ '.' ∉ localPart.toList ∧ (qualifier = "" ∨ Dotted qualifier) := by
  rw [Valid, dotted_iff, ne_eq, String.toList_eq_nil_iff, String.toList_eq_nil_iff]

/-- **Every name has exactly one text.**  A text is read as a name exactly when it is dotted, and
the name has that text; a text that is refused is shown as it was given.  Two parts make a name
exactly when the local part is a segment and the qualifier is empty or dotted, and the name is
read from its text with the same parts.  So a text belongs to one name at most, and reading is
the inverse of writing. -/
theorem one_text_each :
    (∀ s, (∃ n, parse s = .ok n) ↔ Dotted s) ∧
      (∀ s n, parse s = .ok n → n.text = s) ∧
      (∀ s e, parse s = .error e → e.input = s) ∧
      (∀ qualifier localPart, (∃ n, make qualifier localPart = .ok n) ↔
        localPart ≠ "" ∧ '.' ∉ localPart.toList ∧ (qualifier = "" ∨ Dotted qualifier)) ∧
      (∀ qualifier localPart n, make qualifier localPart = .ok n →
        ∃ n', parse n.text = .ok n' ∧ n'.qualifier = qualifier ∧ n'.localPart = localPart) ∧
      Function.Injective text ∧ ∀ n, parse n.text = .ok n := by
  refine ⟨fun s => ?_, fun s n => parse_eq_ok_iff.1, fun s e => input_of_parse,
    fun qualifier localPart => exists_make_iff.trans valid_iff, ?_, ?_, parse_text⟩
  · simp only [parse_eq_ok_iff, dotted_iff_exists_name]
  · intro qualifier localPart n made
    exact ⟨n, parse_text n, make_eq_ok_iff.1 made⟩
  · intro a b same
    have read := parse_eq_ok_iff.2 same
    rw [parse_text b] at read
    exact (Except.ok.inj read).symm

end Name

end SchemaData

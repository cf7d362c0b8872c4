import SchemaData.Generator

/-!
# SchemaData.Generator.Scalars -- draws of native data

Truth values and integers are words.  The budget bounds the length of texts and
bytes and the magnitude of floats; days and times of day range over everything that
can be represented.  They are made from drawn numbers by functions that refuse what
is no day and no time, and the first one would stand in for what is refused.  A
character is one of the 1 112 064 that are not surrogates.
-/

namespace SchemaData.Generator

set_option autoImplicit false

variable {σ : Type} [RandomSource σ]

/-- The upper bit of a word. -/
def bool : Generator σ Bool := do pure ((← word32) >>> 31 == 1)

def int32 : Generator σ Int32 := do pure (← word32).toInt32

def int64 : Generator σ Int64 := do pure (← word64).toInt64

def bytes : Generator σ (List UInt8) := do byteRun (← length)

/-- A number of a magnitude up to the budget. -/
def float32 : Generator σ Float32 := do
  let bound := (UInt64.ofNat (← size)).toFloat32
  pure (Uniform.symmetric32 bound (← word32))

/-- A number of a magnitude up to the budget. -/
def float64 : Generator σ Float := do
  let bound := (UInt64.ofNat (← size)).toFloat
  pure (Uniform.symmetric64 bound (← word64))

/-- The character with a given number when they are counted from beyond the
surrogates on, the ones below these last. -/
def charOfIndex (i : Nat) : Char :=
  if 0x800 + i ≤ 0xDFFF then Char.ofNat i else Char.ofNat (0x800 + i)

def char : Generator σ Char := do pure (charOfIndex (← belowExact (0x110000 - 0x800)))

def string : Generator σ String := do pure (String.ofList (← listOf char))

/-- The first day that can be represented. -/
def firstDay : Int := -95746129

/-- The last day that can be represented. -/
def lastDay : Int := 95745399

/-- The day with a given number, if it can be represented. -/
def dayOf? (day : Int) : Option Int :=
  if firstDay ≤ day ∧ day ≤ lastDay then some day else none

/-- The number of days that can be represented. -/
def dayCount : Nat := (lastDay - firstDay + 1).toNat

/-- A day from the first to the last one. -/
def date : Generator σ Int := do
  pure ((dayOf? (firstDay + (← below32 dayCount))).getD firstDay)

/-- The number of microseconds of a day. -/
def microsOfDay : Nat := 86400000000

/-- The whole seconds of a number of microseconds. -/
def wholeSeconds (micros : Nat) : UInt32 := UInt32.ofNat (micros / 1000000)

/-- The nanoseconds that are left of it behind the whole seconds. -/
def nanosBehind (micros : Nat) : UInt32 := UInt32.ofNat (micros % 1000000) * 1000

/-- The nanoseconds from the beginning of a day to a time of it.  The last second of a minute
may be twice as long as the others. -/
def timeOfDay? (seconds nanos : UInt32) : Option Nat :=
  if seconds < 86400 ∧ (nanos < 1000000000 ∨ nanos < 2000000000 ∧ seconds % 60 = 59) then
    some (seconds.toNat * 1000000000 + nanos.toNat)
  else none

/-- A day, and then a microsecond of it. -/
def datetime : Generator σ Instant := do
  let day ← date
  let micros ← below64 microsOfDay
  pure ⟨day, (timeOfDay? (wholeSeconds micros) (nanosBehind micros)).getD 0⟩

/-- A datum of a primitive. -/
def scalar : Primitive → Generator σ Scalar
  | .bool => do pure (.bool (← bool))
  | .bytes => do pure (.bytes (← bytes))
  | .int32 => do pure (.int32 (← int32))
  | .int64 => do pure (.int64 (← int64))
  | .float32 => do pure (.float32 (← float32))
  | .float64 => do pure (.float64 (← float64))
  | .string => do pure (.string (← string))
  | .date => do pure (.date (← date))
  | .datetime => do pure (.datetime (← datetime))

/-! ## Days and times that are drawn

Every number of the range is that of a day or of a time, and nothing is refused. -/

theorem dayOf?_of_lt {i : Nat} (inRange : i < dayCount) :
    dayOf? (firstDay + i) = some (firstDay + i) := by
  simp only [dayCount, firstDay, lastDay] at inRange
  rw [dayOf?, if_pos]
  simp only [firstDay, lastDay]
  omega

theorem toNat_wholeSeconds {micros : Nat} (inRange : micros < microsOfDay) :
    (wholeSeconds micros).toNat = micros / 1000000 := by
  rw [microsOfDay] at inRange
  exact UInt32.toNat_ofNat_of_lt' (Nat.lt_trans (m := 86400) (by omega) (by decide))

theorem toNat_nanosBehind (micros : Nat) :
    (nanosBehind micros).toNat = micros % 1000000 * 1000 := by
  have small : micros % 1000000 < 1000000 := Nat.mod_lt _ (by decide)
  have back := UInt32.toNat_ofNat_of_lt' (Nat.lt_trans small (by decide))
  rw [nanosBehind, UInt32.toNat_mul, back]
  exact Nat.mod_eq_of_lt (by simp; omega)

theorem timeOfDay?_of_lt {micros : Nat} (inRange : micros < microsOfDay) :
    timeOfDay? (wholeSeconds micros) (nanosBehind micros) = some (1000 * micros) := by
  have seconds := toNat_wholeSeconds inRange
  have nanos := toNat_nanosBehind micros
  rw [microsOfDay] at inRange
  rw [timeOfDay?, if_pos, seconds, nanos]
  · congr 1
    omega
  · rw [UInt32.lt_iff_toNat_lt, UInt32.lt_iff_toNat_lt, seconds, nanos]
    exact ⟨by simp; omega, .inl (by simp; omega)⟩

end SchemaData.Generator

import WebhookRelay.Data.Number

/-!
# Datetimes and durations with their ranges

`Datetime` is an aware UTC datetime, a whole number of microseconds since 1970 between year 1
and year 9999; `Timedelta` is a duration of at most 999999999 days. Both carry their range as a
field, and the operations that can leave it are partial, with the error Python raises.
-/

namespace Data

/-- The errors of number and date arithmetic. -/
inductive NumError where
  | valueError
  | overflowError
  deriving DecidableEq

/-- A datetime in UTC. -/
structure Datetime where
  /-- Microseconds since 1970-01-01. -/
  micros : ℤ
  /-- Not before year 1. -/
  lower : -62135596800000000 ≤ micros
  /-- Not after year 9999. -/
  upper : micros ≤ 253402300799999999
  deriving DecidableEq

/-- A duration. -/
structure Timedelta where
  /-- Its length in microseconds. -/
  micros : ℤ
  /-- At least -999999999 days. -/
  lower : -86399999913600000000 ≤ micros
  /-- At most 999999999 days and the rest of the last one. -/
  upper : micros ≤ 86399999999999999999
  deriving DecidableEq

/-- A duration of some microseconds, if it is in range. -/
def Timedelta.ofMicros (n : ℤ) : Except NumError Timedelta :=
  if h : -86399999913600000000 ≤ n ∧ n ≤ 86399999999999999999 then .ok ⟨n, h.1, h.2⟩
  else .error .overflowError

/-- The microseconds of a finite number of seconds: those of the whole seconds exactly, those of the
fraction as a product of doubles, and the sum rounded to an integer. -/
def Timedelta.microsOf (q : ℚ) : ℤ :=
  roundHalfEven (truncate q * 1000000 + nearestDouble ((q - truncate q) * 1000000))

/-- `timedelta(seconds=x)`. -/
def Timedelta.ofSeconds : PyFloat → Except NumError Timedelta
  | .nan => .error .valueError
  | .inf _ => .error .overflowError
  | .finite q => ofMicros (microsOf q)

namespace Timedelta

/-- Seconds from zero on are not rounded below zero. -/
theorem microsOf_nonneg {q : ℚ} (h : 0 ≤ q) : 0 ≤ microsOf q := by
  have hwhole : truncate q = ⌊q⌋ := if_pos h
  have hseconds : (0 : ℚ) ≤ ⌊q⌋ := Int.cast_nonneg (Int.floor_nonneg.mpr h)
  have hfraction : 0 ≤ nearestDouble ((q - ⌊q⌋) * 1000000) :=
    nearestDouble_nonneg (mul_nonneg (sub_nonneg.mpr (Int.floor_le q)) (by norm_num))
  unfold microsOf
  rw [hwhole]
  exact roundHalfEven_nonneg_iff.mpr (by linarith)

/-- Whole seconds are not rounded. -/
theorem microsOf_intCast (n : ℤ) : microsOf n = n * 1000000 := by
  unfold microsOf
  rw [truncate_intCast, sub_self, zero_mul, nearestDouble_zero, add_zero]
  exact_mod_cast roundHalfEven_intCast (n * 1000000)

example : (pyFloat (Str.lit "0.0000025")).map ofSeconds =
    some (.ok ⟨2, by decide, by decide⟩) := by
  decide +kernel

example : (pyFloat (Str.lit "0.0000035")).map ofSeconds =
    some (.ok ⟨4, by decide, by decide⟩) := by
  decide +kernel

end Timedelta

namespace Datetime

instance : LE Datetime := ⟨fun a b => a.micros ≤ b.micros⟩

instance : LT Datetime := ⟨fun a b => a.micros < b.micros⟩

instance (a b : Datetime) : Decidable (a ≤ b) := inferInstanceAs (Decidable (a.micros ≤ b.micros))

instance (a b : Datetime) : Decidable (a < b) := inferInstanceAs (Decidable (a.micros < b.micros))

theorem le_def {a b : Datetime} : a ≤ b ↔ a.micros ≤ b.micros := Iff.rfl

theorem lt_def {a b : Datetime} : a < b ↔ a.micros < b.micros := Iff.rfl

@[ext] theorem ext {a b : Datetime} (h : a.micros = b.micros) : a = b := by
  cases a
  cases b
  simpa using h

/-- `datetime + timedelta`. -/
def add (t : Datetime) (d : Timedelta) : Except NumError Datetime :=
  if h : -62135596800000000 ≤ t.micros + d.micros ∧ t.micros + d.micros ≤ 253402300799999999 then
    .ok ⟨t.micros + d.micros, h.1, h.2⟩
  else .error .overflowError

/-- `datetime + timedelta(seconds=x)`. -/
def addSeconds (t : Datetime) (x : PyFloat) : Except NumError Datetime := do
  t.add (← Timedelta.ofSeconds x)

/-- The clock some microseconds later; it stops at the end of year 9999. -/
def advance (t : Datetime) (n : ℕ) : Datetime :=
  ⟨min (t.micros + n) 253402300799999999, by have := t.lower; omega, min_le_right _ _⟩

/-- Whole seconds since 1970, truncated: `int(time.time())`. -/
def timestamp (t : Datetime) : ℤ := t.micros.tdiv 1000000

/-- A timestamp has at most twelve digits. -/
theorem natAbs_timestamp_lt (t : Datetime) : t.timestamp.natAbs < 10 ^ 12 := by
  have := t.lower
  have := t.upper
  unfold timestamp
  rw [Int.natAbs_tdiv]
  have hdigits : t.micros.natAbs < 10 ^ 18 := by omega
  change t.micros.natAbs / 1000000 < 10 ^ 12
  omega

theorem le_refl (t : Datetime) : t ≤ t := Int.le_refl _

theorem le_trans {a b c : Datetime} (h : a ≤ b) (h' : b ≤ c) : a ≤ c := Int.le_trans h h'

theorem le_advance (t : Datetime) (n : ℕ) : t ≤ t.advance n := by
  have := t.upper
  simp only [le_def, advance]
  omega

/-- A sum is the exact sum. -/
theorem micros_add {t u : Datetime} {d : Timedelta} (h : t.add d = .ok u) :
    u.micros = t.micros + d.micros := by
  unfold add at h
  split at h
  · cases h
    rfl
  · cases h

/-- A sum with a number of seconds is the exact sum with the duration they are. -/
theorem micros_addSeconds {t u : Datetime} {x : PyFloat} {d : Timedelta}
    (hd : Timedelta.ofSeconds x = .ok d) (h : t.addSeconds x = .ok u) :
    u.micros = t.micros + d.micros := by
  unfold addSeconds at h
  rw [hd] at h
  exact micros_add h

/-- A number of seconds that is not rounded below zero leads to an instant unless it leads past
the end of year 9999. -/
theorem addSeconds_finite {t : Datetime} {q : ℚ} (hq : 0 ≤ Timedelta.microsOf q)
    (hlast : t.micros + Timedelta.microsOf q ≤ 253402300799999999) :
    ∃ u, t.addSeconds (.finite q) = .ok u ∧ u.micros = t.micros + Timedelta.microsOf q := by
  have hlower := t.lower
  have hduration : Timedelta.ofSeconds (.finite q) =
      .ok ⟨Timedelta.microsOf q, by omega, by omega⟩ := dif_pos ⟨by omega, by omega⟩
  refine ⟨⟨t.micros + Timedelta.microsOf q, by omega, hlast⟩, ?_, rfl⟩
  unfold addSeconds
  rw [hduration]
  exact dif_pos ⟨by dsimp only; omega, hlast⟩

/-- The instant a finite number of seconds leads to. -/
theorem micros_of_addSeconds {t u : Datetime} {q : ℚ} (h : t.addSeconds (.finite q) = .ok u) :
    u.micros = t.micros + Timedelta.microsOf q := by
  cases hd : Timedelta.ofSeconds (.finite q) with
  | error x =>
    rw [addSeconds, hd] at h
    cases h
  | ok d =>
    have hmicros : d.micros = Timedelta.microsOf q := by
      simp only [Timedelta.ofSeconds, Timedelta.ofMicros] at hd
      split_ifs at hd
      cases hd
      rfl
    rw [micros_addSeconds hd h, hmicros]

/-- The instant a number of whole seconds leads to. -/
theorem micros_addSeconds_intCast {t u : Datetime} {n : ℤ}
    (h : t.addSeconds (.finite n) = .ok u) : u.micros = t.micros + n * 1000000 := by
  rw [micros_of_addSeconds h, Timedelta.microsOf_intCast]

end Datetime

end Data

import WebhookRelay.Data.Text
import Mathlib.Data.Rat.Floor
import Mathlib.Data.Int.Log

/-!
# Number formats: binary64, and the decimal literals of Python

* `nearestDouble q` rounds a rational to 53 significant bits, ties to even, with gradual
  underflow; `binary64 q` is the double nearest to a non-negative rational, with overflow to
  infinity. `PyFloat` holds the value of a finite double exactly.
* `pyFloat s` is Python's `float(s)`: surrounding blanks, a sign, `inf`, `infinity` and `nan` in
  any case, digits with single underscores between them, a fraction, an exponent, and the
  decimal digits of every script. A text outside that grammar is a `ValueError` (`none`).
* `pyInt s` is `int(s)` by the same rules: blanks, a sign, at most 4300 digits. It reads back the
  decimal of an integer of at most 4300 digits (`pyInt_ofInt`); of a longer one `str` makes no
  decimal (`pyStr`).
-/

namespace Data

/-- Round to an integer, ties to even. -/
def roundHalfEven (q : ℚ) : ℤ :=
  if q - ⌊q⌋ < 1 / 2 then ⌊q⌋
  else if 1 / 2 < q - ⌊q⌋ then ⌊q⌋ + 1
  else if ⌊q⌋ % 2 = 0 then ⌊q⌋
  else ⌊q⌋ + 1

/-- A number is rounded to its floor or to the integer above. -/
theorem roundHalfEven_mem (q : ℚ) : roundHalfEven q = ⌊q⌋ ∨ roundHalfEven q = ⌊q⌋ + 1 := by
  unfold roundHalfEven
  split_ifs
  · exact .inl rfl
  · exact .inr rfl
  · exact .inl rfl
  · exact .inr rfl

/-- From one half below zero on, a number is not rounded to a negative one. -/
theorem roundHalfEven_nonneg_iff {q : ℚ} : 0 ≤ roundHalfEven q ↔ -1 / 2 ≤ q := by
  have hle := Int.floor_le q
  have hlt := Int.lt_floor_add_one q
  rcases lt_trichotomy ⌊q⌋ (-1) with h | h | h
  · have hround : roundHalfEven q < 0 := by
      rcases roundHalfEven_mem q with hr | hr <;> omega
    have hfloor : (⌊q⌋ : ℚ) + 1 ≤ -1 := by exact_mod_cast (by omega : ⌊q⌋ + 1 ≤ -1)
    exact ⟨fun h' => absurd h' (not_le.mpr hround), fun h' => absurd hlt (by linarith)⟩
  · -- between minus one and zero the tie goes up, to zero
    have hone : ((-1 : ℤ) : ℚ) = -1 := by norm_num
    unfold roundHalfEven
    rw [h, hone]
    split_ifs with h₁ h₂ h₃
    · exact ⟨fun h' => absurd h' (by decide), fun h' => absurd h₁ (by linarith)⟩
    · exact ⟨fun _ => by linarith, fun _ => by decide⟩
    · exact absurd h₃ (by decide)
    · exact ⟨fun _ => by linarith, fun _ => by decide⟩
  · have hround : 0 ≤ roundHalfEven q := by
      rcases roundHalfEven_mem q with hr | hr <;> omega
    have hfloor : (0 : ℚ) ≤ ⌊q⌋ := by exact_mod_cast (by omega : 0 ≤ ⌊q⌋)
    exact ⟨fun _ => by linarith, fun _ => hround⟩

/-- An integer is not rounded. -/
theorem roundHalfEven_intCast (n : ℤ) : roundHalfEven n = n := by
  simp [roundHalfEven]

/-- The integer part, towards zero. -/
def truncate (q : ℚ) : ℤ := if 0 ≤ q then ⌊q⌋ else ⌈q⌉

theorem truncate_intCast (n : ℤ) : truncate n = n := by
  simp [truncate]

/-- A Python float: the exact value of a finite double, an infinity, or not a number. -/
inductive PyFloat where
  | finite (q : ℚ)
  | inf (negative : Bool)
  | nan
  deriving DecidableEq

namespace PyFloat

/-- `bool(x)`: everything but a zero is true. -/
def truthy : PyFloat → Bool
  | finite q => decide (q ≠ 0)
  | inf _ => true
  | nan => true

/-- `-x`. -/
def neg : PyFloat → PyFloat
  | finite q => finite (-q)
  | inf b => inf !b
  | nan => nan

end PyFloat

/-- The value nearest to a rational among those of a double without an upper bound. -/
def nearestDouble (q : ℚ) : ℚ :=
  if q = 0 then 0
  else
    let e := max (Int.log 2 |q| - 52) (-1074)
    roundHalfEven (q / 2 ^ e) * 2 ^ e

@[simp] theorem nearestDouble_zero : nearestDouble 0 = 0 := rfl

/-- Rounding keeps the sign. -/
theorem nearestDouble_nonneg {q : ℚ} (h : 0 ≤ q) : 0 ≤ nearestDouble q := by
  unfold nearestDouble
  split_ifs
  · exact le_rfl
  · have hunit : (0 : ℚ) ≤ 2 ^ max (Int.log 2 |q| - 52) (-1074) := zpow_nonneg (by norm_num) _
    have hscaled := div_nonneg h hunit
    exact mul_nonneg (Int.cast_nonneg (roundHalfEven_nonneg_iff.mpr (by linarith))) hunit

/-- The double nearest to a non-negative rational. -/
def binary64 (q : ℚ) : PyFloat :=
  if nearestDouble q < 2 ^ 1024 then .finite (nearestDouble q) else .inf false

/-! ### Digits and blanks -/

/-- The zeros of the decimal digit ranges of Unicode 15. -/
def decimalZeros : List ℕ :=
  [0x30, 0x660, 0x6f0, 0x7c0, 0x966, 0x9e6, 0xa66, 0xae6, 0xb66, 0xbe6, 0xc66, 0xce6, 0xd66,
    0xde6, 0xe50, 0xed0, 0xf20, 0x1040, 0x1090, 0x17e0, 0x1810, 0x1946, 0x19d0, 0x1a80, 0x1a90,
    0x1b50, 0x1bb0, 0x1c40, 0x1c50, 0xa620, 0xa8d0, 0xa900, 0xa9d0, 0xa9f0, 0xaa50, 0xabf0,
    0xff10, 0x104a0, 0x10d30, 0x11066, 0x110f0, 0x11136, 0x111d0, 0x112f0, 0x11450, 0x114d0,
    0x11650, 0x116c0, 0x11730, 0x118e0, 0x11950, 0x11c50, 0x11d50, 0x11da0, 0x11f50, 0x16a60,
    0x16ac0, 0x16b50, 0x1d7ce, 0x1d7d8, 0x1d7e2, 0x1d7ec, 0x1d7f6, 0x1e140, 0x1e2f0, 0x1e4f0,
    0x1e950, 0x1fbf0]

/-- The value of a decimal digit of any script. -/
def decimalValue (c : Char) : Option ℕ :=
  (decimalZeros.find? fun z => decide (z ≤ c.toNat ∧ c.toNat < z + 10)).map (c.toNat - ·)

/-- The characters `str.isspace` accepts. -/
def isSpace (c : Char) : Bool :=
  decide (c.toNat ∈ [0x9, 0xa, 0xb, 0xc, 0xd, 0x1c, 0x1d, 0x1e, 0x1f, 0x20, 0x85, 0xa0, 0x1680,
    0x2028, 0x2029, 0x202f, 0x205f, 0x3000]) || decide (0x2000 ≤ c.toNat ∧ c.toNat ≤ 0x200a)

/-- The blanks a numeric literal may be surrounded with, once it is ASCII. -/
def isAsciiSpace (c : Char) : Bool := decide (c.toNat ∈ [0x9, 0xa, 0xb, 0xc, 0xd, 0x20])

/-- An ASCII digit. -/
def isDigit (c : Char) : Bool := decide (48 ≤ c.toNat ∧ c.toNat < 58)

/-- The ASCII form of a numeric literal: digits of every script become ASCII digits and blanks
become spaces. An ASCII text stays as it is; a character with no ASCII form is an error. -/
def toAsciiLiteral (s : Str) : Option Str :=
  if s.isAscii then some s
  else s.mapM fun c =>
    if c.toNat < 127 then some c
    else if isSpace c then some ' '
    else (decimalValue c).map fun d => Char.ofNat (48 + d)

/-- Drop the blanks around a literal. -/
def strip (s : Str) : Str :=
  ((s.dropWhile isAsciiSpace).reverse.dropWhile isAsciiSpace).reverse

/-- Drop the underscores of a literal, each of which has to stand between two digits; `prev` is
the character before. -/
def dropUnderscores : Option Char → Str → Option Str
  | prev, [] => if prev = some '_' then none else some []
  | prev, c :: cs =>
    if c = '_' then
      if (prev.map isDigit).getD false then dropUnderscores (some c) cs else none
    else if prev = some '_' && !isDigit c then none
    else (dropUnderscores (some c) cs).map (c :: ·)

/-- The number a list of ASCII digits denotes. -/
def digitsValue (s : Str) : ℕ := s.foldl (fun n c => 10 * n + (c.toNat - 48)) 0

/-- An optional sign: whether it was a minus, and the rest. -/
def splitSign : Str → Bool × Str
  | '+' :: s => (false, s)
  | '-' :: s => (true, s)
  | s => (false, s)

/-! ### `float(s)` -/

/-- The exponent part of a literal, if it is one. -/
def exponentValue : Str → Option ℤ
  | [] => some 0
  | c :: s =>
    if c = 'e' || c = 'E' then
      let (minus, ds) := splitSign s
      if !ds.isEmpty && ds.all isDigit then
        some (if minus then -(digitsValue ds : ℤ) else digitsValue ds)
      else none
    else none

/-- The exact value of an unsigned decimal literal: digits, a fraction, an exponent. -/
def decimalLiteral (s : Str) : Option ℚ :=
  let whole := s.takeWhile isDigit
  let rest := s.dropWhile isDigit
  let (frac, rest) := match rest with
    | '.' :: t => (t.takeWhile isDigit, t.dropWhile isDigit)
    | _ => ([], rest)
  if (whole ++ frac).isEmpty then none
  else (exponentValue rest).map fun (e : ℤ) =>
    (digitsValue (whole ++ frac) : ℚ) * (10 : ℚ) ^ (e - (frac.length : ℤ))

/-- `float(s)` of a text; `none` is a `ValueError`. -/
def pyFloat (s : Str) : Option PyFloat := do
  let t ← toAsciiLiteral s
  let u ← dropUnderscores none (strip t)
  let (minus, v) := splitSign u
  let x ← if v.lower = Str.lit "inf" ∨ v.lower = Str.lit "infinity" then some (.inf false)
    else if v.lower = Str.lit "nan" then some .nan
    else (decimalLiteral v).map binary64
  pure (if minus then x.neg else x)

example : pyFloat (Str.lit " 1_25.0e-1 ") = some (.finite (25 / 2)) := by decide +kernel

example : pyFloat (Str.lit "-Infinity") = some (.inf true) := by decide +kernel

example : pyFloat (Str.lit "1__0") = none := by decide +kernel

/-! ### `int(s)` -/

/-- The default of `sys.get_int_max_str_digits()`. -/
def maxStrDigits : ℕ := 4300

/-- `int(s)` of a text; `none` is a `ValueError`. -/
def pyInt (s : Str) : Option ℤ := do
  let t ← toAsciiLiteral s
  let u ← dropUnderscores none (strip t)
  let (minus, ds) := splitSign u
  if !ds.isEmpty && ds.all isDigit && decide (ds.length ≤ maxStrDigits) then
    some (if minus then -(digitsValue ds : ℤ) else digitsValue ds)
  else none

/-- The characters of a decimal are digits. -/
theorem isDigit_of_mem_ofNat {n : ℕ} {c : Char} (h : c ∈ Str.ofNat n) : isDigit c = true := by
  have hd : c.isDigit := Nat.isDigit_of_mem_toDigits (b := 10) (by decide) (by decide) h
  simp only [Char.isDigit, Bool.and_eq_true, decide_eq_true_eq] at hd
  have h0 : '0'.val.toNat ≤ c.val.toNat := hd.1
  have h9 : c.val.toNat ≤ '9'.val.toNat := hd.2
  have hzero : '0'.val.toNat = 48 := rfl
  have hnine : '9'.val.toNat = 57 := rfl
  have hc : c.toNat = c.val.toNat := rfl
  simp only [isDigit, decide_eq_true_eq]
  omega

/-- The number a decimal denotes. -/
theorem digitsValue_ofNat (n : ℕ) : digitsValue (Str.ofNat n) = n := by
  unfold digitsValue Str.ofNat
  exact Nat.ofDigitChars_eq_foldl.symm.trans Nat.ofDigitChars_ten_toDigits

theorem ofNat_ne_nil (n : ℕ) : Str.ofNat n ≠ [] := Nat.toDigits_ne_nil

/-- A decimal has a sign or a digit at each place. -/
theorem mem_ofInt {n : ℤ} {c : Char} (h : c ∈ Str.ofInt n) : c = '-' ∨ isDigit c = true := by
  cases n with
  | ofNat n => exact Or.inr (isDigit_of_mem_ofNat h)
  | negSucc n =>
    rcases List.mem_cons.mp h with rfl | h
    · exact Or.inl rfl
    · exact Or.inr (isDigit_of_mem_ofNat h)

/-- A decimal has no character that is neither a digit nor a minus. -/
theorem not_mem_ofInt {n : ℤ} {c : Char} (hminus : c ≠ '-') (hdigit : isDigit c = false) :
    c ∉ Str.ofInt n := by
  intro h
  rcases mem_ofInt h with rfl | hc
  · exact hminus rfl
  · rw [hdigit] at hc
    cases hc

/-- Nothing is stripped off a text without blanks. -/
theorem strip_eq_self {s : Str} (h : ∀ c ∈ s, isAsciiSpace c = false) : strip s = s := by
  have hdrop (t : Str) (ht : ∀ c ∈ t, isAsciiSpace c = false) : t.dropWhile isAsciiSpace = t := by
    cases t with
    | nil => rfl
    | cons c t =>
      rw [List.dropWhile_cons_of_neg]
      simp [ht c List.mem_cons_self]
  unfold strip
  rw [hdrop s h, hdrop s.reverse fun c hc => h c (List.mem_reverse.mp hc), List.reverse_reverse]

/-- A text without underscores stays as it is. -/
theorem dropUnderscores_eq_self {s : Str} (h : '_' ∉ s) :
    ∀ prev, prev ≠ some '_' → dropUnderscores prev s = some s := by
  induction s with
  | nil => exact fun prev hp => if_neg hp
  | cons c s ih =>
    intro prev hp
    have hc : c ≠ '_' := fun he => h (by simp [he])
    have hs : '_' ∉ s := fun hm => h (List.mem_cons_of_mem _ hm)
    rw [dropUnderscores, if_neg hc, ih hs (some c) (by simpa using hc)]
    simp [hp]

/-- The sign of a decimal, and its digits. -/
theorem splitSign_ofInt (n : ℤ) :
    splitSign (Str.ofInt n) = (decide (n < 0), Str.ofNat n.natAbs) := by
  cases n with
  | negSucc n =>
    have hn : decide (Int.negSucc n < 0) = true := by simp [Int.negSucc_lt_zero]
    rw [hn]
    rfl
  | ofNat n =>
    have hn : decide ((Int.ofNat n) < 0) = false := by simp
    rw [hn]
    change splitSign (Str.ofNat n) = (false, Str.ofNat n)
    cases hs : Str.ofNat n with
    | nil => rfl
    | cons c s =>
      have hc : isDigit c = true := isDigit_of_mem_ofNat (hs ▸ List.mem_cons_self)
      unfold splitSign
      split
      · rename_i he
        cases he
        cases hc
      · rename_i he
        cases he
        cases hc
      · rfl

/-- The numbers with a decimal within the limit on digits. -/
theorem length_ofNat_le_iff {n : ℕ} : (Str.ofNat n).length ≤ maxStrDigits ↔ n < 10 ^ maxStrDigits :=
  Nat.length_toDigits_le_iff (by decide) (by decide)

/-- **`int` reads back the decimal of an integer** within the limit on digits. -/
theorem pyInt_ofInt {n : ℤ} (h : n.natAbs < 10 ^ maxStrDigits) : pyInt (Str.ofInt n) = some n := by
  have hblank : ∀ c ∈ Str.ofInt n, isAsciiSpace c = false := by
    intro c hc
    rcases mem_ofInt hc with rfl | hd
    · rfl
    · simp only [isDigit, decide_eq_true_eq] at hd
      have hlow : ∀ m ∈ [0x9, 0xa, 0xb, 0xc, 0xd, 0x20], m < 48 := by decide
      exact decide_eq_false fun hm => absurd (hlow _ hm) (by omega)
  have hunder : '_' ∉ Str.ofInt n := not_mem_ofInt (by decide) (by decide)
  have hascii : toAsciiLiteral (Str.ofInt n) = some (Str.ofInt n) :=
    if_pos (Str.isAscii_ofInt n)
  have hdigits : (Str.ofNat n.natAbs).all isDigit = true :=
    List.all_eq_true.mpr fun c hc => isDigit_of_mem_ofNat hc
  have hlength : (Str.ofNat n.natAbs).length ≤ maxStrDigits := length_ofNat_le_iff.mpr h
  have hempty : (Str.ofNat n.natAbs).isEmpty = false := by
    simpa using ofNat_ne_nil n.natAbs
  unfold pyInt
  rw [hascii, Option.bind_eq_bind, Option.bind_some, strip_eq_self hblank,
    dropUnderscores_eq_self hunder none (by simp), Option.bind_some, splitSign_ofInt]
  simp only [hempty, hdigits, hlength, digitsValue_ofNat, Bool.not_false, decide_true,
    Bool.and_self, if_true, decide_eq_true_eq, Option.some.injEq]
  split_ifs <;> omega

/-- `k` digits denote a number below `10 ^ k`. -/
theorem digitsValue_lt {s : Str} (h : s.all isDigit = true) : digitsValue s < 10 ^ s.length := by
  have hfold (n : ℕ) :
      s.foldl (fun n c => 10 * n + (c.toNat - 48)) n < (n + 1) * 10 ^ s.length := by
    induction s generalizing n with
    | nil => simp
    | cons c s ih =>
      rw [List.all_cons, Bool.and_eq_true, isDigit, decide_eq_true_eq] at h
      have hstep : 10 * n + (c.toNat - 48) + 1 ≤ (n + 1) * 10 := by omega
      calc s.foldl _ (10 * n + (c.toNat - 48))
          < (10 * n + (c.toNat - 48) + 1) * 10 ^ s.length := ih h.2 _
        _ ≤ (n + 1) * 10 * 10 ^ s.length := Nat.mul_le_mul_right _ hstep
        _ = (n + 1) * 10 ^ (c :: s).length := by rw [List.length_cons, pow_succ]; ring
  simpa [digitsValue] using hfold 0

/-- What `int` has read is within the limit on digits. -/
theorem natAbs_lt_of_pyInt {s : Str} {n : ℤ} (h : pyInt s = some n) :
    n.natAbs < 10 ^ maxStrDigits := by
  simp only [pyInt, Option.bind_eq_bind, Option.bind_eq_some_iff] at h
  obtain ⟨t, -, u, -, h⟩ := h
  have hdigits : (!(splitSign u).2.isEmpty && (splitSign u).2.all isDigit &&
      decide ((splitSign u).2.length ≤ maxStrDigits)) = true := by
    by_contra hd
    rw [if_neg hd] at h
    cases h
  rw [if_pos hdigits] at h
  rw [Bool.and_eq_true, Bool.and_eq_true, decide_eq_true_eq] at hdigits
  have hlt : digitsValue (splitSign u).2 < 10 ^ maxStrDigits :=
    (digitsValue_lt hdigits.1.2).trans_le (Nat.pow_le_pow_right (by decide) hdigits.2)
  obtain rfl := Option.some.inj h
  split_ifs
  · rwa [Int.natAbs_neg, Int.natAbs_natCast]
  · rwa [Int.natAbs_natCast]

/-- Different integers have different decimals. -/
theorem ofInt_injective : Function.Injective Str.ofInt := by
  intro a b h
  have hsplit := congrArg splitSign h
  rw [splitSign_ofInt, splitSign_ofInt, Prod.mk.injEq] at hsplit
  have hsign : a < 0 ↔ b < 0 := decide_eq_decide.mp hsplit.1
  have habs : a.natAbs = b.natAbs := by
    have := congrArg digitsValue hsplit.2
    rwa [digitsValue_ofNat, digitsValue_ofNat] at this
  omega

/-- `str(n)`; a number of more than `maxStrDigits` digits is a `ValueError` (`none`). -/
def pyStr (n : ℤ) : Option Str :=
  if (Str.ofNat n.natAbs).length ≤ maxStrDigits then some (Str.ofInt n) else none

theorem pyStr_of_lt {n : ℤ} (h : n.natAbs < 10 ^ maxStrDigits) : pyStr n = some (Str.ofInt n) :=
  if_pos (length_ofNat_le_iff.mpr h)

theorem pyStr_of_le {n : ℤ} (h : 10 ^ maxStrDigits ≤ n.natAbs) : pyStr n = none :=
  if_neg fun hle => absurd (length_ofNat_le_iff.mp hle) (Nat.not_lt.mpr h)

example : pyInt (Str.lit " +1_0 ") = some 10 := by decide +kernel

example : pyInt (Str.lit "_10") = none := by decide +kernel

end Data

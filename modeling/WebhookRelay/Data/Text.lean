import Mathlib.Data.Int.Notation
import Mathlib.Data.List.Basic
import Mathlib.Tactic.Common
import Mathlib.Tactic.IntervalCases

/-!
# Text as a list of characters

Strings are lists of Unicode characters (`Str`), bytes are lists of `UInt8`. This file has the
few string functions the development computes with, and the two properties of a string that
decide whether something downstream rejects it: being ASCII and containing NUL. What comes out of a
decoder may have surrogates in it, which are no characters; such a text is a list of code points
(`PyStr`).
-/

namespace Data

/-- A string. -/
abbrev Str : Type := List Char

namespace Str

/-- The string of a literal. -/
abbrev lit (s : String) : Str := s.toList

/-- Every character is ASCII. -/
def isAscii (s : Str) : Bool := s.all fun c => decide (c.toNat < 128)

/-- The character NUL occurs. -/
def hasNul (s : Str) : Bool := s.any fun c => decide (c.toNat = 0)

/-- ASCII lower case; other characters stay. -/
def lower (s : Str) : Str := s.map Char.toLower

/-- The UTF-8 encoding. -/
def encode (s : Str) : List UInt8 := s.flatMap String.utf8EncodeChar

/-- A natural number in decimal. -/
def ofNat (n : ℕ) : Str := Nat.toDigits 10 n

/-- An integer in decimal. -/
def ofInt : ℤ → Str
  | .ofNat n => ofNat n
  | .negSucc n => '-' :: ofNat (n + 1)

/-- Join with a separator between consecutive items. -/
def join (sep : Str) : List Str → Str
  | [] => []
  | [s] => s
  | s :: t :: ts => s ++ sep ++ join sep (t :: ts)

/-- A hexadecimal digit, lower case. -/
def hexDigit (n : ℕ) : Char :=
  if n % 16 < 10 then Char.ofNat (48 + n % 16) else Char.ofNat (87 + n % 16)

/-- The last `k` hexadecimal digits of a number. -/
def hex : ℕ → ℕ → Str
  | 0, _ => []
  | k + 1, n => hex k (n / 16) ++ [hexDigit n]

@[simp] theorem isAscii_nil : isAscii [] = true := rfl

@[simp] theorem isAscii_cons (c : Char) (s : Str) :
    isAscii (c :: s) = (decide (c.toNat < 128) && isAscii s) := rfl

@[simp] theorem isAscii_append (s t : Str) : isAscii (s ++ t) = (isAscii s && isAscii t) :=
  List.all_append

@[simp] theorem hasNul_append (s t : Str) : hasNul (s ++ t) = (hasNul s || hasNul t) :=
  List.any_append

theorem hexDigit_ascii_pos (n : ℕ) : 0 < (hexDigit n).toNat ∧ (hexDigit n).toNat < 128 := by
  have h : n % 16 < 16 := Nat.mod_lt _ (by decide)
  unfold hexDigit
  generalize n % 16 = m at h
  interval_cases m <;> decide

theorem isAscii_hex (k n : ℕ) : isAscii (hex k n) = true := by
  induction k generalizing n with
  | zero => rfl
  | succ k ih => simp [hex, ih, (hexDigit_ascii_pos n).2]

theorem hasNul_hex (k n : ℕ) : hasNul (hex k n) = false := by
  induction k generalizing n with
  | zero => rfl
  | succ k ih =>
    have := (hexDigit_ascii_pos n).1
    rw [hex, hasNul_append, ih]
    simp only [hasNul, List.any_cons, List.any_nil, Bool.or_false, Bool.false_or,
      decide_eq_false_iff_not]
    omega

/-- What is not a hexadecimal digit does not occur. -/
theorem not_mem_hex {c : Char} (h : ∀ n, hexDigit n ≠ c) (k n : ℕ) : c ∉ hex k n := by
  induction k generalizing n with
  | zero => exact List.not_mem_nil
  | succ k ih => exact List.not_mem_append (ih _) (by simpa using (h n).symm)

theorem hexDigit_ne_colon (n : ℕ) : hexDigit n ≠ ':' := by
  have h : n % 16 < 16 := Nat.mod_lt _ (by decide)
  unfold hexDigit
  generalize n % 16 = m at h
  interval_cases m <;> decide

theorem toNat_hexDigit (n : ℕ) :
    (hexDigit n).toNat = if n % 16 < 10 then 48 + n % 16 else 87 + n % 16 := by
  have h : n % 16 < 16 := Nat.mod_lt _ (by decide)
  unfold hexDigit
  generalize n % 16 = m at h
  interval_cases m <;> rfl

@[simp] theorem length_hex (k n : ℕ) : (hex k n).length = k := by
  induction k generalizing n with
  | zero => rfl
  | succ k ih => simp [hex, ih]

/-- The last `k` hexadecimal digits say the number up to `16 ^ k`. -/
theorem hex_inj {k m n : ℕ} (h : hex k m = hex k n) : m % 16 ^ k = n % 16 ^ k := by
  induction k generalizing m n with
  | zero => simp [Nat.mod_one]
  | succ k ih =>
    obtain ⟨hinit, hlast⟩ := List.append_inj h (by simp)
    have hdigit : m % 16 = n % 16 := by
      have hnat : (hexDigit m).toNat = (hexDigit n).toNat := by rw [(List.cons.inj hlast).1]
      rw [toNat_hexDigit, toNat_hexDigit] at hnat
      split_ifs at hnat <;> omega
    rw [pow_succ', Nat.mod_mul, Nat.mod_mul, hdigit, ih hinit]

theorem isAscii_of_forall {s : Str} (h : ∀ c ∈ s, c.toNat < 128) : isAscii s = true := by
  simpa [isAscii] using h

/-- A decimal number is ASCII. -/
theorem isAscii_ofNat (n : ℕ) : isAscii (ofNat n) = true := by
  refine isAscii_of_forall fun c hc => ?_
  have hd : c.isDigit := Nat.isDigit_of_mem_toDigits (b := 10) (by decide) (by decide) hc
  simp only [Char.isDigit, Bool.and_eq_true, decide_eq_true_eq] at hd
  have h9 : c.val.toNat ≤ '9'.val.toNat := hd.2
  have : ('9'.val.toNat) = 57 := rfl
  change c.val.toNat < 128
  omega

/-- A decimal number has no NUL. -/
theorem hasNul_ofNat (n : ℕ) : hasNul (ofNat n) = false := by
  refine List.any_eq_false.mpr fun c hc => ?_
  have hd : c.isDigit := Nat.isDigit_of_mem_toDigits (b := 10) (by decide) (by decide) hc
  simp only [Char.isDigit, Bool.and_eq_true, decide_eq_true_eq] at hd
  have h0 : '0'.val.toNat ≤ c.val.toNat := hd.1
  have : ('0'.val.toNat) = 48 := rfl
  have hc : c.toNat = c.val.toNat := rfl
  simp only [decide_eq_true_eq]
  omega

theorem hasNul_ofInt (n : ℤ) : hasNul (ofInt n) = false := by
  cases n with
  | ofNat n => exact hasNul_ofNat n
  | negSucc n =>
    have := hasNul_ofNat (n + 1)
    simpa [ofInt, hasNul] using this

theorem isAscii_ofInt (n : ℤ) : isAscii (ofInt n) = true := by
  cases n with
  | ofNat n => exact isAscii_ofNat n
  | negSucc n => simp [ofInt, isAscii_ofNat]

/-- An ASCII text has a byte a character. -/
theorem encode_of_isAscii {s : Str} (h : isAscii s = true) :
    encode s = s.map fun c => UInt8.ofNat c.toNat := by
  induction s with
  | nil => rfl
  | cons c s ih =>
    rw [isAscii_cons, Bool.and_eq_true, decide_eq_true_eq] at h
    have hc : String.utf8EncodeChar c = [UInt8.ofNat c.toNat] := if_pos (Nat.le_of_lt_succ h.1)
    change String.utf8EncodeChar c ++ encode s = _
    rw [hc, ih h.2]
    rfl

/-- A byte of an ASCII text is its character. -/
theorem toNat_ofNat_of_isAscii {s : Str} (h : isAscii s = true) {c : Char} (hc : c ∈ s) :
    (UInt8.ofNat c.toNat).toNat = c.toNat := by
  have hlt : c.toNat < 128 := of_decide_eq_true (List.all_eq_true.mp h c hc)
  rw [UInt8.toNat_ofNat']
  exact Nat.mod_eq_of_lt (by omega)

/-- The bytes of an ASCII text determine it. -/
theorem eq_of_encode {s t : Str} (hs : isAscii s = true) (ht : isAscii t = true)
    (h : encode s = encode t) : s = t := by
  have hback {u : Str} (hu : isAscii u = true) :
      (encode u).map (fun b => Char.ofNat b.toNat) = u := by
    rw [encode_of_isAscii hu, List.map_map]
    refine (List.map_congr_left fun c hc => ?_).trans (List.map_id u)
    change Char.ofNat (UInt8.ofNat c.toNat).toNat = c
    rw [toNat_ofNat_of_isAscii hu hc, Char.ofNat_toNat]
  rw [← hback hs, h, hback ht]

end Str

/-! ### Texts with surrogates -/

/-- A code point of Unicode, which may be a surrogate. -/
abbrev CodePoint : Type := Fin 0x110000

namespace CodePoint

/-- A high surrogate, the first of a pair. -/
def isHigh (c : CodePoint) : Bool := decide (0xd800 ≤ c.val ∧ c.val < 0xdc00)

/-- A low surrogate, the second of a pair. -/
def isLow (c : CodePoint) : Bool := decide (0xdc00 ≤ c.val ∧ c.val < 0xe000)

end CodePoint

/-- A string of Python: any code points in any order. -/
abbrev PyStr : Type := List CodePoint

namespace PyStr

/-- The code point NUL occurs. -/
def hasNul (s : PyStr) : Bool := s.any fun c => decide (c.val = 0)

/-- A surrogate occurs: there is no UTF-8 encoding. -/
def hasSurrogate (s : PyStr) : Bool := s.any fun c => c.isHigh || c.isLow

/-- A surrogate occurs that is not one of a pair. -/
def hasLoneSurrogate : PyStr → Bool
  | [] => false
  | [c] => c.isHigh || c.isLow
  | c :: d :: s =>
    if c.isHigh then !d.isLow || hasLoneSurrogate s
    else c.isLow || hasLoneSurrogate (d :: s)

example : hasLoneSurrogate [0x61, 0xd83d, 0xde00, 0x62] = false := by decide

example : hasLoneSurrogate [0xd83d, 0x62] = true := by decide

end PyStr

end Data

import Mathlib.Data.List.Basic
import Mathlib.Tactic.Common

/-!
# A list in pages

`page size i xs` is page `i` of a list, counted from 0, and `pageCount n size` the number of pages
that `n` items fill, rounded up. The pages up to that number are the list (`flatMap_pages`), and
every page after it is empty (`page_of_le`).
-/

namespace Data

variable {α : Type}

/-- Page `i`, counted from 0, as an offset and a limit. -/
def page (size i : ℕ) (xs : List α) : List α := (xs.drop (i * size)).take size

/-- The number of pages that `n` items fill. -/
def pageCount (n size : ℕ) : ℕ := (n + size - 1) / size

/-- The first pages are the first items. -/
theorem flatMap_range_page (size : ℕ) (xs : List α) (k : ℕ) :
    (List.range k).flatMap (fun i => page size i xs) = xs.take (k * size) := by
  induction k with
  | zero => simp
  | succ k ih =>
    rw [List.range_succ, List.flatMap_append, ih, List.flatMap_singleton, Nat.succ_mul,
      List.take_add]
    rfl

/-- The pages have room for all items. -/
theorem le_pageCount_mul {size : ℕ} (h : 0 < size) (n : ℕ) : n ≤ pageCount n size * size := by
  have hlt := Nat.lt_div_mul_add h (a := n + size - 1)
  unfold pageCount
  omega

/-- **The pages of a list are the list.** -/
theorem flatMap_pages {size : ℕ} (h : 0 < size) (xs : List α) :
    (List.range (pageCount xs.length size)).flatMap (fun i => page size i xs) = xs := by
  rw [flatMap_range_page]
  exact List.take_of_length_le (le_pageCount_mul h _)

/-- A page after the last one is empty. -/
theorem page_of_le {size i : ℕ} (h : 0 < size) {xs : List α} (hi : pageCount xs.length size ≤ i) :
    page size i xs = [] := by
  have hlen : xs.length ≤ i * size :=
    Nat.le_trans (le_pageCount_mul h xs.length) (Nat.mul_le_mul_right size hi)
  unfold page
  rw [List.drop_eq_nil_of_le hlen, List.take_nil]

end Data

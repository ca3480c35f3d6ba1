import Mathlib.Algebra.Order.Group.Defs
import Mathlib.Data.List.Chain

/-!
# Bursts and windows

Times are listed latest first. A burst is a run of times each at most `w` after the one before
it; it is what a counter counts whose lifetime `w` starts anew at every count. A window at `now` is
what lies after `now - w`. A window is always a part of a burst; `le_burst_iff_window` says when the
two reach the same number.
-/

namespace Data

variable {α : Type} [LinearOrder α]

/-- Of times listed latest first, those after `a` are the first ones. -/
theorem le_countP_iff {a : α} : ∀ (n : ℕ) {ts : List α}, ts.Pairwise (· ≥ ·) →
    (n ≤ (ts.countP fun t => decide (a < t)) ↔ n ≤ ts.length ∧ ∀ t ∈ ts.take n, a < t)
  | 0, ts, _ => by simp
  | n + 1, [], _ => by simp
  | n + 1, t :: ts, hsorted => by
    obtain ⟨hle, hsorted⟩ := List.pairwise_cons.mp hsorted
    rw [List.take_succ_cons, List.length_cons, Nat.add_le_add_iff_right, List.countP_cons,
      List.forall_mem_cons]
    by_cases h : a < t
    · rw [if_pos (decide_eq_true h), Nat.add_le_add_iff_right, le_countP_iff n hsorted]
      constructor
      · rintro ⟨hlen, hall⟩
        exact ⟨hlen, h, hall⟩
      · rintro ⟨hlen, -, hall⟩
        exact ⟨hlen, hall⟩
    · have hzero : (ts.countP fun t => decide (a < t)) = 0 := by
        refine List.countP_eq_zero.mpr fun x hx => ?_
        simpa using (hle x hx).trans (not_lt.mp h)
      rw [hzero, if_neg (by simpa using h)]
      constructor
      · intro hle
        exact absurd hle (by omega)
      · rintro ⟨-, hlt, -⟩
        exact absurd hlt h

variable [AddCommGroup α]

/-- The length of the burst that goes on at `now`. -/
def burst (w : α) : List α → α → ℕ
  | [], _ => 0
  | t :: ts, now => if now ≤ t + w then burst w ts t + 1 else 0

theorem burst_cons (w t now : α) (ts : List α) :
    burst w (t :: ts) now = if now ≤ t + w then burst w ts t + 1 else 0 := rfl

/-- A burst is a chain of small gaps. -/
theorem le_burst_iff (w : α) : ∀ (n : ℕ) (ts : List α) (now : α), n ≤ burst w ts now ↔
    n ≤ ts.length ∧ (now :: ts.take n).IsChain fun later earlier => later ≤ earlier + w
  | 0, ts, now => by simp
  | n + 1, [], now => by simp [burst]
  | n + 1, t :: ts, now => by
    rw [List.take_succ_cons, List.isChain_cons_cons, List.length_cons, Nat.add_le_add_iff_right]
    rw [burst_cons]
    split_ifs with h
    · rw [Nat.add_le_add_iff_right, le_burst_iff w n ts t]
      constructor
      · rintro ⟨hlen, hchain⟩
        exact ⟨hlen, h, hchain⟩
      · rintro ⟨hlen, -, hchain⟩
        exact ⟨hlen, hchain⟩
    · constructor
      · intro hle
        exact absurd hle (by omega)
      · rintro ⟨-, hlt, -⟩
        exact absurd hlt h

variable [IsOrderedAddMonoid α]

/-- Times in one window are a chain of small gaps. -/
theorem isChain_of_window {w now : α} : ∀ {ts : List α} {t : α}, t ≤ now →
    (∀ x ∈ ts, x ≤ now ∧ now - w < x) → (t :: ts).IsChain fun later earlier => later ≤ earlier + w
  | [], t, _, _ => by simp
  | x :: ts, t, ht, h => by
    obtain ⟨hx, hts⟩ := List.forall_mem_cons.mp h
    refine List.isChain_cons_cons.mpr ⟨?_, isChain_of_window hx.1 hts⟩
    exact ht.trans (sub_lt_iff_lt_add.mp hx.2).le

/-- **Bursts and windows**: at the time `t` of the latest of some times, the burst and the window
reach `n` together if and only if the latest `n`, when they are a burst, lie in the window. -/
theorem le_burst_iff_window {w t : α} {ts : List α} {n : ℕ} (hw : 0 < w) (hn : 0 < n)
    (hsorted : (t :: ts).Pairwise (· ≥ ·)) :
    (n ≤ burst w (t :: ts) t ↔ n ≤ (t :: ts).countP fun x => decide (t - w < x)) ↔
      (n ≤ (t :: ts).length →
        ((t :: ts).take n).IsChain (fun later earlier => later ≤ earlier + w) →
          ∀ x ∈ (t :: ts).take n, t - w < x) := by
  obtain ⟨m, rfl⟩ := Nat.exists_eq_add_of_lt hn
  rw [Nat.zero_add, le_burst_iff, le_countP_iff _ hsorted, List.take_succ_cons,
    List.isChain_cons_cons]
  have hself : t ≤ t + w := (lt_add_of_pos_right t hw).le
  have hwindow (h : ∀ x ∈ t :: ts.take m, t - w < x) :
      (t :: ts.take m).IsChain fun later earlier => later ≤ earlier + w := by
    refine isChain_of_window le_rfl fun x hx => ⟨?_, h x (List.mem_cons_of_mem _ hx)⟩
    exact (List.pairwise_cons.mp hsorted).1 x (List.mem_of_mem_take hx)
  constructor
  · intro h hlen hchain
    exact (h.mp ⟨hlen, hself, hchain⟩).2
  · intro h
    constructor
    · rintro ⟨hlen, -, hchain⟩
      exact ⟨hlen, h hlen hchain⟩
    · rintro ⟨hlen, hall⟩
      exact ⟨hlen, hself, hwindow hall⟩

end Data

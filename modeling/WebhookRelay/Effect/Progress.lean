import WebhookRelay.Effect.Pool
import Mathlib.Data.Finset.Max
import Mathlib.Algebra.Order.BigOperators.Group.List

/-!
# Waiting, and sums over threads

Two arguments about a pool that do not depend on what its programs do.

* Resources that are taken in the order of a rank cannot be waited for in a circle
  (`waiting_acyclic`), and everybody waits in the end for a thread that does not wait
  (`exists_not_waiting`).
* What the threads have together, when one of them is replaced (`Pool.sum_map_set`).
-/

namespace Effect

/-! ### Waiting in the order of a rank -/

section Waiting

variable {ι κ R : Type} [LinearOrder R] {waits : ι → κ → ι → Prop} {rank : κ → R}

/-- One waits for the other, for some resource. -/
def WaitsFor (waits : ι → κ → ι → Prop) (i j : ι) : Prop := ∃ k, waits i k j

/-- The last resource on a way along which everybody waits has at least the rank of the first. -/
theorem waitsFor_rank
    (h : ∀ i k j k' l, waits i k j → waits j k' l → rank k < rank k') {i j : ι}
    (hij : Relation.TransGen (WaitsFor waits) i j) :
    ∃ k k' u v, waits i k u ∧ waits v k' j ∧ rank k ≤ rank k' := by
  induction hij with
  | single hij =>
    obtain ⟨k, hk⟩ := hij
    exact ⟨k, k, _, _, hk, hk, le_rfl⟩
  | tail _ hjl ih =>
    obtain ⟨k, k', u, v, hfirst, hlast, hle⟩ := ih
    obtain ⟨k'', hk''⟩ := hjl
    exact ⟨k, k'', u, _, hfirst, hk'', hle.trans (h _ _ _ _ _ hlast hk'').le⟩

/-- When whoever is waited for only waits for resources of a higher rank, nobody waits for
himself, over however many others. -/
theorem waiting_acyclic
    (h : ∀ i k j k' l, waits i k j → waits j k' l → rank k < rank k') (i : ι) :
    ¬ Relation.TransGen (WaitsFor waits) i i := by
  intro hcycle
  obtain ⟨k, k', u, v, hfirst, hlast, hle⟩ := waitsFor_rank h hcycle
  exact absurd (h _ _ _ _ _ hlast hfirst) (not_lt.mpr hle)

/-- Of finitely many, everybody waits in the end for one who does not wait. -/
theorem exists_not_waiting
    (h : ∀ i k j k' l, waits i k j → waits j k' l → rank k < rank k') {live : Finset ι}
    (hlive : ∀ i k j, waits i k j → j ∈ live) {i : ι} (hi : i ∈ live) :
    ∃ j ∈ live, Relation.ReflTransGen (WaitsFor waits) i j ∧ ∀ k l, ¬ waits j k l := by
  classical
  by_contra hall
  push Not at hall
  let reached := live.filter fun j => Relation.ReflTransGen (WaitsFor waits) i j
  have hwaits (j : ι) (hj : j ∈ reached) : ∃ k l, waits j k l :=
    hall j (Finset.mem_filter.mp hj).1 (Finset.mem_filter.mp hj).2
  obtain ⟨k₀, -⟩ := hwaits i (Finset.mem_filter.mpr ⟨hi, .refl⟩)
  have : Nonempty κ := ⟨k₀⟩
  choose! wanted holder hwanted using hwaits
  -- the one that waits for the resource of the highest rank
  obtain ⟨j, hj, hmax⟩ := reached.exists_max_image (fun j => rank (wanted j))
    ⟨i, Finset.mem_filter.mpr ⟨hi, .refl⟩⟩
  have hnext : holder j ∈ reached := Finset.mem_filter.mpr
    ⟨hlive _ _ _ (hwanted j hj), (Finset.mem_filter.mp hj).2.tail ⟨_, hwanted j hj⟩⟩
  have hhigher := h _ _ _ _ _ (hwanted j hj) (hwanted (holder j) hnext)
  exact absurd hhigher (not_lt.mpr (hmax (holder j) hnext))

end Waiting

/-! ### Sums over threads -/

namespace Pool

/-- A sum over a list in which one thing is replaced. -/
theorem sum_map_set {τ N : Type} [AddCommMonoid N] {l : List τ} {t : ℕ} {x : τ}
    (hx : l[t]? = some x) (y : τ) (f : τ → N) :
    ((l.set t y).map f).sum + f x = (l.map f).sum + f y := by
  obtain ⟨ht, rfl⟩ := List.getElem?_eq_some_iff.mp hx
  obtain ⟨l₁, l₂, hl, -, hset⟩ := List.exists_of_set ht
  rw [hset]
  conv_rhs => rw [hl]
  simp only [List.map_append, List.map_cons, List.sum_append, List.sum_cons]
  ac_rfl

/-- Two of the summands. -/
theorem add_le_sum_map {τ N : Type} [AddCommMonoid N] [PartialOrder N] [IsOrderedAddMonoid N]
    [CanonicallyOrderedAdd N] {l : List τ} {i j : ℕ} {x y : τ} (hij : i ≠ j)
    (hx : l[i]? = some x) (hy : l[j]? = some y) (f : τ → N) :
    f x + f y ≤ (l.map f).sum := by
  obtain ⟨hi, rfl⟩ := List.getElem?_eq_some_iff.mp hx
  have hother : y ∈ l.eraseIdx i := List.mem_eraseIdx_iff_getElem?.mpr ⟨j, hij.symm, hy⟩
  calc f l[i] + f y ≤ f l[i] + ((l.eraseIdx i).map f).sum :=
        add_le_add_right (List.le_sum_of_mem (List.mem_map_of_mem hother)) _
    _ = (l.map f).sum :=
        (((List.getElem_cons_eraseIdx_perm hi).map f).sum_eq)

end Pool

/-! ### The next call -/

/-- The next call of a program, unless it has ended. -/
def Prog.next? {I : Interface} {ε α : Type} : Prog I ε α → Option I.Op
  | .call e _ => some e
  | _ => none

theorem Prog.next?_eq_some {I : Interface} {ε α : Type} {p : Prog I ε α} {e : I.Op} :
    p.next? = some e ↔ ∃ k, p = .call e k := by
  cases p with
  | call e' k =>
    constructor
    · rintro ⟨⟩
      exact ⟨k, rfl⟩
    · rintro ⟨k', h⟩
      cases h
      rfl
  | _ => exact ⟨fun h => (nomatch h), fun ⟨_, h⟩ => nomatch h⟩

end Effect

import WebhookRelay.Models
import Mathlib.Data.List.ReduceOption

/-!
# The delivery law, on its own

What deliveries are for, without tables or HTTP: an event makes `Progress` by the `Verdict`s on
the answers to its POSTs, with at most `m` of them, and a refusal by the circuit breaker is no
answer. `Law` is the outcome of any number of runs as a function of the verdicts alone, and
`run_law` derives it from the rule for one run.
-/

namespace WebhookRelay

/-- What an answer means for the event. -/
inductive Verdict where
  /-- A 2xx. -/
  | success
  /-- A 4xx other than 429. -/
  | permanent
  /-- Anything else, also no response at all. -/
  | transient
  deriving DecidableEq

/-- How far the delivery of an event has come. -/
structure Progress where
  status : EventStatus
  attempts : ℕ
  /-- The number of attempts that each dead letter entry made so far has recorded. -/
  entries : List ℕ
  deriving DecidableEq

namespace Progress

/-- An event that was just accepted. -/
def fresh : Progress := ⟨.pending, 0, []⟩

/-- The verdict on the next answer, with a budget of `m` attempts. -/
def answered (m : ℕ) (p : Progress) : Verdict → Progress
  | .success => ⟨.delivered, p.attempts + 1, p.entries⟩
  | .permanent => ⟨.deadLettered, p.attempts + 1, p.entries ++ [p.attempts + 1]⟩
  | .transient =>
    if m ≤ p.attempts + 1 then ⟨.deadLettered, p.attempts + 1, p.entries ++ [p.attempts + 1]⟩
    else ⟨.failed, p.attempts + 1, p.entries⟩

/-- One run: nothing for a terminal event, else a refusal (`none`) or an answer. -/
def step (m : ℕ) (p : Progress) (x : Option Verdict) : Progress :=
  if p.status.terminal then p
  else match x with
    | none => { p with status := .failed }
    | some v => p.answered m v

/-- One run after the other. -/
def run (m : ℕ) (p : Progress) (xs : List (Option Verdict)) : Progress := xs.foldl (step m) p

/-- The outcome of any number of runs, given the verdicts on the answers. -/
structure Law (m : ℕ) (vs : List Verdict) (p : Progress) : Prop where
  success : ∀ us ws, vs = us ++ .success :: ws → (∀ u ∈ us, u = .transient) → us.length < m →
    p = ⟨.delivered, us.length + 1, []⟩
  permanent : ∀ us ws, vs = us ++ .permanent :: ws → (∀ u ∈ us, u = .transient) →
    us.length < m → p = ⟨.deadLettered, us.length + 1, [us.length + 1]⟩
  exhausted : (∀ u ∈ vs.take m, u = .transient) → m ≤ vs.length → p = ⟨.deadLettered, m, [m]⟩
  underWay : (∀ u ∈ vs, u = .transient) → vs.length < m →
    (p.status = .pending ∨ p.status = .failed) ∧ p.attempts = vs.length ∧ p.entries = []

variable {m : ℕ} {p : Progress}

theorem step_of_terminal (h : p.status.terminal = true) (x : Option Verdict) : p.step m x = p := by
  unfold step
  exact if_pos h

/-- Nothing happens to a terminal event. -/
theorem run_of_terminal (h : p.status.terminal = true) (xs : List (Option Verdict)) :
    p.run m xs = p := by
  induction xs with
  | nil => rfl
  | cons x xs ih =>
    change (p.step m x).run m xs = p
    rw [step_of_terminal h, ih]

theorem run_append (xs ys : List (Option Verdict)) : p.run m (xs ++ ys) = (p.run m xs).run m ys :=
  List.foldl_append

/-- The attempts are within the budget, and an open event has one left. -/
def Within (m : ℕ) (p : Progress) : Prop :=
  p.attempts ≤ m ∧ (p.status.terminal = false → p.attempts < m)

/-- A run keeps the attempts within the budget. -/
theorem Within.step (h : p.Within m) (x : Option Verdict) : (p.step m x).Within m := by
  cases hterm : p.status.terminal with
  | true =>
    rw [step_of_terminal hterm]
    exact h
  | false =>
    have hlt := h.2 hterm
    unfold Progress.step
    rw [hterm]
    cases x with
    | none => exact ⟨h.1, fun _ => hlt⟩
    | some v =>
      cases v with
      | success => exact ⟨hlt, nofun⟩
      | permanent => exact ⟨hlt, nofun⟩
      | transient =>
        change (if m ≤ p.attempts + 1 then (⟨.deadLettered, p.attempts + 1,
          p.entries ++ [p.attempts + 1]⟩ : Progress) else ⟨.failed, p.attempts + 1,
          p.entries⟩).Within m
        split_ifs with hm
        · exact ⟨hlt, nofun⟩
        · exact ⟨hlt, fun _ => Nat.lt_of_not_le hm⟩

theorem Within.run (xs : List (Option Verdict)) {p : Progress} (h : p.Within m) :
    (p.run m xs).Within m := by
  induction xs generalizing p with
  | nil => exact h
  | cons x xs ih => exact ih (h.step x)

/-- A status from which an event can still be delivered. -/
theorem terminal_eq_false_iff {s : EventStatus} (h : s = .pending ∨ s = .failed) :
    s.terminal = false := by
  rcases h with rfl | rfl <;> rfl

/-- Fewer transient answers than the budget leave the event under way, each of them counted. -/
theorem run_of_transient (xs : List (Option Verdict)) (p : Progress)
    (hp : p.status = .pending ∨ p.status = .failed) (hx : ∀ u ∈ xs.reduceOption, u = .transient)
    (hm : p.attempts + xs.reduceOption.length < m) :
    ((p.run m xs).status = .pending ∨ (p.run m xs).status = .failed) ∧
      (p.run m xs).attempts = p.attempts + xs.reduceOption.length ∧
      (p.run m xs).entries = p.entries := by
  induction xs generalizing p with
  | nil => exact ⟨hp, rfl, rfl⟩
  | cons x xs ih =>
    have hstep : p.run m (x :: xs) = (p.step m x).run m xs := rfl
    rw [hstep]
    cases x with
    | none =>
      rw [List.reduceOption_cons_of_none] at hx hm ⊢
      have h : p.step m none = { p with status := .failed } := by
        rw [step, if_neg (by rw [terminal_eq_false_iff hp]; decide)]
      rw [h]
      exact ih _ (Or.inr rfl) hx hm
    | some v =>
      rw [List.reduceOption_cons_of_some] at hx hm ⊢
      rw [List.length_cons] at hm ⊢
      have hv : v = .transient := hx v List.mem_cons_self
      have h : p.step m (some v) = ⟨.failed, p.attempts + 1, p.entries⟩ := by
        rw [step, if_neg (by rw [terminal_eq_false_iff hp]; decide), hv]
        change (if m ≤ p.attempts + 1 then _ else _) = _
        rw [if_neg (by omega)]
      rw [h]
      have hrest := ih ⟨.failed, p.attempts + 1, p.entries⟩ (Or.inr rfl)
        (fun u hu => hx u (List.mem_cons_of_mem _ hu)) (by change p.attempts + 1 + _ < m; omega)
      refine ⟨hrest.1, ?_, hrest.2.2⟩
      rw [hrest.2.1]
      change p.attempts + 1 + _ = _
      omega

/-- A verdict among the answers is the answer of one of the runs. -/
theorem exists_of_reduceOption_eq {us ws : List Verdict} {v : Verdict} :
    ∀ {xs : List (Option Verdict)}, xs.reduceOption = us ++ v :: ws →
      ∃ ys zs, xs = ys ++ some v :: zs ∧ ys.reduceOption = us := by
  intro xs h
  obtain ⟨ys, rest, rfl, hys, hrest⟩ := List.filterMap_eq_append_iff.mp h
  obtain ⟨as, b, zs, rfl, has, hb, -⟩ := List.filterMap_eq_cons_iff.mp hrest
  subst hb
  refine ⟨ys ++ as, zs, by simp, ?_⟩
  rw [List.reduceOption_append]
  have hnil : as.reduceOption = [] := List.filterMap_eq_nil_iff.mpr has
  rw [hnil, List.append_nil]
  exact hys

/-- The first answers are transient, and the next one settles the event. -/
theorem run_of_decided {us ws : List Verdict} {v : Verdict} {xs : List (Option Verdict)}
    (h : xs.reduceOption = us ++ v :: ws) (hu : ∀ u ∈ us, u = .transient) (hm : us.length < m)
    (hv : (answered m ⟨.failed, us.length, []⟩ v).status.terminal = true) :
    fresh.run m xs = answered m ⟨.failed, us.length, []⟩ v := by
  obtain ⟨ys, zs, rfl, rfl⟩ := exists_of_reduceOption_eq h
  obtain ⟨hstatus, hattempts, hentries⟩ := run_of_transient ys fresh (Or.inl rfl) hu
    (by change 0 + _ < m; omega)
  have hstep : (fresh.run m ys).step m (some v) =
      answered m ⟨.failed, ys.reduceOption.length, []⟩ v := by
    rw [step, if_neg (by rw [terminal_eq_false_iff hstatus]; decide)]
    have ha : (fresh.run m ys).attempts = ys.reduceOption.length := by
      rw [hattempts]
      exact Nat.zero_add _
    have he : (fresh.run m ys).entries = [] := hentries
    cases v <;> simp only [answered, ha, he]
  rw [run_append]
  change ((fresh.run m ys).step m (some v)).run m zs = _
  rw [hstep, run_of_terminal hv]

/-- **The delivery law**: the outcome of any number of runs depends on the verdicts only. -/
theorem run_law (hm : 1 ≤ m) (xs : List (Option Verdict)) :
    Law m xs.reduceOption (fresh.run m xs) where
  success us ws h hu hl := run_of_decided h hu hl rfl
  permanent us ws h hu hl := run_of_decided h hu hl rfl
  exhausted hu hl := by
    obtain ⟨k, rfl⟩ : ∃ k, m = k + 1 := ⟨m - 1, by omega⟩
    have hk : k < xs.reduceOption.length := by omega
    have hsplit : xs.reduceOption =
        xs.reduceOption.take k ++ .transient :: xs.reduceOption.drop (k + 1) := by
      have hget : xs.reduceOption[k] = .transient :=
        hu _ (List.mem_take_iff_getElem.mpr ⟨k, by omega, rfl⟩)
      rw [← hget, List.getElem_cons_drop, List.take_append_drop]
    have hlen : (xs.reduceOption.take k).length = k := List.length_take_of_le (by omega)
    have hans : answered (k + 1) ⟨.failed, (xs.reduceOption.take k).length, []⟩ .transient =
        ⟨.deadLettered, k + 1, [k + 1]⟩ := by
      simp [answered, hlen]
    rw [run_of_decided hsplit (fun u h => hu u (List.take_subset_take_left _ (by omega) h))
      (by omega) (by rw [hans]; rfl), hans]
  underWay hu hl := by
    obtain ⟨hstatus, hattempts, hentries⟩ := run_of_transient xs fresh (Or.inl rfl) hu
      (by change 0 + _ < m; omega)
    refine ⟨hstatus, ?_, hentries⟩
    rw [hattempts]
    exact Nat.zero_add _

/-! ### Lost answers -/

/-- Of the answers within the budget one settles the event, or all are transient. -/
theorem decided_or_transient : ∀ (m : ℕ) (vs : List Verdict),
    (∃ us v ws, vs = us ++ v :: ws ∧ (∀ u ∈ us, u = .transient) ∧ us.length < m ∧ v ≠ .transient) ∨
      ∀ u ∈ vs.take m, u = .transient
  | 0, vs => by simp
  | m + 1, [] => by simp
  | m + 1, v :: vs => by
    by_cases hv : v = .transient
    · rcases decided_or_transient m vs with ⟨us, w, ws, rfl, hu, hl, hw⟩ | hall
      · exact Or.inl ⟨v :: us, w, ws, rfl, List.forall_mem_cons.mpr ⟨hv, hu⟩,
          Nat.succ_lt_succ hl, hw⟩
      · exact Or.inr (List.forall_mem_cons.mpr ⟨hv, hall⟩)
    · exact Or.inl ⟨[], v, vs, rfl, fun u hu => absurd hu List.not_mem_nil, Nat.succ_pos m, hv⟩

/-- The law says how many attempts are counted. -/
theorem Law.attempts_unique {vs : List Verdict} {q : Progress} (h : Law m vs p)
    (h' : Law m vs q) : p.attempts = q.attempts := by
  rcases decided_or_transient m vs with ⟨us, v, ws, hsplit, hu, hl, hv⟩ | hu
  · cases v with
    | success => rw [h.success us ws hsplit hu hl, h'.success us ws hsplit hu hl]
    | permanent => rw [h.permanent us ws hsplit hu hl, h'.permanent us ws hsplit hu hl]
    | transient => exact absurd rfl hv
  · rcases Nat.lt_or_ge vs.length m with hl | hl
    · rw [List.take_of_length_le hl.le] at hu
      rw [(h.underWay hu hl).2.1, (h'.underWay hu hl).2.1]
    · rw [h.exhausted hu hl, h'.exhausted hu hl]

/-- An answer counts as an attempt. -/
theorem attempts_step (h : p.status.terminal = false) (v : Verdict) :
    (p.step m (some v)).attempts = p.attempts + 1 := by
  rw [step, if_neg (by rw [h]; decide)]
  cases v with
  | success => rfl
  | permanent => rfl
  | transient =>
    change (if m ≤ p.attempts + 1 then _ else _ : Progress).attempts = _
    split_ifs <;> rfl

/-- An answer that is lost breaks the law. -/
theorem not_law_of_lost (hm : 1 ≤ m) {xs : List (Option Verdict)}
    (h : (fresh.run m xs).status.terminal = false) (v : Verdict) :
    ¬ Law m (xs.reduceOption ++ [v]) (fresh.run m xs) := by
  intro hlost
  have hcounted : Law m (xs.reduceOption ++ [v]) (fresh.run m (xs ++ [some v])) := by
    have := run_law hm (xs ++ [some v])
    rwa [List.reduceOption_append, List.reduceOption_singleton] at this
  have hattempts : (fresh.run m (xs ++ [some v])).attempts = (fresh.run m xs).attempts + 1 := by
    rw [run_append]
    exact attempts_step h v
  have := hlost.attempts_unique hcounted
  omega

end Progress

end WebhookRelay

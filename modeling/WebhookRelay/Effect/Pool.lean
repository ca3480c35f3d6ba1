import WebhookRelay.Effect.Contract
import Mathlib.Data.List.Basic
import Mathlib.Logic.Relation

/-!
# Programs side by side

A `Machine` gives the calls of an interface a meaning on a shared world and a session of the
calling thread: `exec` answers a call, with everything the environment chooses in an oracle, and
`blocked` says when the call has to wait for the sessions of the other threads. A `Pool` is a
world with a list of threads; `Pool.call`, `Pool.fault`, `Pool.kill` and `Pool.spawn` are the
moves of a scheduler, each a computable partial function, so a schedule can be run.

* A thread keeps the `trace` of its calls and answers. A program that obeys a contract keeps
  obeying it from the phase its trace has reached (`Thread.Follows`), whatever the others do.
* `Runs step ok` is the reachability relation of a transition function under a condition on the
  steps taken, with its invariant rule; `Happened` speaks of a step in the past of a run.
-/

namespace Effect

variable {I : Interface} {ε α W S O Org P : Type}

/-! ### Machines, threads, pools -/

/-- What the calls of an interface do to a world and to the session of the caller. -/
structure Machine (I : Interface) (ε W S O : Type) where
  /-- The session a thread starts with, and is left with when it has ended. -/
  fresh : S
  /-- Answer a call. -/
  exec : O → (e : I.Op) → W → S → Except ε (I.Resp e) × W × S
  /-- The call has to wait, given the sessions of the other threads. -/
  blocked : List S → W → S → I.Op → Bool

/-- A program on its way, with its session and the trace of what it has called. -/
structure Thread (I : Interface) (ε α S Org : Type) where
  /-- Where the thread came from. -/
  origin : Org
  /-- What is left of its program. -/
  prog : Prog I ε α
  /-- Its session. -/
  session : S
  /-- The calls it has made, with their answers, oldest first. -/
  trace : List (Call I ε)

/-- A world and the threads that act on it. -/
structure Pool (I : Interface) (ε α W S Org : Type) where
  /-- The shared state. -/
  world : W
  /-- The threads, in the order they were started; a thread that has ended stays in the list. -/
  threads : List (Thread I ε α S Org)

/-- The thread after a call has been answered: a thread that has ended gives up its session. -/
def Thread.answered (M : Machine I ε W S O) (th : Thread I ε α S Org) (e : I.Op)
    (r : Except ε (I.Resp e)) (p : Prog I ε α) (s : S) : Thread I ε α S Org :=
  { origin := th.origin
    prog := p
    session := if p.ended then M.fresh else s
    trace := th.trace ++ [⟨e, r⟩] }

namespace Pool

variable (M : Machine I ε W S O)

/-- The sessions of the threads other than `t`. -/
def others (c : Pool I ε α W S Org) (t : ℕ) : List S :=
  (c.threads.eraseIdx t).map Thread.session

/-- A new thread. -/
def spawn (c : Pool I ε α W S Org) (origin : Org) (p : Prog I ε α) : Pool I ε α W S Org :=
  { c with threads := c.threads ++ [⟨origin, p, M.fresh, []⟩] }

/-- Thread `t` makes its next call and gets its answer. -/
def call (c : Pool I ε α W S Org) (t : ℕ) (o : O) : Option (Pool I ε α W S Org) :=
  match c.threads[t]? with
  | some th =>
    match th.prog with
    | .call e k =>
      if M.blocked (c.others t) c.world th.session e then none
      else
        let x := M.exec o e c.world th.session
        some ⟨x.2.1, c.threads.set t (th.answered M e x.1 (k x.1) x.2.2)⟩
    | _ => none
  | none => none

/-- The next call of thread `t` raises `x`; `applied` says whether it took effect all the same. -/
def fault (c : Pool I ε α W S Org) (t : ℕ) (o : O) (x : ε) (applied : Bool) :
    Option (Pool I ε α W S Org) :=
  match c.threads[t]? with
  | some th =>
    match th.prog with
    | .call e k =>
      if applied && M.blocked (c.others t) c.world th.session e then none
      else
        let y := M.exec o e c.world th.session
        let w := if applied then y.2.1 else c.world
        let s := if applied then y.2.2 else th.session
        some ⟨w, c.threads.set t (th.answered M e (.error x) (k (.error x)) s)⟩
    | _ => none
  | none => none

/-- Thread `t` is gone: its program is cut off and its session is given up. -/
def kill (c : Pool I ε α W S Org) (t : ℕ) (x : ε) : Option (Pool I ε α W S Org) :=
  match c.threads[t]? with
  | some th =>
    some { c with threads := c.threads.set t { th with prog := .raised x, session := M.fresh } }
  | none => none

variable {M} {c c' : Pool I ε α W S Org} {t : ℕ} {o : O}

/-- What a call step does. -/
theorem call_eq_some (h : c.call M t o = some c') :
    ∃ th e k, c.threads[t]? = some th ∧ th.prog = .call e k ∧
      M.blocked (c.others t) c.world th.session e = false ∧
      c'.world = (M.exec o e c.world th.session).2.1 ∧
      c'.threads = c.threads.set t (th.answered M e (M.exec o e c.world th.session).1
        (k (M.exec o e c.world th.session).1) (M.exec o e c.world th.session).2.2) := by
  unfold call at h
  cases hth : c.threads[t]? with
  | none => simp [hth] at h
  | some th =>
    cases hp : th.prog with
    | done a => simp [hth, hp] at h
    | raised x => simp [hth, hp] at h
    | call e k =>
      simp only [hth, hp] at h
      split at h
      · cases h
      · rename_i hb
        cases h
        exact ⟨th, e, k, rfl, hp, by simpa using hb, rfl, rfl⟩

/-- What a fault does: the call raises, with or without its effect. -/
theorem fault_eq_some {x : ε} {applied : Bool} (h : c.fault M t o x applied = some c') :
    ∃ th e k, c.threads[t]? = some th ∧ th.prog = .call e k ∧
      ((applied = false ∧ c'.world = c.world ∧
          c'.threads = c.threads.set t
            (th.answered M e (.error x) (k (.error x)) th.session)) ∨
        (applied = true ∧ M.blocked (c.others t) c.world th.session e = false ∧
          c'.world = (M.exec o e c.world th.session).2.1 ∧
          c'.threads = c.threads.set t (th.answered M e (.error x) (k (.error x))
            (M.exec o e c.world th.session).2.2))) := by
  unfold fault at h
  cases hth : c.threads[t]? with
  | none => simp [hth] at h
  | some th =>
    cases hp : th.prog with
    | done a => simp [hth, hp] at h
    | raised y => simp [hth, hp] at h
    | call e k =>
      simp only [hth, hp] at h
      split at h
      · cases h
      · rename_i hb
        cases h
        refine ⟨th, e, k, rfl, hp, ?_⟩
        cases applied with
        | false => exact Or.inl ⟨rfl, rfl, rfl⟩
        | true => exact Or.inr ⟨rfl, by simpa using hb, rfl, rfl⟩

/-- What killing a thread does. -/
theorem kill_eq_some {x : ε} (h : c.kill M t x = some c') :
    ∃ th, c.threads[t]? = some th ∧ c'.world = c.world ∧
      c'.threads = c.threads.set t { th with prog := .raised x, session := M.fresh } := by
  unfold kill at h
  cases hth : c.threads[t]? with
  | none => simp [hth] at h
  | some th =>
    simp only [hth, Option.some.injEq] at h
    subst h
    exact ⟨th, rfl, rfl, rfl⟩

/-- A thread that is not blocked can make its next call. -/
theorem call_isSome {th : Thread I ε α S Org} {e : I.Op} {k : Except ε (I.Resp e) → Prog I ε α}
    (hth : c.threads[t]? = some th) (hp : th.prog = .call e k)
    (hb : M.blocked (c.others t) c.world th.session e = false) (o : O) :
    (c.call M t o).isSome = true := by
  unfold call
  simp only [hth, hp, hb, Bool.false_eq_true, if_false, Option.isSome_some]

/-- The sessions that `t` sees are those of the other threads. -/
theorem mem_others_iff {s : S} :
    s ∈ c.others t ↔ ∃ u th, u ≠ t ∧ c.threads[u]? = some th ∧ th.session = s := by
  unfold others
  rw [List.mem_map]
  constructor
  · rintro ⟨th, hth, hs⟩
    obtain ⟨u, hu, hth⟩ := List.mem_eraseIdx_iff_getElem?.mp hth
    exact ⟨u, th, hu, hth, hs⟩
  · rintro ⟨u, th, hu, hth, hs⟩
    exact ⟨th, List.mem_eraseIdx_iff_getElem?.mpr ⟨u, hu, hth⟩, hs⟩

/-- A thread other than `t` is seen by `t`. -/
theorem mem_others {u : ℕ} {th : Thread I ε α S Org} (h : c.threads[u]? = some th) (hu : u ≠ t) :
    th.session ∈ c.others t := mem_others_iff.mpr ⟨u, th, hu, h, rfl⟩

end Pool

/-! ### Places of a list -/

section Places

variable {τ : Type} {l : List τ} {t u : ℕ} {x y : τ}

/-- What is at a place after one place was set. -/
theorem getElem?_set_cases (h : (l.set u y)[t]? = some x) :
    (t = u ∧ x = y) ∨ (t ≠ u ∧ l[t]? = some x) := by
  rw [List.getElem?_set] at h
  split_ifs at h with hut
  · cases h
    exact Or.inl ⟨hut.symm, rfl⟩
  · exact Or.inr ⟨Ne.symm hut, h⟩

/-- What is at a place after one thing was appended. -/
theorem getElem?_append_cases (h : (l ++ [y])[t]? = some x) :
    (t < l.length ∧ l[t]? = some x) ∨ (t = l.length ∧ x = y) := by
  rw [List.getElem?_append] at h
  split_ifs at h with hlt
  · exact Or.inl ⟨hlt, h⟩
  · rw [List.getElem?_singleton] at h
    split_ifs at h with hzero
    cases h
    exact Or.inr ⟨by omega, rfl⟩

end Places

/-! ### Threads two by two -/

section Apart

variable {τ : Type} {R : τ → τ → Prop} {l : List τ}

/-- Different places of the list hold related things. -/
def Apart (R : τ → τ → Prop) (l : List τ) : Prop :=
  ∀ (i j : ℕ) (x y : τ), i ≠ j → l[i]? = some x → l[j]? = some y → R x y

theorem Apart.nil : Apart R [] := fun _ _ _ _ _ h => nomatch h

/-- Replacing one thing by another that is related to all the others. -/
theorem Apart.set (hsymm : ∀ x y, R x y → R y x) (h : Apart R l) {t : ℕ} {x' : τ}
    (h' : ∀ u y, u ≠ t → l[u]? = some y → R x' y) : Apart R (l.set t x') := by
  intro i j x y hij hi hj
  rcases getElem?_set_cases hi with ⟨rfl, rfl⟩ | ⟨-, hi'⟩
  · rcases getElem?_set_cases hj with ⟨rfl, -⟩ | ⟨hjt, hj⟩
    · exact absurd rfl hij
    · exact h' j y hjt hj
  · rcases getElem?_set_cases hj with ⟨rfl, rfl⟩ | ⟨-, hj⟩
    · exact hsymm _ _ (h' i x hij hi')
    · exact h i j x y hij hi' hj

/-- Appending a thing that is related to all the others. -/
theorem Apart.append (hsymm : ∀ x y, R x y → R y x) (h : Apart R l) {x' : τ}
    (h' : ∀ y ∈ l, R x' y) : Apart R (l ++ [x']) := by
  intro i j x y hij hi hj
  rcases getElem?_append_cases hi with ⟨-, hx⟩ | ⟨hilen, rfl⟩
  · rcases getElem?_append_cases hj with ⟨-, hy⟩ | ⟨-, rfl⟩
    · exact h i j x y hij hx hy
    · exact hsymm _ _ (h' x (List.mem_of_getElem? hx))
  · rcases getElem?_append_cases hj with ⟨-, hy⟩ | ⟨hjlen, -⟩
    · exact h' y (List.mem_of_getElem? hy)
    · exact absurd (hilen.trans hjlen.symm) hij

end Apart

/-! ### Replacing one thread -/

section Replace

variable {τ : Type} {l : List τ} {t : ℕ} {x y : τ}

/-- The other things of a list stay in it when one is replaced. -/
theorem mem_set_of_ne (hx : l[t]? = some x) {z : τ} (hz : z ∈ l) (hne : z ≠ x) :
    z ∈ l.set t y := by
  obtain ⟨u, hu⟩ := List.mem_iff_getElem?.mp hz
  have hut : t ≠ u := by
    rintro rfl
    rw [hx] at hu
    exact hne (Option.some.inj hu).symm
  refine List.mem_of_getElem? (i := u) ?_
  rw [List.getElem?_set_ne hut]
  exact hu

/-- How many things of a list have a property, when one is replaced. -/
theorem countP_set_add (hx : l[t]? = some x) (p : τ → Bool) :
    (l.set t y).countP p + (if p x then 1 else 0) = l.countP p + if p y then 1 else 0 := by
  obtain ⟨ht, rfl⟩ := List.getElem?_eq_some_iff.mp hx
  rw [List.countP_set ht]
  have hle : (if p l[t] then 1 else 0) ≤ l.countP p := by
    split_ifs with hp
    · exact List.countP_pos_iff.mpr ⟨_, List.getElem_mem ht, hp⟩
    · exact Nat.zero_le _
  omega

end Replace

/-! ### Threads that follow a contract -/

/-- An exit condition on the values a program finishes with; raising is always allowed. -/
def finishing (Q : α → P → Prop) (r : Except ε α) (p : P) : Prop := ∀ a, r = .ok a → Q a p

section Follows

variable {C : Contract I ε P} {Q : α → P → Prop} {p₀ : P} {th : Thread I ε α S Org}

/-- What is left of the thread's program obeys `C` from the phase its trace has reached, and
finishes with `Q`. -/
def Thread.Follows (th : Thread I ε α S Org) (C : Contract I ε P) (Q : α → P → Prop)
    (p₀ : P) : Prop :=
  th.prog.Obeys C (finishing Q) (C.run p₀ th.trace)

/-- The next call of a thread that follows a contract is allowed. -/
theorem Thread.Follows.allows (h : th.Follows C Q p₀) {e : I.Op}
    {k : Except ε (I.Resp e) → Prog I ε α} (hp : th.prog = .call e k) :
    C.allows (C.run p₀ th.trace) e := by
  unfold Thread.Follows at h
  rw [hp] at h
  exact h.1

/-- A thread follows its contract through a call. -/
theorem Thread.Follows.answered (h : th.Follows C Q p₀) {e : I.Op}
    {k : Except ε (I.Resp e) → Prog I ε α} (hp : th.prog = .call e k) (M : Machine I ε W S O)
    (r : Except ε (I.Resp e)) (s : S) : (th.answered M e r (k r) s).Follows C Q p₀ := by
  unfold Thread.Follows at h ⊢
  rw [hp] at h
  simp only [Thread.answered, Contract.run_append_singleton]
  exact h.2 r

/-- A thread that is cut off follows its contract. -/
theorem Thread.follows_raised {x : ε} (hp : th.prog = .raised x) : th.Follows C Q p₀ := by
  unfold Thread.Follows
  rw [hp]
  exact fun a ha => nomatch ha

/-- A thread that has finished has met the exit condition. -/
theorem Thread.Follows.done (h : th.Follows C Q p₀) {a : α} (hp : th.prog = .done a) :
    Q a (C.run p₀ th.trace) := by
  unfold Thread.Follows at h
  rw [hp] at h
  exact h a rfl

end Follows

/-! ### Runs under a condition on the steps -/

section Runs

variable {σ Act : Type}

/-- One step of a transition function, by an action that meets the condition. -/
def StepVia (step : σ → Act → Option σ) (ok : σ → Act → Prop) (s s' : σ) : Prop :=
  ∃ a, ok s a ∧ step s a = some s'

/-- The states reached by steps that all meet the condition. -/
abbrev Runs (step : σ → Act → Option σ) (ok : σ → Act → Prop) : σ → σ → Prop :=
  Relation.ReflTransGen (StepVia step ok)

variable {step : σ → Act → Option σ} {ok ok' : σ → Act → Prop} {s₀ s : σ}

/-- The invariant rule: what holds at the start, and is kept by every step from a state the run
has reached, holds throughout. -/
theorem Runs.invariant {J : σ → Prop} (hr : Runs step ok s₀ s) (h₀ : J s₀)
    (hstep : ∀ s a s', Runs step ok s₀ s → J s → ok s a → step s a = some s' → J s') :
    J s := by
  induction hr with
  | refl => exact h₀
  | tail hr h ih =>
    obtain ⟨a, ha, hs⟩ := h
    exact hstep _ a _ hr ih ha hs

/-- A condition may be replaced by one that it implies at every state the run has reached. -/
theorem Runs.mono (hr : Runs step ok s₀ s)
    (himp : ∀ s a, Runs step ok s₀ s → ok s a → ok' s a) : Runs step ok' s₀ s := by
  induction hr with
  | refl => exact .refl
  | tail hr h ih =>
    obtain ⟨a, ha, hs⟩ := h
    exact ih.tail ⟨a, himp _ _ hr ha, hs⟩

/-- The transition function that notes something about each step it makes. -/
def recording {ρ : Type} (step : σ → Act → Option σ) (note : σ → Act → ρ) (x : σ × List ρ)
    (a : Act) : Option (σ × List ρ) :=
  (step x.1 a).map fun s => (s, x.2 ++ [note x.1 a])

section recording

variable {ρ : Type} {note : σ → Act → ρ} {x y : σ × List ρ} {a : Act}

theorem recording_eq_some (h : recording step note x a = some y) :
    step x.1 a = some y.1 ∧ y.2 = x.2 ++ [note x.1 a] := by
  obtain ⟨s, hs, rfl⟩ := Option.map_eq_some_iff.mp h
  exact ⟨hs, rfl⟩

/-- A run that takes notes is a run. -/
theorem Runs.unrecorded {okNoting : σ × List ρ → Act → Prop}
    (hr : Runs (recording step note) okNoting x y) (himp : ∀ x a, okNoting x a → ok x.1 a) :
    Runs step ok x.1 y.1 := by
  induction hr with
  | refl => exact .refl
  | tail _ h ih =>
    obtain ⟨a, ha, hs⟩ := h
    exact ih.tail ⟨a, himp _ _ ha, (recording_eq_some hs).1⟩

end recording

/-- Some step between two states of a run has this property. -/
def Happened (step : σ → Act → Option σ) (ok : σ → Act → Prop) (s₀ s : σ)
    (E : σ → Act → σ → Prop) : Prop :=
  ∃ s₁ a s₂, Runs step ok s₀ s₁ ∧ step s₁ a = some s₂ ∧ E s₁ a s₂ ∧ Runs step ok s₂ s

section Happened

variable {E : σ → Act → σ → Prop} {s' : σ} {a : Act}

/-- It has just happened. -/
theorem Happened.now (hr : Runs step ok s₀ s) (hs : step s a = some s') (h : E s a s') :
    Happened step ok s₀ s' E := ⟨s, a, s', hr, hs, h, .refl⟩

/-- What has happened has happened after another step, too. -/
theorem Happened.later (h : Happened step ok s₀ s E) (ha : ok s a) (hs : step s a = some s') :
    Happened step ok s₀ s' E := by
  obtain ⟨s₁, a₁, s₂, hr, hs₁, hE, hr'⟩ := h
  exact ⟨s₁, a₁, s₂, hr, hs₁, hE, hr'.tail ⟨a, ha, hs⟩⟩

end Happened

/-- Run a list of actions, as long as they meet the condition. -/
def runActs (step : σ → Act → Option σ) (ok : σ → Act → Bool) : σ → List Act → Option σ
  | s, [] => some s
  | s, a :: as => if ok s a then (step s a).bind fun s' => runActs step ok s' as else none

/-- Running a list of actions is a run. -/
theorem runs_of_runActs {b : σ → Act → Bool} (hb : ∀ s a, b s a = true → ok s a) :
    ∀ (as : List Act) (s s' : σ), runActs step b s as = some s' → Runs step ok s s'
  | [], s, s', h => by
    cases h
    exact .refl
  | a :: as, s, s', h => by
    rw [runActs] at h
    split_ifs at h with ha
    obtain ⟨x, hx, h⟩ := Option.bind_eq_some_iff.mp h
    exact .head ⟨a, hb s a ha, hx⟩ (runs_of_runActs hb as x s' h)

/-- A list of actions that can be run and ends in a state with `p`. -/
theorem exists_run (ok : σ → Act → Prop) {b : σ → Act → Bool}
    (hb : ∀ s a, b s a = true → ok s a) {as : List Act} {p : σ → Bool}
    (h : (runActs step b s as).any p = true) :
    ∃ s', Runs step ok s s' ∧ p s' = true := by
  obtain ⟨s', hs', hp⟩ := (Option.any_eq_true _ _).mp h
  exact ⟨s', runs_of_runActs hb as s s' hs', hp⟩

end Runs

end Effect

import WebhookRelay.Circuit.NeverStuck

/-!
# The transitions of a circuit

The methods read the state of a circuit and write it later, without looking again. `Fresh` says
that such a write finds the circuit as the call has read it; along steps that meet it the state
changes only along the edges of the diagram, and OPEN turns HALF_OPEN only when the recovery
timeout is over (`transitions_lawful`). A write on a stale read can take any circuit anywhere
(`closed_turns_halfOpen`).
-/

namespace WebhookRelay

open Data Data.Redis Effect

namespace CircuitBreaker

variable {cb : CircuitBreaker} {c c' : Config} {a : Action} {ok : Config → Action → Prop}

/-! ### The diagram -/

/-- The edges of the diagram, resets aside. -/
inductive Edge : CircuitState → CircuitState → Prop where
  | trip : Edge .closed .opened
  | recover : Edge .opened .halfOpen
  | close : Edge .halfOpen .closed
  | retrip : Edge .halfOpen .opened

/-- A step that changes the state of a circuit, if it does, along an edge or by a reset, and from
OPEN to HALF_OPEN only when the recovery timeout is over since the opening that set the time of
opening. An absent state counts as CLOSED. -/
structure Lawful (cb : CircuitBreaker) (id : Str) (c : Config) (a : Action) (c' : Config) :
    Prop where
  edge : (Circuit.of c'.world id).mode = (Circuit.of c.world id).mode ∨
    Edge (Circuit.of c.world id).mode (Circuit.of c'.world id).mode ∨
    ((Circuit.of c'.world id).state = none ∧
      ∃ t th, a = .call t ∧ c.threads[t]? = some th ∧ th.origin = ⟨id, .reset⟩)
  recovered : (Circuit.of c.world id).mode = .opened → (Circuit.of c'.world id).mode = .halfOpen →
    ∃ q, (Circuit.of c.world id).openedAt = some q ∧ Opening c.world.journal id q ∧
      (cb.recoveryTimeout : ℚ) < c.world.now - q

/-! ### Fresh writes -/

/-- What the call is about to write agrees with the circuit as it is: HALF_OPEN is written on the
opening that the call has read or on HALF_OPEN, and CLOSED is not written on OPEN. -/
def Phase.fresh (o : Origin) (C : Circuit) : Phase → Bool
  | .waking _ openedAt _ =>
    decide (C.mode = .halfOpen ∨ C.mode = .opened ∧ C.openedAt = some openedAt)
  | .saw _ s => decide (o.call = .recordSuccess → s = .halfOpen → C.mode ≠ .opened)
  | _ => true

/-- The steps at which no call writes on a stale read. -/
def Fresh (cb : CircuitBreaker) (c : Config) : Action → Prop
  | .call t => ∀ th ∈ c.threads[t]?,
    (Caller.phase cb th).fresh th.origin (.of c.world th.origin.endpoint) = true
  | _ => True

instance (cb : CircuitBreaker) (c : Config) (a : Action) : Decidable (Fresh cb c a) :=
  match a with
  | .call t => inferInstanceAs (Decidable (∀ th ∈ c.threads[t]?, _ = true))
  | .start _ => inferInstanceAs (Decidable True)
  | .tick _ => inferInstanceAs (Decidable True)

/-- A call that is about to write HALF_OPEN has found the recovery timeout over. -/
def Phase.Timed (cb : CircuitBreaker) (now : ℚ) (p : Phase) : Prop :=
  ∀ n q t, p = .waking n q t → (cb.recoveryTimeout : ℚ) < t - q ∧ t ≤ now

/-- The phase after an await writes HALF_OPEN only when the recovery timeout is over. -/
theorem Phase.timed_advance {o : Origin} {C : Circuit} {now : ℚ} (p : Phase) :
    (p.advance cb o C now).Timed cb now := by
  intro n q t h
  have hadv := p.advanced cb o C now
  rw [h] at hadv
  cases hadv with
  | elapsed _ _ hover => exact ⟨hover, le_rfl⟩

/-- In every reachable state, a call that is about to write HALF_OPEN has found the recovery
timeout over. -/
theorem Reaches.timed (h : Reaches cb ok c) :
    ∀ th ∈ c.threads, (Caller.phase cb th).Timed cb c.world.now := by
  refine (h.invariant (J := fun c => ∀ th ∈ c.threads, (Caller.phase cb th).Timed cb c.world.now)
    (fun now th hth => (nomatch hth)) ?_).2
  intro c a c' _ _ hc _ hm
  refine hm.forall_phases (P := fun _ p => p.Timed cb c.world.now)
    (Q := fun _ p => p.Timed cb c'.world.now) hc ?_ ?_ ?_
  · intro o p hp n q t hwaking
    exact ⟨(hp n q t hwaking).1, (hp n q t hwaking).2.trans hm.now_le⟩
  · intro o n q t hstart
    rcases Phase.start_cases o with ⟨-, h⟩ | ⟨-, h⟩ | ⟨-, -, h⟩ <;> cases h.symm.trans hstart
  · intro o p _ _ n q t hnext
    obtain ⟨hover, hle⟩ := p.timed_advance n q t hnext
    exact ⟨hover, hle.trans hm.now_le⟩

/-! ### Transitions -/

/-- The state after a fresh change. -/
theorem edge_apply (cb : CircuitBreaker) (now : ℚ) {o : Origin} {C : Circuit} {p : Phase}
    {x : Change} (hx : p.change o = some x) (hfresh : p.fresh o C = true) :
    (C.apply cb now x).mode = C.mode ∨ Edge C.mode (C.apply cb now x).mode ∨
      (p = .resetting ∧ (C.apply cb now x).state = none) := by
  rcases Phase.change_cases hx with ⟨-, rfl⟩ | ⟨n, q, t, rfl, rfl⟩ | ⟨n, rfl, ho, rfl⟩ |
    ⟨n, s, t, rfl, rfl⟩ | ⟨-, rfl⟩ | ⟨hp, rfl⟩
  · exact Or.inl rfl
  · change (CircuitState.halfOpen = _) ∨ Edge _ .halfOpen ∨ _
    rcases of_decide_eq_true hfresh with hhalf | ⟨hopen, -⟩
    · exact Or.inl hhalf.symm
    · rw [hopen]
      exact Or.inr (Or.inl .recover)
  · change (CircuitState.closed = _) ∨ Edge _ .closed ∨ _
    have hne : C.mode ≠ .opened := of_decide_eq_true hfresh ho rfl
    cases hmode : C.mode with
    | closed => exact Or.inl rfl
    | opened => exact absurd hmode hne
    | halfOpen => exact Or.inr (Or.inl .close)
  · change (CircuitState.opened = _) ∨ Edge _ .opened ∨ _
    cases C.mode with
    | closed => exact Or.inr (Or.inl .trip)
    | opened => exact Or.inl rfl
    | halfOpen => exact Or.inr (Or.inl .retrip)
  · exact Or.inl rfl
  · exact Or.inr (Or.inr ⟨hp, rfl⟩)

/-- Only a write of HALF_OPEN turns an OPEN circuit HALF_OPEN. -/
theorem waking_of_halfOpen {o : Origin} {C : Circuit} {p : Phase} {x : Change} {now : ℚ}
    (hx : p.change o = some x) (hopen : C.mode = .opened)
    (hhalf : (C.apply cb now x).mode = .halfOpen) : ∃ n q t, p = .waking n q t := by
  rcases Phase.change_cases hx with ⟨-, rfl⟩ | ⟨n, q, t, hp, -⟩ | ⟨-, -, -, rfl⟩ |
    ⟨_, _, _, -, rfl⟩ | ⟨-, rfl⟩ | ⟨-, rfl⟩
  · cases hopen.symm.trans hhalf
  · exact ⟨n, q, t, hp⟩
  · cases hhalf
  · cases hhalf
  · cases hopen.symm.trans hhalf
  · cases hhalf

/-- **Fresh steps change a circuit along its diagram**: in every run whose steps all find the
circuits as the calls have read them, every step is lawful for every endpoint. -/
theorem transitions_lawful (h : Reaches cb (Fresh cb) c) (hok : Fresh cb c a)
    (hs : step cb c a = some c') (id : Str) : Lawful cb id c a c' := by
  have hsound := h.sound
  obtain hsame | ⟨t, th, x, rfl, hth, hx, hw⟩ := (hsound.moved hs).world
  · have hcircuit := of_later hsame id
    refine ⟨Or.inl (by rw [hcircuit]), fun hopen hhalf => ?_⟩
    rw [hcircuit, hopen] at hhalf
    cases hhalf
  · have hcircuit := of_changed cb th.origin.endpoint hsound.tidy (some x) id
    rw [← hw] at hcircuit
    by_cases hid : id = th.origin.endpoint
    · subst hid
      rw [if_pos rfl] at hcircuit
      have hfresh := hok th hth
      refine ⟨?_, fun hopen hhalf => ?_⟩
      · rw [hcircuit]
        rcases edge_apply cb c.world.now hx hfresh with hmode | hedge | hreset
        · exact Or.inl hmode
        · exact Or.inr (Or.inl hedge)
        · have hcall := h.fits th (List.mem_of_getElem? hth)
          rw [hreset.1] at hcall
          have hcall : th.origin.call = .reset := hcall
          exact Or.inr (Or.inr ⟨hreset.2, t, th, rfl, hth, by rw [← hcall]⟩)
      · rw [hcircuit] at hhalf
        obtain ⟨n, q, τ, hwaking⟩ := waking_of_halfOpen hx hopen hhalf
        rw [hwaking] at hfresh
        obtain ⟨hover, hle⟩ := h.timed th (List.mem_of_getElem? hth) n q τ hwaking
        have hq : (Circuit.of c.world th.origin.endpoint).openedAt = some q := by
          rcases of_decide_eq_true hfresh with hhalf' | ⟨-, hq⟩
          · cases hopen.symm.trans hhalf'
          · exact hq
        refine ⟨q, hq, h.dated.opening _ q hq, ?_⟩
        linarith
    · rw [if_neg hid] at hcircuit
      refine ⟨Or.inl (by rw [hcircuit]), fun hopen hhalf => ?_⟩
      rw [hcircuit, hopen] at hhalf
      cases hhalf

/-- Two failures open the circuit, and after the recovery timeout a call turns it HALF_OPEN. -/
theorem transitions_lawful_of_recovery : ∃ c c', Reaches sampleBreaker (Fresh sampleBreaker) c ∧
    step sampleBreaker c (.call 2) = some c' ∧
    (Circuit.of c.world sampleEndpoint).mode = .opened ∧
    (Circuit.of c'.world sampleEndpoint).mode = .halfOpen ∧
    Lawful sampleBreaker sampleEndpoint c (.call 2) c' := by
  have hrun : (runActs (step sampleBreaker) (fun c a => decide (Fresh sampleBreaker c a))
      (initial 0) (sampleCall 0 2 .recordFailure ++ sampleCall 1 4 .recordFailure ++
        .tick 301 :: sampleCall 2 3 .isAllowed)).any
        (fun c => decide (Fresh sampleBreaker c (.call 2) ∧
            (Circuit.of c.world sampleEndpoint).mode = .opened) &&
          (step sampleBreaker c (.call 2)).any fun c' =>
            decide ((Circuit.of c'.world sampleEndpoint).mode = .halfOpen)) = true := by
    decide +kernel
  obtain ⟨c, hc, hfacts⟩ := exists_run (Fresh sampleBreaker) (fun _ _ => of_decide_eq_true) hrun
  obtain ⟨hbefore, hafter⟩ := Bool.and_eq_true_iff.mp hfacts
  obtain ⟨hfresh, hopen⟩ := of_decide_eq_true hbefore
  obtain ⟨c', hs, hhalf⟩ := (Option.any_eq_true _ _).mp hafter
  exact ⟨c, c', ⟨0, hc⟩, hs, hopen, of_decide_eq_true hhalf,
    transitions_lawful ⟨0, hc⟩ hfresh hs sampleEndpoint⟩

/-- A worker finds the recovery timeout over; before it writes HALF_OPEN, another one has turned
the circuit HALF_OPEN and, after a success, CLOSED. The first one's write then turns the CLOSED
circuit HALF_OPEN. -/
theorem closed_turns_halfOpen : ∃ c c', Reaches sampleBreaker anyStep c ∧
    step sampleBreaker c (.call 2) = some c' ∧
    (Circuit.of c.world sampleEndpoint).mode = .closed ∧
    (Circuit.of c'.world sampleEndpoint).mode = .halfOpen ∧
    ¬ Lawful sampleBreaker sampleEndpoint c (.call 2) c' := by
  have hrun : (runActs (step sampleBreaker) (fun _ _ => true) (initial 0)
      (sampleCall 0 2 .recordFailure ++ sampleCall 1 4 .recordFailure ++
        .tick 301 :: sampleCall 2 3 .isAllowed ++ sampleCall 3 6 .recordSuccess)).any
        (fun c => decide ((Circuit.of c.world sampleEndpoint).mode = .closed) &&
          (step sampleBreaker c (.call 2)).any fun c' =>
            decide ((Circuit.of c'.world sampleEndpoint).state = some .halfOpen)) = true := by
    decide +kernel
  obtain ⟨c, hc, hfacts⟩ := exists_run anyStep (fun _ _ _ => trivial) hrun
  obtain ⟨hbefore, hafter⟩ := Bool.and_eq_true_iff.mp hfacts
  have hclosed := of_decide_eq_true hbefore
  obtain ⟨c', hs, hhalf⟩ := (Option.any_eq_true _ _).mp hafter
  have hstate := of_decide_eq_true hhalf
  have hmode : (Circuit.of c'.world sampleEndpoint).mode = .halfOpen := by
    unfold Circuit.mode
    rw [hstate]
    rfl
  refine ⟨c, c', ⟨0, hc⟩, hs, hclosed, hmode, fun h => ?_⟩
  rcases h.edge with hsame | hedge | ⟨hnone, -⟩
  · rw [hmode, hclosed] at hsame
    cases hsame
  · rw [hmode, hclosed] at hedge
    cases hedge
  · rw [hstate] at hnone
    cases hnone

end CircuitBreaker

end WebhookRelay

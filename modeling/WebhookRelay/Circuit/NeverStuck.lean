import WebhookRelay.Circuit.Alone
import Mathlib.Tactic.Linarith
import Mathlib.Tactic.NormNum

/-!
# An OPEN circuit always says when it was opened

Whatever the calls do to each other, a stored OPEN comes with the time of an opening
(`Reaches.dated`), so a circuit that is OPEN lets a call through once the recovery timeout is over
(`never_stuck_open`).
-/

namespace WebhookRelay

open Data Data.Redis Effect

namespace CircuitBreaker

variable {cb : CircuitBreaker} {c c' : Config} {a : Action} {ok : Config → Action → Prop}

/-- What the circuits and the calls under way know about openings. -/
structure Dated (cb : CircuitBreaker) (c : Config) : Prop where
  /-- An OPEN circuit has a time of opening. -/
  isSome : ∀ id, (Circuit.of c.world id).mode = .opened → (Circuit.of c.world id).openedAt.isSome
  /-- A time of opening is that of an opening. -/
  opening : ∀ id q, (Circuit.of c.world id).openedAt = some q → Opening c.world.journal id q
  /-- A call that is about to open a circuit has read its clock in the past. -/
  past : ∀ th ∈ c.threads, ∀ n s now, Caller.phase cb th = .opening n s now → now ≤ c.world.now

/-- A change keeps the time of opening with an OPEN state. -/
theorem isSome_apply {C : Circuit} (h : C.mode = .opened → C.openedAt.isSome) (now : ℚ)
    (x : Change) (hmode : (C.apply cb now x).mode = .opened) :
    (C.apply cb now x).openedAt.isSome := by
  rcases x with _ | ⟨_ | _ | _, t⟩ | _ | _
  · exact h hmode
  · cases hmode
  · rfl
  · cases hmode
  · exact h hmode
  · cases hmode

/-- A time of opening is an old one, or that of this opening. -/
theorem openedAt_apply {C : Circuit} {now q : ℚ} {x : Change}
    (h : (C.apply cb now x).openedAt = some q) : C.openedAt = some q ∨ x = .turn .opened q := by
  rcases x with _ | ⟨_ | _ | _, t⟩ | _ | _
  · exact Or.inl h
  · cases h
  · cases h
    exact Or.inr rfl
  · exact Or.inl h
  · exact Or.inl h
  · cases h

/-- The phase after an await opens a circuit only with the clock just read. -/
theorem Phase.advance_opening {o : Origin} {C : Circuit} {now t : ℚ} {p : Phase} {n : Option ℤ}
    {s : CircuitState} (h : p.advance cb o C now = .opening n s t) : t = now := by
  have hadv := p.advanced cb o C now
  rw [h] at hadv
  cases hadv with
  | clocked => rfl

/-- A move keeps what is known about openings. -/
theorem Dated.moved (h : Dated cb c) (hsound : Sound cb c) (hm : Moved cb c a c') :
    Dated cb c' := by
  refine ⟨fun id => ?_, fun id q hq => ?_, ?_⟩
  · obtain hsame | ⟨t, th, x, rfl, hth, hx, hw⟩ := hm.world
    · rw [of_later hsame]
      exact h.isSome id
    · rw [hw, of_changed cb _ hsound.tidy]
      split_ifs with hid
      · exact isSome_apply (h.isSome id) _ x
      · exact h.isSome id
  · obtain hsame | ⟨t, th, x, rfl, hth, hx, hw⟩ := hm.world
    · rw [of_later hsame] at hq
      exact (h.opening id q hq).mono hm.journal_prefix
    · rw [hw, of_changed cb _ hsound.tidy] at hq
      split_ifs at hq with hid
      · subst hid
        rcases openedAt_apply hq with hold | rfl
        · exact (h.opening _ q hold).mono hm.journal_prefix
        · -- the opening of this move
          obtain ⟨n, s, hp⟩ : ∃ n s, Caller.phase cb th = .opening n s q := by
            rcases Phase.change_cases hx with ⟨-, hx⟩ | ⟨-, -, -, -, hx⟩ | ⟨-, -, -, hx⟩ |
              ⟨n, s, t, hp, hx⟩ | ⟨-, hx⟩ | ⟨-, hx⟩ <;> cases hx
            exact ⟨n, s, hp⟩
          refine ⟨c.world.now, ?_, h.past th (List.mem_of_getElem? hth) n s q hp⟩
          rw [hw]
          exact List.mem_append_right _ (List.mem_singleton.mpr rfl)
      · exact (h.opening id q hq).mono hm.journal_prefix
  · refine hm.forall_phases (P := fun _ p => ∀ n s now, p = .opening n s now → now ≤ c.world.now)
      (Q := fun _ p => ∀ n s now, p = .opening n s now → now ≤ c'.world.now) h.past
      (fun o p hp n s now hq => (hp n s now hq).trans hm.now_le) ?_ ?_
    · intro o n s now hstart
      rcases Phase.start_cases o with ⟨-, h⟩ | ⟨-, h⟩ | ⟨-, -, h⟩ <;> cases h.symm.trans hstart
    · intro o p _ _ n s now hnext
      rw [Phase.advance_opening hnext]
      exact hm.now_le

/-- **In every reachable state, an OPEN circuit says when it was opened.** -/
theorem Reaches.dated (h : Reaches cb ok c) : Dated cb c := by
  refine (h.invariant (J := Dated cb) ?_ ?_).2
  · intro now
    refine ⟨fun id hopen => ?_, fun id q hq => ?_, fun th hth => (nomatch hth)⟩
    · rw [show Circuit.of (initial now).world id = .fresh from (Holds.empty id).ofKeys] at hopen
      cases hopen
    · rw [show Circuit.of (initial now).world id = .fresh from (Holds.empty id).ofKeys] at hq
      cases hq
  · intro c a c' _ hsound hdated _ hm
    exact hdated.moved hsound hm

/-! ### The keys -/

/-- What `GET` of the state says about the circuit. -/
theorem Tidy.get_stateKey {s : Server} (h : Tidy s) (id : Str) :
    s.get (stateKey id) = (Circuit.of s id).state.map fun state => .text state.value :=
  (h id).live_state s.now

/-- What `GET` of the time of opening says about the circuit. -/
theorem Tidy.get_openedAtKey {s : Server} (h : Tidy s) (id : Str) :
    s.get (openedAtKey id) = (Circuit.of s id).openedAt.map Value.float :=
  (h id).live_openedAt s.now

/-- The stored state is this one. -/
theorem Tidy.get_stateKey_eq_some {s : Server} (h : Tidy s) {id : Str} {state : CircuitState} :
    s.get (stateKey id) = some (.text state.value) ↔ (Circuit.of s id).state = some state := by
  rw [h.get_stateKey, Option.map_eq_some_iff]
  constructor
  · rintro ⟨state', hs, hv⟩
    rw [hs, CircuitState.value_inj.mp (Value.text.inj hv)]
  · intro hs
    exact ⟨state, hs, rfl⟩

/-! ### The recovery of an OPEN circuit -/

/-- `is_allowed` on its own, after the recovery timeout. -/
theorem allowed_of_expired {s s' : Server} {id : Str} {q : ℚ} {r : Except Exn Answer}
    (hs : Tidy s) (hopen : (Circuit.of s id).mode = .opened)
    (hq : (Circuit.of s id).openedAt = some q) (hnow : (cb.recoveryTimeout : ℚ) < s.now - q)
    (h : ((⟨id, .isAllowed⟩ : Origin).program cb).Executes Server.Later exec s r s') :
    r = .ok (.allowed true) := by
  obtain ⟨i, answer, rfl, hran⟩ := executes_run h hs
  have hlook : (cb.recoveryTimeout : ℚ) < i.look - q := by
    have hle := hran.now_le.trans hran.count_le
    linarith
  have hexp : (Circuit.of s id).expired cb i.look = true := by
    simp [Circuit.expired, hopen, hq, hlook]
  rw [hran.answer]
  unfold Circuit.run Circuit.seen
  simp [hexp]

/-- **A circuit is never stuck open**: in every reachable state, an endpoint whose stored state is
OPEN has a stored time of opening, which is that of an opening in the past, and `is_allowed` on its
own lets a call through once the recovery timeout is over since then. -/
theorem never_stuck_open (h : Reaches cb anyStep c) {id : Str}
    (hopen : c.world.get (stateKey id) = some (.text CircuitState.opened.value)) :
    ∃ q, c.world.get (openedAtKey id) = some (.float q) ∧ Opening c.world.journal id q ∧
      ∀ s, c.world.Later s → (cb.recoveryTimeout : ℚ) < s.now - q →
        (∃ r s', ((⟨id, .isAllowed⟩ : Origin).program cb).Executes Server.Later exec s r s') ∧
        ∀ r s', ((⟨id, .isAllowed⟩ : Origin).program cb).Executes Server.Later exec s r s' →
          r = .ok (.allowed true) := by
  have htidy := h.sound.tidy
  have hstate := htidy.get_stateKey_eq_some.mp hopen
  have hmode : (Circuit.of c.world id).mode = .opened := by
    unfold Circuit.mode
    rw [hstate]
    rfl
  obtain ⟨q, hq⟩ := Option.isSome_iff_exists.mp (h.dated.isSome id hmode)
  refine ⟨q, ?_, h.dated.opening id q hq, fun s hlater hnow => ⟨?_, fun r s' hrun => ?_⟩⟩
  · rw [htidy.get_openedAtKey, hq]
    rfl
  · exact ⟨_, _, Prog.executes_drive (I := redis) Server.Later.refl exec
      ((⟨id, .isAllowed⟩ : Origin).program cb) s⟩
  · refine allowed_of_expired (htidy.of_keyspace hlater.keyspace) ?_ ?_ hnow hrun
    · rw [of_later hlater]
      exact hmode
    · rw [of_later hlater]
      exact hq

/-! ### An example -/

/-- A circuit breaker that opens at the second failure. -/
def sampleBreaker : CircuitBreaker := ⟨2, 60, 300⟩

/-- An endpoint. -/
def sampleEndpoint : Str := Str.lit "e"

/-- A call for the endpoint starts as thread `t` and makes its first `n` awaits. -/
def sampleCall (t n : ℕ) (call : Call) : List Action :=
  .start ⟨sampleEndpoint, call⟩ :: List.replicate n (.call t)

/-- Two failures at the times 0 and 1 open the circuit, and a call at the time 302 is allowed. -/
theorem never_stuck_open_after_failures : ∃ c, Reaches sampleBreaker anyStep c ∧
    c.world.get (stateKey sampleEndpoint) = some (.text CircuitState.opened.value) ∧
    ∀ r s', ((⟨sampleEndpoint, .isAllowed⟩ : Origin).program sampleBreaker).Executes Server.Later
      exec { c.world with now := 302 } r s' → r = .ok (.allowed true) := by
  have hrun : (runActs (step sampleBreaker) (fun _ _ => true) (initial 0)
      (sampleCall 0 2 .recordFailure ++ .tick 1 :: sampleCall 1 4 .recordFailure)).any
        (fun c => decide (c.world.now = 1 ∧
          c.world.get (stateKey sampleEndpoint) = some (.text CircuitState.opened.value) ∧
          c.world.get (openedAtKey sampleEndpoint) = some (.float 1))) = true := by
    decide +kernel
  obtain ⟨c, hc, hfacts⟩ := exists_run anyStep (fun _ _ _ => trivial) hrun
  obtain ⟨hnow, hopen, hone⟩ := of_decide_eq_true hfacts
  have hreach : Reaches sampleBreaker anyStep c := ⟨0, hc⟩
  obtain ⟨q, hq, -, hallowed⟩ := never_stuck_open hreach hopen
  rw [hone] at hq
  cases hq
  refine ⟨c, hreach, hopen, (hallowed { c.world with now := 302 } ⟨rfl, ?_⟩ ?_).2⟩
  · rw [hnow]
    norm_num
  · norm_num [sampleBreaker]

end CircuitBreaker

end WebhookRelay

import WebhookRelay.Circuit.Sequences

/-!
# The eager machine

The circuit breaker stores the state of a circuit and turns OPEN into HALF_OPEN only when some call
looks. `Breaker` is the machine it stands for, one for each endpoint, which turns HALF_OPEN by
itself and whose counter expires by itself (`Breaker.elapse`). `Simulates` relates the keys to the
machine; every call of a sequence answers as the machine does (`sequence_refines`).
-/

namespace WebhookRelay

open Data Data.Redis Effect

/-! ### The machine -/

/-- The states of the machine. -/
inductive BreakerMode where
  | closed
  | opened (since : ℚ)
  | halfOpen

/-- The machine of one endpoint: its state, and its counter with the time it expires at. -/
structure Breaker where
  mode : BreakerMode
  failures : ℤ
  expires : ℚ

namespace Breaker

open CircuitBreaker

/-- The machine at the beginning. -/
def initial : Breaker := ⟨.closed, 0, 0⟩

/-- The state without its time. -/
def state (m : Breaker) : CircuitState :=
  match m.mode with
  | .closed => .closed
  | .opened _ => .opened
  | .halfOpen => .halfOpen

variable (cb : CircuitBreaker)

/-- The machine when it is `now`: the recovery timeout and the window of its counter may be over,
and a window without length holds nothing. -/
def elapse (now : ℚ) (m : Breaker) : Breaker where
  mode := match m.mode with
    | .opened since => if (cb.recoveryTimeout : ℚ) < now - since then .halfOpen else .opened since
    | mode => mode
  failures := if 0 < cb.failureWindow ∧ now ≤ m.expires then m.failures else 0
  expires := m.expires

/-- A failure is counted. -/
def increment (now : ℚ) (m : Breaker) : Breaker :=
  { m with failures := m.failures + 1, expires := now + cb.failureWindow }

/-- A call, as the machine answers it: it counts a failure at `count`, looks at its state at
`look`, and opens at `act`. -/
def perform (i : Instants) (m : Breaker) : Call → Answer × Breaker
  | .getState => (.state (m.elapse cb i.look).state, m.elapse cb i.look)
  | .isAllowed =>
    (.allowed (decide ((m.elapse cb i.look).state ≠ .opened)), m.elapse cb i.look)
  | .recordSuccess =>
    (.unit, if (m.elapse cb i.look).state = .halfOpen then initial else m.elapse cb i.look)
  | .recordFailure =>
    let counted := (m.elapse cb i.count).increment cb i.count
    let seen := counted.elapse cb i.look
    if seen.state = .closed ∧ cb.failureThreshold ≤ counted.failures ∨ seen.state = .halfOpen then
      (.state .opened, { seen with mode := .opened i.act })
    else (.state seen.state, seen)
  | .reset => (.unit, initial)

/-- The answers of the machines of all endpoints to a sequence of calls; the machine of an endpoint
is affected by the calls for it alone, and by time. -/
def answers (m : Str → Breaker) : List (Origin × Instants) → List Answer
  | [] => []
  | (o, i) :: calls =>
    ((m o.endpoint).perform cb i o.call).1 ::
      answers (Function.update (fun id => (m id).elapse cb i.act) o.endpoint
        ((m o.endpoint).perform cb i o.call).2) calls

end Breaker

namespace CircuitBreaker

variable {cb : CircuitBreaker} {o : Origin} {s s' : Server}

/-! ### The simulation -/

/-- The keys of an endpoint at the time `t` stand for the machine: an OPEN circuit whose recovery
timeout is over may stand for HALF_OPEN. -/
structure Simulates (cb : CircuitBreaker) (t : ℚ) (C : Circuit) (m : Breaker) : Prop where
  mode : match m.mode with
    | .closed => C.mode = .closed
    | .opened since => C.mode = .opened ∧ C.openedAt = some since
    | .halfOpen => C.mode = .halfOpen ∨ C.expired cb t = true
  failures : ∀ now, t ≤ now →
    C.failures now = if 0 < cb.failureWindow ∧ now ≤ m.expires then m.failures else 0

variable {t now : ℚ} {C : Circuit} {m : Breaker}

theorem simulates_initial (t : ℚ) (state : Option CircuitState)
    (hstate : state.getD .closed = .closed) :
    Simulates cb t ⟨state, none, none⟩ .initial :=
  ⟨hstate, fun _ _ => (ite_self _).symm⟩

/-- The recovery timeout of an OPEN circuit stays over. -/
theorem expired_mono (h : C.expired cb t = true) (hle : t ≤ now) : C.expired cb now = true := by
  unfold Circuit.expired at h ⊢
  obtain ⟨hopen, hover⟩ := Bool.and_eq_true_iff.mp h
  refine Bool.and_eq_true_iff.mpr ⟨hopen, ?_⟩
  obtain ⟨q, hq, hlt⟩ := (Option.any_eq_true _ _).mp hover
  refine (Option.any_eq_true _ _).mpr ⟨q, hq, decide_eq_true ?_⟩
  exact (of_decide_eq_true hlt).trans_le (sub_le_sub_right hle q)

/-- Time passes. -/
theorem Simulates.mono (h : Simulates cb t C m) (hle : t ≤ now) : Simulates cb now C m := by
  refine ⟨?_, fun now' hnow => h.failures now' (hle.trans hnow)⟩
  have hmode := h.mode
  split at hmode
  · exact hmode
  · exact hmode
  · exact hmode.imp_right fun hexp => expired_mono hexp hle

/-- The counter of the machine, when time has passed. -/
theorem Simulates.failures_elapse (h : Simulates cb t C m) (hle : t ≤ now) :
    (m.elapse cb now).failures = C.failures now := (h.failures now hle).symm

/-- When the counter of the machine has expired, it stays so. -/
theorem Simulates.failures_later (h : Simulates cb t C m) (hle : t ≤ now) :
    ∀ now', now ≤ now' → C.failures now' =
      if 0 < cb.failureWindow ∧ now' ≤ (m.elapse cb now).expires then
        (m.elapse cb now).failures else 0 := by
  intro now' hnow
  rw [h.failures now' (hle.trans hnow)]
  change _ = if 0 < cb.failureWindow ∧ now' ≤ m.expires then
    (if 0 < cb.failureWindow ∧ now ≤ m.expires then m.failures else 0) else 0
  split_ifs with h₁ h₂
  · rfl
  · exact absurd ⟨h₁.1, hnow.trans h₁.2⟩ h₂
  · rfl

/-- **Looking at a circuit**: the state that is seen is that of the machine, and the keys that are
left stand for the machine. -/
theorem Simulates.looked (h : Simulates cb t C m) (hle : t ≤ now) :
    C.seen cb now = (m.elapse cb now).state ∧
      Simulates cb now (C.looked cb now) (m.elapse cb now) := by
  have hfailures := h.failures_later hle
  have hcount : (C.looked cb now).failures = C.failures := by
    unfold Circuit.looked
    split_ifs <;> rfl
  have hmode := h.mode
  obtain ⟨mode, failures, expires⟩ := m
  cases mode with
  | closed =>
    have hclosed : C.mode = .closed := hmode
    have hexp : C.expired cb now = false := by
      simp [Circuit.expired, hclosed]
    refine ⟨?_, ?_, by rw [hcount]; exact hfailures⟩
    · unfold Circuit.seen
      rw [hexp]
      exact hclosed
    · unfold Circuit.looked
      rw [hexp]
      exact hclosed
  | opened since =>
    obtain ⟨hopen, hsince⟩ := hmode
    by_cases hover : (cb.recoveryTimeout : ℚ) < now - since
    · have hexp : C.expired cb now = true := by
        simp [Circuit.expired, hopen, hsince, hover]
      refine ⟨?_, ?_, by rw [hcount]; exact hfailures⟩
      · simp [Circuit.seen, hexp, Breaker.state, Breaker.elapse, hover]
      · simp only [Breaker.elapse, if_pos hover]
        left
        unfold Circuit.looked
        rw [hexp]
        rfl
    · have hexp : C.expired cb now = false := by
        simp [Circuit.expired, hsince, not_lt.mp hover]
      refine ⟨?_, ?_, by rw [hcount]; exact hfailures⟩
      · simp [Circuit.seen, hexp, hopen, Breaker.state, Breaker.elapse, hover]
      · simp only [Breaker.elapse, if_neg hover]
        unfold Circuit.looked
        rw [hexp]
        exact ⟨hopen, hsince⟩
  | halfOpen =>
    rcases hmode with hhalf | hexp
    · have hexp : C.expired cb now = false := by
        simp [Circuit.expired, hhalf]
      refine ⟨?_, ?_, by rw [hcount]; exact hfailures⟩
      · unfold Circuit.seen
        rw [hexp]
        exact hhalf
      · unfold Circuit.looked
        rw [hexp]
        exact Or.inl hhalf
    · have hexp := expired_mono hexp hle
      refine ⟨?_, ?_, by rw [hcount]; exact hfailures⟩
      · unfold Circuit.seen
        rw [hexp]
        rfl
      · unfold Circuit.looked
        rw [hexp]
        exact Or.inl rfl

/-- The machine of an endpoint that is left alone. -/
theorem Simulates.elapse (h : Simulates cb t C m) (hle : t ≤ now) :
    Simulates cb now C (m.elapse cb now) := by
  refine ⟨?_, h.failures_later hle⟩
  have hmode := h.mode
  obtain ⟨mode, failures, expires⟩ := m
  cases mode with
  | closed => exact hmode
  | opened since =>
    obtain ⟨hopen, hsince⟩ := hmode
    simp only [Breaker.elapse]
    split_ifs with hover
    · right
      simp [Circuit.expired, hopen, hsince, hover]
    · exact ⟨hopen, hsince⟩
  | halfOpen => exact hmode.imp_right fun hexp => expired_mono hexp hle

/-- A failure is counted. -/
theorem Simulates.count (h : Simulates cb t C m) (hle : t ≤ now) :
    Simulates cb now (C.apply cb now .count) ((m.elapse cb now).increment cb now) := by
  refine ⟨(h.elapse hle).mode, fun now' _ => ?_⟩
  unfold Breaker.increment
  rw [h.failures_elapse hle]
  exact Circuit.failures_count now'

/-- **One call**: the methods answer as the machine does, and the keys go on to stand for it. -/
theorem Simulates.run (h : Simulates cb t C m) {i : Instants} (hcount : t ≤ i.count)
    (hlook : i.count ≤ i.look) (hact : i.look ≤ i.act) (call : Call) :
    (C.run cb i call).1 = (m.perform cb i call).1 ∧
      Simulates cb i.act (C.run cb i call).2 (m.perform cb i call).2 := by
  have hlooked := h.looked (hcount.trans hlook)
  cases call with
  | getState => exact ⟨congrArg Answer.state hlooked.1, hlooked.2.mono hact⟩
  | isAllowed =>
    refine ⟨?_, hlooked.2.mono hact⟩
    unfold Circuit.run Breaker.perform
    rw [hlooked.1]
  | recordSuccess =>
    refine ⟨rfl, ?_⟩
    unfold Circuit.run Breaker.perform
    rw [hlooked.1]
    dsimp only
    split_ifs with hhalf
    · exact simulates_initial _ _ rfl
    · exact hlooked.2.mono hact
  | recordFailure =>
    have hcounted := h.count hcount
    have hseen := hcounted.looked hlook
    have hn : ((m.elapse cb i.count).increment cb i.count).failures =
        C.failures i.count + 1 := by
      unfold Breaker.increment
      rw [h.failures_elapse hcount]
    unfold Circuit.run Breaker.perform
    dsimp only
    rw [hn, hseen.1]
    have htrips : Phase.trips cb (some (C.failures i.count + 1))
        (((m.elapse cb i.count).increment cb i.count).elapse cb i.look).state = true ↔
        (((m.elapse cb i.count).increment cb i.count).elapse cb i.look).state = .closed ∧
          cb.failureThreshold ≤ C.failures i.count + 1 ∨
        (((m.elapse cb i.count).increment cb i.count).elapse cb i.look).state = .halfOpen := by
      simp [Phase.trips, and_comm]
    split_ifs with h₁ h₂ h₂
    · exact ⟨rfl, ⟨rfl, rfl⟩, (hseen.2.mono hact).failures⟩
    · exact absurd (htrips.mp h₁) h₂
    · exact absurd (htrips.mpr h₂) h₁
    · exact ⟨rfl, hseen.2.mono hact⟩
  | reset => exact ⟨rfl, simulates_initial _ _ rfl⟩

/-! ### Sequences refine the machine -/

/-- A sequence from a server that stands for machines. -/
theorem Sequence.refines {calls : List Served} (h : Sequence cb s calls s') (hs : Tidy s)
    {m : Str → Breaker} (hm : ∀ id, Simulates cb s.now (.of s id) (m id)) :
    ∃ is : List Instants, List.Forall₂ Served.Spans calls is ∧
      calls.map Served.result =
        (Breaker.answers cb m ((calls.map Served.origin).zip is)).map .ok := by
  induction h generalizing m with
  | nil => exact ⟨[], .nil, rfl⟩
  | cons hlater hrun hrest ih =>
    rename_i s s₁ s₂ s' o r calls
    have hs₁ : Tidy s₁ := hs.of_keyspace hlater.keyspace
    obtain ⟨i, a, rfl, hran⟩ := executes_run hrun hs₁
    have hsim (id : Str) : Simulates cb s₁.now (.of s₁ id) (m id) := by
      rw [of_later hlater]
      exact (hm id).mono hlater.2
    have hself := (hsim o.endpoint).run hran.now_le hran.count_le hran.look_le o.call
    have hact : s₁.now ≤ i.act := hran.now_le.trans (hran.count_le.trans hran.look_le)
    obtain ⟨is, hspans, hanswers⟩ := ih hran.tidy
      (m := Function.update (fun id => (m id).elapse cb i.act) o.endpoint
        ((m o.endpoint).perform cb i o.call).2) (fun id => by
          rw [hran.circuit]
          by_cases hid : id = o.endpoint
          · subst hid
            rw [if_pos rfl, Function.update_self]
            exact hself.2.mono hran.le_now
          · rw [if_neg hid, Function.update_of_ne hid]
            exact ((hsim id).elapse hact).mono hran.le_now)
    refine ⟨i :: is, .cons ⟨hran.now_le, hran.count_le, hran.look_le, hran.le_now⟩ hspans, ?_⟩
    simp only [List.map_cons, List.zip_cons_cons, Breaker.answers]
    rw [hanswers, hran.answer, hself.1]

/-- **Lazy timeouts refine the eager machine**: calls that run one at a time from an empty server
all return, and every answer is that of the machines of the endpoints, at instants within the
calls. -/
theorem sequence_refines {now : ℚ} {calls : List Served}
    (h : Sequence cb ⟨[], now⟩ calls s') :
    ∃ is : List Instants, List.Forall₂ Served.Spans calls is ∧
      calls.map Served.result = (Breaker.answers cb (fun _ => .initial)
        ((calls.map Served.origin).zip is)).map .ok := by
  refine h.refines (tidy_initial now) fun id => ?_
  rw [show Circuit.of ⟨[], now⟩ id = .fresh from (Holds.empty id).ofKeys]
  exact simulates_initial _ _ rfl

/-- Two failures open a circuit, and after the recovery timeout it lets a call through. -/
theorem sequence_refines_of_recovery : ∃ calls s',
    Sequence sampleBreaker ⟨[], 0⟩ calls s' ∧
    calls.map Served.result = [.ok (.state .closed), .ok (.state .opened), .ok (.allowed false),
      .ok (.allowed true)] ∧
    ∃ is : List Instants, List.Forall₂ Served.Spans calls is ∧
      calls.map Served.result = (Breaker.answers sampleBreaker (fun _ => .initial)
        ((calls.map Served.origin).zip is)).map .ok := by
  have h := sequence_serve sampleBreaker [(0, ⟨sampleEndpoint, .recordFailure⟩),
    (1, ⟨sampleEndpoint, .recordFailure⟩), (301, ⟨sampleEndpoint, .isAllowed⟩),
    (302, ⟨sampleEndpoint, .isAllowed⟩)] ⟨[], 0⟩
  exact ⟨_, _, h, by decide +kernel, sequence_refines h⟩

end CircuitBreaker

end WebhookRelay

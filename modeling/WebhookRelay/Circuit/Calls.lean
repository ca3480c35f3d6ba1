import WebhookRelay.Circuit.Keys
import WebhookRelay.Effect.Pool

/-!
# Calls of the circuit breaker, interleaved

A `Config` is a Redis server with the calls that any number of workers have under way, each on
behalf of some endpoint. `step` is one move: a call starts, a call makes its next await, or time
passes. A call that is cut off is one that never moves again.

`Phase` is how far a call has come, with all it knows: `Phase.op` is the await it makes next and
`Phase.next` what it makes of the answer. `program_obeys` proves that the methods are this
automaton, so every invariant is a case analysis over the phases.
-/

namespace WebhookRelay

open Data Data.Redis Effect

namespace CircuitBreaker

/-! ### The system -/

/-- The methods that are called. -/
inductive Call where
  | getState
  | isAllowed
  | recordSuccess
  | recordFailure
  | reset
  deriving DecidableEq

/-- A call: the method and the endpoint it is called for. -/
structure Origin where
  endpoint : Str
  call : Call
  deriving DecidableEq

/-- What a call answers with. -/
inductive Answer where
  | state (s : CircuitState)
  | allowed (b : Bool)
  | unit
  deriving DecidableEq

/-- The program of a call. -/
def Origin.program (cb : CircuitBreaker) (o : Origin) : Method Answer :=
  match o.call with
  | .getState => .state <$> cb.getState o.endpoint
  | .isAllowed => .allowed <$> cb.isAllowed o.endpoint
  | .recordSuccess => (fun _ => .unit) <$> cb.recordSuccess o.endpoint
  | .recordFailure => .state <$> cb.recordFailure o.endpoint
  | .reset => (fun _ => .unit) <$> CircuitBreaker.reset o.endpoint

/-- What an await does. -/
def exec : (e : Op) → Server → Except Exn e.Resp × Server
  | .time, s => (.ok s.now, s)
  | .get key, s => (.ok (s.get key), s)
  | .delete key, s =>
    (.ok (((firstCount (s.execute [.del key]).1)).getD 0), (s.execute [.del key]).2)
  | .execute pipe, s =>
    (if Redis.Reply.error ∈ (s.execute pipe).1 then .error .responseError
      else .ok (s.execute pipe).1, (s.execute pipe).2)

/-- A call has no session, and no await waits for another call. -/
def machine : Machine redis Exn Server Unit Unit where
  fresh := ()
  exec _ e s _ := ((exec e s).1, (exec e s).2, ())
  blocked _ _ _ _ := false

/-- A call under way. -/
abbrev Caller : Type := Thread redis Exn Answer Unit Origin

/-- A state of the system. -/
abbrev Config : Type := Pool redis Exn Answer Server Unit Origin

/-- The moves. -/
inductive Action where
  | start (o : Origin)
  | call (t : ℕ)
  | tick (now : ℚ)

/-- One move; the clock does not go back. -/
def step (cb : CircuitBreaker) (c : Config) : Action → Option Config
  | .start o => some (c.spawn machine o (o.program cb))
  | .call t => c.call machine t ()
  | .tick now =>
    if c.world.now ≤ now then some { c with world := { c.world with now := now } } else none

/-- An empty server without calls. -/
def initial (now : ℚ) : Config := ⟨⟨[], now⟩, []⟩

/-- No condition on the steps. -/
def anyStep (_ : Config) (_ : Action) : Prop := True

/-- The states reached from an empty server by steps that meet a condition. -/
def Reaches (cb : CircuitBreaker) (ok : Config → Action → Prop) (c : Config) : Prop :=
  ∃ now, Runs (step cb) ok (initial now) c

/-- One step more. -/
theorem Reaches.tail {cb : CircuitBreaker} {ok : Config → Action → Prop} {c c' : Config}
    {a : Action} (h : Reaches cb ok c) (ha : ok c a) (hs : step cb c a = some c') :
    Reaches cb ok c' := by
  obtain ⟨now, hr⟩ := h
  exact ⟨now, hr.tail ⟨a, ha, hs⟩⟩

/-- A condition may be replaced by one that it implies at every state reached. -/
theorem Reaches.mono {cb : CircuitBreaker} {ok ok' : Config → Action → Prop} {c : Config}
    (h : Reaches cb ok c) (himp : ∀ c a, Reaches cb ok c → ok c a → ok' c a) :
    Reaches cb ok' c := by
  obtain ⟨now, hr⟩ := h
  exact ⟨now, hr.mono fun c a hc => himp c a ⟨now, hc⟩⟩

/-! ### Steps -/

/-- A call before its first await. -/
def Origin.start (cb : CircuitBreaker) (o : Origin) : Caller := ⟨o, o.program cb, (), []⟩

/-- A call after an await. -/
def Caller.answered (th : Caller) (e : Op) (k : Except Exn e.Resp → Method Answer) (s : Server) :
    Caller := Thread.answered machine th e (exec e s).1 (k (exec e s).1) ()

/-- What a step does. -/
inductive Stepped (cb : CircuitBreaker) (c : Config) : Action → Config → Prop where
  | started (o : Origin) :
    Stepped cb c (.start o) ⟨c.world, c.threads ++ [o.start cb]⟩
  | called {t : ℕ} {th : Caller} {e : Op} {k : Except Exn e.Resp → Method Answer}
    (hth : c.threads[t]? = some th) (hp : th.prog = .call e k) :
    Stepped cb c (.call t)
      ⟨(exec e c.world).2, c.threads.set t (Caller.answered th e k c.world)⟩
  | ticked {now : ℚ} (h : c.world.now ≤ now) :
    Stepped cb c (.tick now) ⟨{ c.world with now := now }, c.threads⟩

/-- Every step is one of these. -/
theorem stepped {cb : CircuitBreaker} {c c' : Config} {a : Action} (h : step cb c a = some c') :
    Stepped cb c a c' := by
  cases a with
  | start o =>
    cases h
    exact .started o
  | call t =>
    obtain ⟨th, e, k, hth, hp, -, hw, ht⟩ := Pool.call_eq_some h
    obtain ⟨w, ths⟩ := c'
    obtain rfl : w = _ := hw
    obtain rfl : ths = _ := ht
    exact .called hth hp
  | tick now =>
    change (if c.world.now ≤ now then some _ else none) = some c' at h
    split_ifs at h with hn
    cases h
    exact .ticked hn

/-! ### Phases -/

/-- How far a call has come, with what it knows; `n` is the count of a failure. -/
inductive Phase where
  /-- About to count a failure. -/
  | counting
  /-- About to read the state. -/
  | looking (n : Option ℤ)
  /-- Has read OPEN, about to read the time of opening. -/
  | dating (n : Option ℤ)
  /-- Has read the time of opening, about to read the clock. -/
  | timing (n : Option ℤ) (openedAt : Value)
  /-- Has found the recovery timeout over, about to write HALF_OPEN. -/
  | waking (n : Option ℤ) (openedAt now : ℚ)
  /-- `get_state` has answered. -/
  | saw (n : Option ℤ) (s : CircuitState)
  /-- Has read the clock, about to write OPEN. -/
  | opening (n : Option ℤ) (s : CircuitState) (now : ℚ)
  /-- Has written CLOSED, about to delete the counter. -/
  | clearing
  /-- About to delete all keys. -/
  | resetting
  /-- Has made its last await. -/
  | finished
  | failed (x : Exn)
  deriving DecidableEq

namespace Phase

variable (cb : CircuitBreaker) (o : Origin)

/-- The phase a call starts in. -/
def start : Phase :=
  match o.call with
  | .recordFailure => .counting
  | .reset => .resetting
  | _ => .looking none

/-- A failure that found a state opens the circuit. -/
def trips (n : Option ℤ) (s : CircuitState) : Bool :=
  (n.any fun n => decide (cb.failureThreshold ≤ n)) && decide (s = .closed) ||
    decide (s = .halfOpen)

/-- The change a call is about to make. -/
def change : Phase → Option Change
  | .counting => some .count
  | .waking _ _ _ => some (.turn .halfOpen 0)
  | .saw _ s => if o.call = .recordSuccess ∧ s = .halfOpen then some (.turn .closed 0) else none
  | .opening _ _ now => some (.turn .opened now)
  | .clearing => some .clear
  | .resetting => some .reset
  | _ => none

/-- The next await. -/
def op : Phase → Option Op
  | .counting => some (.execute (Change.count.commands cb o.endpoint))
  | .looking _ => some (.get (stateKey o.endpoint))
  | .dating _ => some (.get (openedAtKey o.endpoint))
  | .timing _ _ => some .time
  | .waking _ _ _ => some (.execute ((Change.turn .halfOpen 0).commands cb o.endpoint))
  | .saw n s =>
    if o.call = .recordSuccess ∧ s = .halfOpen then
      some (.execute ((Change.turn .closed 0).commands cb o.endpoint))
    else if o.call = .recordFailure ∧ trips cb n s then some .time
    else none
  | .opening _ _ now => some (.execute ((Change.turn .opened now).commands cb o.endpoint))
  | .clearing => some (.delete (failuresKey o.endpoint))
  | .resetting => some (.execute (Change.reset.commands cb o.endpoint))
  | .finished => none
  | .failed _ => none

/-- The phase after the time of opening and the clock were read. -/
def timed (n : Option ℤ) (openedAt : Value) (now : ℚ) : Phase :=
  match openedAt.float? with
  | none => .failed .valueError
  | some t => if (cb.recoveryTimeout : ℚ) < now - t then .waking n t now else .saw n .opened

/-- The phase after the state was read. -/
def looked (n : Option ℤ) : Option Value → Phase
  | none => .saw n .closed
  | some v =>
    match CircuitState.ofValue? v with
    | none => .failed .valueError
    | some s => if s = .opened then .dating n else .saw n s

/-- The phase after the time of opening was read. -/
def dated (n : Option ℤ) : Option Value → Phase
  | none => .saw n .opened
  | some v => if v.truthy then .timing n v else .saw n .opened

/-- The phase after a failure was counted. -/
def counted (replies : List Redis.Reply) : Phase :=
  match firstCount replies with
  | some n => .looking (some n)
  | none => .failed .responseError

/-- The phase after an await has succeeded. -/
def after : Phase → (e : Op) → e.Resp → Phase
  | .counting, .execute _, replies => counted replies
  | .looking n, .get _, value => looked n value
  | .dating n, .get _, value => dated n value
  | .timing n v, .time, now => timed cb n v now
  | .waking n _ _, .execute _, _ => .saw n .halfOpen
  | .saw _ _, .execute _, _ => .clearing
  | .saw n s, .time, now => .opening n s now
  | .opening _ _ _, .execute _, _ => .finished
  | .clearing, .delete _, _ => .finished
  | .resetting, .execute _, _ => .finished
  | p, _, _ => p

/-- The phase after an answer. -/
def next (p : Phase) (e : Op) : Except Exn e.Resp → Phase
  | .ok v => after cb p e v
  | .error x => .failed x

/-- What a call in its last phase answers. -/
def answer : Phase → Except Exn Answer
  | .saw _ s =>
    match o.call with
    | .getState | .recordFailure => .ok (.state s)
    | .isAllowed => .ok (.allowed (decide (s ≠ .opened)))
    | .recordSuccess | .reset => .ok .unit
  | .failed x => .error x
  | _ => if o.call = .recordFailure then .ok (.state .opened) else .ok .unit

theorem op_saw (n : Option ℤ) (s : CircuitState) : (saw n s).op cb o =
    if o.call = .recordSuccess ∧ s = .halfOpen then
      some (.execute ((Change.turn .closed 0).commands cb o.endpoint))
    else if o.call = .recordFailure ∧ trips cb n s then some .time
    else none := rfl

end Phase

/-- The automaton of a call as a contract. -/
def callContract (cb : CircuitBreaker) (o : Origin) : Contract redis Exn Phase where
  allows p e := p.op cb o = some e
  next p e r := Phase.next cb p e r

/-- The program is the automaton from a phase on. -/
abbrev Realises (cb : CircuitBreaker) (o : Origin) (p : Phase) (q : Method Answer) : Prop :=
  q.Obeys (callContract cb o) (fun r p => p.op cb o = none ∧ r = p.answer o) p

section realises

variable {cb : CircuitBreaker} {o : Origin} {p : Phase} {n : Option ℤ}

/-- A method that raises is the automaton in a failed phase. -/
theorem realises_raise (x : Exn) : Realises cb o (.failed x) (raise x) := ⟨rfl, rfl⟩

/-- The next await, and then the rest of the method. -/
theorem realises_await {e : Op} {f : e.Resp → Method Answer} (he : p.op cb o = some e)
    (hf : ∀ v, Realises cb o (p.after cb e v) (f v)) :
    Realises cb o p (await e >>= f) :=
  (Prog.obeys_perform_bind (I := redis) e f).mpr ⟨he, hf, fun _ => ⟨rfl, rfl⟩⟩

/-- `_transition_to`, an opening aside. -/
theorem realises_transitionTo {s : CircuitState} {f : Unit → Method Answer} (hs : s ≠ .opened)
    (he : p.op cb o = some (.execute (transition o.endpoint s 0)))
    (hf : ∀ replies, Realises cb o (p.after cb (.execute (transition o.endpoint s 0)) replies)
      (f ())) :
    Realises cb o p (transitionTo o.endpoint s >>= f) := by
  unfold transitionTo
  rw [if_neg hs]
  simp only [Prog.pure_eq_done, Prog.done_bind, bind_assoc]
  exact realises_await (e := .execute (transition o.endpoint s 0)) he hf

/-- An opening reads the clock first. -/
theorem realises_open {f : Unit → Method Answer} {s : CircuitState}
    (he : (Phase.saw n s).op cb o = some .time) (hf : Realises cb o .finished (f ())) :
    Realises cb o (.saw n s) (transitionTo o.endpoint .opened >>= f) := by
  unfold transitionTo
  rw [if_pos rfl]
  simp only [Prog.pure_eq_done, Prog.done_bind, bind_assoc]
  refine realises_await (e := .time) he fun now => ?_
  exact realises_await (e := .execute (transition o.endpoint .opened now))
    (p := .opening n s now) rfl fun _ => hf

/-- `get_state` once OPEN was read. -/
theorem realises_getStateOpened {f : CircuitState → Method Answer}
    (hf : ∀ s, Realises cb o (.saw n s) (f s)) :
    Realises cb o (.dating n) (getStateOpened cb o.endpoint >>= f) := by
  unfold getStateOpened
  rw [bind_assoc]
  refine realises_await (e := .get (openedAtKey o.endpoint)) rfl fun value => ?_
  change Realises cb o (Phase.dated n value) _
  cases value with
  | none => exact hf .opened
  | some v =>
    unfold Phase.dated
    dsimp only
    split_ifs with hv
    · rw [bind_assoc]
      refine realises_await (e := .time) rfl fun now => ?_
      change Realises cb o (Phase.timed cb n v now) _
      unfold Phase.timed
      cases v.float? with
      | none => exact realises_raise _
      | some t =>
        simp only [orRaise, Prog.ofExcept_ok, Prog.done_bind]
        split_ifs with ht
        · rw [bind_assoc]
          exact realises_transitionTo (by decide) rfl fun _ => hf .halfOpen
        · exact hf .opened
    · exact hf .opened

/-- `get_state`. -/
theorem realises_getState {f : CircuitState → Method Answer}
    (hf : ∀ s, Realises cb o (.saw n s) (f s)) :
    Realises cb o (.looking n) (cb.getState o.endpoint >>= f) := by
  unfold CircuitBreaker.getState
  rw [bind_assoc]
  refine realises_await (e := .get (stateKey o.endpoint)) rfl fun value => ?_
  change Realises cb o (Phase.looked n value) _
  cases value with
  | none => exact hf .closed
  | some v =>
    unfold Phase.looked
    dsimp only
    cases CircuitState.ofValue? v with
    | none => exact realises_raise _
    | some s =>
      simp only [orRaise, Prog.ofExcept_ok, Prog.done_bind]
      split_ifs with hs
      · exact realises_getStateOpened hf
      · exact hf s

/-- `record_success`. -/
theorem realises_recordSuccess (ho : o.call = .recordSuccess) {f : Unit → Method Answer}
    (hf : f () = pure .unit) :
    Realises cb o (.looking none) (cb.recordSuccess o.endpoint >>= f) := by
  unfold CircuitBreaker.recordSuccess
  rw [bind_assoc]
  refine realises_getState fun s => ?_
  by_cases hs : s = .halfOpen
  · rw [if_pos hs, bind_assoc]
    refine realises_transitionTo (by decide) (if_pos ⟨ho, hs⟩) fun _ => ?_
    rw [bind_assoc]
    refine realises_await (e := .delete (failuresKey o.endpoint)) (p := .clearing) rfl fun _ => ?_
    rw [Prog.pure_eq_done, Prog.done_bind, hf]
    refine ⟨rfl, ?_⟩
    unfold Phase.answer
    simp [Phase.after, ho]
  · rw [if_neg hs, Prog.pure_eq_done, Prog.done_bind, hf]
    refine ⟨?_, ?_⟩
    · rw [Phase.op_saw, if_neg (fun h => hs h.2), if_neg (by simp [ho])]
    · unfold Phase.answer
      simp [ho]

/-- `record_failure`, once the failure was counted. -/
theorem realises_recordFailureCounted (ho : o.call = .recordFailure) (n : ℤ) :
    Realises cb o (.looking (some n))
      (recordFailureCounted cb o.endpoint n >>= fun s => pure (.state s)) := by
  unfold recordFailureCounted
  rw [bind_assoc]
  refine realises_getState fun s => ?_
  have hcall : ¬(o.call = .recordSuccess ∧ s = .halfOpen) := fun h => by simp [ho] at h
  have hopen (htrips : Phase.trips cb (some n) s = true) :
      Realises cb o (.saw (some n) s) ((transitionTo o.endpoint .opened >>= fun _ =>
        pure .opened) >>= fun s => pure (.state s)) := by
    rw [bind_assoc]
    refine realises_open ?_ ⟨rfl, ?_⟩
    · rw [Phase.op_saw, if_neg hcall, if_pos ⟨ho, htrips⟩]
    · unfold Phase.answer
      rw [if_pos ho]
  split_ifs with hclosed hhalf
  · exact hopen (by simp [Phase.trips, hclosed])
  · exact hopen (by simp [Phase.trips, hhalf])
  · have htrips : Phase.trips cb (some n) s = false := by
      simpa [Phase.trips, hhalf] using hclosed
    refine ⟨?_, ?_⟩
    · rw [Phase.op_saw, if_neg hcall, if_neg (by simp [htrips])]
    · unfold Phase.answer
      rw [ho]

/-- **Every method is its automaton**, whatever the server answers. -/
theorem program_obeys (cb : CircuitBreaker) (o : Origin) :
    Realises cb o (.start o) (o.program cb) := by
  have hsaw {s : CircuitState} {a : Answer} (ho : o.call = .getState ∨ o.call = .isAllowed)
      (ha : (Phase.saw none s).answer o = .ok a) : Realises cb o (.saw none s) (pure a) := by
    refine ⟨?_, ha.symm⟩
    rw [Phase.op_saw]
    rcases ho with ho | ho <;> simp [ho]
  unfold Origin.program Phase.start
  cases ho : o.call with
  | getState =>
    dsimp only
    rw [← bind_pure_comp]
    exact realises_getState fun s => hsaw (Or.inl ho) (by unfold Phase.answer; rw [ho])
  | isAllowed =>
    dsimp only
    unfold CircuitBreaker.isAllowed
    rw [← bind_pure_comp, bind_assoc]
    exact realises_getState fun s => hsaw (Or.inr ho) (by unfold Phase.answer; rw [ho])
  | recordSuccess =>
    dsimp only
    rw [← bind_pure_comp]
    exact realises_recordSuccess ho rfl
  | recordFailure =>
    dsimp only
    unfold CircuitBreaker.recordFailure
    rw [← bind_pure_comp, bind_assoc]
    refine realises_await (e := .execute (counting cb o.endpoint)) rfl fun replies => ?_
    change Realises cb o (Phase.counted replies) _
    unfold Phase.counted
    rw [bind_assoc]
    cases firstCount replies with
    | none => exact realises_raise _
    | some n => exact realises_recordFailureCounted ho n
  | reset =>
    dsimp only
    unfold CircuitBreaker.reset
    rw [← bind_pure_comp, bind_assoc]
    refine realises_await (e := .execute (clearing o.endpoint)) rfl fun _ => ⟨rfl, ?_⟩
    unfold Phase.answer
    simp [Phase.after, ho]

end realises

end CircuitBreaker

end WebhookRelay

import WebhookRelay.Delivery.Exit

/-!
# The contract of `deliver`

Under an interleaving nothing is known of the tables between two calls of a run, so what a run
does is given by a contract on its calls and answers: it reads the event once, flushes, and its
only commit is the transaction of a valid exit for the rows it has read (`Phase`,
`deliverContract`). A flush that raises ends the run without a commit. `deliver_obeys` proves the
contract once, for every answer to every call.
-/

namespace WebhookRelay

open Data Effect

/-- How far a run of `deliver` has come. -/
inductive Phase where
  /-- Nothing has been read. -/
  | started
  /-- The event and its endpoint as they were read, and the statements flushed since. -/
  | loaded (ev : WebhookEvent) (ep : WebhookEndpoint) (ws : List Write)
  /-- It has committed, or raised, or there is nothing to do. -/
  | closed

/-- The calls a run may make in a phase. -/
def Phase.allows (id : UUID) : Phase → Op → Prop
  | .started, e => e = .getEventWithEndpoint id
  | .loaded ev ep ws, e =>
    e.isLoad = false ∧ e.isIntake = false ∧ (e.isCommit = true → ev.status.terminal = false ∧
      ∃ x : Exit, ws = x.writes ev ep ∧ x.Valid ev ep)
  | .closed, _ => False

/-- The phase after the read that starts a run. -/
def Phase.ofRead : (e : Op) → Except PyExn e.Resp → Phase
  | .getEventWithEndpoint _, .ok (some (ev, some ep)) => .loaded ev ep []
  | _, _ => .closed

/-- The phase after a call of a run that has read its rows. -/
def Phase.flushed (ev : WebhookEvent) (ep : WebhookEndpoint) (ws : List Write) (e : Op)
    (r : Except PyExn e.Resp) : Phase :=
  if e.isCommit then .closed
  else match r with
    | .ok _ => .loaded ev ep (ws ++ e.writes)
    | .error _ => if e.writes.isEmpty then .loaded ev ep ws else .closed

/-- The phase after a call. -/
def Phase.next : Phase → (e : Op) → Except PyExn e.Resp → Phase
  | .started, e, r => .ofRead e r
  | .loaded ev ep ws, e, r => .flushed ev ep ws e r
  | .closed, _, _ => .closed

/-- The contract of a run for one event. -/
def deliverContract (id : UUID) : Contract relay PyExn Phase where
  allows := Phase.allows id
  next := Phase.next

/-- The program meets the contract from a phase on. -/
abbrev Delivers {α : Type} (id : UUID) (p : Phase) (q : Relay α) : Prop :=
  q.Obeys (deliverContract id) (fun _ _ => True) p

/-- A call that leaves no statement, and is neither a commit, nor an intake, nor another read of
the event. -/
structure Op.Passive (e : Op) : Prop where
  writes : e.writes = []
  isCommit : e.isCommit = false
  isLoad : e.isLoad = false
  isIntake : e.isIntake = false

section rules

variable {id : UUID} {ev : WebhookEvent} {ep : WebhookEndpoint} {ws : List Write} {α β : Type}

/-- A passive call leaves the phase as it is. -/
theorem next_passive {e : Op} (h : e.Passive) (r : Except PyExn e.Resp) :
    Phase.flushed ev ep ws e r = .loaded ev ep ws := by
  unfold Phase.flushed
  rw [h.isCommit, h.writes]
  cases r with
  | ok v => exact congrArg (Phase.loaded ev ep) (List.append_nil ws)
  | error x => rfl

/-- After a part that only makes passive calls, the rest goes on in the same phase. -/
theorem delivers_bind_passive {q : Relay α} (hq : q.Calls Op.Passive) {f : α → Relay β}
    (hf : ∀ a, Delivers id (.loaded ev ep ws) (f a)) :
    Delivers id (.loaded ev ep ws) (q >>= f) := by
  induction q with
  | done a => exact hf a
  | raised x => trivial
  | call e k ih =>
    refine ⟨⟨hq.1.isLoad, hq.1.isIntake, fun hc => ?_⟩, fun r => ?_⟩
    · rw [hq.1.isCommit] at hc
      cases hc
    · change Prog.Obeys (deliverContract id) _ (k r >>= f) (Phase.flushed ev ep ws e r)
      rw [next_passive hq.1]
      exact ih r (hq.2 r)

/-- After a flush, the rest goes on with its statements; if the flush raises, the run is over. -/
theorem delivers_bind_flush {e : Op} (hc : e.isCommit = false) (hl : e.isLoad = false)
    (hq : e.isIntake = false)
    {f : e.Resp → Relay β} (hf : ∀ v, Delivers id (.loaded ev ep (ws ++ e.writes)) (f v)) :
    Delivers id (.loaded ev ep ws) (Prog.perform (I := relay) e >>= f) := by
  refine (Prog.obeys_perform_bind (I := relay) e f).mpr ⟨⟨hl, hq, fun h => ?_⟩, fun v => ?_,
    fun _ => trivial⟩
  · rw [hc] at h
    cases h
  · change Prog.Obeys _ _ (f v) (Phase.flushed ev ep ws e (.ok v))
    unfold Phase.flushed
    rw [hc]
    exact hf v

/-- A commit is allowed with the statements of a valid exit, and nothing follows it. -/
theorem delivers_commit (hterm : ev.status.terminal = false) (x : Exit)
    (hw : ws = x.writes ev ep) (hx : x.Valid ev ep) (a : α) :
    Delivers id (.loaded ev ep ws) (commit >>= fun _ => Prog.done a) := by
  refine (Prog.obeys_perform_bind (I := relay) Op.commit _).mpr
    ⟨⟨rfl, rfl, fun _ => ⟨hterm, x, hw, hx⟩⟩, fun _ => trivial, fun _ => trivial⟩

end rules

/-! ### The passive parts -/

section passive

theorem calls_nowPlusSeconds {A : Op → Prop} (hnow : A .now) (x : PyFloat) :
    (nowPlusSeconds x).Calls A :=
  (Prog.calls_perform hnow).bind fun _ => Prog.calls_ofExcept _

/-- The instant of the next try takes the clock and a draw. -/
theorem calls_nextRetryAt {A : Op → Prop} (hnow : A .now) (hdraw : A .uniform) (n : ℕ) (base : ℚ)
    (m : ℕ) (x : Option PyFloat) : (ExponentialBackoffStrategy.nextRetryAt n base m x).Calls A := by
  refine Prog.Calls.bind ?_ (calls_nowPlusSeconds hnow)
  have hbackoff : (uniform >>= fun draw => Prog.done (PyFloat.finite
      (ExponentialBackoffStrategy.computeDelay n base m draw)) : Relay PyFloat).Calls A :=
    (Prog.calls_perform hdraw).bind fun _ => Prog.calls_done _
  unfold ExponentialBackoffStrategy.delay
  cases x with
  | none => exact hbackoff
  | some x =>
    dsimp only
    split_ifs
    · exact Prog.calls_done x
    · exact hbackoff

theorem calls_requestHeaders {A : Op → Prop} (hnow : A .now) (crypto : Crypto) (ev : WebhookEvent)
    (ep : WebhookEndpoint) : (DeliveryService.requestHeaders crypto ev ep).Calls A := by
  refine Prog.Calls.bind ?_ fun _ => Prog.calls_done _
  have hclock : now.Calls A := Prog.calls_perform hnow
  refine hclock.bind fun t => Prog.Calls.bind ?_ fun _ => Prog.calls_done _
  have hsign (ts : ℤ) : (HMACService.signAt crypto (DeliveryService.requestBody ev)
      ep.signingSecret ts).Calls A := by
    unfold HMACService.signAt
    split
    · exact Prog.calls_done _
    · exact Prog.calls_raised _
  unfold HMACService.signPayload
  dsimp only
  split_ifs
  · exact hsign _
  · exact hclock.bind fun _ => hsign _

end passive

/-! ### The exits -/

section exits

variable {id : UUID} {ev : WebhookEvent} {ep : WebhookEndpoint} {ws : List Write}

theorem delivers_flushEvent {β : Type} {old new : WebhookEvent} {f : WebhookEvent → Relay β}
    (hf : Delivers id (.loaded ev ep (ws ++ flush old new)) (f new)) :
    Delivers id (.loaded ev ep ws) ((flushEvent old new >>= fun _ => pure new) >>= f) := by
  rw [bind_assoc]
  exact delivers_bind_flush (e := .flushEvent old new) rfl rfl rfl fun _ => hf

/-- A new row of the attempt log. -/
theorem delivers_createAttempt {β : Type} {row : UUID → Datetime → DeliveryAttempt}
    {f : DeliveryAttempt → Relay β}
    (hf : ∀ u t, Delivers id (.loaded ev ep (ws ++ [.insertAttempt (row u t)])) (f (row u t))) :
    Delivers id (.loaded ev ep ws) (DeliveryAttemptRepository.create row >>= f) := by
  unfold DeliveryAttemptRepository.create
  simp only [bind_assoc]
  refine delivers_bind_passive (q := uuid4) (Prog.calls_perform ⟨rfl, rfl, rfl, rfl⟩) fun u => ?_
  refine delivers_bind_passive (q := now) (Prog.calls_perform ⟨rfl, rfl, rfl, rfl⟩) fun t => ?_
  exact delivers_bind_flush (e := .insertAttempt (row u t)) rfl rfl rfl fun _ => hf u t

/-- A new row of the dead letter queue. -/
theorem delivers_createDeadLetter {β : Type} {row : UUID → Datetime → DeadLetterEvent}
    {f : DeadLetterEvent → Relay β}
    (hf : ∀ u t, Delivers id (.loaded ev ep (ws ++ [.insertDeadLetter (row u t)])) (f (row u t))) :
    Delivers id (.loaded ev ep ws) (DeadLetterRepository.create row >>= f) := by
  unfold DeadLetterRepository.create
  simp only [bind_assoc]
  refine delivers_bind_passive (q := uuid4) (Prog.calls_perform ⟨rfl, rfl, rfl, rfl⟩) fun u => ?_
  refine delivers_bind_passive (q := now) (Prog.calls_perform ⟨rfl, rfl, rfl, rfl⟩) fun t => ?_
  exact delivers_bind_flush (e := .insertDeadLetter (row u t)) rfl rfl rfl fun _ => hf u t

theorem delivers_deadLetterInactive (hterm : ev.status.terminal = false)
    (hact : ep.isActive = false) :
    Delivers id (.loaded ev ep []) (DeliveryService.deadLetterInactive ev ep) := by
  unfold DeliveryService.deadLetterInactive EventRepository.markDeadLettered
  refine delivers_flushEvent (delivers_createDeadLetter fun u t => ?_)
  exact delivers_commit hterm (.inactive _) rfl ⟨hact, records_deadLetterRow ev _ _ _ _ _⟩ _

theorem delivers_deferDelivery (settings : Settings) (hterm : ev.status.terminal = false)
    (hact : ep.isActive = true) :
    Delivers id (.loaded ev ep []) (DeliveryService.deferDelivery settings ev ep) := by
  unfold DeliveryService.deferDelivery EventRepository.scheduleRetry
  refine delivers_bind_passive (calls_nowPlusSeconds ⟨rfl, rfl, rfl, rfl⟩ _) fun next =>
    delivers_flushEvent ?_
  exact delivers_commit hterm (.refused next) rfl hact _

variable {a : DeliveryAttempt} {p : PostResult}

/-- The statements flushed when the attempt has been logged. -/
theorem delivers_settleSuccess (hterm : ev.status.terminal = false) (ha : a.Logs ev)
    (hs : a.success = true) (d : ℚ) :
    Delivers id (.loaded ev ep (flush ev (EventRepository.delivering ev) ++ [.insertAttempt a]))
      (DeliveryService.settleSuccess (EventRepository.delivering ev) ep a d) := by
  unfold DeliveryService.settleSuccess EventRepository.markDelivered
  refine delivers_bind_passive (q := recordSuccess ep.id) (Prog.calls_perform ⟨rfl, rfl, rfl, rfl⟩)
    fun _ => ?_
  rw [bind_assoc]
  refine delivers_bind_passive (q := now) (Prog.calls_perform ⟨rfl, rfl, rfl, rfl⟩) fun t => ?_
  refine delivers_flushEvent ?_
  exact delivers_commit hterm (.delivered a t) rfl ⟨ha, hs⟩ _

theorem delivers_retryLater (hterm : ev.status.terminal = false) (ha : a.Logs ev)
    (hs : a.success = false) (hlt : ev.attemptCount + 1 < ep.maxRetries)
    (hne : a.httpStatusCode ≠ some 410) (x : Option PyFloat) :
    Delivers id (.loaded ev ep (flush ev (EventRepository.delivering ev) ++ [.insertAttempt a] ++
        goneWrites ep a))
      (DeliveryService.retryLater (EventRepository.delivering ev) ep x) := by
  unfold DeliveryService.retryLater EventRepository.scheduleRetry
  refine delivers_bind_passive (calls_nextRetryAt ⟨rfl, rfl, rfl, rfl⟩ ⟨rfl, rfl, rfl, rfl⟩ _ _ _ _)
    fun t => delivers_flushEvent ?_
  exact delivers_commit hterm (.retried a t) rfl ⟨ha, hs, hlt, hne⟩ _

theorem delivers_giveUp (hterm : ev.status.terminal = false) (ha : a.Logs ev)
    (hs : a.success = false) :
    Delivers id (.loaded ev ep (flush ev (EventRepository.delivering ev) ++ [.insertAttempt a] ++
        goneWrites ep a))
      (DeliveryService.giveUp (EventRepository.delivering ev) ep p) := by
  unfold DeliveryService.giveUp EventRepository.markDeadLettered
  refine delivers_createDeadLetter fun u t => delivers_flushEvent ?_
  exact delivers_commit hterm (.exhausted a _) rfl
    ⟨ha, hs, rfl, rfl, rfl, rfl, rfl⟩ _

theorem delivers_deactivateGone {β : Type} (hcode : a.httpStatusCode = p.httpStatus)
    {f : Unit → Relay β} (hf : Delivers id (.loaded ev ep (ws ++ goneWrites ep a)) (f ())) :
    Delivers id (.loaded ev ep ws) (DeliveryService.deactivateGone ep p >>= f) := by
  unfold DeliveryService.deactivateGone
  unfold goneWrites at hf
  rw [hcode] at hf
  split_ifs with h
  · rw [if_pos h] at hf
    rw [bind_assoc]
    exact delivers_bind_flush (e := .deactivateEndpoint ep.id) rfl rfl rfl fun _ => hf
  · rw [if_neg h, List.append_nil] at hf
    exact hf

theorem delivers_settleFailure (hterm : ev.status.terminal = false) (ha : a.Logs ev)
    (hs : a.success = false) (hcode : a.httpStatusCode = p.httpStatus) :
    Delivers id (.loaded ev ep (flush ev (EventRepository.delivering ev) ++ [.insertAttempt a]))
      (DeliveryService.settleFailure (EventRepository.delivering ev) ep p) := by
  unfold DeliveryService.settleFailure
  refine delivers_bind_passive (q := recordFailure ep.id) (Prog.calls_perform ⟨rfl, rfl, rfl, rfl⟩)
    fun _ => delivers_deactivateGone hcode ?_
  dsimp only
  split_ifs with hr
  · obtain ⟨hlt, hne⟩ := ExponentialBackoffStrategy.shouldRetry_eq_true hr
    exact delivers_retryLater hterm ha hs hlt (hcode ▸ hne) _
  · exact delivers_giveUp hterm ha hs

/-- A run from the POST on. -/
theorem delivers_attemptDelivery (crypto : Crypto) (hterm : ev.status.terminal = false) :
    Delivers id (.loaded ev ep []) (DeliveryService.attemptDelivery crypto ev ep) := by
  have hclock : perfCounter.Calls Op.Passive := Prog.calls_perform ⟨rfl, rfl, rfl, rfl⟩
  unfold DeliveryService.attemptDelivery EventRepository.markDelivering
  refine delivers_flushEvent ?_
  refine delivers_bind_passive (calls_requestHeaders ⟨rfl, rfl, rfl, rfl⟩ _ _ _) fun headers => ?_
  refine delivers_bind_passive hclock fun start => ?_
  refine delivers_bind_passive (q := (post _).attempt)
    (Prog.Calls.attempt (Prog.calls_perform ⟨rfl, rfl, rfl, rfl⟩)) fun answer => ?_
  cases hp : PostResult.ofAnswer ep.timeoutSeconds answer with
  | error x => trivial
  | ok p =>
    rw [Prog.ofExcept_ok, Prog.done_bind]
    refine delivers_bind_passive hclock fun stop => delivers_createAttempt fun u t => ?_
    have ha := logs_attemptRow ev (PostResult.success_of_ofAnswer hp) crypto headers
      ((stop - start : ℚ) / 1000) u t
    split_ifs with hs
    · exact delivers_settleSuccess hterm ha hs _
    · exact delivers_settleFailure hterm ha (Bool.not_eq_true _ ▸ hs) rfl

/-- A run that has read an event that is not terminal, and its endpoint. -/
theorem delivers_loaded (deps : Deps) (hterm : ev.status.terminal = false) :
    Delivers id (.loaded ev ep [])
      (if !ep.isActive then DeliveryService.deadLetterInactive ev ep
      else do
        let allowed ← isAllowed ep.id
        if !allowed then DeliveryService.deferDelivery deps.settings ev ep
        else DeliveryService.attemptDelivery deps.crypto ev ep) := by
  cases hact : ep.isActive with
  | false => exact delivers_deadLetterInactive hterm hact
  | true =>
    refine delivers_bind_passive (q := isAllowed ep.id) (Prog.calls_perform ⟨rfl, rfl, rfl, rfl⟩)
      fun allowed => ?_
    cases allowed with
    | false => exact delivers_deferDelivery _ hterm hact
    | true => exact delivers_attemptDelivery _ hterm

/-- **The contract holds**: every run of `deliver`, whatever its calls are answered. -/
theorem deliver_obeys (deps : Deps) (id : UUID) :
    Delivers id .started (DeliveryService.deliver deps id) := by
  unfold DeliveryService.deliver
  refine (Prog.obeys_perform_bind (I := relay) (Op.getEventWithEndpoint id) _).mpr
    ⟨rfl, fun v => ?_, fun _ => trivial⟩
  rcases v with _ | ⟨ev, ep?⟩
  · trivial
  · by_cases hterm : ev.status.terminal = true
    · simp only [hterm, if_true]
      trivial
    · rcases ep? with _ | ep
      · simp only [hterm, Bool.false_eq_true, if_false]
        trivial
      · simp only [hterm, Bool.false_eq_true, if_false]
        exact delivers_loaded deps (by simpa using hterm)

end exits

/-! ### The calls of a run -/

/-- The calls of a run, with the rows that it puts into the dead letter queue. -/
inductive Op.Delivering : Op → Prop where
  | uuid4 : Delivering .uuid4
  | now : Delivering .now
  | perfCounter : Delivering .perfCounter
  | uniform : Delivering .uniform
  | load (id : UUID) : Delivering (.getEventWithEndpoint id)
  | flushEvent (old new : WebhookEvent) : Delivering (.flushEvent old new)
  | insertAttempt (r : DeliveryAttempt) : Delivering (.insertAttempt r)
  | insertDeadLetter (ev : WebhookEvent) (ep : WebhookEndpoint) (err : Str) (st : Option ℤ)
    (id : UUID) (t : Datetime) :
    Delivering (.insertDeadLetter (DeliveryService.deadLetterRow ev ep err st id t))
  | deactivate (id : UUID) : Delivering (.deactivateEndpoint id)
  | commit : Delivering .commit
  | isAllowed (id : UUID) : Delivering (.isAllowed id)
  | recordSuccess (id : UUID) : Delivering (.recordSuccess id)
  | recordFailure (id : UUID) : Delivering (.recordFailure id)
  | post (req : HttpRequest) : Delivering (.post req)

section calls

variable {A : Op → Prop}

theorem calls_flushEvent {old new : WebhookEvent}
    (hA : ∀ e, e.Delivering → e.isPost = false → A e) :
    (flushEvent old new >>= fun _ => pure new : Relay WebhookEvent).Calls A :=
  Prog.Calls.bind (Prog.calls_perform (hA _ (.flushEvent old new) rfl)) fun _ => Prog.calls_done _

theorem calls_commit {α : Type} (hA : ∀ e, e.Delivering → e.isPost = false → A e) (a : α) :
    (commit >>= fun _ => pure a : Relay α).Calls A :=
  Prog.Calls.bind (Prog.calls_perform (hA _ .commit rfl)) fun _ => Prog.calls_done _

/-- A new row of the dead letter queue. -/
theorem calls_createDeadLetter (hA : ∀ e, e.Delivering → e.isPost = false → A e)
    (ev : WebhookEvent) (ep : WebhookEndpoint) (err : Str) (st : Option ℤ) :
    (DeadLetterRepository.create (DeliveryService.deadLetterRow ev ep err st)).Calls A :=
  Prog.Calls.bind (Prog.calls_perform (hA _ .uuid4 rfl)) fun _ =>
    Prog.Calls.bind (Prog.calls_perform (hA _ .now rfl)) fun _ =>
      Prog.Calls.bind (Prog.calls_perform (hA _ (.insertDeadLetter ..) rfl)) fun _ =>
        Prog.calls_done _

/-- The branch of an inactive endpoint. -/
theorem calls_deadLetterInactive (hA : ∀ e, e.Delivering → e.isPost = false → A e)
    (ev : WebhookEvent) (ep : WebhookEndpoint) :
    (DeliveryService.deadLetterInactive ev ep).Calls A :=
  (calls_flushEvent hA).bind fun _ => (calls_createDeadLetter hA _ _ _ _).bind fun _ =>
    calls_commit hA _

/-- The branch of an open circuit. -/
theorem calls_deferDelivery (hA : ∀ e, e.Delivering → e.isPost = false → A e)
    (settings : Settings) (ev : WebhookEvent) (ep : WebhookEndpoint) :
    (DeliveryService.deferDelivery settings ev ep).Calls A :=
  (calls_nowPlusSeconds (hA _ .now rfl) _).bind fun _ => (calls_flushEvent hA).bind fun _ =>
    calls_commit hA _

/-- After the attempt has been logged. -/
theorem calls_settle (hA : ∀ e, e.Delivering → e.isPost = false → A e) (ev : WebhookEvent)
    (ep : WebhookEndpoint) (a : DeliveryAttempt) (p : PostResult) (t : ℚ) :
    (if p.success then DeliveryService.settleSuccess ev ep a t
      else DeliveryService.settleFailure ev ep p).Calls A := by
  have hnow : now.Calls A := Prog.calls_perform (hA _ .now rfl)
  have hlater (x : Option PyFloat) : (DeliveryService.retryLater ev ep x).Calls A :=
    (calls_nextRetryAt (hA _ .now rfl) (hA _ .uniform rfl) _ _ _ x).bind fun _ =>
      (calls_flushEvent hA).bind fun _ => calls_commit hA _
  have hgiveUp : (DeliveryService.giveUp ev ep p).Calls A :=
    (calls_createDeadLetter hA _ _ _ _).bind fun _ => (calls_flushEvent hA).bind fun _ =>
      calls_commit hA _
  have hgone : (DeliveryService.deactivateGone ep p).Calls A := by
    unfold DeliveryService.deactivateGone
    split_ifs
    · exact Prog.Calls.bind (Prog.calls_perform (hA _ (.deactivate _) rfl)) fun _ =>
        Prog.calls_done _
    · exact Prog.calls_done _
  split_ifs
  · refine Prog.Calls.bind (Prog.calls_perform (hA _ (.recordSuccess _) rfl)) fun _ => ?_
    exact (hnow.bind fun _ => calls_flushEvent hA).bind fun _ => calls_commit hA _
  · refine Prog.Calls.bind (Prog.calls_perform (hA _ (.recordFailure _) rfl)) fun _ =>
      hgone.bind fun _ => ?_
    dsimp only
    split_ifs
    · exact hlater _
    · exact hgiveUp

/-- After the POST. -/
theorem calls_settleAttempt (hA : ∀ e, e.Delivering → e.isPost = false → A e) (crypto : Crypto)
    (ev : WebhookEvent) (ep : WebhookEndpoint) (headers : Dict Str Str) (p : PostResult) (t : ℚ) :
    (DeliveryService.settleAttempt crypto ev ep headers p t).Calls A := by
  have hnow : now.Calls A := Prog.calls_perform (hA _ .now rfl)
  have huuid : uuid4.Calls A := Prog.calls_perform (hA _ .uuid4 rfl)
  exact Prog.Calls.bind (huuid.bind fun _ => hnow.bind fun _ => Prog.Calls.bind
    (Prog.calls_perform (hA _ (.insertAttempt _) rfl)) fun _ => Prog.calls_done _) fun a =>
      calls_settle hA ev ep a p t

/-- **A run makes no other call.** -/
theorem calls_deliver (hA : ∀ e, e.Delivering → A e) (deps : Deps) (id : UUID) :
    (DeliveryService.deliver deps id).Calls A := by
  have hA' (e : Op) (he : e.Delivering) (_ : e.isPost = false) : A e := hA e he
  have hclock : perfCounter.Calls A := Prog.calls_perform (hA _ .perfCounter)
  refine Prog.Calls.bind (q := EventRepository.getWithEndpoint id)
    (Prog.calls_perform (hA _ (.load id))) fun row => ?_
  rcases row with _ | ⟨ev, ep?⟩
  · exact Prog.calls_done _
  · dsimp only
    split_ifs
    · exact Prog.calls_done _
    · rcases ep? with _ | ep
      · exact Prog.calls_raised _
      · dsimp only
        split_ifs
        · exact calls_deadLetterInactive hA' ev ep
        · refine Prog.Calls.bind (q := isAllowed ep.id)
            (Prog.calls_perform (hA _ (.isAllowed ep.id))) fun allowed => ?_
          split_ifs
          · exact calls_deferDelivery hA' _ ev ep
          · have hpost (req : HttpRequest) : (post req).attempt.Calls A :=
              Prog.Calls.attempt (Prog.calls_perform (hA _ (.post req)))
            refine (calls_flushEvent hA').bind fun ev =>
              (calls_requestHeaders (hA _ .now) _ ev ep).bind fun _ => hclock.bind fun _ =>
                (hpost _).bind fun _ => ?_
            exact (Prog.calls_ofExcept _).bind fun p => hclock.bind fun _ =>
              calls_settleAttempt hA' _ _ _ _ p _

end calls

end WebhookRelay

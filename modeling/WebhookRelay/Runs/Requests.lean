import WebhookRelay.Runs.Calls

/-!
# The contract of the request handlers and of the cron job

What holds of every coroutine that does not deliver: it never changes a row of the events, never
writes to the attempt log and never creates a dead letter entry; the events it inserts are
pending, and the budgets it sets are those of the schemas (`Write.Benign`). And it only enqueues
jobs for events it has inserted or selected itself (`requestContract`).
-/

namespace WebhookRelay

open Data Effect

/-! ### Statements that leave the events alone -/

/-- A row as every insert into `webhook_events` makes it. -/
structure WebhookEvent.IsNew (r : WebhookEvent) : Prop where
  status : r.status = .pending
  attemptCount : r.attemptCount = 0
  nextRetryAt : r.nextRetryAt = none
  deliveredAt : r.deliveredAt = none

/-- The bounds of `max_retries` in the schemas. -/
def budgetOk (n : ℕ) : Prop := 1 ≤ n ∧ n ≤ 20

/-- A statement as the request handlers make them. -/
def Write.Benign : Write → Prop
  | .insertEndpoint r => budgetOk r.maxRetries
  | .updateEndpoint _ u => ∀ n, u.maxRetries = some n → budgetOk n
  | .insertEvent r => r.IsNew
  | .updateDeadLetter _ _ => True
  | .deleteDeadLetter _ => True
  | .updateEvent _ _ => False
  | .insertAttempt _ => False
  | .insertDeadLetter _ => False

/-- The statements of a call are such statements. -/
def Op.Benign (e : Op) : Prop := ∀ w ∈ e.writes, w.Benign

/-! ### The contract -/

/-- The events a call makes known to the coroutine: those it inserts or selects. -/
def Op.learns : (e : Op) → Except PyExn e.Resp → List UUID
  | .insertEvent r, .ok _ => [r.id]
  | .selectDueForRetry _ _, .ok rows => rows.map WebhookEvent.id
  | .selectStalePending _ _, .ok rows => rows.map WebhookEvent.id
  | _, _ => []

/-- The contract; its phase is the list of the events known so far. -/
def requestContract : Contract relay PyExn (List UUID) where
  allows known e := e.Benign ∧ ∀ id, e = .enqueueJob id → id ∈ known
  next known e r := known ++ e.learns r

/-- The program meets the contract when some events are known. -/
abbrev Requests {α : Type} (known : List UUID) (q : Relay α) : Prop :=
  q.Obeys requestContract (finishing fun _ _ => True) known

/-- A call that makes nothing known and enqueues nothing. -/
structure Op.Quiet (e : Op) : Prop where
  benign : e.Benign
  isEnqueue : e.isEnqueue = false
  learns : ∀ r, e.learns r = []

/-- A call without statements is benign. -/
theorem Op.benign_of_writes {e : Op} (h : e.writes = []) : e.Benign := by
  intro w hw
  rw [h] at hw
  cases hw

/-- A call whose only statement is benign. -/
theorem Op.benign_of_write {e : Op} {w : Write} (h : e.writes = [w]) (hw : w.Benign) :
    e.Benign := by
  intro w' hw'
  rw [h, List.mem_singleton] at hw'
  rwa [hw']

section rules

variable {known : List UUID} {α β : Type}

/-- A program may always do less than its contract asks for. -/
theorem requests_done (a : α) : Requests known (Prog.done a : Relay α) := fun _ _ => trivial

theorem requests_raised (x : PyExn) : Requests known (Prog.raised x : Relay α) :=
  fun _ h => nomatch h

/-- After a quiet part, the same events are known. -/
theorem requests_bind_quiet {q : Relay α} (hq : q.Calls Op.Quiet) {f : α → Relay β}
    (hf : ∀ a, Requests known (f a)) : Requests known (q >>= f) := by
  induction q with
  | done a => exact hf a
  | raised x => exact requests_raised x
  | call e k ih =>
    refine ⟨⟨hq.1.benign, ?_⟩, fun r => ?_⟩
    · rintro id rfl
      exact Bool.noConfusion (hq.1.isEnqueue : true = false)
    · change Prog.Obeys requestContract _ (k r >>= f) (known ++ e.learns r)
      rw [hq.1.learns r, List.append_nil]
      exact ih r (hq.2 r)

/-- A quiet program meets the contract. -/
theorem requests_of_quiet {q : Relay α} (hq : q.Calls Op.Quiet) : Requests known q := by
  have h : Requests known (q >>= Prog.done) := requests_bind_quiet hq requests_done
  rwa [show q >>= Prog.done = q from bind_pure q] at h

/-- Two parts that meet the contract whatever is known. -/
theorem requests_bind {q : Relay α} (hq : ∀ known, Requests known q) {f : α → Relay β}
    (hf : ∀ a known, Requests known (f a)) (known : List UUID) : Requests known (q >>= f) := by
  refine (Prog.obeys_bind q f).mpr ((hq known).mono fun r known' _ => ?_)
  cases r with
  | ok a => exact hf a known'
  | error x => exact fun _ h => nomatch h

/-- An event that is known may be enqueued. -/
theorem requests_enqueueJob {id : UUID} (hid : id ∈ known) {f : Except PyExn Bool → Relay β}
    (hf : ∀ r, Requests known (f r)) : Requests known ((enqueueJob id).attempt >>= f) := by
  refine ⟨⟨Op.benign_of_writes rfl, ?_⟩, fun r => ?_⟩
  · rintro _ ⟨⟩
    exact hid
  · have h : Requests (known ++ []) (f r) := (List.append_nil known).symm ▸ hf r
    cases r <;> exact h

/-- An event that is known may be enqueued. -/
theorem requests_enqueueJob' {id : UUID} (hid : id ∈ known) {f : Bool → Relay β}
    (hf : ∀ b, Requests known (f b)) : Requests known (enqueueJob id >>= f) := by
  refine (Prog.obeys_perform_bind (I := relay) (Op.enqueueJob id) f).mpr
    ⟨⟨Op.benign_of_writes rfl, ?_⟩, fun b => ?_, fun _ _ h => nomatch h⟩
  · rintro _ ⟨⟩
    exact hid
  · change Prog.Obeys requestContract _ (f b) (known ++ [])
    rw [List.append_nil]
    exact hf b

/-- An event that has been inserted is known. -/
theorem requests_createEvent {row : UUID → Datetime → WebhookEvent} (hrow : ∀ u t, (row u t).IsNew)
    {f : WebhookEvent → Relay β} (hf : ∀ u t, Requests (known ++ [(row u t).id]) (f (row u t))) :
    Requests known (EventRepository.create row >>= f) := by
  unfold EventRepository.create
  simp only [bind_assoc]
  refine requests_bind_quiet (q := uuid4) (Prog.calls_perform ⟨Op.benign_of_writes rfl, rfl,
    fun _ => rfl⟩) fun u => ?_
  refine requests_bind_quiet (q := now) (Prog.calls_perform ⟨Op.benign_of_writes rfl, rfl,
    fun _ => rfl⟩) fun t => ?_
  refine (Prog.obeys_perform_bind (I := relay) (Op.insertEvent (row u t)) _).mpr
    ⟨⟨Op.benign_of_write rfl (hrow u t), fun _ h => nomatch h⟩, fun _ => hf u t,
      fun _ _ h => nomatch h⟩

end rules

/-! ### The quiet handlers -/

section quiet

/-- A call without statements that makes nothing known is quiet. -/
theorem Op.quiet_of_writes {e : Op} (h : e.writes = []) (hq : e.isEnqueue = false)
    (hl : ∀ r, e.learns r = []) : e.Quiet := ⟨Op.benign_of_writes h, hq, hl⟩

theorem quiet_flushEndpoint {old new : WebhookEndpoint}
    (h : new.maxRetries ≠ old.maxRetries → budgetOk new.maxRetries) :
    (Op.flushEndpoint old new).Quiet := by
  refine ⟨?_, rfl, fun _ => rfl⟩
  intro w hw
  change w ∈ (if EndpointColumns.diff old new = .none then [] else
    [.updateEndpoint old.id (.diff old new)]) at hw
  split_ifs at hw with hd
  · cases hw
  · rw [List.mem_singleton] at hw
    subst hw
    intro n hn
    have hn : changed old.maxRetries new.maxRetries = some n := hn
    unfold changed at hn
    split_ifs at hn with he
    cases hn
    exact h he

theorem quiet_flushDeadLetter (old new : DeadLetterEvent) : (Op.flushDeadLetter old new).Quiet := by
  refine ⟨?_, rfl, fun _ => rfl⟩
  intro w hw
  change w ∈ (if DeadLetterColumns.diff old new = .none then [] else
    [.updateDeadLetter old.id (.diff old new)]) at hw
  split_ifs at hw with hd
  · cases hw
  · rw [List.mem_singleton] at hw
    subst hw
    trivial

theorem quiet_now : now.Calls Op.Quiet :=
  Prog.calls_perform (Op.quiet_of_writes rfl rfl fun _ => rfl)

theorem quiet_commit : commit.Calls Op.Quiet :=
  Prog.calls_perform (Op.quiet_of_writes rfl rfl fun _ => rfl)

theorem quiet_nowPlusSeconds (x : PyFloat) : (nowPlusSeconds x).Calls Op.Quiet :=
  quiet_now.bind fun _ => Prog.calls_ofExcept _

theorem quiet_found {α : Type} (detail : Str) (x : Option α) :
    (Api.found detail x).Calls Op.Quiet := by
  cases x with
  | none => exact Prog.calls_raised _
  | some a => exact Prog.calls_done a

theorem quiet_getDb {α : Type} {handler : Relay α} (h : handler.Calls Op.Quiet) :
    (Api.getDb handler).Calls Op.Quiet :=
  h.bind fun _ => quiet_commit.bind fun _ => Prog.calls_done _

theorem quiet_createEndpoint (data : EndpointCreate) :
    (Api.createEndpoint data).Calls Op.Quiet := by
  have htoken : tokenHex.Calls Op.Quiet :=
    Prog.calls_perform (Op.quiet_of_writes rfl rfl fun _ => rfl)
  have huuid : uuid4.Calls Op.Quiet :=
    Prog.calls_perform (Op.quiet_of_writes rfl rfl fun _ => rfl)
  refine htoken.bind fun secret => huuid.bind fun id => Prog.Calls.bind ?_ fun _ =>
    Prog.calls_done _
  exact Prog.calls_perform ⟨Op.benign_of_write rfl data.maxRetries_mem, rfl, fun _ => rfl⟩

theorem quiet_updateEndpoint (id : UUID) (data : EndpointUpdate) :
    (Api.updateEndpoint id data).Calls Op.Quiet := by
  have hget : (EndpointRepository.getById id).Calls Op.Quiet :=
    Prog.calls_perform (Op.quiet_of_writes rfl rfl fun _ => rfl)
  refine Prog.Calls.bind (hget.bind fun row => ?_) fun _ => quiet_found _ _
  cases row with
  | none => exact Prog.calls_done _
  | some endpoint =>
    refine Prog.Calls.bind (Prog.calls_perform (quiet_flushEndpoint fun hne => ?_)) fun _ =>
      Prog.calls_done _
    -- a budget that changes is the one of the request
    change data.maxRetries.getD endpoint.maxRetries ≠ _ at hne
    change budgetOk (data.maxRetries.getD endpoint.maxRetries)
    cases hm : data.maxRetries with
    | none => exact absurd (by rw [hm]; rfl) hne
    | some n => exact data.maxRetries_mem n hm

theorem quiet_deleteEndpoint (id : UUID) : (Api.deleteEndpoint id).Calls Op.Quiet := by
  refine Prog.Calls.bind (q := EndpointRepository.deactivate id) ?_ fun there => ?_
  · exact Prog.calls_perform ⟨Op.benign_of_write rfl (fun _ h => nomatch h), rfl, fun _ => rfl⟩
  · cases there with
    | true => exact Prog.calls_done _
    | false => exact Prog.calls_raised _

theorem quiet_rotateSecret (id : UUID) : (Api.rotateSecret id).Calls Op.Quiet := by
  have hget : (EndpointRepository.getById id).Calls Op.Quiet :=
    Prog.calls_perform (Op.quiet_of_writes rfl rfl fun _ => rfl)
  have htoken : tokenHex.Calls Op.Quiet :=
    Prog.calls_perform (Op.quiet_of_writes rfl rfl fun _ => rfl)
  refine Prog.Calls.bind (hget.bind fun row => ?_) fun _ => quiet_found _ _
  cases row with
  | none => exact Prog.calls_done _
  | some endpoint =>
    refine htoken.bind fun secret => Prog.Calls.bind ?_ fun _ => Prog.calls_done _
    exact Prog.calls_perform (quiet_flushEndpoint fun hne => absurd rfl hne)

theorem quiet_discardDlqEntry (id : UUID) : (Api.discardDlqEntry id).Calls Op.Quiet := by
  refine Prog.Calls.bind (q := DeadLetterRepository.deleteEntry id) ?_ fun there => ?_
  · exact Prog.calls_perform ⟨Op.benign_of_write rfl trivial, rfl, fun _ => rfl⟩
  · cases there with
    | true => exact Prog.calls_done _
    | false => exact Prog.calls_raised _

theorem quiet_globalStats : Api.globalStats.Calls Op.Quiet := by
  have hcounts : (EventRepository.countByStatus none).Calls Op.Quiet :=
    Prog.calls_perform (Op.quiet_of_writes rfl rfl fun _ => rfl)
  have hdlq : DeadLetterRepository.count.Calls Op.Quiet :=
    Prog.calls_perform (Op.quiet_of_writes rfl rfl fun _ => rfl)
  have hopen : getOpenCircuits.Calls Op.Quiet :=
    Prog.calls_perform (Op.quiet_of_writes rfl rfl fun _ => rfl)
  exact hcounts.bind fun _ => hdlq.bind fun _ => hopen.bind fun _ => Prog.calls_done _

theorem quiet_markReplayed (entry : DeadLetterEvent) :
    (DeadLetterRepository.markReplayed entry).Calls Op.Quiet :=
  quiet_now.bind fun _ => Prog.Calls.bind (Prog.calls_perform (quiet_flushDeadLetter _ _)) fun _ =>
    Prog.calls_done _

end quiet

/-! ### The handlers that enqueue -/

section enqueue

variable {known : List UUID}

theorem requests_lookup_bind {β : Type} (data : EventCreate) {f : Option WebhookEvent → Relay β}
    (hf : ∀ x, Requests known (f x)) : Requests known (Api.lookup data >>= f) := by
  refine requests_bind_quiet ?_ hf
  unfold Api.lookup
  cases data.idempotencyKey with
  | none => exact Prog.calls_done _
  | some key =>
    dsimp only
    split_ifs
    · exact Prog.calls_done _
    · exact Prog.calls_perform (Op.quiet_of_writes rfl rfl fun _ => rfl)

theorem requests_createEventHandler (data : EventCreate) (known : List UUID) :
    Requests known (Api.createEvent data) := by
  refine requests_lookup_bind data fun existing => ?_
  cases existing with
  | some r => exact requests_done r
  | none =>
    unfold Api.ingest
    refine requests_bind_quiet (q := EndpointRepository.getById data.endpointId)
      (Prog.calls_perform (Op.quiet_of_writes rfl rfl fun _ => rfl)) fun row => ?_
    refine requests_bind_quiet (quiet_found _ row) fun endpoint => ?_
    split_ifs
    · exact requests_raised _
    · exact requests_raised _
    · refine requests_createEvent (fun _ _ => ⟨rfl, rfl, rfl, rfl⟩) fun u t => ?_
      exact requests_enqueueJob' (List.mem_append_right _ List.mem_cons_self) fun _ =>
        requests_done _

theorem requests_replaySingle (id : UUID) (force own : Bool) (known : List UUID) :
    Requests known (ReplayService.replaySingle id force own) := by
  unfold ReplayService.replaySingle
  refine requests_bind_quiet (q := DeadLetterRepository.getById id)
    (Prog.calls_perform (Op.quiet_of_writes rfl rfl fun _ => rfl)) fun row => ?_
  cases row with
  | none => exact requests_raised _
  | some entry =>
    refine requests_bind_quiet (calls_checkRecent (Op.quiet_of_writes rfl rfl fun _ => rfl)
      entry force) fun _ => ?_
    refine requests_createEvent (fun _ _ => ⟨rfl, rfl, rfl, rfl⟩) fun u t => ?_
    refine requests_bind_quiet (quiet_markReplayed entry) fun entry' => ?_
    refine requests_bind_quiet (q := resetCircuit entry'.endpointId)
      (Prog.calls_perform (Op.quiet_of_writes rfl rfl fun _ => rfl)) fun _ => ?_
    refine requests_bind_quiet (q := ReplayService.commitOwn own) ?_ fun _ => ?_
    · unfold ReplayService.commitOwn
      split_ifs
      · exact quiet_commit
      · exact Prog.calls_done _
    · exact requests_enqueueJob' (List.mem_append_right _ List.mem_cons_self) fun _ =>
        requests_done _

theorem requests_attempt {α : Type} {q : Relay α} (h : Requests known q) :
    Requests known q.attempt :=
  (Prog.obeys_attempt q).mpr (h.mono fun _ _ _ _ _ => trivial)

/-- The loop of a bulk replay, by induction on the entries that are left. -/
theorem requests_replayEach (force : Bool) (entries : List DeadLetterEvent) :
    ∀ (results : List ReplayResult) (errors : ℕ) (known : List UUID),
      Requests known (ReplayService.replayEach force entries results errors) := by
  induction entries with
  | nil => exact fun _ _ _ => requests_done _
  | cons entry entries ih =>
    intro results errors known
    refine requests_bind (fun known => requests_attempt (requests_replaySingle entry.id force false
      known)) (fun r known => ?_) known
    cases r with
    | ok result => exact ih _ _ known
    | error x =>
      dsimp only
      split_ifs
      · exact ih _ _ known
      · exact requests_raised x

theorem requests_replayBulk (endpointId : Option UUID) (eventType : Option Str) (force : Bool)
    (known : List UUID) :
    Requests known (ReplayService.replayBulk endpointId eventType force) := by
  unfold ReplayService.replayBulk
  refine requests_bind_quiet (q := DeadLetterRepository.getUnreplayedByFilter endpointId eventType)
    (Prog.calls_perform (Op.quiet_of_writes rfl rfl fun _ => rfl)) fun entries => ?_
  refine requests_bind (requests_replayEach force entries [] 0) (fun x known => ?_) known
  exact requests_of_quiet (quiet_commit.bind fun _ => Prog.calls_done _)

theorem requests_replayDlqEvent (id : UUID) (force : Bool) (known : List UUID) :
    Requests known (Api.replayDlqEvent id force) := by
  refine requests_bind (fun known => requests_attempt (requests_replaySingle id force true known))
    (fun r known => ?_) known
  rcases r with x | result
  · cases x <;> exact requests_raised _
  · exact requests_done result

/-- The loop of the cron job, by induction on the events that are left. -/
theorem requests_enqueueEach (events : List WebhookEvent) (enqueued : ℕ)
    (h : ∀ r ∈ events, r.id ∈ known) : Requests known (Worker.enqueueEach events enqueued) := by
  induction events generalizing enqueued with
  | nil => exact requests_done _
  | cons r events ih =>
    have htail (n : ℕ) := ih n fun r' hr' => h r' (List.mem_cons_of_mem _ hr')
    refine requests_enqueueJob (h r List.mem_cons_self) fun answer => ?_
    cases answer with
    | ok _ => exact htail _
    | error x =>
      dsimp only
      split_ifs
      · exact htail _
      · exact requests_raised x

theorem requests_pollPendingRetries (known : List UUID) :
    Requests known Worker.pollPendingRetries := by
  unfold Worker.pollPendingRetries EventRepository.getDueForRetry EventRepository.getStalePending
  simp only [bind_assoc]
  refine requests_bind_quiet quiet_now fun t => ?_
  refine (Prog.obeys_perform_bind (I := relay) (Op.selectDueForRetry t 500) _).mpr
    ⟨⟨Op.benign_of_writes rfl, fun _ h => nomatch h⟩, fun due => ?_, fun _ _ h => nomatch h⟩
  refine requests_bind_quiet (quiet_nowPlusSeconds _) fun cutoff => ?_
  refine (Prog.obeys_perform_bind (I := relay) (Op.selectStalePending cutoff 100) _).mpr
    ⟨⟨Op.benign_of_writes rfl, fun _ h => nomatch h⟩, fun stale => ?_, fun _ _ h => nomatch h⟩
  refine requests_enqueueEach _ 0 fun r hr => ?_
  rcases List.mem_append.mp hr with hr | hr
  · exact List.mem_append_left _ (List.mem_append_right _ (List.mem_map_of_mem hr))
  · exact List.mem_append_right _ (List.mem_map_of_mem hr)

end enqueue

/-- Mapping the result of a program keeps the contract. -/
theorem requests_map {α β : Type} {known : List UUID} {q : Relay α} (h : Requests known q)
    (g : α → β) : Requests known (g <$> q) :=
  (Prog.obeys_map g q).mpr (h.mono fun _ _ _ _ _ => trivial)

/-- A handler that meets the contract still does with its session committed at the end. -/
theorem requests_getDb {α : Type} {handler : Relay α} (h : ∀ known, Requests known handler)
    (known : List UUID) : Requests known (Api.getDb handler) :=
  requests_bind h (fun _ _ => requests_of_quiet (quiet_commit.bind fun _ => Prog.calls_done _))
    known

/-- **Every coroutine that does not deliver meets the contract.** -/
theorem program_requests (deps : Deps) {o : Origin} (ho : o.delivers = none) :
    Requests [] (o.program deps) := by
  cases o with
  | job id => cases ho
  | reaped id => cases ho
  | cron => exact requests_map (requests_pollPendingRetries []) _
  | request r =>
    cases r with
    | createEndpoint data =>
      exact requests_map (requests_of_quiet (quiet_getDb (quiet_createEndpoint data))) _
    | updateEndpoint id data =>
      exact requests_map (requests_of_quiet (quiet_getDb (quiet_updateEndpoint id data))) _
    | deleteEndpoint id =>
      exact requests_map (requests_of_quiet (quiet_getDb (quiet_deleteEndpoint id))) _
    | rotateSecret id =>
      exact requests_map (requests_of_quiet (quiet_getDb (quiet_rotateSecret id))) _
    | createEvent data =>
      exact requests_map (requests_getDb (requests_createEventHandler data) []) _
    | replay id force => exact requests_map (requests_replayDlqEvent id force []) _
    | replayBulk endpointId eventType force =>
      exact requests_map (requests_replayBulk endpointId eventType force []) _
    | discard id =>
      exact requests_map (requests_of_quiet (quiet_getDb (quiet_discardDlqEntry id))) _
    | stats => exact requests_map (requests_of_quiet (quiet_getDb quiet_globalStats)) _

end WebhookRelay

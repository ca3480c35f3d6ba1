import WebhookRelay.Services.Delivery

/-!
# What a delivery run commits

A run of `deliver` that commits does so once, in one of five ways (`Exit`). `Exit.writes` is the
transaction, given the event and the endpoint the run has loaded, and the lemmas below say what
that transaction does to each table when it is applied to a database in which the event's row may
have changed since it was loaded:

* only the row of the event changes, by `Exit.update`, whose columns are given one by one;
* on the row that was loaded, `Exit.update` gives the object the run ends with (`update_self`);
* the attempt and the dead letter entry of the exit are inserted, no other row of theirs changes.
-/

namespace WebhookRelay

open Data EventRepository

/-- The statements of a flush of an event. -/
def flush (old new : WebhookEvent) : List Write :=
  if EventColumns.diff old new = .none then [] else [.updateEvent old.id (.diff old new)]

/-- The statement a 410 response leads to. -/
def goneWrites (endpoint : WebhookEndpoint) (attempt : DeliveryAttempt) : List Write :=
  if attempt.httpStatusCode = some 410 then
    [.updateEndpoint endpoint.id { EndpointColumns.none with isActive := some false }]
  else []

/-- The ways in which a run of `deliver` commits, with the rows it has built. -/
inductive Exit where
  | inactive (entry : DeadLetterEvent)
  | refused (next : Datetime)
  | delivered (attempt : DeliveryAttempt) (now : Datetime)
  | retried (attempt : DeliveryAttempt) (next : Datetime)
  | exhausted (attempt : DeliveryAttempt) (entry : DeadLetterEvent)

namespace Exit

variable (ev : WebhookEvent) (ep : WebhookEndpoint)

/-- The transaction of an exit. -/
def writes : Exit → List Write
  | .inactive d => flush ev (deadLettered ev) ++ [.insertDeadLetter d]
  | .refused t => flush ev (retryScheduled ev t)
  | .delivered a t =>
    flush ev (delivering ev) ++ [.insertAttempt a] ++
      flush (delivering ev) (EventRepository.delivered (delivering ev) t)
  | .retried a t =>
    flush ev (delivering ev) ++ [.insertAttempt a] ++ goneWrites ep a ++
      flush (delivering ev) (retryScheduled (delivering ev) t)
  | .exhausted a d =>
    flush ev (delivering ev) ++ [.insertAttempt a] ++ goneWrites ep a ++ [.insertDeadLetter d] ++
      flush (delivering ev) (deadLettered (delivering ev))

/-- The event object the run ends with. -/
def event : Exit → WebhookEvent
  | .inactive _ => deadLettered ev
  | .refused t => retryScheduled ev t
  | .delivered _ t => EventRepository.delivered (delivering ev) t
  | .retried _ t => retryScheduled (delivering ev) t
  | .exhausted _ _ => deadLettered (delivering ev)

/-- The change of the event's row. -/
def update : Exit → WebhookEvent → WebhookEvent
  | .inactive _, r => (EventColumns.diff ev (deadLettered ev)).apply r
  | .refused t, r => (EventColumns.diff ev (retryScheduled ev t)).apply r
  | .delivered _ t, r =>
    (EventColumns.diff (delivering ev) (EventRepository.delivered (delivering ev) t)).apply
      ((EventColumns.diff ev (delivering ev)).apply r)
  | .retried _ t, r =>
    (EventColumns.diff (delivering ev) (retryScheduled (delivering ev) t)).apply
      ((EventColumns.diff ev (delivering ev)).apply r)
  | .exhausted _ _, r =>
    (EventColumns.diff (delivering ev) (deadLettered (delivering ev))).apply
      ((EventColumns.diff ev (delivering ev)).apply r)

/-- The status the run ends with. -/
def status : Exit → EventStatus
  | .inactive _ => .deadLettered
  | .refused _ => .failed
  | .delivered _ _ => .delivered
  | .retried _ _ => .failed
  | .exhausted _ _ => .deadLettered

/-- The row of the attempt log, when a POST was sent. -/
def attempt? : Exit → Option DeliveryAttempt
  | .inactive _ => none
  | .refused _ => none
  | .delivered a _ => some a
  | .retried a _ => some a
  | .exhausted a _ => some a

/-- The row of the dead letter queue. -/
def deadLetter? : Exit → Option DeadLetterEvent
  | .inactive d => some d
  | .exhausted _ d => some d
  | _ => none

/-- The time of the next try. -/
def next? : Exit → Option Datetime
  | .refused t => some t
  | .retried _ t => some t
  | _ => none

/-- The run has deactivated the endpoint. -/
def deactivates : Exit → Bool
  | .retried a _ => decide (a.httpStatusCode = some 410)
  | .exhausted a _ => decide (a.httpStatusCode = some 410)
  | _ => false

/-- The circuit breaker refused the run. -/
def isRefusal : Exit → Bool
  | .refused _ => true
  | _ => false

/-- What the run answers with. -/
def outcome : Exit → DeliveryOutcome
  | .inactive _ =>
    { DeliveryOutcome.of .deadLettered ev.id with attemptCount := some ev.attemptCount }
  | .refused t =>
    { DeliveryOutcome.of .circuitOpen ev.id with
      endpointId := some ep.id, nextRetryAt := some t }
  | .delivered a _ =>
    { DeliveryOutcome.of .success ev.id with
      attemptId := some a.id, durationMs := some a.durationMs }
  | .retried _ t => { DeliveryOutcome.of .retryScheduled ev.id with nextRetryAt := some t }
  | .exhausted _ _ =>
    { DeliveryOutcome.of .deadLettered ev.id with attemptCount := some (ev.attemptCount + 1) }

end Exit

/-! ### Rows that belong to a run -/

/-- The attempt row is the log of this attempt of the event. -/
structure DeliveryAttempt.Logs (a : DeliveryAttempt) (ev : WebhookEvent) : Prop where
  eventId : a.eventId = ev.id
  attemptNumber : a.attemptNumber = ev.attemptCount + 1
  success : a.success = true ↔ ∃ n, a.httpStatusCode = some n ∧ isSuccess n = true

/-- The entry holds what the dead letter queue keeps of the event after `n` attempts. -/
structure DeadLetterEvent.Records (d : DeadLetterEvent) (ev : WebhookEvent) (endpointId : UUID)
    (n : ℕ) : Prop where
  eventId : d.eventId = ev.id
  endpointId : d.endpointId = endpointId
  payload : d.originalPayload = ev.payload
  eventType : d.eventType = ev.eventType
  totalAttempts : d.totalAttempts = n

/-- The row `deliver` logs is the log of this attempt. -/
theorem logs_attemptRow (ev : WebhookEvent) {p : PostResult}
    (hp : p.success = p.httpStatus.any isSuccess) (crypto : Crypto) (headers : Dict Str Str)
    (d : ℚ) (id : UUID) (now : Datetime) :
    (DeliveryService.attemptRow crypto (delivering ev) headers p d id now).Logs ev where
  eventId := rfl
  attemptNumber := rfl
  success := by
    simp only [DeliveryService.attemptRow, hp, Option.any_eq_true]

/-- The row `deliver` puts into the dead letter queue holds what is kept of the event. -/
theorem records_deadLetterRow (ev : WebhookEvent) (ep : WebhookEndpoint) (err : Str)
    (st : Option ℤ) (id : UUID) (now : Datetime) :
    (DeliveryService.deadLetterRow ev ep err st id now).Records ev ep.id ev.attemptCount :=
  ⟨rfl, rfl, rfl, rfl, rfl⟩

/-- The decision of an exit was taken on the rows the run has loaded. -/
def Exit.Valid (ev : WebhookEvent) (ep : WebhookEndpoint) : Exit → Prop
  | .inactive d => ep.isActive = false ∧ d.Records ev ep.id ev.attemptCount
  | .refused _ => ep.isActive = true
  | .delivered a _ => a.Logs ev ∧ a.success = true
  | .retried a _ =>
    a.Logs ev ∧ a.success = false ∧ ev.attemptCount + 1 < ep.maxRetries ∧
      a.httpStatusCode ≠ some 410
  | .exhausted a d => a.Logs ev ∧ a.success = false ∧ d.Records ev ep.id (ev.attemptCount + 1)

/-- The attempt of a valid exit is the log of this attempt. -/
theorem Exit.Valid.logs {ev : WebhookEvent} {ep : WebhookEndpoint} {x : Exit}
    (h : x.Valid ev ep) {a : DeliveryAttempt} (ha : x.attempt? = some a) : a.Logs ev := by
  cases x <;> simp only [attempt?, reduceCtorEq, Option.some.injEq] at ha <;> subst ha <;>
    exact h.1

/-- The entry of a valid exit records the attempts made, this one included. -/
theorem Exit.Valid.records {ev : WebhookEvent} {ep : WebhookEndpoint} {x : Exit}
    (h : x.Valid ev ep) {d : DeadLetterEvent} (hd : x.deadLetter? = some d) :
    d.Records ev ep.id (if x.attempt?.isSome then ev.attemptCount + 1 else ev.attemptCount) := by
  cases x <;> simp only [deadLetter?, reduceCtorEq, Option.some.injEq] at hd <;> subst hd
  · exact h.2
  · exact h.2.2

/-- An exit creates an entry if and only if it dead-letters the event. -/
theorem Exit.status_eq_deadLettered_iff (x : Exit) :
    x.status = .deadLettered ↔ x.deadLetter?.isSome = true := by
  cases x <;> simp [status, deadLetter?]

/-! ### The effect on the tables -/

section effect

variable {ev : WebhookEvent} {ep : WebhookEndpoint} {db : Db}

/-- A flush updates the row of its event, if there is something to write. -/
theorem applyAll_flush (db : Db) (old new : WebhookEvent) :
    db.applyAll (flush old new) =
      { db with
        events := db.events.modify old.id (EventColumns.diff old new).apply
          (EventColumns.diff old new).apply_id } := by
  unfold flush
  split_ifs with h
  · have hid : (EventColumns.diff old new).apply = id := by
      rw [h]
      rfl
    simp only [hid, Table.modify_id, Db.applyAll_nil]
  · rfl

@[simp] theorem events_goneWrites (db : Db) (a : DeliveryAttempt) :
    (db.applyAll (goneWrites ep a)).events = db.events := by
  unfold goneWrites
  split_ifs <;> rfl

@[simp] theorem attempts_goneWrites (db : Db) (a : DeliveryAttempt) :
    (db.applyAll (goneWrites ep a)).attempts = db.attempts := by
  unfold goneWrites
  split_ifs <;> rfl

@[simp] theorem deadLetters_goneWrites (db : Db) (a : DeliveryAttempt) :
    (db.applyAll (goneWrites ep a)).deadLetters = db.deadLetters := by
  unfold goneWrites
  split_ifs <;> rfl

/-- An exit changes the row of its event and no other event. -/
theorem Exit.events_get? (x : Exit) (db : Db) (id : UUID) :
    (db.applyAll (x.writes ev ep)).events.get? id =
      if id = ev.id then (db.events.get? id).map (x.update ev) else db.events.get? id := by
  have hid : (delivering ev).id = ev.id := rfl
  cases x <;>
    simp only [writes, Db.applyAll_append, applyAll_flush, Db.applyAll_cons, Db.applyAll_nil,
      Db.apply, events_goneWrites, Table.get?_modify, hid] <;>
    split_ifs <;> cases db.events.get? id <;> rfl

/-- An exit logs its attempt. -/
theorem Exit.attempts_eq (x : Exit) (db : Db) :
    (db.applyAll (x.writes ev ep)).attempts =
      match x.attempt? with
      | some a => db.attempts.insert a
      | none => db.attempts := by
  cases x <;>
    simp only [writes, Db.applyAll_append, applyAll_flush, Db.applyAll_cons, Db.applyAll_nil,
      Db.apply, attempts_goneWrites, attempt?]

/-- An exit inserts its dead letter entry. -/
theorem Exit.deadLetters_eq (x : Exit) (db : Db) :
    (db.applyAll (x.writes ev ep)).deadLetters =
      match x.deadLetter? with
      | some d => db.deadLetters.insert d
      | none => db.deadLetters := by
  cases x <;>
    simp only [writes, Db.applyAll_append, applyAll_flush, Db.applyAll_cons, Db.applyAll_nil,
      Db.apply, deadLetters_goneWrites, deadLetter?]

/-- A 410 response deactivates the endpoint. -/
theorem Exit.endpoints_get? (x : Exit) (db : Db) (id : UUID) :
    (db.applyAll (x.writes ev ep)).endpoints.get? id =
      if id = ep.id ∧ x.deactivates then
        (db.endpoints.get? id).map fun r => { r with isActive := false }
      else db.endpoints.get? id := by
  have hgone (db : Db) (a : DeliveryAttempt) :
      (db.applyAll (goneWrites ep a)).endpoints.get? id =
        if id = ep.id ∧ a.httpStatusCode = some 410 then
          (db.endpoints.get? id).map fun r => { r with isActive := false }
        else db.endpoints.get? id := by
    unfold goneWrites
    by_cases ha : a.httpStatusCode = some 410
    · rw [if_pos ha]
      simp only [Db.applyAll_cons, Db.applyAll_nil, Db.apply, Table.get?_modify]
      by_cases hid : id = ep.id
      · rw [if_pos hid, if_pos ⟨hid, ha⟩]
        rfl
      · rw [if_neg hid, if_neg fun h => hid h.1]
    · rw [if_neg ha, if_neg fun h => ha h.2]
      rfl
  cases x <;>
    simp [writes, Db.applyAll_append, applyAll_flush, Db.applyAll_cons, Db.applyAll_nil,
      Db.apply, hgone, deactivates]

end effect

/-! ### Dead letter entries ever created -/

/-- The entry that a statement creates for an event. -/
def Write.entryOf (id : UUID) : Write → Option DeadLetterEvent
  | .insertDeadLetter d => if d.eventId = id then some d else none
  | _ => none

/-- The entries that a list of statements creates for an event. -/
def deadLettersOf (ws : List Write) (id : UUID) : List DeadLetterEvent :=
  ws.filterMap (Write.entryOf id)

theorem deadLettersOf_append (ws ws' : List Write) (id : UUID) :
    deadLettersOf (ws ++ ws') id = deadLettersOf ws id ++ deadLettersOf ws' id :=
  List.filterMap_append

theorem deadLettersOf_flush (old new : WebhookEvent) (id : UUID) :
    deadLettersOf (flush old new) id = [] := by
  unfold flush
  split_ifs <;> rfl

theorem deadLettersOf_goneWrites (ep : WebhookEndpoint) (a : DeliveryAttempt) (id : UUID) :
    deadLettersOf (goneWrites ep a) id = [] := by
  unfold goneWrites
  split_ifs <;> rfl

theorem deadLettersOf_insertAttempt (a : DeliveryAttempt) (id : UUID) :
    deadLettersOf [.insertAttempt a] id = [] := rfl

theorem deadLettersOf_insertDeadLetter (d : DeadLetterEvent) (id : UUID) :
    deadLettersOf [.insertDeadLetter d] id = if d.eventId = id then [d] else [] := by
  by_cases h : d.eventId = id <;> simp [deadLettersOf, Write.entryOf, h]

/-- An exit creates its entry and no other. -/
theorem Exit.deadLettersOf_writes (x : Exit) (ev : WebhookEvent) (ep : WebhookEndpoint)
    (id : UUID) :
    deadLettersOf (x.writes ev ep) id =
      match x.deadLetter? with
      | some d => if d.eventId = id then [d] else []
      | none => [] := by
  cases x <;>
    simp only [writes, deadLetter?, deadLettersOf_append, deadLettersOf_flush,
      deadLettersOf_goneWrites, deadLettersOf_insertAttempt, deadLettersOf_insertDeadLetter,
      List.nil_append, List.append_nil]

/-! ### The columns of the event's row -/

namespace Exit

variable {ev : WebhookEvent} (x : Exit) (r : WebhookEvent)

/-- On the row that was loaded the columns written are those of the object at the end. -/
theorem update_self : x.update ev ev = x.event ev := by
  have h {a b : WebhookEvent} (hid : b.id = a.id) (he : b.endpointId = a.endpointId)
      (ht : b.eventType = a.eventType) (hp : b.payload = a.payload)
      (hk : b.idempotencyKey = a.idempotencyKey) (hc : b.createdAt = a.createdAt) :
      (EventColumns.diff a b).apply a = b := by
    cases a
    cases b
    simp_all [EventColumns.apply, EventColumns.diff]
  have hd : (EventColumns.diff ev (delivering ev)).apply ev = delivering ev :=
    h rfl rfl rfl rfl rfl rfl
  cases x <;> simp only [update, event, hd] <;> exact h rfl rfl rfl rfl rfl rfl

@[simp] theorem event_status : (x.event ev).status = x.status := by cases x <;> rfl

@[simp] theorem event_attemptCount :
    (x.event ev).attemptCount =
      if x.attempt?.isSome then ev.attemptCount + 1 else ev.attemptCount := by
  cases x <;> rfl

@[simp] theorem update_id : (x.update ev r).id = r.id := by cases x <;> rfl

@[simp] theorem update_endpointId : (x.update ev r).endpointId = r.endpointId := by
  cases x <;> rfl

@[simp] theorem update_eventType : (x.update ev r).eventType = r.eventType := by cases x <;> rfl

@[simp] theorem update_payload : (x.update ev r).payload = r.payload := by cases x <;> rfl

/-- A refusal of an event that was already `failed` leaves the status alone; every other exit
writes it. -/
theorem update_status (h : ev.status.terminal = false) :
    (x.update ev r).status =
      if x.isRefusal = true ∧ ev.status = .failed then r.status else x.status := by
  cases x <;> cases hs : ev.status <;>
    simp_all [update, EventColumns.apply, EventColumns.diff, changed, delivering, retryScheduled,
      EventRepository.delivered, deadLettered, status, isRefusal, EventStatus.terminal]

/-- The counter is the loaded one plus one when a POST was sent. -/
theorem update_attemptCount (ev r : WebhookEvent) :
    (x.update ev r).attemptCount =
      if x.attempt?.isSome then ev.attemptCount + 1 else r.attemptCount := by
  cases x <;>
    simp [update, EventColumns.apply, EventColumns.diff, changed, delivering, retryScheduled,
      EventRepository.delivered, deadLettered, attempt?]

/-- The time of the next try is written when it differs from the loaded one. -/
theorem update_nextRetryAt :
    (x.update ev r).nextRetryAt =
      if x.next?.isSome ∧ ev.nextRetryAt ≠ x.next? then x.next? else r.nextRetryAt := by
  cases x <;>
    simp [update, EventColumns.apply, EventColumns.diff, changed, delivering, retryScheduled,
      EventRepository.delivered, deadLettered, next?, eq_comm, apply_ite] <;>
    split_ifs <;> rfl

/-- The time of delivery is written by a delivery. -/
theorem update_deliveredAt :
    (x.update ev r).deliveredAt =
      match x with
      | .delivered _ t => if ev.deliveredAt = some t then r.deliveredAt else some t
      | _ => r.deliveredAt := by
  cases x <;>
    simp [update, EventColumns.apply, EventColumns.diff, changed, delivering, retryScheduled,
      EventRepository.delivered, deadLettered, eq_comm, apply_ite]
  split_ifs <;> rfl

end Exit

end WebhookRelay

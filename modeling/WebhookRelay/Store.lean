import WebhookRelay.Models

/-!
# The database: writes, tables, queries

A transaction is a list of `Write`s. An UPDATE carries the columns it sets: the unit of work of
the ORM emits the columns whose value differs from the one the object was loaded with
(`EventColumns.diff` and its siblings), and no statement at all when none differs. The tables are
the replay of the writes committed so far, in commit order, so that questions about everything
that was ever committed are questions about that list.

The queries are those of the four repositories. PostgreSQL orders rows with equal sort keys in
some fixed way; here they come in insertion order.
-/

namespace WebhookRelay

open Data

/-! ### Columns of an UPDATE -/

/-- The column value to write, if it differs from the loaded one. -/
def changed {α : Type} [DecidableEq α] (old new : α) : Option α :=
  if new = old then none else some new

@[simp] theorem changed_getD {α : Type} [DecidableEq α] (old new : α) :
    (changed old new).getD old = new := by
  unfold changed
  split_ifs with h <;> simp [h]

/-- The columns of `webhook_events` that any code updates. -/
structure EventColumns where
  status : Option EventStatus
  attemptCount : Option ℕ
  nextRetryAt : Option (Option Datetime)
  deliveredAt : Option (Option Datetime)
  deriving DecidableEq

namespace EventColumns

/-- The columns in which an ORM object differs from the row it was loaded from. -/
def diff (old new : WebhookEvent) : EventColumns where
  status := changed old.status new.status
  attemptCount := changed old.attemptCount new.attemptCount
  nextRetryAt := changed old.nextRetryAt new.nextRetryAt
  deliveredAt := changed old.deliveredAt new.deliveredAt

/-- Set the columns of a row. -/
def apply (u : EventColumns) (r : WebhookEvent) : WebhookEvent :=
  { r with
    status := u.status.getD r.status
    attemptCount := u.attemptCount.getD r.attemptCount
    nextRetryAt := u.nextRetryAt.getD r.nextRetryAt
    deliveredAt := u.deliveredAt.getD r.deliveredAt }

/-- No column to write. -/
def none : EventColumns := ⟨.none, .none, .none, .none⟩

@[simp] theorem apply_id (u : EventColumns) (r : WebhookEvent) : (u.apply r).id = r.id := rfl

end EventColumns

/-- The columns of `webhook_endpoints` that any code updates. -/
structure EndpointColumns where
  name : Option Str
  url : Option Str
  signingSecret : Option Str
  maxRetries : Option ℕ
  retryBackoffBase : Option ℚ
  retryMaxDelaySeconds : Option ℕ
  timeoutSeconds : Option ℕ
  eventTypesFilter : Option (List Str)
  customHeaders : Option (Dict Str Str)
  isActive : Option Bool
  deriving DecidableEq

namespace EndpointColumns

/-- No column to write. -/
def none : EndpointColumns :=
  ⟨.none, .none, .none, .none, .none, .none, .none, .none, .none, .none⟩

/-- The columns in which an ORM object differs from the row it was loaded from. -/
def diff (old new : WebhookEndpoint) : EndpointColumns where
  name := changed old.name new.name
  url := changed old.url new.url
  signingSecret := changed old.signingSecret new.signingSecret
  maxRetries := changed old.maxRetries new.maxRetries
  retryBackoffBase := changed old.retryBackoffBase new.retryBackoffBase
  retryMaxDelaySeconds := changed old.retryMaxDelaySeconds new.retryMaxDelaySeconds
  timeoutSeconds := changed old.timeoutSeconds new.timeoutSeconds
  eventTypesFilter := changed old.eventTypesFilter new.eventTypesFilter
  customHeaders := changed old.customHeaders new.customHeaders
  isActive := changed old.isActive new.isActive

/-- Set the columns of a row. -/
def apply (u : EndpointColumns) (r : WebhookEndpoint) : WebhookEndpoint :=
  { r with
    name := u.name.getD r.name
    url := u.url.getD r.url
    signingSecret := u.signingSecret.getD r.signingSecret
    maxRetries := u.maxRetries.getD r.maxRetries
    retryBackoffBase := u.retryBackoffBase.getD r.retryBackoffBase
    retryMaxDelaySeconds := u.retryMaxDelaySeconds.getD r.retryMaxDelaySeconds
    timeoutSeconds := u.timeoutSeconds.getD r.timeoutSeconds
    eventTypesFilter := u.eventTypesFilter.getD r.eventTypesFilter
    customHeaders := u.customHeaders.getD r.customHeaders
    isActive := u.isActive.getD r.isActive }

@[simp] theorem apply_id (u : EndpointColumns) (r : WebhookEndpoint) : (u.apply r).id = r.id := rfl

end EndpointColumns

/-- The columns of `dead_letter_events` that any code updates. -/
structure DeadLetterColumns where
  replayedAt : Option (Option Datetime)
  replayCount : Option ℕ
  deriving DecidableEq

namespace DeadLetterColumns

/-- No column to write. -/
def none : DeadLetterColumns := ⟨.none, .none⟩

/-- The columns in which an ORM object differs from the row it was loaded from. -/
def diff (old new : DeadLetterEvent) : DeadLetterColumns where
  replayedAt := changed old.replayedAt new.replayedAt
  replayCount := changed old.replayCount new.replayCount

/-- Set the columns of a row. -/
def apply (u : DeadLetterColumns) (r : DeadLetterEvent) : DeadLetterEvent :=
  { r with
    replayedAt := u.replayedAt.getD r.replayedAt
    replayCount := u.replayCount.getD r.replayCount }

@[simp] theorem apply_id (u : DeadLetterColumns) (r : DeadLetterEvent) :
    (u.apply r).id = r.id := rfl

end DeadLetterColumns

/-! ### Writes -/

/-- One statement of a transaction that changes a table. -/
inductive Write where
  | insertEndpoint (r : WebhookEndpoint)
  | updateEndpoint (id : UUID) (u : EndpointColumns)
  | insertEvent (r : WebhookEvent)
  | updateEvent (id : UUID) (u : EventColumns)
  | insertAttempt (r : DeliveryAttempt)
  | insertDeadLetter (r : DeadLetterEvent)
  | updateDeadLetter (id : UUID) (u : DeadLetterColumns)
  | deleteDeadLetter (id : UUID)

/-- What a statement locks until its transaction ends: a row, or a value of a unique column. -/
inductive RowKey where
  | endpoint (id : UUID)
  | event (id : UUID)
  | idempotency (key : Str)
  | attempt (id : UUID)
  | deadLetter (id : UUID)
  deriving DecidableEq

/-- The locks a statement takes. -/
def Write.keys : Write → List RowKey
  | .insertEndpoint r => [.endpoint r.id]
  | .updateEndpoint id _ => [.endpoint id]
  | .insertEvent r => .event r.id :: (r.idempotencyKey.map RowKey.idempotency).toList
  | .updateEvent id _ => [.event id]
  | .insertAttempt r => [.attempt r.id]
  | .insertDeadLetter r => [.deadLetter r.id]
  | .updateDeadLetter id _ => [.deadLetter id]
  | .deleteDeadLetter id => [.deadLetter id]

/-! ### Tables -/

/-- The four tables. -/
structure Db where
  endpoints : Table WebhookEndpoint WebhookEndpoint.id
  events : Table WebhookEvent WebhookEvent.id
  attempts : Table DeliveryAttempt DeliveryAttempt.id
  deadLetters : Table DeadLetterEvent DeadLetterEvent.id

namespace Db

/-- The tables of the initial migration. -/
def empty : Db := ⟨.empty, .empty, .empty, .empty⟩

/-- The effect of one statement. -/
def apply (db : Db) : Write → Db
  | .insertEndpoint r => { db with endpoints := db.endpoints.insert r }
  | .updateEndpoint id u =>
    { db with endpoints := db.endpoints.modify id u.apply u.apply_id }
  | .insertEvent r => { db with events := db.events.insert r }
  | .updateEvent id u => { db with events := db.events.modify id u.apply u.apply_id }
  | .insertAttempt r => { db with attempts := db.attempts.insert r }
  | .insertDeadLetter r => { db with deadLetters := db.deadLetters.insert r }
  | .updateDeadLetter id u =>
    { db with deadLetters := db.deadLetters.modify id u.apply u.apply_id }
  | .deleteDeadLetter id => { db with deadLetters := db.deadLetters.erase id }

/-- The effect of a transaction. -/
def applyAll (db : Db) (ws : List Write) : Db := ws.foldl apply db

@[simp] theorem applyAll_nil (db : Db) : db.applyAll [] = db := rfl

@[simp] theorem applyAll_cons (db : Db) (w : Write) (ws : List Write) :
    db.applyAll (w :: ws) = (db.apply w).applyAll ws := rfl

theorem applyAll_append (db : Db) (ws ws' : List Write) :
    db.applyAll (ws ++ ws') = (db.applyAll ws).applyAll ws' := List.foldl_append

/-- The rule for properties that single statements can only establish. -/
theorem applyAll_iff {P : Db → Prop} {Q : Write → Prop}
    (h : ∀ db w, P (db.apply w) ↔ P db ∨ Q w) (ws : List Write) (db : Db) :
    P (db.applyAll ws) ↔ P db ∨ ∃ w ∈ ws, Q w := by
  induction ws generalizing db with
  | nil => simp
  | cons w ws ih => rw [applyAll_cons, ih, h, or_assoc, List.exists_mem_cons_iff]

/-- A row, or a value of a unique column, is there. -/
def holds (db : Db) : RowKey → Bool
  | .endpoint id => (db.endpoints.get? id).isSome
  | .event id => (db.events.get? id).isSome
  | .idempotency key => db.events.rows.any fun r => decide (r.idempotencyKey = some key)
  | .attempt id => (db.attempts.get? id).isSome
  | .deadLetter id => (db.deadLetters.get? id).isSome

/-! ### Queries -/

/-- `EventRepository.get_with_endpoint`: the row, with the endpoint its foreign key names. -/
def eventWithEndpoint (db : Db) (id : UUID) : Option (WebhookEvent × Option WebhookEndpoint) :=
  (db.events.get? id).map fun r => (r, db.endpoints.get? r.endpointId)

/-- `EventRepository.get_by_idempotency_key`. -/
def eventByKey (db : Db) (key : Str) : Option WebhookEvent :=
  db.events.rows.find? fun r => decide (r.idempotencyKey = some key)

/-- The predicate of `EventRepository.get_due_for_retry`; a null is not in the past. -/
def dueForRetry (now : Datetime) (r : WebhookEvent) : Bool :=
  decide (r.status = .failed) && r.nextRetryAt.any fun t => decide (t ≤ now)

/-- The predicate of `EventRepository.get_stale_pending`. -/
def stalePending (cutoff : Datetime) (r : WebhookEvent) : Bool :=
  decide (r.status = .pending) && r.nextRetryAt.isNone && decide (r.createdAt < cutoff)

/-- `EventRepository.get_due_for_retry`: the earliest due first. -/
def selectDueForRetry (db : Db) (now : Datetime) (limit : ℕ) : List WebhookEvent :=
  ((db.events.rows.filter (dueForRetry now)).insertionSort fun a b =>
    (a.nextRetryAt.map Datetime.micros).getD 0 ≤ (b.nextRetryAt.map Datetime.micros).getD 0).take
      limit

/-- `EventRepository.get_stale_pending`. -/
def selectStalePending (db : Db) (cutoff : Datetime) (limit : ℕ) : List WebhookEvent :=
  (db.events.rows.filter (stalePending cutoff)).take limit

/-- The filters of the dead letter queries; an absent or empty filter matches everything. -/
def deadLetterMatches (endpointId : Option UUID) (eventType : Option Str)
    (r : DeadLetterEvent) : Bool :=
  endpointId.all (fun id => decide (r.endpointId = id)) &&
    eventType.all fun s => s.isEmpty || decide (r.eventType = s)

/-- `DeadLetterRepository.get_unreplayed_by_filter`: the oldest first. -/
def selectDeadLetters (db : Db) (endpointId : Option UUID) (eventType : Option Str)
    (limit : ℕ) : List DeadLetterEvent :=
  ((db.deadLetters.rows.filter (deadLetterMatches endpointId eventType)).insertionSort
    fun a b => a.deadLetteredAt.micros ≤ b.deadLetteredAt.micros).take limit

/-- The statuses a row can have, in a fixed order. -/
def statuses : List EventStatus := [.pending, .delivering, .delivered, .failed, .deadLettered]

/-- `EventRepository.count_by_status`: the statuses that occur, each with its number of rows. -/
def countByStatus (db : Db) (endpointId : Option UUID) : List (EventStatus × ℕ) :=
  let rows := db.events.rows.filter fun r => endpointId.all fun id => decide (r.endpointId = id)
  (statuses.map fun s => (s, rows.countP fun r => decide (r.status = s))).filter
    fun x => decide (x.2 ≠ 0)

end Db

/-! ### Constraints -/

/-- The value fits a PostgreSQL INTEGER. -/
def fitsInteger (n : ℤ) : Bool := decide (-2147483648 ≤ n ∧ n ≤ 2147483647)

/-- A text column takes the value: no NUL, and no longer than its length limit. -/
def fitsVarchar (limit : ℕ) (s : Str) : Bool := !s.hasNul && decide (s.length ≤ limit)

/-- A text column without a limit takes a text of Python: no NUL, and an encoding in UTF-8. -/
def fitsText (s : PyStr) : Bool := !s.hasNul && !s.hasSurrogate

/-- A JSON object of strings has no NUL in it. -/
def storableDict (d : Dict Str Str) : Bool := d.items.all fun x => !x.1.hasNul && !x.2.hasNul

/-- PostgreSQL takes the values of the row. -/
def WebhookEndpoint.storable (r : WebhookEndpoint) : Bool :=
  fitsVarchar 255 r.name && fitsVarchar 2048 r.url && fitsVarchar 255 r.signingSecret &&
    (r.eventTypesFilter.all fun s => !s.hasNul) && storableDict r.customHeaders

/-- PostgreSQL takes the values of the row. -/
def WebhookEvent.storable (r : WebhookEvent) : Bool :=
  fitsVarchar 255 r.eventType && Json.storableItems r.payload &&
    r.idempotencyKey.all (fitsVarchar 255)

/-- PostgreSQL takes the values of the row. -/
def DeliveryAttempt.storable (r : DeliveryAttempt) : Bool :=
  storableDict r.requestHeaders && fitsVarchar 64 r.requestBodyHash &&
    r.httpStatusCode.all fitsInteger && r.responseBody.all fitsText &&
    r.responseHeaders.all storableDict && r.errorMessage.all fun s => !s.hasNul

/-- PostgreSQL takes the values of the row. -/
def DeadLetterEvent.storable (r : DeadLetterEvent) : Bool :=
  Json.storableItems r.originalPayload && fitsVarchar 255 r.eventType &&
    (r.lastError.all fun s => !s.hasNul) && r.lastHttpStatus.all fitsInteger

end WebhookRelay

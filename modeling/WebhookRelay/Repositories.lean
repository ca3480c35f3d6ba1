import WebhookRelay.Runtime

/-!
# The repositories

Sources: `repositories/event_repo.py`, `repositories/delivery_attempt_repo.py`,
`repositories/dead_letter_repo.py`, `repositories/endpoint_repo.py`.

A method that changes an ORM object answers with the changed object. A `create` takes the row as
a function of the two columns that are filled in at the flush: the id (`default=uuid.uuid4`) and
the server's time (`server_default=func.now()`).
-/

namespace WebhookRelay

open Data Effect

/-- `datetime.now(timezone.utc) + timedelta(seconds=x)`. -/
def nowPlusSeconds (x : PyFloat) : Relay Datetime := do
  let now ← now
  .ofExcept ((now.addSeconds x).mapError PyExn.ofNum)

namespace EventRepository

/-- Source: `EventRepository.create`. -/
def create (row : UUID → Datetime → WebhookEvent) : Relay WebhookEvent := do
  let id ← uuid4
  let now ← now
  insertEvent (row id now)
  pure (row id now)

/-- Source: `EventRepository.get_with_endpoint`. -/
def getWithEndpoint (id : UUID) : Relay (Option (WebhookEvent × Option WebhookEndpoint)) :=
  await (.getEventWithEndpoint id)

/-- Source: `EventRepository.get_by_idempotency_key`. -/
def getByIdempotencyKey (key : Str) : Relay (Option WebhookEvent) := await (.getEventByKey key)

/-- The object `mark_delivering` leaves. -/
def delivering (event : WebhookEvent) : WebhookEvent :=
  { event with status := .delivering, attemptCount := event.attemptCount + 1 }

/-- The object `mark_delivered` leaves. -/
def delivered (event : WebhookEvent) (now : Datetime) : WebhookEvent :=
  { event with status := .delivered, deliveredAt := some now }

/-- The object `mark_dead_lettered` leaves. -/
def deadLettered (event : WebhookEvent) : WebhookEvent := { event with status := .deadLettered }

/-- The object `schedule_retry` leaves. -/
def retryScheduled (event : WebhookEvent) (nextRetryAt : Datetime) : WebhookEvent :=
  { event with status := .failed, nextRetryAt := some nextRetryAt }

/-- Source: `EventRepository.mark_delivering`. -/
def markDelivering (event : WebhookEvent) : Relay WebhookEvent := do
  flushEvent event (delivering event)
  pure (delivering event)

/-- Source: `EventRepository.mark_delivered`. -/
def markDelivered (event : WebhookEvent) : Relay WebhookEvent := do
  let now ← now
  flushEvent event (delivered event now)
  pure (delivered event now)

/-- Source: `EventRepository.mark_dead_lettered`. -/
def markDeadLettered (event : WebhookEvent) : Relay WebhookEvent := do
  flushEvent event (deadLettered event)
  pure (deadLettered event)

/-- Source: `EventRepository.schedule_retry`. -/
def scheduleRetry (event : WebhookEvent) (nextRetryAt : Datetime) : Relay WebhookEvent := do
  flushEvent event (retryScheduled event nextRetryAt)
  pure (retryScheduled event nextRetryAt)

/-- Source: `EventRepository.get_due_for_retry`. -/
def getDueForRetry (limit : ℕ) : Relay (List WebhookEvent) := do
  let now ← now
  selectDueForRetry now limit

/-- Source: `EventRepository.get_stale_pending`. -/
def getStalePending (olderThanSeconds limit : ℕ) : Relay (List WebhookEvent) := do
  let cutoff ← nowPlusSeconds (.finite (-olderThanSeconds))
  selectStalePending cutoff limit

/-- Source: `EventRepository.count_by_status`. -/
def countByStatus (endpointId : Option UUID) : Relay (List (EventStatus × ℕ)) :=
  await (.countByStatus endpointId)

end EventRepository

namespace DeliveryAttemptRepository

/-- Source: `DeliveryAttemptRepository.create`. -/
def create (row : UUID → Datetime → DeliveryAttempt) : Relay DeliveryAttempt := do
  let id ← uuid4
  let now ← now
  insertAttempt (row id now)
  pure (row id now)

end DeliveryAttemptRepository

namespace DeadLetterRepository

/-- Source: `DeadLetterRepository.create`. -/
def create (row : UUID → Datetime → DeadLetterEvent) : Relay DeadLetterEvent := do
  let id ← uuid4
  let now ← now
  insertDeadLetter (row id now)
  pure (row id now)

/-- Source: `DeadLetterRepository.get_by_id`. -/
def getById (id : UUID) : Relay (Option DeadLetterEvent) := await (.getDeadLetter id)

/-- The object `mark_replayed` leaves. -/
def replayed (entry : DeadLetterEvent) (now : Datetime) : DeadLetterEvent :=
  { entry with replayedAt := some now, replayCount := entry.replayCount + 1 }

/-- Source: `DeadLetterRepository.mark_replayed`. -/
def markReplayed (entry : DeadLetterEvent) : Relay DeadLetterEvent := do
  let now ← now
  flushDeadLetter entry (replayed entry now)
  pure (replayed entry now)

/-- Source: `DeadLetterRepository.delete_entry`. -/
def deleteEntry (id : UUID) : Relay Bool := await (.deleteDeadLetter id)

/-- Source: `DeadLetterRepository.count`. -/
def count : Relay ℕ := await .countDeadLetters

/-- Source: `DeadLetterRepository.get_unreplayed_by_filter`, with its default limit. -/
def getUnreplayedByFilter (endpointId : Option UUID) (eventType : Option Str) :
    Relay (List DeadLetterEvent) :=
  await (.selectDeadLetters endpointId eventType 1000)

end DeadLetterRepository

namespace EndpointRepository

/-- Source: `EndpointRepository.create`. -/
def create (row : UUID → WebhookEndpoint) : Relay WebhookEndpoint := do
  let id ← uuid4
  insertEndpoint (row id)
  pure (row id)

/-- Source: `EndpointRepository.get_by_id`. -/
def getById (id : UUID) : Relay (Option WebhookEndpoint) := await (.getEndpoint id)

/-- The object after `setattr` of every field that is not null. -/
def updated (endpoint : WebhookEndpoint) (data : EndpointUpdate) : WebhookEndpoint :=
  { endpoint with
    name := data.name.getD endpoint.name
    url := data.url.getD endpoint.url
    maxRetries := data.maxRetries.getD endpoint.maxRetries
    retryBackoffBase := data.retryBackoffBase.getD endpoint.retryBackoffBase
    retryMaxDelaySeconds := data.retryMaxDelaySeconds.getD endpoint.retryMaxDelaySeconds
    timeoutSeconds := data.timeoutSeconds.getD endpoint.timeoutSeconds
    eventTypesFilter := data.eventTypesFilter.getD endpoint.eventTypesFilter
    customHeaders := data.customHeaders.getD endpoint.customHeaders
    isActive := data.isActive.getD endpoint.isActive }

/-- Source: `EndpointRepository.update`. -/
def update (id : UUID) (data : EndpointUpdate) : Relay (Option WebhookEndpoint) := do
  match ← getById id with
  | none => pure none
  | some endpoint =>
    flushEndpoint endpoint (updated endpoint data)
    pure (some (updated endpoint data))

/-- Source: `EndpointRepository.deactivate`. -/
def deactivate (id : UUID) : Relay Bool := await (.deactivateEndpoint id)

/-- Source: `EndpointRepository.rotate_secret`. -/
def rotateSecret (id : UUID) : Relay (Option WebhookEndpoint) := do
  match ← getById id with
  | none => pure none
  | some endpoint =>
    let secret ← tokenHex
    flushEndpoint endpoint { endpoint with signingSecret := secret.text }
    pure (some { endpoint with signingSecret := secret.text })

end EndpointRepository

end WebhookRelay

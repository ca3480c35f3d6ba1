import WebhookRelay.Services.Replay

/-!
# The request handlers that change something, and the statistics

Sources: `api/dependencies.py`, `api/v1/endpoints.py`, `api/v1/events.py`, `api/v1/dlq.py`,
`api/v1/delivery.py`. The session of a handler comes from `get_db`, which commits after the
handler has returned and rolls back when it raises.
-/

namespace WebhookRelay

open Data Effect

namespace Api

/-- Source: `get_db` around a handler. A handler that raises is never committed. -/
def getDb {α : Type} (handler : Relay α) : Relay α := do
  let a ← handler
  commit
  pure a

/-- `if not x: raise HTTPException(404, ...)`. -/
def found {α : Type} (detail : Str) : Option α → Relay α
  | some a => pure a
  | none => raise (.httpException 404 detail)

/-- The event `create_event` inserts. -/
def newEvent (data : EventCreate) (id : UUID) (now : Datetime) : WebhookEvent where
  id := id
  endpointId := data.endpointId
  eventType := data.eventType
  payload := data.payload
  idempotencyKey := data.idempotencyKey
  status := .pending
  attemptCount := 0
  nextRetryAt := none
  createdAt := now
  deliveredAt := none

/-- `if data.idempotency_key`: the lookup, which an absent or empty key skips. -/
def lookup (data : EventCreate) : Relay (Option WebhookEvent) :=
  match data.idempotencyKey with
  | none => pure none
  | some key => if key = [] then pure none else EventRepository.getByIdempotencyKey key

/-- `endpoint.event_types_filter and data.event_type not in endpoint.event_types_filter`. -/
def filteredOut (endpoint : WebhookEndpoint) (eventType : Str) : Bool :=
  !endpoint.eventTypesFilter.isEmpty && decide (eventType ∉ endpoint.eventTypesFilter)

/-- Source: `create_event`, once no event with the key was found. -/
def ingest (data : EventCreate) : Relay WebhookEvent := do
  let endpoint ← found (Str.lit "Endpoint not found")
    (← EndpointRepository.getById data.endpointId)
  if !endpoint.isActive then raise (.httpException 422 (Str.lit "Endpoint is inactive"))
  else if filteredOut endpoint data.eventType then
    raise (.httpException 422
      (Str.lit "Event type '" ++ data.eventType ++ Str.lit "' not accepted by this endpoint"))
  else do
    let event ← EventRepository.create (newEvent data)
    let _ ← enqueueJob event.id
    pure event

/-- Source: `create_event`. -/
def createEvent (data : EventCreate) : Relay WebhookEvent := do
  match ← lookup data with
  | some existing => pure existing
  | none => ingest data

/-- The endpoint `create_endpoint` inserts. -/
def newEndpoint (data : EndpointCreate) (secret : Str) (id : UUID) : WebhookEndpoint where
  id := id
  name := data.name
  url := data.url
  signingSecret := secret
  maxRetries := data.maxRetries
  retryBackoffBase := data.retryBackoffBase
  retryMaxDelaySeconds := data.retryMaxDelaySeconds
  timeoutSeconds := data.timeoutSeconds
  eventTypesFilter := data.eventTypesFilter
  customHeaders := data.customHeaders
  isActive := true

/-- Source: `create_endpoint`. -/
def createEndpoint (data : EndpointCreate) : Relay WebhookEndpoint := do
  let secret ← tokenHex
  EndpointRepository.create (newEndpoint data secret.text)

/-- Source: `update_endpoint`. -/
def updateEndpoint (id : UUID) (data : EndpointUpdate) : Relay WebhookEndpoint := do
  found (Str.lit "Endpoint not found") (← EndpointRepository.update id data)

/-- Source: `delete_endpoint`. -/
def deleteEndpoint (id : UUID) : Relay Unit := do
  if ← EndpointRepository.deactivate id then pure ()
  else raise (.httpException 404 (Str.lit "Endpoint not found"))

/-- Source: `rotate_secret`. -/
def rotateSecret (id : UUID) : Relay WebhookEndpoint := do
  found (Str.lit "Endpoint not found") (← EndpointRepository.rotateSecret id)

/-- Source: `discard_dlq_entry`. -/
def discardDlqEntry (id : UUID) : Relay Unit := do
  if ← DeadLetterRepository.deleteEntry id then pure ()
  else raise (.httpException 404 (Str.lit "DLQ entry not found"))

/-- Source: `replay_dlq_event`, with the exceptions it turns into responses. -/
def replayDlqEvent (id : UUID) (force : Bool) : Relay ReplayResult := do
  match ← (ReplayService.replaySingle id force true).attempt with
  | .ok result => pure result
  | .error (.deadLetterNotFound _) => raise (.httpException 404 (Str.lit "DLQ entry not found"))
  | .error (.recentlyReplayed message) => raise (.httpException 409 message)
  | .error x => raise x

/-! ### Statistics -/

/-- `StatsResponse`. -/
structure StatsResponse where
  totalEvents : ℕ
  pending : ℕ
  delivered : ℕ
  failed : ℕ
  deadLettered : ℕ
  dlqCount : ℕ
  successRate : ℚ
  openCircuits : List Str

/-- `status_counts.get(status, 0)`. -/
def countOf (counts : List (EventStatus × ℕ)) (status : EventStatus) : ℕ :=
  ((counts.find? fun x => decide (x.1 = status)).map Prod.snd).getD 0

/-- The response `global_stats` builds from what it has read. -/
def statsResponse (counts : List (EventStatus × ℕ)) (dlqCount : ℕ) (openCircuits : List Str) :
    StatsResponse :=
  let total := (counts.map Prod.snd).sum
  let delivered := countOf counts .delivered
  { totalEvents := total
    pending := countOf counts .pending
    delivered := delivered
    failed := countOf counts .failed
    deadLettered := countOf counts .deadLettered
    dlqCount := dlqCount
    successRate := if total ≠ 0 then round2 ((delivered : ℚ) / total * 100) else 0
    openCircuits := openCircuits }

/-- Source: `global_stats`. -/
def globalStats : Relay StatsResponse := do
  let counts ← EventRepository.countByStatus none
  let dlqCount ← DeadLetterRepository.count
  let openCircuits ← getOpenCircuits
  pure (statsResponse counts dlqCount openCircuits)

end Api

end WebhookRelay

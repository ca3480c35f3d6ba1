import WebhookRelay.Services.Delivery

/-!
# The replay service

Source: `services/replay_service.py`. A single replay runs in a session of its own and commits it
before it enqueues the job; in a bulk replay all entries share one session, which is committed
after the last of them.
-/

namespace WebhookRelay

open Data Effect

/-- What `replay_single` answers with; `enqueued` is always true. -/
structure ReplayResult where
  originalDlqId : UUID
  newEventId : UUID
  enqueued : Bool

/-- What `replay_bulk` answers with. -/
structure BulkReplayResult where
  replayed : ℕ
  errors : ℕ
  results : List ReplayResult

namespace ReplayService

/-- The event a replay creates from an entry. -/
def replayEvent (entry : DeadLetterEvent) (id : UUID) (now : Datetime) : WebhookEvent where
  id := id
  endpointId := entry.endpointId
  eventType := entry.eventType
  payload := entry.originalPayload
  idempotencyKey := none
  status := .pending
  attemptCount := 0
  nextRetryAt := none
  createdAt := now
  deliveredAt := none

/-- `if dlq_entry.replay_count > 0 and not force`: raise when the last replay is too recent. -/
def checkRecent (entry : DeadLetterEvent) (force : Bool) : Relay Unit :=
  if 0 < entry.replayCount ∧ !force then
    match entry.replayedAt with
    | none => pure ()
    | some replayedAt => do
      let hourAgo ← nowPlusSeconds (.finite (-3600))
      if hourAgo < replayedAt then
        raise (.recentlyReplayed
          (Str.lit "Event was replayed less than 1 hour ago. Use force=True to override."))
      else pure ()
  else pure ()

/-- `if own_session: await session.commit()`. -/
def commitOwn (ownSession : Bool) : Relay Unit := if ownSession then commit else pure ()

/-- Source: `ReplayService.replay_single`. -/
def replaySingle (dlqId : UUID) (force ownSession : Bool) : Relay ReplayResult := do
  match ← DeadLetterRepository.getById dlqId with
  | none => raise (.deadLetterNotFound dlqId)
  | some entry =>
    checkRecent entry force
    let newEvent ← EventRepository.create (replayEvent entry)
    let entry ← DeadLetterRepository.markReplayed entry
    resetCircuit entry.endpointId
    commitOwn ownSession
    let _ ← enqueueJob newEvent.id
    pure ⟨dlqId, newEvent.id, true⟩

/-- The exceptions the loop of `replay_bulk` counts. -/
def countedError : PyExn → Bool
  | .recentlyReplayed _ => true
  | .deadLetterNotFound _ => true
  | _ => false

/-- The loop of `replay_bulk`, with the results so far and the errors so far. -/
def replayEach (force : Bool) :
    List DeadLetterEvent → List ReplayResult → ℕ → Relay (List ReplayResult × ℕ)
  | [], results, errors => pure (results, errors)
  | entry :: entries, results, errors => do
    match ← (replaySingle entry.id force false).attempt with
    | .ok result => replayEach force entries (results ++ [result]) errors
    | .error x =>
      if countedError x then replayEach force entries results (errors + 1) else raise x

/-- Source: `ReplayService.replay_bulk`. -/
def replayBulk (endpointId : Option UUID) (eventType : Option Str) (force : Bool) :
    Relay BulkReplayResult := do
  let entries ← DeadLetterRepository.getUnreplayedByFilter endpointId eventType
  let (results, errors) ← replayEach force entries [] 0
  commit
  pure ⟨results.length, errors, results⟩

end ReplayService

end WebhookRelay

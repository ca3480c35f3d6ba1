import WebhookRelay.Api

/-!
# The worker's tasks

Source: `worker/tasks.py`.
-/

namespace WebhookRelay

open Data Effect

namespace Worker

/-- Source: `deliver_webhook_task`; the outcome's status is the job's result. -/
def deliverWebhookTask (deps : Deps) (eventId : UUID) : Relay DeliveryStatus := do
  let outcome ← DeliveryService.deliver deps eventId
  pure outcome.status

/-- What `except Exception` catches. -/
def caught : PyExn → Bool
  | .cancelled => false
  | _ => true

/-- The loop of `poll_pending_retries`: it counts every `enqueue_job` that did not raise. -/
def enqueueEach : List WebhookEvent → ℕ → Relay ℕ
  | [], enqueued => pure enqueued
  | event :: events, enqueued => do
    match ← (enqueueJob event.id).attempt with
    | .ok _ => enqueueEach events (enqueued + 1)
    | .error x => if caught x then enqueueEach events enqueued else raise x

/-- Source: `poll_pending_retries`; the number is the one it logs. -/
def pollPendingRetries : Relay ℕ := do
  let dueEvents ← EventRepository.getDueForRetry 500
  let staleEvents ← EventRepository.getStalePending 120 100
  enqueueEach (dueEvents ++ staleEvents) 0

end Worker

end WebhookRelay

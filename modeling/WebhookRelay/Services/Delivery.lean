import WebhookRelay.Services.Retry
import WebhookRelay.Services.Hmac

/-!
# `DeliveryService.deliver`

Source: `services/delivery_service.py`. One run loads the event with its endpoint and leaves by
one of these exits, each with its own function below:

* nothing to do: no such event, or a terminal one (`notFound`);
* the endpoint is inactive: dead-lettered without an attempt (`deadLetterInactive`);
* the circuit is open: put off (`deferDelivery`);
* an attempt: `attemptDelivery` sends the POST and logs it, and `settleSuccess`, `retryLater` or
  `giveUp` finish the transaction.

Nothing is committed before the last step of an exit.
-/

namespace WebhookRelay

open Data Effect

/-- `DeliveryStatus`. -/
inductive DeliveryStatus where
  | success
  | retryScheduled
  | deadLettered
  | circuitOpen
  | notFound
  deriving DecidableEq

/-- `DeliveryOutcome`. -/
structure DeliveryOutcome where
  status : DeliveryStatus
  eventId : UUID
  attemptId : Option UUID
  durationMs : Option ℚ
  nextRetryAt : Option Datetime
  endpointId : Option UUID
  attemptCount : Option ℕ

/-- A `DeliveryOutcome` with the optional fields at their defaults. -/
def DeliveryOutcome.of (status : DeliveryStatus) (eventId : UUID) : DeliveryOutcome :=
  ⟨status, eventId, none, none, none, none, none⟩

/-- The settings the services read. -/
structure Settings where
  /-- `CB_RECOVERY_TIMEOUT_SECONDS`. -/
  cbRecoveryTimeoutSeconds : ℕ
  /-- `ARQ_JOB_TIMEOUT_SECONDS`. -/
  arqJobTimeoutSeconds : ℕ

/-- The defaults of `config.py`. -/
def Settings.default : Settings := ⟨300, 60⟩

/-- What the services are built from. -/
structure Deps where
  crypto : Crypto
  settings : Settings

/-- `round(x, 2)`. -/
def round2 (x : ℚ) : ℚ := roundHalfEven (x * 100) / 100

/-- The local variables `deliver` fills in around the POST. -/
structure PostResult where
  httpStatus : Option ℤ
  responseBody : Option PyStr
  responseHeaders : Option (Dict Str Str)
  errorMessage : Option Str
  success : Bool
  retryAfterHeader : Option Str

/-- `200 <= http_status < 300`. -/
def isSuccess (status : ℤ) : Bool := decide (200 ≤ status ∧ status < 300)

namespace PostResult

/-- The `try` block: a response was received, and its body decoded. -/
def ofResponse (r : HttpResponse) (text : PyStr) : PostResult where
  httpStatus := some r.statusCode
  responseBody := some (text.take 10000)
  responseHeaders := some r.headerDict
  errorMessage := none
  success := isSuccess r.statusCode
  retryAfterHeader := r.header (Str.lit "Retry-After")

/-- The `except` blocks: only the message is set. -/
def ofError (message : Str) : PostResult := ⟨none, none, none, some message, false, none⟩

/-- The message of the `except` block that catches an exception of httpx, if one does. -/
def errorText (timeoutSeconds : ℕ) : PyExn → Option Str
  | .timeoutException m =>
    some (Str.lit "Timeout after " ++ Str.ofNat timeoutSeconds ++ Str.lit "s: " ++ m)
  | .connectError m => some (Str.lit "Connection error: " ++ m)
  | .requestError m => some (Str.lit "Request error: " ++ m)
  | _ => none

/-- The `try` statement around the POST; any other exception passes through, also one of decoding
the body. -/
def ofAnswer (timeoutSeconds : ℕ) : Except PyExn HttpResponse → Except PyExn PostResult
  | .ok r => (r.text.mapError .decodeError).map (ofResponse r)
  | .error x =>
    match errorText timeoutSeconds x with
    | some m => .ok (ofError m)
    | none => .error x

/-- The result of a response is made from its decoded body. -/
theorem ofAnswer_ok {timeoutSeconds : ℕ} {r : HttpResponse} {p : PostResult}
    (h : ofAnswer timeoutSeconds (.ok r) = .ok p) :
    ∃ text, r.text = .ok text ∧ ofResponse r text = p := by
  unfold ofAnswer at h
  dsimp only at h
  cases htext : r.text with
  | error x =>
    rw [htext] at h
    cases h
  | ok text =>
    rw [htext] at h
    exact ⟨text, rfl, Except.ok.inj h⟩

/-- A result is a success if and only if its status is a 2xx. -/
theorem success_of_ofAnswer {timeoutSeconds : ℕ} {r : Except PyExn HttpResponse} {p : PostResult}
    (h : ofAnswer timeoutSeconds r = .ok p) : p.success = p.httpStatus.any isSuccess := by
  cases r with
  | ok r =>
    obtain ⟨text, -, rfl⟩ := ofAnswer_ok h
    rfl
  | error x =>
    unfold ofAnswer at h
    cases hm : errorText timeoutSeconds x with
    | none => simp [hm] at h
    | some m =>
      simp only [hm, Except.ok.injEq] at h
      subst h
      rfl

/-- `error_message or f"HTTP {http_status}"`. -/
def lastError (p : PostResult) : Str :=
  match p.errorMessage with
  | some m => if m ≠ [] then m else Str.lit "HTTP " ++ status
  | none => Str.lit "HTTP " ++ status
where
  /-- The status as an f-string shows it. -/
  status : Str := match p.httpStatus with
    | some n => Str.ofInt n
    | none => Str.lit "None"

end PostResult

namespace DeliveryService

/-- The body of the POST: the payload as compact JSON with sorted keys. -/
def requestBody (event : WebhookEvent) : List UInt8 := (Json.obj event.payload).dumps.encode

/-- The row of the attempt log. -/
def attemptRow (crypto : Crypto) (event : WebhookEvent) (headers : Dict Str Str)
    (p : PostResult) (durationMs : ℚ) (id : UUID) (now : Datetime) : DeliveryAttempt where
  id := id
  eventId := event.id
  attemptNumber := event.attemptCount
  requestHeaders := headers.filter fun x => decide (x.1 ≠ HMACService.signatureHeader)
  requestBodyHash := (crypto.sha256 (requestBody event)).text
  httpStatusCode := p.httpStatus
  responseBody := p.responseBody
  responseHeaders := p.responseHeaders
  success := p.success
  errorMessage := p.errorMessage
  durationMs := round2 durationMs
  attemptedAt := now

/-- The row of the dead letter queue. -/
def deadLetterRow (event : WebhookEvent) (endpoint : WebhookEndpoint) (lastError : Str)
    (lastHttpStatus : Option ℤ) (id : UUID) (now : Datetime) : DeadLetterEvent where
  id := id
  eventId := event.id
  endpointId := endpoint.id
  originalPayload := event.payload
  eventType := event.eventType
  totalAttempts := event.attemptCount
  lastError := some lastError
  lastHttpStatus := lastHttpStatus
  replayedAt := none
  replayCount := 0
  deadLetteredAt := now

/-- Source: `deliver`, the branch of an inactive endpoint. -/
def deadLetterInactive (event : WebhookEvent) (endpoint : WebhookEndpoint) :
    Relay DeliveryOutcome := do
  let event ← EventRepository.markDeadLettered event
  let _ ← DeadLetterRepository.create
    (deadLetterRow event endpoint (Str.lit "Endpoint is inactive") none)
  commit
  pure { DeliveryOutcome.of .deadLettered event.id with attemptCount := some event.attemptCount }

/-- Source: `deliver`, the branch of an open circuit. -/
def deferDelivery (settings : Settings) (event : WebhookEvent) (endpoint : WebhookEndpoint) :
    Relay DeliveryOutcome := do
  let nextRetry ← nowPlusSeconds (.finite settings.cbRecoveryTimeoutSeconds)
  let event ← EventRepository.scheduleRetry event nextRetry
  commit
  pure { DeliveryOutcome.of .circuitOpen event.id with
    endpointId := some endpoint.id, nextRetryAt := some nextRetry }

/-- Source: `deliver`, after a successful POST. -/
def settleSuccess (event : WebhookEvent) (endpoint : WebhookEndpoint) (attempt : DeliveryAttempt)
    (durationMs : ℚ) : Relay DeliveryOutcome := do
  recordSuccess endpoint.id
  let event ← EventRepository.markDelivered event
  commit
  pure { DeliveryOutcome.of .success event.id with
    attemptId := some attempt.id, durationMs := some (round2 durationMs) }

/-- Source: `deliver`, a failure that is retried. -/
def retryLater (event : WebhookEvent) (endpoint : WebhookEndpoint)
    (delayOverride : Option PyFloat) : Relay DeliveryOutcome := do
  let nextRetry ← ExponentialBackoffStrategy.nextRetryAt event.attemptCount
    endpoint.retryBackoffBase endpoint.retryMaxDelaySeconds delayOverride
  let event ← EventRepository.scheduleRetry event nextRetry
  commit
  pure { DeliveryOutcome.of .retryScheduled event.id with nextRetryAt := some nextRetry }

/-- Source: `deliver`, a failure that is not retried. -/
def giveUp (event : WebhookEvent) (endpoint : WebhookEndpoint) (p : PostResult) :
    Relay DeliveryOutcome := do
  let _ ← DeadLetterRepository.create (deadLetterRow event endpoint p.lastError p.httpStatus)
  let event ← EventRepository.markDeadLettered event
  commit
  pure { DeliveryOutcome.of .deadLettered event.id with attemptCount := some event.attemptCount }

/-- `if http_status == 410: deactivate`. -/
def deactivateGone (endpoint : WebhookEndpoint) (p : PostResult) : Relay Unit :=
  if p.httpStatus = some 410 then do
    let _ ← EndpointRepository.deactivate endpoint.id
    pure ()
  else pure ()

/-- Source: `deliver`, after a POST that did not succeed. -/
def settleFailure (event : WebhookEvent) (endpoint : WebhookEndpoint) (p : PostResult) :
    Relay DeliveryOutcome := do
  recordFailure endpoint.id
  deactivateGone endpoint p
  let decision := ExponentialBackoffStrategy.shouldRetry p.httpStatus event.attemptCount
    endpoint.maxRetries p.retryAfterHeader
  if decision.1 then retryLater event endpoint decision.2 else giveUp event endpoint p

/-- The headers of the POST: the signed ones, overridden by the custom ones. -/
def requestHeaders (crypto : Crypto) (event : WebhookEvent) (endpoint : WebhookEndpoint) :
    Relay (Dict Str Str) := do
  let headers ← HMACService.getSignatureHeaders crypto (requestBody event) endpoint.signingSecret
    event.id.str event.eventType
  pure (headers.update endpoint.customHeaders)

/-- Source: `deliver`, from the end of the POST on: log the attempt and finish. -/
def settleAttempt (crypto : Crypto) (event : WebhookEvent) (endpoint : WebhookEndpoint)
    (headers : Dict Str Str) (p : PostResult) (durationMs : ℚ) : Relay DeliveryOutcome := do
  let attempt ← DeliveryAttemptRepository.create (attemptRow crypto event headers p durationMs)
  if p.success then settleSuccess event endpoint attempt durationMs
  else settleFailure event endpoint p

/-- Source: `deliver`, from `mark_delivering` on. -/
def attemptDelivery (crypto : Crypto) (event : WebhookEvent) (endpoint : WebhookEndpoint) :
    Relay DeliveryOutcome := do
  let event ← EventRepository.markDelivering event
  let headers ← requestHeaders crypto event endpoint
  let start ← perfCounter
  let answer ← (post ⟨endpoint.url, requestBody event, headers, endpoint.timeoutSeconds⟩).attempt
  let p ← .ofExcept (PostResult.ofAnswer endpoint.timeoutSeconds answer)
  let durationMs := ((← perfCounter) - start : ℚ) / 1000
  settleAttempt crypto event endpoint headers p durationMs

/-- Source: `DeliveryService.deliver`. -/
def deliver (deps : Deps) (eventId : UUID) : Relay DeliveryOutcome := do
  match ← EventRepository.getWithEndpoint eventId with
  | none => pure (.of .notFound eventId)
  | some (event, endpoint?) =>
    if event.status.terminal then pure (.of .notFound eventId)
    else match endpoint? with
      | none => raise .attributeError
      | some endpoint =>
        if !endpoint.isActive then deadLetterInactive event endpoint
        else do
          let allowed ← isAllowed endpoint.id
          if !allowed then deferDelivery deps.settings event endpoint
          else attemptDelivery deps.crypto event endpoint

end DeliveryService

end WebhookRelay

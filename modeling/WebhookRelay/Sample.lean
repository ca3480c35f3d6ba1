import WebhookRelay.System

/-!
# Inputs to run the model on

One endpoint, one event and one oracle, as small as the schemas admit. The examples that follow
the general theorems run on variants of these.
-/

namespace WebhookRelay

open Data Effect

namespace Sample

/-- Sixty-four zeros. -/
def digest : HexDigest where
  text := List.replicate 64 '0'
  length_eq := by decide
  isHex c hc := by
    rw [List.eq_of_mem_replicate hc]
    decide

/-- Constant hash functions and the default settings. -/
def deps : Deps := ⟨⟨fun _ => digest, fun _ _ => digest⟩, .default⟩

/-- The `n`-th identifier. -/
def id (n : ℕ) : UUID := ⟨BitVec.ofNat 128 n⟩

/-- 2023-11-14T22:13:20Z. -/
def start : Datetime := ⟨1700000000000000, by decide, by decide⟩

/-- A request for an endpoint with a given retry budget and timeout. -/
def endpoint (maxRetries timeoutSeconds : ℕ) (h : 1 ≤ maxRetries ∧ maxRetries ≤ 20)
    (h' : 5 ≤ timeoutSeconds ∧ timeoutSeconds ≤ 120) : EndpointCreate where
  name := Str.lit "shop"
  url := Str.lit "https://shop.example/hook"
  maxRetries := maxRetries
  retryBackoffBase := 2
  retryMaxDelaySeconds := 3600
  timeoutSeconds := timeoutSeconds
  eventTypesFilter := []
  customHeaders := Dict.empty
  name_le := by decide
  maxRetries_mem := h
  retryBackoffBase_mem := by norm_num
  retryMaxDelaySeconds_mem := by decide
  timeoutSeconds_mem := h'

/-- A request for an event of endpoint `id 1`. -/
def event (eventType : Str) (key : Option Str) (h : eventType.length ≤ 255)
    (h' : ∀ k, key = some k → k.length ≤ 255) : EventCreate where
  endpointId := id 1
  eventType := eventType
  payload := []
  idempotencyKey := key
  eventType_le := h
  idempotencyKey_le := h'

/-- An endpoint with one attempt and the shortest timeout. -/
def shop : EndpointCreate := endpoint 1 5 (by decide) (by decide)

/-- An endpoint with three attempts and the shortest timeout. -/
def retrying : EndpointCreate := endpoint 3 5 (by decide) (by decide)

/-- An endpoint with given custom headers. -/
def headed (d : Dict Str Str) : EndpointCreate := { shop with customHeaders := d }

/-- A PATCH of the retry budget. -/
def budget (maxRetries : ℕ) (h : 1 ≤ maxRetries ∧ maxRetries ≤ 20) : EndpointUpdate where
  name := none
  url := none
  maxRetries := some maxRetries
  retryBackoffBase := none
  retryMaxDelaySeconds := none
  timeoutSeconds := none
  eventTypesFilter := none
  customHeaders := none
  isActive := none
  name_le := fun _ h => nomatch h
  maxRetries_mem := fun _ hn => by cases hn; exact h
  retryBackoffBase_mem := fun _ h => nomatch h
  retryMaxDelaySeconds_mem := fun _ h => nomatch h
  timeoutSeconds_mem := fun _ h => nomatch h

/-- An event of a given type, without a key. -/
def typed (eventType : Str) (h : eventType.length ≤ 255) : EventCreate :=
  event eventType none h fun _ hk => by cases hk

/-- An event with a given key. -/
def keyed (key : Str) (h : key.length ≤ 255) : EventCreate :=
  event (Str.lit "order.paid") (some key) (by decide) fun _ hk => by cases hk; exact h

/-- An event without a key. -/
def order : EventCreate := typed (Str.lit "order.paid") (by decide)

/-- A response without headers. -/
def response (status : ℤ) (text : PyStr) : HttpAnswer := .response ⟨status, .ok text, []⟩

/-- An oracle with the `n`-th identifier, whose circuit is closed and whose POST is answered at
once. -/
def oracle (n : ℕ) (answer : HttpAnswer) : Oracle where
  uuid := id n
  token := digest
  draw := ⟨0, by norm_num⟩
  allowed := true
  openCircuits := []
  answer := answer
  elapsed := 0

/-- The world after an endpoint `id 1` and an event `id 2` were committed. -/
def world (e : EndpointCreate) (data : EventCreate) : World where
  wal := [.insertEndpoint (Api.newEndpoint e digest.text (id 1)),
    .insertEvent (Api.newEvent data (id 2) start)]
  now := start
  jobs := fun _ => ⟨none, none⟩
  posts := []

/-- `n` calls of coroutine `t`. -/
def calls (t n : ℕ) (o : Oracle) : List Action := List.replicate n (.call t o)

/-- A request that makes `n` calls as coroutine `t`. -/
def request (t n : ℕ) (r : Request) (o : Oracle) : List Action := .arrive r :: calls t n o

/-- The endpoint `id 1` and the event `id 2` are created, as coroutines 0 and 1. -/
def setup (e : EndpointCreate) (data : EventCreate) : List Action :=
  request 0 4 (.createEndpoint e) (oracle 1 .cancelled) ++
    request 1 6 (.createEvent data) (oracle 2 .cancelled)

/-- A job of the event `id 2` that makes `n` calls as coroutine `t`. -/
def job (t n : ℕ) (o : Oracle) : List Action := .startJob (id 2) :: calls t n o

end Sample

end WebhookRelay

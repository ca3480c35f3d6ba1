import WebhookRelay.Data.Datetime
import WebhookRelay.Data.Table
import Mathlib.Data.List.Sort

/-!
# The rows of the four tables, and the request schemas

Sources: `models/endpoint.py`, `models/event.py`, `models/delivery_attempt.py`,
`models/dead_letter.py`, `schemas/endpoint.py`, `schemas/event.py`. A schema carries its field
constraints, so that a request that exists is one that was accepted. The endpoint columns
`created_at` and `updated_at` are read by nothing modelled here and are left out.
-/

namespace WebhookRelay

open Data

/-! ### Identifiers and JSON values -/

/-- A UUID. -/
structure UUID where
  /-- Its 128 bits. -/
  bits : BitVec 128
  deriving DecidableEq

/-- `str(uuid)`: hexadecimal digits in groups of 8, 4, 4, 4 and 12. -/
def UUID.str (u : UUID) : Str :=
  let n := u.bits.toNat
  Str.hex 8 (n / 2 ^ 96) ++ '-' :: Str.hex 4 (n / 2 ^ 80) ++ '-' :: Str.hex 4 (n / 2 ^ 64) ++
    '-' :: Str.hex 4 (n / 2 ^ 48) ++ '-' :: Str.hex 12 n

/-- The text form of a UUID is ASCII. -/
theorem UUID.isAscii_str (u : UUID) : u.str.isAscii = true := by
  simp [UUID.str, Str.isAscii_hex]

/-- The text form of a UUID has no colon. -/
theorem UUID.colon_not_mem_str (u : UUID) : ':' ∉ u.str := by
  have hhex (k n : ℕ) : ':' ∉ Str.hex k n := Str.not_mem_hex Str.hexDigit_ne_colon k n
  simp [UUID.str, hhex]

/-- The text form of a UUID has no NUL. -/
theorem UUID.hasNul_str (u : UUID) : u.str.hasNul = false := by
  have hc (s : Str) : Str.hasNul ('-' :: s) = s.hasNul := by
    simp only [Str.hasNul, List.any_cons]
    rfl
  simp only [UUID.str, Str.hasNul_append, hc, Str.hasNul_hex, Bool.or_false]

/-- The text form of a UUID says which one it is. -/
theorem UUID.str_injective : Function.Injective UUID.str := by
  intro u v h
  obtain ⟨h, h₅⟩ := List.append_inj h (by simp)
  obtain ⟨h, h₄⟩ := List.append_inj h (by simp)
  obtain ⟨h, h₃⟩ := List.append_inj h (by simp)
  obtain ⟨h₁, h₂⟩ := List.append_inj h (by simp)
  have h₁ := Str.hex_inj h₁
  have h₂ := Str.hex_inj (List.cons.inj h₂).2
  have h₃ := Str.hex_inj (List.cons.inj h₃).2
  have h₄ := Str.hex_inj (List.cons.inj h₄).2
  have h₅ := Str.hex_inj (List.cons.inj h₅).2
  have hu := u.bits.isLt
  have hv := v.bits.isLt
  have hbits : u.bits.toNat = v.bits.toNat := by omega
  exact congrArg UUID.mk (BitVec.eq_of_toNat_eq hbits)

/-- A JSON value as `json.loads` makes it; a number is kept as the text Python prints for it, `NaN`,
`Infinity` and `-Infinity` among them. -/
inductive Json where
  | null
  | bool (b : Bool)
  | num (repr : Str)
  | str (s : PyStr)
  | arr (xs : List Json)
  | obj (items : List (PyStr × Json))

namespace Json

/-- The numbers of Python that JSON does not have. -/
def nonNumbers : List Str := [Str.lit "NaN", Str.lit "Infinity", Str.lit "-Infinity"]

/-- PostgreSQL takes the string of a JSON text: no NUL, and surrogates in pairs. -/
def storableStr (s : PyStr) : Bool := !s.hasNul && !s.hasLoneSurrogate

mutual

/-- PostgreSQL takes the value into a JSONB column. -/
def storable : Json → Bool
  | num repr => !nonNumbers.any fun s => decide (s = repr)
  | str s => storableStr s
  | arr xs => storableElems xs
  | obj items => storableItems items
  | _ => true

/-- `storable` for every element. -/
def storableElems : List Json → Bool
  | [] => true
  | x :: xs => x.storable && storableElems xs

/-- `storable` for every key and value. -/
def storableItems : List (PyStr × Json) → Bool
  | [] => true
  | (k, v) :: rest => storableStr k && v.storable && storableItems rest

end

/-- One UTF-16 code unit as `\uXXXX`. -/
def escapeUnit (n : ℕ) : Str := '\\' :: 'u' :: Str.hex 4 n

/-- A code point inside a JSON string, with everything but printable ASCII escaped. -/
def escapeChar (c : CodePoint) : Str :=
  let n := c.val
  if n = 34 then ['\\', '"']
  else if n = 92 then ['\\', '\\']
  else if n = 10 then ['\\', 'n']
  else if n = 13 then ['\\', 'r']
  else if n = 9 then ['\\', 't']
  else if n = 12 then ['\\', 'f']
  else if n = 8 then ['\\', 'b']
  else if 32 ≤ n ∧ n ≤ 126 then [Char.ofNat n]
  else if n < 65536 then escapeUnit n
  else escapeUnit (55296 + (n - 65536) / 1024) ++ escapeUnit (56320 + (n - 65536) % 1024)

/-- A JSON string literal. -/
def quote (s : PyStr) : Str := '"' :: s.flatMap escapeChar ++ ['"']

mutual

/-- `json.dumps(x, separators=(",", ":"), sort_keys=True)`. -/
def dumps : Json → Str
  | null => Str.lit "null"
  | bool b => if b then Str.lit "true" else Str.lit "false"
  | num repr => repr
  | str s => quote s
  | arr xs => '[' :: Str.join [','] (dumpsElems xs) ++ [']']
  | obj items =>
    '{' :: Str.join [','] (((dumpsItems items).insertionSort fun a b => a.1 ≤ b.1).map fun x =>
      quote x.1 ++ ':' :: x.2) ++ ['}']

/-- `dumps` of each element. -/
def dumpsElems : List Json → List Str
  | [] => []
  | x :: xs => x.dumps :: dumpsElems xs

/-- Each key with `dumps` of its value. -/
def dumpsItems : List (PyStr × Json) → List (PyStr × Str)
  | [] => []
  | (k, v) :: rest => (k, v.dumps) :: dumpsItems rest

end

end Json

/-! ### Rows -/

/-- The values of `webhook_events.status`. -/
inductive EventStatus where
  | pending
  | delivering
  | delivered
  | failed
  | deadLettered
  deriving DecidableEq

/-- The guard of `deliver`: no run touches an event in one of these states again. -/
def EventStatus.terminal (s : EventStatus) : Bool :=
  decide (s = .delivered ∨ s = .deadLettered)

/-- A row of `webhook_endpoints`. -/
structure WebhookEndpoint where
  id : UUID
  name : Str
  url : Str
  signingSecret : Str
  maxRetries : ℕ
  retryBackoffBase : ℚ
  retryMaxDelaySeconds : ℕ
  timeoutSeconds : ℕ
  eventTypesFilter : List Str
  customHeaders : Dict Str Str
  isActive : Bool

/-- A row of `webhook_events`. -/
structure WebhookEvent where
  id : UUID
  endpointId : UUID
  eventType : Str
  payload : List (PyStr × Json)
  idempotencyKey : Option Str
  status : EventStatus
  attemptCount : ℕ
  nextRetryAt : Option Datetime
  createdAt : Datetime
  deliveredAt : Option Datetime

/-- A row of `delivery_attempts`. -/
structure DeliveryAttempt where
  id : UUID
  eventId : UUID
  attemptNumber : ℕ
  requestHeaders : Dict Str Str
  requestBodyHash : Str
  httpStatusCode : Option ℤ
  responseBody : Option PyStr
  responseHeaders : Option (Dict Str Str)
  success : Bool
  errorMessage : Option Str
  durationMs : ℚ
  attemptedAt : Datetime

/-- A row of `dead_letter_events`. -/
structure DeadLetterEvent where
  id : UUID
  eventId : UUID
  endpointId : UUID
  originalPayload : List (PyStr × Json)
  eventType : Str
  totalAttempts : ℕ
  lastError : Option Str
  lastHttpStatus : Option ℤ
  replayedAt : Option Datetime
  replayCount : ℕ
  deadLetteredAt : Datetime

/-! ### Request schemas -/

/-- `EventCreate`. -/
structure EventCreate where
  endpointId : UUID
  eventType : Str
  payload : List (PyStr × Json)
  idempotencyKey : Option Str
  eventType_le : eventType.length ≤ 255
  idempotencyKey_le : ∀ k, idempotencyKey = some k → k.length ≤ 255

/-- `EndpointCreate`; `url` is the text of the validated URL. -/
structure EndpointCreate where
  name : Str
  url : Str
  maxRetries : ℕ
  retryBackoffBase : ℚ
  retryMaxDelaySeconds : ℕ
  timeoutSeconds : ℕ
  eventTypesFilter : List Str
  customHeaders : Dict Str Str
  name_le : name.length ≤ 255
  maxRetries_mem : 1 ≤ maxRetries ∧ maxRetries ≤ 20
  retryBackoffBase_mem : 1 ≤ retryBackoffBase ∧ retryBackoffBase ≤ 10
  retryMaxDelaySeconds_mem : 60 ≤ retryMaxDelaySeconds ∧ retryMaxDelaySeconds ≤ 86400
  timeoutSeconds_mem : 5 ≤ timeoutSeconds ∧ timeoutSeconds ≤ 120

/-- `EndpointUpdate`: a field that is absent or null is left as it is. -/
structure EndpointUpdate where
  name : Option Str
  url : Option Str
  maxRetries : Option ℕ
  retryBackoffBase : Option ℚ
  retryMaxDelaySeconds : Option ℕ
  timeoutSeconds : Option ℕ
  eventTypesFilter : Option (List Str)
  customHeaders : Option (Dict Str Str)
  isActive : Option Bool
  name_le : ∀ s, name = some s → s.length ≤ 255
  maxRetries_mem : ∀ n, maxRetries = some n → 1 ≤ n ∧ n ≤ 20
  retryBackoffBase_mem : ∀ q, retryBackoffBase = some q → 1 ≤ q ∧ q ≤ 10
  retryMaxDelaySeconds_mem : ∀ n, retryMaxDelaySeconds = some n → 60 ≤ n ∧ n ≤ 86400
  timeoutSeconds_mem : ∀ n, timeoutSeconds = some n → 5 ≤ n ∧ n ≤ 120

end WebhookRelay

import WebhookRelay.Signing.Evidence

/-!
# Verifying what comes in

Sources: `verify_signature` and `parse_timestamp` of `services/hmac_service.py`, with every
exception that Python raises on the way, and `verify_inbound_hmac` of `api/v1/delivery.py`.

Splitting, building the dict, looking up a field and converting the timestamp raise `KeyError` or
`ValueError`, which both functions catch. Formatting the timestamp again cannot raise, since `int`
has the limit on digits of `str`. What is left is `compare_digest`, outside the `try`: it raises a
`TypeError` on a digest that is not ASCII, and does so for exactly the headers that get as far
(`inbound_answers_iff`).
-/

namespace WebhookRelay

open Data Effect

/-- The exceptions of reading a header and of comparing digests. -/
inductive HeaderError where
  | keyError (key : Str)
  | valueError
  | typeError
  deriving DecidableEq

/-- `except (KeyError, ValueError)`. -/
def HeaderError.caught : HeaderError → Bool
  | keyError _ => true
  | valueError => true
  | typeError => false

/-- `try` around a computation, with a default for the exceptions that are caught. -/
def catching {α : Type} (default : α) : Except HeaderError α → Except HeaderError α
  | .ok a => .ok a
  | .error x => if x.caught then .ok default else .error x

namespace HMACService

/-- `dict(p.split("=", 1) for p in signature_header.split(","))`. -/
def readParts (signatureHeader : Str) : Except HeaderError (Dict Str Str) :=
  orRaise .valueError (headerParts signatureHeader)

/-- `parts[key]`. -/
def readItem (parts : Dict Str Str) (key : Str) : Except HeaderError Str :=
  orRaise (.keyError key) (parts.get? key)

/-- `int(parts["t"])`. -/
def readTimestamp (parts : Dict Str Str) : Except HeaderError ℤ := do
  orRaise .valueError (pyInt (← readItem parts (Str.lit "t")))

/-- The `try` block of `verify_signature`. -/
def readSignature (signatureHeader : Str) : Except HeaderError (ℤ × Str) := do
  let parts ← readParts signatureHeader
  let timestamp ← readTimestamp parts
  let provided ← readItem parts (Str.lit "v1")
  pure (timestamp, provided)

/-- What `verify_signature` does after the `try` block. -/
def checkSignature (crypto : Crypto) (tolerance now : ℤ) (body : List UInt8) (secret : Str)
    (timestamp : ℤ) (provided : Str) : Except HeaderError Bool :=
  if tolerance < |now - timestamp| then .ok false
  else do
    let decimal ← orRaise .valueError (pyStr timestamp)
    let expected := crypto.hmacSha256 secret.encode ((decimal ++ ['.']).encode ++ body)
    (compareDigest provided expected.text).mapError fun _ => .typeError

/-- Source: `verify_signature`, with its exceptions. -/
def tryVerifySignature (crypto : Crypto) (tolerance now : ℤ) (body : List UInt8)
    (signatureHeader secret : Str) : Except HeaderError Bool :=
  match catching none ((readSignature signatureHeader).map some) with
  | .ok none => .ok false
  | .ok (some (timestamp, provided)) =>
    checkSignature crypto tolerance now body secret timestamp provided
  | .error x => .error x

/-- Source: `parse_timestamp`, with its exceptions. -/
def tryParseTimestamp (signatureHeader : Str) : Except HeaderError (Option ℤ) :=
  catching none ((readParts signatureHeader >>= readTimestamp).map some)

end HMACService

/-- `HMACVerifyResponse`. -/
structure HMACVerifyResponse where
  valid : Bool
  timestampAgeSeconds : Option ℤ
  error : Option Str
  deriving DecidableEq

namespace Api

/-- `abs(int(time.time()) - ts) if ts else None`. -/
def timestampAge (now : ℤ) (ts : Option ℤ) : Option ℤ :=
  (ts.filter fun t => decide (t ≠ 0)).map fun t => |now - t|

/-- Source: `verify_inbound_hmac`, for the values of the two headers and the clock at its two
reads. -/
def verifyInboundHmac (crypto : Crypto) (tolerance now later : ℤ) (body : List UInt8)
    (signature secret : Option Str) : Except HeaderError HMACVerifyResponse :=
  if signature.getD [] = [] ∨ secret.getD [] = [] then
    .ok ⟨false, none, some (Str.lit "Missing X-Webhook-Signature or X-Webhook-Secret header")⟩
  else do
    let valid ← HMACService.tryVerifySignature crypto tolerance now body (signature.getD [])
      (secret.getD [])
    let ts ← HMACService.tryParseTimestamp (signature.getD [])
    pure ⟨valid, timestampAge later ts,
      if valid then none else some (Str.lit "Signature verification failed")⟩

end Api

namespace HMACService

/-! ### What is caught -/

section read

variable {header : Str}

/-- The exceptions of a computation are all caught, and this is what is left of it. -/
def Recovers {α : Type} (r : Except HeaderError α) (o : Option α) : Prop :=
  catching none (r.map some) = .ok o

theorem recovers_pure {α : Type} (a : α) : Recovers (pure a) (some a) := rfl

theorem recovers_orRaise {α : Type} {x : HeaderError} (hx : x.caught = true) {o : Option α} :
    Recovers (orRaise x o) o := by
  cases o with
  | none => exact if_pos hx
  | some a => rfl

theorem Recovers.bind {α β : Type} {r : Except HeaderError α} {o : Option α}
    {f : α → Except HeaderError β} {g : α → Option β} (hr : Recovers r o)
    (hf : ∀ a, Recovers (f a) (g a)) : Recovers (r >>= f) (o >>= g) := by
  cases r with
  | ok a =>
    obtain rfl : some a = o := Except.ok.inj hr
    exact hf a
  | error x =>
    have hr' : (if x.caught then .ok none else .error x) = Except.ok o := hr
    split_ifs at hr' with hx
    obtain rfl := Except.ok.inj hr'
    exact if_pos hx

theorem recovers_readItem {parts : Dict Str Str} {key : Str} :
    Recovers (readItem parts key) (parts.get? key) := recovers_orRaise rfl

theorem recovers_readTimestamp {parts : Dict Str Str} :
    Recovers (readTimestamp parts) ((parts.get? (Str.lit "t")).bind pyInt) :=
  recovers_readItem.bind fun _ => recovers_orRaise rfl

/-- Every exception of `parse_timestamp` is caught. -/
theorem tryParseTimestamp_eq : tryParseTimestamp header = .ok (parseTimestamp header) :=
  (recovers_orRaise rfl).bind fun _ => recovers_readTimestamp

/-- Every exception of the `try` block of `verify_signature` is caught. -/
theorem recovers_readSignature : Recovers (readSignature header) (parseSignature header) := by
  refine (recovers_orRaise rfl).bind fun parts => ?_
  have hfields := (@recovers_readTimestamp parts).bind fun timestamp =>
    (@recovers_readItem parts (Str.lit "v1")).bind fun provided =>
      recovers_pure (timestamp, provided)
  rw [Option.bind_eq_bind, Option.bind_assoc] at hfields
  exact hfields

end read

/-! ### What is not caught -/

section verify

variable {crypto : Crypto} {tolerance now later : ℤ} {body : List UInt8} {header secret : Str}

/-- The header has a recent timestamp, and a digest that is not ASCII. -/
def ForeignDigest (tolerance now : ℤ) (header : Str) : Prop :=
  ∃ ts digest, parseSignature header = some (ts, digest) ∧ |now - ts| ≤ tolerance ∧
    digest.isAscii = false

/-- The only exception of `verify_signature` is the one of `compare_digest`. -/
theorem tryVerifySignature_eq : tryVerifySignature crypto tolerance now body header secret =
    (verifySignature crypto tolerance now body header secret).mapError fun _ => .typeError := by
  unfold tryVerifySignature verifySignature
  rw [recovers_readSignature]
  cases hparse : parseSignature header with
  | none => rfl
  | some x =>
    have hdigits : x.1.natAbs < 10 ^ maxStrDigits := by
      obtain ⟨htime, -⟩ := parseSignature_eq_some.mp hparse
      simp only [parseTimestamp, Option.bind_eq_bind, Option.bind_eq_some_iff] at htime
      obtain ⟨_, -, _, -, hint⟩ := htime
      exact natAbs_lt_of_pyInt hint
    dsimp only
    unfold checkSignature
    split_ifs
    · rfl
    · rw [pyStr_of_lt hdigits]
      rfl

/-- When `verify_signature` returns. -/
theorem exists_ok_iff : (∃ valid, tryVerifySignature crypto tolerance now body header secret =
    .ok valid) ↔ ¬ ForeignDigest tolerance now header := by
  rw [tryVerifySignature_eq]
  unfold verifySignature ForeignDigest
  cases parseSignature header with
  | none =>
    refine ⟨fun _ => ?_, fun _ => ⟨false, rfl⟩⟩
    rintro ⟨_, _, hparse, -⟩
    cases hparse
  | some x =>
    dsimp only
    split_ifs with hold
    · refine ⟨fun _ => ?_, fun _ => ⟨false, rfl⟩⟩
      rintro ⟨_, _, hparse, hnear, -⟩
      obtain rfl := Option.some.inj hparse
      exact absurd hold (not_lt.mpr hnear)
    · cases hascii : x.2.isAscii with
      | true =>
        refine ⟨fun _ => ?_, fun _ => ?_⟩
        · rintro ⟨_, _, hparse, -, hforeign⟩
          obtain rfl := Option.some.inj hparse
          rw [hascii] at hforeign
          cases hforeign
        · unfold compareDigest
          rw [hascii, HexDigest.isAscii]
          exact ⟨_, rfl⟩
      | false =>
        refine ⟨?_, fun h => absurd ⟨_, _, rfl, not_lt.mp hold, hascii⟩ h⟩
        rintro ⟨valid, hvalid⟩
        unfold compareDigest at hvalid
        rw [hascii] at hvalid
        cases hvalid

/-- What is valid is accepted as evidence. -/
theorem exists_accepted
    (h : tryVerifySignature crypto tolerance now body header secret = .ok true) :
    ∃ ts, Accepted crypto tolerance now body header secret ts := by
  rw [tryVerifySignature_eq] at h
  cases hv : verifySignature crypto tolerance now body header secret with
  | error x =>
    rw [hv] at h
    cases h
  | ok valid =>
    rw [hv] at h
    obtain rfl := Except.ok.inj h
    obtain ⟨ts, hrecent, hparse⟩ := parseSignature_of_verifies hv
    obtain ⟨htime, hdigest⟩ := parseSignature_eq_some.mp hparse
    exact ⟨ts, htime, hrecent, hdigest⟩

end verify

end HMACService

/-- A request to verify is answered: both functions return, a header that is no evidence of a
timestamp and the body is not valid, and the endpoint responds, whichever headers are there. -/
structure InboundAnswers (crypto : Crypto) (tolerance now later : ℤ) (body : List UInt8)
    (header secret : Str) : Prop where
  verifies : ∃ valid,
    HMACService.tryVerifySignature crypto tolerance now body header secret = .ok valid
  parses : ∃ ts, HMACService.tryParseTimestamp header = .ok ts
  rejects : (¬ ∃ ts, HMACService.Accepted crypto tolerance now body header secret ts) →
    HMACService.tryVerifySignature crypto tolerance now body header secret = .ok false
  responds : ∀ signature key : Option Str, (∀ x ∈ signature, x = header) → (∀ x ∈ key, x = secret) →
    ∃ response, Api.verifyInboundHmac crypto tolerance now later body signature key = .ok response

/-- **When a request to verify is answered**: unless its digest, beside a recent timestamp, is not
ASCII. -/
theorem inbound_answers_iff (crypto : Crypto) (tolerance now later : ℤ) (body : List UInt8)
    (header secret : Str) : InboundAnswers crypto tolerance now later body header secret ↔
      ¬ HMACService.ForeignDigest tolerance now header := by
  refine ⟨fun h => HMACService.exists_ok_iff.mp h.verifies, fun h => ?_⟩
  have hok : ∃ valid, HMACService.tryVerifySignature crypto tolerance now body header secret =
      .ok valid := HMACService.exists_ok_iff.mpr h
  obtain ⟨valid, hvalid⟩ := hok
  refine ⟨⟨valid, hvalid⟩, ⟨_, HMACService.tryParseTimestamp_eq⟩, fun hreject => ?_, ?_⟩
  · cases valid with
    | false => exact hvalid
    | true => exact absurd (HMACService.exists_accepted hvalid) hreject
  · intro signature key hsignature hkey
    unfold Api.verifyInboundHmac
    split_ifs with hmissing
    · exact ⟨_, rfl⟩
    · cases signature with
      | none => exact absurd (.inl rfl) hmissing
      | some x =>
        cases key with
        | none => exact absurd (.inr rfl) hmissing
        | some y =>
          obtain rfl := hsignature x rfl
          obtain rfl := hkey y rfl
          rw [Option.getD_some, Option.getD_some, hvalid, HMACService.tryParseTimestamp_eq]
          exact ⟨_, rfl⟩

/-- A header with a digest of one letter that is not ASCII, and a recent timestamp, is not
answered. -/
theorem not_inbound_answers_of_latin1 : ¬ InboundAnswers Sample.deps.crypto
    HMACService.timestampTolerance 1700000000 1700000000 [123, 125]
    (Str.lit "t=1700000000,v1=é") (Str.lit "key") := by
  rintro ⟨⟨valid, hvalid⟩, -, -, -⟩
  have hraise : HMACService.tryVerifySignature Sample.deps.crypto HMACService.timestampTolerance
      1700000000 [123, 125] (Str.lit "t=1700000000,v1=é") (Str.lit "key") =
      .error .typeError := by decide +kernel
  rw [hraise] at hvalid
  cases hvalid

end WebhookRelay

import WebhookRelay.Repositories

/-!
# Signing and verifying

Source: `services/hmac_service.py`. SHA-256 and HMAC-SHA-256 are functions into 64 lower-case
hexadecimal digits, with nothing else assumed of them. A signature is a header of fields,
`t=<timestamp>,v1=<digest>`; what `sign_payload` puts in, `parse_timestamp` and
`verify_signature` read back (`parseTimestamp_signature`, `verifySignature_signature`).
-/

namespace WebhookRelay

open Data Effect

/-- The hash functions. -/
structure Crypto where
  sha256 : List UInt8 → HexDigest
  hmacSha256 : List UInt8 → List UInt8 → HexDigest

namespace HMACService

/-- `SIGNATURE_HEADER`. -/
def signatureHeader : Str := Str.lit "X-Webhook-Signature"

/-- The header with the type of the event. -/
def eventTypeHeader : Str := Str.lit "X-Webhook-Event-Type"

/-- The signed content: the timestamp, a dot, the body. -/
def signedContent (ts : ℤ) (body : List UInt8) : List UInt8 :=
  (Str.ofInt ts ++ ['.']).encode ++ body

/-- The header value `sign_payload` returns for a timestamp. -/
def signature (crypto : Crypto) (body : List UInt8) (secret : Str) (ts : ℤ) : Str :=
  Str.lit "t=" ++ Str.ofInt ts ++ Str.lit ",v1=" ++
    (crypto.hmacSha256 secret.encode (signedContent ts body)).text

/-- The signature for a timestamp; one of more than 4300 digits cannot be formatted. -/
def signAt (crypto : Crypto) (body : List UInt8) (secret : Str) (ts : ℤ) : Relay Str :=
  match pyStr ts with
  | some _ => pure (signature crypto body secret ts)
  | none => raise .valueError

/-- Source: `sign_payload`: a timestamp that is absent or zero is replaced by the clock. -/
def signPayload (crypto : Crypto) (body : List UInt8) (secret : Str) (timestamp : Option ℤ) :
    Relay Str := do
  match timestamp with
  | some ts =>
    if ts ≠ 0 then signAt crypto body secret ts
    else signAt crypto body secret (← now).timestamp
  | none => signAt crypto body secret (← now).timestamp

/-- The headers `get_signature_headers` returns around a signature. -/
def signatureHeaders (signature : Str) (eventId eventType : Str) (timestamp : ℤ) : Dict Str Str :=
  Dict.ofList
    [(signatureHeader, signature),
      (Str.lit "X-Webhook-Event-ID", eventId),
      (eventTypeHeader, eventType),
      (Str.lit "X-Webhook-Timestamp", Str.ofInt timestamp),
      (Str.lit "Content-Type", Str.lit "application/json"),
      (Str.lit "User-Agent", Str.lit "WebhookRelay/1.0")]

/-- Source: `get_signature_headers`. -/
def getSignatureHeaders (crypto : Crypto) (body : List UInt8) (secret eventId eventType : Str) :
    Relay (Dict Str Str) := do
  let timestamp := (← now).timestamp
  let signature ← signPayload crypto body secret (some timestamp)
  pure (signatureHeaders signature eventId eventType timestamp)

/-! ### Verification -/

/-- `timestamp_tolerance`, in seconds, as the constructor and the settings have it by default. -/
def timestampTolerance : ℤ := 300

/-- `p.split("=", 1)` as a pair; without an equals sign `dict` raises a `ValueError` (`none`). -/
def splitField (p : Str) : Option (Str × Str) :=
  match p.dropWhile fun c => decide (c ≠ '=') with
  | [] => none
  | _ :: value => some (p.takeWhile fun c => decide (c ≠ '='), value)

/-- `dict(p.split("=", 1) for p in signature_header.split(","))`. -/
def headerParts (signatureHeader : Str) : Option (Dict Str Str) :=
  ((signatureHeader.splitOn ',').mapM splitField).map Dict.ofList

/-- The timestamp and the digest `verify_signature` reads; `none` is a `KeyError` or a
`ValueError`. -/
def parseSignature (signatureHeader : Str) : Option (ℤ × Str) := do
  let parts ← headerParts signatureHeader
  let timestamp ← pyInt (← parts.get? (Str.lit "t"))
  let provided ← parts.get? (Str.lit "v1")
  pure (timestamp, provided)

/-- Source: `parse_timestamp`. -/
def parseTimestamp (signatureHeader : Str) : Option ℤ := do
  let parts ← headerParts signatureHeader
  pyInt (← parts.get? (Str.lit "t"))

/-- `parts["v1"]` of a header, if it has such a field. -/
def digestField (signatureHeader : Str) : Option Str := do
  (← headerParts signatureHeader).get? (Str.lit "v1")

/-- The `TypeError` of `hmac.compare_digest`. -/
inductive TypeError where
  | typeError
  deriving DecidableEq

/-- `hmac.compare_digest` of two texts, which have to be ASCII. -/
def compareDigest (a b : Str) : Except TypeError Bool :=
  if a.isAscii && b.isAscii then .ok (decide (a = b)) else .error .typeError

/-- Source: `verify_signature`, at the time `now` of the clock. -/
def verifySignature (crypto : Crypto) (tolerance now : ℤ) (body : List UInt8)
    (signatureHeader secret : Str) : Except TypeError Bool :=
  match parseSignature signatureHeader with
  | none => .ok false
  | some (timestamp, provided) =>
    if tolerance < |now - timestamp| then .ok false
    else compareDigest provided
      (crypto.hmacSha256 secret.encode (signedContent timestamp body)).text

/-! ### The fields of a signature -/

section fields

variable {crypto : Crypto} {body : List UInt8} {secret : Str} {ts : ℤ}

/-- A field is split at its first equals sign. -/
theorem splitField_append {key value : Str} (h : '=' ∉ key) :
    splitField (key ++ '=' :: value) = some (key, value) := by
  have hkey : ∀ c ∈ key, decide (c ≠ '=') = true := fun c hc =>
    decide_eq_true fun he => h (he ▸ hc)
  unfold splitField
  rw [List.dropWhile_append_of_pos hkey, List.takeWhile_append_of_pos hkey]
  simp

/-- A digest has no comma in it. -/
theorem comma_not_mem_digest (d : HexDigest) : ',' ∉ d.text := fun h =>
  absurd (d.isHex _ h) (by decide)

/-- The fields of a signature are its timestamp and its digest. -/
theorem headerParts_signature :
    headerParts (signature crypto body secret ts) = some (Dict.ofList
      [(Str.lit "t", Str.ofInt ts),
        (Str.lit "v1", (crypto.hmacSha256 secret.encode (signedContent ts body)).text)]) := by
  let digest := (crypto.hmacSha256 secret.encode (signedContent ts body)).text
  have hsplit : (signature crypto body secret ts).splitOn ',' =
      [Str.lit "t" ++ '=' :: Str.ofInt ts, Str.lit "v1" ++ '=' :: digest] := by
    have hts : ',' ∉ Str.ofInt ts := not_mem_ofInt (by decide) (by decide)
    have hdigest : ',' ∉ digest := comma_not_mem_digest _
    have hjoin : signature crypto body secret ts = [','].intercalate
        [Str.lit "t" ++ '=' :: Str.ofInt ts, Str.lit "v1" ++ '=' :: digest] := by
      have hfirst : Str.lit "t=" = Str.lit "t" ++ ['='] := rfl
      have hsecond : Str.lit ",v1=" = ',' :: (Str.lit "v1" ++ ['=']) := rfl
      rw [signature, hfirst, hsecond]
      simp [List.intercalate, digest]
    rw [hjoin]
    refine List.splitOn_intercalate ',' ?_ (by simp)
    intro l hl
    rcases List.mem_pair.mp hl with rfl | rfl
    · exact List.not_mem_append (by decide) (by simpa using hts)
    · exact List.not_mem_append (by decide) (by simpa using hdigest)
  unfold headerParts
  rw [hsplit, List.mapM_cons, splitField_append (by decide), List.mapM_cons,
    splitField_append (by decide)]
  rfl

theorem get?_timestamp {digest : Str} :
    (Dict.ofList [(Str.lit "t", Str.ofInt ts), (Str.lit "v1", digest)]).get? (Str.lit "t") =
      some (Str.ofInt ts) := rfl

theorem get?_digest {digest : Str} :
    (Dict.ofList [(Str.lit "t", Str.ofInt ts), (Str.lit "v1", digest)]).get? (Str.lit "v1") =
      some digest := rfl

/-- The digest of a signature is its field `v1`. -/
theorem digestField_signature : digestField (signature crypto body secret ts) =
    some (crypto.hmacSha256 secret.encode (signedContent ts body)).text := by
  unfold digestField
  rw [headerParts_signature, Option.bind_eq_bind, Option.bind_some, get?_digest]

/-- `parse_timestamp` reads the timestamp of a signature back. -/
theorem parseTimestamp_signature (h : ts.natAbs < 10 ^ maxStrDigits) :
    parseTimestamp (signature crypto body secret ts) = some ts := by
  unfold parseTimestamp
  rw [headerParts_signature, Option.bind_eq_bind, Option.bind_some, get?_timestamp,
    Option.bind_eq_bind, Option.bind_some, pyInt_ofInt h]

/-- A signature is accepted for its body and secret as long as its timestamp is within the
tolerance. -/
theorem verifySignature_signature {tolerance now : ℤ} (h : ts.natAbs < 10 ^ maxStrDigits) :
    verifySignature crypto tolerance now body (signature crypto body secret ts) secret =
      .ok (decide (|now - ts| ≤ tolerance)) := by
  have hparse : parseSignature (signature crypto body secret ts) =
      some (ts, (crypto.hmacSha256 secret.encode (signedContent ts body)).text) := by
    unfold parseSignature
    rw [headerParts_signature, Option.bind_eq_bind, Option.bind_some, get?_timestamp,
      Option.bind_eq_bind, Option.bind_some, pyInt_ofInt h, Option.bind_eq_bind,
      Option.bind_some, get?_digest]
    rfl
  unfold verifySignature
  rw [hparse]
  dsimp only
  by_cases hold : tolerance < |now - ts|
  · rw [if_pos hold, decide_eq_false (not_le.mpr hold)]
  · rw [if_neg hold, decide_eq_true (not_lt.mp hold)]
    unfold compareDigest
    rw [HexDigest.isAscii, Bool.and_self, if_pos rfl, decide_eq_true rfl]

/-- What an accepted header says: a timestamp within the tolerance, and the digest of the content
signed at that time. -/
theorem parseSignature_of_verifies {tolerance now : ℤ} {header : Str}
    (h : verifySignature crypto tolerance now body header secret = .ok true) :
    ∃ ts, |now - ts| ≤ tolerance ∧ parseSignature header =
      some (ts, (crypto.hmacSha256 secret.encode (signedContent ts body)).text) := by
  unfold verifySignature at h
  cases hp : parseSignature header with
  | none =>
    rw [hp] at h
    cases h
  | some x =>
    rw [hp] at h
    dsimp only at h
    have hold : ¬ tolerance < |now - x.1| := by
      intro hold
      rw [if_pos hold] at h
      cases h
    rw [if_neg hold, compareDigest] at h
    split_ifs at h
    refine ⟨x.1, not_lt.mp hold, ?_⟩
    rw [← of_decide_eq_true (Except.ok.inj h)]

/-- The timestamp and the digest of a header are its fields `t` and `v1`. -/
theorem parseSignature_eq_some {header : Str} {digest : Str} :
    parseSignature header = some (ts, digest) ↔
      parseTimestamp header = some ts ∧ digestField header = some digest := by
  unfold parseSignature parseTimestamp digestField
  cases headerParts header with
  | none => simp
  | some parts =>
    simp only [Option.bind_eq_bind, Option.bind_some]
    cases parts.get? (Str.lit "t") with
    | none => simp
    | some t =>
      simp only [Option.bind_some]
      cases pyInt t <;> cases parts.get? (Str.lit "v1") <;> simp

/-- An accepted header has a timestamp within the tolerance. -/
theorem parseTimestamp_of_verifies {tolerance now : ℤ} {header : Str}
    (h : verifySignature crypto tolerance now body header secret = .ok true) :
    ∃ ts, parseTimestamp header = some ts ∧ |now - ts| ≤ tolerance := by
  obtain ⟨ts, hnear, hparse⟩ := parseSignature_of_verifies h
  exact ⟨ts, (parseSignature_eq_some.mp hparse).1, hnear⟩

end fields

end HMACService

end WebhookRelay

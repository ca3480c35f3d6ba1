import WebhookRelay.Delivery.Solo
import Mathlib.Data.Set.Function

/-!
# What an accepted signature is evidence of

The signed content is the decimal of the timestamp, a dot and the body, and it determines both
(`signedContent_inj`): a decimal has no dot, so the first dot is where the timestamp ends. A header
can spell its timestamp in many ways and repeat its fields, but `verify_signature` computes the
digest from the integer it has read and compares it with the field it has read. So a digest that
`sign_payload` has made for a timestamp and a body is accepted with this timestamp and this body
only (`tamper_evident`), as far as HMAC has no collision among the contents in question.

In the other direction `sign_payload` and `verify_signature` fit together (`sign_then_verify`) for
every timestamp that can be formatted.
-/

namespace WebhookRelay

open Data Effect

namespace HMACService

/-! ### The signed content -/

/-- The bytes of a decimal have no dot among them. -/
theorem dot_not_mem_encode (ts : ℤ) : (46 : UInt8) ∉ (Str.ofInt ts).encode := by
  have hascii := Str.isAscii_ofInt ts
  rw [Str.encode_of_isAscii hascii]
  intro h
  obtain ⟨c, hc, hdot⟩ := List.mem_map.mp h
  have hval : c.toNat = 46 := by
    rw [← Str.toNat_ofNat_of_isAscii hascii hc, hdot]
    rfl
  have hchar : c = '.' := Char.toNat_inj.mp hval
  exact not_mem_ofInt (by decide) (by decide) (hchar ▸ hc)

theorem signedContent_eq (ts : ℤ) (body : List UInt8) :
    signedContent ts body = (Str.ofInt ts).encode ++ 46 :: body := by
  have hdot : Str.encode ['.'] = [46] := by decide
  unfold signedContent
  rw [Str.encode, List.flatMap_append, ← Str.encode, ← Str.encode, hdot, List.append_assoc]
  rfl

/-- What stands before the first separator. -/
theorem takeWhile_append_cons {α : Type} [DecidableEq α] {sep : α} {xs : List α} (h : sep ∉ xs)
    (ys : List α) : (xs ++ sep :: ys).takeWhile (fun x => decide (x ≠ sep)) = xs := by
  have hxs : ∀ x ∈ xs, decide (x ≠ sep) = true := fun x hx =>
    decide_eq_true fun he => h (he ▸ hx)
  rw [List.takeWhile_append_of_pos hxs]
  simp

/-- **The signed content determines the timestamp and the body.** -/
theorem signedContent_inj {ts ts' : ℤ} {body body' : List UInt8} :
    signedContent ts body = signedContent ts' body' ↔ ts = ts' ∧ body = body' := by
  constructor
  · intro h
    rw [signedContent_eq, signedContent_eq] at h
    have hdecimal : (Str.ofInt ts).encode = (Str.ofInt ts').encode := by
      rw [← takeWhile_append_cons (dot_not_mem_encode ts) body, h,
        takeWhile_append_cons (dot_not_mem_encode ts') body']
    rw [hdecimal] at h
    exact ⟨ofInt_injective (Str.eq_of_encode (Str.isAscii_ofInt ts) (Str.isAscii_ofInt ts')
      hdecimal), (List.cons.inj (List.append_cancel_left h)).2⟩
  · rintro ⟨rfl, rfl⟩
    rfl

/-! ### Tampering -/

/-- What the acceptance of a header for a body says about the integer `ts` it has for a timestamp:
it is recent, and the digest of the header is the one of `ts` and the body. -/
structure Accepted (crypto : Crypto) (tolerance now : ℤ) (body : List UInt8)
    (header secret : Str) (ts : ℤ) : Prop where
  timestamp : parseTimestamp header = some ts
  recent : |now - ts| ≤ tolerance
  digest : digestField header =
    some (crypto.hmacSha256 secret.encode (signedContent ts body)).text

/-- The digest of the header is one that `sign_payload` has returned for a body, the timestamp
being the one it was called with or else its clock. -/
def SignedFor (crypto : Crypto) (header secret : Str) (ts : ℤ) (body : List UInt8) : Prop :=
  ∃ (o : Oracle) (w : World) (s : Session) (timestamp : Option ℤ) (sig : Str),
    (signPayload crypto body secret timestamp).drive (soloHandler o) (w, s) = (.ok sig, w, s) ∧
    signingTime timestamp w.now = ts ∧ digestField sig = digestField header

/-- What `sign_payload` has returned is the signature for its timestamp. -/
theorem digestField_of_signedFor {crypto : Crypto} {header secret : Str} {ts : ℤ}
    {body : List UInt8} (h : SignedFor crypto header secret ts body) :
    digestField header = some (crypto.hmacSha256 secret.encode (signedContent ts body)).text := by
  obtain ⟨o, w, s, timestamp, sig, hsign, rfl, hfield⟩ := h
  rw [drive_signPayload, signAt] at hsign
  cases hstr : pyStr (signingTime timestamp w.now) with
  | none =>
    rw [hstr] at hsign
    exact absurd (congrArg Prod.fst hsign) nofun
  | some _ =>
    rw [hstr] at hsign
    obtain rfl := Except.ok.inj (congrArg Prod.fst hsign)
    rw [← hfield, digestField_signature]

/-- **Tamper evidence.** An accepted header has a recent timestamp and the digest of that timestamp
and the body. A digest that was made by signing is accepted with the timestamp and the body that
were signed only, as far as HMAC under the secret has no collision among the contents. -/
theorem tamper_evident (crypto : Crypto) (tolerance now : ℤ) (body : List UInt8)
    (header secret : Str)
    (haccept : verifySignature crypto tolerance now body header secret = .ok true) :
    ∃ T, Accepted crypto tolerance now body header secret T ∧
      ∀ (contents : Set (List UInt8)), Set.InjOn (crypto.hmacSha256 secret.encode) contents →
        ∀ (ts : ℤ) (body₀ : List UInt8), SignedFor crypto header secret ts body₀ →
          signedContent T body ∈ contents → signedContent ts body₀ ∈ contents →
          T = ts ∧ body = body₀ := by
  obtain ⟨T, hrecent, hparse⟩ := parseSignature_of_verifies haccept
  obtain ⟨htime, hdigest⟩ := parseSignature_eq_some.mp hparse
  refine ⟨T, ⟨htime, hrecent, hdigest⟩, fun contents hfree ts body₀ hsigned hmem hmem₀ => ?_⟩
  rw [digestField_of_signedFor hsigned] at hdigest
  have hsame : crypto.hmacSha256 secret.encode (signedContent ts body₀) =
      crypto.hmacSha256 secret.encode (signedContent T body) :=
    HexDigest.ext (Option.some.inj hdigest)
  exact signedContent_inj.mp (hfree hmem hmem₀ hsame.symm)

/-- HMAC-SHA-256 of `1700000000.{}` under `key`. -/
def respelledDigest : HexDigest where
  text := Str.lit "9d713ed406bb7076d4123f0dc2c39d2df5c654ed4b0cd56b52c8b4c940bd63ae"
  length_eq := by decide
  isHex c hc := by
    have hdigits : (Str.lit "9d713ed406bb7076d4123f0dc2c39d2df5c654ed4b0cd56b52c8b4c940bd63ae").all
        (fun c => decide (c ∈ Str.lit "0123456789abcdef")) = true := by decide
    exact of_decide_eq_true (List.all_eq_true.mp hdigits c hc)

/-- HMAC-SHA-256 of `1700000000.{}` under `key`, and zeros for every other content. -/
def sampleHmac : Crypto where
  sha256 _ := Sample.digest
  hmacSha256 key content :=
    if key = (Str.lit "key").encode ∧ content = (Str.lit "1700000000.{}").encode then
      respelledDigest
    else Sample.digest

/-- A signature spelled with a sign, an underscore, blanks and a field too many. -/
def respelled : Str :=
  Str.lit "v1=0,t= +1_700000000 ,v1=" ++
    Str.lit "9d713ed406bb7076d4123f0dc2c39d2df5c654ed4b0cd56b52c8b4c940bd63ae"

/-- The respelled signature is accepted for what was signed, and it was not made for the same bytes
cut after another digit. -/
theorem tamper_evident_respelled :
    verifySignature sampleHmac 300 1700000200 [123, 125] respelled (Str.lit "key") = .ok true ∧
      SignedFor sampleHmac respelled (Str.lit "key") 1700000000 [123, 125] ∧
      ¬ SignedFor sampleHmac respelled (Str.lit "key") 170000000 [48, 46, 123, 125] := by
  have haccept : verifySignature sampleHmac 300 1700000200 [123, 125] respelled (Str.lit "key") =
      .ok true := by decide +kernel
  have htime : parseTimestamp respelled = some 1700000000 := by decide +kernel
  have hdigits : (1700000000 : ℤ).natAbs < 10 ^ maxStrDigits := by decide +kernel
  refine ⟨haccept, ⟨Sample.oracle 0 .cancelled, Sample.world Sample.shop Sample.order, .fresh,
    some 1700000000, signature sampleHmac [123, 125] (Str.lit "key") 1700000000, ?_,
    signingTime_of_ne_zero (by decide) _, by decide +kernel⟩, fun hrecut => ?_⟩
  · rw [drive_signPayload, signingTime_of_ne_zero (by decide), drive_signAt hdigits]
  · obtain ⟨T, hT, hsame⟩ := tamper_evident sampleHmac 300 1700000200 [123, 125] respelled
      (Str.lit "key") haccept
    obtain rfl : 1700000000 = T := Option.some.inj (htime.symm.trans hT.timestamp)
    have hfree : Set.InjOn (sampleHmac.hmacSha256 (Str.lit "key").encode)
        {signedContent 1700000000 [123, 125], signedContent 170000000 [48, 46, 123, 125]} :=
      Set.injOn_pair.mpr fun h => absurd (congrArg HexDigest.text h) (by decide +kernel)
    exact absurd (hsame _ hfree _ _ hrecut (.inl rfl) (.inr rfl)).1 (by decide)

/-! ### Signing and then verifying -/

/-- `sign_payload` returns a header that `parse_timestamp` reads back and that is accepted
exactly within the tolerance. -/
def RoundTrips (crypto : Crypto) (tolerance now : ℤ) (body : List UInt8) (secret : Str)
    (ts : ℤ) : Prop :=
  ∀ (o : Oracle) (w : World) (s : Session), ∃ sig,
    (signPayload crypto body secret (some ts)).drive (soloHandler o) (w, s) = (.ok sig, w, s) ∧
    parseTimestamp sig = some ts ∧
    ∃ accepted, verifySignature crypto tolerance now body sig secret = .ok accepted ∧
      (accepted = true ↔ |now - ts| ≤ tolerance)

/-- **What is signed verifies**, at every time within the tolerance and at no other. -/
theorem sign_then_verify (crypto : Crypto) (tolerance now : ℤ) (body : List UInt8) (secret : Str)
    (ts : ℤ) (hpos : 0 < ts) (hdigits : ts < 10 ^ maxStrDigits) :
    RoundTrips crypto tolerance now body secret ts := by
  intro o w s
  have habs : ts.natAbs < 10 ^ maxStrDigits := by
    zify
    rwa [abs_of_pos hpos]
  refine ⟨signature crypto body secret ts, ?_, parseTimestamp_signature habs, _,
    verifySignature_signature habs, decide_eq_true_iff⟩
  rw [drive_signPayload, signingTime_of_ne_zero hpos.ne', drive_signAt habs]

/-- The round trip of a timestamp in 2023, verified five minutes later. -/
theorem sign_then_verify_today :
    RoundTrips Sample.deps.crypto 300 1700000300 [123, 125] (Str.lit "key") 1700000000 :=
  sign_then_verify Sample.deps.crypto 300 1700000300 [123, 125] (Str.lit "key") 1700000000
    (by decide) (by decide +kernel)

/-- A timestamp of 4301 digits cannot be formatted, so nothing is signed. -/
theorem not_roundTrips_of_long : 0 < (10 : ℤ) ^ maxStrDigits ∧
    ¬ RoundTrips Sample.deps.crypto 300 1700000300 [] (Str.lit "key") (10 ^ maxStrDigits) := by
  have hpos : 0 < (10 : ℤ) ^ maxStrDigits := Int.pow_pos (by decide)
  have habs : 10 ^ maxStrDigits ≤ ((10 : ℤ) ^ maxStrDigits).natAbs := by
    have hten : (10 : ℤ).natAbs = 10 := rfl
    rw [Int.natAbs_pow, hten]
  refine ⟨hpos, fun h => ?_⟩
  obtain ⟨sig, hsign, -⟩ := h (Sample.oracle 0 .cancelled) (Sample.world Sample.shop Sample.order)
    .fresh
  rw [drive_signPayload, signingTime_of_ne_zero hpos.ne', signAt, pyStr_of_le habs] at hsign
  exact absurd (congrArg Prod.fst hsign) nofun

end HMACService

end WebhookRelay

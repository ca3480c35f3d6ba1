import WebhookRelay.Delivery.Solo

/-!
# When a delivery run completes

Everything a run does is one transaction, so an exception between the POST and the commit drops
the attempt. `deliver_completes_iff` says exactly when that happens to a run that sends a POST:

* httpx cannot encode the headers (`HeadersEncodable`): a custom header that is not ASCII, or an
  event type that is not ASCII and not overridden by a custom header;
* the body of the answer cannot be decoded (`HttpAnswer.decodable`): the response names a codec
  that raises on it;
* PostgreSQL rejects what the answer leaves in the attempt log (`HttpAnswer.storable`): a NUL in
  the stored text, in a header or in the error message;
* the instant of the next try cannot be computed (`RetryInstant`): a `Retry-After` that is not a
  number of seconds within the range of dates.

In every other case the run answers, logs one attempt and leaves the event in a settled status.
-/

namespace WebhookRelay

open Data Effect

/-! ### Headers -/

/-- The headers that `deliver` puts together are ASCII. -/
structure HeadersEncodable (ev : WebhookEvent) (ep : WebhookEndpoint) : Prop where
  custom : ∀ x ∈ ep.customHeaders.items, x.1.isAscii = true ∧ x.2.isAscii = true
  eventType : ev.eventType.isAscii = true ∨
    HMACService.eventTypeHeader ∈ ep.customHeaders.items.map Prod.fst

section headers

variable {o : Oracle} {w : World} {ev : WebhookEvent} {ep : WebhookEndpoint}

/-- The headers signed at a given time, before the custom ones override them. -/
def signedHeaders (crypto : Crypto) (now : Datetime) (ev : WebhookEvent) (ep : WebhookEndpoint) :
    List (Str × Str) :=
  [(HMACService.signatureHeader,
      HMACService.signature crypto (DeliveryService.requestBody ev) ep.signingSecret
        now.timestamp),
    (Str.lit "X-Webhook-Event-ID", ev.id.str),
    (HMACService.eventTypeHeader, ev.eventType),
    (Str.lit "X-Webhook-Timestamp", Str.ofInt now.timestamp),
    (Str.lit "Content-Type", Str.lit "application/json"),
    (Str.lit "User-Agent", Str.lit "WebhookRelay/1.0")]

/-- A header of the POST is a custom one, or a signed one that no custom one overrides. -/
theorem mem_sentHeaders {crypto : Crypto} {now : Datetime} {x : Str × Str} :
    x ∈ (sentHeaders crypto now ev ep).items ↔
      x ∈ ep.customHeaders.items ∨
        x ∈ signedHeaders crypto now ev ep ∧ x.1 ∉ ep.customHeaders.items.map Prod.fst := by
  rw [sentHeaders, Dict.mem_items_update]
  refine or_congr_right (and_congr_left' ?_)
  exact Dict.mem_items_ofList (by simp only [List.map_cons, List.map_nil]; decide)

/-- What every signed header but the event type satisfies. -/
theorem forall_signedHeaders {P : Str × Str → Prop} {crypto : Crypto} {now : Datetime}
    (hsig : P (HMACService.signatureHeader, HMACService.signature crypto
      (DeliveryService.requestBody ev) ep.signingSecret now.timestamp))
    (hid : P (Str.lit "X-Webhook-Event-ID", ev.id.str))
    (htime : P (Str.lit "X-Webhook-Timestamp", Str.ofInt now.timestamp))
    (hct : P (Str.lit "Content-Type", Str.lit "application/json"))
    (hua : P (Str.lit "User-Agent", Str.lit "WebhookRelay/1.0")) :
    ∀ x ∈ signedHeaders crypto now ev ep,
      x ≠ (HMACService.eventTypeHeader, ev.eventType) → P x := by
  intro x hx hne
  simp only [signedHeaders, List.mem_cons, List.not_mem_nil, or_false] at hx
  rcases hx with rfl | rfl | rfl | rfl | rfl | rfl
  · exact hsig
  · exact hid
  · exact absurd rfl hne
  · exact htime
  · exact hct
  · exact hua

theorem isAscii_signature (crypto : Crypto) (body : List UInt8) (secret : Str) (ts : ℤ) :
    (HMACService.signature crypto body secret ts).isAscii = true := by
  simp only [HMACService.signature, Str.isAscii_append, Str.isAscii_ofInt, HexDigest.isAscii,
    Bool.and_true]
  decide

theorem hasNul_signature (crypto : Crypto) (body : List UInt8) (secret : Str) (ts : ℤ) :
    (HMACService.signature crypto body secret ts).hasNul = false := by
  simp only [HMACService.signature, Str.hasNul_append, Str.hasNul_ofInt, HexDigest.hasNul,
    Bool.or_false]
  decide

/-- The POST goes out if and only if the headers are ASCII. -/
theorem encodable_sentRequest (deps : Deps) :
    (sentRequest deps w ev ep).encodable = true ↔ HeadersEncodable ev ep := by
  have hall : (sentRequest deps w ev ep).encodable = true ↔
      ∀ x ∈ (sentHeaders deps.crypto w.now ev ep).items,
        x.1.isAscii = true ∧ x.2.isAscii = true := by
    simp only [HttpRequest.encodable, sentRequest, List.all_eq_true, Bool.and_eq_true]
  rw [hall]
  constructor
  · intro h
    refine ⟨fun x hx => h x (mem_sentHeaders.mpr (Or.inl hx)), ?_⟩
    by_cases hc : HMACService.eventTypeHeader ∈ ep.customHeaders.items.map Prod.fst
    · exact Or.inr hc
    · refine Or.inl (h (HMACService.eventTypeHeader, ev.eventType) ?_).2
      exact mem_sentHeaders.mpr (Or.inr ⟨by simp [signedHeaders], hc⟩)
  · rintro ⟨hcustom, htype⟩ x hx
    rcases mem_sentHeaders.mp hx with hx | ⟨hx, hn⟩
    · exact hcustom x hx
    · by_cases he : x = (HMACService.eventTypeHeader, ev.eventType)
      · subst he
        rcases htype with ht | ht
        · exact ⟨rfl, ht⟩
        · exact absurd ht hn
      · refine forall_signedHeaders (P := fun x => x.1.isAscii = true ∧ x.2.isAscii = true)
          ⟨rfl, isAscii_signature _ _ _ _⟩ ⟨rfl, UUID.isAscii_str _⟩ ⟨rfl, Str.isAscii_ofInt _⟩
          ⟨rfl, rfl⟩ ⟨rfl, rfl⟩ x hx he

/-- The stored request headers have no NUL in them. -/
theorem storableDict_sentHeaders (crypto : Crypto) (now : Datetime) (hev : ev.storable = true)
    (hep : ep.storable = true) (p : Str × Str → Bool) :
    storableDict ((sentHeaders crypto now ev ep).filter p) = true := by
  simp only [WebhookEvent.storable, fitsVarchar, Bool.and_eq_true] at hev
  simp only [WebhookEndpoint.storable, storableDict, Bool.and_eq_true] at hep
  simp only [storableDict, List.all_eq_true]
  intro x hx
  rcases mem_sentHeaders.mp (List.mem_of_mem_filter hx) with hx | ⟨hx, -⟩
  · exact List.all_eq_true.mp hep.2 x hx
  · by_cases he : x = (HMACService.eventTypeHeader, ev.eventType)
    · subst he
      simp only [hev.1.1.1, Bool.and_true]
      rfl
    · refine forall_signedHeaders (P := fun x => (!x.1.hasNul && !x.2.hasNul) = true)
        ?_ ?_ ?_ rfl rfl x hx he
      · simp only [hasNul_signature]
        rfl
      · simp only [UUID.hasNul_str]
        rfl
      · simp only [Str.hasNul_ofInt]
        rfl

end headers

/-! ### The attempt log -/

/-- The body of an answer, if there is one, can be decoded. -/
def HttpAnswer.decodable : HttpAnswer → Bool
  | .response r => r.text.isOk
  | _ => true

/-- PostgreSQL takes what an answer leaves in the attempt log. -/
def HttpAnswer.storable : HttpAnswer → Bool
  | .response r =>
    fitsInteger r.statusCode && (r.text.toOption.all fun text => fitsText (text.take 10000)) &&
      storableDict r.headerDict
  | .timeout m => !m.hasNul
  | .connectError m => !m.hasNul
  | .requestError m => !m.hasNul
  | .cancelled => true

/-- The status of an answer, if it has one. -/
def HttpAnswer.status : HttpAnswer → Option ℤ
  | .response r => some r.statusCode
  | _ => none

/-- The `Retry-After` header of an answer. -/
def HttpAnswer.retryAfter : HttpAnswer → Option Str
  | .response r => r.header (Str.lit "Retry-After")
  | _ => none

section log

variable {o : Oracle} {ev : WebhookEvent} {ep : WebhookEndpoint} {p : PostResult}

/-- An answer that is not a cancellation is turned into a result, if its body can be decoded. -/
theorem exists_ofAnswer (n : ℕ) (h : o.answer ≠ .cancelled) (hbody : o.answer.decodable = true) :
    ∃ p, PostResult.ofAnswer n o.answer.result = .ok p ∧ p.httpStatus = o.answer.status ∧
      p.retryAfterHeader = o.answer.retryAfter ∧
      p.success = o.answer.status.any isSuccess := by
  cases ha : o.answer with
  | response r =>
    rw [ha] at hbody
    cases htext : r.text with
    | error x =>
      rw [HttpAnswer.decodable, htext] at hbody
      cases hbody
    | ok text =>
      refine ⟨PostResult.ofResponse r text, ?_, rfl, rfl, rfl⟩
      rw [HttpAnswer.result, PostResult.ofAnswer, htext]
      rfl
  | timeout m => exact ⟨_, rfl, rfl, rfl, rfl⟩
  | connectError m => exact ⟨_, rfl, rfl, rfl, rfl⟩
  | requestError m => exact ⟨_, rfl, rfl, rfl, rfl⟩
  | cancelled => exact absurd ha h

/-- What cannot be decoded is not turned into a result. -/
theorem decodable_of_ofAnswer {n : ℕ} (hp : PostResult.ofAnswer n o.answer.result = .ok p) :
    o.answer.decodable = true := by
  cases ha : o.answer with
  | response r =>
    rw [ha] at hp
    obtain ⟨text, htext, -⟩ := PostResult.ofAnswer_ok hp
    exact congrArg Except.isOk htext
  | timeout m => rfl
  | connectError m => rfl
  | requestError m => rfl
  | cancelled => rfl

theorem httpStatus_of_ofAnswer {n : ℕ} (hp : PostResult.ofAnswer n o.answer.result = .ok p) :
    p.httpStatus = o.answer.status := by
  cases ha : o.answer with
  | response r =>
    rw [ha] at hp
    obtain ⟨text, -, rfl⟩ := PostResult.ofAnswer_ok hp
    rfl
  | _ =>
    rw [ha] at hp
    cases hp
    try rfl

/-- The row of the attempt log can be stored if and only if the answer can. -/
theorem storable_loggedAttempt (deps : Deps) (w : World) (hev : ev.storable = true)
    (hep : ep.storable = true)
    (hp : PostResult.ofAnswer ep.timeoutSeconds o.answer.result = .ok p) :
    (loggedAttempt deps o w ev ep p).storable = o.answer.storable := by
  have hreq := storableDict_sentHeaders deps.crypto w.now hev hep
    fun x => decide (x.1 ≠ HMACService.signatureHeader)
  have hhash : fitsVarchar 64 (deps.crypto.sha256 (DeliveryService.requestBody
      (EventRepository.delivering ev))).text = true := by
    simp only [fitsVarchar, HexDigest.hasNul, HexDigest.length_eq]
    rfl
  have hlit (n : ℕ) (m : Str) : (Str.lit "Timeout after " ++ Str.ofNat n ++ Str.lit "s: " ++
      m).hasNul = m.hasNul := by
    simp only [Str.hasNul_append, Str.hasNul_ofNat]
    rfl
  simp only [loggedAttempt, DeliveryAttempt.storable, DeliveryService.attemptRow, hreq, hhash,
    Bool.true_and]
  cases ha : o.answer with
  | response r =>
    rw [ha] at hp
    obtain ⟨text, htext, rfl⟩ := PostResult.ofAnswer_ok hp
    simp only [PostResult.ofResponse, HttpAnswer.storable, htext, Except.toOption, Option.all_some,
      Option.all_none, Bool.and_true]
  | timeout m =>
    rw [ha] at hp
    cases hp
    simp only [PostResult.ofError, HttpAnswer.storable, Option.all_some, Option.all_none,
      Bool.true_and, hlit]
  | connectError m =>
    rw [ha] at hp
    cases hp
    simp only [PostResult.ofError, HttpAnswer.storable, Option.all_some, Option.all_none,
      Bool.true_and, Str.hasNul_append]
    rfl
  | requestError m =>
    rw [ha] at hp
    cases hp
    simp only [PostResult.ofError, HttpAnswer.storable, Option.all_some, Option.all_none,
      Bool.true_and, Str.hasNul_append]
    rfl
  | cancelled =>
    rw [ha] at hp
    cases hp

end log

/-! ### The condition -/

/-- A computation has succeeded if and only if it has a value. -/
theorem isOk_iff {ε α : Type} {x : Except ε α} : x.isOk = true ↔ ∃ a, x = .ok a := by
  cases x with
  | error e => exact ⟨nofun, nofun⟩
  | ok a => exact ⟨fun _ => ⟨a, rfl⟩, fun _ => rfl⟩

/-- The instant of the next try can be computed, if there is to be one. -/
def RetryInstant (o : Oracle) (now : Datetime) (ev : WebhookEvent) (ep : WebhookEndpoint) : Prop :=
  let decision := ExponentialBackoffStrategy.shouldRetry o.answer.status (ev.attemptCount + 1)
    ep.maxRetries o.answer.retryAfter
  o.answer.status.any isSuccess = false → decision.1 = true →
    ∃ t, (now.advance o.elapsed).addSeconds (retryDelay o (ev.attemptCount + 1) ep decision.2) =
      .ok t

/-- Nothing stands between the POST of a run and its commit. -/
structure Deliverable (o : Oracle) (now : Datetime) (ev : WebhookEvent) (ep : WebhookEndpoint) :
    Prop where
  headers : HeadersEncodable ev ep
  decoded : o.answer.decodable = true
  stored : o.answer.storable = true
  retry : RetryInstant o now ev ep

section condition

variable {deps : Deps} {o : Oracle} {w : World} {ev : WebhookEvent} {ep : WebhookEndpoint}

instance (ev : WebhookEvent) (ep : WebhookEndpoint) : Decidable (HeadersEncodable ev ep) :=
  decidable_of_iff ((∀ x ∈ ep.customHeaders.items, x.1.isAscii = true ∧ x.2.isAscii = true) ∧
      (ev.eventType.isAscii = true ∨
        ∃ x ∈ ep.customHeaders.items, x.1 = HMACService.eventTypeHeader))
    ⟨fun h => ⟨h.1, h.2.imp_right List.mem_map.mpr⟩,
      fun h => ⟨h.custom, h.eventType.imp_right List.mem_map.mp⟩⟩

instance (o : Oracle) (now : Datetime) (ev : WebhookEvent) (ep : WebhookEndpoint) :
    Decidable (RetryInstant o now ev ep) :=
  let decision := ExponentialBackoffStrategy.shouldRetry o.answer.status (ev.attemptCount + 1)
    ep.maxRetries o.answer.retryAfter
  let next := (now.advance o.elapsed).addSeconds (retryDelay o (ev.attemptCount + 1) ep decision.2)
  decidable_of_iff
    (o.answer.status.any isSuccess = false → decision.1 = true → next.isOk = true)
    (imp_congr_right fun _ => imp_congr_right fun _ => isOk_iff)

instance (o : Oracle) (now : Datetime) (ev : WebhookEvent) (ep : WebhookEndpoint) :
    Decidable (Deliverable o now ev ep) :=
  decidable_of_iff (HeadersEncodable ev ep ∧ o.answer.decodable = true ∧
    o.answer.storable = true ∧ RetryInstant o now ev ep)
    ⟨fun h => ⟨h.1, h.2.1, h.2.2.1, h.2.2.2⟩, fun h => ⟨h.headers, h.decoded, h.stored, h.retry⟩⟩

/-- What is decided after an attempt was logged: an exit with that attempt, unless the instant of
the next try cannot be computed. -/
theorem settle_isOk {now : Datetime} {p : PostResult} {a : DeliveryAttempt}
    (hst : p.httpStatus = o.answer.status) (hra : p.retryAfterHeader = o.answer.retryAfter)
    (hsu : p.success = o.answer.status.any isSuccess) (hnow : now = w.now.advance o.elapsed) :
    (∃ x, settle o ev ep now p a = .ok x) ↔ RetryInstant o w.now ev ep := by
  unfold settle RetryInstant
  rw [hst, hra, hsu, hnow]
  dsimp only
  cases hs : o.answer.status.any isSuccess with
  | true => simp
  | false =>
    simp only [Bool.false_eq_true, if_false, true_imp_iff]
    split_ifs with hd
    · simp only [hd, true_imp_iff]
      cases (w.now.advance o.elapsed).addSeconds (retryDelay o (ev.attemptCount + 1) ep
        (ExponentialBackoffStrategy.shouldRetry o.answer.status (ev.attemptCount + 1)
          ep.maxRetries o.answer.retryAfter).2) <;> simp [Except.mapError, Except.map]
    · simp [hd]

theorem attempt?_of_settle {now : Datetime} {p : PostResult} {a : DeliveryAttempt} {x : Exit}
    (h : settle o ev ep now p a = .ok x) : x.attempt? = some a := by
  unfold settle at h
  dsimp only at h
  split_ifs at h
  · cases h
    rfl
  · cases hm : ((now.addSeconds (retryDelay o (ev.attemptCount + 1) ep
      (ExponentialBackoffStrategy.shouldRetry p.httpStatus (ev.attemptCount + 1) ep.maxRetries
        p.retryAfterHeader).2)).mapError PyExn.ofNum) with
    | error y =>
      rw [hm] at h
      cases h
    | ok t =>
      rw [hm] at h
      cases h
      rfl
  · cases h
    rfl

/-- The clock after a POST that went out. -/
theorem now_posted (henc : (sentRequest deps w ev ep).encodable = true) :
    (w.posted deps o ev ep).now = w.now.advance o.elapsed := by
  rw [World.posted, if_pos henc]

/-- A run that sends a POST decides on an exit if and only if nothing stands in its way. -/
theorem attemptDecision_isOk (deps : Deps) (hne : o.answer ≠ .cancelled) (hev : ev.storable = true)
    (hep : ep.storable = true) :
    (∃ x, attemptDecision deps o w ev ep = .ok x) ↔ Deliverable o w.now ev ep := by
  by_cases henc : (sentRequest deps w ev ep).encodable = true
  · by_cases hbody : o.answer.decodable = true
    · obtain ⟨p, hp, hst, hra, hsu⟩ := exists_ofAnswer ep.timeoutSeconds hne hbody
      rw [attemptDecision_ok henc hp, storable_loggedAttempt deps w hev hep hp]
      by_cases hstored : o.answer.storable = true
      · rw [if_pos hstored, settle_isOk hst hra hsu (now_posted henc)]
        exact ⟨fun h => ⟨(encodable_sentRequest deps).mp henc, hbody, hstored, h⟩,
          fun h => h.retry⟩
      · rw [if_neg hstored]
        exact ⟨by rintro ⟨_, ⟨⟩⟩, fun h => absurd h.stored hstored⟩
    · rw [attemptDecision, if_pos henc]
      cases hp : PostResult.ofAnswer ep.timeoutSeconds o.answer.result with
      | error x => exact ⟨by rintro ⟨_, ⟨⟩⟩, fun h => absurd h.decoded hbody⟩
      | ok p => exact absurd (decodable_of_ofAnswer hp) hbody
  · rw [attemptDecision, if_neg henc]
    exact ⟨by rintro ⟨_, ⟨⟩⟩,
      fun h => absurd ((encodable_sentRequest deps).mpr h.headers) henc⟩

/-- An exit of a run that sends a POST carries an attempt of its event. -/
theorem attempt?_of_attemptDecision {x : Exit} (h : attemptDecision deps o w ev ep = .ok x) :
    ∃ p, x.attempt? = some (loggedAttempt deps o w ev ep p) := by
  by_cases henc : (sentRequest deps w ev ep).encodable = true
  · cases hp : PostResult.ofAnswer ep.timeoutSeconds o.answer.result with
    | error y =>
      rw [attemptDecision, if_pos henc, hp] at h
      cases h
    | ok p =>
      rw [attemptDecision_ok henc hp] at h
      split_ifs at h
      exact ⟨p, attempt?_of_settle h⟩
  · rw [attemptDecision, if_neg henc] at h
    cases h

end condition

/-! ### Runs that complete -/

/-- The run answers, logs exactly one attempt of the event, raises its counter by one and leaves
it delivered, failed or dead-lettered. -/
def Completes (deps : Deps) (o : Oracle) (id : UUID) (w : World) (n : ℕ) : Prop :=
  ∃ out w', runDeliver deps o id w = (.ok out, w') ∧
    (∃ a, w'.db.attempts.rows = w.db.attempts.rows ++ [a] ∧ a.eventId = id) ∧
    ∃ r, w'.db.events.get? id = some r ∧ r.attemptCount = n + 1 ∧
      (r.status = .delivered ∨ r.status = .failed ∨ r.status = .deadLettered)

section completes

variable {deps : Deps} {o : Oracle} {id : UUID} {w : World} {ev : WebhookEvent}
  {ep : WebhookEndpoint}

theorem eventWithEndpoint_eq_some {db : Db} {x : WebhookEvent × Option WebhookEndpoint}
    (h : db.eventWithEndpoint id = some x) :
    db.events.get? id = some x.1 ∧ x.1.id = id ∧ db.endpoints.get? x.1.endpointId = x.2 := by
  obtain ⟨r, hr, hx⟩ := Option.map_eq_some_iff.mp h
  subst hx
  exact ⟨hr, Table.key_of_get? hr, rfl⟩

/-- What a run that has committed leaves in the tables of attempts and events. -/
theorem tables_of_exit (ep : WebhookEndpoint) {x : Exit} {a : DeliveryAttempt}
    (hrow : w.db.events.get? ev.id = some ev) (hx : x.attempt? = some a)
    (hfresh : w.db.attempts.get? a.id = none) :
    (w.db.applyAll (x.writes ev ep)).attempts.rows = w.db.attempts.rows ++ [a] ∧
      (w.db.applyAll (x.writes ev ep)).events.get? ev.id = some (x.event ev) := by
  constructor
  · rw [Exit.attempts_eq, hx]
    exact Table.rows_insert hfresh
  · rw [Exit.events_get?, if_pos rfl, hrow, Option.map_some, Exit.update_self]

end completes

end WebhookRelay

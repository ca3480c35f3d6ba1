import WebhookRelay.Delivery.Completes

/-!
# What a receiver can verify

`deliver` signs the body and then lets the custom headers of the endpoint override what it has put
together. `Verifiable` is what a receiver needs of a request: one signature, accepted for the body
and the secret at the time of sending, with the timestamp and the event beside it. Header names
are compared without regard to case, as HTTP does.

`delivers_verifiable_iff` says for which custom headers every request has it: those of which none
has the name of the signature, the timestamp or the event id. A custom header with one of these
names overrides the signed one if it is spelled the same and stands beside it if it is not.
-/

namespace WebhookRelay

open Data Effect

/-! ### Requests -/

/-- The values of the headers with a name. -/
def HttpRequest.headerValues (req : HttpRequest) (name : Str) : List Str :=
  (req.headers.items.filter fun x => decide (x.1.lower = name.lower)).map Prod.snd

/-- The header with the id of the event. -/
def HMACService.eventIdHeader : Str := Str.lit "X-Webhook-Event-ID"

/-- The header with the timestamp. -/
def HMACService.timestampHeader : Str := Str.lit "X-Webhook-Timestamp"

/-- A receiver can verify the request: it has one signature, accepted for the body and the secret,
and beside it the signed timestamp and the id of the event. -/
structure Verifiable (crypto : Crypto) (now : ℤ) (secret : Str) (eventId : UUID)
    (req : HttpRequest) : Prop where
  signed : ∃ sig, req.headerValues HMACService.signatureHeader = [sig] ∧
    HMACService.verifySignature crypto HMACService.timestampTolerance now req.content sig secret =
      .ok true ∧
    ∃ ts, HMACService.parseTimestamp sig = some ts ∧
      req.headerValues HMACService.timestampHeader = [Str.ofInt ts]
  event : req.headerValues HMACService.eventIdHeader = [eventId.str]

/-- Every request that `deliver` sends to an endpoint with the custom headers `d` is verifiable at
the time of sending. -/
def DeliversVerifiable (deps : Deps) (d : Dict Str Str) : Prop :=
  ∀ (o : Oracle) (w : World) (id : UUID) (ev : WebhookEvent) (ep : WebhookEndpoint)
    (req : HttpRequest), w.db.eventWithEndpoint id = some (ev, some ep) → ep.customHeaders = d →
    ep.storable = true → (runDeliver deps o id w).2.posts = w.posts ++ [req] →
    Verifiable deps.crypto w.now.timestamp ep.signingSecret ev.id req

/-- The headers a receiver verifies a request with. -/
def HMACService.verifiedHeaders : List Str :=
  [HMACService.signatureHeader, HMACService.timestampHeader, HMACService.eventIdHeader]

/-- A custom header has the name of one of the headers that are verified. -/
def Collides (d : Dict Str Str) : Prop :=
  ∃ x ∈ d.items, ∃ name ∈ HMACService.verifiedHeaders, x.1.lower = name.lower

/-- Requests with these custom headers are sent at all: PostgreSQL stores them and httpx encodes
them. -/
def Sendable (d : Dict Str Str) : Prop :=
  storableDict d = true ∧ ∀ x ∈ d.items, x.1.isAscii = true ∧ x.2.isAscii = true

/-! ### Headers with one name -/

section headers

variable {req : HttpRequest} {name : Str}

theorem mem_headerValues {v : Str} :
    v ∈ req.headerValues name ↔ ∃ x ∈ req.headers.items, x.1.lower = name.lower ∧ x.2 = v := by
  simp only [HttpRequest.headerValues, List.mem_map, List.mem_filter, decide_eq_true_eq, and_assoc]

/-- A name that one item has, has one value. -/
theorem headerValues_eq_singleton {x : Str × Str}
    (h : ∀ y, y ∈ req.headers.items ∧ y.1.lower = name.lower ↔ y = x) :
    req.headerValues name = [x.2] := by
  have hnodup : (req.headers.items.filter fun y => decide (y.1.lower = name.lower)).Nodup :=
    (List.Nodup.of_map Prod.fst req.headers.nodup).filter _
  have hmem (y : Str × Str) :
      y ∈ req.headers.items.filter (fun y => decide (y.1.lower = name.lower)) ↔ y ∈ [x] := by
    rw [List.mem_filter, decide_eq_true_eq, List.mem_singleton]
    exact h y
  have hperm := (List.perm_ext_iff_of_nodup hnodup (List.nodup_singleton x)).mpr hmem
  unfold HttpRequest.headerValues
  rw [List.perm_singleton.mp hperm]
  rfl

/-- Two items with one name have two values. -/
theorem eq_of_headerValues {v : Str} (h : req.headerValues name = [v]) {x y : Str × Str}
    (hx : x ∈ req.headers.items) (hxn : x.1.lower = name.lower) (hy : y ∈ req.headers.items)
    (hyn : y.1.lower = name.lower) : x = y := by
  obtain ⟨z, hz, -⟩ := List.map_eq_singleton_iff.mp h
  have hmem {y : Str × Str} (hy : y ∈ req.headers.items) (hyn : y.1.lower = name.lower) :
      y = z := by
    have hfilter : y ∈ req.headers.items.filter fun y => decide (y.1.lower = name.lower) :=
      List.mem_filter.mpr ⟨hy, decide_eq_true hyn⟩
    rw [hz] at hfilter
    exact List.mem_singleton.mp hfilter
  exact (hmem hx hxn).trans (hmem hy hyn).symm

end headers

/-! ### The request of a run -/

section request

variable {deps : Deps} {o : Oracle} {w : World} {id : UUID} {ev : WebhookEvent}
  {ep : WebhookEndpoint} {req : HttpRequest}

/-- A request that was sent is the one of the rows the run has loaded, and its headers were
encoded. -/
theorem sent_of_posts (hload : w.db.eventWithEndpoint id = some (ev, some ep))
    (h : (runDeliver deps o id w).2.posts = w.posts ++ [req]) :
    req = sentRequest deps w ev ep ∧ HeadersEncodable ev ep := by
  have hnone : w.posts ≠ w.posts ++ [req] := by simp
  cases hterm : ev.status.terminal with
  | true =>
    obtain ⟨r, hrow, hr⟩ := Option.map_eq_some_iff.mp hload
    obtain rfl := (Prod.mk.inj hr).1
    rw [runDeliver_of_terminal deps o hrow hterm] at h
    exact absurd h hnone
  | false =>
    rw [posts_runDeliver deps hload hterm] at h
    unfold World.afterRun at h
    split_ifs at h with hact
    · unfold World.posted at h
      split_ifs at h with henc
      · exact ⟨(by simpa using h.symm), (encodable_sentRequest deps).mp henc⟩
      · exact absurd h hnone
    · exact absurd h hnone

/-- What an active endpoint behind a closed circuit is sent. -/
theorem posts_of_encodable (hload : w.db.eventWithEndpoint id = some (ev, some ep))
    (hterm : ev.status.terminal = false) (hact : ep.isActive = true) (hal : o.allowed = true)
    (henc : HeadersEncodable ev ep) :
    (runDeliver deps o id w).2.posts = w.posts ++ [sentRequest deps w ev ep] := by
  rw [posts_runDeliver deps hload hterm, World.afterRun, hact, hal]
  change (w.posted deps o ev ep).posts = _
  rw [World.posted, if_pos ((encodable_sentRequest deps).mpr henc)]

end request

/-! ### No collision -/

section signed

variable {deps : Deps} {w : World} {ev : WebhookEvent} {ep : WebhookEndpoint}

/-- The signed headers have six names, and no two of them are one name. -/
theorem eq_of_mem_signedHeaders {crypto : Crypto} {now : Datetime} {x y : Str × Str}
    (hx : x ∈ signedHeaders crypto now ev ep) (hy : y ∈ signedHeaders crypto now ev ep)
    (h : x.1.lower = y.1.lower) : x = y := by
  have hnames : ((signedHeaders crypto now ev ep).map fun x => x.1.lower).Nodup := by
    simp only [signedHeaders, List.map_cons, List.map_nil]
    decide +kernel
  exact List.inj_on_of_nodup_map hnames hx hy h

/-- A signed header that no custom one collides with is sent once. -/
theorem headerValues_sentRequest {x : Str × Str} (hx : x ∈ signedHeaders deps.crypto w.now ev ep)
    (hfree : ∀ y ∈ ep.customHeaders.items, y.1.lower ≠ x.1.lower) :
    (sentRequest deps w ev ep).headerValues x.1 = [x.2] := by
  refine headerValues_eq_singleton fun y => ?_
  change y ∈ (sentHeaders deps.crypto w.now ev ep).items ∧ _ ↔ _
  rw [mem_sentHeaders]
  constructor
  · rintro ⟨hy | ⟨hy, -⟩, hname⟩
    · exact absurd hname (hfree y hy)
    · exact eq_of_mem_signedHeaders hy hx hname
  · rintro rfl
    refine ⟨Or.inr ⟨hx, fun hm => ?_⟩, rfl⟩
    obtain ⟨z, hz, hzx⟩ := List.mem_map.mp hm
    exact hfree z hz (congrArg Str.lower hzx)

/-- Without a collision the request is verifiable. -/
theorem verifiable_of_not_collides (h : ¬ Collides ep.customHeaders) :
    Verifiable deps.crypto w.now.timestamp ep.signingSecret ev.id (sentRequest deps w ev ep) := by
  have hfree {name : Str} (hname : name ∈ HMACService.verifiedHeaders) :
      ∀ y ∈ ep.customHeaders.items, y.1.lower ≠ name.lower :=
    fun y hy he => h ⟨y, hy, name, hname, he⟩
  have hdigits : w.now.timestamp.natAbs < 10 ^ maxStrDigits :=
    w.now.natAbs_timestamp_lt.trans_le (Nat.pow_le_pow_right (by decide) (by decide))
  have hsig : (sentRequest deps w ev ep).headerValues HMACService.signatureHeader =
      [HMACService.signature deps.crypto (DeliveryService.requestBody ev) ep.signingSecret
        w.now.timestamp] :=
    headerValues_sentRequest (x := (HMACService.signatureHeader, _)) (.head _) (hfree (.head _))
  have hts : (sentRequest deps w ev ep).headerValues HMACService.timestampHeader =
      [Str.ofInt w.now.timestamp] :=
    headerValues_sentRequest (x := (HMACService.timestampHeader, _))
      (.tail _ (.tail _ (.tail _ (.head _)))) (hfree (.tail _ (.head _)))
  have hid : (sentRequest deps w ev ep).headerValues HMACService.eventIdHeader = [ev.id.str] :=
    headerValues_sentRequest (x := (HMACService.eventIdHeader, _)) (.tail _ (.head _))
      (hfree (.tail _ (.tail _ (.head _))))
  refine ⟨⟨_, hsig, ?_, _, HMACService.parseTimestamp_signature hdigits, hts⟩, hid⟩
  refine (HMACService.verifySignature_signature hdigits).trans ?_
  rw [sub_self, abs_zero]
  rfl

end signed

/-! ### A collision -/

/-- An instant far from two given ones. -/
theorem exists_far (a b : Option ℤ) : ∃ t : ℤ, 0 ≤ t ∧ t ≤ 2000 ∧
    (∀ x, a = some x → HMACService.timestampTolerance < |t - x|) ∧
    ∀ x, b = some x → HMACService.timestampTolerance < |t - x| := by
  have hfar (x y : ℤ) : ∃ t : ℤ, 0 ≤ t ∧ t ≤ 2000 ∧ (300 < t - x ∨ 300 < -(t - x)) ∧
      (300 < t - y ∨ 300 < -(t - y)) := by
    by_contra h
    push Not at h
    have h₀ := h 0
    have h₁ := h 1000
    have h₂ := h 2000
    omega
  obtain ⟨t, h₀, h₁, ha, hb⟩ := hfar (a.getD 0) (b.getD 0)
  refine ⟨t, h₀, h₁, fun x hx => ?_, fun x hx => ?_⟩
  · rw [hx] at ha
    exact lt_abs.mpr ha
  · rw [hx] at hb
    exact lt_abs.mpr hb

/-- The world after an endpoint with the custom headers `d` and an event `id` were committed at
`now`. -/
def headedWorld (d : Dict Str Str) (id : UUID) (now : Datetime) : World where
  wal := [.insertEndpoint (Api.newEndpoint (Sample.headed d) Sample.digest.text (Sample.id 1)),
    .insertEvent (Api.newEvent Sample.order id now)]
  now := now
  jobs := fun _ => ⟨none, none⟩
  posts := []

theorem headedWorld_load (d : Dict Str Str) (id : UUID) (now : Datetime) :
    (headedWorld d id now).db.eventWithEndpoint id =
      some (Api.newEvent Sample.order id now,
        some (Api.newEndpoint (Sample.headed d) Sample.digest.text (Sample.id 1))) := by
  have hrow : (headedWorld d id now).db.events.get? id =
      some (Api.newEvent Sample.order id now) := by
    change [Api.newEvent Sample.order id now].find? (fun r => decide (r.id = id)) = _
    exact List.find?_cons_of_pos (decide_eq_true rfl)
  unfold Db.eventWithEndpoint
  rw [hrow]
  rfl

section collision

variable {deps : Deps} {w : World} {ev : WebhookEvent} {ep : WebhookEndpoint} {req : HttpRequest}

/-- A verifiable request has each of the verified headers once. -/
theorem Verifiable.once {crypto : Crypto} {now : ℤ} {secret : Str} {eventId : UUID}
    (h : Verifiable crypto now secret eventId req) {name : Str}
    (hname : name ∈ HMACService.verifiedHeaders) : ∃ v, req.headerValues name = [v] := by
  obtain ⟨sig, hsig, -, ts, -, hts⟩ := h.signed
  simp only [HMACService.verifiedHeaders, List.mem_cons, List.not_mem_nil, or_false] at hname
  rcases hname with rfl | rfl | rfl
  · exact ⟨sig, hsig⟩
  · exact ⟨Str.ofInt ts, hts⟩
  · exact ⟨eventId.str, h.event⟩

/-- Each of the verified headers is sent under the name it is signed with. -/
theorem exists_sent {name : Str} (hname : name ∈ HMACService.verifiedHeaders) :
    ∃ v, (name, v) ∈ (sentHeaders deps.crypto w.now ev ep).items := by
  by_cases hc : name ∈ ep.customHeaders.items.map Prod.fst
  · obtain ⟨x, hx, rfl⟩ := List.mem_map.mp hc
    exact ⟨x.2, mem_sentHeaders.mpr (Or.inl hx)⟩
  · have hsigned : name ∈ (signedHeaders deps.crypto w.now ev ep).map Prod.fst := by
      simp only [HMACService.verifiedHeaders, List.mem_cons, List.not_mem_nil, or_false] at hname
      rcases hname with rfl | rfl | rfl
      · exact .head _
      · exact .tail _ (.tail _ (.tail _ (.head _)))
      · exact .tail _ (.head _)
    obtain ⟨x, hx, rfl⟩ := List.mem_map.mp hsigned
    exact ⟨x.2, mem_sentHeaders.mpr (Or.inr ⟨hx, hc⟩)⟩

/-- If the request is verifiable, a custom header with the name of a verified one overrides it. -/
theorem Verifiable.overrides {crypto : Crypto} {now : ℤ} {secret : Str} {eventId : UUID}
    (h : Verifiable crypto now secret eventId (sentRequest deps w ev ep)) {x : Str × Str}
    (hx : x ∈ ep.customHeaders.items) {name : Str} (hname : name ∈ HMACService.verifiedHeaders)
    (hcollide : x.1.lower = name.lower) :
    ep.customHeaders.get? name = some x.2 ∧
      (sentRequest deps w ev ep).headerValues name = [x.2] := by
  obtain ⟨v, hv⟩ := h.once hname
  obtain ⟨u, hu⟩ : ∃ u, (name, u) ∈ (sentHeaders deps.crypto w.now ev ep).items :=
    exists_sent hname
  have hsent : x ∈ (sentRequest deps w ev ep).headers.items := mem_sentHeaders.mpr (Or.inl hx)
  have heq : x = (name, u) := eq_of_headerValues hv hsent hcollide hu rfl
  have hmem : x.2 ∈ (sentRequest deps w ev ep).headerValues name :=
    mem_headerValues.mpr ⟨x, hsent, hcollide, rfl⟩
  rw [hv] at hmem
  refine ⟨?_, by rw [hv, List.mem_singleton.mp hmem]⟩
  have hget := Dict.get?_of_mem hx
  rwa [show x.1 = name from congrArg Prod.fst heq] at hget

/-- **A collision refutes it**: at an instant far from the timestamps that the custom headers
name, and for an event whose id they do not name. -/
theorem not_verifiable_of_collides (deps : Deps) {d : Dict Str Str} (hd : Sendable d)
    (hc : Collides d) : ¬ DeliversVerifiable deps d := by
  intro h
  obtain ⟨x, hx, name, hname, hcollide⟩ := hc
  obtain ⟨t, ht₀, ht₁, hsigfar, htsfar⟩ := exists_far
    ((d.get? HMACService.signatureHeader).bind HMACService.parseTimestamp)
    ((d.get? HMACService.timestampHeader).bind pyInt)
  obtain ⟨id, hid⟩ : ∃ id : UUID, d.get? HMACService.eventIdHeader ≠ some id.str := by
    by_cases hid : d.get? HMACService.eventIdHeader = some (Sample.id 2).str
    · refine ⟨Sample.id 3, fun hid' => ?_⟩
      exact absurd (Option.some.inj (hid.symm.trans hid')) (by decide)
    · exact ⟨Sample.id 2, hid⟩
  let now : Datetime := ⟨t * 1000000, by omega, by omega⟩
  have hnow : now.timestamp = t := Int.mul_tdiv_cancel t (by decide)
  let ep := Api.newEndpoint (Sample.headed d) Sample.digest.text (Sample.id 1)
  let ev := Api.newEvent Sample.order id now
  have hstorable : ep.storable = true := by
    change (true && storableDict d) = true
    rw [hd.1]
    rfl
  have hsent : (runDeliver deps (Sample.oracle 3 (Sample.response 200 [])) id
      (headedWorld d id now)).2.posts = [] ++ [sentRequest deps (headedWorld d id now) ev ep] :=
    posts_of_encodable (headedWorld_load d id now) rfl rfl rfl ⟨hd.2, Or.inl rfl⟩
  have hver := h _ _ _ _ _ _ (headedWorld_load d id now) rfl hstorable hsent
  obtain ⟨hget, hvalue⟩ := hver.overrides hx hname hcollide
  obtain ⟨sig, hsig, haccept, ts, hparse, hts⟩ := hver.signed
  obtain ⟨ts', hparse', hnear⟩ := HMACService.parseTimestamp_of_verifies haccept
  obtain rfl := Option.some.inj (hparse.symm.trans hparse')
  change |now.timestamp - ts| ≤ _ at hnear
  rw [hnow] at hnear
  simp only [HMACService.verifiedHeaders, List.mem_cons, List.not_mem_nil, or_false] at hname
  rcases hname with rfl | rfl | rfl
  · obtain rfl := List.singleton_inj.mp (hsig.symm.trans hvalue)
    refine absurd (hsigfar ts ?_) (not_lt.mpr hnear)
    rw [show d.get? HMACService.signatureHeader = _ from hget, Option.bind_some, hparse]
  · have hx2 := List.singleton_inj.mp (hts.symm.trans hvalue)
    have hdigits : ts.natAbs < 10 ^ maxStrDigits := by
      have hrange := abs_le.mp hnear
      simp only [HMACService.timestampTolerance] at hrange
      have hsmall : ts.natAbs < 10 ^ 4 := by omega
      exact hsmall.trans_le (Nat.pow_le_pow_right (by decide) (by decide))
    refine absurd (htsfar ts ?_) (not_lt.mpr hnear)
    rw [show d.get? HMACService.timestampHeader = _ from hget, Option.bind_some, ← hx2,
      pyInt_ofInt hdigits]
  · have hx2 := List.singleton_inj.mp (hver.event.symm.trans hvalue)
    exact hid (hget.trans (congrArg some hx2.symm))

end collision

/-- **Every delivery is verifiable if and only if no custom header has the name of a header that is
verified**, or nothing is ever sent with the custom headers. -/
theorem delivers_verifiable_iff (deps : Deps) (d : Dict Str Str) :
    DeliversVerifiable deps d ↔ ¬ Collides d ∨ ¬ Sendable d := by
  constructor
  · intro h
    by_contra hn
    obtain ⟨hc, hd⟩ := not_or.mp hn
    exact not_verifiable_of_collides deps (not_not.mp hd) (not_not.mp hc) h
  · rintro h o w id ev ep req hload rfl hstorable hposts
    obtain ⟨rfl, henc⟩ := sent_of_posts hload hposts
    rcases h with hfree | hunsent
    · exact verifiable_of_not_collides hfree
    · simp only [WebhookEndpoint.storable, Bool.and_eq_true] at hstorable
      exact absurd ⟨hstorable.2, henc.custom⟩ hunsent

/-- With a custom header `x-webhook-signature` a delivery has two signatures. -/
theorem delivers_two_signatures :
    let d := Dict.ofList [(Str.lit "x-webhook-signature", Str.lit "t=0,v1=0")]
    (runDeliver Sample.deps (Sample.oracle 3 (Sample.response 200 [])) (Sample.id 2)
        (headedWorld d (Sample.id 2) Sample.start)).2.posts.map
      (fun req => (req.headerValues HMACService.signatureHeader).length) = [2] ∧
      ¬ DeliversVerifiable Sample.deps d := by
  intro d
  have hd : Sendable d := ⟨by decide, by decide⟩
  have hc : Collides d := by
    refine ⟨(Str.lit "x-webhook-signature", Str.lit "t=0,v1=0"), .head _,
      HMACService.signatureHeader, .head _, by decide⟩
  exact ⟨by decide +kernel, not_verifiable_of_collides Sample.deps hd hc⟩

end WebhookRelay

import WebhookRelay.Delivery.Contract
import WebhookRelay.Effect.Transcript

/-!
# What a run of `deliver` sends, and what it logs of it

Five kinds of calls tell what a run has sent: the read of the event, the question to the circuit
breaker, the POST, the insert into the attempt log and the verdict for the circuit breaker.
`Dispatch` says which of them may come after which. A POST comes after an event that is not
terminal, with an active endpoint, and after the circuit breaker has allowed it, and the request is
the one for these two rows (`HttpRequest.For`); an attempt is logged after the POST, and reports
the request and its outcome (`DeliveryAttempt.Reports`); the verdict is that of the outcome. Each
comes at most once, since the calls before it are given in full.

`deliver_dispatches` proves it of every run, whatever the answers are.
-/

namespace WebhookRelay

open Data Effect

/-! ### Requests and reports -/

/-- The request for an event to its endpoint. The custom headers come last; the timestamp that is
signed is the one in the headers, unless that is zero. -/
structure HttpRequest.For (req : HttpRequest) (crypto : Crypto) (ev : WebhookEvent)
    (ep : WebhookEndpoint) : Prop where
  url : req.url = ep.url
  content : req.content = DeliveryService.requestBody ev
  timeout : req.timeout = ep.timeoutSeconds
  headers : ∃ ts signed : ℤ, (ts ≠ 0 → signed = ts) ∧
    req.headers = (HMACService.signatureHeaders
      (HMACService.signature crypto req.content ep.signingSecret signed) ev.id.str ev.eventType
      ts).update ep.customHeaders

/-- The row of the attempt log reports this request and its outcome. -/
structure DeliveryAttempt.Reports (a : DeliveryAttempt) (crypto : Crypto) (ev : WebhookEvent)
    (req : HttpRequest) (r : Except PyExn HttpResponse) : Prop where
  eventId : a.eventId = ev.id
  attemptNumber : a.attemptNumber = ev.attemptCount + 1
  requestBodyHash : a.requestBodyHash = (crypto.sha256 req.content).text
  requestHeaders : a.requestHeaders =
    req.headers.filter fun x => decide (x.1 ≠ HMACService.signatureHeader)
  outcome : ∃ p, PostResult.ofAnswer req.timeout r = .ok p ∧ a.httpStatusCode = p.httpStatus ∧
    a.responseBody = p.responseBody ∧ a.responseHeaders = p.responseHeaders ∧
    a.errorMessage = p.errorMessage ∧ a.success = p.success

/-- The rows that a run has read let it send this request. -/
structure Authorised (crypto : Crypto) (ev : WebhookEvent) (ep : WebhookEndpoint)
    (req : HttpRequest) : Prop where
  underWay : ev.status.terminal = false
  active : ep.isActive = true
  request : req.For crypto ev ep

/-! ### The order of the calls -/

/-- The call reads an event, asks the circuit breaker, sends a POST, logs an attempt, or gives the
circuit breaker the verdict. -/
def Op.tells : Op → Bool
  | .getEventWithEndpoint _ => true
  | .isAllowed _ => true
  | .post _ => true
  | .insertAttempt _ => true
  | .recordSuccess _ => true
  | .recordFailure _ => true
  | _ => false

/-- The read of an event with its endpoint. -/
abbrev readCall (id : UUID) (ev : WebhookEvent) (ep : WebhookEndpoint) : Call relay PyExn :=
  ⟨.getEventWithEndpoint id, .ok (some (ev, some ep))⟩

/-- The circuit breaker allows a POST. -/
abbrev allowedCall (ep : WebhookEndpoint) : Call relay PyExn := ⟨.isAllowed ep.id, .ok true⟩

/-- A POST with its answer. -/
abbrev postCall (req : HttpRequest) (r : Except PyExn HttpResponse) : Call relay PyExn :=
  ⟨.post req, r⟩

/-- The insert of an attempt. -/
abbrev logCall (a : DeliveryAttempt) : Call relay PyExn := ⟨.insertAttempt a, .ok ()⟩

/-- Which call may come next, after the ones that tell so far. -/
inductive Dispatch (crypto : Crypto) (id : UUID) : List (Call relay PyExn) → Op → Prop where
  | read : Dispatch crypto id [] (.getEventWithEndpoint id)
  | ask {ev : WebhookEvent} {ep : WebhookEndpoint} (hterm : ev.status.terminal = false)
    (hact : ep.isActive = true) : Dispatch crypto id [readCall id ev ep] (.isAllowed ep.id)
  | send {ev : WebhookEvent} {ep : WebhookEndpoint} {req : HttpRequest}
    (h : Authorised crypto ev ep req) :
    Dispatch crypto id [readCall id ev ep, allowedCall ep] (.post req)
  | log {ev : WebhookEvent} {ep : WebhookEndpoint} {req : HttpRequest}
    {r : Except PyExn HttpResponse} {a : DeliveryAttempt} (h : Authorised crypto ev ep req)
    (ha : a.Reports crypto ev req r) :
    Dispatch crypto id [readCall id ev ep, allowedCall ep, postCall req r] (.insertAttempt a)
  | succeeded {ev : WebhookEvent} {ep : WebhookEndpoint} {req : HttpRequest}
    {r : Except PyExn HttpResponse} {a : DeliveryAttempt} {p : PostResult}
    (h : Authorised crypto ev ep req) (hp : PostResult.ofAnswer req.timeout r = .ok p)
    (hs : p.success = true) : Dispatch crypto id
      [readCall id ev ep, allowedCall ep, postCall req r, logCall a] (.recordSuccess ep.id)
  | failed {ev : WebhookEvent} {ep : WebhookEndpoint} {req : HttpRequest}
    {r : Except PyExn HttpResponse} {a : DeliveryAttempt} {p : PostResult}
    (h : Authorised crypto ev ep req) (hp : PostResult.ofAnswer req.timeout r = .ok p)
    (hs : p.success = false) : Dispatch crypto id
      [readCall id ev ep, allowedCall ep, postCall req r, logCall a] (.recordFailure ep.id)

/-- The contract of a run for one event. -/
abbrev dispatchContract (crypto : Crypto) (id : UUID) :
    Contract relay PyExn (List (Call relay PyExn)) :=
  .watching Op.tells (Dispatch crypto id)

/-- The circuit breaker refuses a POST. -/
abbrev refusedCall (ep : WebhookEndpoint) : Call relay PyExn := ⟨.isAllowed ep.id, .ok false⟩

/-- A run answers CIRCUIT_OPEN only when the circuit breaker has refused it. -/
def Concludes (id : UUID) (r : Except PyExn DeliveryOutcome) (cs : List (Call relay PyExn)) :
    Prop :=
  ∀ v, r = .ok v → v.status = .circuitOpen → ∃ ev ep, cs = [readCall id ev ep, refusedCall ep]

/-- A run of `deliver` meets the contract after these calls. -/
abbrev Dispatches (crypto : Crypto) (id : UUID) (cs : List (Call relay PyExn))
    (q : Relay DeliveryOutcome) : Prop :=
  q.Obeys (dispatchContract crypto id) (Concludes id) cs

/-! ### The parts that tell nothing -/

section untold

/-- The call is none of those that tell. -/
abbrev Op.Untold (e : Op) : Prop := e.tells = false

theorem untold_perform {e : Op} (h : e.tells = false) :
    (Prog.perform (I := relay) e : Relay e.Resp).Calls Op.Untold := Prog.calls_perform h

theorem untold_flushEvent (old new : WebhookEvent) :
    (flushEvent old new >>= fun _ => pure new : Relay WebhookEvent).Calls Op.Untold :=
  Prog.Calls.bind (untold_perform rfl) fun _ => Prog.calls_done _

/-- The outcome is another one than CIRCUIT_OPEN. -/
def DeliveryOutcome.Settled (v : DeliveryOutcome) : Prop := v.status ≠ .circuitOpen

/-- The end of a run that is not refused. -/
theorem settled_commit {v : DeliveryOutcome} (h : v.Settled) :
    (commit >>= fun _ => pure v : Relay DeliveryOutcome).Free Op.tells DeliveryOutcome.Settled :=
  (untold_perform (e := .commit) rfl).free.bind fun _ _ => Prog.free_done h

theorem untold_nowPlusSeconds (x : PyFloat) : (nowPlusSeconds x).Calls Op.Untold :=
  calls_nowPlusSeconds (A := Op.Untold) rfl x

/-- A new row of the dead letter queue. -/
theorem untold_createDeadLetter (row : UUID → Datetime → DeadLetterEvent) :
    (DeadLetterRepository.create row).Calls Op.Untold :=
  Prog.Calls.bind (untold_perform rfl) fun _ => Prog.Calls.bind (untold_perform rfl)
    fun _ => Prog.Calls.bind (untold_perform rfl) fun _ => Prog.calls_done _

/-- The branch of an inactive endpoint. -/
theorem settled_deadLetterInactive (ev : WebhookEvent) (ep : WebhookEndpoint) :
    (DeliveryService.deadLetterInactive ev ep).Free Op.tells DeliveryOutcome.Settled :=
  (untold_flushEvent _ _).free.bind fun _ _ => (untold_createDeadLetter _).free.bind fun _ _ =>
    settled_commit (by simp [DeliveryOutcome.Settled, DeliveryOutcome.of])

/-- The branch of an open circuit. -/
theorem untold_deferDelivery (settings : Settings) (ev : WebhookEvent) (ep : WebhookEndpoint) :
    (DeliveryService.deferDelivery settings ev ep).Calls Op.Untold :=
  (untold_nowPlusSeconds _).bind fun _ => (untold_flushEvent _ _).bind fun _ =>
    Prog.Calls.bind (untold_perform (e := .commit) rfl) fun _ => Prog.calls_done _

/-- The branch of a POST that was answered with 410. -/
theorem untold_deactivateGone (ep : WebhookEndpoint) (p : PostResult) :
    (DeliveryService.deactivateGone ep p).Calls Op.Untold := by
  unfold DeliveryService.deactivateGone
  split_ifs
  · exact Prog.Calls.bind (untold_perform rfl) fun _ => Prog.calls_done _
  · exact Prog.calls_done _

/-- The branch of a failure that is retried. -/
theorem settled_retryLater (ev : WebhookEvent) (ep : WebhookEndpoint) (x : Option PyFloat) :
    (DeliveryService.retryLater ev ep x).Free Op.tells DeliveryOutcome.Settled :=
  (calls_nextRetryAt (A := Op.Untold) rfl rfl _ _ _ x).free.bind fun _ _ =>
    (untold_flushEvent _ _).free.bind fun _ _ =>
      settled_commit (by simp [DeliveryOutcome.Settled, DeliveryOutcome.of])

/-- The branch of a failure that is not retried. -/
theorem settled_giveUp (ev : WebhookEvent) (ep : WebhookEndpoint) (p : PostResult) :
    (DeliveryService.giveUp ev ep p).Free Op.tells DeliveryOutcome.Settled :=
  (untold_createDeadLetter _).free.bind fun _ _ => (untold_flushEvent _ _).free.bind fun _ _ =>
    settled_commit (by simp [DeliveryOutcome.Settled, DeliveryOutcome.of])

end untold

/-! ### The headers -/

/-- The signature is one over the body, for the timestamp unless that is zero. -/
theorem free_signPayload (crypto : Crypto) (body : List UInt8) (secret : Str) (ts : ℤ) :
    (HMACService.signPayload crypto body secret (some ts)).Free Op.tells fun sig =>
      ∃ signed : ℤ, (ts ≠ 0 → signed = ts) ∧
        sig = HMACService.signature crypto body secret signed := by
  have hsign {signed : ℤ} (h : ts ≠ 0 → signed = ts) :
      (HMACService.signAt crypto body secret signed).Free Op.tells fun sig =>
        ∃ signed : ℤ, (ts ≠ 0 → signed = ts) ∧
          sig = HMACService.signature crypto body secret signed := by
    unfold HMACService.signAt
    split
    · exact Prog.free_done ⟨signed, h, rfl⟩
    · exact Prog.free_raised _
  unfold HMACService.signPayload
  dsimp only
  split_ifs with hts
  · exact hsign fun _ => rfl
  · exact (untold_perform (e := .now) rfl).free.bind fun _ _ => hsign fun h => absurd h hts

/-- The headers are those of the event and its endpoint. -/
theorem free_requestHeaders (crypto : Crypto) (ev : WebhookEvent) (ep : WebhookEndpoint) :
    (DeliveryService.requestHeaders crypto ev ep).Free Op.tells fun headers =>
      ∃ ts signed : ℤ, (ts ≠ 0 → signed = ts) ∧
        headers = (HMACService.signatureHeaders (HMACService.signature crypto
          (DeliveryService.requestBody ev) ep.signingSecret signed) ev.id.str ev.eventType
          ts).update ep.customHeaders := by
  unfold DeliveryService.requestHeaders HMACService.getSignatureHeaders
  rw [bind_assoc]
  refine (untold_perform (e := .now) rfl).free.bind fun t _ => ?_
  rw [bind_assoc]
  refine (free_signPayload crypto _ _ t.timestamp).bind fun sig hsig => ?_
  obtain ⟨signed, hsigned, rfl⟩ := hsig
  exact Prog.free_done ⟨t.timestamp, signed, hsigned, rfl⟩

/-! ### The walk -/

section walk

variable {crypto : Crypto} {id : UUID} {ev : WebhookEvent} {ep : WebhookEndpoint}
  {cs : List (Call relay PyExn)}

/-- A run that raises concludes nothing. -/
theorem concludes_error (x : PyExn) : Concludes id (.error x) cs := fun _ h => nomatch h

/-- After a part that tells nothing. -/
theorem dispatches_bind_untold {α : Type} {q : Relay α} (hq : q.Calls Op.Untold)
    {f : α → Relay DeliveryOutcome} (hf : ∀ a, Dispatches crypto id cs (f a)) :
    Dispatches crypto id cs (q >>= f) :=
  Prog.watching_bind_free hq.free (fun a _ => hf a) concludes_error

/-- The rest of a run that is not refused. -/
theorem dispatches_of_settled {q : Relay DeliveryOutcome}
    (hq : q.Free Op.tells DeliveryOutcome.Settled) : Dispatches crypto id cs q := by
  refine Prog.watching_of_free hq (fun v hv => ?_) concludes_error
  rintro _ ⟨⟩ hstatus
  exact absurd hstatus hv

/-- A call that tells, when it may come. -/
theorem dispatches_bind_told {e : Op} (he : e.tells = true)
    (hmay : Dispatch crypto id cs e) {f : e.Resp → Relay DeliveryOutcome}
    (hf : ∀ v, Dispatches crypto id (cs ++ [⟨e, .ok v⟩]) (f v)) :
    Dispatches crypto id cs (Prog.perform (I := relay) e >>= f) :=
  Prog.watching_bind_watched he hmay hf fun x => concludes_error x

/-- The row that is logged reports the request and its outcome. -/
theorem reports_attemptRow {r : Except PyExn HttpResponse} {p : PostResult}
    (hp : PostResult.ofAnswer ep.timeoutSeconds r = .ok p) (headers : Dict Str Str) (d : ℚ)
    (u : UUID) (t : Datetime) :
    (DeliveryService.attemptRow crypto (EventRepository.delivering ev) headers p d u t).Reports
      crypto ev ⟨ep.url, DeliveryService.requestBody ev, headers, ep.timeoutSeconds⟩ r where
  eventId := rfl
  attemptNumber := rfl
  requestBodyHash := rfl
  requestHeaders := rfl
  outcome := ⟨p, hp, rfl, rfl, rfl, rfl, rfl⟩

/-- The verdict, and what comes after it. -/
theorem dispatches_settle {event : WebhookEvent} {req : HttpRequest}
    {r : Except PyExn HttpResponse} {a : DeliveryAttempt} {p : PostResult}
    (hauth : Authorised crypto ev ep req) (hp : PostResult.ofAnswer req.timeout r = .ok p) (d : ℚ) :
    Dispatches crypto id [readCall id ev ep, allowedCall ep, postCall req r, logCall a]
      (if p.success then DeliveryService.settleSuccess event ep a d
        else DeliveryService.settleFailure event ep p) := by
  cases hs : p.success with
  | true =>
    refine dispatches_bind_told (e := .recordSuccess ep.id) rfl (.succeeded hauth hp hs) fun _ => ?_
    have hmark : (EventRepository.markDelivered event).Calls Op.Untold :=
      Prog.Calls.bind (q := now) (untold_perform rfl) fun _ => untold_flushEvent _ _
    exact dispatches_of_settled (hmark.free.bind fun _ _ =>
      settled_commit (by simp [DeliveryOutcome.Settled, DeliveryOutcome.of]))
  | false =>
    refine dispatches_bind_told (e := .recordFailure ep.id) rfl (.failed hauth hp hs) fun _ => ?_
    refine dispatches_of_settled ((untold_deactivateGone ep p).free.bind fun _ _ => ?_)
    dsimp only
    split_ifs
    · exact settled_retryLater event ep _
    · exact settled_giveUp event ep p

/-- From the POST on. -/
theorem dispatches_attemptDelivery (hterm : ev.status.terminal = false)
    (hact : ep.isActive = true) :
    Dispatches crypto id [readCall id ev ep, allowedCall ep]
      (DeliveryService.attemptDelivery crypto ev ep) := by
  unfold DeliveryService.attemptDelivery EventRepository.markDelivering
  refine Prog.watching_bind_free (A := fun event => event = EventRepository.delivering ev)
    ?_ ?_ concludes_error
  · exact (untold_perform (e := .flushEvent ev (EventRepository.delivering ev)) rfl).free.bind
      fun _ _ => Prog.free_done rfl
  rintro _ rfl
  refine Prog.watching_bind_free (free_requestHeaders crypto (EventRepository.delivering ev) ep)
    (fun headers hheaders => ?_) concludes_error
  have hauth : Authorised crypto ev ep ⟨ep.url, DeliveryService.requestBody ev, headers,
      ep.timeoutSeconds⟩ := ⟨hterm, hact, rfl, rfl, rfl, hheaders⟩
  refine dispatches_bind_untold (q := perfCounter) (untold_perform rfl) fun start => ?_
  refine Prog.watching_bind_attempt rfl (.send hauth) fun r => ?_
  refine Prog.watching_bind_free (A := fun p => PostResult.ofAnswer ep.timeoutSeconds r = .ok p)
    ?_ (fun p hp => ?_) concludes_error
  · cases PostResult.ofAnswer ep.timeoutSeconds r with
    | ok p => exact Prog.free_done rfl
    | error x => exact Prog.free_raised x
  refine dispatches_bind_untold (q := perfCounter) (untold_perform rfl) fun stop => ?_
  unfold DeliveryService.settleAttempt DeliveryAttemptRepository.create
  simp only [bind_assoc]
  refine dispatches_bind_untold (q := uuid4) (untold_perform rfl) fun u => ?_
  refine dispatches_bind_untold (q := now) (untold_perform rfl) fun t => ?_
  exact dispatches_bind_told (e := .insertAttempt _) rfl
    (.log hauth (reports_attemptRow hp headers _ u t)) fun _ => dispatches_settle hauth hp _

/-- **A run of `deliver` keeps to this order**, whatever the answers to its calls are. -/
theorem deliver_dispatches (deps : Deps) (id : UUID) :
    Dispatches deps.crypto id [] (DeliveryService.deliver deps id) := by
  have hnone (cs : List (Call relay PyExn)) :
      Dispatches deps.crypto id cs (pure (.of .notFound id)) :=
    dispatches_of_settled (Prog.free_done (by simp [DeliveryOutcome.Settled, DeliveryOutcome.of]))
  unfold DeliveryService.deliver
  refine dispatches_bind_told (e := .getEventWithEndpoint id) rfl .read fun row => ?_
  rcases row with _ | ⟨ev, ep?⟩
  · exact hnone _
  dsimp only
  split_ifs with hterm
  · exact hnone _
  rw [Bool.not_eq_true] at hterm
  rcases ep? with _ | ep
  · exact concludes_error _
  dsimp only
  cases hact : ep.isActive with
  | false => exact dispatches_of_settled (settled_deadLetterInactive ev ep)
  | true =>
    refine dispatches_bind_told (e := .isAllowed ep.id) rfl (.ask hterm hact) fun allowed => ?_
    cases allowed with
    | false =>
      exact Prog.watching_of_free (untold_deferDelivery _ ev ep).free
        (fun _ _ _ _ _ => ⟨ev, ep, rfl⟩) concludes_error
    | true => exact dispatches_attemptDelivery hterm hact

end walk

/-! ### The commit after a POST -/

/-- How far a run has come with its POST and its commit. -/
inductive Recording where
  /-- It has sent no POST, or has logged it. -/
  | clear
  /-- It has sent a POST and not logged it. -/
  | owing
  /-- It has asked for its commit. -/
  | over

namespace Recording

/-- A POST that is not logged is not committed, and none is sent after the commit. -/
def allows : Recording → Op → Prop
  | .clear, _ => True
  | .owing, e => e.isCommit = false
  | .over, e => e.isPost = false

/-- After a call of a run that has not asked for its commit. -/
def stepped (p : Recording) : Op → Recording
  | .commit => .over
  | .post _ => .owing
  | .insertAttempt _ => .clear
  | _ => p

/-- The stage after a call. -/
def next (p : Recording) (e : Op) (_ : Except PyExn e.Resp) : Recording :=
  match p with
  | .over => .over
  | p => p.stepped e

end Recording

/-- The contract of a run that logs what it has sent before it commits. -/
def recordingContract : Contract relay PyExn Recording where
  allows := Recording.allows
  next := Recording.next

section recording

variable {α : Type} {p : Recording} {cs : List (Call relay PyExn)}

/-- The part of a program keeps to the contract. -/
abbrev Records (p : Recording) (q : Relay α) : Prop :=
  q.Obeys recordingContract (fun _ _ => True) p

/-- A part without a POST keeps to the contract, if nothing is owed. -/
theorem records_of_noPost {q : Relay α} (hq : q.Calls fun e : Op => e.isPost = false)
    (hp : p ≠ .owing) : Records p q := by
  refine Prog.Obeys.simulate (R := fun _ p => p ≠ .owing) ⟨?_, ?_⟩ (fun _ _ _ _ _ => trivial) hp hq
  · rintro _ (_ | _ | _) e hp he
    · trivial
    · exact absurd rfl hp
    · exact he
  · rintro _ (_ | _ | _) e r hp he
    · cases e <;> first | exact Recording.noConfusion | cases he
    · exact absurd rfl hp
    · exact Recording.noConfusion

/-- A call that is none of the three, and then the rest. -/
theorem records_bind_other {e : Op} {f : e.Resp → Relay α} (hallow : p.allows e)
    (hnext : ∀ r, p.next e r = p) (hf : ∀ v, Records p (f v)) :
    Records p (Prog.perform (I := relay) e >>= f) := by
  refine (Prog.obeys_perform_bind (I := relay) e f).mpr ⟨hallow, fun v => ?_, fun _ => trivial⟩
  rw [show recordingContract.next p e (.ok v) = p from hnext (.ok v)]
  exact hf v

/-- A call whose failure is handled. -/
theorem records_bind_attempt {p' : Recording} {e : Op} {f : Except PyExn e.Resp → Relay α}
    (hallow : p.allows e) (hnext : ∀ r, p.next e r = p') (hf : ∀ r, Records p' (f r)) :
    Records p ((Prog.perform (I := relay) e).attempt >>= f) := by
  rw [Prog.attempt_perform, Prog.call_bind]
  refine ⟨hallow, fun r => ?_⟩
  rw [show recordingContract.next p e r = p' from hnext r]
  exact hf r

/-- From the POST on. -/
theorem records_attemptDelivery (crypto : Crypto) (ev : WebhookEvent) (ep : WebhookEndpoint) :
    Records .clear (DeliveryService.attemptDelivery crypto ev ep) := by
  have hheaders : (DeliveryService.requestHeaders crypto (EventRepository.delivering ev) ep).Obeys
      recordingContract (fun _ p => p = .clear) .clear := by
    refine Prog.Obeys.simulate (R := fun _ p => p = .clear) ⟨fun _ _ _ hp _ => ?_, ?_⟩
      (fun _ _ _ hp _ => hp) rfl (calls_requestHeaders (A := fun e => e = .now) rfl _ _ _)
    · rw [hp]
      trivial
    · rintro _ _ e r rfl rfl
      rfl
  unfold DeliveryService.attemptDelivery EventRepository.markDelivering
  simp only [bind_assoc, pure_bind]
  refine records_bind_other (e := .flushEvent _ _) trivial (fun _ => rfl) fun _ => ?_
  refine (Prog.obeys_bind _ _).mpr (hheaders.mono fun r p hp => ?_)
  rw [hp]
  cases r with
  | error x => trivial
  | ok headers =>
    refine records_bind_other (e := .perfCounter) trivial (fun _ => rfl) fun start => ?_
    refine records_bind_attempt (e := .post _) trivial (fun _ => rfl) fun r => ?_
    refine (Prog.obeys_bind _ _).mpr ((Prog.obeys_ofExcept _).mpr ?_)
    cases PostResult.ofAnswer ep.timeoutSeconds r with
    | error x => trivial
    | ok result =>
      refine records_bind_other (e := .perfCounter) rfl (fun _ => rfl) fun stop => ?_
      unfold DeliveryService.settleAttempt DeliveryAttemptRepository.create
      simp only [bind_assoc]
      refine records_bind_other (e := .uuid4) rfl (fun _ => rfl) fun u => ?_
      refine records_bind_other (e := .now) rfl (fun _ => rfl) fun t => ?_
      refine (Prog.obeys_perform_bind (I := relay) (.insertAttempt _) _).mpr
        ⟨rfl, fun _ => ?_, fun _ => trivial⟩
      exact records_of_noPost (calls_settle (fun _ _ he => he) _ _ _ _ _) Recording.noConfusion

/-- **A run logs what it has sent before it commits.** -/
theorem deliver_records (deps : Deps) (id : UUID) :
    Records .clear (DeliveryService.deliver deps id) := by
  unfold DeliveryService.deliver
  refine records_bind_other (e := .getEventWithEndpoint id) trivial (fun _ => rfl) fun row => ?_
  rcases row with _ | ⟨ev, ep?⟩
  · trivial
  dsimp only
  split_ifs
  · trivial
  rcases ep? with _ | ep
  · trivial
  dsimp only
  split_ifs
  · exact records_of_noPost (calls_deadLetterInactive (fun _ _ he => he) ev ep)
      Recording.noConfusion
  · refine records_bind_other (e := .isAllowed ep.id) trivial (fun _ => rfl) fun allowed => ?_
    split_ifs
    · exact records_of_noPost (calls_deferDelivery (fun _ _ he => he) _ ev ep)
        Recording.noConfusion
    · exact records_attemptDelivery _ ev ep

/-- After the commit there is no POST. -/
theorem not_post_of_over (h : recordingContract.Accepts .over cs) :
    ∀ x ∈ cs, x.1.isPost = false := by
  induction cs with
  | nil => exact fun _ hx => nomatch hx
  | cons y cs ih => exact List.forall_mem_cons.mpr ⟨h.1, ih h.2⟩

/-- What is owed is logged before the commit. -/
theorem logged_of_owing (h : recordingContract.Accepts .owing cs)
    (hcommit : ∃ x ∈ cs, x.1.isCommit = true) : ∃ a r, ⟨.insertAttempt a, r⟩ ∈ cs := by
  induction cs with
  | nil => exact absurd hcommit (by simp)
  | cons y cs ih =>
    obtain ⟨⟨e, r⟩, hy, hc⟩ := hcommit
    obtain ⟨hallow, hrest⟩ := h
    have htail : ∃ x ∈ cs, x.1.isCommit = true := by
      rcases List.mem_cons.mp hy with rfl | hy
      · exact Bool.noConfusion (hallow.symm.trans hc)
      · exact ⟨_, hy, hc⟩
    obtain ⟨e', r'⟩ := y
    have hih (h : recordingContract.Accepts .owing cs) :
        ∃ a r, ⟨.insertAttempt a, r⟩ ∈ (⟨e', r'⟩ :: cs : List (Call relay PyExn)) := by
      obtain ⟨a, r, hmem⟩ := ih h htail
      exact ⟨a, r, List.mem_cons_of_mem _ hmem⟩
    cases e' with
    | insertAttempt a => exact ⟨a, r', List.mem_cons_self⟩
    | commit => cases hallow
    | _ => exact hih hrest

/-- A run that has sent a POST and asked for its commit has logged it. -/
theorem logged_of_accepts (h : recordingContract.Accepts .clear cs)
    (hpost : ∃ x ∈ cs, x.1.isPost = true) (hcommit : ∃ x ∈ cs, x.1.isCommit = true) :
    ∃ a r, ⟨.insertAttempt a, r⟩ ∈ cs := by
  induction cs with
  | nil => exact absurd hcommit (by simp)
  | cons y cs ih =>
    obtain ⟨⟨e, r⟩, hmem, he⟩ := hpost
    obtain ⟨⟨e', r'⟩, hmem', he'⟩ := hcommit
    obtain ⟨-, hrest⟩ := h
    obtain ⟨e₀, r₀⟩ := y
    by_cases hc : e₀.isCommit = true
    · -- nothing is sent after the commit
      obtain rfl : e₀ = .commit := by cases e₀ <;> first | rfl | cases hc
      rcases List.mem_cons.mp hmem with hmem | hmem
      · cases hmem
        cases he
      · exact Bool.noConfusion ((not_post_of_over hrest _ hmem).symm.trans he)
    · have hcommit : ∃ x ∈ cs, x.1.isCommit = true := by
        rcases List.mem_cons.mp hmem' with hmem' | hmem'
        · cases hmem'
          exact absurd he' hc
        · exact ⟨_, hmem', he'⟩
      by_cases hp : e₀.isPost = true
      · obtain ⟨req, rfl⟩ : ∃ req, e₀ = .post req := by
          cases e₀ <;> first | exact ⟨_, rfl⟩ | cases hp
        obtain ⟨a, r, hlogged⟩ := logged_of_owing hrest hcommit
        exact ⟨a, r, List.mem_cons_of_mem _ hlogged⟩
      · have hpost : ∃ x ∈ cs, x.1.isPost = true := by
          rcases List.mem_cons.mp hmem with hmem | hmem
          · cases hmem
            exact absurd he hp
          · exact ⟨_, hmem, he⟩
        have hclear : recordingContract.Accepts .clear cs := by
          cases e₀ <;> first | exact hrest | exact absurd rfl hc | exact absurd rfl hp
        obtain ⟨a, r, hlogged⟩ := ih hclear hpost hcommit
        exact ⟨a, r, List.mem_cons_of_mem _ hlogged⟩

end recording

end WebhookRelay

import WebhookRelay.Delivery.Contract
import WebhookRelay.Sample

/-!
# A delivery run on its own

`runSolo o p w` runs a coroutine from start to end on a world where nobody else holds a lock, the
environment answering as the oracle says; `runDeliver` is such a run of `deliver`. The lemmas give
one equation for each step of a delivery. They meet in `runDeliver_attempt`: a run that gets as
far as the POST answers and commits what `settle` decides from the loaded rows and the oracle, or
raises and commits nothing. What it has sent is known whatever its rows and the tables are
(`posts_runDeliver`).
-/

namespace WebhookRelay

open Data Effect

/-- Calls are answered at once. -/
def soloHandler (o : Oracle) (e : Op) (x : World × Session) :
    Except PyExn e.Resp × (World × Session) := exec o e x.1 x.2

/-- Run a coroutine to its end from a session that is under way. -/
def runFrom {α : Type} (o : Oracle) (p : Relay α) (w : World) (s : Session) :
    Except PyExn α × World :=
  let x := p.drive (soloHandler o) (w, s)
  (x.1, x.2.1)

/-- Run a coroutine to its end. -/
def runSolo {α : Type} (o : Oracle) (p : Relay α) (w : World) : Except PyExn α × World :=
  runFrom o p w .fresh

/-- One run of `deliver`. -/
def runDeliver (deps : Deps) (o : Oracle) (id : UUID) (w : World) :
    Except PyExn DeliveryOutcome × World :=
  runSolo o (DeliveryService.deliver deps id) w

variable {o : Oracle} {w : World} {s : Session}

/-- A first part that finishes hands its value on. -/
theorem runFrom_bind_ok {α β : Type} {p : Relay α} {a : α} {w' : World} {s' : Session}
    (h : p.drive (soloHandler o) (w, s) = (.ok a, w', s')) (f : α → Relay β) :
    runFrom o (p >>= f) w s = runFrom o (f a) w' s' := by
  unfold runFrom
  rw [Prog.drive_bind_ok _ h]

/-- A first part that raises ends the run. -/
theorem runFrom_bind_error {α β : Type} {p : Relay α} {x : PyExn} {w' : World} {s' : Session}
    (h : p.drive (soloHandler o) (w, s) = (.error x, w', s')) (f : α → Relay β) :
    runFrom o (p >>= f) w s = (.error x, w') := by
  unfold runFrom
  rw [Prog.drive_bind_error _ h]

/-- The result of a coroutine whose run is known. -/
theorem runFrom_of_drive {α : Type} {p : Relay α} {r : Except PyExn α} {w' : World} {s' : Session}
    (h : p.drive (soloHandler o) (w, s) = (r, w', s')) : runFrom o p w s = (r, w') := by
  unfold runFrom
  rw [h]

/-! ### The calls of a delivery -/

section calls

@[simp] theorem drive_now : now.drive (soloHandler o) (w, s) = (.ok w.now, w, s) := rfl

@[simp] theorem drive_perfCounter :
    perfCounter.drive (soloHandler o) (w, s) = (.ok w.now.micros, w, s) := rfl

@[simp] theorem drive_uuid4 : uuid4.drive (soloHandler o) (w, s) = (.ok o.uuid, w, s) := rfl

@[simp] theorem drive_getWithEndpoint (id : UUID) :
    (EventRepository.getWithEndpoint id).drive (soloHandler o) (w, s) =
      (.ok ((w.view s).eventWithEndpoint id), w, s) := rfl

@[simp] theorem drive_isAllowed (id : UUID) :
    (isAllowed id).drive (soloHandler o) (w, s) = (.ok o.allowed, w, s) := rfl

@[simp] theorem drive_recordFailure (id : UUID) :
    (recordFailure id).drive (soloHandler o) (w, s) = (.ok (), w, s) := rfl

@[simp] theorem drive_commit :
    commit.drive (soloHandler o) (w, s) =
      (.ok (), { w with wal := w.wal ++ s.pending }, { s with pending := [] }) := rfl

/-- The POST goes out when its headers can be encoded. -/
theorem drive_post (req : HttpRequest) :
    (post req).drive (soloHandler o) (w, s) =
      if req.encodable then
        (o.answer.result, { w with posts := w.posts ++ [req], now := w.now.advance o.elapsed }, s)
      else (.error .unicodeEncodeError, w, s) :=
  Prog.drive_perform (I := relay) (soloHandler o) (Op.post req) (w, s)

theorem drive_insertAttempt (r : DeliveryAttempt) :
    (insertAttempt r).drive (soloHandler o) (w, s) = flushed (.insertAttempt r) () w s :=
  Prog.drive_perform (I := relay) (soloHandler o) (Op.insertAttempt r) (w, s)

theorem drive_insertDeadLetter (r : DeadLetterEvent) :
    (insertDeadLetter r).drive (soloHandler o) (w, s) = flushed (.insertDeadLetter r) () w s :=
  Prog.drive_perform (I := relay) (soloHandler o) (Op.insertDeadLetter r) (w, s)

/-- A new row of the attempt log is written unless a constraint stands against it. -/
theorem drive_createAttempt (row : UUID → Datetime → DeliveryAttempt) :
    (DeliveryAttemptRepository.create row).drive (soloHandler o) (w, s) =
      match (Op.insertAttempt (row o.uuid w.now)).violation (w.view s) with
      | none => (.ok (row o.uuid w.now), w,
          { s with pending := s.pending ++ [.insertAttempt (row o.uuid w.now)] })
      | some x => (.error x, w, s) := by
  unfold DeliveryAttemptRepository.create
  rw [Prog.drive_bind_ok _ drive_uuid4, Prog.drive_bind_ok _ drive_now, Prog.drive_bind,
    drive_insertAttempt, flushed]
  cases (Op.insertAttempt (row o.uuid w.now)).violation (w.view s) <;> rfl

/-- A new row of the dead letter queue is written unless a constraint stands against it. -/
theorem drive_createDeadLetter (row : UUID → Datetime → DeadLetterEvent) :
    (DeadLetterRepository.create row).drive (soloHandler o) (w, s) =
      match (Op.insertDeadLetter (row o.uuid w.now)).violation (w.view s) with
      | none => (.ok (row o.uuid w.now), w,
          { s with pending := s.pending ++ [.insertDeadLetter (row o.uuid w.now)] })
      | some x => (.error x, w, s) := by
  unfold DeadLetterRepository.create
  rw [Prog.drive_bind_ok _ drive_uuid4, Prog.drive_bind_ok _ drive_now, Prog.drive_bind,
    drive_insertDeadLetter, flushed]
  cases (Op.insertDeadLetter (row o.uuid w.now)).violation (w.view s) <;> rfl

end calls

/-! ### The parts of a delivery -/

theorem drive_nowPlusSeconds (x : PyFloat) :
    (nowPlusSeconds x).drive (soloHandler o) (w, s) =
      ((w.now.addSeconds x).mapError PyExn.ofNum, w, s) := by
  unfold nowPlusSeconds
  rw [Prog.drive_bind_ok _ drive_now, Prog.drive_ofExcept]

/-- The delay until the next try: an override that is not zero, or the backoff. -/
def retryDelay (o : Oracle) (n : ℕ) (ep : WebhookEndpoint) (delayOverride : Option PyFloat) :
    PyFloat :=
  match delayOverride with
  | some x => if x.truthy then x else backoff
  | none => backoff
where
  /-- The backoff with the jitter drawn. -/
  backoff : PyFloat :=
    .finite (ExponentialBackoffStrategy.computeDelay n ep.retryBackoffBase ep.retryMaxDelaySeconds
      o.draw)

theorem drive_nextRetryAt (n : ℕ) (ep : WebhookEndpoint) (x : Option PyFloat) :
    (ExponentialBackoffStrategy.nextRetryAt n ep.retryBackoffBase ep.retryMaxDelaySeconds x).drive
        (soloHandler o) (w, s) =
      ((w.now.addSeconds (retryDelay o n ep x)).mapError PyExn.ofNum, w, s) := by
  have hd : (ExponentialBackoffStrategy.delay n ep.retryBackoffBase ep.retryMaxDelaySeconds
      x).drive (soloHandler o) (w, s) = (.ok (retryDelay o n ep x), w, s) := by
    unfold ExponentialBackoffStrategy.delay retryDelay
    cases x with
    | none => rfl
    | some x => dsimp only; split_ifs <;> rfl
  unfold ExponentialBackoffStrategy.nextRetryAt
  rw [Prog.drive_bind_ok _ hd, drive_nowPlusSeconds]

/-- The headers of a run that signs at a given time. -/
def sentHeaders (crypto : Crypto) (now : Datetime) (ev : WebhookEvent) (ep : WebhookEndpoint) :
    Dict Str Str :=
  (HMACService.signatureHeaders
    (HMACService.signature crypto (DeliveryService.requestBody ev) ep.signingSecret now.timestamp)
    ev.id.str ev.eventType now.timestamp).update ep.customHeaders

/-- `timestamp or int(time.time())`. -/
def HMACService.signingTime (timestamp : Option ℤ) (clock : Datetime) : ℤ :=
  match timestamp with
  | some ts => if ts ≠ 0 then ts else clock.timestamp
  | none => clock.timestamp

theorem HMACService.signingTime_of_ne_zero {ts : ℤ} (h : ts ≠ 0) (clock : Datetime) :
    HMACService.signingTime (some ts) clock = ts := if_pos h

/-- `sign_payload` signs for one timestamp. -/
theorem drive_signPayload (crypto : Crypto) (body : List UInt8) (secret : Str)
    (timestamp : Option ℤ) :
    (HMACService.signPayload crypto body secret timestamp).drive (soloHandler o) (w, s) =
      (HMACService.signAt crypto body secret (HMACService.signingTime timestamp w.now)).drive
        (soloHandler o) (w, s) := by
  unfold HMACService.signPayload HMACService.signingTime
  cases timestamp with
  | none => rfl
  | some ts =>
    dsimp only
    split_ifs <;> rfl

theorem drive_signAt {ts : ℤ} (h : ts.natAbs < 10 ^ maxStrDigits) (crypto : Crypto)
    (body : List UInt8) (secret : Str) :
    (HMACService.signAt crypto body secret ts).drive (soloHandler o) (w, s) =
      (.ok (HMACService.signature crypto body secret ts), w, s) := by
  unfold HMACService.signAt
  rw [pyStr_of_lt h]
  rfl

theorem drive_requestHeaders (crypto : Crypto) (ev : WebhookEvent) (ep : WebhookEndpoint) :
    (DeliveryService.requestHeaders crypto ev ep).drive (soloHandler o) (w, s) =
      (.ok (sentHeaders crypto w.now ev ep), w, s) := by
  have hs : (HMACService.signPayload crypto (DeliveryService.requestBody ev) ep.signingSecret
      (some w.now.timestamp)).drive (soloHandler o) (w, s) =
      (.ok (HMACService.signature crypto (DeliveryService.requestBody ev) ep.signingSecret
        w.now.timestamp), w, s) := by
    have htime : HMACService.signingTime (some w.now.timestamp) w.now = w.now.timestamp := by
      unfold HMACService.signingTime
      dsimp only
      split_ifs <;> rfl
    rw [drive_signPayload, htime]
    exact drive_signAt (w.now.natAbs_timestamp_lt.trans_le
      (Nat.pow_le_pow_right (by decide) (by decide))) crypto _ _
  unfold DeliveryService.requestHeaders HMACService.getSignatureHeaders
  refine Prog.drive_bind_ok _ ?_ _
  rw [Prog.drive_bind_ok _ drive_now, Prog.drive_bind_ok _ hs]
  rfl

/-! ### What a run decides -/

section decision

variable (deps : Deps) (o : Oracle) (w : World) (ev : WebhookEvent) (ep : WebhookEndpoint)

/-- The POST of a run. -/
def sentRequest : HttpRequest :=
  ⟨ep.url, DeliveryService.requestBody ev, sentHeaders deps.crypto w.now ev ep,
    ep.timeoutSeconds⟩

/-- The world after the POST. -/
def World.posted : World :=
  if (sentRequest deps w ev ep).encodable then
    { w with
      posts := w.posts ++ [sentRequest deps w ev ep]
      now := w.now.advance o.elapsed }
  else w

/-- The row of the attempt log. -/
def loggedAttempt (p : PostResult) : DeliveryAttempt :=
  DeliveryService.attemptRow deps.crypto (EventRepository.delivering ev)
    (sentHeaders deps.crypto w.now ev ep) p
    (((w.posted deps o ev ep).now.micros - w.now.micros : ℚ) / 1000) o.uuid
    (w.posted deps o ev ep).now

/-- The decision after an attempt has been logged at a given time. -/
def settle (now : Datetime) (p : PostResult) (a : DeliveryAttempt) : Except PyExn Exit :=
  let n := ev.attemptCount + 1
  let decision := ExponentialBackoffStrategy.shouldRetry p.httpStatus n ep.maxRetries
    p.retryAfterHeader
  if p.success then .ok (.delivered a now)
  else if decision.1 then
    ((now.addSeconds (retryDelay o n ep decision.2)).mapError PyExn.ofNum).map (.retried a)
  else .ok (.exhausted a (DeliveryService.deadLetterRow (EventRepository.delivering ev) ep
    p.lastError p.httpStatus o.uuid now))

/-- The decision of a run that sends a POST, or the exception it raises. -/
def attemptDecision : Except PyExn Exit :=
  if (sentRequest deps w ev ep).encodable then do
    let p ← PostResult.ofAnswer ep.timeoutSeconds o.answer.result
    if (loggedAttempt deps o w ev ep p).storable then
      settle o ev ep (w.posted deps o ev ep).now p (loggedAttempt deps o w ev ep p)
    else .error .dataError
  else .error .unicodeEncodeError

/-- The decision of a run that has found the event not terminal, or the exception it raises. -/
def decision : Except PyExn Exit :=
  if !ep.isActive then
    .ok (.inactive (DeliveryService.deadLetterRow ev ep (Str.lit "Endpoint is inactive") none
      o.uuid w.now))
  else if !o.allowed then
    ((w.now.addSeconds (.finite deps.settings.cbRecoveryTimeoutSeconds)).mapError
      PyExn.ofNum).map .refused
  else attemptDecision deps o w ev ep

/-- The world a run leaves, apart from what it commits. -/
def World.afterRun : World := if ep.isActive && o.allowed then w.posted deps o ev ep else w

end decision

/-! ### A run is its decision -/

/-- The rows of a run are new: its fresh UUID is in no table, its event is there. -/
structure World.Fresh (w : World) (o : Oracle) (ev : WebhookEvent) : Prop where
  attempt : w.db.attempts.get? o.uuid = none
  deadLetter : w.db.deadLetters.get? o.uuid = none
  event : (w.db.events.get? ev.id).isSome

section constraints

variable {db : Db}

/-- An attempt with a new id of an event that is there is refused for its values only. -/
theorem violation_insertAttempt {r : DeliveryAttempt} (ha : db.attempts.get? r.id = none)
    (he : (db.events.get? r.eventId).isSome) :
    (Op.insertAttempt r).violation db = if r.storable then none else some .dataError := by
  simp only [Op.violation, Db.holds, ha, he]
  cases r.storable <;> rfl

/-- The same for a dead letter entry. -/
theorem violation_insertDeadLetter {r : DeadLetterEvent} (hs : r.storable = true)
    (hd : db.deadLetters.get? r.id = none) (he : (db.events.get? r.eventId).isSome) :
    (Op.insertDeadLetter r).violation db = none := by
  simp only [Op.violation, Db.holds, hs, hd, he]
  rfl

/-- A dead letter entry of a stored event takes an error text without NUL. -/
theorem storable_deadLetterRow (ev : WebhookEvent) (hev : ev.storable = true)
    (ep : WebhookEndpoint) {lastError : Str} (he : lastError.hasNul = false) {st : Option ℤ}
    (hst : st.all fitsInteger = true) (id : UUID) (t : Datetime) :
    (DeliveryService.deadLetterRow ev ep lastError st id t).storable = true := by
  simp only [WebhookEvent.storable, Bool.and_eq_true] at hev
  simp only [DeadLetterEvent.storable, DeliveryService.deadLetterRow, hev.1.1, hev.1.2, hst,
    Option.all_some, he]
  rfl

/-- The error text of a dead letter entry has no NUL if the error message of the attempt has
none. -/
theorem hasNul_lastError {p : PostResult} (h : (p.errorMessage.all fun s => !s.hasNul) = true) :
    p.lastError.hasNul = false := by
  have hst : (PostResult.lastError.status p).hasNul = false := by
    unfold PostResult.lastError.status
    cases p.httpStatus with
    | none => rfl
    | some n => exact Str.hasNul_ofInt n
  have hh : (Str.lit "HTTP " ++ PostResult.lastError.status p).hasNul = false := by
    rw [Str.hasNul_append, hst]
    rfl
  unfold PostResult.lastError
  cases hm : p.errorMessage with
  | none => exact hh
  | some m =>
    dsimp only
    split_ifs
    · simpa [hm] using h
    · exact hh

end constraints

section settle

variable {ev : WebhookEvent} {ep : WebhookEndpoint}

theorem drive_settleSuccess (a : DeliveryAttempt) (d : ℚ) :
    (DeliveryService.settleSuccess ev ep a d).drive (soloHandler o) (w, s) =
      (.ok { DeliveryOutcome.of .success ev.id with
          attemptId := some a.id, durationMs := some (round2 d) },
        { w with wal := w.wal ++ (s.pending ++ flush ev (EventRepository.delivered ev w.now)) },
        { s with pending := [] }) := rfl

theorem drive_retryLater (x : Option PyFloat) :
    (DeliveryService.retryLater ev ep x).drive (soloHandler o) (w, s) =
      match (w.now.addSeconds (retryDelay o ev.attemptCount ep x)).mapError PyExn.ofNum with
      | .ok t => (.ok { DeliveryOutcome.of .retryScheduled ev.id with nextRetryAt := some t },
          { w with wal := w.wal ++ (s.pending ++ flush ev (EventRepository.retryScheduled ev t)) },
          { s with pending := [] })
      | .error x => (.error x, w, s) := by
  unfold DeliveryService.retryLater
  rw [Prog.drive_bind, drive_nextRetryAt]
  cases (w.now.addSeconds (retryDelay o ev.attemptCount ep x)).mapError PyExn.ofNum <;> rfl

theorem drive_giveUp {p : PostResult}
    (h : (Op.insertDeadLetter (DeliveryService.deadLetterRow ev ep p.lastError p.httpStatus o.uuid
      w.now)).violation (w.view s) = none) :
    (DeliveryService.giveUp ev ep p).drive (soloHandler o) (w, s) =
      (.ok { DeliveryOutcome.of .deadLettered ev.id with attemptCount := some ev.attemptCount },
        { w with wal := w.wal ++ (s.pending ++ [.insertDeadLetter (DeliveryService.deadLetterRow ev
            ep p.lastError p.httpStatus o.uuid w.now)] ++
          flush ev (EventRepository.deadLettered ev)) },
        { s with pending := [] }) := by
  unfold DeliveryService.giveUp
  rw [Prog.drive_bind, drive_createDeadLetter, h]
  rfl

theorem drive_deactivateGone (p : PostResult) (a : DeliveryAttempt)
    (h : a.httpStatusCode = p.httpStatus) :
    (DeliveryService.deactivateGone ep p).drive (soloHandler o) (w, s) =
      (.ok (), w, { s with pending := s.pending ++ goneWrites ep a }) := by
  unfold DeliveryService.deactivateGone goneWrites
  rw [h]
  split_ifs
  · rfl
  · rw [List.append_nil]
    rfl

/-- The session of a run whose attempt has been logged. -/
def loggedSession (ev : WebhookEvent) (a : DeliveryAttempt) : Session :=
  ⟨flush ev (EventRepository.delivering ev) ++ [.insertAttempt a], []⟩

/-- The end of an attempt: what `settle` decides is committed with what was flushed before. -/
theorem runFrom_settle {p : PostResult} {a : DeliveryAttempt}
    (hcode : a.httpStatusCode = p.httpStatus) (herr : a.errorMessage = p.errorMessage)
    (hs : a.storable = true) (hev : ev.storable = true) (hf : w.Fresh o ev) {d : ℚ}
    (hd : a.durationMs = round2 d) :
    runFrom o (if p.success then
        DeliveryService.settleSuccess (EventRepository.delivering ev) ep a d
      else DeliveryService.settleFailure (EventRepository.delivering ev) ep p) w
        (loggedSession ev a) =
      match settle o ev ep w.now p a with
      | .ok x => (.ok (x.outcome ev ep), { w with wal := w.wal ++ x.writes ev ep })
      | .error x => (.error x, w) := by
  simp only [DeliveryAttempt.storable, Bool.and_eq_true] at hs
  have hn : (EventRepository.delivering ev).attemptCount = ev.attemptCount + 1 := rfl
  unfold settle
  cases hp : p.success with
  | true =>
    simp only [if_true, Exit.outcome, Exit.writes, hd]
    exact runFrom_of_drive (drive_settleSuccess a d)
  | false =>
    simp only [Bool.false_eq_true, if_false, DeliveryService.settleFailure]
    rw [runFrom_bind_ok (drive_recordFailure _), runFrom_bind_ok (drive_deactivateGone p a hcode),
      hn]
    split_ifs with hr
    · unfold runFrom
      rw [drive_retryLater, hn]
      cases (w.now.addSeconds (retryDelay o (ev.attemptCount + 1) ep
        (ExponentialBackoffStrategy.shouldRetry p.httpStatus (ev.attemptCount + 1) ep.maxRetries
          p.retryAfterHeader).2)).mapError PyExn.ofNum <;> rfl
    · have hview : w.view ⟨(loggedSession ev a).pending ++ goneWrites ep a, []⟩ =
          ((w.db.applyAll (flush ev (EventRepository.delivering ev))).apply
            (.insertAttempt a)).applyAll (goneWrites ep a) := by
        simp only [loggedSession, World.view, Db.applyAll_append, Db.applyAll_cons, Db.applyAll_nil]
      refine (runFrom_of_drive (drive_giveUp ?_)).trans ?_
      · apply violation_insertDeadLetter
        · exact storable_deadLetterRow (EventRepository.delivering ev) hev ep
            (hasNul_lastError (herr ▸ hs.2)) (hcode ▸ hs.1.1.1.2) _ _
        · rw [show (loggedSession ev a).loaded = [] from rfl, hview, deadLetters_goneWrites]
          simp only [Db.apply, applyAll_flush]
          exact hf.deadLetter
        · rw [show (loggedSession ev a).loaded = [] from rfl, hview, events_goneWrites]
          simp only [Db.apply, applyAll_flush, Table.get?_modify]
          split_ifs
          · rw [Option.isSome_map]
            exact hf.event
          · exact hf.event
      · simp only [Exit.outcome, Exit.writes, loggedSession, List.append_assoc]
        rfl

/-- From the end of the POST on: the attempt is logged if its values can be stored, and the rest
is `settle`. -/
theorem runFrom_settleAttempt {crypto : Crypto} {headers : Dict Str Str} {p : PostResult} {d : ℚ}
    (hev : ev.storable = true) (hf : w.Fresh o ev) :
    let a := DeliveryService.attemptRow crypto (EventRepository.delivering ev) headers p d o.uuid
      w.now
    runFrom o (DeliveryService.settleAttempt crypto (EventRepository.delivering ev) ep headers p d)
        w ⟨flush ev (EventRepository.delivering ev), []⟩ =
      if a.storable then
        match settle o ev ep w.now p a with
        | .ok x => (.ok (x.outcome ev ep), { w with wal := w.wal ++ x.writes ev ep })
        | .error x => (.error x, w)
      else (.error .dataError, w) := by
  intro a
  have hlog := drive_createAttempt (o := o) (w := w)
    (s := ⟨flush ev (EventRepository.delivering ev), []⟩)
    (DeliveryService.attemptRow crypto (EventRepository.delivering ev) headers p d)
  have hview : w.view ⟨flush ev (EventRepository.delivering ev), []⟩ =
      w.db.applyAll (flush ev (EventRepository.delivering ev)) := rfl
  rw [violation_insertAttempt] at hlog
  · unfold DeliveryService.settleAttempt
    by_cases hs : a.storable = true
    · rw [if_pos hs] at hlog ⊢
      rw [runFrom_bind_ok hlog]
      exact runFrom_settle rfl rfl hs hev hf rfl
    · rw [if_neg hs] at hlog ⊢
      exact runFrom_bind_error hlog _
  · rw [hview, applyAll_flush]
    exact hf.attempt
  · rw [hview, applyAll_flush]
    change (Table.get? _ ev.id).isSome
    rw [Table.get?_modify_self, Option.isSome_map]
    exact hf.event

/-- The decision once the POST has been answered. -/
theorem attemptDecision_ok {deps : Deps} {p : PostResult}
    (henc : (sentRequest deps w ev ep).encodable = true)
    (hp : PostResult.ofAnswer ep.timeoutSeconds o.answer.result = .ok p) :
    attemptDecision deps o w ev ep =
      if (loggedAttempt deps o w ev ep p).storable then
        settle o ev ep (w.posted deps o ev ep).now p (loggedAttempt deps o w ev ep p)
      else .error .dataError := by
  rw [attemptDecision, if_pos henc, hp]
  rfl

/-- The POST of a run, and the world after it. -/
theorem drive_attemptPost (deps : Deps) (o : Oracle) (w : World) (ev : WebhookEvent)
    (ep : WebhookEndpoint) (s : Session) :
    (post (sentRequest deps w ev ep)).attempt.drive (soloHandler o) (w, s) =
      (.ok (if (sentRequest deps w ev ep).encodable then o.answer.result
        else .error .unicodeEncodeError), w.posted deps o ev ep, s) := by
  rw [Prog.drive_attempt, drive_post]
  unfold World.posted
  split_ifs <;> rfl

/-- A run that sends a POST is its decision. -/
theorem runFrom_attemptDelivery (deps : Deps) (hev : ev.storable = true) (hf : w.Fresh o ev) :
    runFrom o (DeliveryService.attemptDelivery deps.crypto ev ep) w .fresh =
      match attemptDecision deps o w ev ep with
      | .ok x => (.ok (x.outcome ev ep),
          { w.posted deps o ev ep with wal := w.wal ++ x.writes ev ep })
      | .error x => (.error x, w.posted deps o ev ep) := by
  have hmark : (EventRepository.markDelivering ev).drive (soloHandler o) (w, .fresh) =
      (.ok (EventRepository.delivering ev), w, ⟨flush ev (EventRepository.delivering ev), []⟩) :=
    rfl
  have hwal : (w.posted deps o ev ep).wal = w.wal := by
    unfold World.posted
    split_ifs <;> rfl
  have hf' : (w.posted deps o ev ep).Fresh o ev := by
    have hdb : (w.posted deps o ev ep).db = w.db := by rw [World.db, hwal, World.db]
    exact ⟨hdb ▸ hf.attempt, hdb ▸ hf.deadLetter, hdb ▸ hf.event⟩
  unfold DeliveryService.attemptDelivery
  rw [runFrom_bind_ok hmark, runFrom_bind_ok (drive_requestHeaders _ _ _),
    runFrom_bind_ok drive_perfCounter]
  refine (runFrom_bind_ok (drive_attemptPost deps o w ev ep _) _).trans ?_
  by_cases henc : (sentRequest deps w ev ep).encodable = true
  · rw [if_pos henc]
    cases hp : PostResult.ofAnswer ep.timeoutSeconds o.answer.result with
    | error x =>
      rw [attemptDecision, if_pos henc, hp]
      rfl
    | ok p =>
      rw [attemptDecision_ok henc hp, runFrom_bind_ok (Prog.drive_ofExcept _ _ _),
        runFrom_bind_ok drive_perfCounter]
      refine (runFrom_settleAttempt hev hf').trans ?_
      rw [hwal]
      by_cases hs : (loggedAttempt deps o w ev ep p).storable = true
      · rw [if_pos hs]
        exact if_pos hs
      · rw [if_neg hs]
        exact if_neg hs
  · rw [attemptDecision, if_neg henc, if_neg henc]
    rfl

/-- A run that finds the endpoint inactive is its decision. -/
theorem runFrom_deadLetterInactive (hev : ev.storable = true) (hf : w.Fresh o ev) :
    let x := Exit.inactive (DeliveryService.deadLetterRow ev ep (Str.lit "Endpoint is inactive")
      none o.uuid w.now)
    runFrom o (DeliveryService.deadLetterInactive ev ep) w .fresh =
      (.ok (x.outcome ev ep), { w with wal := w.wal ++ x.writes ev ep }) := by
  intro x
  have hmark : (EventRepository.markDeadLettered ev).drive (soloHandler o) (w, .fresh) =
      (.ok (EventRepository.deadLettered ev), w,
        ⟨flush ev (EventRepository.deadLettered ev), []⟩) := rfl
  have hlog := drive_createDeadLetter (o := o) (w := w)
    (s := ⟨flush ev (EventRepository.deadLettered ev), []⟩)
    (DeliveryService.deadLetterRow (EventRepository.deadLettered ev) ep
      (Str.lit "Endpoint is inactive") none)
  have hview : w.view ⟨flush ev (EventRepository.deadLettered ev), []⟩ =
      w.db.applyAll (flush ev (EventRepository.deadLettered ev)) := rfl
  rw [violation_insertDeadLetter] at hlog
  · unfold DeliveryService.deadLetterInactive
    rw [runFrom_bind_ok hmark, runFrom_bind_ok hlog, runFrom_bind_ok drive_commit]
    rfl
  · exact storable_deadLetterRow (EventRepository.deadLettered ev) hev ep (by decide) rfl _ _
  · rw [hview, applyAll_flush]
    exact hf.deadLetter
  · rw [hview, applyAll_flush]
    change (Table.get? _ ev.id).isSome
    rw [Table.get?_modify_self, Option.isSome_map]
    exact hf.event

/-- A run that the circuit breaker refuses is its decision. -/
theorem runFrom_deferDelivery (settings : Settings) :
    runFrom o (DeliveryService.deferDelivery settings ev ep) w .fresh =
      match ((w.now.addSeconds (.finite settings.cbRecoveryTimeoutSeconds)).mapError
          PyExn.ofNum).map Exit.refused with
      | .ok x => (.ok (x.outcome ev ep), { w with wal := w.wal ++ x.writes ev ep })
      | .error x => (.error x, w) := by
  unfold DeliveryService.deferDelivery runFrom
  rw [Prog.drive_bind, drive_nowPlusSeconds]
  cases (w.now.addSeconds (.finite settings.cbRecoveryTimeoutSeconds)).mapError PyExn.ofNum <;> rfl

/-- A run of `deliver` on an event that is not terminal is its decision: it answers and commits
what the exit says, or it raises and commits nothing. -/
theorem runDeliver_eq (deps : Deps) {id : UUID}
    (hrow : w.db.eventWithEndpoint id = some (ev, some ep)) (hterm : ev.status.terminal = false)
    (hev : ev.storable = true) (hf : w.Fresh o ev) :
    runDeliver deps o id w = match decision deps o w ev ep with
      | .ok x => (.ok (x.outcome ev ep),
          { w.afterRun deps o ev ep with wal := w.wal ++ x.writes ev ep })
      | .error x => (.error x, w.afterRun deps o ev ep) := by
  unfold runDeliver runSolo DeliveryService.deliver
  rw [runFrom_bind_ok (drive_getWithEndpoint id)]
  have hview : (w.view .fresh).eventWithEndpoint id = some (ev, some ep) := hrow
  rw [hview]
  simp only [hterm, Bool.false_eq_true, if_false]
  unfold decision World.afterRun
  cases hact : ep.isActive with
  | false =>
    simp only [Bool.not_false, if_true, Bool.false_and, Bool.false_eq_true, if_false]
    exact runFrom_deadLetterInactive hev hf
  | true =>
    simp only [Bool.not_true, Bool.false_eq_true, if_false, Bool.true_and]
    rw [runFrom_bind_ok (drive_isAllowed _)]
    cases hal : o.allowed with
    | false =>
      simp only [Bool.not_false, if_true, Bool.false_eq_true, if_false]
      exact runFrom_deferDelivery deps.settings
    | true =>
      simp only [Bool.not_true, Bool.false_eq_true, if_false, if_true]
      rw [runFrom_attemptDelivery deps hev hf]

/-- A run finds nothing to do for a terminal event. -/
theorem runDeliver_of_terminal (deps : Deps) (o : Oracle) {id : UUID}
    (hrow : w.db.events.get? id = some ev) (hterm : ev.status.terminal = true) :
    runDeliver deps o id w = (.ok (.of .notFound id), w) := by
  unfold runDeliver runSolo DeliveryService.deliver
  rw [runFrom_bind_ok (drive_getWithEndpoint id)]
  have hload : (w.view .fresh).eventWithEndpoint id =
      some (ev, w.db.endpoints.get? ev.endpointId) := by
    change (w.db.events.get? id).map _ = _
    rw [hrow]
    rfl
  rw [hload]
  simp only [hterm, if_true]
  rfl

/-! ### The POST of a run -/

/-- The call is no POST. -/
def Op.Silent (e : Op) : Prop := e.isPost = false

/-- Only a POST sends a request. -/
theorem posts_exec (o : Oracle) {e : Op} (he : e.Silent) (w : World) (s : Session) :
    (exec o e w s).2.1.posts = w.posts := by
  have h := execs o e w s
  generalize (exec o e w s).2.1 = w' at h ⊢
  cases h with
  | posted req => cases he
  | _ => rfl

/-- A part that makes no POST sends nothing. -/
theorem posts_drive {α : Type} {q : Relay α} (hq : q.Calls Op.Silent) (o : Oracle)
    (w : World) (s : Session) :
    (q.drive (soloHandler o) (w, s)).2.1.posts = w.posts := by
  have hkeep : ∀ (e : Op) (x : World × Session), e.Silent → x.1.posts = w.posts →
      (soloHandler o e x).2.1.posts = w.posts :=
    fun e x he hx => (posts_exec o he x.1 x.2).trans hx
  refine Prog.Calls.drive hkeep hq ?_
  rfl

/-- A call of a run that is no POST. -/
theorem silent_of_delivering (e : Op) (_ : e.Delivering) (he : e.isPost = false) : e.Silent := he

/-- What `attemptDelivery` sends. -/
theorem posts_attemptDelivery (deps : Deps) (o : Oracle) (w : World) (ev : WebhookEvent)
    (ep : WebhookEndpoint) :
    (runFrom o (DeliveryService.attemptDelivery deps.crypto ev ep) w .fresh).2.posts =
      (w.posted deps o ev ep).posts := by
  have hmark : (EventRepository.markDelivering ev).drive (soloHandler o) (w, .fresh) =
      (.ok (EventRepository.delivering ev), w, ⟨flush ev (EventRepository.delivering ev), []⟩) :=
    rfl
  unfold DeliveryService.attemptDelivery
  rw [runFrom_bind_ok hmark, runFrom_bind_ok (drive_requestHeaders _ _ _),
    runFrom_bind_ok drive_perfCounter]
  refine (congrArg (fun x : Except PyExn DeliveryOutcome × World => x.2.posts)
    (runFrom_bind_ok (drive_attemptPost deps o w ev ep _) _)).trans ?_
  cases hp : PostResult.ofAnswer ep.timeoutSeconds
      (if (sentRequest deps w ev ep).encodable then o.answer.result
        else .error .unicodeEncodeError) with
  | error x => rfl
  | ok p =>
    rw [runFrom_bind_ok (Prog.drive_ofExcept _ _ _), runFrom_bind_ok drive_perfCounter]
    exact posts_drive (calls_settleAttempt silent_of_delivering _ _ _ _ _ _) o _ _

/-- **What a run sends** for an event that is not terminal. -/
theorem posts_runDeliver (deps : Deps) {o : Oracle} {w : World} {id : UUID}
    (hload : w.db.eventWithEndpoint id = some (ev, some ep)) (hterm : ev.status.terminal = false) :
    (runDeliver deps o id w).2.posts = (w.afterRun deps o ev ep).posts := by
  have hview : (w.view .fresh).eventWithEndpoint id = some (ev, some ep) := hload
  unfold runDeliver runSolo DeliveryService.deliver
  rw [runFrom_bind_ok (drive_getWithEndpoint id), hview]
  simp only [hterm, Bool.false_eq_true, if_false]
  unfold World.afterRun
  cases ep.isActive with
  | false => exact posts_drive (calls_deadLetterInactive silent_of_delivering ev ep) o w .fresh
  | true =>
    simp only [Bool.not_true, Bool.false_eq_true, if_false, Bool.true_and]
    rw [runFrom_bind_ok (drive_isAllowed _)]
    cases o.allowed with
    | false => exact posts_drive (calls_deferDelivery silent_of_delivering _ ev ep) o w .fresh
    | true => exact posts_attemptDelivery deps o w ev ep

/-- What `settle` decides is valid for the rows it was given. -/
theorem settle_valid {now : Datetime} {p : PostResult} {a : DeliveryAttempt} {x : Exit}
    (ha : a.Logs ev) (hcode : a.httpStatusCode = p.httpStatus) (hs : a.success = p.success)
    (h : settle o ev ep now p a = .ok x) : x.Valid ev ep := by
  unfold settle at h
  dsimp only at h
  split_ifs at h with hp hd
  · obtain rfl := Except.ok.inj h
    exact ⟨ha, hs.trans hp⟩
  · obtain ⟨hlt, hne⟩ := ExponentialBackoffStrategy.shouldRetry_eq_true hd
    obtain ⟨t, -, rfl⟩ := map_eq_ok.mp h
    exact ⟨ha, hs.trans (by simpa using hp), hlt, hcode ▸ hne⟩
  · obtain rfl := Except.ok.inj h
    exact ⟨ha, hs.trans (by simpa using hp), rfl, rfl, rfl, rfl, rfl⟩

/-- What a run decides is valid for the rows it has loaded. -/
theorem decision_valid {deps : Deps} {x : Exit} (h : decision deps o w ev ep = .ok x) :
    x.Valid ev ep := by
  unfold decision at h
  split_ifs at h with hact hal
  · obtain rfl := Except.ok.inj h
    exact ⟨by simpa using hact, records_deadLetterRow _ _ _ _ _ _⟩
  · obtain ⟨t, -, rfl⟩ := map_eq_ok.mp h
    simpa [Exit.Valid] using hact
  · unfold attemptDecision at h
    split_ifs at h with henc
    cases hp : PostResult.ofAnswer ep.timeoutSeconds o.answer.result with
    | error y =>
      rw [hp] at h
      cases h
    | ok p =>
      rw [hp] at h
      change (if (loggedAttempt deps o w ev ep p).storable then _ else _) = _ at h
      split_ifs at h with hs
      exact settle_valid (logs_attemptRow _ (PostResult.success_of_ofAnswer hp) _ _ _ _ _) rfl rfl
        h

/-- The rows a run inserts have its fresh UUID. -/
theorem decision_uuid {deps : Deps} {x : Exit} (h : decision deps o w ev ep = .ok x) :
    (∀ a, x.attempt? = some a → a.id = o.uuid) ∧ ∀ d, x.deadLetter? = some d → d.id = o.uuid := by
  unfold decision at h
  split_ifs at h with hact hal
  · obtain rfl := Except.ok.inj h
    refine ⟨fun _ ha => absurd ha.symm (Option.some_ne_none _), fun d hd => ?_⟩
    obtain rfl := Option.some.inj hd
    rfl
  · obtain ⟨t, -, rfl⟩ := map_eq_ok.mp h
    exact ⟨fun _ ha => absurd ha.symm (Option.some_ne_none _),
      fun _ hd => absurd hd.symm (Option.some_ne_none _)⟩
  · unfold attemptDecision at h
    split_ifs at h with henc
    cases hp : PostResult.ofAnswer ep.timeoutSeconds o.answer.result with
    | error y =>
      rw [hp] at h
      cases h
    | ok p =>
      rw [hp] at h
      change (if (loggedAttempt deps o w ev ep p).storable then _ else _) = _ at h
      split_ifs at h with hs
      unfold settle at h
      dsimp only at h
      split_ifs at h
      · obtain rfl := Except.ok.inj h
        exact ⟨fun a ha => by obtain rfl := Option.some.inj ha; rfl,
          fun _ hd => absurd hd.symm (Option.some_ne_none _)⟩
      · obtain ⟨t, -, rfl⟩ := map_eq_ok.mp h
        exact ⟨fun a ha => by obtain rfl := Option.some.inj ha; rfl,
          fun _ hd => absurd hd.symm (Option.some_ne_none _)⟩
      · obtain rfl := Except.ok.inj h
        exact ⟨fun a ha => by obtain rfl := Option.some.inj ha; rfl,
          fun d hd => by obtain rfl := Option.some.inj hd; rfl⟩

end settle

end WebhookRelay

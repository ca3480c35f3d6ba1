import WebhookRelay.Store
import WebhookRelay.Effect.Pool

/-!
# The calls of the program, and what PostgreSQL, Redis, arq and httpx do with them

`Op` is the list of the awaits of the program: statements and commits of the calling session, the
operations of the circuit breaker, `enqueue_job`, the POST, and the clock and random sources.
`exec` says what each of them does to the `World` and to the `Session` of the caller, with the
answers that are up to the environment in an `Oracle`.

* A session reads the committed tables with its own flushed statements on top (READ COMMITTED).
  Its statements become visible to others at `commit`.
* A statement waits while another session holds a lock on one of its rows, or has inserted the
  same value into a unique column (`blocked`). An insert that finds its key or its unique value
  taken raises `IntegrityError`; a value PostgreSQL cannot store raises a data error.
* A job `deliver:<id>` of arq has a job key while it is queued or in progress, and a result key
  for an hour after it has finished. `enqueue_job` does nothing while one of the two exists.
* The circuit breaker is its interface: `is_allowed` answers what the oracle says.
-/

namespace WebhookRelay

open Data Effect

/-! ### Exceptions -/

/-- What decoding the body of a response may raise. httpx takes the codec that the response names
and asks it to replace what is malformed; `idna` and `undefined` answer with a `UnicodeError`, `hex`
and the other codecs that make no text with an `AssertionError`, `rot13` with a `TypeError`. -/
inductive DecodeError where
  | unicodeError
  | assertionError
  | typeError
  | lookupError
  deriving DecidableEq

/-- The exceptions the program raises or meets. -/
inductive PyExn where
  | httpException (status : ℕ) (detail : Str)
  | deadLetterNotFound (id : UUID)
  | recentlyReplayed (message : Str)
  | timeoutException (message : Str)
  | connectError (message : Str)
  | requestError (message : Str)
  | unicodeEncodeError
  | decodeError (x : DecodeError)
  | valueError
  | overflowError
  | attributeError
  | integrityError
  | dataError
  | staleDataError
  /-- The connection to PostgreSQL or Redis was lost. -/
  | connectionLost
  /-- `asyncio.CancelledError`, which `except Exception` does not catch. -/
  | cancelled
  deriving DecidableEq

/-- The errors of date arithmetic as exceptions. -/
def PyExn.ofNum : NumError → PyExn
  | .valueError => .valueError
  | .overflowError => .overflowError

/-! ### Calls -/

/-- What httpx is asked to send. -/
structure HttpRequest where
  url : Str
  content : List UInt8
  headers : Dict Str Str
  timeout : ℕ

/-- httpx encodes header names and values as ASCII. Of the ASCII ones h11 refuses a few more, such
as a value with a line feed, when the request is written: then nothing leaves, and httpx raises one
of its own errors, as for a connection that fails. -/
def HttpRequest.encodable (req : HttpRequest) : Bool :=
  req.headers.items.all fun x => x.1.isAscii && x.2.isAscii

/-- A response: its status, what decoding its body as text comes to, and its header items in the
order received. -/
structure HttpResponse where
  statusCode : ℤ
  text : Except DecodeError PyStr
  headers : List (Str × Str)

namespace HttpResponse

/-- `response.headers.get(name)`: case-insensitive, repeated values joined by commas. -/
def header (r : HttpResponse) (name : Str) : Option Str :=
  match r.headers.filter fun x => decide (x.1.lower = name.lower) with
  | [] => none
  | xs => some (Str.join [',', ' '] (xs.map Prod.snd))

/-- `dict(response.headers)`: lower-case names, repeated values joined by commas. -/
def headerDict (r : HttpResponse) : Dict Str Str :=
  Dict.ofList (r.headers.map fun x => (x.1.lower, (r.header x.1).getD []))

end HttpResponse

/-- 64 lower-case hexadecimal digits. -/
@[ext] structure HexDigest where
  text : Str
  length_eq : text.length = 64
  isHex : ∀ c ∈ text, c ∈ Str.lit "0123456789abcdef"

namespace HexDigest

theorem isAscii (d : HexDigest) : d.text.isAscii = true := by
  have hdigits : ((Str.lit "0123456789abcdef").all fun c => decide (c.toNat < 128)) = true := by
    decide
  exact Str.isAscii_of_forall fun c hc =>
    of_decide_eq_true (List.all_eq_true.mp hdigits c (d.isHex c hc))

theorem hasNul (d : HexDigest) : d.text.hasNul = false := by
  have hdigits : (Str.lit "0123456789abcdef").hasNul = false := by decide
  exact List.any_eq_false.mpr fun c hc => List.any_eq_false.mp hdigits c (d.isHex c hc)

end HexDigest

/-- The awaits of the program. -/
inductive Op where
  | uuid4
  | tokenHex
  | now
  | perfCounter
  | uniform
  | getEventWithEndpoint (id : UUID)
  | getEventByKey (key : Str)
  | getEndpoint (id : UUID)
  | getDeadLetter (id : UUID)
  | selectDueForRetry (now : Datetime) (limit : ℕ)
  | selectStalePending (cutoff : Datetime) (limit : ℕ)
  | selectDeadLetters (endpointId : Option UUID) (eventType : Option Str) (limit : ℕ)
  | countByStatus (endpointId : Option UUID)
  | countDeadLetters
  | insertEndpoint (r : WebhookEndpoint)
  | flushEndpoint (old new : WebhookEndpoint)
  | deactivateEndpoint (id : UUID)
  | insertEvent (r : WebhookEvent)
  | flushEvent (old new : WebhookEvent)
  | insertAttempt (r : DeliveryAttempt)
  | insertDeadLetter (r : DeadLetterEvent)
  | flushDeadLetter (old new : DeadLetterEvent)
  | deleteDeadLetter (id : UUID)
  | commit
  | isAllowed (endpoint : UUID)
  | recordSuccess (endpoint : UUID)
  | recordFailure (endpoint : UUID)
  | resetCircuit (endpoint : UUID)
  | getOpenCircuits
  | enqueueJob (event : UUID)
  | post (req : HttpRequest)

/-- What a successful call of the program answers with. -/
def Op.Resp : Op → Type
  | .uuid4 => UUID
  | .tokenHex => HexDigest
  | .now => Datetime
  | .perfCounter => ℤ
  | .uniform => {q : ℚ // 0 ≤ q ∧ q ≤ 1}
  | .getEventWithEndpoint _ => Option (WebhookEvent × Option WebhookEndpoint)
  | .getEventByKey _ => Option WebhookEvent
  | .getEndpoint _ => Option WebhookEndpoint
  | .getDeadLetter _ => Option DeadLetterEvent
  | .selectDueForRetry _ _ => List WebhookEvent
  | .selectStalePending _ _ => List WebhookEvent
  | .selectDeadLetters _ _ _ => List DeadLetterEvent
  | .countByStatus _ => List (EventStatus × ℕ)
  | .countDeadLetters => ℕ
  | .deactivateEndpoint _ => Bool
  | .deleteDeadLetter _ => Bool
  | .isAllowed _ => Bool
  | .getOpenCircuits => List Str
  | .enqueueJob _ => Bool
  | .post _ => HttpResponse
  | _ => Unit

/-- The interface of the program. -/
abbrev relay : Interface := ⟨Op, Op.Resp⟩

/-- A coroutine of the program. -/
abbrev Relay : Type → Type := Prog relay PyExn

/-- Await one call. -/
abbrev await (e : Op) : Relay e.Resp := Prog.perform (I := relay) e

/-- `raise`. -/
abbrev raise {α : Type} (x : PyExn) : Relay α := .raised x

/-- `datetime.now(timezone.utc)`, and `func.now()` of the server. -/
def now : Relay Datetime := await .now

/-- `time.perf_counter()`, in microseconds. -/
def perfCounter : Relay ℤ := await .perfCounter

/-- The draw behind `random.uniform`, scaled to the unit interval. -/
def uniform : Relay {q : ℚ // 0 ≤ q ∧ q ≤ 1} := await .uniform

/-- `uuid.uuid4()`. -/
def uuid4 : Relay UUID := await .uuid4

/-- `secrets.token_hex(32)`. -/
def tokenHex : Relay HexDigest := await .tokenHex

/-- `session.commit()`. -/
def commit : Relay Unit := await .commit

/-- `circuit_breaker.is_allowed(...)`. -/
def isAllowed (endpoint : UUID) : Relay Bool := await (.isAllowed endpoint)

/-- `arq_pool.enqueue_job(..., _job_id=f"deliver:{id}")`: whether a job was made. -/
def enqueueJob (event : UUID) : Relay Bool := await (.enqueueJob event)

/-- `circuit_breaker.record_success(...)`. -/
def recordSuccess (endpoint : UUID) : Relay Unit := await (.recordSuccess endpoint)

/-- `circuit_breaker.record_failure(...)`. -/
def recordFailure (endpoint : UUID) : Relay Unit := await (.recordFailure endpoint)

/-- `circuit_breaker.reset(...)`. -/
def resetCircuit (endpoint : UUID) : Relay Unit := await (.resetCircuit endpoint)

/-- `circuit_breaker.get_open_circuits()`. -/
def getOpenCircuits : Relay (List Str) := await .getOpenCircuits

/-- The SELECT of `get_due_for_retry`. -/
def selectDueForRetry (now : Datetime) (limit : ℕ) : Relay (List WebhookEvent) :=
  await (.selectDueForRetry now limit)

/-- The SELECT of `get_stale_pending`. -/
def selectStalePending (cutoff : Datetime) (limit : ℕ) : Relay (List WebhookEvent) :=
  await (.selectStalePending cutoff limit)

/-- `session.flush()` after `session.add(...)`. -/
def insertEndpoint (r : WebhookEndpoint) : Relay Unit := await (.insertEndpoint r)

/-- `session.flush()` after `session.add(...)`. -/
def insertEvent (r : WebhookEvent) : Relay Unit := await (.insertEvent r)

/-- `session.flush()` after `session.add(...)`. -/
def insertAttempt (r : DeliveryAttempt) : Relay Unit := await (.insertAttempt r)

/-- `session.flush()` after `session.add(...)`. -/
def insertDeadLetter (r : DeadLetterEvent) : Relay Unit := await (.insertDeadLetter r)

/-- `session.flush()` after an object was changed. -/
def flushEndpoint (old new : WebhookEndpoint) : Relay Unit := await (.flushEndpoint old new)

/-- `session.flush()` after an object was changed. -/
def flushEvent (old new : WebhookEvent) : Relay Unit := await (.flushEvent old new)

/-- `session.flush()` after an object was changed. -/
def flushDeadLetter (old new : DeadLetterEvent) : Relay Unit := await (.flushDeadLetter old new)

/-- `http_client.post(...)`. -/
def post (req : HttpRequest) : Relay HttpResponse := await (.post req)

/-! ### The world -/

/-- Where a job with a job key is. -/
inductive JobPhase where
  | queued
  | inProgress
  deriving DecidableEq

/-- The arq keys of one job id: the job key while it is queued or in progress, and the result
key of its last finished run. -/
structure Job where
  phase : Option JobPhase
  resultUntil : Option Datetime
  deriving DecidableEq

/-- A result key that has not expired yet. -/
def Job.resultLive (j : Job) (now : Datetime) : Bool := j.resultUntil.any fun t => decide (now ≤ t)

/-- arq's `keep_result`, which `WorkerSettings` does not override, in microseconds. -/
def keepResult : ℕ := 3600000000

/-- Everything shared: the committed writes, the clock, the jobs `deliver:<id>` by event id, and
the POSTs sent so far. -/
structure World where
  wal : List Write
  now : Datetime
  jobs : UUID → Job
  posts : List HttpRequest

/-- The committed tables. -/
def World.db (w : World) : Db := Db.empty.applyAll w.wal

/-- A database session: its flushed, uncommitted statements, and the dead letter objects it has
loaded. -/
structure Session where
  pending : List Write
  loaded : List DeadLetterEvent

/-- A session before its first statement. -/
def Session.fresh : Session := ⟨[], []⟩

/-- What a session reads: the committed tables with its own statements on top. -/
def World.view (w : World) (s : Session) : Db := w.db.applyAll s.pending

/-- What became of a POST. -/
inductive HttpAnswer where
  | response (r : HttpResponse)
  | timeout (message : Str)
  | connectError (message : Str)
  | requestError (message : Str)
  | cancelled

/-- The answer as the result of `AsyncClient.post`. -/
def HttpAnswer.result : HttpAnswer → Except PyExn HttpResponse
  | .response r => .ok r
  | .timeout m => .error (.timeoutException m)
  | .connectError m => .error (.connectError m)
  | .requestError m => .error (.requestError m)
  | .cancelled => .error .cancelled

/-- What the environment chooses for a call. -/
structure Oracle where
  uuid : UUID
  token : HexDigest
  draw : {q : ℚ // 0 ≤ q ∧ q ≤ 1}
  allowed : Bool
  openCircuits : List Str
  answer : HttpAnswer
  /-- How long the POST takes, in microseconds. -/
  elapsed : ℕ

/-! ### Statements -/

/-- The statements a successful call leaves in its session. -/
def Op.writes : Op → List Write
  | .insertEndpoint r => [.insertEndpoint r]
  | .flushEndpoint old new =>
    if EndpointColumns.diff old new = .none then []
    else [.updateEndpoint old.id (.diff old new)]
  | .deactivateEndpoint id =>
    [.updateEndpoint id { EndpointColumns.none with isActive := some false }]
  | .insertEvent r => [.insertEvent r]
  | .flushEvent old new =>
    if EventColumns.diff old new = .none then [] else [.updateEvent old.id (.diff old new)]
  | .insertAttempt r => [.insertAttempt r]
  | .insertDeadLetter r => [.insertDeadLetter r]
  | .flushDeadLetter old new =>
    if DeadLetterColumns.diff old new = .none then []
    else [.updateDeadLetter old.id (.diff old new)]
  | .deleteDeadLetter id => [.deleteDeadLetter id]
  | _ => []

/-- The call is a commit. -/
def Op.isCommit : Op → Bool
  | .commit => true
  | _ => false

/-- The call is `get_with_endpoint`. -/
def Op.isLoad : Op → Bool
  | .getEventWithEndpoint _ => true
  | _ => false

/-- The call is `enqueue_job`. -/
def Op.isEnqueue : Op → Bool
  | .enqueueJob _ => true
  | _ => false

/-- The call brings work into the system: it inserts an event or enqueues a job. -/
def Op.isIntake : Op → Bool
  | .insertEvent _ => true
  | .enqueueJob _ => true
  | _ => false

/-- The call is a POST. -/
def Op.isPost : Op → Bool
  | .post _ => true
  | _ => false

/-- What the constraints of the tables say to a statement: the error it raises, if any. -/
def Op.violation (db : Db) : Op → Option PyExn
  | .insertEndpoint r =>
    if !r.storable then some .dataError
    else if db.holds (.endpoint r.id) then some .integrityError else none
  | .flushEndpoint _ new => if !new.storable then some .dataError else none
  | .getEventByKey key => if key.hasNul then some .dataError else none
  | .insertEvent r =>
    if !r.storable then some .dataError
    else if db.holds (.event r.id) || r.idempotencyKey.any (fun k => db.holds (.idempotency k)) ||
      !db.holds (.endpoint r.endpointId) then some .integrityError else none
  | .insertAttempt r =>
    if !r.storable then some .dataError
    else if db.holds (.attempt r.id) || !db.holds (.event r.eventId) then some .integrityError
    else none
  | .insertDeadLetter r =>
    if !r.storable then some .dataError
    else if db.holds (.deadLetter r.id) || !db.holds (.event r.eventId) then
      some .integrityError
    else none
  | .flushDeadLetter old _ =>
    if db.holds (.deadLetter old.id) then none else some .staleDataError
  | .selectDeadLetters _ eventType _ =>
    if eventType.any Str.hasNul then some .dataError else none
  | _ => none

/-- Answer with a value, leaving the statements of the call in the session. -/
def flushed {α : Type} (e : Op) (a : α) (w : World) (s : Session) :
    Except PyExn α × World × Session :=
  match e.violation (w.view s) with
  | some x => (.error x, w, s)
  | none => (.ok a, w, { s with pending := s.pending ++ e.writes })

/-- The object of a loaded row: the one the session has, or the row itself. -/
def Session.object (s : Session) (r : DeadLetterEvent) : DeadLetterEvent :=
  (s.loaded.find? fun x => decide (x.id = r.id)).getD r

/-- The session after a dead letter object was loaded or changed. -/
def Session.load (s : Session) (r : DeadLetterEvent) : Session :=
  { s with loaded := r :: s.loaded.filter fun x => decide (x.id ≠ r.id) }

/-- What a call does. -/
def exec (o : Oracle) : (e : Op) → World → Session → Except PyExn e.Resp × World × Session
  | .uuid4, w, s => (.ok o.uuid, w, s)
  | .tokenHex, w, s => (.ok o.token, w, s)
  | .now, w, s => (.ok w.now, w, s)
  | .perfCounter, w, s => (.ok w.now.micros, w, s)
  | .uniform, w, s => (.ok o.draw, w, s)
  | .getEventWithEndpoint id, w, s => (.ok ((w.view s).eventWithEndpoint id), w, s)
  | .getEventByKey key, w, s => flushed (.getEventByKey key) ((w.view s).eventByKey key) w s
  | .getEndpoint id, w, s => (.ok ((w.view s).endpoints.get? id), w, s)
  | .getDeadLetter id, w, s =>
    match s.loaded.find? fun x => decide (x.id = id) with
    | some x => (.ok (some x), w, s)
    | none =>
      match (w.view s).deadLetters.get? id with
      | some r => (.ok (some r), w, s.load r)
      | none => (.ok none, w, s)
  | .selectDueForRetry now limit, w, s => (.ok ((w.view s).selectDueForRetry now limit), w, s)
  | .selectStalePending cutoff limit, w, s =>
    (.ok ((w.view s).selectStalePending cutoff limit), w, s)
  | .selectDeadLetters endpointId eventType limit, w, s =>
    let rows := ((w.view s).selectDeadLetters endpointId eventType limit).map s.object
    flushed (.selectDeadLetters endpointId eventType limit) rows w (rows.foldl Session.load s)
  | .countByStatus endpointId, w, s => (.ok ((w.view s).countByStatus endpointId), w, s)
  | .countDeadLetters, w, s => (.ok (w.view s).deadLetters.rows.length, w, s)
  | .insertEndpoint r, w, s => flushed (.insertEndpoint r) () w s
  | .flushEndpoint old new, w, s => flushed (.flushEndpoint old new) () w s
  | .deactivateEndpoint id, w, s =>
    flushed (.deactivateEndpoint id) ((w.view s).endpoints.get? id).isSome w s
  | .insertEvent r, w, s => flushed (.insertEvent r) () w s
  | .flushEvent old new, w, s => flushed (.flushEvent old new) () w s
  | .insertAttempt r, w, s => flushed (.insertAttempt r) () w s
  | .insertDeadLetter r, w, s => flushed (.insertDeadLetter r) () w s
  | .flushDeadLetter old new, w, s => flushed (.flushDeadLetter old new) () w (s.load new)
  | .deleteDeadLetter id, w, s =>
    flushed (.deleteDeadLetter id) ((w.view s).deadLetters.get? id).isSome w s
  | .commit, w, s => (.ok (), { w with wal := w.wal ++ s.pending }, { s with pending := [] })
  | .isAllowed _, w, s => (.ok o.allowed, w, s)
  | .recordSuccess _, w, s => (.ok (), w, s)
  | .recordFailure _, w, s => (.ok (), w, s)
  | .resetCircuit _, w, s => (.ok (), w, s)
  | .getOpenCircuits, w, s => (.ok o.openCircuits, w, s)
  | .enqueueJob id, w, s =>
    if (w.jobs id).phase.isSome || (w.jobs id).resultLive w.now then (.ok false, w, s)
    else (.ok true, { w with jobs := Function.update w.jobs id ⟨some .queued, none⟩ }, s)
  | .post req, w, s =>
    -- the headers are encoded before the connection is opened
    if req.encodable then
      (o.answer.result, { w with posts := w.posts ++ [req], now := w.now.advance o.elapsed }, s)
    else (.error .unicodeEncodeError, w, s)

/-- The locks a call needs. -/
def Op.locks (e : Op) : List RowKey := e.writes.flatMap Write.keys

/-- A call waits while another session holds one of its locks. -/
def blocked (others : List Session) (_ : World) (_ : Session) (e : Op) : Bool :=
  others.any fun s => (s.pending.flatMap Write.keys).any fun k => decide (k ∈ e.locks)

/-- PostgreSQL, Redis, arq and httpx as a machine. -/
def machine : Machine relay PyExn World Session Oracle where
  fresh := .fresh
  exec := exec
  blocked := blocked

/-! ### What a call changes -/

/-- `enqueue_job` makes a job unless a job key or a live result is there. -/
theorem exec_enqueueJob (o : Oracle) (id : UUID) (w : World) (s : Session) :
    exec o (.enqueueJob id) w s =
      if (w.jobs id).phase.isSome || (w.jobs id).resultLive w.now then (.ok false, w, s)
      else (.ok true, { w with jobs := Function.update w.jobs id ⟨some .queued, none⟩ }, s) := rfl

theorem exec_post (o : Oracle) (req : HttpRequest) (w : World) (s : Session) :
    exec o (.post req) w s =
      if req.encodable then
        (o.answer.result, { w with posts := w.posts ++ [req], now := w.now.advance o.elapsed }, s)
      else (.error .unicodeEncodeError, w, s) := rfl

theorem exec_getDeadLetter (o : Oracle) (id : UUID) (w : World) (s : Session) :
    exec o (.getDeadLetter id) w s =
      match s.loaded.find? fun x => decide (x.id = id) with
      | some x => (.ok (some x), w, s)
      | none =>
        match (w.view s).deadLetters.get? id with
        | some r => (.ok (some r), w, s.load r)
        | none => (.ok none, w, s) := rfl

/-- A session without statements sees the committed rows. -/
theorem view_of_pending {w : World} {s : Session} (h : s.pending = []) : w.view s = w.db := by
  rw [World.view, h]
  rfl

section flushed

variable {α : Type} {e : Op} {w : World} {s : Session}

/-- Without a violation the value is answered. -/
theorem flushed_of_none (h : e.violation (w.view s) = none) (a : α) :
    flushed e a w s = (.ok a, w, { s with pending := s.pending ++ e.writes }) := by
  unfold flushed
  rw [h]

/-- A violation is raised. -/
theorem flushed_of_some {x : PyExn} (h : e.violation (w.view s) = some x) (a : α) :
    flushed e a w s = (.error x, w, s) := by
  unfold flushed
  rw [h]

/-- A value is answered without a violation only. -/
theorem flushed_eq_ok {a v : α} {w' : World} {s' : Session}
    (h : flushed e a w s = (.ok v, w', s')) :
    a = v ∧ w = w' ∧ { s with pending := s.pending ++ e.writes } = s' := by
  cases hv : e.violation (w.view s) with
  | some x =>
    rw [flushed_of_some hv] at h
    cases h
  | none =>
    rw [flushed_of_none hv] at h
    cases h
    exact ⟨rfl, rfl, rfl⟩

end flushed

/-- The world after a call: a commit, an enqueued job and a POST change it, and nothing else
does. -/
inductive Execs (o : Oracle) (w : World) (s : Session) : Op → World → Prop
  | nothing (e : Op) : Execs o w s e w
  | commit : Execs o w s .commit { w with wal := w.wal ++ s.pending }
  | enqueued (id : UUID) : Execs o w s (.enqueueJob id)
      { w with jobs := Function.update w.jobs id ⟨some .queued, none⟩ }
  | posted (req : HttpRequest) : Execs o w s (.post req)
      { w with posts := w.posts ++ [req], now := w.now.advance o.elapsed }

theorem execs (o : Oracle) (e : Op) (w : World) (s : Session) :
    Execs o w s e (exec o e w s).2.1 := by
  have hflushed {α : Type} (e : Op) (a : α) (s' : Session) :
      Execs o w s e (flushed e a w s').2.1 := by
    unfold flushed
    split <;> exact .nothing e
  cases e with
  | commit => exact .commit
  | getDeadLetter id =>
    rw [exec_getDeadLetter]
    split
    · exact .nothing _
    · split <;> exact .nothing _
  | enqueueJob id =>
    rw [exec_enqueueJob]
    split_ifs
    · exact .nothing _
    · exact .enqueued id
  | post req =>
    rw [exec_post]
    split_ifs
    · exact .posted req
    · exact .nothing _
  | getEventByKey _ | selectDeadLetters _ _ _ | insertEndpoint _ | flushEndpoint _ _
  | deactivateEndpoint _ | insertEvent _ | flushEvent _ _ | insertAttempt _ | insertDeadLetter _
  | flushDeadLetter _ _ | deleteDeadLetter _ => exact hflushed _ _ _
  | _ => exact .nothing _

/-- The statement that a call leaves in its session. -/
inductive Op.Emits : Op → Write → Prop
  | insertEndpoint (r : WebhookEndpoint) : Emits (.insertEndpoint r) (.insertEndpoint r)
  | flushEndpoint (old new : WebhookEndpoint) :
    Emits (.flushEndpoint old new) (.updateEndpoint old.id (.diff old new))
  | deactivateEndpoint (id : UUID) : Emits (.deactivateEndpoint id)
      (.updateEndpoint id { EndpointColumns.none with isActive := some false })
  | insertEvent (r : WebhookEvent) : Emits (.insertEvent r) (.insertEvent r)
  | flushEvent (old new : WebhookEvent) :
    Emits (.flushEvent old new) (.updateEvent old.id (.diff old new))
  | insertAttempt (r : DeliveryAttempt) : Emits (.insertAttempt r) (.insertAttempt r)
  | insertDeadLetter (r : DeadLetterEvent) : Emits (.insertDeadLetter r) (.insertDeadLetter r)
  | flushDeadLetter (old new : DeadLetterEvent) :
    Emits (.flushDeadLetter old new) (.updateDeadLetter old.id (.diff old new))
  | deleteDeadLetter (id : UUID) : Emits (.deleteDeadLetter id) (.deleteDeadLetter id)

/-- A call leaves at most one statement. -/
theorem Op.writes_cases (e : Op) : e.writes = [] ∨ ∃ w, e.Emits w ∧ e.writes = [w] := by
  have hflush {w : Write} {p : Prop} [Decidable p] (hw : e.Emits w) :
      (if p then [] else [w]) = [] ∨ ∃ w', e.Emits w' ∧ (if p then [] else [w]) = [w'] := by
    split_ifs
    · exact Or.inl rfl
    · exact Or.inr ⟨w, hw, rfl⟩
  cases e with
  | insertEndpoint r => exact Or.inr ⟨_, .insertEndpoint r, rfl⟩
  | flushEndpoint old new => exact hflush (.flushEndpoint old new)
  | deactivateEndpoint id => exact Or.inr ⟨_, .deactivateEndpoint id, rfl⟩
  | insertEvent r => exact Or.inr ⟨_, .insertEvent r, rfl⟩
  | flushEvent old new => exact hflush (.flushEvent old new)
  | insertAttempt r => exact Or.inr ⟨_, .insertAttempt r, rfl⟩
  | insertDeadLetter r => exact Or.inr ⟨_, .insertDeadLetter r, rfl⟩
  | flushDeadLetter old new => exact hflush (.flushDeadLetter old new)
  | deleteDeadLetter id => exact Or.inr ⟨_, .deleteDeadLetter id, rfl⟩
  | _ => exact Or.inl rfl

/-- Every statement of a call is the one it leaves. -/
theorem Op.emits_of_mem {e : Op} {w : Write} (h : w ∈ e.writes) : e.Emits w := by
  rcases e.writes_cases with hnone | ⟨w', hw', hone⟩
  · rw [hnone] at h
    cases h
  · rw [hone, List.mem_singleton] at h
    rwa [h]

end WebhookRelay

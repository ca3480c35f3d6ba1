import WebhookRelay.Circuit.Calls
import WebhookRelay.Delivery.Solo
import WebhookRelay.Replay.Guard
import WebhookRelay.Runs.DeadLetters

/-!
# Replays without others

A `Bench` is a world in which one request runs at a time and no call fails: next to the tables and
jobs it has the Redis server of the circuit breaker, the identifiers that `uuid4` draws, and the
time that passes before each call. `Bench.Marks` says what a number of replays leaves of it; the
replay of a list of entries in one session comes down to that (`drive_replayEach`).
-/

namespace WebhookRelay

open Data Data.Redis Effect DeadLetterRepository ReplayService

/-! ### The bench -/

/-- The world of a request that runs alone. -/
structure Bench where
  world : World
  /-- The server of the circuit breaker. -/
  redis : Server
  /-- What `uuid4` draws. -/
  ids : List UUID
  /-- The microseconds that pass before each call; after these, none. -/
  pauses : List ℕ

namespace Bench

/-- Time passes before a call. -/
def tick (b : Bench) : Bench :=
  { b with
    world := { b.world with now := b.world.now.advance (b.pauses.headD 0) }
    pauses := b.pauses.tail }

/-- What a call does. `reset` runs on the server, and everything else as it always does. -/
def answer (o : Oracle) : (e : Op) → Bench → Session → Except PyExn e.Resp × Bench × Session
  | .uuid4, b, s => (.ok (b.ids.headD o.uuid), { b with ids := b.ids.tail }, s)
  | .resetCircuit id, b, s =>
    let x := (CircuitBreaker.reset id.str).drive CircuitBreaker.exec b.redis
    (x.1.mapError fun _ => .connectionLost, { b with redis := x.2 }, s)
  | e, b, s =>
    let x := exec o e b.world s
    (x.1, { b with world := x.2.1 }, x.2.2)

/-- Calls are answered after their pause. -/
def handler (o : Oracle) (e : Op) (x : Bench × Session) :
    Except PyExn e.Resp × Bench × Session := answer o e x.1.tick x.2

/-- The instants from now on; without pauses, there is one. -/
def times (b : Bench) : Set Datetime :=
  {t | b.world.now ≤ t ∧ (b.pauses = [] → t = b.world.now)}

/-- The clock goes on. -/
structure Goes (b b' : Bench) : Prop where
  now : b'.world.now ∈ b.times
  pauses : b.pauses = [] → b'.pauses = []

theorem Goes.refl (b : Bench) : b.Goes b := ⟨⟨Datetime.le_refl _, fun _ => rfl⟩, fun h => h⟩

/-- The instants that are left are among those that were there. -/
theorem Goes.times {b b' : Bench} (h : b.Goes b') {t : Datetime} (ht : t ∈ b'.times) :
    t ∈ b.times :=
  ⟨Datetime.le_trans h.now.1 ht.1, fun hp => (ht.2 (h.pauses hp)).trans (h.now.2 hp)⟩

theorem Goes.trans {b b' b'' : Bench} (h : b.Goes b') (h' : b'.Goes b'') : b.Goes b'' :=
  ⟨h.times h'.now, fun hp => h'.pauses (h.pauses hp)⟩

theorem goes_tick (b : Bench) : b.Goes b.tick where
  now := by
    refine ⟨Datetime.le_advance _ _, fun hp => Datetime.ext ?_⟩
    have := b.world.now.upper
    simp only [tick, Datetime.advance, hp, List.headD_nil, Nat.cast_zero, add_zero]
    omega
  pauses hp := by simp only [tick, hp, List.tail_nil]

/-- Without pauses the clock stands. -/
theorem times_of_fixed {b : Bench} (h : b.pauses = []) {t : Datetime} (ht : t ∈ b.times) :
    t = b.world.now := ht.2 h

/-- What the replays of entries leave: their events under the identifiers drawn, in their order, a
job each and a reset of each endpoint, with some statements committed. -/
structure Marks (b : Bench) (ws : List Write) (ms : List Mark) (b' : Bench) : Prop where
  wal : b'.world.wal = b.world.wal ++ ws
  jobs : b'.world.jobs =
    ms.foldl (fun jobs m => Function.update jobs m.event.id ⟨some .queued, none⟩) b.world.jobs
  posts : b'.world.posts = b.world.posts
  redis : b'.redis = ms.foldl (fun server m =>
    (server.execute (CircuitBreaker.clearing m.entry.endpointId.str)).2) b.redis
  ids : b.ids = ms.map (fun m => m.event.id) ++ b'.ids
  goes : b.Goes b'
  made : ∀ m ∈ ms, m.time ∈ b.times ∧ ∃ t ∈ b.times, m.event = replayEvent m.entry m.event.id t

/-- Nothing but time has passed. -/
theorem Marks.refl (b : Bench) : b.Marks [] [] b :=
  ⟨(List.append_nil _).symm, rfl, rfl, rfl, rfl, .refl b, fun _ hm => absurd hm List.not_mem_nil⟩

theorem marks_tick (b : Bench) : b.Marks [] [] b.tick :=
  ⟨(List.append_nil _).symm, rfl, rfl, rfl, rfl, goes_tick b,
    fun _ hm => absurd hm List.not_mem_nil⟩

/-- Replays one after another. -/
theorem Marks.append {b b' b'' : Bench} {ws ws' : List Write} {ms ms' : List Mark}
    (h : b.Marks ws ms b') (h' : b'.Marks ws' ms' b'') :
    b.Marks (ws ++ ws') (ms ++ ms') b'' where
  wal := by rw [h'.wal, h.wal, List.append_assoc]
  jobs := by rw [h'.jobs, h.jobs, List.foldl_append]
  posts := h'.posts.trans h.posts
  redis := by rw [h'.redis, h.redis, List.foldl_append]
  ids := by rw [h.ids, h'.ids, List.map_append, List.append_assoc]
  goes := h.goes.trans h'.goes
  made m hm := by
    rcases List.mem_append.mp hm with hm | hm
    · exact h.made m hm
    · obtain ⟨htime, t, ht, hevent⟩ := h'.made m hm
      exact ⟨h.goes.times htime, t, h.goes.times ht, hevent⟩

/-- When the clock stands, the marks and the statements leave no choice. -/
theorem Marks.unique {b c c' : Bench} {ws : List Write} {ms : List Mark}
    (hfixed : b.pauses = []) (h : b.Marks ws ms c) (h' : b.Marks ws ms c') : c = c' := by
  obtain ⟨⟨wal, now, jobs, posts⟩, redis, ids, pauses⟩ := c
  obtain ⟨⟨wal', now', jobs', posts'⟩, redis', ids', pauses'⟩ := c'
  obtain rfl : wal = wal' := h.wal.trans h'.wal.symm
  obtain rfl : now = now' :=
    (times_of_fixed hfixed h.goes.now).trans (times_of_fixed hfixed h'.goes.now).symm
  obtain rfl : jobs = jobs' := h.jobs.trans h'.jobs.symm
  obtain rfl : posts = posts' := h.posts.trans h'.posts.symm
  obtain rfl : redis = redis' := h.redis.trans h'.redis.symm
  obtain rfl : ids = ids' := List.append_cancel_left (h.ids.symm.trans h'.ids)
  obtain rfl : pauses = pauses' := (h.goes.pauses hfixed).trans (h'.goes.pauses hfixed).symm
  rfl

/-! ### The calls of a replay -/

section calls

variable {o : Oracle} {b : Bench} {s : Session}

theorem drive_now : now.drive (handler o) (b, s) = (.ok b.tick.world.now, b.tick, s) := rfl

theorem drive_uuid4 : uuid4.drive (handler o) (b, s) =
    (.ok (b.ids.headD o.uuid), { b.tick with ids := b.ids.tail }, s) := rfl

theorem drive_commit : commit.drive (handler o) (b, s) =
    (.ok (), { b.tick with world := { b.tick.world with wal := b.world.wal ++ s.pending } },
      { s with pending := [] }) := rfl

/-- A reset deletes the three keys. -/
theorem drive_resetCircuit (id : UUID) : (resetCircuit id).drive (handler o) (b, s) =
    (.ok (), { b.tick with
      redis := (b.redis.execute (CircuitBreaker.clearing id.str)).2 }, s) := rfl

/-- A call that the database or arq answers. -/
theorem drive_await {e : Op} (hanswer : answer o e b.tick s = ((exec o e b.tick.world s).1,
      { b.tick with world := (exec o e b.tick.world s).2.1 }, (exec o e b.tick.world s).2.2))
    {r : Except PyExn e.Resp} {w : World} {s' : Session}
    (hexec : exec o e b.tick.world s = (r, w, s')) :
    (await e).drive (handler o) (b, s) = (r, { b.tick with world := w }, s') := by
  have hdrive : (await e).drive (handler o) (b, s) = answer o e b.tick s :=
    Prog.drive_perform (I := relay) (handler o) e (b, s)
  rw [hdrive, hanswer, hexec]

/-- A job is made for an event that has no job key. -/
theorem drive_enqueueJob {id : UUID} (h : b.world.jobs id = ⟨none, none⟩) :
    (enqueueJob id).drive (handler o) (b, s) =
      (.ok true, { b.tick with world := { b.tick.world with
        jobs := Function.update b.world.jobs id ⟨some .queued, none⟩ } }, s) := by
  have hfree : ((b.tick.world.jobs id).phase.isSome ||
      (b.tick.world.jobs id).resultLive b.tick.world.now) = false := by
    change ((b.world.jobs id).phase.isSome || (b.world.jobs id).resultLive _) = false
    rw [h]
    rfl
  refine drive_await rfl ?_
  rw [exec_enqueueJob, hfree]
  rfl

/-- An event is inserted that no constraint stands against. -/
theorem drive_insertEvent {r : WebhookEvent}
    (h : (Op.insertEvent r).violation (b.world.view s) = none) :
    (insertEvent r).drive (handler o) (b, s) =
      (.ok (), b.tick, { s with pending := s.pending ++ [.insertEvent r] }) := by
  have hviolation : (Op.insertEvent r).violation (b.tick.world.view s) = none := h
  exact drive_await rfl (flushed_of_none hviolation ())

/-- An entry is updated that is there. -/
theorem drive_flushDeadLetter {old : DeadLetterEvent} (new : DeadLetterEvent)
    (h : ((b.world.view s).deadLetters.get? old.id).isSome = true) :
    (flushDeadLetter old new).drive (handler o) (b, s) =
      (.ok (), b.tick, { (s.load new) with
        pending := s.pending ++ (Op.flushDeadLetter old new).writes }) := by
  have hviolation : (Op.flushDeadLetter old new).violation (b.tick.world.view (s.load new)) =
      none := if_pos h
  exact drive_await rfl (flushed_of_none hviolation ())

end calls

end Bench

/-! ### Reading an entry -/

/-- What `session.get` answers: the object the session has, or the row. -/
def Session.get? (s : Session) (db : Db) (id : UUID) : Option DeadLetterEvent :=
  (s.loaded.find? fun x => decide (x.id = id)).or (db.deadLetters.get? id)

/-- A loaded object is answered from then on, and the others as before. -/
theorem Session.get?_load (s : Session) (r : DeadLetterEvent) (db : Db) (id : UUID) :
    (s.load r).get? db id = if r.id = id then some r else s.get? db id := by
  have hcons : (s.load r).loaded.find? (fun x => decide (x.id = id)) =
      if r.id = id then some r else s.loaded.find? fun x => decide (x.id = id) := by
    unfold Session.load
    dsimp only
    rw [List.find?_cons, List.find?_filter]
    by_cases hid : r.id = id
    · rw [if_pos hid, decide_eq_true hid]
    · have hkept : (fun x : DeadLetterEvent => decide (decide (x.id ≠ r.id) = true ∧
          decide (x.id = id) = true)) = fun x => decide (x.id = id) := by
        funext x
        by_cases hx : x.id = id
        · simp [hx, Ne.symm hid]
        · simp [hx]
      rw [if_neg hid, decide_eq_false hid, hkept]
  unfold Session.get?
  rw [hcons]
  split_ifs <;> rfl

namespace Bench

variable {o : Oracle} {b : Bench} {s : Session}

/-- Reading an entry leaves the session with the answers it had. -/
theorem drive_getById {id : UUID} {entry : DeadLetterEvent}
    (h : s.get? (b.world.view s) id = some entry) :
    ∃ s', s'.pending = s.pending ∧ s'.get? (b.world.view s) id = some entry ∧
      (∀ db, ∀ k ≠ id, s'.get? db k = s.get? db k) ∧
      (getById id).drive (handler o) (b, s) = (.ok (some entry), b.tick, s') := by
  have hexec := exec_getDeadLetter o id b.tick.world s
  cases hfind : s.loaded.find? fun x => decide (x.id = id) with
  | some x =>
    rw [hfind] at hexec
    have hx : s.get? (b.world.view s) id = some x := by
      unfold Session.get?
      rw [hfind]
      rfl
    obtain rfl := Option.some.inj (hx.symm.trans h)
    exact ⟨s, rfl, h, fun _ _ _ => rfl, drive_await rfl hexec⟩
  | none =>
    have hrow : (b.tick.world.view s).deadLetters.get? id = some entry := by
      unfold Session.get? at h
      rw [hfind, Option.none_or] at h
      exact h
    rw [hfind, hrow] at hexec
    obtain rfl : entry.id = id := Table.key_of_get? hrow
    refine ⟨s.load entry, rfl, ?_, fun db k hk => ?_, drive_await rfl hexec⟩
    · rw [Session.get?_load, if_pos rfl]
    · rw [Session.get?_load, if_neg (Ne.symm hk)]

/-! ### One entry -/

/-- The entries that are left can be replayed: the session reads them, the tables have their rows
and endpoints and take their values, and there is a new identifier for each. -/
structure Ready (b : Bench) (s : Session) (entries : List DeadLetterEvent) : Prop where
  found : ∀ e ∈ entries, s.get? (b.world.view s) e.id = some e
  row : ∀ e ∈ entries, ((b.world.view s).deadLetters.get? e.id).isSome = true
  endpoint : ∀ e ∈ entries, ((b.world.view s).endpoints.get? e.endpointId).isSome = true
  storable : ∀ e ∈ entries, e.storable = true
  nodup : (entries.map DeadLetterEvent.id).Nodup
  nodupIds : b.ids.Nodup
  unused : ∀ id ∈ b.ids, (b.world.view s).events.get? id = none
  jobless : ∀ id ∈ b.ids, b.world.jobs id = ⟨none, none⟩
  enough : entries.length ≤ b.ids.length

/-- The event of an entry that can be stored can be stored. -/
theorem storable_replayEvent {e : DeadLetterEvent} (h : e.storable = true) (id : UUID)
    (t : Datetime) : (replayEvent e id t).storable = true := by
  unfold DeadLetterEvent.storable at h
  simp only [Bool.and_eq_true] at h
  change (fitsVarchar 255 e.eventType && Json.storableItems e.originalPayload && true) = true
  rw [h.1.1.1, h.1.1.2]
  rfl

/-- The event of an entry is inserted under the next identifier. -/
theorem drive_create {e : DeadLetterEvent} {id : UUID} {ids : List UUID} (hids : b.ids = id :: ids)
    (h : ∀ t, (Op.insertEvent (replayEvent e id t)).violation (b.world.view s) = none) :
    ∃ t ∈ b.times, ∃ b' : Bench, ({ b with ids := ids } : Bench).Marks [] [] b' ∧
      (EventRepository.create (replayEvent e)).drive (handler o) (b, s) =
        (.ok (replayEvent e id t), b',
          { s with pending := s.pending ++ [.insertEvent (replayEvent e id t)] }) := by
  let b₁ : Bench := { b.tick with ids := ids }
  have huuid : uuid4.drive (handler o) (b, s) = (.ok id, b₁, s) := by
    rw [drive_uuid4, hids]
    rfl
  have hdraw : b.Goes b₁ := ⟨(goes_tick b).now, (goes_tick b).pauses⟩
  have hwaits : ({ b with ids := ids } : Bench).Marks [] [] b₁.tick.tick :=
    ((marks_tick { b with ids := ids }).append (marks_tick b₁)).append (marks_tick b₁.tick)
  have hinsert : (insertEvent (replayEvent e id b₁.tick.world.now)).drive (handler o)
      (b₁.tick, s) = (.ok (), b₁.tick.tick,
        { s with pending := s.pending ++ [.insertEvent (replayEvent e id b₁.tick.world.now)] }) :=
    drive_insertEvent (h _)
  refine ⟨b₁.tick.world.now, (hdraw.trans (goes_tick b₁)).now, b₁.tick.tick, hwaits, ?_⟩
  unfold EventRepository.create
  rw [Prog.drive_bind_ok _ huuid, Prog.drive_bind_ok _ drive_now, Prog.drive_bind_ok _ hinsert]
  rfl

/-- An entry that is there is marked. -/
theorem drive_markReplayed {e : DeadLetterEvent}
    (h : ((b.world.view s).deadLetters.get? e.id).isSome = true) :
    ∃ t ∈ b.times, ∃ b' : Bench, b.Marks [] [] b' ∧
      (markReplayed e).drive (handler o) (b, s) = (.ok (replayed e t), b',
        { (s.load (replayed e t)) with
          pending := s.pending ++ [.updateDeadLetter e.id (.diff e (replayed e t))] }) := by
  refine ⟨b.tick.world.now, (goes_tick b).now, b.tick.tick,
    (marks_tick b).append (marks_tick b.tick), ?_⟩
  have hflush := drive_flushDeadLetter (o := o) (b := b.tick) (replayed e b.tick.world.now) h
  rw [Mark.writes_flushDeadLetter] at hflush
  unfold markReplayed
  rw [Prog.drive_bind_ok _ drive_now, Prog.drive_bind_ok _ hflush]
  rfl

/-- The end of a replay: the circuit is reset, the statements are committed if the session is its
own, and a job is made. -/
def finish (endpoint event : UUID) (own : Bool) : Relay Bool := do
  resetCircuit endpoint
  commitOwn own
  enqueueJob event

/-- What the end of a replay leaves. -/
structure Finishes (b : Bench) (endpoint event : UUID) (ws : List Write) (b' : Bench) : Prop where
  wal : b'.world.wal = b.world.wal ++ ws
  jobs : b'.world.jobs = Function.update b.world.jobs event ⟨some .queued, none⟩
  posts : b'.world.posts = b.world.posts
  redis : b'.redis = (b.redis.execute (CircuitBreaker.clearing endpoint.str)).2
  ids : b'.ids = b.ids
  goes : b.Goes b'

theorem drive_finish (endpoint : UUID) {event : UUID} (own : Bool)
    (h : b.world.jobs event = ⟨none, none⟩) : ∃ b' : Bench,
      b.Finishes endpoint event (if own then s.pending else []) b' ∧
      (finish endpoint event own).drive (handler o) (b, s) =
        (.ok true, b', { s with pending := if own then [] else s.pending }) := by
  let b₁ : Bench := { b.tick with
    redis := (b.redis.execute (CircuitBreaker.clearing endpoint.str)).2 }
  have hreset : b.Goes b₁ := ⟨(goes_tick b).now, (goes_tick b).pauses⟩
  unfold finish
  rw [Prog.drive_bind_ok _ (drive_resetCircuit endpoint)]
  cases own with
  | false =>
    have hmade := (hreset.trans (goes_tick b₁))
    exact ⟨{ b₁.tick with world := { b₁.tick.world with
        jobs := Function.update b.world.jobs event ⟨some .queued, none⟩ } },
      ⟨(List.append_nil _).symm, rfl, rfl, rfl, rfl, ⟨hmade.now, hmade.pauses⟩⟩,
      drive_enqueueJob h⟩
  | true =>
    let b₂ : Bench := { b₁.tick with
      world := { b₁.tick.world with wal := b.world.wal ++ s.pending } }
    have hcommit : (commitOwn true).drive (handler o) (b₁, s) =
        (.ok (), b₂, { s with pending := [] }) := drive_commit
    have hwait := hreset.trans (goes_tick b₁)
    have hcommitted : b.Goes b₂ := ⟨hwait.now, hwait.pauses⟩
    have hmade := hcommitted.trans (goes_tick b₂)
    refine ⟨{ b₂.tick with world := { b₂.tick.world with
        jobs := Function.update b.world.jobs event ⟨some .queued, none⟩ } },
      ⟨rfl, rfl, rfl, rfl, rfl, ⟨hmade.now, hmade.pauses⟩⟩, ?_⟩
    rw [Prog.drive_bind_ok _ hcommit]
    exact drive_enqueueJob h

/-- What follows the check of an entry. -/
def rest (entry : DeadLetterEvent) (own : Bool) : Relay ReplayResult := do
  let newEvent ← EventRepository.create (replayEvent entry)
  let entry' ← markReplayed entry
  let _ ← finish entry'.endpointId newEvent.id own
  pure ⟨entry.id, newEvent.id, true⟩

/-- The next event can be inserted. -/
theorem Ready.violation {e : DeadLetterEvent} {es : List DeadLetterEvent} {id : UUID}
    (h : b.Ready s (e :: es)) (hid : id ∈ b.ids) (t : Datetime) :
    (Op.insertEvent (replayEvent e id t)).violation (b.world.view s) = none := by
  have hstorable := storable_replayEvent (h.storable e List.mem_cons_self) id t
  have hevent : (b.world.view s).holds (.event id) = false := by
    change ((b.world.view s).events.get? id).isSome = false
    rw [h.unused id hid]
    rfl
  have hendpoint : (b.world.view s).holds (.endpoint e.endpointId) = true :=
    h.endpoint e List.mem_cons_self
  change (if !(replayEvent e id t).storable then some PyExn.dataError
    else if (b.world.view s).holds (.event id) || false ||
      !(b.world.view s).holds (.endpoint e.endpointId) then some .integrityError else none) = none
  rw [hstorable, hevent, hendpoint]
  rfl

/-- What a session reads after some more statements, committed or not. -/
theorem view_append {w w' : World} {s s' : Session} {ws : List Write}
    (h : w'.wal ++ s'.pending = w.wal ++ s.pending ++ ws) :
    w'.view s' = (w.view s).applyAll ws := by
  unfold World.view World.db
  rw [← Db.applyAll_append, h, Db.applyAll_append, Db.applyAll_append]

/-- The statements a replay commits by itself. -/
def ownWrites (own : Bool) (s : Session) (m : Mark) : List Write :=
  if own then s.pending ++ m.writes else []

/-- An entry that its check has let pass is replayed. -/
theorem drive_rest {e : DeadLetterEvent} {es : List DeadLetterEvent}
    (h : b.Ready s (e :: es)) (own : Bool) : ∃ m b' s', m.entry = e ∧
      b.Marks (ownWrites own s m) [m] b' ∧
      s'.pending = (if own then [] else s.pending ++ m.writes) ∧
      (∀ db, ∀ k ≠ e.id, s'.get? db k = s.get? db k) ∧
      (rest e own).drive (handler o) (b, s) = (.ok ⟨e.id, m.event.id, true⟩, b', s') := by
  obtain ⟨id, ids, hids⟩ : ∃ id ids, b.ids = id :: ids := by
    cases hids : b.ids with
    | nil =>
      have henough := h.enough
      rw [hids] at henough
      exact absurd henough (by simp)
    | cons id ids => exact ⟨id, ids, rfl⟩
  have hid : id ∈ b.ids := hids ▸ List.mem_cons_self
  obtain ⟨t, ht, b₁, hcreated, hcreate⟩ := drive_create (o := o) hids (h.violation hid)
  let event := replayEvent e id t
  let s₁ : Session := { s with pending := s.pending ++ [.insertEvent event] }
  have hgoes₁ : b.Goes b₁ := ⟨hcreated.goes.now, hcreated.goes.pauses⟩
  have hwal₁ : b₁.world.wal = b.world.wal := hcreated.wal.trans (List.append_nil _)
  have hrow : ((b₁.world.view s₁).deadLetters.get? e.id).isSome = true := by
    have hview : b₁.world.view s₁ = (b.world.view s).applyAll [.insertEvent event] :=
      view_append (by rw [hwal₁]; exact (List.append_assoc _ _ _).symm)
    rw [hview]
    exact h.row e List.mem_cons_self
  obtain ⟨time, htime, b₂, hmarked, hmark⟩ := drive_markReplayed (o := o) hrow
  let m : Mark := ⟨e, event, time⟩
  let s₂ : Session := { (s₁.load (replayed e time)) with
    pending := s₁.pending ++ [.updateDeadLetter e.id (.diff e (replayed e time))] }
  have hpending : s₂.pending = s.pending ++ m.writes := List.append_assoc _ _ _
  have hjob : b₂.world.jobs event.id = ⟨none, none⟩ := by
    rw [hmarked.jobs, List.foldl_nil, hcreated.jobs, List.foldl_nil]
    exact h.jobless id hid
  obtain ⟨b₃, hfinished, hfinish⟩ := drive_finish (o := o) (s := s₂) e.endpointId own hjob
  have hmarks : b.Marks (ownWrites own s m) [m] b₃ := {
    wal := by
      unfold ownWrites
      rw [hfinished.wal, hmarked.wal, hwal₁, List.append_nil, hpending]
    jobs := by
      rw [hfinished.jobs, hmarked.jobs, hcreated.jobs]
      rfl
    posts := by rw [hfinished.posts, hmarked.posts, hcreated.posts]
    redis := by
      rw [hfinished.redis, hmarked.redis, hcreated.redis]
      rfl
    ids := by
      have hids₂ : ids = b₂.ids := hcreated.ids.trans hmarked.ids
      rw [hfinished.ids, hids, hids₂]
      rfl
    goes := (hgoes₁.trans hmarked.goes).trans hfinished.goes
    made := by
      intro m' hm'
      rw [List.mem_singleton.mp hm']
      exact ⟨hgoes₁.times htime, t, ht, rfl⟩ }
  refine ⟨m, b₃, { s₂ with pending := if own then [] else s₂.pending }, rfl, hmarks, ?_, ?_, ?_⟩
  · rw [hpending]
  · exact fun db k hk =>
      (Session.get?_load s₁ (replayed e time) db k).trans (if_neg (Ne.symm hk))
  · unfold rest
    rw [Prog.drive_bind_ok _ hcreate, Prog.drive_bind_ok _ hmark]
    exact Prog.drive_bind_ok _ hfinish _

/-! ### The check -/

/-- The exception of an entry that was replayed too recently. -/
def recent : PyExn := .recentlyReplayed
  (Str.lit "Event was replayed less than 1 hour ago. Use force=True to override.")

/-- What the check of an entry comes to at a given time. -/
def checkAt (force : Bool) (t : Datetime) (entry : DeadLetterEvent) : Except PyExn Unit :=
  if 0 < entry.replayCount ∧ !force then
    match entry.replayedAt with
    | none => .ok ()
    | some replayedAt =>
      match t.addSeconds (.finite (-3600)) with
      | .ok hourAgo => if hourAgo < replayedAt then .error recent else .ok ()
      | .error x => .error (.ofNum x)
  else .ok ()

theorem drive_checkRecent (force : Bool) (entry : DeadLetterEvent) :
    ∃ t ∈ b.times, ∃ b' : Bench, b.Marks [] [] b' ∧
      (checkRecent entry force).drive (handler o) (b, s) = (checkAt force t entry, b', s) := by
  unfold checkRecent checkAt
  split_ifs with hcount
  · cases entry.replayedAt with
    | none => exact ⟨b.world.now, (Goes.refl b).now, b, .refl b, rfl⟩
    | some replayedAt =>
      refine ⟨b.tick.world.now, (goes_tick b).now, b.tick, marks_tick b, ?_⟩
      dsimp only
      unfold nowPlusSeconds
      rw [bind_assoc, Prog.drive_bind_ok _ drive_now]
      cases b.tick.world.now.addSeconds (.finite (-3600)) with
      | error x => rfl
      | ok hourAgo =>
        change Prog.drive _ (if hourAgo < replayedAt then _ else _) _ = _
        dsimp only
        split_ifs <;> rfl
  · exact ⟨b.world.now, (Goes.refl b).now, b, .refl b, rfl⟩

/-! ### A single replay -/

section single

variable {b' : Bench} {s' : Session} {e : DeadLetterEvent} {es : List DeadLetterEvent}
  {force : Bool}

/-- Entries stay ready while time passes. -/
theorem Ready.wait (h : b.Ready s es) (hmarks : b.Marks [] [] b')
    (hpending : s'.pending = s.pending)
    (hfound : ∀ e ∈ es, s'.get? (b.world.view s) e.id = some e) : b'.Ready s' es := by
  have hview : b'.world.view s' = b.world.view s := by
    unfold World.view World.db
    rw [hpending, hmarks.wal, List.append_nil]
  have hids : b.ids = b'.ids := hmarks.ids
  exact {
    found := hview ▸ hfound
    row := hview ▸ h.row
    endpoint := hview ▸ h.endpoint
    storable := h.storable
    nodup := h.nodup
    nodupIds := hids ▸ h.nodupIds
    unused := hview ▸ hids ▸ h.unused
    jobless := by
      rw [hmarks.jobs, ← hids]
      exact h.jobless
    enough := hids ▸ h.enough }

/-- The other entries are ready, too. -/
theorem Ready.tail (h : b.Ready s (e :: es)) : b.Ready s es where
  found x hx := h.found x (List.mem_cons_of_mem _ hx)
  row x hx := h.row x (List.mem_cons_of_mem _ hx)
  endpoint x hx := h.endpoint x (List.mem_cons_of_mem _ hx)
  storable x hx := h.storable x (List.mem_cons_of_mem _ hx)
  nodup := (List.nodup_cons.mp h.nodup).2
  nodupIds := h.nodupIds
  unused := h.unused
  jobless := h.jobless
  enough := (Nat.le_succ _).trans h.enough

/-- The other entries have other identifiers. -/
theorem Ready.id_ne (h : b.Ready s (e :: es)) {x : DeadLetterEvent} (hx : x ∈ es) : x.id ≠ e.id :=
  fun he => (List.nodup_cons.mp h.nodup).1 (List.mem_map.mpr ⟨x, hx, he⟩)

/-- After the replay of an entry the others are ready. -/
theorem Ready.next (h : b.Ready s (e :: es)) {ws : List Write} {m : Mark} (hentry : m.entry = e)
    (hmarks : b.Marks ws [m] b')
    (hlog : b'.world.wal ++ s'.pending = b.world.wal ++ s.pending ++ m.writes)
    (hkept : ∀ db, ∀ k ≠ e.id, s'.get? db k = s.get? db k) : b'.Ready s' es := by
  have hview : b'.world.view s' = (b.world.view s).applyAll m.writes := view_append hlog
  have hids : b.ids = m.event.id :: b'.ids := hmarks.ids
  have hnodup := h.nodupIds
  rw [hids, List.nodup_cons] at hnodup
  have hrow {x : DeadLetterEvent} (hx : x ∈ es) : (b'.world.view s').deadLetters.get? x.id =
      (b.world.view s).deadLetters.get? x.id := by
    rw [hview, deadLetters_mark, hentry, if_neg (h.id_ne hx)]
  have hmem {id : UUID} (hid : id ∈ b'.ids) : id ∈ b.ids := hids ▸ List.mem_cons_of_mem _ hid
  have hne {id : UUID} (hid : id ∈ b'.ids) : m.event.id ≠ id := fun he => hnodup.1 (he ▸ hid)
  exact {
    found := by
      intro x hx
      have hfound := h.found x (List.mem_cons_of_mem _ hx)
      rw [hkept _ _ (h.id_ne hx)]
      unfold Session.get? at hfound ⊢
      rw [hrow hx]
      exact hfound
    row := by
      intro x hx
      rw [hrow hx]
      exact h.row x (List.mem_cons_of_mem _ hx)
    endpoint := by
      intro x hx
      rw [hview]
      exact h.endpoint x (List.mem_cons_of_mem _ hx)
    storable := fun x hx => h.storable x (List.mem_cons_of_mem _ hx)
    nodup := (List.nodup_cons.mp h.nodup).2
    nodupIds := hnodup.2
    unused := by
      intro id hid
      have hnew : (b.world.view s).events.get? m.event.id = none :=
        h.unused _ (hids ▸ List.mem_cons_self)
      rw [hview]
      change ((b.world.view s).events.insert m.event).get? id = none
      rw [Table.get?_insert hnew, if_neg (hne hid)]
      exact h.unused id (hmem hid)
    jobless := by
      intro id hid
      rw [hmarks.jobs, List.foldl_cons, List.foldl_nil, Function.update_of_ne (hne hid).symm]
      exact h.jobless id (hmem hid)
    enough := by
      have henough := h.enough
      rw [hids, List.length_cons, List.length_cons] at henough
      omega }

/-- A single replay reads its entry, checks it, and goes on. -/
theorem drive_replaySingle (force : Bool) (h : b.Ready s (e :: es)) (own : Bool) :
    ∃ t ∈ b.times, ∃ b₁ s₁, b.Marks [] [] b₁ ∧ b₁.Ready s₁ (e :: es) ∧ s₁.pending = s.pending ∧
      (∀ db, ∀ k ≠ e.id, s₁.get? db k = s.get? db k) ∧
      (replaySingle e.id force own).drive (handler o) (b, s) =
        match checkAt force t e with
        | .ok () => (rest e own).drive (handler o) (b₁, s₁)
        | .error x => (.error x, b₁, s₁) := by
  obtain ⟨s₁, hpending, hfound, hkept, hget⟩ :=
    drive_getById (o := o) (h.found e List.mem_cons_self)
  obtain ⟨t, ht, b₁, hmarks, hcheck⟩ :=
    drive_checkRecent (o := o) (b := b.tick) (s := s₁) force e
  have hwaits : b.Marks [] [] b₁ := (marks_tick b).append hmarks
  have hready : b₁.Ready s₁ (e :: es) := by
    refine h.wait hwaits hpending fun x hx => ?_
    rcases List.mem_cons.mp hx with rfl | hin
    · exact hfound
    · rw [hkept _ _ (h.id_ne hin)]
      exact h.found x hx
  refine ⟨t, (goes_tick b).times ht, b₁, s₁, hwaits, hready, hpending, hkept, ?_⟩
  have hrest : (do
      let newEvent ← EventRepository.create (replayEvent e)
      let entry' ← markReplayed e
      resetCircuit entry'.endpointId
      commitOwn own
      let _ ← enqueueJob newEvent.id
      pure ⟨e.id, newEvent.id, true⟩) = rest e own := by
    unfold rest finish
    simp only [bind_assoc]
  unfold replaySingle
  rw [Prog.drive_bind_ok _ hget]
  dsimp only
  rw [hrest, Prog.drive_bind, hcheck]
  cases checkAt force t e <;> rfl

/-- The replay of an entry that its check lets pass at any time. -/
theorem drive_replaySingle_ok (h : b.Ready s (e :: es)) (own : Bool)
    (hcheck : ∀ t ∈ b.times, checkAt force t e = .ok ()) : ∃ m b' s', m.entry = e ∧
      b.Marks (ownWrites own s m) [m] b' ∧
      s'.pending = (if own then [] else s.pending ++ m.writes) ∧
      (∀ db, ∀ k ≠ e.id, s'.get? db k = s.get? db k) ∧
      (replaySingle e.id force own).drive (handler o) (b, s) =
        (.ok ⟨e.id, m.event.id, true⟩, b', s') := by
  obtain ⟨t, ht, b₁, s₁, hwaits, hready, hpending, hkept, hdrive⟩ :=
    drive_replaySingle (o := o) force h own
  obtain ⟨m, b', s', hentry, hmarks, hpending', hkept', hrest⟩ := drive_rest (o := o) hready own
  refine ⟨m, b', s', hentry, ?_, ?_, ?_, ?_⟩
  · have hall := hwaits.append hmarks
    unfold ownWrites at hall ⊢
    rw [hpending] at hall
    exact hall
  · rw [hpending', hpending]
  · exact fun db k hk => (hkept' db k hk).trans (hkept db k hk)
  · rw [hdrive, hcheck t ht]
    exact hrest

/-- The replay of an entry that its check refuses at any time. -/
theorem drive_replaySingle_recent (h : b.Ready s (e :: es)) (own : Bool)
    (hcheck : ∀ t ∈ b.times, checkAt force t e = .error recent) : ∃ b' s', b.Marks [] [] b' ∧
      b'.Ready s' es ∧ s'.pending = s.pending ∧
      (replaySingle e.id force own).drive (handler o) (b, s) = (.error recent, b', s') := by
  obtain ⟨t, ht, b₁, s₁, hwaits, hready, hpending, hkept, hdrive⟩ :=
    drive_replaySingle (o := o) force h own
  refine ⟨b₁, s₁, hwaits, hready.tail, hpending, ?_⟩
  rw [hdrive, hcheck t ht]

end single

/-! ### The loop of a bulk replay -/

/-- The answer to the replay of an entry. -/
def result (m : Mark) : ReplayResult := ⟨m.entry.id, m.event.id, true⟩

/-- The check decides about each entry, whatever the time: it lets the ones that are due pass. -/
def Decides (b : Bench) (force : Bool) (due : DeadLetterEvent → Bool)
    (entries : List DeadLetterEvent) : Prop :=
  ∀ e ∈ entries, ∀ t ∈ b.times, checkAt force t e = if due e then .ok () else .error recent

theorem Decides.tail {b' : Bench} {force : Bool} {due : DeadLetterEvent → Bool}
    {e : DeadLetterEvent} {es : List DeadLetterEvent} (h : b.Decides force due (e :: es))
    (hgoes : b.Goes b') : b'.Decides force due es :=
  fun x hx t ht => h x (List.mem_cons_of_mem _ hx) t (hgoes.times ht)

/-- **The loop of a bulk replay**: the due entries are marked one after another, and each of the
others is an error that is counted. -/
theorem drive_replayEach {force : Bool} {due : DeadLetterEvent → Bool}
    {entries : List DeadLetterEvent} :
    ∀ {b : Bench} {s : Session} (_ : b.Ready s entries) (_ : b.Decides force due entries)
      (results : List ReplayResult) (errors : ℕ), ∃ ms b' s', ms.map Mark.entry =
        entries.filter due ∧ b.Marks [] ms b' ∧
        s'.pending = s.pending ++ ms.flatMap Mark.writes ∧
        (replayEach force entries results errors).drive (handler o) (b, s) =
          (.ok (results ++ ms.map result, errors + entries.countP fun e => !due e), b', s') := by
  induction entries with
  | nil =>
    intro b s _ _ results errors
    refine ⟨[], b, s, rfl, .refl b, (List.append_nil _).symm, ?_⟩
    rw [List.map_nil, List.append_nil]
    rfl
  | cons e es ih =>
    intro b s hready hdecides results errors
    have hcheck := hdecides e List.mem_cons_self
    unfold replayEach
    cases hdue : due e with
    | true =>
      rw [hdue] at hcheck
      obtain ⟨m, b₁, s₁, hentry, hmarks, hpending, hkept, hsingle⟩ :=
        drive_replaySingle_ok (o := o) hready false hcheck
      have hlog : b₁.world.wal ++ s₁.pending = b.world.wal ++ s.pending ++ m.writes := by
        have hwal : b₁.world.wal = b.world.wal := hmarks.wal.trans (List.append_nil _)
        have hleft : s₁.pending = s.pending ++ m.writes := hpending
        rw [hwal, hleft, List.append_assoc]
      obtain ⟨ms, b', s', hentries, hrest, hpending', hloop⟩ :=
        ih (hready.next hentry hmarks hlog hkept) (hdecides.tail hmarks.goes)
          (results ++ [⟨e.id, m.event.id, true⟩]) errors
      refine ⟨m :: ms, b', s', ?_, hmarks.append hrest, ?_, ?_⟩
      · rw [List.map_cons, hentries, hentry, List.filter_cons_of_pos hdue]
      · rw [hpending', hpending, List.flatMap_cons]
        exact List.append_assoc _ _ _
      · have hattempt : (replaySingle e.id force false).attempt.drive (handler o) (b, s) =
            (.ok (.ok ⟨e.id, m.event.id, true⟩), b₁, s₁) := by
          rw [Prog.drive_attempt, hsingle]
        rw [Prog.drive_bind_ok _ hattempt, List.countP_cons_of_neg (by rw [hdue]; decide)]
        dsimp only
        rw [hloop, List.append_assoc, ← hentry]
        rfl
    | false =>
      rw [hdue] at hcheck
      obtain ⟨b₁, s₁, hwaits, hready₁, hpending, hsingle⟩ :=
        drive_replaySingle_recent (o := o) hready false hcheck
      obtain ⟨ms, b', s', hentries, hrest, hpending', hloop⟩ :=
        ih hready₁ (hdecides.tail hwaits.goes) results (errors + 1)
      refine ⟨ms, b', s', ?_, hwaits.append hrest, ?_, ?_⟩
      · rw [hentries, List.filter_cons_of_neg (by rw [hdue]; decide)]
      · rw [hpending', hpending]
      · have hattempt : (replaySingle e.id force false).attempt.drive (handler o) (b, s) =
            (.ok (.error recent), b₁, s₁) := by
          rw [Prog.drive_attempt, hsingle]
        rw [Prog.drive_bind_ok _ hattempt, List.countP_cons_of_pos (by rw [hdue]; rfl)]
        change Prog.drive _ (replayEach force es results (errors + 1)) _ = _
        rw [hloop, Nat.add_assoc, Nat.add_comm 1]

/-! ### A bulk replay -/

/-- Run a coroutine in a session of its own. -/
def run {α : Type} (o : Oracle) (p : Relay α) (b : Bench) : Except PyExn α × Bench :=
  let x := p.drive (handler o) (b, .fresh)
  (x.1, x.2.1)

/-- There are new identifiers for a number of events. -/
structure Supplied (b : Bench) (n : ℕ) : Prop where
  nodup : b.ids.Nodup
  unused : ∀ id ∈ b.ids, b.world.db.events.get? id = none
  jobless : ∀ id ∈ b.ids, b.world.jobs id = ⟨none, none⟩
  enough : n ≤ b.ids.length

end Bench

/-- The columns of the entries hold values that PostgreSQL takes, and the identifiers of endpoints
that are there. -/
structure Db.Stocked (db : Db) : Prop where
  storable : ∀ r ∈ db.deadLetters.rows, r.storable = true
  endpoint : ∀ r ∈ db.deadLetters.rows, (db.endpoints.get? r.endpointId).isSome = true

section stock

variable {deps : Deps} {ok : Config → Action → Prop} {c c' : Config} {a : Action}

/-- The endpoint of a snapshot is there. -/
theorem Snapshot.endpoint_there {w : World} {ev : WebhookEvent} {ep : WebhookEndpoint}
    (h : Snapshot w ev ep) : (w.db.endpoints.get? ep.id).isSome = true := by
  obtain ⟨ws, ⟨ws', hlog⟩, ep', hep', -⟩ := h.everHad
  rw [World.db, ← hlog, Db.applyAll_append]
  exact holds_endpoint (Option.isSome_of_eq_some hep') ws'

/-- The endpoint of every entry that was ever created is there. -/
def EntriesHaveEndpoints (c : Config) : Prop :=
  ∀ id, ∀ d ∈ deadLettersOf c.world.wal id,
    (c.world.db.endpoints.get? d.endpointId).isSome = true

theorem EntriesHaveEndpoints.step (h : EntriesHaveEndpoints c) (hsound : Sound c)
    (hc : Commits c c' a) : EntriesHaveEndpoints c' := by
  intro id d hd
  obtain ⟨ws, hw⟩ := hc.log
  rw [World.db_of_wal hw]
  refine holds_endpoint ?_ ws
  cases hc with
  | nothing hw => exact h id d (hw ▸ hd)
  | benign ws hws hw =>
    rw [hw, deadLettersOf_append, deadLettersOf_benign hws, List.append_nil] at hd
    exact h id d hd
  | exit t ev ep x ht hcom hterm hx hw =>
    rw [hw, deadLettersOf_exit hx] at hd
    rcases List.mem_append.mp hd with hd | hd
    · exact h id d hd
    · split_ifs at hd
      · obtain ⟨th, id', k, hth, ho, hp, hph⟩ := committing?_eq_some.mp hcom
        obtain ⟨-, hsnap⟩ := hsound.snapshots th (List.mem_of_getElem? hth) ev ep _
          ⟨by rw [ho]; rfl, by rw [hp]; rfl, hph⟩
        rw [(hx.records (Option.mem_toList.mp hd)).endpointId]
        exact hsnap.endpoint_there
      · exact absurd hd List.not_mem_nil

/-- The statement that creates an entry. -/
theorem eq_insert_of_entryOf {w : Write} {id : UUID} {d : DeadLetterEvent}
    (h : w.entryOf id = some d) : w = .insertDeadLetter d := by
  cases w with
  | insertDeadLetter d' =>
    unfold Write.entryOf at h
    dsimp only at h
    split_ifs at h
    rw [Option.some.inj h]
  | _ => cases h

/-- PostgreSQL takes the values of an entry that is inserted. -/
theorem storable_of_insertDeadLetter {e : Op} {db : Db} (hv : e.violation db = none)
    {d : DeadLetterEvent} (hd : .insertDeadLetter d ∈ e.writes) : d.storable = true := by
  cases Op.emits_of_mem hd
  unfold Op.violation at hv
  dsimp only at hv
  split_ifs at hv with hs
  simpa using hs

/-- **The queue of every reachable state is stocked.** -/
theorem Reaches.stocked (h : Reaches deps ok c) : c.world.db.Stocked := by
  have hwritten := (h.written (A := fun w => ∀ d, w = .insertDeadLetter d → d.storable = true)
    fun e db hv w hw d hd => storable_of_insertDeadLetter hv (hd ▸ hw)).1
  have hendpoints : EntriesHaveEndpoints c :=
    h.invariant (fun _ _ d hd => absurd hd List.not_mem_nil) fun c a c' hr hc _ hs =>
      hc.step hr.sound (hr.commits hs)
  refine ⟨fun r hr => ?_, fun r hr => ?_⟩
  · obtain ⟨d, hd, hkeeps⟩ := deadLetters_created _ hr
    obtain ⟨w, hw, hentry⟩ := List.mem_filterMap.mp hd
    rw [hkeeps]
    exact hwritten w hw d (eq_insert_of_entryOf hentry)
  · obtain ⟨d, hd, hkeeps⟩ := deadLetters_created _ hr
    rw [hkeeps]
    exact hendpoints _ d hd

end stock

/-- The entries a bulk replay selects. -/
def Db.unreplayed (db : Db) (endpointId : Option UUID) (eventType : Option Str) :
    List DeadLetterEvent := db.selectDeadLetters endpointId eventType 1000

/-- Entries that were loaded are answered from then on. -/
theorem get?_foldl_load {rows : List DeadLetterEvent}
    (hnodup : (rows.map DeadLetterEvent.id).Nodup) (db : Db) :
    ∀ s : Session, (∀ e ∈ rows, (rows.foldl Session.load s).get? db e.id = some e) ∧
      ∀ k ∉ rows.map DeadLetterEvent.id,
        (rows.foldl Session.load s).get? db k = s.get? db k := by
  induction rows with
  | nil => exact fun s => ⟨fun e he => absurd he List.not_mem_nil, fun _ _ => rfl⟩
  | cons r rows ih =>
    intro s
    rw [List.map_cons, List.nodup_cons] at hnodup
    obtain ⟨hloaded, hkept⟩ := ih hnodup.2 (s.load r)
    refine ⟨fun e he => ?_, fun k hk => ?_⟩
    · rcases List.mem_cons.mp he with rfl | he
      · exact (hkept _ hnodup.1).trans ((s.get?_load e db e.id).trans (if_pos rfl))
      · exact hloaded e he
    · rw [List.map_cons, List.mem_cons, not_or] at hk
      exact (hkept k hk.2).trans ((s.get?_load r db k).trans (if_neg (Ne.symm hk.1)))

namespace Bench

section bulk

variable {o : Oracle} {b b' : Bench} {s : Session} {endpointId : Option UUID}
  {eventType : Option Str}

/-- The selected entries are ready for a session that reads them. -/
theorem ready_unreplayed (hstocked : b.world.db.Stocked)
    (hsupplied : b.Supplied (b.world.db.unreplayed endpointId eventType).length)
    (hpending : s.pending = [])
    (hfound : ∀ e ∈ b.world.db.unreplayed endpointId eventType,
      s.get? b.world.db e.id = some e) :
    b.Ready s (b.world.db.unreplayed endpointId eventType) := by
  have hview : b.world.view s = b.world.db := view_of_pending hpending
  exact {
    found := hview ▸ hfound
    row := by
      intro e he
      rw [hview, Table.get?_of_mem (mem_selectDeadLetters he)]
      rfl
    endpoint := fun e he => hview ▸ hstocked.endpoint e (mem_selectDeadLetters he)
    storable := fun e he => hstocked.storable e (mem_selectDeadLetters he)
    nodup := nodup_selectDeadLetters _ _ _ _
    nodupIds := hsupplied.nodup
    unused := hview ▸ hsupplied.unused
    jobless := hsupplied.jobless
    enough := hsupplied.enough }

/-- The selection of a bulk replay, in a session of its own. -/
theorem drive_getUnreplayedByFilter (hnul : eventType.any Str.hasNul = false) :
    (getUnreplayedByFilter endpointId eventType).drive (handler o) (b, .fresh) =
      (.ok (b.world.db.unreplayed endpointId eventType), b.tick,
        (b.world.db.unreplayed endpointId eventType).foldl Session.load .fresh) := by
  have hobject (rows : List DeadLetterEvent) : rows.map Session.fresh.object = rows :=
    List.map_id rows
  have hviolation (db : Db) :
      (Op.selectDeadLetters endpointId eventType 1000).violation db = none :=
    if_neg (by rw [hnul]; exact Bool.false_ne_true)
  refine drive_await rfl ?_
  change flushed _ (List.map _ (b.world.db.unreplayed endpointId eventType)) _
    (List.foldl _ _ (List.map _ (b.world.db.unreplayed endpointId eventType))) = _
  rw [hobject, flushed_of_none (hviolation _)]
  change (_, _, ({ pending := _ ++ [], loaded := _ } : Session)) = _
  rw [List.append_nil]
  rfl

/-- **A bulk replay**: the entries that are due are marked in one transaction. -/
theorem run_replayBulk {force : Bool} {due : DeadLetterEvent → Bool}
    (hstocked : b.world.db.Stocked)
    (hsupplied : b.Supplied (b.world.db.unreplayed endpointId eventType).length)
    (hnul : eventType.any Str.hasNul = false)
    (hdecides : b.Decides force due (b.world.db.unreplayed endpointId eventType)) :
    ∃ ms b', ms.map Mark.entry = (b.world.db.unreplayed endpointId eventType).filter due ∧
      b.Marks (ms.flatMap Mark.writes) ms b' ∧
      run o (replayBulk endpointId eventType force) b =
        (.ok ⟨ms.length, (b.world.db.unreplayed endpointId eventType).countP fun e => !due e,
          ms.map result⟩, b') := by
  let rows := b.world.db.unreplayed endpointId eventType
  let s₁ : Session := rows.foldl Session.load .fresh
  have hpending₁ : s₁.pending = [] := pending_foldl_load rows .fresh
  have hloaded := (get?_foldl_load (nodup_selectDeadLetters b.world.db endpointId eventType 1000)
    b.world.db .fresh).1
  have hready : b.Ready s₁ rows := ready_unreplayed hstocked hsupplied hpending₁ hloaded
  have hview : b.world.view s₁ = b.world.db := view_of_pending hpending₁
  have hready' : b.tick.Ready s₁ rows :=
    hready.wait (marks_tick b) rfl fun e he => hready.found e he
  obtain ⟨ms, b₂, s₂, hentries, hmarks, hpending₂, hloop⟩ := drive_replayEach (o := o) hready'
    (fun e he t ht => hdecides e he t ((goes_tick b).times ht)) [] 0
  let b₃ : Bench := { b₂.tick with
    world := { b₂.tick.world with wal := b₂.world.wal ++ s₂.pending } }
  have hwhole : b.Marks [] ms b₂ := (marks_tick b).append hmarks
  refine ⟨ms, b₃, hentries, ?_, ?_⟩
  · have htick : b.Marks [] ms b₂.tick := by
      have hafter := hwhole.append (marks_tick b₂)
      rwa [List.append_nil ms] at hafter
    have hwal : b₃.world.wal = b.world.wal ++ ms.flatMap Mark.writes := by
      change b₂.world.wal ++ s₂.pending = _
      rw [hwhole.wal, hpending₂, hpending₁, List.append_nil, List.nil_append]
    exact ⟨hwal, htick.jobs, htick.posts, htick.redis, htick.ids,
      ⟨htick.goes.now, htick.goes.pauses⟩, htick.made⟩
  · unfold run replayBulk
    rw [Prog.drive_bind_ok _ (drive_getUnreplayedByFilter hnul), Prog.drive_bind_ok _ hloop]
    dsimp only
    rw [Prog.drive_bind_ok _ drive_commit, List.nil_append, Nat.zero_add, List.length_map]
    rfl

end bulk

end Bench

/-! ### A bench to run on -/

namespace Sample

/-- An entry of the event `id 2` of the endpoint `id 1`, dead-lettered an hour before the start. -/
def letter (n replayCount : ℕ) (replayedAt : Option Datetime) : DeadLetterEvent where
  id := id n
  eventId := id 2
  endpointId := id 1
  originalPayload := []
  eventType := Str.lit "order.paid"
  totalAttempts := 1
  lastError := none
  lastHttpStatus := none
  replayedAt := replayedAt
  replayCount := replayCount
  deadLetteredAt := ⟨1699996400000000, by decide, by decide⟩

/-- A bench with an endpoint, an event and some entries, whose clock stands. -/
def bench (entries : List DeadLetterEvent) (ids : List UUID) : Bench where
  world := { world shop order with
    wal := (world shop order).wal ++ entries.map Write.insertDeadLetter }
  redis := ⟨[], 0⟩
  ids := ids
  pauses := []

end Sample

end WebhookRelay

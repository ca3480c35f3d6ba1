import WebhookRelay.Sample
import WebhookRelay.Runs.Rows
import WebhookRelay.Runs.Locks
import WebhookRelay.Ingestion.CreateEvent

/-!
# Idempotent ingestion

Requests that bring the same key look it up, and insert when they have missed it. If no request
looks the key up while another one is on its way from its missed lookup to its commit, exactly
one event with the key is ever committed and every request answers with it, whatever else runs
(`idempotent_ingestion`). Two requests that both miss the key do not: the second INSERT waits for
the first transaction and raises `IntegrityError` (`not_idempotent_of_race`).
-/

namespace WebhookRelay

open Data Effect

/-! ### Requests on their way -/

/-- How far a request with the given content has come. -/
def Coroutine.ingest (data : EventCreate) (th : Coroutine) : Ingest :=
  th.trace.foldl (fun p c => p.next data c.1 c.2) .started

/-- The coroutine brings the key and is between its missed lookup and its commit. -/
def Coroutine.critical (key : Str) (th : Coroutine) : Bool :=
  (th.origin.ingests key).any fun data => (Coroutine.ingest data th).critical

/-- The coroutine is about to look up a key. -/
def Coroutine.looksUp (th : Coroutine) : Bool :=
  match th.prog with
  | .call (.getEventByKey _) _ => true
  | _ => false

/-- The event the coroutine is about to insert. -/
def Coroutine.inserts (th : Coroutine) : Option UUID :=
  match th.prog with
  | .call (.insertEvent r) _ => some r.id
  | _ => none

/-- PostgreSQL takes the content of the request: no NUL in its texts, and in the payload no number
that JSON does not have and no lone surrogate. -/
def EventCreate.storable (data : EventCreate) : Bool :=
  !data.eventType.hasNul && Json.storableItems data.payload &&
    data.idempotencyKey.all fun key => !key.hasNul

/-- The endpoint exists, is active and accepts the event type. -/
def Db.accepts (db : Db) (data : EventCreate) : Bool :=
  (db.endpoints.get? data.endpointId).any fun endpoint => Ingest.takes endpoint data

/-! ### The condition -/

/-- What a request that brings the key meets at its next call: its content can be stored and its
endpoint accepts it, the identifier it has drawn is new, and no request is critical when it looks
the key up. -/
structure Serves (key : Str) (c : Config) (th : Coroutine) (data : EventCreate) : Prop where
  storable : data.storable = true
  accepted : c.world.db.accepts data = true
  new : ∀ id ∈ Coroutine.inserts th, c.world.db.events.get? id = none
  alone : Coroutine.looksUp th = true → ∀ th' ∈ c.threads, Coroutine.critical key th' = false

instance (key : Str) (c : Config) (th : Coroutine) (data : EventCreate) :
    Decidable (Serves key c th data) :=
  decidable_of_iff (data.storable = true ∧ c.world.db.accepts data = true ∧
      (∀ id ∈ Coroutine.inserts th, c.world.db.events.get? id = none) ∧
      (Coroutine.looksUp th = true → ∀ th' ∈ c.threads, Coroutine.critical key th' = false))
    ⟨fun h => ⟨h.1, h.2.1, h.2.2.1, h.2.2.2⟩,
      fun h => ⟨h.storable, h.accepted, h.new, h.alone⟩⟩

/-- The requests that bring the key are not cut off, and each of their calls is served. -/
def Ingests (key : Str) (c : Config) (a : Action) : Prop :=
  (∀ t ∈ a.interrupts, ∀ th ∈ c.threads[t]?, th.origin.ingests key = none) ∧
  ∀ t ∈ a.called, ∀ th ∈ c.threads[t]?, ∀ data ∈ th.origin.ingests key, Serves key c th data

instance (key : Str) (c : Config) (a : Action) : Decidable (Ingests key c a) :=
  inferInstanceAs (Decidable ((∀ t ∈ a.interrupts, ∀ th ∈ c.threads[t]?,
      th.origin.ingests key = none) ∧
    ∀ t ∈ a.called, ∀ th ∈ c.threads[t]?, ∀ data ∈ th.origin.ingests key, Serves key c th data))

/-! ### The invariant of one request -/

/-- What the session and the tables of a request are in each phase. -/
def Ingest.Sound (key : Str) (w : World) (s : Session) : Ingest → Prop
  | .inserted row | .enqueued row => s.pending = [.insertEvent row] ∧
      row.idempotencyKey = some key ∧ w.db.events.get? row.id = none
  | .found row | .finished row => s.pending = [] ∧ w.db.Keyed key row.id
  | .failed => False
  | _ => s.pending = []

/-- A request on its way. -/
structure Ingesting (key : Str) (w : World) (th : Coroutine) (data : EventCreate) : Prop where
  obeys : th.prog.Obeys (ingestContract key data) Ingest.ends (Coroutine.ingest data th)
  sound : (Coroutine.ingest data th).Sound key w th.session
  calls : th.trace.length ≤ (Coroutine.ingest data th).calls

section request

variable {key : Str} {w w' : World} {th : Coroutine} {data : EventCreate}

/-- The phase after an answer. -/
theorem ingest_answered (data : EventCreate) (th : Coroutine) (e : Op) (r : Except PyExn e.Resp)
    (p : Relay Reply) (s : Session) : Coroutine.ingest data (th.answered machine e r p s) =
      (Coroutine.ingest data th).next data e r := by
  unfold Coroutine.ingest Thread.answered
  rw [List.foldl_append]
  rfl

/-- A phase stays sound when the rows with the key stay, and those waiting stay missing. -/
theorem Ingest.Sound.mono {p : Ingest} {s : Session} (h : p.Sound key w s)
    (hkeyed : ∀ id, w.db.Keyed key id → w'.db.Keyed key id)
    (hmissing : ∀ row, .insertEvent row ∈ s.pending → w.db.events.get? row.id = none →
      w'.db.events.get? row.id = none) : p.Sound key w' s := by
  cases p with
  | inserted row => exact ⟨h.1, h.2.1, hmissing row (h.1 ▸ List.mem_cons_self) h.2.2⟩
  | enqueued row => exact ⟨h.1, h.2.1, hmissing row (h.1 ▸ List.mem_cons_self) h.2.2⟩
  | found row => exact ⟨h.1, hkeyed _ h.2⟩
  | finished row => exact ⟨h.1, hkeyed _ h.2⟩
  | _ => exact h

/-- A request that has ended is finished. -/
theorem Ingesting.finished (h : Ingesting key w th data) (hend : th.prog.ended = true) :
    ∃ row, th.prog = .done (.event row) ∧ Coroutine.ingest data th = .finished row := by
  have hobeys := h.obeys
  cases hp : th.prog with
  | call e k =>
    rw [hp] at hend
    cases hend
  | raised x =>
    rw [hp] at hobeys
    have hfailed : Coroutine.ingest data th = .failed := hobeys
    have hsound := h.sound
    rw [hfailed] at hsound
    cases hsound
  | done reply =>
    rw [hp] at hobeys
    obtain ⟨row, rfl, hrow⟩ := hobeys
    exact ⟨row, rfl, hrow⟩

/-- An answer that leaves a sound phase leaves a request on its way. -/
theorem Ingesting.answered {e : Op} {k : Except PyExn e.Resp → Relay Reply}
    {r : Except PyExn e.Resp} {s : Session} (h : Ingesting key w th data)
    (hp : th.prog = .call e k)
    (hsound : ((Coroutine.ingest data th).next data e r).Sound key w' s) :
    Ingesting key w' (th.answered machine e r (k r) s) data := by
  have hobeys := h.obeys
  rw [hp] at hobeys
  have hcalls := Ingest.calls_next hobeys.1 r
  have hnext := hobeys.2 r
  refine ⟨?_, ?_, ?_⟩
  · rw [ingest_answered]
    exact hnext
  · rw [ingest_answered]
    change Ingest.Sound key w' (if (k r).ended then Session.fresh else s) _
    split_ifs with hend
    · -- a request that has ended is finished or has failed
      have hphase : (∃ row, (Coroutine.ingest data th).next data e r = .finished row) ∨
          (Coroutine.ingest data th).next data e r = .failed := by
        generalize k r = q at hnext hend
        cases q with
        | call e' k' => cases hend
        | raised x => exact Or.inr hnext
        | done reply =>
          obtain ⟨row, -, hrow⟩ := hnext
          exact Or.inl ⟨row, hrow⟩
      rcases hphase with ⟨row, hrow⟩ | hfailed
      · rw [hrow] at hsound ⊢
        exact ⟨rfl, hsound.2⟩
      · rw [hfailed] at hsound
        cases hsound
    · exact hsound
  · rw [ingest_answered]
    change (th.trace ++ [_]).length ≤ _
    rw [List.length_append, List.length_singleton]
    exact Nat.lt_of_le_of_lt h.calls hcalls

end request

/-! ### One call of a request -/

/-- What a call of a request does to the tables: nothing, and it is critical only if it was;
nothing, and no row has the key that it has looked up; or it commits its event and is over. -/
inductive Advance (key : Str) (w w' : World) (p p' : Ingest) : Prop
  | quiet (hdb : w'.db = w.db) (h : p'.critical = true → p.critical = true)
  | misses (hdb : w'.db = w.db) (hp : p = .started) (h : ∀ id, ¬ w.db.Keyed key id)
  | commits (row : WebhookEvent) (hp : p = .enqueued row)
    (hdb : w'.db = w.db.applyAll [.insertEvent row]) (h : p'.critical = false)

section advance

variable {key : Str} {c c' : Config} {th : Coroutine} {data : EventCreate}

/-- Inserting a row that was missing. -/
theorem keyed_insertEvent {db : Db} {row : WebhookEvent} (h : db.events.get? row.id = none)
    (id : UUID) : (db.applyAll [.insertEvent row]).Keyed key id ↔
      db.Keyed key id ∨ row.id = id ∧ row.idempotencyKey = some key := by
  change (∃ r ∈ (db.events.insert row).rows, _) ↔ _
  rw [Table.rows_insert h]
  constructor
  · rintro ⟨r, hr, hid, hkey⟩
    rcases List.mem_append.mp hr with hr | hr
    · exact Or.inl ⟨r, hr, hid, hkey⟩
    · rw [List.mem_singleton.mp hr] at hid hkey
      exact Or.inr ⟨hid, hkey⟩
  · rintro (⟨r, hr, hid, hkey⟩ | ⟨hid, hkey⟩)
    · exact ⟨r, List.mem_append_left _ hr, hid, hkey⟩
    · exact ⟨row, List.mem_append_right _ List.mem_cons_self, hid, hkey⟩

/-- The row of a content that can be stored can be stored. -/
theorem storable_newEvent (h : data.storable = true) (id : UUID) (now : Datetime) :
    (Api.newEvent data id now).storable = true := by
  unfold EventCreate.storable at h
  obtain ⟨⟨htype, hpayload⟩, hkey⟩ := by simpa only [Bool.and_eq_true] using h
  have hlength : decide (data.eventType.length ≤ 255) = true := decide_eq_true data.eventType_le
  change (fitsVarchar 255 data.eventType && Json.storableItems data.payload &&
    data.idempotencyKey.all (fitsVarchar 255)) = true
  unfold fitsVarchar
  rw [htype, hlength, hpayload]
  cases hk : data.idempotencyKey with
  | none => rfl
  | some k =>
    rw [hk] at hkey
    have hk' : decide (k.length ≤ 255) = true := decide_eq_true (data.idempotencyKey_le k hk)
    change (!k.hasNul && decide (k.length ≤ 255)) = true
    rw [hk', Bool.and_true]
    exact hkey

/-- The constraints have nothing against the INSERT of a request that is served. -/
theorem violation_insertEvent (h : Serves key c th data) (hdata : data.idempotencyKey = some key)
    {id : UUID} (hnew : c.world.db.events.get? id = none)
    (hempty : ∀ id, ¬ c.world.db.Keyed key id) (now : Datetime) :
    (Op.insertEvent (Api.newEvent data id now)).violation c.world.db = none := by
  have hstorable := storable_newEvent h.storable id now
  have hevent : c.world.db.holds (.event id) = false := by
    change (c.world.db.events.get? id).isSome = false
    rw [hnew]
    rfl
  have hkey : c.world.db.holds (.idempotency key) = false :=
    List.any_eq_false.mpr fun r hr hkey => hempty r.id ⟨r, hr, rfl, of_decide_eq_true hkey⟩
  have hendpoint : c.world.db.holds (.endpoint data.endpointId) = true := by
    obtain ⟨endpoint, hendpoint, -⟩ := (Option.any_eq_true _ _).mp h.accepted
    change (c.world.db.endpoints.get? data.endpointId).isSome = true
    rw [hendpoint]
    rfl
  change (if !(Api.newEvent data id now).storable then some PyExn.dataError
    else if c.world.db.holds (.event id) ||
      data.idempotencyKey.any (fun k => c.world.db.holds (.idempotency k)) ||
      !c.world.db.holds (.endpoint data.endpointId) then some .integrityError else none) = none
  rw [hstorable, hevent, hendpoint, hdata, Option.any_some, hkey]
  rfl

section executed

variable {o : Oracle} (hserves : Serves key c th data) (hdata : data.idempotencyKey = some key)
  (hpend : th.session.pending = [])

include hserves hdata hpend

/-- The lookup of a request that is served is answered. -/
theorem exec_getEventByKey : exec o (.getEventByKey key) c.world th.session =
    (.ok (c.world.db.eventByKey key), c.world, { th.session with pending := [] }) := by
  have hnul : key.hasNul = false := by
    have hstorable := hserves.storable
    unfold EventCreate.storable at hstorable
    rw [hdata] at hstorable
    simpa using (Bool.and_eq_true_iff.mp hstorable).2
  have hviolation : (Op.getEventByKey key).violation (c.world.view th.session) = none :=
    if_neg (by rw [hnul]; decide)
  change flushed _ ((c.world.view th.session).eventByKey key) _ _ = _
  rw [flushed_of_none hviolation, view_of_pending hpend, hpend]
  rfl

/-- The INSERT of a request that is served is answered. -/
theorem exec_insertEvent {id : UUID} (hnew : c.world.db.events.get? id = none)
    (hempty : ∀ id, ¬ c.world.db.Keyed key id) (now : Datetime) :
    exec o (.insertEvent (Api.newEvent data id now)) c.world th.session =
      (.ok (), c.world,
        { th.session with pending := [.insertEvent (Api.newEvent data id now)] }) := by
  have hviolation : (Op.insertEvent (Api.newEvent data id now)).violation
      (c.world.view th.session) = none := by
    rw [view_of_pending hpend]
    exact violation_insertEvent hserves hdata hnew hempty now
  change flushed _ () _ _ = _
  rw [flushed_of_none hviolation, hpend]
  rfl

end executed

/-- **One call of a request that is served**: it goes on, and this is what it does. -/
theorem Ingesting.executed {o : Oracle} {e : Op} {k : Except PyExn e.Resp → Relay Reply}
    (h : Ingesting key c.world th data) (hdata : data.idempotencyKey = some key)
    (hserves : Serves key c th data) (hp : th.prog = .call e k)
    (hempty : (Coroutine.ingest data th).critical = true → ∀ id, ¬ c.world.db.Keyed key id)
    {r : Except PyExn e.Resp} {w : World} {s : Session}
    (hx : exec o e c.world th.session = (r, w, s)) :
    Ingesting key w (th.answered machine e r (k r) s) data ∧
      Advance key c.world w (Coroutine.ingest data th)
        ((Coroutine.ingest data th).next data e r) := by
  have hobeys := h.obeys
  rw [hp] at hobeys
  have hallow : (Coroutine.ingest data th).allows key data e := hobeys.1
  have hsound := h.sound
  -- it is enough to look at the phase after the call
  suffices hphase : ((Coroutine.ingest data th).next data e r).Sound key w s ∧
      Advance key c.world w (Coroutine.ingest data th)
        ((Coroutine.ingest data th).next data e r) from
    ⟨h.answered hp hphase.1, hphase.2⟩
  cases hph : Coroutine.ingest data th with
  | started =>
    rw [hph] at hallow hsound
    obtain rfl : e = .getEventByKey key := hallow
    have hpend : th.session.pending = [] := hsound
    rw [exec_getEventByKey hserves hdata hpend] at hx
    cases hx
    cases hrow : c.world.db.eventByKey key with
    | none =>
      refine ⟨rfl, .misses rfl rfl ?_⟩
      rintro id ⟨r, hr, -, hkey⟩
      exact List.find?_eq_none.mp hrow r hr (decide_eq_true hkey)
    | some row =>
      have hfound : decide (row.idempotencyKey = some key) = true :=
        List.find?_some (p := fun r : WebhookEvent => decide (r.idempotencyKey = some key)) hrow
      exact ⟨⟨rfl, row, List.mem_of_find?_eq_some hrow, rfl, of_decide_eq_true hfound⟩,
        .quiet rfl (by rintro ⟨⟩)⟩
  | missed =>
    rw [hph] at hallow hsound
    obtain rfl : e = .getEndpoint data.endpointId := hallow
    have hpend : th.session.pending = [] := hsound
    cases hx
    obtain ⟨endpoint, hendpoint, htakes⟩ := (Option.any_eq_true _ _).mp hserves.accepted
    have hnext : Ingest.missed.next data (.getEndpoint data.endpointId)
        (.ok ((c.world.view th.session).endpoints.get? data.endpointId)) = .accepted := by
      rw [view_of_pending hpend, hendpoint]
      exact if_pos htakes
    rw [hnext]
    exact ⟨hpend, .quiet rfl fun _ => rfl⟩
  | accepted =>
    rw [hph] at hallow hsound
    obtain rfl : e = .uuid4 := hallow
    cases hx
    exact ⟨hsound, .quiet rfl fun _ => rfl⟩
  | named id =>
    rw [hph] at hallow hsound
    obtain rfl : e = .now := hallow
    cases hx
    exact ⟨hsound, .quiet rfl fun _ => rfl⟩
  | stamped id now =>
    rw [hph] at hallow hsound hempty
    obtain rfl : e = .insertEvent (Api.newEvent data id now) := hallow
    have hpend : th.session.pending = [] := hsound
    have hnew : c.world.db.events.get? id = none := by
      refine hserves.new id ?_
      unfold Coroutine.inserts
      rw [hp]
      rfl
    rw [exec_insertEvent hserves hdata hpend hnew (hempty rfl)] at hx
    cases hx
    exact ⟨⟨rfl, hdata, hnew⟩, .quiet rfl fun _ => rfl⟩
  | inserted row =>
    rw [hph] at hallow hsound
    obtain rfl : e = .enqueueJob row.id := hallow
    rw [exec_enqueueJob] at hx
    split at hx <;> cases hx <;> exact ⟨hsound, .quiet rfl fun _ => rfl⟩
  | enqueued row =>
    rw [hph] at hallow hsound
    obtain rfl : e = .commit := hallow
    cases hx
    obtain ⟨hpend, hkey, hmissing⟩ := hsound
    have hdb : ({ c.world with wal := c.world.wal ++ th.session.pending } : World).db =
        c.world.db.applyAll [.insertEvent row] := by
      rw [World.db, World.db, Db.applyAll_append, hpend]
    refine ⟨⟨rfl, ?_⟩, .commits row rfl hdb rfl⟩
    rw [hdb, keyed_insertEvent hmissing]
    exact Or.inr ⟨rfl, hkey⟩
  | found row =>
    rw [hph] at hallow hsound
    obtain rfl : e = .commit := hallow
    cases hx
    obtain ⟨hpend, hkeyed⟩ := hsound
    have hdb : ({ c.world with wal := c.world.wal ++ th.session.pending } : World).db =
        c.world.db := by
      rw [World.db, World.db, hpend, List.append_nil]
    refine ⟨⟨rfl, ?_⟩, .quiet hdb (by rintro ⟨⟩)⟩
    rw [hdb]
    exact hkeyed
  | finished row =>
    rw [hph] at hallow
    cases hallow
  | failed =>
    rw [hph] at hallow
    cases hallow

end advance

/-! ### The invariant of the system -/

/-- At most one request is critical, and then no row has the key; otherwise at most one row has
it. -/
structure Single (key : Str) (c : Config) : Prop where
  ingesting : ∀ th ∈ c.threads, ∀ data, th.origin.ingests key = some data →
    Ingesting key c.world th data
  apart : Effect.Apart (fun th th' => ¬ (Coroutine.critical key th = true ∧
    Coroutine.critical key th' = true)) c.threads
  empty : ∀ th ∈ c.threads, Coroutine.critical key th = true → ∀ id, ¬ c.world.db.Keyed key id
  unique : ∀ id id', c.world.db.Keyed key id → c.world.db.Keyed key id' → id = id'

section single

variable {deps : Deps} {key : Str} {c c' : Config} {a : Action}

/-- A coroutine that does not bring the key is not critical. -/
theorem not_critical {th : Coroutine} (h : th.origin.ingests key = none) :
    Coroutine.critical key th = false := by
  unfold Coroutine.critical
  rw [h]
  rfl

/-- The content of a request that brings the key. -/
theorem Origin.key_of_ingests {o : Origin} {data : EventCreate} (h : o.ingests key = some data) :
    o = .request (.createEvent data) ∧ data.idempotencyKey = some key := by
  cases o with
  | request r =>
    cases r with
    | createEvent data' =>
      change (if data'.idempotencyKey = some key then some data' else none) = some data at h
      split_ifs at h with hkey
      cases h
      exact ⟨rfl, hkey⟩
    | _ => cases h
  | _ => cases h

/-- A row that waits in one session stays missing when another one commits. -/
theorem missing_of_commit {s s₀ : Session} (h : s.Apart s₀) {db : Db} {row : WebhookEvent}
    (hrow : .insertEvent row ∈ s.pending) (hmissing : db.events.get? row.id = none) :
    (db.applyAll s₀.pending).events.get? row.id = none := by
  by_contra hne
  have hsome : ((db.applyAll s₀.pending).events.get? row.id).isSome = true :=
    Option.isSome_iff_ne_none.mpr hne
  rcases (isSome_events_applyAll _ _ _).mp hsome with hold | ⟨row', hrow', hid⟩
  · rw [hmissing] at hold
    cases hold
  · refine h (.event row.id) (List.mem_flatMap.mpr ⟨_, hrow, List.mem_cons_self⟩)
      (List.mem_flatMap.mpr ⟨_, hrow', ?_⟩)
    rw [← hid]
    exact List.mem_cons_self

/-- A coroutine of a list in which one has been replaced. -/
theorem of_mem_set {l : List Coroutine} {t : ℕ} {th' x : Coroutine} (h : x ∈ l.set t th') :
    x = th' ∨ ∃ u, u ≠ t ∧ l[u]? = some x := by
  obtain ⟨u, hu⟩ := List.mem_iff_getElem?.mp h
  rw [List.getElem?_set] at hu
  split_ifs at hu with hut
  · exact Or.inl (Option.some.inj hu).symm
  · exact Or.inr ⟨u, Ne.symm hut, hu⟩

/-- A request is kept by a step of another coroutine. -/
theorem Ingesting.kept {w : World} {th : Coroutine} {data : EventCreate}
    (h : Ingesting key c.world th data)
    (hkeyed : ∀ id, c.world.db.Keyed key id → w.db.Keyed key id)
    (hwal : w.wal = c.world.wal ∨ ∃ s₀ : Session, th.session.Apart s₀ ∧
      w.wal = c.world.wal ++ s₀.pending) : Ingesting key w th data := by
  refine ⟨h.obeys, h.sound.mono hkeyed fun row hrow hmissing => ?_, h.calls⟩
  rcases hwal with hw | ⟨s₀, hapart, hw⟩
  · rwa [World.db, hw]
  · rw [World.db_of_wal hw]
    exact missing_of_commit hapart hrow hmissing

section replaced

variable (hc : Single key c) {t : ℕ} {th' : Coroutine} {w : World}
  (hothers : ∀ u uh, u ≠ t → c.threads[u]? = some uh → ∀ data,
    uh.origin.ingests key = some data → Ingesting key w uh data)
  (hself : ∀ data, th'.origin.ingests key = some data → Ingesting key w th' data)

include hothers hself in
/-- The requests after a step that replaces one coroutine. -/
theorem ingesting_set : ∀ x ∈ c.threads.set t th', ∀ data, x.origin.ingests key = some data →
    Ingesting key w x data := by
  intro x hx
  rcases of_mem_set hx with rfl | ⟨u, hu, hx⟩
  · exact hself
  · exact hothers u x hu hx

include hc hothers hself

/-- A step that replaces one coroutine and leaves the rows with the key. -/
theorem Single.set (hkeyed : ∀ id, w.db.Keyed key id ↔ c.world.db.Keyed key id)
    (hcritical : Coroutine.critical key th' = true →
      ∃ th, c.threads[t]? = some th ∧ Coroutine.critical key th = true) :
    Single key ⟨w, c.threads.set t th'⟩ where
  ingesting := ingesting_set hothers hself
  apart := by
    refine hc.apart.set (fun _ _ h => fun h' => h h'.symm) fun u y hu hy => ?_
    rintro ⟨hcrit, hy'⟩
    obtain ⟨th, hth, hcrit⟩ := hcritical hcrit
    exact hc.apart t u th y (Ne.symm hu) hth hy ⟨hcrit, hy'⟩
  empty := by
    intro x hx hcrit id
    rw [hkeyed]
    rcases of_mem_set hx with rfl | ⟨u, -, hx⟩
    · obtain ⟨th, hth, hcrit⟩ := hcritical hcrit
      exact hc.empty th (List.mem_of_getElem? hth) hcrit id
    · exact hc.empty x (List.mem_of_getElem? hx) hcrit id
  unique := by
    intro id id' h h'
    exact hc.unique id id' ((hkeyed id).mp h) ((hkeyed id').mp h')

/-- A request that does not find its key, while no other one is critical. -/
theorem Single.missed (hdb : w.db = c.world.db) (hnone : ∀ id, ¬ c.world.db.Keyed key id)
    (hcalm : ∀ u uh, u ≠ t → c.threads[u]? = some uh → Coroutine.critical key uh = false) :
    Single key ⟨w, c.threads.set t th'⟩ where
  ingesting := ingesting_set hothers hself
  apart := by
    refine hc.apart.set (fun _ _ h => fun h' => h h'.symm) fun u y hu hy => ?_
    rw [hcalm u y hu hy]
    exact fun h => nomatch h.2
  empty := by
    intro x _ _ id
    rw [hdb]
    exact hnone id
  unique := by
    rw [hdb]
    exact hc.unique

/-- The critical request commits its event, and is critical no more. -/
theorem Single.committed {th : Coroutine} (hth : c.threads[t]? = some th)
    (hcrit : Coroutine.critical key th = true) {row : WebhookEvent}
    (hmissing : c.world.db.events.get? row.id = none)
    (hdb : w.db = c.world.db.applyAll [.insertEvent row])
    (hcalm : Coroutine.critical key th' = false) : Single key ⟨w, c.threads.set t th'⟩ := by
  have hkeyed (id : UUID) (h : w.db.Keyed key id) : row.id = id := by
    rw [hdb, keyed_insertEvent hmissing] at h
    rcases h with h | h
    · exact absurd h (hc.empty th (List.mem_of_getElem? hth) hcrit id)
    · exact h.1
  refine ⟨ingesting_set hothers hself, ?_, ?_,
    fun id id' h h' => (hkeyed id h).symm.trans (hkeyed id' h')⟩
  · refine hc.apart.set (fun _ _ h => fun h' => h h'.symm) fun u y _ _ => ?_
    rw [hcalm]
    exact fun h => nomatch h.1
  · intro x hx hxcrit
    rcases of_mem_set hx with rfl | ⟨u, hu, hx⟩
    · rw [hcalm] at hxcrit
      cases hxcrit
    · exact absurd ⟨hcrit, hxcrit⟩ (hc.apart t u th x (Ne.symm hu) hth hx)

end replaced

/-- A new coroutine. -/
theorem Single.started (hne : key ≠ []) (hc : Single key c) {o : Origin} {w : World}
    (hs : Starts c a o w) : Single key ⟨w, c.threads ++ [o.start deps]⟩ := by
  have hdb : w.db = c.world.db := by
    cases hs <;> rfl
  have hwal : w.wal = c.world.wal := by
    cases hs <;> rfl
  have hcalm : Coroutine.critical key (o.start deps) = false := by
    unfold Coroutine.critical
    cases (o.start deps).origin.ingests key <;> rfl
  refine ⟨?_, ?_, ?_, by rw [hdb]; exact hc.unique⟩
  · intro x hx data hdata
    rcases List.mem_append.mp hx with hx | hx
    · exact (hc.ingesting x hx data hdata).kept (fun id h => by rwa [hdb]) (Or.inl hwal)
    · obtain rfl := List.mem_singleton.mp hx
      obtain ⟨rfl, hkey⟩ := Origin.key_of_ingests hdata
      exact ⟨createEvent_obeys hkey hne, rfl, Nat.le_refl 0⟩
  · refine hc.apart.append (fun _ _ h => fun h' => h h'.symm) fun y _ => ?_
    rw [hcalm]
    exact fun h => nomatch h.1
  · intro x hx hcrit
    rcases List.mem_append.mp hx with hx | hx
    · rw [hdb]
      exact hc.empty x hx hcrit
    · rw [List.mem_singleton.mp hx, hcalm] at hcrit
      cases hcrit

/-- A call of a request that brings the key. -/
theorem Single.served (hr : Reaches deps anyStep c) (hc : Single key c) {t : ℕ} {th : Coroutine}
    {data : EventCreate} {o : Oracle} {e : Op} {k : Except PyExn e.Resp → Relay Reply}
    {r : Except PyExn e.Resp} {w : World} {s : Session} (hth : c.threads[t]? = some th)
    (hdata : th.origin.ingests key = some data) (hserves : Serves key c th data)
    (hp : th.prog = .call e k) (hx : exec o e c.world th.session = (r, w, s))
    (hwal : w.wal = c.world.wal ∨ w.wal = c.world.wal ++ th.session.pending) :
    Single key ⟨w, c.threads.set t (th.answered machine e r (k r) s)⟩ := by
  have hm : th ∈ c.threads := List.mem_of_getElem? hth
  have hcrit : Coroutine.critical key th = (Coroutine.ingest data th).critical := by
    unfold Coroutine.critical
    rw [hdata]
    rfl
  have hcrit' : Coroutine.critical key (th.answered machine e r (k r) s) =
      ((Coroutine.ingest data th).next data e r).critical := by
    unfold Coroutine.critical
    rw [show (th.answered machine e r (k r) s).origin.ingests key = some data from hdata,
      Option.any_some, ingest_answered]
  have hempty (h : (Coroutine.ingest data th).critical = true) : ∀ id,
      ¬ c.world.db.Keyed key id := hc.empty th hm (hcrit.trans h)
  obtain ⟨hself, hadvance⟩ := (hc.ingesting th hm data hdata).executed
    (Origin.key_of_ingests hdata).2 hserves hp hempty hx
  have hothers (hkeyed : ∀ id, c.world.db.Keyed key id → w.db.Keyed key id) (u : ℕ)
      (uh : Coroutine) (hu : u ≠ t) (huh : c.threads[u]? = some uh) (data' : EventCreate)
      (hdata' : uh.origin.ingests key = some data') : Ingesting key w uh data' :=
    (hc.ingesting uh (List.mem_of_getElem? huh) data' hdata').kept hkeyed
      (hwal.imp_right fun hw => ⟨th.session, hr.locksApart u t uh th hu huh hth, hw⟩)
  have hself' (data' : EventCreate) (h : (th.answered machine e r (k r) s).origin.ingests key =
      some data') : Ingesting key w (th.answered machine e r (k r) s) data' := by
    obtain rfl : data = data' := Option.some.inj (hdata.symm.trans h)
    exact hself
  cases hadvance with
  | quiet hdb hquiet =>
    refine hc.set (hothers fun id h => by rwa [hdb]) hself' (fun id => by rw [hdb]) fun h => ?_
    exact ⟨th, hth, hcrit.trans (hquiet (hcrit'.symm.trans h))⟩
  | misses hdb hstarted hnone =>
    have hlooks : Coroutine.looksUp th = true := by
      have hallow := (hc.ingesting th hm data hdata).obeys
      rw [hp] at hallow
      have hallow : (Coroutine.ingest data th).allows key data e := hallow.1
      rw [hstarted] at hallow
      obtain rfl : e = .getEventByKey key := hallow
      unfold Coroutine.looksUp
      rw [hp]
    exact hc.missed (hothers fun id h => by rwa [hdb]) hself' hdb hnone fun u uh _ huh =>
      hserves.alone hlooks uh (List.mem_of_getElem? huh)
  | commits row henqueued hdb hcalm =>
    have hmissing : c.world.db.events.get? row.id = none := by
      have hsound := (hc.ingesting th hm data hdata).sound
      rw [henqueued] at hsound
      exact hsound.2.2
    refine hc.committed (hothers fun id h => ?_) hself' hth ?_ hmissing hdb (hcrit'.trans hcalm)
    · rw [hdb, keyed_insertEvent hmissing]
      exact Or.inl h
    · rw [hcrit, henqueued]
      rfl

/-- One step keeps the invariant, if it meets the condition. -/
theorem Single.step (hne : key ≠ []) (hr : Reaches deps anyStep c) (hc : Single key c)
    (hok : Ingests key c a) (hs : step deps c a = some c') : Single key c' := by
  cases stepped hs with
  | started hstart => exact hc.started hne hstart
  | ticked =>
    exact ⟨fun x hx data hdata => (hc.ingesting x hx data hdata).kept (fun _ h => h) (Or.inl rfl),
      hc.apart, hc.empty, hc.unique⟩
  | killed hth =>
    rename_i t th
    have hnone : th.origin.ingests key = none := hok.1 t rfl th hth
    refine hc.set (fun u uh _ huh => hc.ingesting uh (List.mem_of_getElem? huh))
      (fun data h => ?_) (fun _ => Iff.rfl) fun h => ?_
    · cases hnone.symm.trans h
    · cases (not_critical hnone).symm.trans h
  | reaped hth ho hend =>
    refine hc.set (fun u uh _ huh data hdata =>
      (hc.ingesting uh (List.mem_of_getElem? huh) data hdata).kept (fun _ h => h) (Or.inl rfl))
      (fun data h => nomatch h) (fun _ => Iff.rfl) fun h => nomatch h
  | answered hth hp ha =>
    rename_i t th e k r w s
    have hm : th ∈ c.threads := List.mem_of_getElem? hth
    have hwal : w.wal = c.world.wal ∨ w.wal = c.world.wal ++ th.session.pending :=
      ha.wal.imp_right fun h => h.2.2.1
    cases hdata : th.origin.ingests key with
    | some data =>
      cases ha with
      | executed o hb =>
        exact hc.served hr hth hdata (hok.2 t rfl th hth data hdata) hp rfl hwal
      | lost o x => cases (hok.1 t rfl th hth).symm.trans hdata
      | late o x hb => cases (hok.1 t rfl th hth).symm.trans hdata
    | none =>
      have hkeyed (id : UUID) : w.db.Keyed key id ↔ c.world.db.Keyed key id := by
        rcases hwal with hw | hw
        · rw [World.db, hw, World.db]
        · rw [World.db_of_wal hw, keyed_applyAll (hr.keyless th hm hdata)]
      refine hc.set (fun u uh hu huh data hdata => ?_) (fun data h => ?_) hkeyed fun h => ?_
      · exact (hc.ingesting uh (List.mem_of_getElem? huh) data hdata).kept
          (fun id => (hkeyed id).mpr)
          (hwal.imp_right fun hw => ⟨th.session, hr.locksApart u t uh th hu huh hth, hw⟩)
      · cases hdata.symm.trans h
      · have hcalm : Coroutine.critical key (th.answered machine e r (k r) s) = false :=
          not_critical hdata
        cases hcalm.symm.trans h

end single

/-! ### One event for a key -/

section idempotent

variable {deps : Deps} {key : Str} {c₀ c : Config}

/-- No row has the key, and no request brings it. -/
structure Unused (key : Str) (c : Config) : Prop where
  rows : ∀ r ∈ c.world.db.events.rows, r.idempotencyKey ≠ some key
  threads : ∀ th ∈ c.threads, th.origin.ingests key = none

/-- Exactly one event with the key for all the requests that bring it. -/
structure Idempotent (deps : Deps) (key : Str) (c : Config) : Prop where
  /-- At most one row has the key. -/
  unique : ∀ r ∈ c.world.db.events.rows, ∀ r' ∈ c.world.db.events.rows,
    r.idempotencyKey = some key → r'.idempotencyKey = some key → r = r'
  /-- A request that has ended answers with the event whose row has the key. -/
  answered : ∀ th ∈ c.threads, (th.origin.ingests key).isSome = true → th.prog.ended = true →
    ∃ row r, th.prog = .done (.event row) ∧ r ∈ c.world.db.events.rows ∧ r.id = row.id ∧
      r.idempotencyKey = some key
  /-- A request has ended after seven calls at the latest. -/
  calls : ∀ th ∈ c.threads, (th.origin.ingests key).isSome = true → th.prog.ended = false →
    th.trace.length < 7
  /-- A request that has not ended can make its next call, unless another session holds a lock on
  the identifier it has drawn. -/
  goesOn : ∀ t th, c.threads[t]? = some th → (th.origin.ingests key).isSome = true →
    th.prog.ended = false →
    (∀ id ∈ Coroutine.inserts th, ∀ s ∈ c.others t, RowKey.event id ∉ s.locks) →
    ∀ o, (step deps c (.call t o)).isSome = true

/-- The locks of the next call of a request. -/
theorem Ingest.locks_of_allows {data : EventCreate} {p : Ingest} {e : Op}
    (h : p.allows key data e) (hdata : data.idempotencyKey = some key) : e.locks = [] ∨
      p.critical = true ∧ ∃ id now, e = .insertEvent (Api.newEvent data id now) ∧
        e.locks = [.event id, .idempotency key] := by
  cases p with
  | stamped id now =>
    obtain rfl : e = .insertEvent (Api.newEvent data id now) := h
    refine Or.inr ⟨rfl, id, now, rfl, ?_⟩
    change .event id :: (data.idempotencyKey.map RowKey.idempotency).toList ++ [] = _
    rw [hdata]
    rfl
  | finished row => cases h
  | failed => cases h
  | _ =>
    obtain rfl := h
    exact Or.inl rfl

/-- A request that is not critical has no statement in its session. -/
theorem Ingest.Sound.pending {w : World} {s : Session} {p : Ingest} (h : p.Sound key w s)
    (hcrit : p.critical = false) : s.pending = [] := by
  cases p with
  | started => exact h
  | found row => exact h.1
  | finished row => exact h.1
  | failed => cases h
  | _ => cases hcrit

/-- Only one session at a time has a statement that inserts the key. -/
theorem Single.free (hr : Reaches deps anyStep c) (hc : Single key c) {t u : ℕ}
    {th uh : Coroutine} (hth : c.threads[t]? = some th) (hcrit : Coroutine.critical key th = true)
    (hut : u ≠ t) (huh : c.threads[u]? = some uh) : .idempotency key ∉ uh.session.locks := by
  intro hlock
  have hm : uh ∈ c.threads := List.mem_of_getElem? huh
  obtain ⟨x, hx, hkey⟩ := List.mem_flatMap.mp hlock
  cases hdata : uh.origin.ingests key with
  | none =>
    cases x with
    | insertEvent r =>
      rcases List.mem_cons.mp hkey with hkey | hkey
      · cases hkey
      · rw [Option.mem_toList, Option.map_eq_some_iff] at hkey
        obtain ⟨k, hk, hkey⟩ := hkey
        obtain rfl := RowKey.idempotency.inj hkey
        exact hr.keyless uh hm hdata _ hx r rfl hk
    | _ => cases List.mem_singleton.mp hkey
  | some data =>
    have hcalm : (Coroutine.ingest data uh).critical = false := by
      have hnot : Coroutine.critical key uh ≠ true := fun h =>
        hc.apart t u th uh (Ne.symm hut) hth huh ⟨hcrit, h⟩
      unfold Coroutine.critical at hnot
      rw [hdata] at hnot
      exact Bool.not_eq_true _ ▸ hnot
    rw [(hc.ingesting uh hm data hdata).sound.pending hcalm] at hx
    cases hx

/-- The invariant holds where the key is not used. -/
theorem Unused.single (h : Unused key c) : Single key c := by
  refine ⟨fun th hth data hdata => ?_, fun i j x y _ hx _ hcrit => ?_, fun th hth hcrit => ?_,
    fun id id' hid => ?_⟩
  · cases (h.threads th hth).symm.trans hdata
  · cases (not_critical (h.threads x (List.mem_of_getElem? hx))).symm.trans hcrit.1
  · cases (not_critical (h.threads th hth)).symm.trans hcrit
  · obtain ⟨r, hr, -, hkey⟩ := hid
    exact absurd hkey (h.rows r hr)

/-- At most one row has the key. -/
theorem Single.row_unique (hc : Single key c) {r r' : WebhookEvent}
    (hr : r ∈ c.world.db.events.rows) (hr' : r' ∈ c.world.db.events.rows)
    (hkey : r.idempotencyKey = some key) (hkey' : r'.idempotencyKey = some key) : r = r' := by
  have hid := hc.unique r.id r'.id ⟨r, hr, rfl, hkey⟩ ⟨r', hr', rfl, hkey'⟩
  have hget := Table.get?_of_mem hr
  rw [hid, Table.get?_of_mem hr'] at hget
  exact (Option.some.inj hget).symm

section request

variable {w : World} {th : Coroutine} {data : EventCreate} (h : Ingesting key w th data)

include h

/-- A request that has ended answers with the event whose row has the key. -/
theorem Ingesting.answer (hend : th.prog.ended = true) : ∃ row r, th.prog = .done (.event row) ∧
    r ∈ w.db.events.rows ∧ r.id = row.id ∧ r.idempotencyKey = some key := by
  obtain ⟨row, hp, hphase⟩ := h.finished hend
  have hsound := h.sound
  rw [hphase] at hsound
  obtain ⟨-, r, hr, hid, hkey⟩ := hsound
  exact ⟨row, r, hp, hr, hid, hkey⟩

/-- A request that has not ended is about to make a call that it may make. -/
theorem Ingesting.call_of_live (hlive : th.prog.ended = false) : ∃ e k, th.prog = .call e k ∧
    (Coroutine.ingest data th).allows key data e := by
  have hobeys := h.obeys
  cases hp : th.prog with
  | call e k =>
    rw [hp] at hobeys
    exact ⟨e, k, rfl, hobeys.1⟩
  | done a =>
    rw [hp] at hlive
    cases hlive
  | raised x =>
    rw [hp] at hlive
    cases hlive

/-- A request that has not ended has made less than seven calls. -/
theorem Ingesting.calls_lt (hlive : th.prog.ended = false) : th.trace.length < 7 := by
  obtain ⟨e, k, -, hallow⟩ := h.call_of_live hlive
  have hnext := Ingest.calls_next hallow (.error .cancelled)
  rw [Ingest.next_error] at hnext
  exact Nat.lt_of_le_of_lt h.calls hnext

end request

/-- A request that has not ended can make its next call, if no other session has a lock on the
identifier it has drawn. -/
theorem isSome_step_of_live (hr : Reaches deps anyStep c) (hc : Single key c) {t : ℕ}
    {th : Coroutine} {data : EventCreate} (hth : c.threads[t]? = some th)
    (hdata : th.origin.ingests key = some data) (hlive : th.prog.ended = false)
    (hfree : ∀ id ∈ Coroutine.inserts th, ∀ s ∈ c.others t, RowKey.event id ∉ s.locks)
    (o : Oracle) : (step deps c (.call t o)).isSome = true := by
  obtain ⟨e, k, hp, hallow⟩ :=
    (hc.ingesting th (List.mem_of_getElem? hth) data hdata).call_of_live hlive
  refine Pool.call_isSome hth hp ?_ o
  refine not_blocked c.world th.session fun s hs l hl hle => ?_
  rcases Ingest.locks_of_allows hallow (Origin.key_of_ingests hdata).2 with
    hnone | ⟨hcrit, id, now, rfl, hlocks⟩
  · rw [hnone] at hle
    cases hle
  · rw [hlocks] at hle
    rcases List.mem_cons.mp hle with rfl | hle
    · refine hfree id ?_ s hs hl
      unfold Coroutine.inserts
      rw [hp]
      rfl
    · -- the lock on the key is that of the one critical request
      obtain rfl := List.mem_singleton.mp hle
      obtain ⟨u, uh, hut, huh, rfl⟩ := Pool.mem_others_iff.mp hs
      refine hc.free hr hth ?_ hut huh hl
      unfold Coroutine.critical
      rw [hdata]
      exact hcrit

/-- **Ingestion is idempotent**: from any reachable state in which the key is not used, along
steps that meet the condition, whatever else runs. -/
theorem idempotent_ingestion (hne : key ≠ []) (h₀ : Reaches deps anyStep c₀)
    (hunused : Unused key c₀) (h : Runs (step deps) (Ingests key) c₀ c) :
    Idempotent deps key c := by
  have hreach {s : Config} (hs : Runs (step deps) (Ingests key) c₀ s) :
      Reaches deps anyStep s := by
    obtain ⟨now, hnow⟩ := h₀
    exact ⟨now, hnow.trans (hs.mono fun _ _ _ _ => trivial)⟩
  have hsingle : Single key c := h.invariant hunused.single fun s a s' hs hc hok hstep =>
    hc.step hne (hreach hs) hok hstep
  refine ⟨fun r hr r' hr' => hsingle.row_unique hr hr', ?_, ?_, ?_⟩
  · intro th hth hingests hend
    obtain ⟨data, hdata⟩ := Option.isSome_iff_exists.mp hingests
    exact (hsingle.ingesting th hth data hdata).answer hend
  · intro th hth hingests hlive
    obtain ⟨data, hdata⟩ := Option.isSome_iff_exists.mp hingests
    exact (hsingle.ingesting th hth data hdata).calls_lt hlive
  · intro t th hth hingests hlive hfree o
    obtain ⟨data, hdata⟩ := Option.isSome_iff_exists.mp hingests
    exact isSome_step_of_live (hreach h) hsingle hth hdata hlive hfree o

/-- Three requests with one key, of which the second one comes after the commit of the first one,
and the third one after a worker has delivered the event. -/
theorem idempotent_ingestion_repeated : ∃ c₀ c, Reaches Sample.deps anyStep c₀ ∧
    Unused (Str.lit "k") c₀ ∧ Runs (step Sample.deps) (Ingests (Str.lit "k")) c₀ c ∧
    c.threads.map (fun th => th.prog.ended) = [true, true, true, true, true] ∧
    c.world.db.events.rows.map WebhookEvent.status = [.delivered] ∧
    Idempotent Sample.deps (Str.lit "k") c := by
  let created := Sample.request 0 4 (.createEndpoint Sample.shop) (Sample.oracle 1 .cancelled)
  let data := Sample.keyed (Str.lit "k") (by decide)
  let repeated := Sample.request 1 7 (.createEvent data) (Sample.oracle 2 .cancelled) ++
    Sample.request 2 2 (.createEvent data) (Sample.oracle 3 .cancelled) ++
    Sample.job 3 14 (Sample.oracle 4 (Sample.response 200 [])) ++
    Sample.request 4 2 (.createEvent data) (Sample.oracle 5 .cancelled)
  have hrun : ((runActs (step Sample.deps) (fun _ _ => true) (initial Sample.start) created).any
      fun c₀ => decide ((∀ r ∈ c₀.world.db.events.rows, r.idempotencyKey ≠ some (Str.lit "k")) ∧
          ∀ th ∈ c₀.threads, th.origin.ingests (Str.lit "k") = none) &&
        (runActs (step Sample.deps) (fun c a => decide (Ingests (Str.lit "k") c a)) c₀
          repeated).any fun c =>
            decide (c.threads.map (fun th => th.prog.ended) = [true, true, true, true, true] ∧
              c.world.db.events.rows.map WebhookEvent.status = [.delivered])) = true := by
    decide +kernel
  obtain ⟨c₀, hc₀, hrest⟩ := exists_run anyStep (fun _ _ _ => trivial) hrun
  obtain ⟨hfree, hrepeated⟩ := Bool.and_eq_true_iff.mp hrest
  obtain ⟨hrows, hthreads⟩ := of_decide_eq_true hfree
  obtain ⟨c, hc, hfacts⟩ := exists_run (Ingests (Str.lit "k")) (fun _ _ => of_decide_eq_true)
    hrepeated
  obtain ⟨hended, hdelivered⟩ := of_decide_eq_true hfacts
  have hreach : Reaches Sample.deps anyStep c₀ := ⟨Sample.start, hc₀⟩
  have hunused : Unused (Str.lit "k") c₀ := ⟨hrows, hthreads⟩
  exact ⟨c₀, c, hreach, hunused, hc, hended, hdelivered,
    idempotent_ingestion (by decide) hreach hunused hc⟩

/-- Two requests that both look the key up before either of them inserts: the second one ends
with `IntegrityError`. -/
theorem not_idempotent_of_race : ∃ c₀ c, Reaches Sample.deps anyStep c₀ ∧
    Unused (Str.lit "k") c₀ ∧ Runs (step Sample.deps) anyStep c₀ c ∧
    c.threads.map (fun th => th.prog.ended) = [true, true, true] ∧
    ¬ Idempotent Sample.deps (Str.lit "k") c := by
  let created := Sample.request 0 4 (.createEndpoint Sample.shop) (Sample.oracle 1 .cancelled)
  let data := Sample.keyed (Str.lit "k") (by decide)
  let race := Sample.request 1 1 (.createEvent data) (Sample.oracle 2 .cancelled) ++
    Sample.request 2 1 (.createEvent data) (Sample.oracle 3 .cancelled) ++
    Sample.calls 1 6 (Sample.oracle 2 .cancelled) ++ Sample.calls 2 4 (Sample.oracle 3 .cancelled)
  have hrun : ((runActs (step Sample.deps) (fun _ _ => true) (initial Sample.start) created).any
      fun c₀ => decide ((∀ r ∈ c₀.world.db.events.rows, r.idempotencyKey ≠ some (Str.lit "k")) ∧
          ∀ th ∈ c₀.threads, th.origin.ingests (Str.lit "k") = none) &&
        (runActs (step Sample.deps) (fun _ _ => true) c₀ race).any fun c =>
          decide (c.threads.map (fun th => th.prog.ended) = [true, true, true] ∧
            ∃ th ∈ c.threads, (th.origin.ingests (Str.lit "k")).isSome = true ∧
              th.prog.ended = true ∧ th.prog.value?.isSome = false)) = true := by
    decide +kernel
  obtain ⟨c₀, hc₀, hrest⟩ := exists_run anyStep (fun _ _ _ => trivial) hrun
  obtain ⟨hfree, hrace⟩ := Bool.and_eq_true_iff.mp hrest
  obtain ⟨hrows, hthreads⟩ := of_decide_eq_true hfree
  obtain ⟨c, hc, hfacts⟩ := exists_run anyStep (fun _ _ _ => trivial) hrace
  obtain ⟨hended, th, hth, hingests, hend, hvalue⟩ := of_decide_eq_true hfacts
  refine ⟨c₀, c, ⟨Sample.start, hc₀⟩, ⟨hrows, hthreads⟩, hc, hended, fun h => ?_⟩
  obtain ⟨row, r, hp, -⟩ := h.answered th hth hingests hend
  rw [Prog.value?_eq_some.mpr hp] at hvalue
  cases hvalue

end idempotent

end WebhookRelay

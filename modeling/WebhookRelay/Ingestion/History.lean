import WebhookRelay.Delivery.Solo
import WebhookRelay.Ingestion.Idempotency

/-!
# Whose event a request is answered with

Requests of `create_event` run one after another; in between the clock goes on and the rest of the
system commits what it likes except an event with a key (`RequestHistory`, and `program_keyless`
for the exception). A request is answered with an event of its own content that its endpoint
accepts, or with the event that an earlier request with its key was answered with
(`answered_event`). The lookup compares keys only, so the content of the two may differ
(`not_asked_for_of_reused_key`).
-/

namespace WebhookRelay

open Data Effect

/-! ### Histories -/

/-- One run of `create_event`. -/
def handle (o : Oracle) (data : EventCreate) (w : World) : Except PyExn WebhookEvent × World :=
  runSolo o (Api.getDb (Api.createEvent data)) w

/-- A request that has been handled: its content, the world it has met, and its answer. -/
structure Handled where
  data : EventCreate
  met : World
  answer : Except PyExn WebhookEvent

/-- The requests handled so far, one after another, and the world after them. -/
inductive RequestHistory : List Handled → World → Prop where
  | start {w : World} (hnone : ∀ r ∈ w.db.events.rows, r.idempotencyKey = none) :
    RequestHistory [] w
  | others {hs : List Handled} {w w' : World} {ws : List Write} (h : RequestHistory hs w)
    (hkeyless : ∀ x ∈ ws, ∀ key, x.Keyless key) (hwal : w'.wal = w.wal ++ ws) :
    RequestHistory hs w'
  | request {hs : List Handled} {w : World} (h : RequestHistory hs w) (o : Oracle)
    (data : EventCreate) :
    RequestHistory (hs ++ [⟨data, w, (handle o data w).1⟩]) (handle o data w).2

/-- The row has the endpoint, the type and the payload of a request. -/
structure EventCreate.AskedFor (data : EventCreate) (row : WebhookEvent) : Prop where
  endpoint : row.endpointId = data.endpointId
  eventType : row.eventType = data.eventType
  payload : row.payload = data.payload

/-- The row is an event that the request has created: with its content and its key, under a new
identifier, when the endpoint was there, was active and accepted the type. -/
structure Handled.Created (x : Handled) (row : WebhookEvent) : Prop where
  answered : ∃ now, x.answer = .ok (Api.newEvent x.data row.id now)
  asked : x.data.AskedFor row
  key : row.idempotencyKey = x.data.idempotencyKey
  new : x.met.db.events.get? row.id = none
  accepted : x.met.db.accepts x.data = true

/-! ### One request -/

/-- What a request does: it raises and commits nothing, it answers with the event it has found, or
it commits the event it answers with. -/
inductive Handles (o : Oracle) (data : EventCreate) (w : World) :
    Except PyExn WebhookEvent × World → Prop where
  | raises {x : PyExn} {w' : World} (hwal : w'.wal = w.wal) : Handles o data w (.error x, w')
  | finds {key : Str} {row : WebhookEvent} {w' : World} (hkey : data.idempotencyKey = some key)
    (hne : key ≠ []) (hrow : w.db.eventByKey key = some row) (hwal : w'.wal = w.wal) :
    Handles o data w (.ok row, w')
  | creates {w' : World} (hnew : w.db.events.get? o.uuid = none)
    (haccepted : w.db.accepts data = true)
    (hwal : w'.wal = w.wal ++ [.insertEvent (Api.newEvent data o.uuid w.now)]) :
    Handles o data w (.ok (Api.newEvent data o.uuid w.now), w')

section request

variable {o : Oracle} {data : EventCreate} {w : World} {s : Session}

/-- A handler that raises commits nothing. -/
theorem runSolo_getDb_error {α : Type} {p : Relay α} {x : PyExn} {w' : World} {s' : Session}
    (h : p.drive (soloHandler o) (w, .fresh) = (.error x, w', s')) :
    runSolo o (Api.getDb p) w = (.error x, w') := runFrom_bind_error h _

/-- A handler that returns commits its statements. -/
theorem runSolo_getDb_ok {α : Type} {p : Relay α} {a : α} {w' : World} {s' : Session}
    (h : p.drive (soloHandler o) (w, .fresh) = (.ok a, w', s')) :
    runSolo o (Api.getDb p) w = (.ok a, { w' with wal := w'.wal ++ s'.pending }) := by
  unfold runSolo Api.getDb
  rw [runFrom_bind_ok h, runFrom_bind_ok drive_commit]
  rfl

/-- A new event is written unless a constraint stands against it. -/
theorem drive_createEvent (row : UUID → Datetime → WebhookEvent) :
    (EventRepository.create row).drive (soloHandler o) (w, s) =
      match (Op.insertEvent (row o.uuid w.now)).violation (w.view s) with
      | none => (.ok (row o.uuid w.now), w,
          { s with pending := s.pending ++ [.insertEvent (row o.uuid w.now)] })
      | some x => (.error x, w, s) := by
  have hinsert (row : WebhookEvent) :
      (insertEvent row).drive (soloHandler o) (w, s) = flushed (.insertEvent row) () w s :=
    Prog.drive_perform (I := relay) (soloHandler o) (Op.insertEvent row) (w, s)
  unfold EventRepository.create
  rw [Prog.drive_bind_ok _ drive_uuid4, Prog.drive_bind_ok _ drive_now, Prog.drive_bind, hinsert,
    flushed]
  cases (Op.insertEvent (row o.uuid w.now)).violation (w.view s) <;> rfl

/-- Redis answers `enqueue_job`, and no table is touched. -/
theorem drive_enqueueJob (id : UUID) : ∃ (made : Bool) (w' : World), w'.wal = w.wal ∧
    (enqueueJob id).drive (soloHandler o) (w, s) = (.ok made, w', s) := by
  have hexec : (enqueueJob id).drive (soloHandler o) (w, s) = exec o (.enqueueJob id) w s :=
    Prog.drive_perform (I := relay) (soloHandler o) (Op.enqueueJob id) (w, s)
  rw [hexec, exec_enqueueJob]
  split_ifs
  · exact ⟨false, w, rfl, rfl⟩
  · refine ⟨true, _, ?_, rfl⟩
    rfl

/-- The run of a handler once the lookup has missed: it raises, or it has inserted a new event that
its endpoint accepts. -/
inductive Ingested (o : Oracle) (data : EventCreate) (w : World) :
    Except PyExn WebhookEvent × World × Session → Prop where
  | raises {x : PyExn} {w' : World} {s' : Session} (hwal : w'.wal = w.wal) :
    Ingested o data w (.error x, w', s')
  | creates {w' : World} (hnew : w.db.events.get? o.uuid = none)
    (haccepted : w.db.accepts data = true) (hwal : w'.wal = w.wal) :
    Ingested o data w (.ok (Api.newEvent data o.uuid w.now), w',
      ⟨[.insertEvent (Api.newEvent data o.uuid w.now)], []⟩)

theorem ingested (o : Oracle) (data : EventCreate) (w : World) :
    Ingested o data w ((Api.ingest data).drive (soloHandler o) (w, .fresh)) := by
  have hget : (EndpointRepository.getById data.endpointId).drive (soloHandler o) (w, .fresh) =
      (.ok (w.db.endpoints.get? data.endpointId), w, .fresh) := rfl
  unfold Api.ingest
  rw [Prog.drive_bind_ok _ hget]
  cases hendpoint : w.db.endpoints.get? data.endpointId with
  | none => exact .raises rfl
  | some endpoint =>
    simp only [Api.found, Prog.pure_eq_done, Prog.done_bind]
    cases hactive : endpoint.isActive with
    | false => exact .raises rfl
    | true =>
      cases hfilter : Api.filteredOut endpoint data.eventType with
      | true => exact .raises rfl
      | false =>
        have haccepts : w.db.accepts data = true := by
          unfold Db.accepts Ingest.takes
          rw [hendpoint, Option.any_some, hactive, hfilter]
          rfl
        simp only [Bool.not_true, Bool.false_eq_true, if_false]
        rw [Prog.drive_bind, drive_createEvent]
        cases hviolation : (Op.insertEvent (Api.newEvent data o.uuid w.now)).violation
            (w.view .fresh) with
        | some x => exact .raises rfl
        | none =>
          obtain ⟨made, w', hwal, hdrive⟩ := drive_enqueueJob (o := o) (w := w)
            (s := ⟨[.insertEvent (Api.newEvent data o.uuid w.now)], []⟩) o.uuid
          have hnew : w.db.events.get? o.uuid = none := by
            have hmissing : w.db.holds (.event o.uuid) = false :=
              (takes_of_violation hviolation).1 _ rfl
            exact Option.isSome_eq_false_iff.mp hmissing |> Option.isNone_iff_eq_none.mp
          have hrest : (enqueueJob o.uuid >>= fun _ => Prog.done (Api.newEvent data o.uuid
              w.now)).drive (soloHandler o)
                (w, ⟨[.insertEvent (Api.newEvent data o.uuid w.now)], []⟩) =
              (.ok (Api.newEvent data o.uuid w.now), w',
                ⟨[.insertEvent (Api.newEvent data o.uuid w.now)], []⟩) :=
            Prog.drive_bind_ok _ hdrive _
          change Ingested o data w (Prog.drive _ (enqueueJob o.uuid >>= fun _ => _) _)
          exact hrest ▸ .creates hnew haccepts hwal

/-- **One request**: whatever its content and the world it meets. -/
theorem handles (o : Oracle) (data : EventCreate) (w : World) :
    Handles o data w (handle o data w) := by
  have hmissed (hlookup : (Api.lookup data).drive (soloHandler o) (w, .fresh) =
      (.ok none, w, .fresh)) : Handles o data w (handle o data w) := by
    have hdrive : (Api.createEvent data).drive (soloHandler o) (w, .fresh) =
        (Api.ingest data).drive (soloHandler o) (w, .fresh) := Prog.drive_bind_ok _ hlookup _
    have hingested := ingested o data w
    rw [← hdrive] at hingested
    unfold handle
    generalize hresult : (Api.createEvent data).drive (soloHandler o) (w, .fresh) = result
      at hingested
    cases hingested with
    | raises hwal =>
      rw [runSolo_getDb_error hresult]
      exact .raises hwal
    | creates hnew haccepted hwal =>
      rw [runSolo_getDb_ok hresult]
      exact .creates hnew haccepted (congrArg (· ++ _) hwal)
  cases hkey : data.idempotencyKey with
  | none =>
    refine hmissed ?_
    unfold Api.lookup
    rw [hkey]
    rfl
  | some key =>
    by_cases hempty : key = []
    · refine hmissed ?_
      unfold Api.lookup
      rw [hkey]
      dsimp only
      rw [if_pos hempty]
      rfl
    · have hlookup : (Api.lookup data).drive (soloHandler o) (w, .fresh) =
          flushed (.getEventByKey key) (w.db.eventByKey key) w .fresh := by
        unfold Api.lookup
        rw [hkey]
        dsimp only
        rw [if_neg hempty]
        exact Prog.drive_perform (I := relay) (soloHandler o) (Op.getEventByKey key) (w, .fresh)
      unfold flushed at hlookup
      cases hviolation : (Op.getEventByKey key).violation (w.view .fresh) with
      | some x =>
        rw [hviolation] at hlookup
        have hdrive : (Api.createEvent data).drive (soloHandler o) (w, .fresh) =
            (.error x, w, .fresh) := Prog.drive_bind_error _ hlookup _
        unfold handle
        rw [runSolo_getDb_error hdrive]
        exact .raises rfl
      | none =>
        rw [hviolation] at hlookup
        cases hrow : w.db.eventByKey key with
        | none =>
          rw [hrow] at hlookup
          exact hmissed hlookup
        | some row =>
          rw [hrow] at hlookup
          have hdrive : (Api.createEvent data).drive (soloHandler o) (w, .fresh) =
              (.ok row, w, .fresh) := Prog.drive_bind_ok _ hlookup _
          unfold handle
          rw [runSolo_getDb_ok hdrive]
          exact .finds hkey hempty hrow (List.append_nil _)

end request

/-! ### The rows with a key -/

/-- The columns of an event that no code updates. -/
structure WebhookEvent.SameRequest (old new : WebhookEvent) : Prop where
  id : new.id = old.id
  endpoint : new.endpointId = old.endpointId
  eventType : new.eventType = old.eventType
  payload : new.payload = old.payload
  key : new.idempotencyKey = old.idempotencyKey

namespace WebhookEvent.SameRequest

variable {r r' r'' : WebhookEvent}

theorem refl (r : WebhookEvent) : r.SameRequest r := ⟨rfl, rfl, rfl, rfl, rfl⟩

theorem trans (h : r.SameRequest r') (h' : r'.SameRequest r'') : r.SameRequest r'' where
  id := h'.id.trans h.id
  endpoint := h'.endpoint.trans h.endpoint
  eventType := h'.eventType.trans h.eventType
  payload := h'.payload.trans h.payload
  key := h'.key.trans h.key

end WebhookEvent.SameRequest

/-- A later version of an event has been created by the same request. -/
theorem Handled.Created.mono {x : Handled} {old new : WebhookEvent} (h : x.Created old)
    (hsame : old.SameRequest new) : x.Created new where
  answered := by rw [hsame.id]; exact h.answered
  asked := ⟨hsame.endpoint.trans h.asked.endpoint, hsame.eventType.trans h.asked.eventType,
    hsame.payload.trans h.asked.payload⟩
  key := hsame.key.trans h.key
  new := by rw [hsame.id]; exact h.new
  accepted := h.accepted

/-- The events after a statement: versions of those before it, or the one it inserts. -/
theorem mem_events_apply {db : Db} {x : Write} {new : WebhookEvent}
    (h : new ∈ (db.apply x).events.rows) :
    (∃ old ∈ db.events.rows, old.SameRequest new) ∨ x = .insertEvent new := by
  have hkept (h : new ∈ db.events.rows) : ∃ old ∈ db.events.rows, old.SameRequest new :=
    ⟨new, h, .refl new⟩
  cases x with
  | insertEvent row =>
    change new ∈ (db.events.insert row).rows at h
    cases hget : db.events.get? row.id with
    | some row' =>
      rw [Table.insert_of_get? hget] at h
      exact .inl (hkept h)
    | none =>
      rw [Table.rows_insert hget, List.mem_append, List.mem_singleton] at h
      rcases h with h | rfl
      · exact .inl (hkept h)
      · exact .inr rfl
  | updateEvent id u =>
    change new ∈ (db.events.modify id u.apply u.apply_id).rows at h
    rw [Table.rows_modify] at h
    obtain ⟨old, hold, rfl⟩ := List.mem_map.mp h
    refine .inl ⟨old, hold, ?_⟩
    split_ifs
    · exact ⟨rfl, rfl, rfl, rfl, rfl⟩
    · exact ⟨rfl, rfl, rfl, rfl, rfl⟩
  | _ => exact .inl (hkept h)

/-- The rest of the system leaves the events with a key, up to their updates. -/
theorem mem_events_applyAll {ws : List Write} {key : Str} (hkeyless : ∀ x ∈ ws, x.Keyless key)
    {db : Db} {new : WebhookEvent} (h : new ∈ (db.applyAll ws).events.rows)
    (hkey : new.idempotencyKey = some key) : ∃ old ∈ db.events.rows, old.SameRequest new := by
  induction ws generalizing db with
  | nil => exact ⟨new, h, .refl new⟩
  | cons x ws ih =>
    obtain ⟨mid, hmid, hsame⟩ := ih (fun x hx => hkeyless x (List.mem_cons_of_mem _ hx)) h
    rcases mem_events_apply hmid with ⟨old, hold, hsame'⟩ | rfl
    · exact ⟨old, hold, hsame'.trans hsame⟩
    · exact absurd (hsame.key.symm.trans hkey) (hkeyless _ List.mem_cons_self mid rfl)

/-- The event a request answers with after it has committed it is one it has created. -/
theorem created_newEvent {o : Oracle} {data : EventCreate} {w : World}
    {answer : Except PyExn WebhookEvent} (hnew : w.db.events.get? o.uuid = none)
    (haccepted : w.db.accepts data = true)
    (hanswer : answer = .ok (Api.newEvent data o.uuid w.now)) :
    Handled.Created ⟨data, w, answer⟩ (Api.newEvent data o.uuid w.now) :=
  ⟨⟨w.now, hanswer⟩, ⟨rfl, rfl, rfl⟩, rfl, hnew, haccepted⟩

/-- Every event with a key was created by a request of the history. -/
theorem RequestHistory.attributed {hs : List Handled} {w : World} (h : RequestHistory hs w) :
    ∀ row ∈ w.db.events.rows, ∀ key, row.idempotencyKey = some key → ∃ x ∈ hs, x.Created row := by
  induction h with
  | start hnone =>
    intro row hrow key hkey
    rw [hnone row hrow] at hkey
    cases hkey
  | others h hkeyless hwal ih =>
    intro row hrow key hkey
    rw [World.db_of_wal hwal] at hrow
    obtain ⟨old, hold, hsame⟩ := mem_events_applyAll (fun x hx => hkeyless x hx key) hrow hkey
    obtain ⟨x, hx, hcreated⟩ := ih old hold key (hsame.key.symm.trans hkey)
    exact ⟨x, hx, hcreated.mono hsame⟩
  | @request hs w h o data ih =>
    intro row hrow key hkey
    have hearlier (hold : ∃ old ∈ w.db.events.rows, old.SameRequest row) :
        ∃ x ∈ hs ++ [⟨data, w, (handle o data w).1⟩], x.Created row := by
      obtain ⟨old, hold, hsame⟩ := hold
      obtain ⟨x, hx, hcreated⟩ := ih old hold key (hsame.key.symm.trans hkey)
      exact ⟨x, List.mem_append_left _ hx, hcreated.mono hsame⟩
    generalize hresult : handle o data w = result at hrow hearlier ⊢
    have hhandles := hresult ▸ handles o data w
    cases hhandles with
    | raises hwal =>
      unfold World.db at hrow
      rw [hwal] at hrow
      exact hearlier ⟨row, hrow, .refl row⟩
    | finds _ _ _ hwal =>
      unfold World.db at hrow
      rw [hwal] at hrow
      exact hearlier ⟨row, hrow, .refl row⟩
    | creates hnew haccepted hwal =>
      rw [World.db_of_wal hwal, Db.applyAll_cons, Db.applyAll_nil] at hrow
      rcases mem_events_apply hrow with hold | heq
      · exact hearlier hold
      · cases heq
        exact ⟨_, List.mem_append_right _ List.mem_cons_self,
          created_newEvent hnew haccepted rfl⟩

/-! ### Whose event it is -/

/-- **Whose event it is**: a request that is answered with an event has created it, or it brings a
key that is not empty and that an earlier request has created the event with. -/
theorem answered_event {hs : List Handled} {w : World} (h : RequestHistory hs w)
    {earlier later : List Handled} {x : Handled} (hx : hs = earlier ++ x :: later)
    {row : WebhookEvent} (hrow : x.answer = .ok row) :
    x.Created row ∨ ∃ key, key ≠ [] ∧ x.data.idempotencyKey = some key ∧
      ∃ y ∈ earlier, y.data.idempotencyKey = some key ∧ y.Created row := by
  induction h generalizing later with
  | start => exact absurd hx (List.append_ne_nil_of_right_ne_nil _ (List.cons_ne_nil _ _)).symm
  | others _ _ _ ih => exact ih hx
  | @request hs w h o data ih =>
    rcases List.eq_nil_or_concat later with rfl | ⟨later, x', rfl⟩
    · obtain ⟨rfl, hlast⟩ := List.append_inj' hx rfl
      obtain rfl := (List.cons.inj hlast).1
      change (handle o data w).1 = _ at hrow
      generalize hresult : handle o data w = result at hrow ⊢
      have hhandles := hresult ▸ handles o data w
      cases hhandles with
      | raises => cases hrow
      | @finds key _ _ hkey hne hfound =>
        obtain rfl := Except.ok.inj hrow
        have htest := List.find?_some (p := fun r : WebhookEvent =>
          decide (r.idempotencyKey = some key)) hfound
        have hrowkey : _ = some key := of_decide_eq_true htest
        obtain ⟨y, hy, hcreated⟩ := h.attributed _ (List.mem_of_find?_eq_some hfound) key hrowkey
        exact .inr ⟨key, hne, hkey, y, hy, hcreated.key.symm.trans hrowkey, hcreated⟩
      | creates hnew haccepted =>
        obtain rfl := Except.ok.inj hrow
        exact .inl (created_newEvent hnew haccepted rfl)
    · rw [List.concat_eq_append, ← List.cons_append, ← List.append_assoc] at hx
      exact ih (List.append_inj' hx rfl).1

/-- A result that meets a test is a value that does. -/
theorem exists_ok_of_any {ε α : Type} {r : Except ε α} {p : α → Bool}
    (h : r.toOption.any p = true) : ∃ a, r = .ok a ∧ p a = true := by
  cases r with
  | error x => cases h
  | ok a => exact ⟨a, rfl, h⟩

namespace Sample

/-- The world after an endpoint `id 1` was committed. -/
def shopWorld : World :=
  { world shop order with wal := [.insertEndpoint (Api.newEndpoint shop digest.text (id 1))] }

/-- A request for an event of another type with the key `k`. -/
def refunded : EventCreate :=
  event (Str.lit "order.refunded") (some (Str.lit "k")) (by decide) fun _ hk => by
    cases hk
    decide

/-- A request with the key `k`. -/
def paid : Handled :=
  ⟨keyed (Str.lit "k") (by decide), shopWorld,
    (handle (oracle 2 .cancelled) (keyed (Str.lit "k") (by decide)) shopWorld).1⟩

/-- Another request with the key `k`. -/
def reused : Handled :=
  ⟨refunded, (handle (oracle 2 .cancelled) paid.data shopWorld).2,
    (handle (oracle 3 .cancelled) refunded (handle (oracle 2 .cancelled) paid.data shopWorld).2).1⟩

/-- The two requests, one after the other. -/
theorem history_reused : ∃ w, RequestHistory [paid, reused] w := by
  have hstart : RequestHistory [] shopWorld := .start fun r hr => absurd hr List.not_mem_nil
  exact ⟨_, (hstart.request (oracle 2 .cancelled) paid.data).request (oracle 3 .cancelled) refunded⟩

/-- The second one is answered with an event of the first one's type. -/
theorem answer_reused :
    ∃ row, reused.answer = .ok row ∧ row.eventType = Str.lit "order.paid" := by
  have hanswer : (reused.answer.toOption.any fun row =>
      decide (row.eventType = Str.lit "order.paid")) = true := by decide +kernel
  obtain ⟨row, hrow, htype⟩ := exists_ok_of_any hanswer
  exact ⟨row, hrow, of_decide_eq_true htype⟩

end Sample

/-- The second of the two requests has created its event, or the first one has. -/
theorem answered_event_reused : ∃ row, Sample.reused.answer = .ok row ∧
    (Sample.reused.Created row ∨ ∃ key, key ≠ [] ∧
      Sample.reused.data.idempotencyKey = some key ∧
      ∃ y ∈ [Sample.paid], y.data.idempotencyKey = some key ∧ y.Created row) := by
  obtain ⟨w, hhistory⟩ := Sample.history_reused
  obtain ⟨row, hrow, -⟩ := Sample.answer_reused
  have hsplit : [Sample.paid, Sample.reused] = [Sample.paid] ++ Sample.reused :: [] := rfl
  exact ⟨row, hrow, answered_event hhistory hsplit hrow⟩

/-- A request that brings the key of an earlier one is answered with an event of another type. -/
theorem not_asked_for_of_reused_key : ¬ ∀ (hs : List Handled) (w : World), RequestHistory hs w →
    ∀ x ∈ hs, ∀ row, x.answer = .ok row → x.data.AskedFor row := by
  obtain ⟨w, hhistory⟩ := Sample.history_reused
  obtain ⟨row, hrow, htype⟩ := Sample.answer_reused
  intro h
  have hasked := h _ w hhistory Sample.reused (List.mem_cons_of_mem _ List.mem_cons_self) row hrow
  exact absurd (htype.symm.trans hasked.eventType) (by decide)

end WebhookRelay

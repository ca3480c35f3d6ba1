import WebhookRelay.Ingestion.Admission
import WebhookRelay.Runs.InactiveEndpoint
import WebhookRelay.Runs.Locks
import WebhookRelay.Runs.Rows
import WebhookRelay.Sample

/-!
# A gone endpoint is left alone

A commit that deactivates an endpoint bans it (`Deactivates`), and while no commit sets its
`is_active` to true (`KeepsGone`) the ban holds, whatever else is committed. A run that reads its
event during the ban finds the endpoint inactive, so by its contract it sends no POST and
dead-letters the event (`read_banned`, `settled_banned`); a request for a new event is refused.
-/

namespace WebhookRelay

open Data Effect EventRepository

variable {deps : Deps} {ok : Config → Action → Prop} {b b' c c₀ : Config} {a : Action} {id : UUID}

/-! ### The ban -/

/-- The endpoint is there, and inactive. -/
def Db.Gone (db : Db) (id : UUID) : Prop :=
  ∃ ep, db.endpoints.get? id = some ep ∧ ep.isActive = false

/-- What a statement sets `is_active` of the endpoint to, if it does. -/
def Write.activity (id : UUID) : Write → Option Bool
  | .updateEndpoint id' u => if id' = id then u.isActive else none
  | _ => none

/-- One statement that does not revive the endpoint keeps the ban. -/
theorem Db.Gone.apply {db : Db} (h : db.Gone id) {w : Write} (hw : w.activity id ≠ some true) :
    (db.apply w).Gone id := by
  obtain ⟨ep, hep, hact⟩ := h
  cases w with
  | insertEndpoint r =>
    refine ⟨ep, ?_, hact⟩
    change (db.endpoints.insert r).get? id = some ep
    cases hr : db.endpoints.get? r.id with
    | some r' => rw [Table.insert_of_get? hr, hep]
    | none =>
      rw [Table.get?_insert hr]
      split_ifs with hid
      · rw [hid, hep] at hr
        cases hr
      · exact hep
  | updateEndpoint id' u =>
    by_cases hid : id = id'
    · subst hid
      refine ⟨u.apply ep, ?_, ?_⟩
      · change (db.endpoints.modify id u.apply u.apply_id).get? id = _
        rw [Table.get?_modify_self, hep]
        rfl
      · change u.isActive.getD ep.isActive = false
        have hne : u.isActive ≠ some true := fun h => hw ((if_pos rfl).trans h)
        cases hu : u.isActive with
        | none => exact hact
        | some x =>
          cases x with
          | true => exact absurd hu hne
          | false => rfl
    · refine ⟨ep, ?_, hact⟩
      change (db.endpoints.modify id' u.apply u.apply_id).get? id = _
      rw [Table.get?_modify_of_ne _ _ _ hid, hep]
  | _ => exact ⟨ep, hep, hact⟩

/-- Statements that do not revive the endpoint keep the ban. -/
theorem Db.Gone.applyAll {db : Db} (h : db.Gone id) {ws : List Write}
    (hws : ∀ w ∈ ws, w.activity id ≠ some true) : (db.applyAll ws).Gone id := by
  induction ws generalizing db with
  | nil => exact h
  | cons w ws ih =>
    exact ih (h.apply (hws w List.mem_cons_self)) fun w' hw' => hws w' (List.mem_cons_of_mem _ hw')

/-- The step commits a transaction whose last word on the endpoint's `is_active` is false: that of
a 410 response, of a DELETE, or of a PATCH. -/
structure Deactivates (b c₀ : Config) (id : UUID) : Prop where
  there : b.world.db.holds (.endpoint id) = true
  last : ((c₀.world.wal.drop b.world.wal.length).filterMap (Write.activity id)).getLast? =
    some false

instance (b c₀ : Config) (id : UUID) : Decidable (Deactivates b c₀ id) :=
  decidable_of_iff (b.world.db.holds (.endpoint id) = true ∧
      ((c₀.world.wal.drop b.world.wal.length).filterMap (Write.activity id)).getLast? = some false)
    ⟨fun h => ⟨h.1, h.2⟩, fun h => ⟨h.there, h.last⟩⟩

/-- A transaction whose last word is false leaves the endpoint inactive. -/
theorem gone_applyAll {db : Db} (h : db.holds (.endpoint id) = true) {ws : List Write}
    (hlast : (ws.filterMap (Write.activity id)).getLast? = some false) :
    (db.applyAll ws).Gone id := by
  induction ws using List.reverseRecOn with
  | nil => cases hlast
  | append_singleton ws w ih =>
    rw [List.filterMap_append] at hlast
    rw [Db.applyAll_append]
    change ((db.applyAll ws).apply w).Gone id
    cases hw : w.activity id with
    | none =>
      rw [List.filterMap_cons_none hw, List.filterMap_nil, List.append_nil] at hlast
      exact (ih hlast).apply (by rw [hw]; exact nofun)
    | some x =>
      rw [List.filterMap_cons_some hw, List.filterMap_nil, List.getLast?_concat] at hlast
      cases hlast
      cases w with
      | updateEndpoint id' u =>
        change (if id' = id then u.isActive else none) = some false at hw
        split_ifs at hw with hid
        subst hid
        obtain ⟨ep, hep⟩ := Option.isSome_iff_exists.mp (holds_endpoint h ws)
        refine ⟨u.apply ep, ?_, ?_⟩
        · change ((db.applyAll ws).endpoints.modify id' u.apply u.apply_id).get? id' = _
          rw [Table.get?_modify_self, hep]
          rfl
        · change u.isActive.getD ep.isActive = false
          rw [hw]
          rfl
      | _ => cases hw

/-- The log after a step. -/
theorem wal_step (hs : step deps b a = some b') : ∃ ws, b'.world.wal = b.world.wal ++ ws :=
  (stepped hs).wal_grows.imp fun _ h => h.symm

/-- A commit that deactivates an endpoint bans it. -/
theorem Deactivates.gone (h : Deactivates b c₀ id) (hs : step deps b a = some c₀) :
    c₀.world.db.Gone id := by
  obtain ⟨ws, hw⟩ := wal_step hs
  have hlast := h.last
  rw [hw, List.drop_left] at hlast
  rw [World.db_of_wal hw]
  exact gone_applyAll h.there hlast

/-- The step commits no statement that sets `is_active` of the endpoint to true. -/
def KeepsGone (deps : Deps) (id : UUID) (c : Config) (a : Action) : Prop :=
  ∀ c', step deps c a = some c' → ∀ w ∈ c'.world.wal.drop c.world.wal.length,
    w.activity id ≠ some true

instance (deps : Deps) (id : UUID) (c : Config) (a : Action) :
    Decidable (KeepsGone deps id c a) :=
  match h : step deps c a with
  | none => .isTrue fun _ h' => nomatch h.symm.trans h'
  | some c' =>
    decidable_of_iff (∀ w ∈ c'.world.wal.drop c.world.wal.length, w.activity id ≠ some true)
      ⟨fun hw c'' h' => by cases h.symm.trans h'; exact hw, fun hw => hw c' h⟩

/-- Such a step keeps the ban. -/
theorem Db.Gone.step (h : b.world.db.Gone id) (ha : KeepsGone deps id b a)
    (hs : step deps b a = some b') : b'.world.db.Gone id := by
  obtain ⟨ws, hw⟩ := wal_step hs
  have hws := ha b' hs
  rw [hw, List.drop_left] at hws
  rw [World.db_of_wal hw]
  exact h.applyAll hws

/-! ### Runs from a state -/

/-- What was reached goes on being reached. -/
theorem Reaches.run {ok' : Config → Action → Prop} (h : Reaches deps anyStep c₀)
    (hr : Runs (step deps) ok' c₀ c) : Reaches deps anyStep c := by
  obtain ⟨now, h⟩ := h
  exact ⟨now, h.trans (hr.mono fun _ _ _ _ => trivial)⟩

/-- The invariant rule for one coroutine of a run. -/
theorem thread_invariant {ok : Config → Action → Prop} {t : ℕ} {J : Config → Coroutine → Prop}
    (hr : Runs (step deps) ok c₀ c) (h₀ : ∀ th, c₀.threads[t]? = some th → J c₀ th)
    (hstep : ∀ b a b', Runs (step deps) ok c₀ b → ok b a → step deps b a = some b' →
      (∀ th, b.threads[t]? = some th → J b th) → ∀ th, CameFrom deps b a b' t th → J b' th) :
    ∀ th, c.threads[t]? = some th → J c th := by
  refine hr.invariant (J := fun c => ∀ th, c.threads[t]? = some th → J c th) h₀ ?_
  exact fun b a b' hb hJ ha hs th hth => hstep b a b' hb ha hs hJ th ((stepped hs).cameFrom hth)

/-- In `c₀` coroutine `t` is not there yet, or it is under way and has made no such call. -/
def NotYet (c₀ : Config) (t : ℕ) (A : Op → Bool) : Prop :=
  ∀ th, c₀.threads[t]? = some th → th.prog.ended = false ∧ ∀ x ∈ th.trace, A x.1 = false

/-- The ban holds throughout the run. -/
theorem gone_run (hgone : c₀.world.db.Gone id) (hr : Runs (step deps) (KeepsGone deps id) c₀ c) :
    c.world.db.Gone id :=
  hr.invariant (J := fun c => c.world.db.Gone id) hgone fun _ _ _ _ hb ha hs => hb.step ha hs

/-! ### What a run of `deliver` reads -/

/-- The rows that a run has read, next to the tables. -/
structure BannedRead (w : World) (id eventId : UUID) (ev : WebhookEvent)
    (ep? : Option WebhookEndpoint) : Prop where
  eventId : ev.id = eventId
  storable : ev.storable = true
  row : ∃ r, w.db.events.get? ev.id = some r ∧ r.endpointId = ev.endpointId
  inactive : ev.endpointId = id → ∃ ep, ep? = some ep ∧ ep.isActive = false

/-- They stay as they are over a step. -/
theorem BannedRead.step {eventId : UUID} {ev : WebhookEvent} {ep? : Option WebhookEndpoint}
    (h : BannedRead b.world id eventId ev ep?) (hb : Reaches deps ok b)
    (hs : step deps b a = some b') : BannedRead b'.world id eventId ev ep? := by
  obtain ⟨r, hrow, hendpoint⟩ := h.row
  obtain ⟨r', hrow', hlater⟩ := ((hb.commits hs).events hb.sound).1 ev.id r hrow
  exact { h with row := ⟨r', hrow', hlater.endpointId.trans hendpoint⟩ }

/-- **A run that reads its event during the ban finds its endpoint inactive.** -/
theorem read_banned (h₀ : Reaches deps anyStep c₀) (hgone : c₀.world.db.Gone id)
    (hr : Runs (step deps) (KeepsGone deps id) c₀ c) {t : ℕ} (hyet : NotYet c₀ t Op.isLoad) :
    ∀ th, c.threads[t]? = some th → ∀ eventId ev ep?, th.origin.delivers = some eventId →
      th.trace.head? = some (loaded eventId ev ep?) → BannedRead c.world id eventId ev ep? := by
  refine thread_invariant (J := fun c th => ∀ eventId ev ep?, th.origin.delivers = some eventId →
    th.trace.head? = some (loaded eventId ev ep?) → BannedRead c.world id eventId ev ep?) hr ?_ ?_
  · intro th hth eventId ev ep? _ hread
    have hload := (hyet th hth).2 _ (List.mem_of_mem_head? hread)
    cases hload
  · intro b a b' hrun ha hs hJ th' hcame eventId ev ep? ho hread
    have hb := h₀.run hrun
    cases hcame with
    | untouched hth => exact (hJ th' hth eventId ev ep? ho hread).step hb hs
    | started => cases hread
    | killed hth => exact (hJ _ hth eventId ev ep? ho hread).step hb hs
    | reaped hth horigin =>
      refine (hJ _ hth eventId ev ep? ?_ hread).step hb hs
      rw [horigin]
      exact ho
    | answered hth hp hans =>
      rename_i th e k r s
      change (th.trace ++ [(⟨e, r⟩ : Call relay PyExn)]).head? = _ at hread
      cases htrace : th.trace with
      | cons x xs =>
        rw [htrace] at hread
        exact (hJ th hth eventId ev ep? ho (by rw [htrace]; exact hread)).step hb hs
      | nil =>
        rw [htrace] at hread
        cases hread
        obtain ⟨o, -, hexec⟩ := hans.of_ok
        have hpend : th.session.pending = [] := by
          have hph : Coroutine.phase th = .started := by
            unfold Coroutine.phase
            rw [htrace]
            rfl
          rw [(hb.lawful th (List.mem_of_getElem? hth)).delivers eventId ho (by rw [hp]; rfl), hph]
          rfl
        have hview : (b.world.view th.session).eventWithEndpoint eventId = some (ev, ep?) :=
          Except.ok.inj (Prod.mk.inj hexec).1
        rw [view_of_pending hpend] at hview
        obtain ⟨hrow, hid⟩ := id_of_read hview
        have hrow' : b.world.db.events.get? ev.id = some ev := hid.symm ▸ hrow
        have hbefore : BannedRead b.world id eventId ev ep? := by
          refine ⟨hid, hb.storable hrow, ⟨ev, hrow', rfl⟩, fun hendpoint => ?_⟩
          obtain ⟨ep, hep, hact⟩ := gone_run hgone hrun
          unfold Db.eventWithEndpoint at hview
          rw [hrow] at hview
          have hep? : b.world.db.endpoints.get? ev.endpointId = ep? :=
            (Prod.mk.inj (Option.some.inj hview)).2
          exact ⟨ep, by rw [← hep?, hendpoint, hep], hact⟩
        exact hbefore.step hb hs

/-! ### What a run of `deliver` does then -/

/-- How far a coroutine that delivers has come at the guards. -/
def Coroutine.guarded (th : Coroutine) : Guarded :=
  th.trace.foldl (fun p c => p.next c.1 c.2) .started

theorem Coroutine.guarded_answered (th : Coroutine) (e : Op) (r : Except PyExn e.Resp)
    (p : Relay Reply) (s : Session) :
    Coroutine.guarded (th.answered machine e r p s) = (Coroutine.guarded th).next e r := by
  simp only [Coroutine.guarded, Thread.answered, List.foldl_append, List.foldl_cons,
    List.foldl_nil]

section delivers

variable {t : ℕ} {eventId : UUID} {ev : WebhookEvent} {th : Coroutine}

/-- A coroutine that delivers meets its contract at the guards. -/
theorem Reaches.guards (h : Reaches deps ok c) (hth : th ∈ c.threads)
    (ho : th.origin.delivers = some eventId) :
    (guardContract eventId).Accepts .started th.trace ∧
      (th.prog.Obeys (guardContract eventId) Guarded.ends (Coroutine.guarded th) ∨
        th.prog = .raised .cancelled) :=
  h.obeys hth (jobProgram_guards deps ho)

/-- Its next call is one of its phase. -/
theorem Reaches.guards_allows (h : Reaches deps ok c) (hth : th ∈ c.threads)
    (ho : th.origin.delivers = some eventId) {e : Op} {k : Except PyExn e.Resp → Relay Reply}
    (hp : th.prog = .call e k) : (Coroutine.guarded th).allows eventId e ∧
      ∀ r, (k r).Obeys (guardContract eventId) Guarded.ends ((Coroutine.guarded th).next e r) := by
  rcases (h.guards hth ho).2 with hobeys | hcut
  · rw [hp] at hobeys
    exact hobeys
  · rw [hp] at hcut
    cases hcut

/-- The statements in its session are those of its phase. -/
theorem Reaches.guards_pending (h : Reaches deps ok c) (hth : th ∈ c.threads)
    (ho : th.origin.delivers = some eventId) (hend : th.prog.ended = false)
    (hstrict : (Coroutine.guarded th).strict) :
    th.session.pending = (Coroutine.guarded th).pending := by
  refine h.pending_eq (guard_tracks eventId) (Q := fun _ _ => True)
    (S := fun o => o.delivers = some eventId) (fun o ho => ?_) (fun _ h => h) th hth ho hend hstrict
  exact (jobProgram_guards deps ho).mono fun _ _ _ _ _ => trivial

/-- Coroutine `t` commits, and that moves an event to the dead letter queue without an attempt:
the status of its row is set and nothing else, and the queue has one entry more, for this event. -/
structure DeadLetters (t : ℕ) (eventId : UUID) (b : Config) (a : Action) (b' : Config) : Prop where
  taken : a.taken = some t
  row : ∃ r, b.world.db.events.get? eventId = some r ∧
    b'.world.db.events.get? eventId = some { r with status := .deadLettered }
  entry : ∃ d, d.eventId = eventId ∧
    b'.world.db.deadLetters.rows = b.world.db.deadLetters.rows ++ [d]

/-- The transaction of the branch for an inactive endpoint. -/
theorem deadLetters_of_commit (hb : Reaches deps ok b) (hth : th ∈ b.threads)
    {ep : WebhookEndpoint} {d : DeadLetterEvent} (hd : d.eventId = ev.id)
    (hterm : ev.status.terminal = false)
    (hpend : th.session.pending = (Exit.inactive d).writes ev ep)
    (hrow : ∃ r, b.world.db.events.get? ev.id = some r) (ha : a.taken = some t)
    (hw : b'.world.wal = b.world.wal ++ th.session.pending) :
    DeadLetters t ev.id b a b' := by
  rw [hpend] at hw
  have hdb := World.db_of_wal hw
  obtain ⟨r, hr⟩ := hrow
  refine ⟨ha, ⟨r, hr, ?_⟩, d, hd, ?_⟩
  · rw [hdb, Exit.events_get?, if_pos rfl, hr, Option.map_some]
    have hne : EventStatus.deadLettered ≠ ev.status := by
      intro h
      rw [← h] at hterm
      cases hterm
    simp [Exit.update, EventColumns.apply, EventColumns.diff, changed, deadLettered, hne]
  · have htakes : b.world.db.Takes ((Exit.inactive d).writes ev ep) := hpend ▸ hb.takes.2 th hth
    have hfree := htakes.missing (k := .deadLetter d.id) rfl
    rw [applyAll_flush] at hfree
    have hnone : b.world.db.deadLetters.get? d.id = none := by
      simpa [Db.holds] using hfree
    rw [hdb, Exit.deadLetters_eq]
    exact Table.rows_insert hnone

/-- **A run that settles its event during the ban dead-letters it.** -/
theorem settled_banned (h₀ : Reaches deps anyStep c₀) (hgone : c₀.world.db.Gone id)
    (hr : Runs (step deps) (KeepsGone deps id) c₀ c) {t : ℕ} (hyet : NotYet c₀ t Op.isLoad) :
    ∀ th, c.threads[t]? = some th → ∀ eventId ev, th.origin.delivers = some eventId →
      Coroutine.guarded th = .settled ev →
      Happened (step deps) (KeepsGone deps id) c₀ c (DeadLetters t ev.id) := by
  refine thread_invariant (J := fun c th => ∀ eventId ev, th.origin.delivers = some eventId →
    Coroutine.guarded th = .settled ev →
    Happened (step deps) (KeepsGone deps id) c₀ c (DeadLetters t ev.id)) hr ?_ ?_
  · intro th hth eventId ev ho hph
    have hm := List.mem_of_getElem? hth
    obtain ⟨ep, hread, -⟩ := guard_read (h₀.guards hm ho).1 (by
      change (Coroutine.guarded th).event? = some ev
      rw [hph]
      rfl)
    have hload := (hyet th hth).2 _ (List.mem_of_mem_head? hread)
    cases hload
  · intro b a b' hrun ha hs hJ th' hcame eventId ev ho hph
    have hb := h₀.run hrun
    cases hcame with
    | untouched hth => exact (hJ th' hth eventId ev ho hph).later ha hs
    | started => cases hph
    | killed hth => exact (hJ _ hth eventId ev ho hph).later ha hs
    | reaped hth horigin =>
      refine (hJ _ hth eventId ev ?_ hph).later ha hs
      rw [horigin]
      exact ho
    | answered hth hp hans =>
      rename_i th e k r s
      have hm := List.mem_of_getElem? hth
      rw [Coroutine.guarded_answered] at hph
      obtain ⟨ep, u, now, hentered, rfl, v, rfl⟩ :=
        Guarded.next_eq_settled (hb.guards_allows hm ho hp).1 hph
      obtain ⟨o, rfl, hexec⟩ := hans.of_ok
      obtain ⟨ep', hread, hterm⟩ := guard_read (hb.guards hm ho).1 (by
        change (Coroutine.guarded th).event? = some ev
        rw [hentered]
        rfl)
      have hbanned := read_banned h₀ hgone hrun hyet th hth eventId ev (some ep') ho hread
      have hpend := hb.guards_pending hm ho (by rw [hp]; rfl) (by rw [hentered]; trivial)
      rw [hentered] at hpend
      change th.session.pending = (Exit.inactive (Guarded.entry ev ep u now)).writes ev ep at hpend
      refine .now hrun hs (deadLetters_of_commit (d := Guarded.entry ev ep u now) hb hm
        rfl hterm hpend ⟨_, hbanned.row.choose_spec.1⟩ rfl ?_)
      have hw : b'.world = { b.world with wal := b.world.wal ++ th.session.pending } :=
        (Prod.mk.inj (Prod.mk.inj hexec).2).1.symm
      rw [hw]

/-- Coroutine `t` is hit by a failure, or cut off, or the identifier it has drawn for the entry is
taken. -/
def Hit (t : ℕ) (b : Config) (a : Action) (_ : Config) : Prop :=
  a.interrupts = some t ∨ ∃ th d k, b.threads[t]? = some th ∧
    th.prog = .call (.insertDeadLetter d) k ∧ b.world.db.holds (.deadLetter d.id) = true

/-- The entry of a stored event has values PostgreSQL takes. -/
theorem storable_entry (h : ev.storable = true) (ep : WebhookEndpoint) (u : UUID)
    (now : Datetime) : (Guarded.entry ev ep u now).storable = true := by
  have hmessage : (Str.lit "Endpoint is inactive").hasNul = false := by decide
  unfold WebhookEvent.storable at h
  simp only [Bool.and_eq_true] at h
  obtain ⟨⟨htype, hpayload⟩, -⟩ := h
  change (Json.storableItems ev.payload && fitsVarchar 255 ev.eventType &&
    !(Str.lit "Endpoint is inactive").hasNul && true) = true
  rw [hpayload, htype, hmessage]
  rfl

/-- A call at the guards that is executed fails only on an identifier that is taken. -/
theorem clash_of_error (hb : Reaches deps ok b) (hm : th ∈ b.threads)
    (ho : th.origin.delivers = some eventId) {e : Op} {k : Except PyExn e.Resp → Relay Reply}
    (hp : th.prog = .call e k) (hfree : (Coroutine.guarded th).free = false)
    (hread : ∀ ev ep?, th.trace.head? = some (loaded eventId ev ep?) →
      ev.storable = true ∧ ∃ r, b.world.db.events.get? ev.id = some r)
    {o : Oracle} {x : PyExn} (hx : (exec o e b.world th.session).1 = .error x) :
    ∃ d, e = .insertDeadLetter d ∧ b.world.db.holds (.deadLetter d.id) = true := by
  have hallow := (hb.guards_allows hm ho hp).1
  cases hph : Coroutine.guarded th with
  | active ev =>
    rw [hph] at hfree
    cases hfree
  | stamped ev ep u now =>
    rw [hph] at hallow
    obtain rfl : e = .insertDeadLetter (Guarded.entry ev ep u now) := hallow
    refine ⟨_, rfl, ?_⟩
    have hpend := hb.guards_pending hm ho (by rw [hp]; rfl) (by rw [hph]; trivial)
    obtain ⟨ep', hhead, -⟩ := guard_read (hb.guards hm ho).1 (by
      change (Coroutine.guarded th).event? = some ev
      rw [hph]
      rfl)
    obtain ⟨hstorable, r, hrow⟩ := hread ev (some ep') hhead
    rw [hph] at hpend
    -- the session holds the mark of the event, so it sees the committed entries and the event
    have hview : b.world.view th.session = b.world.db.applyAll (flush ev (deadLettered ev)) := by
      rw [World.view, hpend]
      rfl
    have hentries (d : UUID) : (b.world.view th.session).holds (.deadLetter d) =
        b.world.db.holds (.deadLetter d) := by
      rw [hview, applyAll_flush]
      rfl
    have hevent : (b.world.view th.session).holds (.event ev.id) = true := by
      rw [hview, applyAll_flush]
      refine (Table.isSome_get?_modify b.world.db.events ev.id ev.id _
        (EventColumns.diff ev (deadLettered ev)).apply_id).trans ?_
      rw [hrow]
      rfl
    change (flushed (.insertDeadLetter (Guarded.entry ev ep u now)) () b.world th.session).1 = _
      at hx
    by_contra hfree
    rw [Bool.not_eq_true] at hfree
    have hnone : (Op.insertDeadLetter (Guarded.entry ev ep u now)).violation
        (b.world.view th.session) = none := by
      change (if !(Guarded.entry ev ep u now).storable then some PyExn.dataError
        else if (b.world.view th.session).holds (.deadLetter (Guarded.entry ev ep u now).id) ||
          !(b.world.view th.session).holds (.event ev.id) then some .integrityError else none) = _
      rw [storable_entry hstorable, hentries, hfree, hevent]
      rfl
    rw [flushed_of_none hnone] at hx
    cases hx
  | _ =>
    rw [hph] at hallow
    first
      | exact hallow.elim
      | subst hallow; cases hx

/-- **A run that raises during the ban has been hit**, unless it has found another endpoint or
nothing to do. -/
theorem raised_banned (h₀ : Reaches deps anyStep c₀) (hgone : c₀.world.db.Gone id)
    (hr : Runs (step deps) (KeepsGone deps id) c₀ c) {t : ℕ} (hyet : NotYet c₀ t Op.isLoad) :
    ∀ th, c.threads[t]? = some th → ∀ eventId x, th.origin.delivers = some eventId →
      th.prog = .raised x → (Coroutine.guarded th).free = true ∨ Coroutine.guarded th = .idle ∨
        Happened (step deps) (KeepsGone deps id) c₀ c (Hit t) := by
  refine thread_invariant (J := fun c th => ∀ eventId x, th.origin.delivers = some eventId →
    th.prog = .raised x → (Coroutine.guarded th).free = true ∨ Coroutine.guarded th = .idle ∨
      Happened (step deps) (KeepsGone deps id) c₀ c (Hit t)) hr ?_ ?_
  · intro th hth eventId x _ hp
    have hlive := (hyet th hth).1
    rw [hp] at hlive
    cases hlive
  · intro b a b' hrun ha hs hJ th' hcame eventId x ho hprog
    have hb := h₀.run hrun
    have hlater {th : Coroutine} (h : (Coroutine.guarded th).free = true ∨
        Coroutine.guarded th = .idle ∨ Happened (step deps) (KeepsGone deps id) c₀ b (Hit t)) :
        (Coroutine.guarded th).free = true ∨ Coroutine.guarded th = .idle ∨
          Happened (step deps) (KeepsGone deps id) c₀ b' (Hit t) :=
      h.imp_right fun h => h.imp_right fun h => h.later ha hs
    cases hcame with
    | untouched hth => exact hlater (hJ th' hth eventId x ho hprog)
    | started hstarts =>
      cases hstarts with
      | request r => cases ho
      | cron => cases ho
      | job => cases hprog
    | killed hth hkill => exact Or.inr (Or.inr (.now hrun hs (Or.inl (by rw [hkill]; rfl))))
    | reaped hth horigin =>
      have h := hlater (hJ _ hth eventId x (by rw [horigin]; exact ho) hprog)
      exact h
    | answered hth hp hans =>
      rename_i th e k r s
      have hm := List.mem_of_getElem? hth
      obtain ⟨hallow, hobeys⟩ := hb.guards_allows hm ho hp
      have hends := hobeys r
      rw [show k r = .raised x from hprog] at hends
      rw [Coroutine.guarded_answered]
      cases hnext : (Coroutine.guarded th).next e r with
      | active ev => exact Or.inl rfl
      | idle => exact Or.inr (Or.inl rfl)
      | failed =>
        obtain ⟨hfree, y, rfl⟩ := Guarded.next_eq_failed hallow hnext
        refine Or.inr (Or.inr (.now hrun hs ?_))
        generalize hy : (Except.error y : Except PyExn e.Resp) = ry at hans
        generalize b'.world = w at hans
        cases hans with
        | lost o f => exact Or.inl rfl
        | late o f => exact Or.inl rfl
        | executed o =>
          have hread (ev : WebhookEvent) (ep? : Option WebhookEndpoint)
              (h : th.trace.head? = some (loaded eventId ev ep?)) :
              ev.storable = true ∧ ∃ r, b.world.db.events.get? ev.id = some r := by
            have hbanned := read_banned h₀ hgone hrun hyet th hth eventId ev ep? ho h
            exact ⟨hbanned.storable, _, hbanned.row.choose_spec.1⟩
          obtain ⟨d, rfl, hclash⟩ := clash_of_error hb hm ho hp hfree hread hy.symm
          exact Or.inr ⟨th, d, k, hth, hp, hclash⟩
      | _ =>
        rw [hnext] at hends
        exact hends.elim

end delivers

/-! ### What a request for an event does -/

/-- The call reads an endpoint by its id. -/
def Op.isEndpointRead : Op → Bool
  | .getEndpoint _ => true
  | _ => false

/-- How far a coroutine that creates an event has come at the guard. -/
def Coroutine.admission (th : Coroutine) : Admission :=
  th.trace.foldl (fun p c => p.next c.1 c.2) .started

theorem Coroutine.admission_answered (th : Coroutine) (e : Op) (r : Except PyExn e.Resp)
    (p : Relay Reply) (s : Session) :
    Coroutine.admission (th.answered machine e r p s) = (Coroutine.admission th).next e r := by
  simp only [Coroutine.admission, Thread.answered, List.foldl_append, List.foldl_cons,
    List.foldl_nil]

/-- Coroutine `t` is hit by a failure, or cut off. -/
def Interrupted (t : ℕ) (_ : Config) (a : Action) (_ : Config) : Prop := a.interrupts = some t

section requests

variable {t : ℕ} {data : EventCreate} {th : Coroutine}

/-- A coroutine that creates an event meets its contract at the guard. -/
theorem Reaches.admits (h : Reaches deps ok c) (hth : th ∈ c.threads)
    (ho : th.origin = .request (.createEvent data)) :
    (admissionContract data).Accepts .started th.trace ∧
      (th.prog.Obeys (admissionContract data) Admission.ends (Coroutine.admission th) ∨
        th.prog = .raised .cancelled) :=
  h.obeys hth (ho ▸ createEvent_admits data)

/-- Its next call is one of its phase. -/
theorem Reaches.admits_allows (h : Reaches deps ok c) (hth : th ∈ c.threads)
    (ho : th.origin = .request (.createEvent data)) {e : Op}
    {k : Except PyExn e.Resp → Relay Reply} (hp : th.prog = .call e k) :
    (Coroutine.admission th).allows data e ∧
      ∀ r, (k r).Obeys (admissionContract data) Admission.ends
        ((Coroutine.admission th).next e r) := by
  rcases (h.admits hth ho).2 with hobeys | hcut
  · rw [hp] at hobeys
    exact hobeys
  · rw [hp] at hcut
    cases hcut

/-- A request that is about to read its endpoint sees the committed tables. -/
theorem Reaches.admits_view (h : Reaches deps ok c) (hth : th ∈ c.threads)
    (ho : th.origin = .request (.createEvent data)) (hend : th.prog.ended = false)
    (hstart : Coroutine.admission th = .started) : c.world.view th.session = c.world.db := by
  have hpend : th.session.pending = [] := by
    refine h.pending_eq (admission_tracks data) (Q := fun _ _ => True)
      (S := fun o => o = .request (.createEvent data)) (fun o ho => ?_) (fun _ h => nomatch h) th
      hth ho hend ?_
    · rw [ho]
      exact (createEvent_admits data).mono fun _ _ _ _ _ => trivial
    · change (Coroutine.admission th).free = false ∧ Coroutine.admission th ≠ .failed
      rw [hstart]
      exact ⟨rfl, nofun⟩
  exact view_of_pending hpend

/-- The exceptions a request may raise during the ban. -/
def RefusedBy (deps : Deps) (id : UUID) (c₀ c : Config) (t : ℕ) (data : EventCreate)
    (x : PyExn) : Prop :=
  x = Admission.refusal ∨ (∃ key, data.idempotencyKey = some key ∧ key.hasNul = true) ∨
    Happened (step deps) (KeepsGone deps id) c₀ c (Interrupted t)

/-- A call of a request at the guard that is executed fails only on a key that the database turns
down. -/
theorem hasNul_of_error {p : Admission} {e : Op} (hallow : p.allows data e) (hfree : p.free = false)
    {o : Oracle} {w : World} {s : Session} {x : PyExn} (hx : (exec o e w s).1 = .error x) :
    ∃ key, data.idempotencyKey = some key ∧ key.hasNul = true := by
  cases p with
  | admitted => cases hfree
  | started =>
    rcases hallow with rfl | ⟨key, hkey, rfl⟩
    · cases hx
    · refine ⟨key, hkey, ?_⟩
      by_contra hnul
      have hnone : (Op.getEventByKey key).violation (w.view s) = none := if_neg hnul
      have hok : exec o (.getEventByKey key) w s = _ := flushed_of_none hnone _
      rw [hok] at hx
      cases hx
  | found row =>
    obtain rfl : e = .commit := hallow
    cases hx
  | _ => exact hallow.elim

/-- A call of a request at the guard that is answered during the ban: no active endpoint is read,
and what raises is the refusal. -/
theorem next_of_gone (hb : Reaches deps anyStep b) (hgone : b.world.db.Gone id)
    (hdata : data.endpointId = id) (hm : th ∈ b.threads)
    (ho : th.origin = .request (.createEvent data)) {e : Op}
    {k : Except PyExn e.Resp → Relay Reply} (hp : th.prog = .call e k)
    (hfree : (Coroutine.admission th).free = false) {o : Oracle} {v : e.Resp} {w : World}
    {s : Session} (hexec : exec o e b.world th.session = (.ok v, w, s)) :
    ((Coroutine.admission th).next e (.ok v)).free = false ∧
      ∀ x, Admission.ends (.error x) ((Coroutine.admission th).next e (.ok v)) →
        x = Admission.refusal := by
  have hallow := (hb.admits_allows hm ho hp).1
  cases hph : Coroutine.admission th with
  | admitted =>
    rw [hph] at hfree
    cases hfree
  | started =>
    rw [hph] at hallow
    rcases hallow with rfl | ⟨key, -, rfl⟩
    · have hview := hb.admits_view hm ho (by rw [hp]; rfl) hph
      have hv : (b.world.view th.session).endpoints.get? data.endpointId = v :=
        Except.ok.inj (Prod.mk.inj hexec).1
      obtain ⟨ep, hep, hact⟩ := hgone
      rw [hview, hdata, hep] at hv
      subst hv
      have hnext : Admission.next .started (.getEndpoint data.endpointId) (.ok (some ep)) =
          .refused := by
        simp [Admission.next, hact]
      rw [hnext]
      exact ⟨rfl, fun x hx => hx⟩
    · rcases v with _ | row
      · exact ⟨rfl, fun x hx => hx.elim⟩
      · exact ⟨rfl, fun x hx => hx.elim⟩
  | found row =>
    rw [hph] at hallow
    obtain rfl : e = .commit := hallow
    exact ⟨rfl, fun x hx => hx.elim⟩
  | _ =>
    rw [hph] at hallow
    exact hallow.elim

/-- The step of a request at the guard during the ban: it reads no active endpoint, and if it
raises, it is refused. -/
theorem admission_step (hb : Reaches deps anyStep b) (hgone : b.world.db.Gone id)
    (hdata : data.endpointId = id) (hrun : Runs (step deps) (KeepsGone deps id) c₀ b)
    (hs : step deps b a = some b') (hth : b.threads[t]? = some th)
    (ho : th.origin = .request (.createEvent data)) {e : Op}
    {k : Except PyExn e.Resp → Relay Reply} (hp : th.prog = .call e k)
    (hfree : (Coroutine.admission th).free = false) {r : Except PyExn e.Resp} {s : Session}
    (hans : Answers t (b.others t) e b.world th.session a r b'.world s) :
    ((Coroutine.admission th).next e r).free = false ∧
      ∀ x, k r = .raised x → RefusedBy deps id c₀ b' t data x := by
  have hm := List.mem_of_getElem? hth
  obtain ⟨hallow, hobeys⟩ := hb.admits_allows hm ho hp
  cases r with
  | error y =>
    rw [Admission.next_error hfree]
    refine ⟨rfl, fun x _ => Or.inr ?_⟩
    generalize hy : (Except.error y : Except PyExn e.Resp) = ry at hans
    generalize hw : b'.world = w at hans
    cases hans with
    | lost o f => exact Or.inr (.now hrun hs rfl)
    | late o f => exact Or.inr (.now hrun hs rfl)
    | executed o => exact Or.inl (hasNul_of_error hallow hfree hy.symm)
  | ok v =>
    obtain ⟨o, -, hexec⟩ := hans.of_ok
    obtain ⟨hnext, hrefused⟩ := next_of_gone hb hgone hdata hm ho hp hfree hexec
    refine ⟨hnext, fun x hx => Or.inl (hrefused x ?_)⟩
    have hends := hobeys (.ok v)
    rwa [hx] at hends

theorem RefusedBy.later {x : PyExn} (h : RefusedBy deps id c₀ b t data x)
    (ha : KeepsGone deps id b a) (hs : step deps b a = some b') :
    RefusedBy deps id c₀ b' t data x :=
  h.imp_right fun h => h.imp_right fun h => h.later ha hs

/-- **A request that reads its endpoint during the ban is refused.** -/
theorem refused_banned (h₀ : Reaches deps anyStep c₀) (hgone : c₀.world.db.Gone id)
    (hr : Runs (step deps) (KeepsGone deps id) c₀ c) {t : ℕ} (hyet : NotYet c₀ t Op.isEndpointRead)
    (hdata : data.endpointId = id) :
    ∀ th, c.threads[t]? = some th → th.origin = .request (.createEvent data) →
      (Coroutine.admission th).free = false ∧
        ∀ x, th.prog = .raised x → RefusedBy deps id c₀ c t data x := by
  refine thread_invariant (J := fun c th => th.origin = .request (.createEvent data) →
    (Coroutine.admission th).free = false ∧
      ∀ x, th.prog = .raised x → RefusedBy deps id c₀ c t data x) hr ?_ ?_
  · intro th hth ho
    obtain ⟨hlive, hcalls⟩ := hyet th hth
    refine ⟨?_, fun x hx => ?_⟩
    · rw [← Bool.not_eq_true]
      intro hfree
      obtain ⟨y, hy, he⟩ :=
        admission_read (p := .started) rfl (h₀.admits (List.mem_of_getElem? hth) ho).1 hfree
      have hfalse := hcalls y hy
      rw [he] at hfalse
      cases hfalse
    · rw [hx] at hlive
      cases hlive
  · intro b a b' hrun ha hs hJ th' hcame ho
    have hb := h₀.run hrun
    cases hcame with
    | untouched hth =>
      obtain ⟨hfree, hraised⟩ := hJ th' hth ho
      exact ⟨hfree, fun x hx => (hraised x hx).later ha hs⟩
    | started hstarts =>
      refine ⟨rfl, fun x hx => ?_⟩
      cases hstarts with
      | request r =>
        obtain rfl : r = .createEvent data := Origin.request.inj ho
        have hends := createEvent_admits data
        rw [show (Request.createEvent data).program = .raised x from hx] at hends
        exact hends.elim
      | job => cases ho
      | cron => cases ho
    | killed hth hkill =>
      refine ⟨(hJ _ hth ho).1, fun x _ => Or.inr (Or.inr (.now hrun hs ?_))⟩
      rw [hkill]
      rfl
    | reaped => cases ho
    | answered hth hp hans =>
      rw [Coroutine.admission_answered]
      exact admission_step hb (gone_run hgone hrun) hdata hrun hs hth ho hp (hJ _ hth ho).1 hans

end requests

/-! ### Left alone -/

/-- How the endpoint is left alone in the run from `c₀` to `c`. -/
structure LeftAlone (deps : Deps) (id : UUID) (c₀ c : Config) : Prop where
  /-- A run that has not loaded its event in `c₀` sends no POST to the endpoint. -/
  posts : ∀ t th eventId, c.threads[t]? = some th → th.origin.delivers = some eventId →
    NotYet c₀ t Op.isLoad →
    (∀ r, c.world.db.events.get? eventId = some r → r.endpointId = id) →
    ∀ x ∈ th.trace, x.1.isPost = false
  /-- When the event it has loaded was not terminal, it makes at most six calls, at most one of
  them a commit, and ends with the event dead-lettered, if it is not hit. -/
  deadLettered : ∀ t th eventId ev ep?, c.threads[t]? = some th →
    th.origin.delivers = some eventId → NotYet c₀ t Op.isLoad →
    th.trace.head? = some (loaded eventId ev ep?) → ev.endpointId = id →
    ev.status.terminal = false →
    th.trace.length ≤ 6 ∧ th.trace.countP (fun x => x.1.isCommit) ≤ 1 ∧
      (th.prog.ended = true →
        th.prog = .done (.delivery .deadLettered) ∧
            Happened (step deps) (KeepsGone deps id) c₀ c (DeadLetters t eventId) ∨
          Happened (step deps) (KeepsGone deps id) c₀ c (Hit t))
  /-- A request for an event that has not read the endpoint in `c₀` inserts no event and enqueues
  no job; it answers with the event its lookup has found, or it raises: "Endpoint is inactive",
  unless PostgreSQL does not take its key or it is interrupted. -/
  refused : ∀ t th data, c.threads[t]? = some th → th.origin = .request (.createEvent data) →
    data.endpointId = id → NotYet c₀ t Op.isEndpointRead →
    (∀ x ∈ th.trace, x.1.isIntake = false) ∧
      (th.prog.ended = true →
        (∃ row key, th.prog = .done (.event row) ∧ data.idempotencyKey = some key ∧
            ⟨.getEventByKey key, .ok (some row)⟩ ∈ th.trace) ∨
          ∃ x, th.prog = .raised x ∧ RefusedBy deps id c₀ c t data x)

section runs

variable {t : ℕ} {th : Coroutine} {eventId : UUID}

/-- A run that loads an event of the endpoint during the ban sends no POST. -/
theorem posts_banned (h₀ : Reaches deps anyStep c₀) (hgone : c₀.world.db.Gone id)
    (hr : Runs (step deps) (KeepsGone deps id) c₀ c) (hth : c.threads[t]? = some th)
    (ho : th.origin.delivers = some eventId) (hyet : NotYet c₀ t Op.isLoad)
    (hevent : ∀ r, c.world.db.events.get? eventId = some r → r.endpointId = id) :
    ∀ x ∈ th.trace, x.1.isPost = false := by
  rcases guard_cases ((h₀.run hr).guards (List.mem_of_getElem? hth) ho).1 with
    htrace | ⟨r, cs, htrace, hrest⟩
  · rw [htrace]
    exact fun x hx => nomatch hx
  · have hfree : (Guarded.next .started (.getEventWithEndpoint eventId) r).free = false := by
      rcases r with x | _ | ⟨ev, _ | ep⟩
      · rfl
      · rfl
      · rfl
      · have hbanned := read_banned h₀ hgone hr hyet th hth eventId ev (some ep) ho
          (by rw [htrace]; rfl)
        obtain ⟨row, hrow, hid⟩ := hbanned.row
        rw [hbanned.eventId] at hrow
        obtain ⟨ep', hep', hact⟩ := hbanned.inactive (hid.symm.trans (hevent row hrow))
        cases hep'
        change (Guarded.ofRead ev ep).free = false
        unfold Guarded.ofRead
        rw [hact]
        cases ev.status.terminal <;> rfl
    rw [htrace]
    intro x hx
    rcases List.mem_cons.mp hx with rfl | hx
    · rfl
    · exact guard_isPost (Guarded.next_ne_started _ _ _) hfree hrest x hx

/-- A run that has read an event that is not terminal, and an inactive endpoint, makes six calls
at most, and at most one of them is a commit. -/
theorem guard_calls_of_read {ev : WebhookEvent} {ep : WebhookEndpoint}
    {cs : List (Call relay PyExn)} (h : (guardContract eventId).Accepts .started cs)
    (hread : cs.head? = some (loaded eventId ev (some ep))) (hterm : ev.status.terminal = false)
    (hact : ep.isActive = false) :
    cs.length ≤ 6 ∧ cs.countP (fun x => x.1.isCommit) ≤ 1 := by
  rcases guard_cases h with rfl | ⟨r, cs', rfl, hrest⟩
  · cases hread
  · obtain ⟨rfl⟩ := hread
    have hfirst : Guarded.next .started (.getEventWithEndpoint eventId)
        (.ok (some (ev, some ep))) = .inactive ev ep := by
      change Guarded.ofRead ev ep = _
      unfold Guarded.ofRead
      rw [hterm, hact]
      rfl
    rw [hfirst] at hrest
    obtain ⟨hlen, hcommits⟩ := guard_calls (p := .inactive ev ep) nofun rfl hrest
    exact ⟨Nat.succ_le_succ hlen, hcommits⟩

/-- A run that has loaded an event of the endpoint during the ban, one that is not terminal, and
has ended, has dead-lettered the event or was hit. -/
theorem ended_banned (h₀ : Reaches deps anyStep c₀) (hgone : c₀.world.db.Gone id)
    (hr : Runs (step deps) (KeepsGone deps id) c₀ c) (hth : c.threads[t]? = some th)
    (ho : th.origin.delivers = some eventId) (hyet : NotYet c₀ t Op.isLoad) {ev : WebhookEvent}
    {ep : WebhookEndpoint} (hread : th.trace.head? = some (loaded eventId ev (some ep)))
    (hterm : ev.status.terminal = false) (hact : ep.isActive = false)
    (hend : th.prog.ended = true) :
    th.prog = .done (.delivery .deadLettered) ∧
        Happened (step deps) (KeepsGone deps id) c₀ c (DeadLetters t eventId) ∨
      Happened (step deps) (KeepsGone deps id) c₀ c (Hit t) := by
  obtain ⟨haccepts, hobeys⟩ := (h₀.run hr).guards (List.mem_of_getElem? hth) ho
  have hphase : (Coroutine.guarded th).event? = some ev ∨ Coroutine.guarded th = .failed :=
    guard_of_read haccepts hread hterm hact
  have hbusy : (Coroutine.guarded th).free = false ∧ Coroutine.guarded th ≠ .idle := by
    rcases hphase with h | h
    · cases hph : Coroutine.guarded th with
      | active ev =>
        rw [hph] at h
        cases h
      | idle =>
        rw [hph] at h
        cases h
      | _ => exact ⟨rfl, nofun⟩
    · rw [h]
      exact ⟨rfl, nofun⟩
  cases hp : th.prog with
  | call e k =>
    rw [hp] at hend
    cases hend
  | done reply =>
    left
    rw [hp] at hobeys
    have hends : Guarded.ends (.ok reply) (Coroutine.guarded th) := hobeys.resolve_right nofun
    cases hph : Coroutine.guarded th with
    | settled ev' =>
      rw [hph] at hends hphase
      obtain rfl : ev' = ev := Option.some.inj (hphase.resolve_right nofun)
      have hid := (read_banned h₀ hgone hr hyet th hth eventId ev' _ ho hread).eventId
      refine ⟨congrArg Prog.done hends, ?_⟩
      rw [← hid]
      exact settled_banned h₀ hgone hr hyet th hth eventId ev' ho hph
    | active ev' =>
      rw [hph] at hbusy
      cases hbusy.1
    | idle => exact absurd hph hbusy.2
    | _ =>
      rw [hph] at hends
      exact hends.elim
  | raised x =>
    right
    rcases raised_banned h₀ hgone hr hyet th hth eventId x ho hp with hfree | hidle | hhit
    · exact Bool.noConfusion (hbusy.1.symm.trans hfree)
    · exact absurd hidle hbusy.2
    · exact hhit

/-- How a request that reads its endpoint during the ban ends. -/
theorem request_banned (h₀ : Reaches deps anyStep c₀) (hgone : c₀.world.db.Gone id)
    (hr : Runs (step deps) (KeepsGone deps id) c₀ c) (hth : c.threads[t]? = some th)
    {data : EventCreate} (ho : th.origin = .request (.createEvent data))
    (hdata : data.endpointId = id) (hyet : NotYet c₀ t Op.isEndpointRead)
    (hend : th.prog.ended = true) :
    (∃ row key, th.prog = .done (.event row) ∧ data.idempotencyKey = some key ∧
        ⟨.getEventByKey key, .ok (some row)⟩ ∈ th.trace) ∨
      ∃ x, th.prog = .raised x ∧ RefusedBy deps id c₀ c t data x := by
  obtain ⟨hfree, hraised⟩ := refused_banned h₀ hgone hr hyet hdata th hth ho
  obtain ⟨haccepts, hobeys⟩ := (h₀.run hr).admits (List.mem_of_getElem? hth) ho
  cases hp : th.prog with
  | call e k =>
    rw [hp] at hend
    cases hend
  | raised x => exact Or.inr ⟨x, rfl, hraised x hp⟩
  | done reply =>
    left
    rw [hp] at hobeys
    have hends : Admission.ends (.ok reply) (Coroutine.admission th) := hobeys.resolve_right nofun
    cases hph : Coroutine.admission th with
    | answered row =>
      rw [hph] at hends
      rcases admission_found haccepts hph with h | h | ⟨-, key, hkey, hmem⟩
      · cases h
      · cases h
      · exact ⟨row, key, congrArg Prog.done hends, hkey, hmem⟩
    | admitted =>
      rw [hph] at hfree
      cases hfree
    | _ =>
      rw [hph] at hends
      exact hends.elim

end runs

/-- **A gone endpoint is left alone**: after a commit that deactivates it, in every run in which no
commit sets its `is_active` to true. -/
theorem gone_endpoint_left_alone (hb : Reaches deps anyStep b) (hs : step deps b a = some c₀)
    (hd : Deactivates b c₀ id) (hr : Runs (step deps) (KeepsGone deps id) c₀ c) :
    LeftAlone deps id c₀ c := by
  have hrun₀ : Runs (step deps) anyStep b c₀ := .single ⟨a, trivial, hs⟩
  have h₀ : Reaches deps anyStep c₀ := hb.run hrun₀
  have hgone := hd.gone hs
  refine ⟨fun t th eventId hth ho hyet => posts_banned h₀ hgone hr hth ho hyet,
    fun t th eventId ev ep? hth ho hyet hread hendpoint hterm => ?_,
    fun t th data hth ho hdata hyet => ⟨?_, request_banned h₀ hgone hr hth ho hdata hyet⟩⟩
  · obtain ⟨ep, rfl, hact⟩ :=
      (read_banned h₀ hgone hr hyet th hth eventId ev ep? ho hread).inactive hendpoint
    have hguards := (h₀.run hr).guards (List.mem_of_getElem? hth) ho
    obtain ⟨hlen, hcommits⟩ := guard_calls_of_read hguards.1 hread hterm hact
    exact ⟨hlen, hcommits, ended_banned h₀ hgone hr hth ho hyet hread hterm hact⟩
  · exact admission_isIntake ((h₀.run hr).admits (List.mem_of_getElem? hth) ho).1
      (refused_banned h₀ hgone hr hyet hdata th hth ho).1

/-- A 410 response deactivates the endpoint of two events; the other one is dead-lettered without a
POST, and a request for a third one is refused. -/
theorem gone_endpoint_left_alone_after_410 : ∃ b a c₀ c, Reaches Sample.deps anyStep b ∧
    step Sample.deps b a = some c₀ ∧ Deactivates b c₀ (Sample.id 1) ∧
    c.world.posts.length = 1 ∧
    (c.world.db.events.get? (Sample.id 4)).map WebhookEvent.status = some .deadLettered ∧
    c.world.db.deadLetters.rows.length = 2 ∧ c.world.db.events.rows.length = 2 ∧
    LeftAlone Sample.deps (Sample.id 1) c₀ c := by
  have hrun : (runActs (step Sample.deps) (fun _ _ => true) (initial Sample.start)
      (Sample.setup Sample.shop Sample.order ++
        Sample.request 2 6 (.createEvent Sample.order) (Sample.oracle 4 .cancelled) ++
        Sample.job 3 16 (Sample.oracle 3 (Sample.response 410 [])))).any (fun b =>
      (step Sample.deps b (.call 3 (Sample.oracle 3 .cancelled))).any fun c₀ =>
        decide (Deactivates b c₀ (Sample.id 1)) &&
          (runActs (step Sample.deps)
            (fun c a => decide (KeepsGone Sample.deps (Sample.id 1) c a)) c₀
            (.startJob (Sample.id 4) :: Sample.calls 4 6 (Sample.oracle 5 .cancelled) ++
              Sample.request 5 1 (.createEvent Sample.order) (Sample.oracle 6 .cancelled))).any
            fun c => decide (c.world.posts.length = 1 ∧
              (c.world.db.events.get? (Sample.id 4)).map WebhookEvent.status =
                some .deadLettered ∧
              c.world.db.deadLetters.rows.length = 2 ∧
              c.world.db.events.rows.length = 2)) = true := by
    decide +kernel
  obtain ⟨b, hb, hrest⟩ := exists_run anyStep (fun _ _ _ => trivial) hrun
  obtain ⟨c₀, hs, hrest⟩ := (Option.any_eq_true _ _).mp hrest
  obtain ⟨hd, hrest⟩ := Bool.and_eq_true_iff.mp hrest
  obtain ⟨c, hc, hfacts⟩ :=
    exists_run (KeepsGone Sample.deps (Sample.id 1)) (fun _ _ => of_decide_eq_true) hrest
  obtain ⟨hposts, hstatus, hentries, hevents⟩ := of_decide_eq_true hfacts
  have hreach : Reaches Sample.deps anyStep b := ⟨Sample.start, hb⟩
  exact ⟨b, _, c₀, c, hreach, hs, of_decide_eq_true hd, hposts, hstatus, hentries, hevents,
    gone_endpoint_left_alone hreach hs (of_decide_eq_true hd) hc⟩

end WebhookRelay

import WebhookRelay.Runs.Coroutines
import Mathlib.Data.List.Induction

/-!
# Rows and snapshots

A run of `deliver` decides on the rows it has read, and other runs may have committed since. What
holds under every interleaving is that a committed row only moves on (`WebhookEvent.Later`): its
fixed columns stay, it never becomes `pending` again, and its times are never taken back to null.
So the rows of a run are an earlier version of the committed ones (`Snapshot`).

`Sound` is the invariant of every reachable state: the budgets are within their bounds, a row
that is not terminal is pending without a time of the next try or failed with one
(`WebhookEvent.Settled`), and every run has a snapshot.
-/

namespace WebhookRelay

open Data Effect EventRepository

/-! ### Rows -/

/-- A row as it may be committed. -/
def WebhookEvent.Settled (r : WebhookEvent) : Prop :=
  (r.status = .pending ∧ r.nextRetryAt = none) ∨
    (r.status = .failed ∧ r.nextRetryAt.isSome = true) ∨ r.status.terminal = true

/-- A later version of a row. -/
structure WebhookEvent.Later (old new : WebhookEvent) : Prop where
  id : new.id = old.id
  endpointId : new.endpointId = old.endpointId
  eventType : new.eventType = old.eventType
  payload : new.payload = old.payload
  status : old.status ≠ .pending → new.status ≠ .pending
  nextRetryAt : old.nextRetryAt.isSome = true → new.nextRetryAt.isSome = true
  deliveredAt : old.deliveredAt.isSome = true → new.deliveredAt.isSome = true

theorem WebhookEvent.Later.refl (r : WebhookEvent) : r.Later r :=
  ⟨rfl, rfl, rfl, rfl, fun h => h, fun h => h, fun h => h⟩

theorem WebhookEvent.Later.trans {r r' r'' : WebhookEvent} (h : r.Later r') (h' : r'.Later r'') :
    r.Later r'' where
  id := h'.id.trans h.id
  endpointId := h'.endpointId.trans h.endpointId
  eventType := h'.eventType.trans h.eventType
  payload := h'.payload.trans h.payload
  status hs := h'.status (h.status hs)
  nextRetryAt hs := h'.nextRetryAt (h.nextRetryAt hs)
  deliveredAt hs := h'.deliveredAt (h.deliveredAt hs)

/-- A new row is settled. -/
theorem WebhookEvent.IsNew.settled {r : WebhookEvent} (h : r.IsNew) : r.Settled :=
  Or.inl ⟨h.status, h.nextRetryAt⟩

section exits

variable {ev : WebhookEvent} {ep : WebhookEndpoint} {x : Exit} {r : WebhookEvent}

/-- No exit leaves an event pending. -/
theorem Exit.status_ne_pending (x : Exit) : x.status ≠ .pending := by
  cases x <;> exact fun h => nomatch h

/-- An exit moves the row on. -/
theorem Exit.later_update (x : Exit) (hterm : ev.status.terminal = false)
    (r : WebhookEvent) : r.Later (x.update ev r) where
  id := x.update_id r
  endpointId := x.update_endpointId r
  eventType := x.update_eventType r
  payload := x.update_payload r
  status hs := by
    rw [x.update_status r hterm]
    split_ifs
    · exact hs
    · exact x.status_ne_pending
  nextRetryAt hs := by
    rw [x.update_nextRetryAt r]
    split_ifs with h
    · exact h.1
    · exact hs
  deliveredAt hs := by
    rw [x.update_deliveredAt r]
    cases x with
    | delivered a t =>
      dsimp only
      split_ifs
      · exact hs
      · rfl
    | _ => exact hs

/-- An exit that was decided on an earlier version of a settled row leaves a settled row. -/
theorem Exit.settled_update (x : Exit) (hterm : ev.status.terminal = false) (hlater : ev.Later r)
    (hr : r.Settled) : (x.update ev r).Settled := by
  -- an exit that puts the event off leaves a time of the next try, written or kept
  have hnext (hx : x.next?.isSome = true) : (x.update ev r).nextRetryAt.isSome = true := by
    rw [x.update_nextRetryAt r]
    split_ifs with h
    · exact hx
    · have he : ev.nextRetryAt = x.next? := not_not.mp fun hne => h ⟨hx, hne⟩
      exact hlater.nextRetryAt (he ▸ hx)
  unfold WebhookEvent.Settled
  rw [x.update_status r hterm]
  split_ifs with h
  · have hx : x.next?.isSome = true := by
      cases x <;> first | rfl | exact Bool.noConfusion (h.1 : false = true)
    rcases hr with ⟨hs, -⟩ | ⟨hs, -⟩ | hs
    · exact absurd hs (hlater.status (by rw [h.2]; decide))
    · exact Or.inr (Or.inl ⟨hs, hnext hx⟩)
    · exact Or.inr (Or.inr hs)
  · cases x with
    | refused t => exact Or.inr (Or.inl ⟨rfl, hnext rfl⟩)
    | retried a t => exact Or.inr (Or.inl ⟨rfl, hnext rfl⟩)
    | _ => exact Or.inr (Or.inr rfl)

end exits

/-! ### Tables under benign statements -/

/-- A benign statement leaves every event as it is, and may insert a new one. -/
theorem Write.Benign.events_get? {w : Write} (h : w.Benign) (db : Db) (id : UUID) :
    (db.apply w).events.get? id = db.events.get? id ∨
      db.events.get? id = none ∧ ∃ r, (db.apply w).events.get? id = some r ∧ r.IsNew := by
  cases w with
  | insertEvent r =>
    change (db.events.insert r).get? id = _ ∨ _ ∧ ∃ r', (db.events.insert r).get? id = _ ∧ _
    cases hr : db.events.get? r.id with
    | some r' =>
      rw [Table.insert_of_get? hr]
      exact Or.inl rfl
    | none =>
      rw [Table.get?_insert hr]
      split_ifs with hid
      · subst hid
        exact Or.inr ⟨hr, r, rfl, h⟩
      · exact Or.inl rfl
  | updateEvent id u => exact h.elim
  | _ => exact Or.inl rfl

/-- A list of benign statements leaves every event as it is, and may insert new ones. -/
theorem benign_events_get? {ws : List Write} (h : ∀ w ∈ ws, w.Benign) (db : Db) (id : UUID) :
    (db.applyAll ws).events.get? id = db.events.get? id ∨
      db.events.get? id = none ∧ ∃ r, (db.applyAll ws).events.get? id = some r ∧ r.IsNew := by
  induction ws generalizing db with
  | nil => exact Or.inl rfl
  | cons w ws ih =>
    have hw := (h w List.mem_cons_self).events_get? db id
    rcases ih (fun w' hw' => h w' (List.mem_cons_of_mem _ hw')) (db.apply w) with h' | ⟨h', hnew⟩
    · rw [Db.applyAll_cons, h']
      exact hw
    · rcases hw with hw | ⟨-, r, hr, -⟩
      · exact Or.inr ⟨hw ▸ h', hnew⟩
      · rw [hr] at h'
        cases h'

/-- The budgets of all endpoints are within their bounds. -/
def Db.BudgetsOk (db : Db) : Prop :=
  ∀ id ep, db.endpoints.get? id = some ep → budgetOk ep.maxRetries

/-- A benign statement keeps the budgets within their bounds. -/
theorem Write.Benign.budgetsOk {w : Write} (h : w.Benign) {db : Db} (hdb : db.BudgetsOk) :
    (db.apply w).BudgetsOk := by
  intro id ep hep
  cases w with
  | insertEndpoint r =>
    change (db.endpoints.insert r).get? id = _ at hep
    cases hr : db.endpoints.get? r.id with
    | some r' =>
      rw [Table.insert_of_get? hr] at hep
      exact hdb id ep hep
    | none =>
      rw [Table.get?_insert hr] at hep
      split_ifs at hep
      · cases hep
        exact h
      · exact hdb id ep hep
  | updateEndpoint id' u =>
    change (db.endpoints.modify id' u.apply u.apply_id).get? id = _ at hep
    rw [Table.get?_modify] at hep
    split_ifs at hep
    · obtain ⟨r, hr, rfl⟩ := Option.map_eq_some_iff.mp hep
      change budgetOk (u.maxRetries.getD r.maxRetries)
      cases hm : u.maxRetries with
      | none => exact hdb id r hr
      | some n => exact h n hm
    · exact hdb id ep hep
  | updateEvent id u => exact h.elim
  | insertAttempt r => exact h.elim
  | insertDeadLetter r => exact h.elim
  | _ => exact hdb id ep hep

/-- A list of benign statements keeps the budgets within their bounds. -/
theorem benign_budgetsOk {ws : List Write} (h : ∀ w ∈ ws, w.Benign) {db : Db}
    (hdb : db.BudgetsOk) : (db.applyAll ws).BudgetsOk := by
  induction ws generalizing db with
  | nil => exact hdb
  | cons w ws ih =>
    exact ih (fun w' hw' => h w' (List.mem_cons_of_mem _ hw'))
      ((h w List.mem_cons_self).budgetsOk hdb)

/-- An exit keeps the budgets within their bounds. -/
theorem Exit.budgetsOk (x : Exit) (ev : WebhookEvent) (ep : WebhookEndpoint) {db : Db}
    (hdb : db.BudgetsOk) : (db.applyAll (x.writes ev ep)).BudgetsOk := by
  intro id ep' hep
  rw [x.endpoints_get? db id] at hep
  split_ifs at hep
  · obtain ⟨r, hr, rfl⟩ := Option.map_eq_some_iff.mp hep
    exact hdb id r hr
  · exact hdb id ep' hep

/-! ### Events that are there -/

/-- Some statement inserts the event. -/
def Inserts (ws : List Write) (id : UUID) : Prop := ∃ r, Write.insertEvent r ∈ ws ∧ r.id = id

/-- The statement inserts the event. -/
def Write.insertsEvent (id : UUID) : Write → Bool
  | .insertEvent r => decide (r.id = id)
  | _ => false

theorem inserts_iff {ws : List Write} {id : UUID} :
    Inserts ws id ↔ ∃ w ∈ ws, w.insertsEvent id = true := by
  constructor
  · rintro ⟨r, hr, hid⟩
    exact ⟨_, hr, decide_eq_true hid⟩
  · rintro ⟨w, hw, hid⟩
    cases w with
    | insertEvent r => exact ⟨r, hw, of_decide_eq_true hid⟩
    | _ => cases hid

instance (ws : List Write) (id : UUID) : Decidable (Inserts ws id) :=
  decidable_of_iff _ inserts_iff.symm

/-- An event is there after a list of statements if and only if it was, or one inserts it. -/
theorem isSome_events_applyAll (ws : List Write) (db : Db) (id : UUID) :
    ((db.applyAll ws).events.get? id).isSome = true ↔
      (db.events.get? id).isSome = true ∨ Inserts ws id := by
  have hstep (db : Db) (w : Write) : ((db.apply w).events.get? id).isSome = true ↔
      (db.events.get? id).isSome = true ∨ w.insertsEvent id = true := by
    cases w with
    | insertEvent r => exact (Table.isSome_get?_insert _ r id).trans (by simp [Write.insertsEvent])
    | updateEvent id' u =>
      change ((db.events.modify id' u.apply u.apply_id).get? id).isSome = true ↔ _
      rw [Table.isSome_get?_modify]
      simp [Write.insertsEvent]
    | _ => simp [Db.apply, Write.insertsEvent]
  rw [inserts_iff]
  exact Db.applyAll_iff (P := fun db => (db.events.get? id).isSome = true) hstep ws db

/-! ### Budgets an endpoint has had -/

/-- After some of the statements of the log, the endpoint had this `max_retries`. -/
def EverHad (wal : List Write) (endpointId : UUID) (m : ℕ) : Prop :=
  ∃ ws, ws <+: wal ∧ ∃ ep, (Db.empty.applyAll ws).endpoints.get? endpointId = some ep ∧
    ep.maxRetries = m

/-- The log only grows. -/
theorem EverHad.mono {wal ws : List Write} {id : UUID} {m : ℕ} (h : EverHad wal id m) :
    EverHad (wal ++ ws) id m := by
  obtain ⟨ws', hws, hep⟩ := h
  exact ⟨ws', hws.trans (List.prefix_append wal ws), hep⟩

/-! ### Snapshots -/

/-- The rows of a run, next to the log. -/
structure Snapshot (w : World) (ev : WebhookEvent) (ep : WebhookEndpoint) : Prop where
  row : ∃ r, w.db.events.get? ev.id = some r ∧ ev.Later r
  settled : ev.Settled
  endpointId : ep.id = ev.endpointId
  budget : budgetOk ep.maxRetries
  everHad : EverHad w.wal ep.id ep.maxRetries

/-- Every row of the events is there in a later version. -/
def World.MovesOn (w w' : World) : Prop :=
  ∀ id r, w.db.events.get? id = some r → ∃ r', w'.db.events.get? id = some r' ∧ r.Later r'

/-- A snapshot stays one while the rows move on. -/
theorem Snapshot.mono {w w' : World} {ev : WebhookEvent} {ep : WebhookEndpoint}
    (h : Snapshot w ev ep) (hrows : w.MovesOn w') (hlog : ∃ ws, w'.wal = w.wal ++ ws) :
    Snapshot w' ev ep := by
  obtain ⟨r, hr, hlater⟩ := h.row
  obtain ⟨r', hr', hlater'⟩ := hrows ev.id r hr
  obtain ⟨ws, hws⟩ := hlog
  refine ⟨⟨r', hr', hlater.trans hlater'⟩, h.settled, h.endpointId, h.budget, ?_⟩
  rw [hws]
  exact h.everHad.mono

/-- The row that is read is the one that was asked for. -/
theorem id_of_read {db : Db} {id : UUID} {ev : WebhookEvent} {ep? : Option WebhookEndpoint}
    (h : db.eventWithEndpoint id = some (ev, ep?)) : db.events.get? id = some ev ∧ ev.id = id := by
  unfold Db.eventWithEndpoint at h
  obtain ⟨r, hr, he⟩ := Option.map_eq_some_iff.mp h
  obtain ⟨rfl, -⟩ := Prod.mk.inj he
  exact ⟨hr, Table.key_of_get? hr⟩

/-- The rows that are read are a snapshot. -/
theorem snapshot_of_read {w : World} {id : UUID} {ev : WebhookEvent} {ep : WebhookEndpoint}
    (h : w.db.eventWithEndpoint id = some (ev, some ep))
    (hsettled : ∀ id r, w.db.events.get? id = some r → r.Settled) (hbudgets : w.db.BudgetsOk) :
    Snapshot w ev ep := by
  unfold Db.eventWithEndpoint at h
  obtain ⟨r, hr, he⟩ := Option.map_eq_some_iff.mp h
  obtain ⟨rfl, hep⟩ := Prod.mk.inj he
  have hid := Table.key_of_get? hr
  refine ⟨⟨r, hid ▸ hr, .refl r⟩, hsettled id r hr, Table.key_of_get? hep, hbudgets _ _ hep, ?_⟩
  refine ⟨w.wal, List.prefix_rfl, ep, ?_, rfl⟩
  rw [Table.key_of_get? hep]
  exact hep

/-! ### The invariant -/

/-- A run of `deliver` on its way, with the rows it has read and the statements it has flushed. -/
def Coroutine.Runs (th : Coroutine) (ev : WebhookEvent) (ep : WebhookEndpoint)
    (ws : List Write) : Prop :=
  th.origin.delivers.isSome = true ∧ th.prog.ended = false ∧ Coroutine.phase th = .loaded ev ep ws

/-- What holds in every reachable state. -/
structure Sound (c : Config) : Prop where
  budgets : c.world.db.BudgetsOk
  settled : ∀ id r, c.world.db.events.get? id = some r → r.Settled
  snapshots : ∀ th ∈ c.threads, ∀ ev ep ws, Coroutine.Runs th ev ep ws →
    th.origin.delivers = some ev.id ∧ Snapshot c.world ev ep

variable {deps : Deps} {ok : Config → Action → Prop} {c c' : Config} {a : Action}

/-- The tables after a longer log. -/
theorem World.db_of_wal {w w' : World} {ws : List Write} (h : w'.wal = w.wal ++ ws) :
    w'.db = w.db.applyAll ws := by
  rw [World.db, h, Db.applyAll_append, World.db]

/-- The rows of the events after a step, each new or a later version of what it was. -/
theorem Commits.events (h : Commits c c' a) (hsound : Sound c) :
    c.world.MovesOn c'.world ∧
      ∀ id r', c'.world.db.events.get? id = some r' → r'.Settled := by
  cases h with
  | nothing hw =>
    have hdb : c'.world.db = c.world.db := by rw [World.db, hw, World.db]
    refine ⟨fun id r hr => ⟨r, hdb ▸ hr, .refl r⟩, fun id r hr => hsound.settled id r (hdb ▸ hr)⟩
  | benign ws hws hw =>
    have hdb := World.db_of_wal hw
    refine ⟨fun id r hr => ?_, fun id r' hr' => ?_⟩
    · rcases benign_events_get? hws c.world.db id with h | ⟨h, -⟩
      · exact ⟨r, by rw [hdb, h, hr], .refl r⟩
      · rw [hr] at h
        cases h
    · rcases benign_events_get? hws c.world.db id with h | ⟨-, r, hr, hnew⟩
      · exact hsound.settled id r' (by rw [← h, ← hdb, hr'])
      · rw [← hdb, hr'] at hr
        cases hr
        exact hnew.settled
  | exit t ev ep x ha hc hterm hx hw =>
    have hdb := World.db_of_wal hw
    obtain ⟨th, id', k, hth, ho, hp, hph⟩ := committing?_eq_some.mp hc
    obtain ⟨-, hsnap⟩ := hsound.snapshots th (List.mem_of_getElem? hth) ev ep _
      ⟨by rw [ho]; rfl, by rw [hp]; rfl, hph⟩
    refine ⟨fun id r hr => ?_, fun id r' hr' => ?_⟩
    · rw [hdb, x.events_get?, hr]
      split_ifs
      · exact ⟨_, rfl, x.later_update hterm r⟩
      · exact ⟨r, rfl, .refl r⟩
    · rw [hdb, x.events_get?] at hr'
      split_ifs at hr' with hid
      · obtain ⟨r, hr, rfl⟩ := Option.map_eq_some_iff.mp hr'
        subst hid
        obtain ⟨r₀, hr₀, hlater⟩ := hsnap.row
        rw [hr] at hr₀
        cases hr₀
        exact x.settled_update hterm hlater (hsound.settled _ r hr)
      · exact hsound.settled id r' hr'

/-- The log only grows. -/
theorem Commits.log (h : Commits c c' a) : ∃ ws, c'.world.wal = c.world.wal ++ ws := by
  cases h with
  | nothing hw => exact ⟨[], by rw [hw, List.append_nil]⟩
  | benign ws _ hw => exact ⟨ws, hw⟩
  | exit _ _ _ x _ _ _ _ hw => exact ⟨_, hw⟩

/-- Budgets stay within their bounds. -/
theorem Commits.budgetsOk (h : Commits c c' a) (hdb : c.world.db.BudgetsOk) :
    c'.world.db.BudgetsOk := by
  cases h with
  | nothing hw => rwa [show c'.world.db = c.world.db by rw [World.db, hw, World.db]]
  | benign ws hws hw =>
    rw [World.db_of_wal hw]
    exact benign_budgetsOk hws hdb
  | exit _ ev ep x _ _ _ _ hw =>
    rw [World.db_of_wal hw]
    exact x.budgetsOk ev ep hdb

/-- The rows a coroutine has read stay the same through an answer, or have just been read; in
neither case has it committed. -/
theorem runs_answered {th : Coroutine} {t : ℕ} {others : List Session} {e : Op}
    {k : Except PyExn e.Resp → Relay Reply} {r : Except PyExn e.Resp} {w w' : World} {s : Session}
    (hl : Coroutine.Lawful th) (hf : ∀ id, th.origin.delivers = some id →
      th.Follows (deliverContract id) (fun _ _ => True) .started) (hp : th.prog = .call e k)
    (ha : Answers t others e w th.session a r w' s) {ev : WebhookEvent} {ep : WebhookEndpoint}
    {ws : List Write} (h : Coroutine.Runs (th.answered machine e r (k r) s) ev ep ws) :
    w'.wal = w.wal ∧ ((∃ ws', Coroutine.Runs th ev ep ws') ∨
      ∃ id, th.origin.delivers = some id ∧ w.db.eventWithEndpoint id = some (ev, some ep)) := by
  obtain ⟨ho, hend, hph⟩ := h
  have hlive : th.prog.ended = false := by rw [hp]; rfl
  rw [Coroutine.phase_answered] at hph
  refine ⟨?_, ?_⟩
  · have hne : e ≠ .commit := by
      rintro rfl
      rw [Phase.next_commit] at hph
      cases hph
    rcases ha.wal with hw | hcommit
    · exact hw
    · cases e with
      | commit => exact absurd rfl hne
      | _ => cases hcommit.1
  rcases Phase.next_eq_loaded hph with ⟨ws', hws'⟩ | ⟨hstart, id, rfl, hr⟩
  · exact Or.inl ⟨ws', ho, hlive, hws'⟩
  · obtain ⟨id', hid'⟩ := Option.isSome_iff_exists.mp ho
    have hallow : (Coroutine.phase th).allows id' (.getEventWithEndpoint id) :=
      (hf id' hid').allows hp
    rw [hstart] at hallow
    obtain ⟨rfl⟩ : Op.getEventWithEndpoint id = .getEventWithEndpoint id' := hallow
    have hpend : th.session.pending = [] := by
      rw [hl.delivers id hid' hlive, hstart]
      rfl
    obtain rfl : r = .ok (some (ev, some ep)) := hr
    obtain ⟨o, -, hexec⟩ := ha.of_ok
    have hview : w.view th.session = w.db := view_of_pending hpend
    have hread : exec o (.getEventWithEndpoint id) w th.session =
        (.ok ((w.view th.session).eventWithEndpoint id), w, th.session) := rfl
    rw [hread, hview] at hexec
    exact Or.inr ⟨id, hid', Except.ok.inj (Prod.mk.inj hexec).1⟩

/-- **Every reachable state is sound**, whatever the interleaving. -/
theorem Reaches.sound (h : Reaches deps ok c) : Sound c := by
  refine h.invariant (fun _ => ⟨?_, ?_, ?_⟩) fun c a c' hr hc _ hs => ?_
  · exact fun id ep hep => nomatch hep
  · exact fun id r hr => nomatch hr
  · exact fun th hth => nomatch hth
  · have hcommits := hr.commits hs
    obtain ⟨hrows, hsettled⟩ := hcommits.events hc
    have hstable {ev : WebhookEvent} {ep : WebhookEndpoint} (h : Snapshot c.world ev ep) :
        Snapshot c'.world ev ep := h.mono hrows hcommits.log
    refine ⟨hcommits.budgetsOk hc.budgets, hsettled, ?_⟩
    refine (stepped hs).forall_threads
      hc.snapshots
      (fun _ _ _ _ h ev ep ws hruns => (h ev ep ws hruns).imp_right hstable) ?_ ?_ ?_ ?_
    · rintro o w - ev ep ws ⟨-, -, hph⟩
      cases hph
    · rintro t th e k r w s hth hp ha hw hsnap ev ep ws hruns
      have hm : th ∈ c.threads := List.mem_of_getElem? hth
      rcases (runs_answered (hr.lawful th hm) (fun _ => hr.follows_deliver hm) hp ha hruns).2 with
        ⟨ws', h⟩ | ⟨id, ho, hread⟩
      · exact (hsnap ev ep ws' h).imp_right hstable
      · refine ⟨?_, hstable (snapshot_of_read hread hc.settled hc.budgets)⟩
        rw [(id_of_read hread).2]
        exact ho
    · rintro th - - ev ep ws ⟨-, hend, -⟩
      cases hend
    · rintro th - - id ho hend - ev ep ws ⟨-, hlive, -⟩
      exact Bool.noConfusion (hend.symm.trans hlive)

/-! ### Stored values -/

/-- An event that a statement inserts has values PostgreSQL takes. -/
def Write.Storable : Write → Prop
  | .insertEvent r => r.storable = true
  | _ => True

theorem storable_of_violation (e : Op) (db : Db) (hv : e.violation db = none) :
    ∀ w ∈ e.writes, w.Storable := by
  intro w hw
  cases Op.emits_of_mem hw with
  | insertEvent r =>
    unfold Op.violation at hv
    dsimp only at hv
    split_ifs at hv with hs
    change r.storable = true
    simpa using hs
  | _ => trivial

/-- The values of every event are ones that PostgreSQL takes. -/
theorem Reaches.storable (h : Reaches deps ok c) {id : UUID} {r : WebhookEvent}
    (hr : c.world.db.events.get? id = some r) : r.storable = true := by
  have hrows (ws : List Write) (hws : ∀ w ∈ ws, w.Storable) :
      ∀ r ∈ (Db.empty.applyAll ws).events.rows, r.storable = true := by
    induction ws using List.reverseRecOn with
    | nil => exact fun _ h => nomatch h
    | append_singleton ws w ih =>
      have ih := ih fun w' hw' => hws w' (List.mem_append_left _ hw')
      have hw := hws w (List.mem_append_right _ (List.mem_singleton_self w))
      rw [Db.applyAll_append]
      change ∀ r ∈ ((Db.empty.applyAll ws).apply w).events.rows, r.storable = true
      cases w with
      | insertEvent r =>
        intro r' hr'
        change r' ∈ (Table.insert _ r).rows at hr'
        cases hg : (Db.empty.applyAll ws).events.get? r.id with
        | some r₀ =>
          rw [Table.insert_of_get? hg] at hr'
          exact ih r' hr'
        | none =>
          rw [Table.rows_insert hg] at hr'
          rcases List.mem_append.mp hr' with hr' | hr'
          · exact ih r' hr'
          · rw [List.mem_singleton.mp hr']
            exact hw
      | updateEvent id u =>
        intro r' hr'
        obtain ⟨r₀, hr₀, rfl⟩ := List.mem_map.mp hr'
        split_ifs
        · exact ih r₀ hr₀
        · exact ih r₀ hr₀
      | _ => exact ih
  exact hrows _ (h.written storable_of_violation).1 r (Table.mem_of_get? hr)

end WebhookRelay

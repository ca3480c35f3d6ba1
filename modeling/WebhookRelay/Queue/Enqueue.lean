import WebhookRelay.Queue.Jobs
import WebhookRelay.Runs.Atomic

/-!
# Enqueueing and committing

A coroutine only enqueues jobs for events it has inserted or selected itself. `create_event` and
`replay_bulk` enqueue before their session is committed, `replay_single` with a session of its own
commits first, and a poll writes nothing (`handoverContract`, proved of every program). So in every
reachable state the event that a coroutine is about to enqueue has a committed row if and only if
the coroutine is not one of the first two (`Reaches.enqueue_has_iff`).
-/

namespace WebhookRelay

open Data Effect ReplayService

/-! ### Events that are there -/

/-- The event has a committed row. -/
def World.Has (w : World) (id : UUID) : Prop := (w.db.events.get? id).isSome = true

/-- A committed row stays. -/
theorem World.Has.mono {w w' : World} {ws : List Write} (hw : w'.wal = w.wal ++ ws) {id : UUID}
    (h : w.Has id) : w'.Has id := by
  unfold World.Has at h ⊢
  rw [World.db_of_wal hw, isSome_events_applyAll]
  exact Or.inl h

/-! ### The contract -/

/-- The coroutine is one of a request that enqueues before its session is committed. -/
def Origin.enqueuesFirst : Origin → Bool
  | .request (.createEvent _) => true
  | .request (.replayBulk _ _ _) => true
  | _ => false

/-- How far a coroutine has come: the events it has inserted, and what became of its commit. -/
inductive Handover where
  | inserting (ids : List UUID)
  | committed
  | failed

/-- One more event. -/
def Handover.insert (id : UUID) : Handover → Handover
  | .inserting ids => .inserting (ids ++ [id])
  | p => p

/-- The phase after a call. -/
def Handover.next (p : Handover) : (e : Op) → Except PyExn e.Resp → Handover
  | .insertEvent r, .ok _ => p.insert r.id
  | .commit, .ok _ => .committed
  | .commit, .error _ => .failed
  | _, _ => p

/-- The contract: a coroutine that enqueues first enqueues events that it has inserted in a session
it has not asked to commit yet, any other one enqueues after its commit was answered. -/
def handoverContract (first : Bool) : Contract relay PyExn Handover where
  allows p e := ∀ id, e = .enqueueJob id →
    if first then ∃ ids, p = .inserting ids ∧ id ∈ ids else p = .committed
  next := Handover.next

/-- The coroutine has not asked for its commit. -/
def Handover.isOpen (p : Handover) : Prop := ∃ ids, p = .inserting ids

/-! ### Rules -/

section rules

variable {α β : Type} {first : Bool} {p : Handover} {Q : Except PyExn β → Handover → Prop}

/-- A call that enqueues nothing and leaves the phase as it is. -/
structure Op.Aside (e : Op) : Prop where
  isEnqueue : e.isEnqueue = false
  next : ∀ p r, Handover.next p e r = p

/-- Only an enqueue is restricted. -/
theorem handover_allows {e : Op} (he : e.isEnqueue = false) :
    (handoverContract first).allows p e := by
  rintro id rfl
  cases he

/-- A program that enqueues nothing meets the contract. -/
theorem hands_of_quiet {q : Relay β} (hq : q.Calls fun e : Op => e.isEnqueue = false) :
    q.Obeys (handoverContract first) (finishing fun _ _ => True) p := by
  induction q generalizing p with
  | done a => exact fun _ _ => trivial
  | raised x => exact fun _ h => nomatch h
  | call e k ih => exact ⟨handover_allows hq.1, fun r => ih r (hq.2 r)⟩

/-- A part that leaves the phase as it is, and the rest. -/
theorem hands_bind_aside {q : Relay α} (hq : q.Calls Op.Aside) {f : α → Relay β}
    (hf : ∀ a, (f a).Obeys (handoverContract first) Q p) (hx : ∀ x, Q (.error x) p) :
    (q >>= f).Obeys (handoverContract first) Q p := by
  induction q with
  | done a => exact hf a
  | raised x => exact hx x
  | call e k ih =>
    refine ⟨handover_allows hq.1.isEnqueue, fun r => ?_⟩
    change (k r >>= f).Obeys _ Q (Handover.next p e r)
    rw [hq.1.next]
    exact ih r (hq.2 r)

/-- One call that leaves the phase as it is. -/
theorem aside_await {e : Op} (he : e.isEnqueue = false) (hn : ∀ p r, Handover.next p e r = p) :
    (await e).Calls Op.Aside := Prog.calls_perform ⟨he, hn⟩

/-- A new event is one of the inserted ones. -/
theorem hands_create (row : UUID → Datetime → WebhookEvent) {f : WebhookEvent → Relay β}
    (hf : ∀ u t, (f (row u t)).Obeys (handoverContract first) Q (p.insert (row u t).id))
    (hx : ∀ x, Q (.error x) p) :
    (EventRepository.create row >>= f).Obeys (handoverContract first) Q p := by
  unfold EventRepository.create
  simp only [bind_assoc]
  refine hands_bind_aside (q := uuid4) (aside_await rfl fun _ _ => rfl) (fun u => ?_) hx
  refine hands_bind_aside (q := now) (aside_await rfl fun _ _ => rfl) (fun t => ?_) hx
  exact (Prog.obeys_perform_bind (I := relay) (Op.insertEvent (row u t)) _).mpr
    ⟨handover_allows rfl, fun _ => hf u t, hx⟩

/-- An event that may be enqueued. -/
theorem hands_enqueueJob {id : UUID} (h : (handoverContract first).allows p (.enqueueJob id))
    {f : Bool → Relay β} (hf : ∀ b, (f b).Obeys (handoverContract first) Q p)
    (hx : ∀ x, Q (.error x) p) :
    (enqueueJob id >>= f).Obeys (handoverContract first) Q p :=
  (Prog.obeys_perform_bind (I := relay) (Op.enqueueJob id) f).mpr ⟨h, hf, hx⟩

/-- How a handler leaves a session that it has not asked to commit. -/
def leavesOpen (_ : Except PyExn α) (p : Handover) : Prop := p.isOpen

/-- An event that was just inserted may be enqueued before the commit. -/
theorem handover_allows_insert (hp : p.isOpen) (id : UUID) :
    (handoverContract true).allows (p.insert id) (.enqueueJob id) := by
  obtain ⟨ids, rfl⟩ := hp
  rintro _ ⟨⟩
  exact ⟨_, rfl, List.mem_append_right _ (List.mem_singleton_self id)⟩

theorem Handover.isOpen.insert (hp : p.isOpen) (id : UUID) : (p.insert id).isOpen := by
  obtain ⟨ids, rfl⟩ := hp
  exact ⟨_, rfl⟩

end rules

/-! ### The programs -/

section programs

variable {α : Type} {p : Handover}

theorem aside_found (detail : Str) (x : Option α) : (Api.found detail x).Calls Op.Aside := by
  cases x with
  | none => exact Prog.calls_raised _
  | some a => exact Prog.calls_done a

theorem aside_lookup (data : EventCreate) : (Api.lookup data).Calls Op.Aside := by
  unfold Api.lookup
  cases data.idempotencyKey with
  | none => exact Prog.calls_done _
  | some key =>
    dsimp only
    split_ifs
    · exact Prog.calls_done _
    · exact aside_await rfl fun _ _ => rfl

theorem hands_createEvent (hp : p.isOpen) (data : EventCreate) :
    (Api.createEvent data).Obeys (handoverContract true) leavesOpen p := by
  refine hands_bind_aside (aside_lookup data) (fun existing => ?_) fun _ => hp
  cases existing with
  | some r => exact hp
  | none =>
    refine hands_bind_aside (q := EndpointRepository.getById data.endpointId)
      (aside_await rfl fun _ _ => rfl) (fun row => ?_) fun _ => hp
    refine hands_bind_aside (aside_found _ row) (fun endpoint => ?_) fun _ => hp
    split_ifs
    · exact hp
    · exact hp
    · refine hands_create _ (fun u t => ?_) fun _ => hp
      have hopen := hp.insert (Api.newEvent data u t).id
      exact hands_enqueueJob (handover_allows_insert hp _) (fun _ => hopen) fun _ => hopen

/-- A single replay with a session of its own enqueues after the commit; in a bulk replay the
session is still open. -/
theorem hands_replaySingle (hp : p.isOpen) (id : UUID) (force own : Bool) :
    (replaySingle id force own).Obeys (handoverContract !own)
      (fun _ p => own = false → p.isOpen) p := by
  refine hands_bind_aside (q := DeadLetterRepository.getById id) (aside_await rfl fun _ _ => rfl)
    (fun row => ?_) fun _ _ => hp
  cases row with
  | none => exact fun _ => hp
  | some entry =>
    refine hands_bind_aside (calls_checkRecent ⟨rfl, fun _ _ => rfl⟩ entry force) (fun _ => ?_)
      fun _ _ => hp
    refine hands_create _ (fun u t => ?_) fun _ _ => hp
    have hopen := hp.insert (replayEvent entry u t).id
    refine hands_bind_aside (q := DeadLetterRepository.markReplayed entry) ?_ (fun entry' => ?_)
      fun _ _ => hopen
    · exact (aside_await rfl fun _ _ => rfl).bind fun _ =>
        (aside_await rfl fun _ _ => rfl).bind fun _ => Prog.calls_done _
    refine hands_bind_aside (q := resetCircuit _) (aside_await rfl fun _ _ => rfl) (fun _ => ?_)
      fun _ _ => hopen
    cases own with
    | false =>
      exact hands_enqueueJob (handover_allows_insert hp _) (fun _ _ => hopen) fun _ _ => hopen
    | true =>
      refine (Prog.obeys_perform_bind (I := relay) .commit _).mpr
        ⟨handover_allows rfl, fun _ => ?_, fun _ h => nomatch h⟩
      refine hands_enqueueJob (p := .committed) ?_ (fun _ h => nomatch h) fun _ h => nomatch h
      exact fun _ _ => rfl

/-- The loop of a bulk replay, by induction on the entries that are left. -/
theorem hands_replayEach (force : Bool) (entries : List DeadLetterEvent) :
    ∀ (results : List ReplayResult) (errors : ℕ) (p : Handover), p.isOpen →
      (replayEach force entries results errors).Obeys (handoverContract true) leavesOpen p := by
  induction entries with
  | nil => exact fun _ _ _ hp => hp
  | cons entry entries ih =>
    intro results errors p hp
    refine (Prog.obeys_bind _ _).mpr ((Prog.obeys_attempt _).mpr ?_)
    refine (hands_replaySingle hp entry.id force false).mono fun r p' hr => ?_
    have hp' := hr rfl
    cases r with
    | ok result => exact ih _ _ p' hp'
    | error x =>
      dsimp only
      split_ifs
      · exact ih _ _ p' hp'
      · exact hp'

/-- A commit, and what is left enqueues nothing. -/
theorem hands_bind_commit {β : Type} {q : Relay α}
    (hq : q.Obeys (handoverContract true) leavesOpen p) (f : α → β) :
    (q >>= fun a => commit >>= fun _ => Prog.done (f a)).Obeys (handoverContract true)
      (finishing fun _ _ => True) p := by
  refine (Prog.obeys_bind _ _).mpr (hq.mono fun r p' _ => ?_)
  cases r with
  | ok a =>
    refine hands_of_quiet (Prog.Calls.bind (q := commit) ?_ fun _ => Prog.calls_done _)
    exact Prog.calls_perform (I := relay) (e := .commit) rfl
  | error x => exact fun _ h => nomatch h

/-- **Every coroutine but a poll enqueues before or after its commit**, as its kind says. -/
theorem program_hands (deps : Deps) {o : Origin} (ho : o ≠ .cron) :
    (o.program deps).Obeys (handoverContract o.enqueuesFirst) (finishing fun _ _ => True)
      (.inserting []) := by
  have hopen : (Handover.inserting []).isOpen := ⟨[], rfl⟩
  have hmap {α : Type} {first : Bool} {q : Relay α} (g : α → Reply)
      (hq : q.Obeys (handoverContract first) (finishing fun _ _ => True) (.inserting [])) :
      (g <$> q).Obeys (handoverContract first) (finishing fun _ _ => True) (.inserting []) :=
    (Prog.obeys_map g q).mpr (hq.mono fun _ _ _ _ _ => trivial)
  have hquiet {α : Type} {q : Relay α} (hq : q.Calls Op.Quiet) (g : α → Reply) :
      (g <$> q).Obeys (handoverContract false) (finishing fun _ _ => True) (.inserting []) :=
    hmap g (hands_of_quiet (hq.imp fun _ he => he.isEnqueue))
  have hjob (id : UUID) : (jobProgram deps id).Obeys (handoverContract false)
      (finishing fun _ _ => True) (.inserting []) := by
    refine hmap _ (hands_of_quiet (Prog.Calls.bind (calls_deliver (fun e he => ?_) deps id)
      fun _ => Prog.calls_done _))
    cases he <;> rfl
  cases o with
  | job id => exact hjob id
  | reaped id => exact hjob id
  | cron => exact absurd rfl ho
  | request r =>
    cases r with
    | createEndpoint data => exact hquiet (quiet_getDb (quiet_createEndpoint data)) _
    | updateEndpoint id data => exact hquiet (quiet_getDb (quiet_updateEndpoint id data)) _
    | deleteEndpoint id => exact hquiet (quiet_getDb (quiet_deleteEndpoint id)) _
    | rotateSecret id => exact hquiet (quiet_getDb (quiet_rotateSecret id)) _
    | createEvent data => exact hmap _ (hands_bind_commit (hands_createEvent hopen data) id)
    | replay id force =>
      refine hmap _ ((Prog.obeys_bind _ _).mpr ((Prog.obeys_attempt _).mpr ?_))
      refine (hands_replaySingle hopen id force true).mono fun r p _ => ?_
      rcases r with x | result
      · cases x <;> exact fun _ h => nomatch h
      · exact fun _ _ => trivial
    | replayBulk endpointId eventType force =>
      refine hmap _ (hands_bind_aside
        (q := DeadLetterRepository.getUnreplayedByFilter endpointId eventType)
        (aside_await rfl fun _ _ => rfl) (fun entries => ?_) fun _ _ h => nomatch h)
      exact hands_bind_commit (hands_replayEach force entries [] 0 _ hopen) _
    | discard id => exact hquiet (quiet_getDb (quiet_discardDlqEntry id)) _
    | stats => exact hquiet (quiet_getDb quiet_globalStats) _

end programs

/-! ### What a coroutine knows is committed, or waits in its session -/

section known

variable {deps : Deps} {ok : Config → Action → Prop} {c c' : Config} {a : Action} {th : Coroutine}

/-- The events the coroutine knows have a committed row, or one in its session. -/
def KnownThere (w : World) (th : Coroutine) : Prop :=
  th.origin.delivers = none → th.prog.ended = false →
    ∀ id ∈ Coroutine.known th, w.Has id ∨ Inserts th.session.pending id

/-- A row that is selected is committed, or in the session. -/
theorem there_of_mem_view {w : World} {s : Session} {r : WebhookEvent}
    (hr : r ∈ (w.view s).events.rows) : w.Has r.id ∨ Inserts s.pending r.id := by
  have hsome : ((w.view s).events.get? r.id).isSome = true := by
    rw [Table.get?_of_mem hr]
    rfl
  exact (isSome_events_applyAll _ _ _).mp hsome

/-- A row that was inserted waits in the session. -/
theorem Answers.inserted {t : ℕ} {others : List Session} {row : WebhookEvent} {v : Unit}
    {w w' : World} {s s' : Session}
    (h : Answers t others (.insertEvent row) w s a (.ok v) w' s') :
    Write.insertEvent row ∈ s'.pending := by
  rcases h.pending rfl with ⟨hp, -⟩ | ⟨-, x, hx⟩
  · rw [hp]
    exact List.mem_append_right _ List.mem_cons_self
  · cases hx

/-- What a call makes known is committed, or in the session after it. -/
theorem learns_there {t : ℕ} {others : List Session} {e : Op} {w w' : World} {s s' : Session}
    {r : Except PyExn e.Resp} (h : Answers t others e w s a r w' s') {id : UUID}
    (hid : id ∈ e.learns r) : w'.wal = w.wal ∧ (w.Has id ∨ Inserts s'.pending id) := by
  cases r with
  | error x => cases e <;> cases hid
  | ok v =>
    obtain ⟨o, -, hexec⟩ := h.of_ok
    cases e with
    | insertEvent row =>
      obtain rfl := List.mem_singleton.mp hid
      refine ⟨h.wal.resolve_right fun hcommit => ?_, Or.inr ⟨row, h.inserted, rfl⟩⟩
      cases hcommit.1
    | selectDueForRetry now limit =>
      obtain ⟨hv, hw⟩ := Prod.mk.inj hexec
      obtain ⟨rfl, rfl⟩ := Prod.mk.inj hw
      obtain ⟨row, hrow, rfl⟩ := List.mem_map.mp hid
      refine ⟨rfl, there_of_mem_view ?_⟩
      rw [← Except.ok.inj hv] at hrow
      have hsorted := List.mem_of_mem_take hrow
      exact (List.mem_filter.mp ((List.mem_insertionSort _).mp hsorted)).1
    | selectStalePending cutoff limit =>
      obtain ⟨hv, hw⟩ := Prod.mk.inj hexec
      obtain ⟨rfl, rfl⟩ := Prod.mk.inj hw
      obtain ⟨row, hrow, rfl⟩ := List.mem_map.mp hid
      refine ⟨rfl, there_of_mem_view ?_⟩
      rw [← Except.ok.inj hv] at hrow
      exact (List.mem_filter.mp (List.mem_of_mem_take hrow)).1
    | _ => cases hid

/-- The known events after an answer. -/
theorem known_answered (th : Coroutine) (e : Op) (r : Except PyExn e.Resp) (p : Relay Reply)
    (s : Session) : Coroutine.known (th.answered machine e r p s) =
      Coroutine.known th ++ e.learns r :=
  Contract.run_append_singleton _ _ _ _

/-- An event that is committed or in the session is so after an answer. -/
theorem there_answered {t : ℕ} {others : List Session} {e : Op} {w w' : World} {s s' : Session}
    {r : Except PyExn e.Resp} (h : Answers t others e w s a r w' s') {id : UUID}
    (hid : w.Has id ∨ Inserts s.pending id) : w'.Has id ∨ Inserts s'.pending id := by
  rcases h.keeps with ⟨hw, hkeep⟩ | hw
  · have hdb : w'.db = w.db := by rw [World.db, hw, World.db]
    rcases hid with hid | ⟨row, hrow, hid⟩
    · exact Or.inl (by unfold World.Has; rwa [hdb])
    · exact Or.inr ⟨row, hkeep.subset hrow, hid⟩
  · left
    unfold World.Has
    rw [World.db_of_wal hw, isSome_events_applyAll]
    exact hid

/-- What a coroutine knows is committed or in its session, in every reachable state. -/
theorem Reaches.known_there (h : Reaches deps ok c) :
    ∀ th ∈ c.threads, KnownThere c.world th := by
  refine h.invariant (J := fun c => ∀ th ∈ c.threads, KnownThere c.world th)
    (fun _ _ hth => nomatch hth) fun c a c' hr hc _ hs => ?_
  obtain ⟨ws, hlog⟩ := (hr.commits hs).log
  refine (stepped hs).forall_threads hc ?_ ?_ ?_ ?_ ?_
  · intro u uh _ _ hknown ho hlive id hid
    exact (hknown ho hlive id hid).imp_left (World.Has.mono hlog)
  · intro o w _ _ _ id hid
    cases hid
  · intro t th e k r w s _ hp ha hw hknown ho hlive id hid
    have hsession : (th.answered machine e r (k r) s).session = s :=
      if_neg (by rw [show (k r).ended = false from hlive]; decide)
    rw [hw, hsession]
    rw [known_answered] at hid
    rcases List.mem_append.mp hid with hid | hid
    · exact there_answered ha (hknown ho (by rw [hp]; rfl) id hid)
    · obtain ⟨hwal, hthere⟩ := learns_there ha hid
      unfold World.Has World.db at hthere ⊢
      rwa [hwal]
  · intro th _ _ _ hlive
    cases hlive
  · intro th _ _ id _ _ _ hne
    cases hne

/-! ### Enqueues -/

theorem Coroutine.enqueues_eq_some {id : UUID} : id ∈ Coroutine.enqueues th ↔
    ∃ k, th.prog = .call (.enqueueJob id) k := by
  unfold Coroutine.enqueues
  constructor
  · intro h
    split at h
    · cases h
      exact ⟨_, ‹_›⟩
    · cases h
  · rintro ⟨k, hp⟩
    rw [hp]
    rfl

/-- A run of `deliver` never enqueues. -/
theorem Reaches.delivers_of_enqueues (h : Reaches deps ok c) (hth : th ∈ c.threads) {id : UUID}
    {k : Except PyExn Bool → Relay Reply} (hp : th.prog = .call (.enqueueJob id) k) :
    th.origin.delivers = none := by
  cases ho : th.origin.delivers with
  | none => rfl
  | some id' =>
    have hallow : (Coroutine.phase th).allows id' (.enqueueJob id) :=
      (h.follows_deliver hth ho).allows hp
    cases hph : Coroutine.phase th with
    | started =>
      rw [hph] at hallow
      cases hallow
    | loaded ev ep ws =>
      rw [hph] at hallow
      cases hallow.2.1
    | closed =>
      rw [hph] at hallow
      cases hallow

/-- The phase of a coroutine. -/
def Coroutine.handover (th : Coroutine) : Handover :=
  (handoverContract th.origin.enqueuesFirst).run (.inserting []) th.trace

theorem Coroutine.handover_answered (th : Coroutine) (e : Op) (r : Except PyExn e.Resp)
    (p : Relay Reply) (s : Session) :
    Coroutine.handover (th.answered machine e r p s) = (Coroutine.handover th).next e r :=
  Contract.run_append_singleton _ _ _ _

/-- The events a coroutine has inserted wait in its session until it asks for its commit. -/
theorem Reaches.inserting (h : Reaches deps ok c) :
    ∀ th ∈ c.threads, th.prog.ended = false → ∀ ids, Coroutine.handover th = .inserting ids →
      ∀ id ∈ ids, Inserts th.session.pending id := by
  refine h.invariant (J := fun c => ∀ th ∈ c.threads, th.prog.ended = false → ∀ ids,
    Coroutine.handover th = .inserting ids → ∀ id ∈ ids, Inserts th.session.pending id)
    (fun _ _ hth => nomatch hth) fun c a c' _ hc _ hs => ?_
  refine (stepped hs).forall_threads hc (fun _ _ _ _ h => h) ?_ ?_ (fun _ _ _ hend => nomatch hend)
    ?_
  · intro o w _ _ ids hids id hid
    cases hids
    cases hid
  · intro t th e k r w s _ hp ha _ hwaits hend ids hnext id hid
    have hsession : (th.answered machine e r (k r) s).session = s :=
      if_neg (by rw [show (k r).ended = false from hend]; decide)
    rw [Coroutine.handover_answered] at hnext
    rw [hsession]
    have hkept {ids₀ : List UUID} (hc : e.isCommit = false)
        (hids₀ : Coroutine.handover th = .inserting ids₀) (hid : id ∈ ids₀) :
        Inserts s.pending id := by
      obtain ⟨row, hrow, hid⟩ := hwaits (by rw [hp]; rfl) ids₀ hids₀ id hid
      refine ⟨row, ?_, hid⟩
      rcases ha.pending hc with ⟨hs, -⟩ | ⟨hs, -⟩
      · rw [hs]
        exact List.mem_append_left _ hrow
      · rwa [hs]
    cases e with
    | insertEvent row =>
      cases r with
      | error x => exact hkept rfl hnext hid
      | ok v =>
        cases hids₀ : Coroutine.handover th with
        | inserting ids₀ =>
          rw [hids₀] at hnext
          cases hnext
          rcases List.mem_append.mp hid with hid | hid
          · exact hkept rfl hids₀ hid
          · exact ⟨row, ha.inserted, (List.mem_singleton.mp hid).symm⟩
        | _ =>
          rw [hids₀] at hnext
          cases hnext
    | commit => cases r <;> cases hnext
    | _ => exact hkept rfl hnext hid
  · intro th _ _ id ho hend _ hlive
    exact Bool.noConfusion (hend.symm.trans hlive)

/-- A session that is committed was answered its commit. -/
theorem commit_mem_of_run {first : Bool} {cs : List (Call relay PyExn)}
    (h : (handoverContract first).run (.inserting []) cs = .committed) :
    (⟨Op.commit, .ok ()⟩ : Call relay PyExn) ∈ cs := by
  induction cs using List.reverseRecOn with
  | nil => cases h
  | append_singleton cs x ih =>
    obtain ⟨e, r⟩ := x
    rw [Contract.run_append_singleton] at h
    change Handover.next _ e r = _ at h
    cases e with
    | commit =>
      cases r with
      | ok v => exact List.mem_append_right _ (List.mem_singleton_self _)
      | error x => cases h
    | insertEvent row =>
      refine List.mem_append_left _ (ih ?_)
      cases r with
      | error x => exact h
      | ok v =>
        generalize (handoverContract first).run (.inserting []) cs = p at h
        cases p with
        | committed => rfl
        | _ => cases h
    | _ => exact List.mem_append_left _ (ih h)

/-- An event that a committed coroutine has inserted has a committed row. -/
theorem Reaches.has_of_stated (h : Reaches deps ok c) (hth : th ∈ c.threads)
    (hcommit : (⟨Op.commit, .ok ()⟩ : Call relay PyExn) ∈ th.trace) {row : WebhookEvent}
    (hrow : Write.insertEvent row ∈ statementsOf th.trace) : c.world.Has row.id := by
  obtain ⟨row', hrow', -⟩ := h.inserted row (h.logged_of_answered hth hcommit _ hrow)
  exact Option.isSome_iff_exists.mpr ⟨row', hrow'⟩

/-- An event that waits in a session has no committed row. -/
theorem Reaches.not_has_of_waits (h : Reaches deps ok c) (hth : th ∈ c.threads) {id : UUID}
    (hid : Inserts th.session.pending id) : ¬ c.world.Has id := by
  obtain ⟨row, hrow, rfl⟩ := hid
  obtain ⟨pre, post, hpend⟩ := List.append_of_mem hrow
  have htakes := h.takes.2 th hth
  rw [hpend] at htakes
  have hfree := htakes.missing (k := .event row.id) rfl
  intro hhas
  rw [holds_of_kept (k := .event row.id) rfl (fun w => by cases w <;> simp [Write.removes]) hhas]
    at hfree
  cases hfree

/-- Only requests insert events. -/
theorem Reaches.isRequest_of_waits (h : Reaches deps ok c) (hth : th ∈ c.threads) {id : UUID}
    (hid : Inserts th.session.pending id) : th.origin.isRequest = true := by
  obtain ⟨row, hrow, -⟩ := hid
  by_contra hne
  rw [Bool.not_eq_true] at hne
  have hjob (id : UUID) : (jobProgram deps id).Calls fun e : Op => ∀ r, e ≠ .insertEvent r := by
    refine Prog.Calls.map (Prog.Calls.bind (calls_deliver (fun e he => ?_) deps id)
      fun _ => Prog.calls_done _) _
    cases he <;> exact fun _ h => nomatch h
  refine h.session_writes (A := fun e => ∀ r, e ≠ .insertEvent r)
    (B := fun x => ∀ r, x ≠ .insertEvent r) (S := fun o => o.isRequest = false)
    (fun e he x hx r hr => ?_) (fun o ho => ?_) (fun _ _ => rfl) th hth hne _ hrow row rfl
  · subst hr
    cases Op.emits_of_mem hx with
    | insertEvent => exact he r rfl
  · cases o with
    | request => cases ho
    | job id => exact hjob id
    | reaped id => exact hjob id
    | cron =>
      refine Prog.Calls.map (idle_pollPendingRetries.imp fun e he r hr => ?_) _
      subst hr
      cases he.writes

/-- The event a coroutine is about to enqueue is committed, or waits in its session. -/
theorem Reaches.there_of_enqueues (h : Reaches deps ok c) (hth : th ∈ c.threads) {id : UUID}
    (hid : id ∈ Coroutine.enqueues th) : c.world.Has id ∨ Inserts th.session.pending id := by
  obtain ⟨k, hp⟩ := Coroutine.enqueues_eq_some.mp hid
  have ho := h.delivers_of_enqueues hth hp
  have hknown := ((h.follows_request hth ho).allows hp).2 id rfl
  exact h.known_there th hth ho (by rw [hp]; rfl) id hknown

/-- **What an enqueue finds**: in every reachable state, the event that a coroutine is about to
enqueue has a committed row if and only if its request does not enqueue before the commit. -/
theorem Reaches.enqueue_has_iff (h : Reaches deps ok c) (hth : th ∈ c.threads) {id : UUID}
    (hid : id ∈ Coroutine.enqueues th) :
    c.world.Has id ↔ th.origin.enqueuesFirst = false := by
  obtain ⟨k, hp⟩ := Coroutine.enqueues_eq_some.mp hid
  have hlive : th.prog.ended = false := by rw [hp]; rfl
  have hallow (ho : th.origin ≠ .cron) :
      (handoverContract th.origin.enqueuesFirst).allows (Coroutine.handover th)
        (.enqueueJob id) := by
    rcases (h.obeys hth (program_hands deps ho)).2 with hobeys | hcut
    · rw [hp] at hobeys
      exact hobeys.1
    · rw [hp] at hcut
      cases hcut
  cases hfirst : th.origin.enqueuesFirst with
  | true =>
    have ho : th.origin ≠ .cron := fun ho => by rw [ho] at hfirst; cases hfirst
    have hids := hallow ho id rfl
    rw [hfirst, if_pos rfl] at hids
    obtain ⟨ids, hphase, hmem⟩ := hids
    exact iff_of_false (h.not_has_of_waits hth (h.inserting th hth hlive ids hphase id hmem))
      Bool.noConfusion
  | false =>
    refine iff_of_true ((h.there_of_enqueues hth hid).elim (fun hhas => hhas) fun hins => ?_) rfl
    have ho : th.origin ≠ .cron := by
      intro ho
      have hrequest := h.isRequest_of_waits hth hins
      rw [ho] at hrequest
      cases hrequest
    have hphase := hallow ho id rfl
    rw [hfirst, if_neg Bool.false_ne_true] at hphase
    obtain ⟨row, hrow, rfl⟩ := hins
    exact h.has_of_stated hth (commit_mem_of_run hphase) (h.pending_stated th hth _ hrow)

end known

end WebhookRelay

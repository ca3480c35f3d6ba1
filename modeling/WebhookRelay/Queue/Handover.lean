import WebhookRelay.Queue.Enqueue

/-!
# Jobs and the rows they need

`create_event` and `replay_bulk` place a job before its row is committed, so a worker can take the
job before the row is visible, and the job is used up (`not_enqueue_after_commit`). What the others
place finds a committed row (`Reaches.enqueue_has_iff`). In runs in which no worker reads an event
whose INSERT waits in a session, and no request fails between an enqueue and its commit
(`CommitsInTime`), every job belongs to a committed event or to one whose request is about to
commit it, and a worker finds the row (`enqueue_after_commit`).
-/

namespace WebhookRelay

open Data Effect

/-! ### What a worker reads -/

/-- The row that a run has read, once it has read. -/
def readContract : Contract relay PyExn (Option (Option WebhookEvent)) where
  allows _ _ := True
  next p e r := match e, r with
    | .getEventWithEndpoint _, .ok x => some (x.map Prod.fst)
    | _, _ => p

/-- The row that a coroutine has read, once it has read. -/
def Coroutine.read (th : Coroutine) : Option (Option WebhookEvent) :=
  readContract.run none th.trace

/-- A run answers NOT_FOUND only if it has read no row, or a terminal one. -/
def FoundUnlessTerminal (reply : Reply) (read : Option (Option WebhookEvent)) : Prop :=
  reply = .delivery .notFound →
    read = some none ∨ ∃ ev, read = some (some ev) ∧ ev.status.terminal = true

/-- A part of `deliver` that never answers NOT_FOUND. -/
def NeverNotFound (q : Relay DeliveryOutcome) : Prop :=
  ∀ p, q.Obeys readContract (finishing fun o _ => o.status ≠ .notFound) p

section read

theorem neverNotFound_done {o : DeliveryOutcome} (h : o.status ≠ .notFound) :
    NeverNotFound (.done o) := by
  rintro p _ ⟨⟩
  exact h

theorem neverNotFound_bind {α : Type} {q : Relay α} {f : α → Relay DeliveryOutcome}
    (h : ∀ a, NeverNotFound (f a)) : NeverNotFound (q >>= f) := by
  intro p
  refine (Prog.obeys_bind q f).mpr (Prog.obeys_of_forall (fun _ _ => trivial) (fun r p => ?_) q p)
  cases r with
  | ok a => exact h a p
  | error x => exact fun _ h => nomatch h

theorem neverNotFound_attemptDelivery (crypto : Crypto) (ev : WebhookEvent)
    (ep : WebhookEndpoint) : NeverNotFound (DeliveryService.attemptDelivery crypto ev ep) := by
  have hsuccess (ev ep a d) : NeverNotFound (DeliveryService.settleSuccess ev ep a d) :=
    neverNotFound_bind fun _ => neverNotFound_bind fun _ => neverNotFound_bind fun _ =>
      neverNotFound_done fun h => nomatch h
  have hretry (ev ep x) : NeverNotFound (DeliveryService.retryLater ev ep x) :=
    neverNotFound_bind fun _ => neverNotFound_bind fun _ => neverNotFound_bind fun _ =>
      neverNotFound_done fun h => nomatch h
  have hgiveUp (ev ep p) : NeverNotFound (DeliveryService.giveUp ev ep p) :=
    neverNotFound_bind fun _ => neverNotFound_bind fun _ => neverNotFound_bind fun _ =>
      neverNotFound_done fun h => nomatch h
  have hfailure (ev ep p) : NeverNotFound (DeliveryService.settleFailure ev ep p) := by
    refine neverNotFound_bind fun _ => neverNotFound_bind fun _ => ?_
    dsimp only
    split_ifs
    · exact hretry _ _ _
    · exact hgiveUp _ _ _
  refine neverNotFound_bind fun ev => neverNotFound_bind fun headers =>
    neverNotFound_bind fun start => neverNotFound_bind fun answer => neverNotFound_bind fun p =>
    neverNotFound_bind fun stop => neverNotFound_bind fun attempt => ?_
  split_ifs
  · exact hsuccess _ _ _ _
  · exact hfailure _ _ _

/-- A job answers NOT_FOUND only if it has read no row, or a terminal one. -/
theorem jobProgram_read (deps : Deps) (id : UUID) :
    (jobProgram deps id).Obeys readContract (finishing FoundUnlessTerminal) none := by
  have hdeliver : (DeliveryService.deliver deps id).Obeys readContract
      (finishing fun o p => o.status = .notFound →
        p = some none ∨ ∃ ev, p = some (some ev) ∧ ev.status.terminal = true) none := by
    refine (Prog.obeys_perform_bind (I := relay) (Op.getEventWithEndpoint id) _).mpr
      ⟨trivial, fun x => ?_, fun _ _ h => nomatch h⟩
    have hnever {q : Relay DeliveryOutcome} (hq : NeverNotFound q)
        (p : Option (Option WebhookEvent)) : q.Obeys readContract (finishing fun o p =>
          o.status = .notFound →
            p = some none ∨ ∃ ev, p = some (some ev) ∧ ev.status.terminal = true) p :=
      (hq p).mono fun r p h o ho hs => absurd hs (h o ho)
    rcases x with _ | ⟨ev, ep?⟩
    · rintro _ ⟨⟩ -
      exact Or.inl rfl
    · by_cases hterm : ev.status.terminal = true
      · simp only [hterm, if_true]
        rintro _ ⟨⟩ -
        exact Or.inr ⟨ev, rfl, hterm⟩
      · simp only [hterm, Bool.false_eq_true, if_false]
        rcases ep? with _ | ep
        · exact fun _ h => nomatch h
        · refine hnever ?_ _
          dsimp only
          split_ifs
          · exact neverNotFound_bind fun _ => neverNotFound_bind fun _ =>
              neverNotFound_bind fun _ => neverNotFound_done fun h => nomatch h
          · refine neverNotFound_bind fun allowed => ?_
            split_ifs
            · exact neverNotFound_bind fun _ => neverNotFound_bind fun _ =>
                neverNotFound_bind fun _ => neverNotFound_done fun h => nomatch h
            · exact neverNotFound_attemptDelivery _ _ _
  refine (Prog.obeys_map _ _).mpr ((Prog.obeys_bind _ _).mpr (hdeliver.mono fun r p h => ?_))
  cases r with
  | error x => exact fun _ h => nomatch h
  | ok o =>
    rintro _ ⟨⟩ hreply
    exact h o rfl (by injection hreply)

end read

/-! ### The property -/

/-- Jobs belong to committed events, and workers find them. -/
structure EnqueueAfterCommit (c : Config) : Prop where
  /-- A job that is queued or in progress is one of a committed event. -/
  queued : ∀ id, (c.world.jobs id).phase.isSome = true → c.world.Has id
  /-- A worker only runs jobs of committed events. -/
  started : ∀ th ∈ c.threads, ∀ id, th.origin.delivers = some id → c.world.Has id
  /-- A worker that answers NOT_FOUND has found a terminal row. -/
  found : ∀ th ∈ c.threads, th.origin.delivers.isSome = true →
    th.prog = .done (.delivery .notFound) →
      ∃ ev, Coroutine.read th = some (some ev) ∧ ev.status.terminal = true

/-- The event of a call of `enqueue_job`. -/
def Op.job : Op → Option UUID
  | .enqueueJob id => some id
  | _ => none

/-- The events the coroutine has called `enqueue_job` for. -/
def Coroutine.enqueued (th : Coroutine) : List UUID := th.trace.filterMap fun x => x.1.job

/-- A `create_event` or a bulk replay that has enqueued the event and has its INSERT in its
session, not yet committed. -/
def Owes (c : Config) (id : UUID) : Prop :=
  ∃ th ∈ c.threads, th.origin.enqueuesFirst = true ∧ id ∈ Coroutine.enqueued th ∧
    Inserts th.session.pending id

/-- The same, but for events that are owed. -/
structure HandoverKept (c : Config) : Prop where
  /-- A job that is queued or in progress is one of a committed event, or of one that is owed. -/
  queued : ∀ id, (c.world.jobs id).phase.isSome = true → c.world.Has id ∨ Owes c id
  /-- So is the job of every run of a worker. -/
  started : ∀ th ∈ c.threads, ∀ id, th.origin.delivers = some id → c.world.Has id ∨ Owes c id
  /-- What a coroutine has enqueued is committed, or waits in its session. -/
  kept : ∀ th ∈ c.threads, ∀ id ∈ Coroutine.enqueued th,
    c.world.Has id ∨ Inserts th.session.pending id
  /-- A worker that answers NOT_FOUND has found a terminal row. -/
  found : ∀ th ∈ c.threads, th.origin.delivers.isSome = true →
    th.prog = .done (.delivery .notFound) →
      ∃ ev, Coroutine.read th = some (some ev) ∧ ev.status.terminal = true

/-- When nothing is owed, all jobs belong to committed events. -/
theorem HandoverKept.settled {c : Config} (h : HandoverKept c) (hnone : ∀ id, ¬ Owes c id) :
    EnqueueAfterCommit c :=
  ⟨fun id hid => (h.queued id hid).resolve_right (hnone id),
    fun th hth id ho => (h.started th hth id ho).resolve_right (hnone id), h.found⟩

/-! ### The condition -/

/-- The coroutine that makes the step, or is cut off by it. -/
def Action.moved : Action → Option ℕ
  | .call t _ => some t
  | .fault t _ _ _ => some t
  | .kill t => some t
  | _ => none

/-- The event that a worker is about to read. -/
def Coroutine.loads (th : Coroutine) : Option UUID :=
  match th.prog with
  | .call (.getEventWithEndpoint id) _ => some id
  | _ => none

/-- The coroutine has ended with an exception. -/
def Coroutine.raised (th : Coroutine) : Bool :=
  match th.prog with
  | .raised _ => true
  | _ => false

/-- No worker reads before the commit, and no request fails between an enqueue and the commit. -/
structure CommitsInTime (deps : Deps) (c : Config) (a : Action) : Prop where
  /-- No worker reads an event while its INSERT waits in a session. -/
  reads : ∀ t ∈ a.called, ∀ th ∈ c.threads[t]?, ∀ id ∈ Coroutine.loads th,
    ∀ uh ∈ c.threads, ¬ Inserts uh.session.pending id
  /-- No coroutine is ended by an exception while its session has the INSERT of an event that it
  has called `enqueue_job` for. -/
  commits : ∀ t ∈ a.moved, ∀ th ∈ c.threads[t]?, ∀ c' ∈ step deps c a, ∀ th' ∈ c'.threads[t]?,
    Coroutine.raised th' = true → ∀ id ∈ Coroutine.enqueued th', ¬ Inserts th.session.pending id

instance (deps : Deps) (c : Config) (a : Action) : Decidable (CommitsInTime deps c a) :=
  decidable_of_iff ((∀ t ∈ a.called, ∀ th ∈ c.threads[t]?, ∀ id ∈ Coroutine.loads th,
      ∀ uh ∈ c.threads, ¬ Inserts uh.session.pending id) ∧
    ∀ t ∈ a.moved, ∀ th ∈ c.threads[t]?, ∀ c' ∈ step deps c a, ∀ th' ∈ c'.threads[t]?,
      Coroutine.raised th' = true → ∀ id ∈ Coroutine.enqueued th', ¬ Inserts th.session.pending id)
    ⟨fun h => ⟨h.1, h.2⟩, fun h => ⟨h.reads, h.commits⟩⟩

/-! ### One step -/

variable {deps : Deps} {c c' : Config} {a : Action}

/-- A run that reads finds the row of its event. -/
theorem read_answered {t : ℕ} {others : List Session} {th : Coroutine} {e : Op}
    {k : Except PyExn e.Resp → Relay Reply} {r : Except PyExn e.Resp} {w w' : World} {s : Session}
    (ha : Answers t others e w th.session a r w' s) (hp : th.prog = .call e k)
    (hread : Coroutine.read th ≠ some none)
    (hhas : ∀ id, e = .getEventWithEndpoint id → a.called = some t → w.Has id) :
    Coroutine.read (th.answered machine e r (k r) s) ≠ some none := by
  have hnext : Coroutine.read (th.answered machine e r (k r) s) =
      readContract.next (Coroutine.read th) e r := Contract.run_append_singleton _ _ _ _
  rw [hnext]
  cases e with
  | getEventWithEndpoint id =>
    cases r with
    | error x => exact hread
    | ok v =>
      obtain ⟨o, rfl, hexec⟩ := ha.of_ok
      obtain rfl : (w.view th.session).eventWithEndpoint id = v :=
        Except.ok.inj (Prod.mk.inj hexec).1
      have hsome := (isSome_events_applyAll th.session.pending w.db id).mpr
        (Or.inl (hhas id rfl rfl))
      obtain ⟨row, hrow⟩ := Option.isSome_iff_exists.mp hsome
      intro h
      have h : ((w.db.applyAll th.session.pending).eventWithEndpoint id).map Prod.fst = none :=
        Option.some.inj h
      unfold Db.eventWithEndpoint at h
      rw [hrow] at h
      cases h
  | _ => exact hread

/-- What was answered, or cut off, has moved. -/
theorem Answers.moved {t : ℕ} {others : List Session} {e : Op} {w w' : World} {s s' : Session}
    {r : Except PyExn e.Resp} (h : Answers t others e w s a r w' s') : a.moved = some t := by
  cases h <;> rfl

/-- The events a coroutine has enqueued after an answer. -/
theorem Coroutine.enqueued_answered (th : Coroutine) (e : Op) (r : Except PyExn e.Resp)
    (p : Relay Reply) (s : Session) : Coroutine.enqueued (th.answered machine e r p s) =
      Coroutine.enqueued th ++ e.job.toList := by
  show (th.trace ++ [(⟨e, r⟩ : Call relay PyExn)]).filterMap (fun x => x.1.job) = _
  rw [List.filterMap_append]
  cases hj : e.job <;> simp [Coroutine.enqueued, hj]

section step

variable {ok : Config → Action → Prop} (hr : Reaches deps ok c) (hr' : Reaches deps ok c')
  (hok : CommitsInTime deps c a) (hs : step deps c a = some c')

include hr hs in
/-- A committed event stays. -/
theorem has_step {id : UUID} (h : c.world.Has id) : c'.world.Has id := by
  obtain ⟨ws, hlog⟩ := (hr.commits hs).log
  exact h.mono hlog

include hr hr' hok hs

/-- An event that waits in the session of the coroutine that enqueues it is committed after its
next call, or still waits. -/
theorem waits_answered {t : ℕ} {th : Coroutine} {e : Op} {k : Except PyExn e.Resp → Relay Reply}
    {r : Except PyExn e.Resp} {w : World} {s : Session} (hth : c.threads[t]? = some th)
    (ha : Answers t (c.others t) e c.world th.session a r w s) (hw : c'.world = w)
    (hth' : c'.threads[t]? = some (th.answered machine e r (k r) s)) {id : UUID}
    (hid : id ∈ Coroutine.enqueued (th.answered machine e r (k r) s))
    (hins : Inserts th.session.pending id) :
    c'.world.Has id ∨ Inserts (th.answered machine e r (k r) s).session.pending id := by
  have hm := List.mem_of_getElem? hth
  have hm' := List.mem_of_getElem? hth'
  have hrequest : th.origin.isRequest = true := hr.isRequest_of_waits hm hins
  cases hk : k r with
  | call e' k' =>
    rw [hw]
    exact there_answered ha (Or.inr hins)
  | raised x =>
    rw [hk] at hth' hid
    exact absurd hins (hok.commits t ha.moved th hth c' hs _ hth' rfl id hid)
  | done reply =>
    -- it has run to its end, so it has committed what it has stated
    rw [hk] at hm'
    obtain ⟨⟨seen, ws, htxn⟩, -⟩ := hr'.committed_of_done hm' hrequest rfl
    obtain ⟨row, hrow, rfl⟩ := hins
    refine Or.inl (hr'.has_of_stated hm' (hr'.answered_of_committed hm' htxn) ?_)
    show _ ∈ statementsOf (th.trace ++ [⟨e, r⟩])
    rw [statementsOf_append_singleton]
    exact List.mem_append_left _ (hr.pending_stated th hm _ hrow)

/-- An event that is owed is committed after the step, or still owed. -/
theorem owes_step {id : UUID} (h : Owes c id) : c'.world.Has id ∨ Owes c' id := by
  obtain ⟨th, hth, hfirst, hid, hins⟩ := h
  obtain ⟨u, hu⟩ := List.mem_iff_getElem?.mp hth
  have hstays (hth' : th ∈ c'.threads) : c'.world.Has id ∨ Owes c' id :=
    Or.inr ⟨th, hth', hfirst, hid, hins⟩
  have hlt : u < c.threads.length := (List.getElem?_eq_some_iff.mp hu).1
  cases stepped hs with
  | started => exact hstays (List.mem_append_left _ hth)
  | ticked => exact hstays hth
  | answered hth₀ hp ha =>
    rename_i t th₀ e k r w s
    by_cases htu : t = u
    · subst htu
      rw [hu] at hth₀
      cases hth₀
      have hth' : (c.threads.set t (th.answered machine e r (k r) s))[t]? =
          some (th.answered machine e r (k r) s) := List.getElem?_set_self hlt
      have hid' : id ∈ Coroutine.enqueued (th.answered machine e r (k r) s) := by
        rw [Coroutine.enqueued_answered]
        exact List.mem_append_left _ hid
      refine (waits_answered hr hr' hok hs hu ha rfl hth' hid' hins).imp_right fun hins' => ?_
      exact ⟨_, List.mem_of_getElem? hth', hfirst, hid', hins'⟩
    · exact hstays (List.mem_of_getElem? ((List.getElem?_set_ne htu).trans hu))
  | killed hth₀ =>
    rename_i t th₀
    by_cases htu : t = u
    · subst htu
      rw [hu] at hth₀
      cases hth₀
      exact absurd hins (hok.commits t rfl th hu _ hs
        { th with prog := .raised .cancelled, session := .fresh } (List.getElem?_set_self hlt) rfl
        id hid)
    · exact hstays (List.mem_of_getElem? ((List.getElem?_set_ne htu).trans hu))
  | reaped hth₀ ho hend =>
    rename_i t th₀ id'
    by_cases htu : t = u
    · subst htu
      rw [hu] at hth₀
      cases hth₀
      rw [ho] at hfirst
      cases hfirst
    · exact hstays (List.mem_of_getElem? ((List.getElem?_set_ne htu).trans hu))

/-- So is one that is committed or owed. -/
theorem has_or_owes_step {id : UUID} (h : c.world.Has id ∨ Owes c id) :
    c'.world.Has id ∨ Owes c' id :=
  h.elim (fun hhas => Or.inl (has_step hr hs hhas)) (owes_step hr hr' hok hs)

/-! ### Whole runs -/

/-- What holds along such runs. -/
structure HandoverSound (c : Config) : Prop where
  queued : ∀ id, (c.world.jobs id).phase.isSome = true → c.world.Has id ∨ Owes c id
  threads : ∀ th ∈ c.threads, ∀ id, th.origin.delivers = some id →
    (c.world.Has id ∨ Owes c id) ∧ Coroutine.read th ≠ some none
  kept : ∀ th ∈ c.threads, ∀ id ∈ Coroutine.enqueued th,
    c.world.Has id ∨ Inserts th.session.pending id

variable (hc : HandoverSound c)

include hc

/-- What a coroutine has enqueued is committed after the step, or waits in its session. -/
theorem HandoverSound.kept_step : ∀ th ∈ c'.threads, ∀ id ∈ Coroutine.enqueued th,
    c'.world.Has id ∨ Inserts th.session.pending id := by
  have hmono {id : UUID} (h : c.world.Has id) : c'.world.Has id := has_step hr hs h
  intro th' hth' id hid
  obtain ⟨t, ht'⟩ := List.mem_iff_getElem?.mp hth'
  cases (stepped hs).cameFrom ht' with
  | untouched hth => exact (hc.kept _ (List.mem_of_getElem? hth) id hid).imp_left hmono
  | started => cases hid
  | reaped hth => exact (hc.kept _ (List.mem_of_getElem? hth) id hid).imp_left hmono
  | killed hth ha =>
    rename_i th
    refine (hc.kept th (List.mem_of_getElem? hth) id hid).imp hmono fun hins => ?_
    subst ha
    exact absurd hins (hok.commits t rfl th hth c' hs _ ht' rfl id hid)
  | answered hth hp ha =>
    rename_i th e k r s
    have hm := List.mem_of_getElem? hth
    have hthere : c.world.Has id ∨ Inserts th.session.pending id := by
      rw [Coroutine.enqueued_answered] at hid
      rcases List.mem_append.mp hid with hid | hid
      · exact hc.kept th hm id hid
      · refine hr.there_of_enqueues hm (Coroutine.enqueues_eq_some.mpr ?_)
        cases e with
        | enqueueJob id' =>
          obtain rfl := List.mem_singleton.mp hid
          exact ⟨k, hp⟩
        | _ => cases hid
    rcases hthere with hhas | hins
    · exact Or.inl (hmono hhas)
    · exact waits_answered hr hr' hok hs hth ha rfl ht' hid hins

/-- A job that is queued or in progress after the step belongs to a committed event, or to one that
is owed. -/
theorem HandoverSound.queued_step {id : UUID} (hid : (c'.world.jobs id).phase.isSome = true) :
    c'.world.Has id ∨ Owes c' id := by
  have hkept := hc.kept_step hr hr' hok hs
  have hold (h : (c.world.jobs id).phase.isSome = true) : c'.world.Has id ∨ Owes c' id :=
    has_or_owes_step hr hr' hok hs (hc.queued id h)
  cases stepped hs with
  | started hstart =>
    cases hstart with
    | request r => exact hold hid
    | cron => exact hold hid
    | job id' hj =>
      change (Function.update c.world.jobs id' _ id).phase.isSome = true at hid
      by_cases he : id = id'
      · exact hold (he ▸ hj)
      · rw [Function.update_of_ne he] at hid
        exact hold hid
  | answered hth hp ha =>
    rename_i t th e k r w s
    rcases ha.jobs with hjobs | ⟨-, id', rfl, hjobs⟩
    · exact hold (hjobs ▸ hid)
    · rcases hjobs id hid with hid | rfl
      · exact hold hid
      · have henqueues := Coroutine.enqueues_eq_some.mpr ⟨k, hp⟩
        cases hfirst : th.origin.enqueuesFirst with
        | false =>
          have hhas := (hr.enqueue_has_iff (List.mem_of_getElem? hth) henqueues).mpr hfirst
          exact Or.inl (has_step hr hs hhas)
        | true =>
          have hlt : t < c.threads.length := (List.getElem?_eq_some_iff.mp hth).1
          have hmem := List.mem_of_getElem? (List.getElem?_set_self
            (a := th.answered machine (.enqueueJob id) r (k r) s) hlt)
          have hid' : id ∈ Coroutine.enqueued (th.answered machine (.enqueueJob id) r (k r) s) := by
            rw [Coroutine.enqueued_answered]
            exact List.mem_append_right _ (List.mem_singleton_self id)
          exact (hkept _ hmem id hid').imp_right fun hins => ⟨_, hmem, hfirst, hid', hins⟩
  | killed => exact hold hid
  | reaped hth ho hend =>
    rename_i t th id'
    change (Function.update c.world.jobs id' _ id).phase.isSome = true at hid
    by_cases he : id = id'
    · rw [he, Function.update_self] at hid
      cases hid
    · rw [Function.update_of_ne he] at hid
      exact hold hid
  | ticked => exact hold hid

/-- After the step the runs of workers belong to such events, and those that have read have found
the row. -/
theorem HandoverSound.threads_step : ∀ th ∈ c'.threads, ∀ id, th.origin.delivers = some id →
    (c'.world.Has id ∨ Owes c' id) ∧ Coroutine.read th ≠ some none := by
  have hmono {id : UUID} (h : c.world.Has id ∨ Owes c id) : c'.world.Has id ∨ Owes c' id :=
    has_or_owes_step hr hr' hok hs h
  refine (stepped hs).forall_threads hc.threads ?_ ?_ ?_ ?_ ?_
  · exact fun u uh _ _ h id ho => (h id ho).imp_left hmono
  · intro o w hstart id ho
    refine ⟨?_, fun h => nomatch h⟩
    cases hstart with
    | request r => cases ho
    | cron => cases ho
    | job id' hj =>
      cases ho
      exact hmono (hc.queued id hj)
  · intro t th e k r w s hth hp ha _ h id ho
    obtain ⟨hthere, hread⟩ := h id ho
    refine ⟨hmono hthere, read_answered ha hp hread ?_⟩
    rintro id' rfl hcalled
    -- it reads its own event, and no INSERT of it waits
    have hallow : (Coroutine.phase th).allows id (.getEventWithEndpoint id') :=
      (hr.follows_deliver (List.mem_of_getElem? hth) ho).allows hp
    obtain rfl : id' = id := by
      cases hph : Coroutine.phase th with
      | started =>
        rw [hph] at hallow
        cases hallow
        rfl
      | loaded ev ep ws =>
        rw [hph] at hallow
        cases hallow.1
      | closed =>
        rw [hph] at hallow
        cases hallow
    refine hthere.resolve_right ?_
    rintro ⟨uh, huh, -, -, hins⟩
    refine hok.reads t hcalled th hth id' ?_ uh huh hins
    unfold Coroutine.loads
    rw [hp]
    rfl
  · exact fun th _ h id ho => (h id ho).imp_left hmono
  · intro th _ _ id ho _ h id' ho'
    exact (h id' (by rw [ho]; exact ho')).imp_left hmono

end step

/-- Along runs that meet the condition, jobs belong to events that are committed or owed. -/
theorem Reaches.handoverSound (h : Reaches deps (CommitsInTime deps) c) : HandoverSound c := by
  refine h.invariant (J := HandoverSound) (fun _ => ⟨fun _ hid => (nomatch hid),
    fun _ hth => (nomatch hth), fun _ hth => nomatch hth⟩) fun c a c' hr hc hok hs => ?_
  have hr' := hr.tail hok hs
  exact ⟨fun _ hid => hc.queued_step hr hr' hok hs hid, hc.threads_step hr hr' hok hs,
    hc.kept_step hr hr' hok hs⟩

/-- A worker that has read its event answers NOT_FOUND only for a terminal row. -/
theorem Reaches.handoverKept (h : Reaches deps (CommitsInTime deps) c) : HandoverKept c := by
  have hhanded := h.handoverSound
  refine ⟨hhanded.queued, fun th hth id ho => (hhanded.threads th hth id ho).1, hhanded.kept, ?_⟩
  intro th hth ho hp
  obtain ⟨id, hid⟩ := Option.isSome_iff_exists.mp ho
  have hfollows := h.follows (S := fun o => o.delivers.isSome = true)
    (C := readContract) (Q := FoundUnlessTerminal) (p := none) (fun o ho => ?_) (fun _ h => h)
    th hth ho
  · rcases hfollows.done hp rfl with hnone | hfound
    · exact absurd hnone (hhanded.threads th hth id hid).2
    · exact hfound
  · cases o with
    | job id => exact jobProgram_read deps id
    | reaped id => exact jobProgram_read deps id
    | request r => cases ho
    | cron => cases ho

/-- **Jobs and commits.** An enqueue finds a committed row if and only if it is made by a single
replay with a session of its own or by a poll, in every reachable state. And in every run in which
workers do not read before the commit and no request fails between an enqueue and its commit, jobs
belong to committed events or to events that are owed, and workers find the row; when nothing is
owed, all jobs belong to committed events. -/
theorem enqueue_after_commit (deps : Deps) :
    (∀ c, Reaches deps anyStep c → ∀ th ∈ c.threads, ∀ id ∈ Coroutine.enqueues th,
      (c.world.Has id ↔ th.origin.enqueuesFirst = false)) ∧
    ∀ c, Reaches deps (CommitsInTime deps) c →
      HandoverKept c ∧ ((∀ id, ¬ Owes c id) → EnqueueAfterCommit c) :=
  ⟨fun _ h _ hth _ hid => h.enqueue_has_iff hth hid,
    fun _ h => ⟨h.handoverKept, h.handoverKept.settled⟩⟩

/-- The coroutine has finished with NOT_FOUND. -/
def Coroutine.notFound (th : Coroutine) : Bool :=
  match th.prog with
  | .done (.delivery .notFound) => true
  | _ => false

theorem Coroutine.done_of_notFound {th : Coroutine} (h : Coroutine.notFound th = true) :
    th.prog = .done (.delivery .notFound) := by
  unfold Coroutine.notFound at h
  split at h
  · assumption
  · cases h

/-- A replay of a dead letter: it enqueues the new event, which is committed, a worker takes the
job, and a second run of the first event finds a terminal row. -/
theorem enqueue_after_commit_replayed : ∃ b c, Reaches Sample.deps anyStep b ∧
    (∃ th ∈ b.threads, Sample.id 4 ∈ Coroutine.enqueues th ∧ b.world.Has (Sample.id 4)) ∧
    Reaches Sample.deps (CommitsInTime Sample.deps) c ∧
    (c.world.jobs (Sample.id 4)).phase = some .inProgress ∧
    c.threads.map Coroutine.notFound = [false, false, false, false, false, true] ∧
    HandoverKept c ∧ EnqueueAfterCommit c := by
  let replaying := Sample.setup Sample.shop Sample.order ++
    Sample.job 2 16 (Sample.oracle 3 (Sample.response 500 [])) ++
    Sample.request 3 8 (.replay (Sample.id 3) false) (Sample.oracle 4 .cancelled)
  let replayed := Sample.calls 3 1 (Sample.oracle 4 .cancelled) ++ [.startJob (Sample.id 4)] ++
    Sample.job 5 1 (Sample.oracle 5 .cancelled)
  let inTime := fun (c : Config) (a : Action) => decide (CommitsInTime Sample.deps c a)
  have hrun : (runActs (step Sample.deps) inTime (initial Sample.start) replaying).any (fun b =>
      decide (∃ th ∈ b.threads, Coroutine.enqueues th = some (Sample.id 4) ∧
        th.origin.enqueuesFirst = false) &&
      (runActs (step Sample.deps) inTime b replayed).any fun c => decide (
        (c.world.jobs (Sample.id 4)).phase = some .inProgress ∧
        c.threads.map Coroutine.notFound = [false, false, false, false, false, true] ∧
        ∀ th ∈ c.threads, th.session.pending.isEmpty = true)) = true := by
    decide +kernel
  have htime : ∀ c a, inTime c a = true → CommitsInTime Sample.deps c a :=
    fun _ _ => of_decide_eq_true
  obtain ⟨b, hb, hrest⟩ := exists_run (CommitsInTime Sample.deps) htime hrun
  obtain ⟨henqueues, hreplayed⟩ := Bool.and_eq_true_iff.mp hrest
  obtain ⟨th, hth, hid, hfirst⟩ := of_decide_eq_true henqueues
  obtain ⟨c, hc, hfacts⟩ := exists_run (CommitsInTime Sample.deps) htime hreplayed
  obtain ⟨hjob, hfound, hsessions⟩ := of_decide_eq_true hfacts
  have hreach : Reaches Sample.deps (CommitsInTime Sample.deps) c := ⟨Sample.start, hb.trans hc⟩
  have hany : Reaches Sample.deps anyStep b := ⟨Sample.start, hb.mono fun _ _ _ _ => trivial⟩
  obtain ⟨henqueue, hhanded⟩ := enqueue_after_commit Sample.deps
  obtain ⟨hover, hsettled⟩ := hhanded c hreach
  refine ⟨b, c, hany, ⟨th, hth, hid, (henqueue b hany th hth _ hid).mpr hfirst⟩, hreach, hjob,
    hfound, hover, hsettled ?_⟩
  rintro id ⟨uh, huh, -, -, row, hrow, -⟩
  rw [List.isEmpty_iff.mp (hsessions uh huh)] at hrow
  cases hrow

/-- A worker that takes the job of `create_event` before the commit: it answers NOT_FOUND, and
the event is then committed as pending without a job. -/
theorem not_enqueue_after_commit : ∃ c c', Reaches Sample.deps anyStep c ∧
    Runs (step Sample.deps) anyStep c c' ∧ ¬ EnqueueAfterCommit c ∧ ¬ EnqueueAfterCommit c' ∧
    (c'.world.db.events.get? (Sample.id 2)).map WebhookEvent.status = some .pending ∧
    (c'.world.jobs (Sample.id 2)).phase = none := by
  let enqueued := Sample.request 0 4 (.createEndpoint Sample.shop) (Sample.oracle 1 .cancelled) ++
    Sample.request 1 5 (.createEvent Sample.order) (Sample.oracle 2 .cancelled)
  let taken := Sample.job 2 1 (Sample.oracle 3 .cancelled) ++ [.finishJob 2] ++
    Sample.calls 1 1 (Sample.oracle 2 .cancelled)
  have hrun : ((runActs (step Sample.deps) (fun _ _ => true) (initial Sample.start) enqueued).any
      fun c => decide ((c.world.jobs (Sample.id 2)).phase.isSome = true ∧
          c.world.db.events.get? (Sample.id 2) = none) &&
        (runActs (step Sample.deps) (fun _ _ => true) c taken).any fun c' =>
          decide ((c'.world.db.events.get? (Sample.id 2)).map WebhookEvent.status =
              some .pending ∧
            (c'.world.jobs (Sample.id 2)).phase = none ∧
            ∃ th ∈ c'.threads, th.origin.delivers.isSome = true ∧ Coroutine.notFound th = true ∧
              (Coroutine.read th).map Option.isSome = some false)) = true := by
    decide +kernel
  obtain ⟨c, hc, hrest⟩ := exists_run anyStep (fun _ _ _ => trivial) hrun
  obtain ⟨hqueued, htaken⟩ := Bool.and_eq_true_iff.mp hrest
  obtain ⟨hjob, hmissing⟩ := of_decide_eq_true hqueued
  obtain ⟨c', hc', hfacts⟩ := exists_run anyStep (fun _ _ _ => trivial) htaken
  obtain ⟨hpending, hgone, th, hth, ho, hnotFound, hread⟩ := of_decide_eq_true hfacts
  refine ⟨c, c', ⟨Sample.start, hc⟩, hc', fun h => ?_, fun h => ?_, hpending, hgone⟩
  · have hhas := h.queued _ hjob
    unfold World.Has at hhas
    rw [hmissing] at hhas
    cases hhas
  · obtain ⟨ev, hev, -⟩ := h.found th hth ho (Coroutine.done_of_notFound hnotFound)
    rw [hev] at hread
    cases hread

end WebhookRelay

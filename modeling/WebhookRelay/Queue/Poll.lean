import WebhookRelay.Sample
import WebhookRelay.Runs.Coroutines
import WebhookRelay.Queue.Jobs

/-!
# What a poll hands over

`poll_pending_retries` selects the due events and enqueues a job for each of them, without
looking at the answer. A job `deliver:<id>` of arq leaves a result key for an hour, and
`enqueue_job` makes no job while it is there, so a retry that is due within the hour of its last
run is not handed to a worker (`not_poll_hands_over`). Where no such key is in the way, every
event that was selected has a job when the poll returns (`poll_hands_over`).
-/

namespace WebhookRelay

open Data Effect

/-! ### The contract of the poll -/

/-- The events a poll has selected, those it has enqueued, and those whose enqueue raised. -/
structure Poll where
  selected : List UUID
  enqueued : List UUID
  failed : List UUID

/-- What a poll has done so far. -/
def pollContract : Contract relay PyExn Poll where
  allows _ _ := True
  next p e r := match e, r with
    | .selectDueForRetry _ _, .ok rows =>
      { p with selected := p.selected ++ rows.map WebhookEvent.id }
    | .selectStalePending _ _, .ok rows =>
      { p with selected := p.selected ++ rows.map WebhookEvent.id }
    | .enqueueJob id, .ok _ => { p with enqueued := p.enqueued ++ [id] }
    | .enqueueJob id, .error _ => { p with failed := p.failed ++ [id] }
    | _, _ => p

/-- Every event that was selected has been tried. -/
def Poll.Complete (p : Poll) : Prop := ∀ id ∈ p.selected, id ∈ p.enqueued ∨ id ∈ p.failed

/-- What a coroutine has polled so far. -/
def Coroutine.poll (th : Coroutine) : Poll := pollContract.run ⟨[], [], []⟩ th.trace

/-- The coroutine is a poll. -/
def Origin.polls : Origin → Bool
  | .cron => true
  | _ => false

/-- The loop tries every event it is given. -/
theorem enqueueEach_complete (events : List WebhookEvent) (n : ℕ) (p : Poll)
    (h : ∀ id ∈ p.selected, id ∈ p.enqueued ∨ id ∈ p.failed ∨ id ∈ events.map WebhookEvent.id) :
    (Worker.enqueueEach events n).Obeys pollContract (finishing fun _ p => p.Complete) p := by
  induction events generalizing n p with
  | nil =>
    rintro _ ⟨⟩ id hid
    rcases h id hid with hid | hid | hid
    · exact Or.inl hid
    · exact Or.inr hid
    · cases hid
  | cons event events ih =>
    refine (Prog.obeys_bind _ _).mpr ((Prog.obeys_attempt _).mpr
      (Prog.obeys_perform.mpr ⟨trivial, fun r => ?_⟩))
    cases r with
    | ok b =>
      refine ih _ _ fun id hid => ?_
      rcases h id hid with hid | hid | hid
      · exact Or.inl (List.mem_append_left _ hid)
      · exact Or.inr (Or.inl hid)
      · rcases List.mem_cons.mp hid with rfl | hid
        · exact Or.inl (List.mem_append_right _ List.mem_cons_self)
        · exact Or.inr (Or.inr hid)
    | error x =>
      dsimp only
      split_ifs
      · refine ih _ _ fun id hid => ?_
        rcases h id hid with hid | hid | hid
        · exact Or.inl hid
        · exact Or.inr (Or.inl (List.mem_append_left _ hid))
        · rcases List.mem_cons.mp hid with rfl | hid
          · exact Or.inr (Or.inl (List.mem_append_right _ List.mem_cons_self))
          · exact Or.inr (Or.inr hid)
      · exact fun _ h => nomatch h

/-- A poll that returns has tried every event it has selected. -/
theorem cronProgram_complete :
    cronProgram.Obeys pollContract (finishing fun _ p => p.Complete) ⟨[], [], []⟩ := by
  have hraised {p : Poll} {x : PyExn} :
      finishing (fun (_ : Reply) (p : Poll) => p.Complete) (.error x) p := fun _ h => nomatch h
  refine (Prog.obeys_map _ _).mpr ((Prog.obeys_bind _ _).mpr ?_)
  -- the first SELECT
  refine (Prog.obeys_perform_bind (I := relay) Op.now _).mpr ⟨trivial, fun now => ?_,
    fun _ => hraised⟩
  refine Prog.obeys_perform.mpr ⟨trivial, fun r => ?_⟩
  cases r with
  | error x => exact hraised
  | ok due =>
    -- the second SELECT
    refine (Prog.obeys_bind _ _).mpr ((Prog.obeys_bind _ _).mpr ?_)
    refine (Prog.obeys_perform_bind (I := relay) Op.now _).mpr ⟨trivial, fun now => ?_,
      fun _ => hraised⟩
    refine (Prog.obeys_ofExcept _).mpr ?_
    cases (now.addSeconds (.finite (-(120 : ℕ)))).mapError PyExn.ofNum with
    | error x => exact hraised
    | ok cutoff =>
      refine Prog.obeys_perform.mpr ⟨trivial, fun r => ?_⟩
      cases r with
      | error x => exact hraised
      | ok stale =>
        refine (enqueueEach_complete _ 0 _ fun id hid => ?_).mono fun r p h => ?_
        · exact Or.inr (Or.inr ((congrArg (id ∈ ·) List.map_append).mpr hid))
        · rintro _ hr
          obtain ⟨n, rfl, -⟩ := map_eq_ok.mp hr
          exact h n rfl

/-! ### The condition -/

/-- A poll meets no live result key unless there is a job, and no job of an event that a poll on
its way has enqueued is over. -/
def PollsClear (c : Config) (a : Action) : Prop :=
  (∀ t ∈ a.called, ∀ th ∈ c.threads[t]?, th.origin.polls = true →
    ∀ id ∈ Coroutine.enqueues th, (c.world.jobs id).resultLive c.world.now = true →
      (c.world.jobs id).phase.isSome = true) ∧
  ∀ id ∈ a.finishes c, ∀ th ∈ c.threads, th.origin.polls = true →
    th.prog.ended = false → id ∉ (Coroutine.poll th).enqueued

instance (c : Config) (a : Action) : Decidable (PollsClear c a) :=
  inferInstanceAs (Decidable ((∀ t ∈ a.called, ∀ th ∈ c.threads[t]?, th.origin.polls = true →
    ∀ id ∈ Coroutine.enqueues th, (c.world.jobs id).resultLive c.world.now = true →
      (c.world.jobs id).phase.isSome = true) ∧
    ∀ id ∈ a.finishes c, ∀ th ∈ c.threads, th.origin.polls = true →
      th.prog.ended = false → id ∉ (Coroutine.poll th).enqueued))

/-! ### Polls on their way -/

variable {deps : Deps} {c c' : Config} {a : Action}

/-- Every event the coroutine has enqueued has a job. -/
def Handed (w : World) (th : Coroutine) : Prop :=
  ∀ id ∈ (Coroutine.poll th).enqueued, (w.jobs id).phase.isSome = true

/-- What a poll has enqueued has a job after the next answer. -/
theorem handed_answered {t : ℕ} {th : Coroutine} {e : Op} {k : Except PyExn e.Resp → Relay Reply}
    {r : Except PyExn e.Resp} {w : World} {s : Session} (hclear : PollsClear c a)
    (hth : c.threads[t]? = some th) (hp : th.prog = .call e k) (ho : th.origin.polls = true)
    (ha : Answers t (c.others t) e c.world th.session a r w s) (h : Handed c.world th) :
    Handed w (th.answered machine e r (k r) s) := by
  have hnext : Coroutine.poll (th.answered machine e r (k r) s) =
      pollContract.next (Coroutine.poll th) e r := Contract.run_append_singleton _ _ _ _
  unfold Handed
  rw [hnext]
  have hold : ∀ id ∈ (Coroutine.poll th).enqueued, (w.jobs id).phase.isSome = true :=
    fun id hid => ha.jobs_keep (h id hid)
  cases e with
  | enqueueJob id' =>
    cases r with
    | error x => exact hold
    | ok b =>
      intro id hid
      rcases List.mem_append.mp hid with hid | hid
      · exact hold id hid
      · obtain rfl := List.mem_singleton.mp hid
        obtain ⟨o, rfl, -⟩ := ha.of_ok
        refine ha.enqueued (hclear.1 t rfl th hth ho id ?_)
        unfold Coroutine.enqueues
        rw [hp]
        rfl
  | _ => cases r <;> exact hold

/-- What the polls on their way have enqueued has a job. -/
theorem Reaches.handed (h : Reaches deps PollsClear c) : ∀ th ∈ c.threads,
    th.origin.polls = true → th.prog.ended = false → Handed c.world th := by
  refine h.invariant (J := fun c => ∀ th ∈ c.threads, th.origin.polls = true →
    th.prog.ended = false → Handed c.world th) (fun _ _ hth => nomatch hth)
    fun c a c' _ hc hclear hs => ?_
  refine (stepped hs).forall_threads hc ?_ ?_ ?_ ?_ ?_
  · intro u uh huh _ hhanded ho hlive id hid
    rcases (stepped hs).jobs_keep (hhanded ho hlive id hid) with hjob | hfinish
    · exact hjob
    · exact absurd hid (hclear.2 id hfinish uh (List.mem_of_getElem? huh) ho hlive)
  · intro o w _ _ _ id hid
    cases hid
  · intro t th e k r w s hth hp ha hw hhanded ho _
    rw [hw]
    exact handed_answered hclear hth hp ho ha (hhanded ho (by rw [hp]; rfl))
  · intro th _ _ _ hlive
    cases hlive
  · intro th _ _ id ho _ _ hpolls
    cases hpolls

/-! ### What a poll hands over -/

/-- Every event the poll has selected has a job, unless its enqueue raised. -/
def HandedOver (w : World) (th : Coroutine) : Prop :=
  ∀ id ∈ (Coroutine.poll th).selected, id ∉ (Coroutine.poll th).failed →
    (w.jobs id).phase.isSome = true

/-- **Due retries are handed over**: when a poll returns, every event it has selected has a job
that is queued or in progress, unless its enqueue raised. -/
theorem poll_hands_over {t : ℕ} {th th' : Coroutine} {reply : Reply}
    (h : Reaches deps PollsClear c) (hclear : PollsClear c a) (hs : step deps c a = some c')
    (hth : c.threads[t]? = some th) (ho : th.origin.polls = true)
    (hlive : th.prog.ended = false) (hth' : c'.threads[t]? = some th')
    (hdone : th'.prog = .done reply) : HandedOver c'.world th' := by
  have hended : th'.prog.ended = true := by rw [hdone]; rfl
  have hsame (heq : th' = th) : HandedOver c'.world th' := by
    rw [heq, hlive] at hended
    cases hended
  have hset {u : ℕ} {x : Coroutine} (hset : (c.threads.set u x)[t]? = some th') :
      th' = th ∨ u = t ∧ th' = x := by
    rw [List.getElem?_set] at hset
    split_ifs at hset with hut hlen
    · exact Or.inr ⟨hut, (Option.some.inj hset).symm⟩
    · rw [hth] at hset
      exact Or.inl (Option.some.inj hset).symm
  have hreach' := h.tail hclear hs
  cases stepped hs with
  | started hstart =>
    have hlt : t < c.threads.length := (List.getElem?_eq_some_iff.mp hth).1
    rw [List.getElem?_append_left hlt, hth] at hth'
    exact hsame (Option.some.inj hth').symm
  | killed hu =>
    rcases hset hth' with heq | ⟨rfl, rfl⟩
    · exact hsame heq
    · cases hdone
  | reaped hu hjob hend =>
    rcases hset hth' with heq | ⟨rfl, rfl⟩
    · exact hsame heq
    · rw [hth] at hu
      rw [Option.some.inj hu] at hlive
      rw [hlive] at hend
      cases hend
  | ticked =>
    rw [hth] at hth'
    exact hsame (Option.some.inj hth').symm
  | answered hu hp ha =>
    rcases hset hth' with heq | ⟨rfl, rfl⟩
    · exact hsame heq
    · obtain rfl : th = _ := Option.some.inj (hth.symm.trans hu)
      have hhanded := handed_answered hclear hth hp ho ha
        (h.handed th (List.mem_of_getElem? hth) ho hlive)
      have hcomplete := (hreach'.follows (S := fun o => o.polls = true) (C := pollContract)
        (Q := fun _ p => p.Complete) (p := ⟨[], [], []⟩) (fun o ho => ?_) (fun _ h => h) _
        (List.mem_of_getElem? hth') ho).done hdone
      · intro id hid hfailed
        rcases hcomplete id hid with hid | hid
        · exact hhanded id hid
        · exact absurd hid hfailed
      · cases o with
        | cron => exact cronProgram_complete
        | _ => cases ho

/-- The calls of a poll of one event: the fifth one is the enqueue. -/
def Sample.polling (micros : ℕ) : List Action :=
  Sample.setup Sample.retrying Sample.order ++
    Sample.job 2 15 (Sample.oracle 3 (Sample.response 500 [])) ++
    [.finishJob 2, .tick micros, .startCron] ++ Sample.calls 3 4 (Sample.oracle 4 .cancelled)

/-- A retry that is polled more than an hour after the first run. -/
theorem poll_hands_over_next_day : ∃ c c' th', Reaches Sample.deps PollsClear c ∧
    step Sample.deps c (.call 3 (Sample.oracle 4 .cancelled)) = some c' ∧
    c'.threads[3]? = some th' ∧ (Coroutine.poll th').selected = [Sample.id 2] ∧
    HandedOver c'.world th' := by
  have hrun : ((runActs (step Sample.deps) (fun c a => decide (PollsClear c a))
      (initial Sample.start) (Sample.polling 86400000000)).any fun c =>
        decide (PollsClear c (.call 3 (Sample.oracle 4 .cancelled))) &&
        (c.threads[3]?.any fun th => th.origin.polls && !th.prog.ended) &&
        (step Sample.deps c (.call 3 (Sample.oracle 4 .cancelled))).any fun c' =>
          c'.threads[3]?.any fun th' => th'.prog.value?.isSome &&
            decide ((Coroutine.poll th').selected = [Sample.id 2])) = true := by
    decide +kernel
  obtain ⟨c, hc, hrest⟩ := exists_run PollsClear (fun _ _ => of_decide_eq_true) hrun
  obtain ⟨hbefore, hafter⟩ := Bool.and_eq_true_iff.mp hrest
  obtain ⟨hclear, hpoll⟩ := Bool.and_eq_true_iff.mp hbefore
  obtain ⟨th, hth, hlive⟩ := (Option.any_eq_true _ _).mp hpoll
  obtain ⟨ho, hlive⟩ := Bool.and_eq_true_iff.mp hlive
  obtain ⟨c', hs, hreturned⟩ := (Option.any_eq_true _ _).mp hafter
  obtain ⟨th', hth', hdone⟩ := (Option.any_eq_true _ _).mp hreturned
  obtain ⟨hdone, hselected⟩ := Bool.and_eq_true_iff.mp hdone
  obtain ⟨reply, hreply⟩ := Option.isSome_iff_exists.mp hdone
  refine ⟨c, c', th', ⟨Sample.start, hc⟩, hs, hth', of_decide_eq_true hselected, ?_⟩
  exact poll_hands_over ⟨Sample.start, hc⟩ (of_decide_eq_true hclear) hs hth ho
    (by simpa using hlive) hth' (Prog.value?_eq_some.mp hreply)

/-- A retry that is polled a minute after the first run: the poll returns, nothing raised, and
the event is due and has no job. -/
theorem not_poll_hands_over : ∃ c c' th th' reply, Reaches Sample.deps anyStep c ∧
    step Sample.deps c (.call 3 (Sample.oracle 4 .cancelled)) = some c' ∧
    c.threads[3]? = some th ∧ th.origin.polls = true ∧ th.prog.ended = false ∧
    c'.threads[3]? = some th' ∧ th'.prog = .done reply ∧
    (c'.world.db.events.get? (Sample.id 2)).any (Db.dueForRetry c'.world.now) = true ∧
    ¬ HandedOver c'.world th' := by
  have hrun : ((runActs (step Sample.deps) (fun _ _ => true) (initial Sample.start)
      (Sample.polling 60000000)).any fun c =>
        (c.threads[3]?.any fun th => th.origin.polls && !th.prog.ended) &&
        (step Sample.deps c (.call 3 (Sample.oracle 4 .cancelled))).any fun c' =>
          c'.threads[3]?.any fun th' => th'.prog.value?.isSome &&
            decide ((c'.world.db.events.get? (Sample.id 2)).any
                (Db.dueForRetry c'.world.now) = true ∧
              Sample.id 2 ∈ (Coroutine.poll th').selected ∧
              Sample.id 2 ∉ (Coroutine.poll th').failed ∧
              (c'.world.jobs (Sample.id 2)).phase.isSome = false)) = true := by
    decide +kernel
  obtain ⟨c, hc, hrest⟩ := exists_run anyStep (fun _ _ _ => trivial) hrun
  obtain ⟨hpoll, hafter⟩ := Bool.and_eq_true_iff.mp hrest
  obtain ⟨th, hth, hlive⟩ := (Option.any_eq_true _ _).mp hpoll
  obtain ⟨ho, hlive⟩ := Bool.and_eq_true_iff.mp hlive
  obtain ⟨c', hs, hreturned⟩ := (Option.any_eq_true _ _).mp hafter
  obtain ⟨th', hth', hfacts⟩ := (Option.any_eq_true _ _).mp hreturned
  obtain ⟨hdone, hfacts⟩ := Bool.and_eq_true_iff.mp hfacts
  obtain ⟨reply, hreply⟩ := Option.isSome_iff_exists.mp hdone
  obtain ⟨hdue, hselected, hfailed, hnone⟩ := of_decide_eq_true hfacts
  refine ⟨c, c', th, th', reply, ⟨Sample.start, hc⟩, hs, hth, ho, by simpa using hlive, hth',
    Prog.value?_eq_some.mp hreply, hdue, fun h => ?_⟩
  have hjob := h _ hselected hfailed
  rw [hnone] at hjob
  cases hjob

end WebhookRelay

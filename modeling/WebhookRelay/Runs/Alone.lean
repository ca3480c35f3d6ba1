import Mathlib.Data.List.Infix
import Mathlib.Data.List.MinMax
import WebhookRelay.Sample
import WebhookRelay.Runs.Audit

/-!
# Runs that do not overlap

When a job is only started while no run for its event is under way (`NoOverlap`), a run is alone
with its event: nobody else changes the row between its read and its commit
(`Reaches.current`), so every commit is fresh and the books are right. `audit_log` states this
for the attempt log.
-/

namespace WebhookRelay

open Data Effect

/-! ### The condition -/

/-- A job is only started when every run for its event has ended. -/
def NoOverlap (c : Config) : Action → Prop
  | .startJob id => ∀ th ∈ c.threads, th.origin.delivers = some id → th.prog.ended = true
  | _ => True

instance (c : Config) (a : Action) : Decidable (NoOverlap c a) :=
  match a with
  | .startJob id => inferInstanceAs
      (Decidable (∀ th ∈ c.threads, th.origin.delivers = some id → th.prog.ended = true))
  | .arrive _ | .startCron | .call _ _ | .fault _ _ _ _ | .kill _ | .finishJob _ | .tick _ =>
    .isTrue trivial

/-- Two coroutines do not both have a run for one event under way. -/
def NotBoth (th th' : Coroutine) : Prop :=
  ∀ id, th.origin.delivers = some id → th'.origin.delivers = some id →
    th.prog.ended = true ∨ th'.prog.ended = true

theorem NotBoth.symm (th th' : Coroutine) (h : NotBoth th th') : NotBoth th' th :=
  fun id ho ho' => (h id ho' ho).symm

variable {deps : Deps} {c c' : Config} {a : Action}

/-- No two runs for one event are under way. -/
theorem Reaches.alone (h : Reaches deps NoOverlap c) : Effect.Apart NotBoth c.threads := by
  refine h.invariant (J := fun c => Effect.Apart NotBoth c.threads) (fun _ => .nil)
    fun c a c' _ hc ha hs => ?_
  cases stepped hs with
  | started hstart =>
    refine hc.append NotBoth.symm fun th hth id ho ho' => ?_
    cases hstart with
    | request r => cases ho
    | job id' hj =>
      cases ho
      exact Or.inr (ha th hth ho')
    | cron => cases ho
  | answered hth hp _ =>
    refine hc.set NotBoth.symm fun u uh hu huh id ho ho' => ?_
    rcases hc _ _ _ _ (Ne.symm hu) hth huh id ho ho' with h | h
    · rw [hp] at h
      cases h
    · exact Or.inr h
  | killed => exact hc.set NotBoth.symm fun _ _ _ _ _ _ _ => Or.inl rfl
  | reaped hth ho hend => exact hc.set NotBoth.symm fun _ _ _ _ _ _ _ => Or.inl hend
  | ticked => exact hc

/-- A run has the committed row of its event. -/
def Current (w : World) (th : Coroutine) : Prop :=
  ∀ ev ep ws, Coroutine.Runs th ev ep ws → w.db.events.get? ev.id = some ev

/-- **A run that is alone with its event has the committed row**, in every reachable state. -/
theorem Reaches.current (h : Reaches deps NoOverlap c) : ∀ th ∈ c.threads, Current c.world th := by
  refine h.invariant (J := fun c => ∀ th ∈ c.threads, Current c.world th)
    (fun _ _ hth => nomatch hth) fun c a c' hr hc _ hs => ?_
  have hcommits := hr.commits hs
  -- a coroutine whose call does not take effect sees the same row of its event
  have hsame (u : ℕ) (uh : Coroutine) (huh : c.threads[u]? = some uh) (hu : a.taken ≠ some u)
      (hcur : Current c.world uh) : Current c'.world uh := by
    intro ev ep ws hruns
    have hrow := hcur ev ep ws hruns
    cases hcommits with
    | nothing hw => rwa [World.db, hw]
    | benign ws' hws hw =>
      rcases benign_events_get? hws c.world.db ev.id with h | ⟨h, -⟩
      · rw [World.db_of_wal hw, h, hrow]
      · rw [hrow] at h
        cases h
    | exit t ev' ep' x ht hcom hterm hx hw =>
      obtain ⟨th, id, k, hth, ho, hp, hph⟩ := committing?_eq_some.mp hcom
      have hlive : th.prog.ended = false := by rw [hp]; rfl
      have hown := (hr.sound.snapshots th (List.mem_of_getElem? hth) ev' ep' _
        ⟨by rw [ho]; rfl, hlive, hph⟩).1
      have hown' := (hr.sound.snapshots uh (List.mem_of_getElem? huh) ev ep ws hruns).1
      have hne : ev.id ≠ ev'.id := by
        intro he
        have hut : u ≠ t := fun h => hu (h ▸ ht)
        rcases hr.alone u t uh th hut huh hth ev.id hown' (he ▸ hown) with hend | hend
        · exact Bool.noConfusion (hruns.2.1.symm.trans hend)
        · exact Bool.noConfusion (hlive.symm.trans hend)
      rw [World.db_of_wal hw, x.events_get?, if_neg hne, hrow]
  refine (stepped hs).forall_threads hc hsame ?_ ?_ ?_ ?_
  · rintro o w - ev ep ws ⟨-, -, hph⟩
    cases hph
  · rintro t th e k r w s hth hp ha hw hcur ev ep ws hruns
    have hm : th ∈ c.threads := List.mem_of_getElem? hth
    obtain ⟨hwal, hruns'⟩ :=
      runs_answered (hr.lawful th hm) (fun _ => hr.follows_deliver hm) hp ha hruns
    rw [hw, World.db, hwal]
    rcases hruns' with ⟨ws', h⟩ | ⟨id, -, hread⟩
    · exact hcur ev ep ws' h
    · obtain ⟨hrow, rfl⟩ := id_of_read hread
      exact hrow
  · rintro th - - ev ep ws ⟨-, hend, -⟩
    cases hend
  · rintro th - - id ho hend - ev ep ws ⟨-, hlive, -⟩
    exact Bool.noConfusion (hend.symm.trans hlive)

/-- A commit of a run that is alone with its event finds the row it has read. -/
theorem Reaches.committing_current (h : Reaches deps NoOverlap c) {t : ℕ} {ev : WebhookEvent}
    {ep : WebhookEndpoint} {ws : List Write} (hc : committing? c t = some (ev, ep, ws)) :
    c.world.db.events.get? ev.id = some ev := by
  obtain ⟨th, id, k, hth, ho, hp, hph⟩ := committing?_eq_some.mp hc
  exact h.current th (List.mem_of_getElem? hth) ev ep ws
    ⟨by rw [ho]; rfl, by rw [hp]; rfl, hph⟩

/-- **Runs that do not overlap make fresh commits only.** -/
theorem Reaches.fresh (h : Reaches deps NoOverlap c) : Reaches deps Fresh c := by
  refine h.mono fun c a hr _ t ht x hx r hrow => ?_
  obtain ⟨ev, ep, ws⟩ := x
  obtain rfl : ev = r := Option.some.inj ((hr.committing_current hx).symm.trans hrow)
  obtain ⟨th, id, k, hth, ho, hp, hph⟩ := committing?_eq_some.mp hx
  have hallow : (Coroutine.phase th).allows id .commit :=
    (hr.follows_deliver (List.mem_of_getElem? hth) ho).allows hp
  rw [hph] at hallow
  exact ⟨fun _ => (hallow.2.2 rfl).1, fun _ => rfl⟩

/-! ### The attempt log -/

/-- The largest `max_retries` an endpoint ever had. -/
def maxRetriesEver (wal : List Write) (endpointId : UUID) : ℕ :=
  (wal.inits.filterMap fun ws => ((Db.empty.applyAll ws).endpoints.get? endpointId).map
    WebhookEndpoint.maxRetries).foldr max 0

theorem EverHad.le_maxRetriesEver {wal : List Write} {id : UUID} {m : ℕ} (h : EverHad wal id m) :
    m ≤ maxRetriesEver wal id := by
  obtain ⟨ws, hws, ep, hep, rfl⟩ := h
  have hmem : ep.maxRetries ∈ wal.inits.filterMap fun ws =>
      ((Db.empty.applyAll ws).endpoints.get? id).map WebhookEndpoint.maxRetries :=
    List.mem_filterMap.mpr ⟨ws, (List.mem_inits ws wal).mpr hws, by rw [hep]; rfl⟩
  exact List.le_max_of_le' 0 hmem le_rfl

/-- The attempt log of an event agrees with its row. -/
structure LogAgrees (c : Config) (r : WebhookEvent) : Prop where
  /-- The attempt numbers are 1, 2, …, `attempt_count`, each once. -/
  numbers : (c.world.db.attemptsOf r.id).map DeliveryAttempt.attemptNumber =
    List.range' 1 r.attemptCount
  /-- The counter never exceeds the largest `max_retries` its endpoint ever had. -/
  budget : r.attemptCount ≤ maxRetriesEver c.world.wal r.endpointId
  /-- A row is a success if and only if its status is a 2xx. -/
  success : ∀ a ∈ c.world.db.attemptsOf r.id,
    a.success = true ↔ ∃ n, a.httpStatusCode = some n ∧ 200 ≤ n ∧ n < 300
  /-- The event is delivered if and only if its last attempt is a success. -/
  delivered : r.status = .delivered ↔
    ∃ a, (c.world.db.attemptsOf r.id).getLast? = some a ∧ a.success = true
  /-- A delivered event has its time of delivery. -/
  deliveredAt : r.status = .delivered → r.deliveredAt.isSome = true
  /-- No attempt before the last one is a success. -/
  earlier : ∀ a ∈ (c.world.db.attemptsOf r.id).dropLast, a.success = false

/-- A log that ends with its only success. -/
theorem EndsWithSuccess.last {log : List DeliveryAttempt} (h : EndsWithSuccess log) :
    (∃ a, log.getLast? = some a ∧ a.success = true) ∧ ∀ a ∈ log.dropLast, a.success = false := by
  obtain ⟨init, last, rfl, hlast, hinit⟩ := h
  rw [List.getLast?_concat, List.dropLast_concat]
  exact ⟨⟨last, rfl, hlast⟩, hinit⟩

/-- **The attempt log agrees with the row of its event**, in every state reached by requests and by
runs that do not overlap, whatever fails and however the budget changes. -/
theorem audit_log (h : Reaches deps NoOverlap c) {id : UUID} {r : WebhookEvent}
    (hrow : c.world.db.events.get? id = some r) : LogAgrees c r := by
  have hr : Audited c.world.wal r := h.fresh.books.audited id r hrow
  have hfailures (hs : r.status ≠ .delivered) :
      ∀ a ∈ c.world.db.attemptsOf r.id, a.success = false := hr.failures hs
  refine ⟨hr.numbers, ?_, fun a ha => ?_, ⟨fun hs => (hr.delivered hs).2.last.1, ?_⟩,
    fun hs => (hr.delivered hs).1, fun a ha => ?_⟩
  · rcases hr.budget with hzero | ⟨m, hm, hle⟩
    · rw [hzero]
      exact Nat.zero_le _
    · exact hle.trans hm.le_maxRetriesEver
  · rw [hr.success a ha]
    simp only [isSuccess, decide_eq_true_eq]
  · rintro ⟨a, ha, hsuccess⟩
    by_contra hs
    rw [hfailures hs a (List.mem_of_getLast? ha)] at hsuccess
    cases hsuccess
  · by_cases hs : r.status = .delivered
    · exact (hr.delivered hs).2.last.2 a ha
    · exact hfailures hs a (List.mem_of_mem_dropLast ha)

/-- A failed attempt, a PATCH that lowers the budget, and a delivery. -/
theorem audit_log_retried : ∃ c r, Reaches Sample.deps NoOverlap c ∧
    c.world.db.events.get? (Sample.id 2) = some r ∧ r.status = .delivered ∧
    r.attemptCount = 2 ∧ maxRetriesEver c.world.wal (Sample.id 1) = 3 ∧ LogAgrees c r := by
  have hrun : (runActs (step Sample.deps) (fun c a => decide (NoOverlap c a))
      (initial Sample.start) (Sample.setup Sample.retrying Sample.order ++
        Sample.job 2 15 (Sample.oracle 3 (Sample.response 500 [])) ++
        Sample.request 3 3 (.updateEndpoint (Sample.id 1) (Sample.budget 2 (by decide)))
          (Sample.oracle 4 .cancelled) ++
        Sample.job 4 14 (Sample.oracle 5 (Sample.response 200 [])))).any (fun c =>
      (c.world.db.events.get? (Sample.id 2)).any fun r =>
        decide (r.status = .delivered ∧ r.attemptCount = 2 ∧
          maxRetriesEver c.world.wal (Sample.id 1) = 3)) = true := by
    decide +kernel
  obtain ⟨c, hc, hrow⟩ := exists_run NoOverlap (fun _ _ => of_decide_eq_true) hrun
  obtain ⟨r, hr, hfacts⟩ := (Option.any_eq_true _ _).mp hrow
  obtain ⟨hstatus, hcount, hever⟩ := of_decide_eq_true hfacts
  have hreach : Reaches Sample.deps NoOverlap c := ⟨Sample.start, hc⟩
  exact ⟨c, r, hreach, hr, hstatus, hcount, hever, audit_log hreach hr⟩

end WebhookRelay

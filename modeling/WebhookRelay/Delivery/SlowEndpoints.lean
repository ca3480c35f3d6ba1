import WebhookRelay.Delivery.WholeRun
import WebhookRelay.Worker

/-!
# Slow endpoints

A job that runs longer than arq's `job_timeout` is aborted by an exception inside it, and if its
POST has gone out by then, the attempt is rolled back all the same. `runJobs` runs jobs and polls
for one event against an endpoint with given response delays; `Settles` is the condition on a job
that its POST is also counted, and `posts_eq_attemptCount_iff` says that the counter and the POSTs
agree all the way, within the retry budget, exactly when every job that sends a POST meets it.
-/

namespace WebhookRelay

open Data Effect

/-! ### Jobs with a delay -/

/-- One job: the pause before it, how long it takes to get to its POST, what its environment
chooses, after how long the endpoint answers, if it ever does, and how long the job then takes to
get to its commit. All times are in microseconds. -/
structure SlowJob where
  wait : ℕ
  lead : ℕ
  oracle : Oracle
  delay : Option ℕ
  rest : ℕ
  /-- An endpoint answers or fails; it does not cancel. -/
  answered : oracle.answer ≠ .cancelled

/-- Seconds in microseconds. -/
def seconds (n : ℕ) : ℕ := n * 1000000

/-- How long the POST would take: httpx gives up after the endpoint's timeout. -/
def SlowJob.duration (s : SlowJob) (timeoutSeconds : ℕ) : ℕ :=
  match s.delay with
  | some d => min d (seconds timeoutSeconds)
  | none => seconds timeoutSeconds

/-- arq aborts the job before it sends its POST. -/
def SlowJob.late (s : SlowJob) (settings : Settings) : Bool :=
  decide (seconds settings.arqJobTimeoutSeconds < s.lead)

/-- arq aborts the job before it commits. Its clock starts with the job. -/
def SlowJob.cutOff (s : SlowJob) (settings : Settings) (timeoutSeconds : ℕ) : Bool :=
  decide (seconds settings.arqJobTimeoutSeconds < s.lead + s.duration timeoutSeconds + s.rest)

/-- The environment of the POST of a job: the abort, the answer, or the timeout. -/
def SlowJob.meets (s : SlowJob) (settings : Settings) (timeoutSeconds : ℕ) : Oracle :=
  if s.cutOff settings timeoutSeconds then
    -- the exception strikes in the POST or on the way from there to the commit: either way the POST
    -- has gone out, and the session block is left without a commit
    { s.oracle with answer := .cancelled,
                    elapsed := seconds settings.arqJobTimeoutSeconds - s.lead }
  else if s.delay.any fun d => decide (d < seconds timeoutSeconds) then
    { s.oracle with elapsed := s.duration timeoutSeconds }
  else { s.oracle with answer := .timeout [], elapsed := s.duration timeoutSeconds }

/-- What the worker does for the event: a job, or a poll. -/
inductive WorkerTurn where
  | job (s : SlowJob)
  | poll (wait : ℕ) (oracle : Oracle)

/-- The run of a job that gets as far as its POST, or ends without one: the POST has the timeout of
the endpoint's row. -/
def SlowJob.turn (deps : Deps) (id : UUID) (w : World) (s : SlowJob) : Turn :=
  ⟨s.wait + s.lead, match w.db.eventWithEndpoint id with
    | some (_, some ep) => s.meets deps.settings ep.timeoutSeconds
    | _ => s.oracle⟩

/-- One turn of the worker. -/
def runWorkerTurn (deps : Deps) (id : UUID) (w : World) : WorkerTurn → World
  | .job s =>
    if s.late deps.settings then w.wait (s.wait + seconds deps.settings.arqJobTimeoutSeconds)
    else (runTurn deps id w (s.turn deps id w)).2
  | .poll wait o => (runSolo o Worker.pollPendingRetries (w.wait wait)).2

/-- One turn after the other. -/
def runJobs (deps : Deps) (id : UUID) (w : World) (ts : List WorkerTurn) : World :=
  ts.foldl (runWorkerTurn deps id) w

/-- The UUIDs that the turns draw. -/
def WorkerTurn.uuid? : WorkerTurn → Option UUID
  | .job s => some s.oracle.uuid
  | .poll _ _ => none

/-! ### Polls -/

/-- The calls of a poll. -/
def Op.polls : Op → Prop
  | .now => True
  | .selectDueForRetry _ _ => True
  | .selectStalePending _ _ => True
  | .enqueueJob _ => True
  | _ => False

theorem enqueueEach_polls (events : List WebhookEvent) (n : ℕ) :
    (Worker.enqueueEach events n).Calls Op.polls := by
  induction events generalizing n with
  | nil => exact Prog.calls_done n
  | cons event events ih =>
    unfold Worker.enqueueEach
    refine (Prog.calls_perform trivial).attempt.bind fun r => ?_
    cases r with
    | ok b => exact ih (n + 1)
    | error x =>
      dsimp only
      split_ifs
      · exact ih n
      · exact Prog.calls_raised x

/-- A poll reads and enqueues, and does nothing else. -/
theorem pollPendingRetries_polls : Worker.pollPendingRetries.Calls Op.polls := by
  refine Prog.Calls.bind ?_ fun due => Prog.Calls.bind ?_ fun stale => enqueueEach_polls _ 0
  · exact (Prog.calls_perform trivial).bind fun _ => Prog.calls_perform trivial
  · refine Prog.Calls.bind ?_ fun _ => Prog.calls_perform trivial
    exact (Prog.calls_perform trivial).bind fun _ => Prog.calls_ofExcept _

/-- A poll commits nothing and sends no POST. -/
theorem poll_keeps (o : Oracle) (w : World) :
    (runSolo o Worker.pollPendingRetries w).2.wal = w.wal ∧
      (runSolo o Worker.pollPendingRetries w).2.posts = w.posts := by
  have hkeep : ∀ (e : Op) (y : World × Session), Op.polls e →
      (y.1.wal = w.wal ∧ y.1.posts = w.posts) →
        ((soloHandler o e y).2.1.wal = w.wal ∧ (soloHandler o e y).2.1.posts = w.posts) := by
    intro e y he hy
    cases e <;> first | exact he.elim | exact hy | skip
    unfold soloHandler exec
    dsimp only
    split_ifs <;> exact hy
  exact Prog.Calls.drive hkeep pollPendingRetries_polls (s := (w, .fresh)) ⟨rfl, rfl⟩

/-! ### Jobs that settle -/

/-- The run gets as far as the POST, and the POST goes out. -/
structure Sends (o : Oracle) (ev : WebhookEvent) (ep : WebhookEndpoint) : Prop where
  underWay : ev.status.terminal = false
  active : ep.isActive = true
  allowed : o.allowed = true
  headers : HeadersEncodable ev ep

/-- If the job sends a POST, its time suffices for the commit, the answer can be decoded and
stored, and the next try can be timed. -/
def SlowJob.Settles (deps : Deps) (id : UUID) (w : World) (s : SlowJob) : Prop :=
  ∀ ev ep, w.db.eventWithEndpoint id = some (ev, some ep) → Sends s.oracle ev ep →
    s.lead ≤ seconds deps.settings.arqJobTimeoutSeconds →
      s.lead + s.duration ep.timeoutSeconds + s.rest ≤
          seconds deps.settings.arqJobTimeoutSeconds ∧
        (s.meets deps.settings ep.timeoutSeconds).answer.decodable = true ∧
        (s.meets deps.settings ep.timeoutSeconds).answer.storable = true ∧
        RetryInstant (s.meets deps.settings ep.timeoutSeconds) (w.wait (s.wait + s.lead)).now ev ep

section counts

variable {deps : Deps} {m : ℕ} {id : UUID} {w : World} {ev : WebhookEvent} {ep : WebhookEndpoint}
  {t : Turn}

/-- A run that sends a POST decides on an exit if and only if it is not cancelled and nothing
stands in its way. -/
theorem exists_attemptDecision_iff (deps : Deps) {o : Oracle} (hev : ev.storable = true)
    (hep : ep.storable = true) :
    (∃ x, attemptDecision deps o w ev ep = .ok x) ↔
      o.answer ≠ .cancelled ∧ Deliverable o w.now ev ep := by
  by_cases hne : o.answer = .cancelled
  · refine ⟨?_, fun h => absurd hne h.1⟩
    rintro ⟨x, hx⟩
    unfold attemptDecision at hx
    rw [hne] at hx
    split_ifs at hx
    cases hx
  · rw [attemptDecision_isOk deps hne hev hep]
    exact ⟨fun h => ⟨hne, h⟩, fun h => h.2⟩

/-- What a turn for an event that is under way adds to the POSTs. -/
theorem posts_runTurn (deps : Deps)
    (hload : w.db.eventWithEndpoint id = some (ev, some ep))
    (hterm : ev.status.terminal = false) (hact : ep.isActive = true) :
    (¬ Sends t.oracle ev ep → (runTurn deps id w t).2.posts = w.posts) ∧
      (Sends t.oracle ev ep → (runTurn deps id w t).2.posts.length = w.posts.length + 1) := by
  have hposts : (runTurn deps id w t).2.posts =
      ((w.wait t.wait).afterRun deps t.oracle ev ep).posts :=
    posts_runDeliver deps hload hterm
  have hencodable : (sentRequest deps (w.wait t.wait) ev ep).encodable = true ↔
      HeadersEncodable ev ep := encodable_sentRequest deps
  rw [hposts, World.afterRun, hact]
  refine ⟨fun hn => ?_, fun hx => ?_⟩
  · cases hal : t.oracle.allowed with
    | false => rfl
    | true =>
      have henc : ¬ (sentRequest deps (w.wait t.wait) ev ep).encodable = true :=
        fun he => hn ⟨hterm, hact, hal, hencodable.mp he⟩
      change ((w.wait t.wait).posted deps t.oracle ev ep).posts = _
      rw [World.posted, if_neg henc]
      rfl
  · rw [hx.allowed]
    change ((w.wait t.wait).posted deps t.oracle ev ep).posts.length = _
    rw [World.posted, if_pos (hencodable.mpr hx.headers)]
    exact List.length_append

/-- What a turn adds to the POSTs and to the counter: nothing unless it sends a POST; one POST if
it does, and one attempt if nothing stands in the way of its commit. -/
theorem Watched.counts (deps : Deps) (h : Watched m id w ev) (hu : w.unused t.oracle.uuid)
    (hload : w.db.eventWithEndpoint id = some (ev, some ep)) {ev' : WebhookEvent}
    (hrow' : (runTurn deps id w t).2.db.events.get? id = some ev') :
    (¬ Sends t.oracle ev ep → (runTurn deps id w t).2.posts = w.posts ∧
      ev'.attemptCount = ev.attemptCount) ∧
    (Sends t.oracle ev ep →
      (runTurn deps id w t).2.posts.length = w.posts.length + 1 ∧
      (t.oracle.answer ≠ .cancelled ∧ Deliverable t.oracle (w.wait t.wait).now ev ep →
        ev'.attemptCount = ev.attemptCount + 1) ∧
      (¬ (t.oracle.answer ≠ .cancelled ∧ Deliverable t.oracle (w.wait t.wait).now ev ep) →
        ev'.attemptCount = ev.attemptCount)) := by
  have hwait : Watched m id (w.wait t.wait) ev := ⟨h.row, h.stored, h.endpoint⟩
  have hid : ev.id = id := Table.key_of_get? h.row
  cases hterm : ev.status.terminal with
  | true =>
    have hrun : runTurn deps id w t = (.ok (.of .notFound id), w.wait t.wait) :=
      runDeliver_of_terminal deps t.oracle hwait.row hterm
    rw [hrun] at hrow' ⊢
    have hsame : ev' = ev := Option.some.inj (hrow'.symm.trans h.row)
    exact ⟨fun _ => ⟨rfl, by rw [hsame]⟩, fun hs => by rw [hs.underWay] at hterm; cases hterm⟩
  | false =>
    obtain ⟨ep', hload', -, hs, hact, hcases⟩ := runDeliver_cases deps t.oracle hwait hterm hu
    obtain rfl : ep' = ep := by
      have := hload'.symm.trans hload
      simpa using this
    obtain ⟨hnone, hone⟩ := posts_runTurn (t := t) deps hload hterm hact
    have hdec : t.oracle.allowed = true → decision deps t.oracle (w.wait t.wait) ev ep' =
        attemptDecision deps t.oracle (w.wait t.wait) ev ep' := by
      intro hal
      unfold decision
      rw [hact, hal]
      rfl
    have hiff := exists_attemptDecision_iff deps (o := t.oracle) (w := w.wait t.wait) h.stored hs
    rcases hcases with ⟨e, -, hwal, hno⟩ | ⟨x, hd, hx, -, hwal⟩
    · have hsame : ev' = ev := by
        have hdb : (runTurn deps id w t).2.db = w.db := by
          rw [World.db, World.db]
          exact congrArg Db.empty.applyAll hwal
        rw [hdb] at hrow'
        exact Option.some.inj (hrow'.symm.trans h.row)
      refine ⟨fun hn => ⟨hnone hn, by rw [hsame]⟩, fun hx => ⟨hone hx, fun hdel => ?_,
        fun _ => by rw [hsame]⟩⟩
      obtain ⟨x, hx'⟩ := hiff.mpr hdel
      exact absurd ((hdec hx.allowed).trans hx') (hno x)
    · have hnew : ev' = x.event ev := by
        obtain ⟨hwatch, -⟩ := hwait.exit hterm hload hx hwal
        exact Option.some.inj (hrow'.symm.trans hwatch.row)
      have hc : ev'.attemptCount = if x.attempt?.isSome then ev.attemptCount + 1
          else ev.attemptCount := by
        rw [hnew, Exit.event_attemptCount]
      cases hal : t.oracle.allowed with
      | false =>
        have hnot : ¬ Sends t.oracle ev ep' := fun hx => by
          rw [hx.allowed] at hal
          cases hal
        refine ⟨fun _ => ⟨hnone hnot, ?_⟩, fun hx => absurd hx hnot⟩
        unfold decision at hd
        rw [hact, hal] at hd
        obtain ⟨next, -, rfl⟩ := map_eq_ok.mp hd
        exact hc
      | true =>
        rw [hdec hal] at hd
        obtain ⟨p, hp⟩ := attempt?_of_attemptDecision hd
        have hdel := hiff.mp ⟨x, hd⟩
        refine ⟨fun hn => absurd ⟨hterm, hact, hal, hdel.2.headers⟩ hn,
          fun hx => ⟨hone hx, fun _ => ?_, fun hno => absurd hdel hno⟩⟩
        rw [hc, hp]
        rfl

end counts

/-! ### The environment of a job -/

section environment

variable {s : SlowJob} {settings : Settings} {n : ℕ}

@[simp] theorem SlowJob.meets_uuid : (s.meets settings n).uuid = s.oracle.uuid := by
  unfold SlowJob.meets
  split_ifs <;> rfl

@[simp] theorem SlowJob.meets_allowed : (s.meets settings n).allowed = s.oracle.allowed := by
  unfold SlowJob.meets
  split_ifs <;> rfl

/-- A job is cancelled if and only if it is cut off. -/
theorem SlowJob.meets_cancelled : (s.meets settings n).answer = .cancelled ↔
    s.cutOff settings n = true := by
  unfold SlowJob.meets
  split_ifs with hc
  · exact ⟨fun _ => hc, fun _ => rfl⟩
  · exact ⟨fun h => absurd h s.answered, fun h => absurd h hc⟩
  · exact ⟨fun h => (by cases h), fun h => absurd h hc⟩

end environment

/-- The condition on a turn. -/
def WorkerTurn.Settles (deps : Deps) (id : UUID) (w : World) : WorkerTurn → Prop
  | .job s => s.Settles deps id w
  | .poll _ _ => True

section run

variable {m : ℕ} {id : UUID} {w : World} {ev : WebhookEvent}

/-- The turn of a job, once its event is read. -/
theorem SlowJob.turn_of_load {s : SlowJob} {ep : WebhookEndpoint} (deps : Deps)
    (hload : w.db.eventWithEndpoint id = some (ev, some ep)) :
    s.turn deps id w = ⟨s.wait + s.lead, s.meets deps.settings ep.timeoutSeconds⟩ := by
  unfold SlowJob.turn
  rw [hload]

/-- The environment a job meets decides as its oracle does whether a POST goes out. -/
theorem SlowJob.sends_meets_iff {s : SlowJob} {settings : Settings} {n : ℕ}
    {ep : WebhookEndpoint} : Sends (s.meets settings n) ev ep ↔ Sends s.oracle ev ep :=
  ⟨fun hx => ⟨hx.1, hx.2, SlowJob.meets_allowed ▸ hx.3, hx.4⟩,
    fun hx => ⟨hx.1, hx.2, SlowJob.meets_allowed.trans hx.3, hx.4⟩⟩

/-- A job whose time suffices for its POST settles if and only if a POST it sends is not cancelled
and nothing stands in the way of its commit. -/
theorem SlowJob.settles_iff {s : SlowJob} {ep : WebhookEndpoint} (deps : Deps)
    (hload : w.db.eventWithEndpoint id = some (ev, some ep))
    (hlate : s.late deps.settings = false) :
    s.Settles deps id w ↔ (Sends s.oracle ev ep →
      (s.meets deps.settings ep.timeoutSeconds).answer ≠ .cancelled ∧
        Deliverable (s.meets deps.settings ep.timeoutSeconds)
          (w.wait (s.wait + s.lead)).now ev ep) := by
  have hlead : s.lead ≤ seconds deps.settings.arqJobTimeoutSeconds :=
    not_lt.mp (of_decide_eq_false hlate)
  have hcut : (s.meets deps.settings ep.timeoutSeconds).answer ≠ .cancelled ↔
      s.lead + s.duration ep.timeoutSeconds + s.rest ≤
        seconds deps.settings.arqJobTimeoutSeconds := by
    rw [Ne, SlowJob.meets_cancelled, SlowJob.cutOff, decide_eq_true_iff, not_lt]
  constructor
  · intro hset hx
    obtain ⟨hle, hbody, hstored, hretry⟩ := hset ev ep hload hx hlead
    exact ⟨hcut.mpr hle, hx.headers, hbody, hstored, hretry⟩
  · intro hall ev₁ ep₁ hl hx _
    obtain ⟨rfl, rfl⟩ : ev₁ = ev ∧ ep₁ = ep := by
      have := hl.symm.trans hload
      simpa using this
    obtain ⟨hne, hdel⟩ := hall hx
    exact ⟨hcut.mp hne, hdel.decoded, hdel.stored, hdel.retry⟩

/-- A job that is aborted before its POST settles. -/
theorem SlowJob.settles_of_late {s : SlowJob} (h : s.late deps.settings = true) :
    s.Settles deps id w :=
  fun _ _ _ _ hle => absurd (of_decide_eq_true h) (not_lt.mpr hle)

/-- A poll leaves the event and the POSTs. -/
theorem Watched.polled (deps : Deps) (h : Watched m id w ev) (wait : ℕ) (o : Oracle) :
    Watched m id (runWorkerTurn deps id w (.poll wait o)) ev ∧
      (runWorkerTurn deps id w (.poll wait o)).progress ev = w.progress ev ∧
      (∀ u, w.unused u → (runWorkerTurn deps id w (.poll wait o)).unused u) ∧
      (runWorkerTurn deps id w (.poll wait o)).posts = w.posts := by
  obtain ⟨hwal, hposts⟩ := poll_keeps o (w.wait wait)
  have hdb : (runWorkerTurn deps id w (.poll wait o)).db = w.db := by
    rw [World.db, World.db]
    exact congrArg Db.empty.applyAll hwal
  refine ⟨⟨hdb ▸ h.row, h.stored, hdb ▸ h.endpoint⟩, ?_, fun u hu => ⟨hdb ▸ hu.1, hdb ▸ hu.2⟩,
    hposts⟩
  rw [World.progress, World.progress]
  exact congrArg (fun l => (⟨ev.status, ev.attemptCount,
    (deadLettersOf l ev.id).map DeadLetterEvent.totalAttempts⟩ : Progress)) hwal

/-- **One turn.** A turn that settles adds as much to the counter as to the POSTs; one that does
not adds a POST and leaves the counter. -/
theorem Watched.workerTurn (deps : Deps) (h : Watched m id w ev) (hw : (w.progress ev).Within m)
    {x : WorkerTurn} (hu : ∀ u, x.uuid? = some u → w.unused u) :
    ∃ ev', Watched m id (runWorkerTurn deps id w x) ev' ∧
      ((runWorkerTurn deps id w x).progress ev').Within m ∧
      (∀ u, x.uuid? ≠ some u → w.unused u → (runWorkerTurn deps id w x).unused u) ∧
      (x.Settles deps id w → (runWorkerTurn deps id w x).posts.length + ev.attemptCount =
        w.posts.length + ev'.attemptCount) ∧
      (¬ x.Settles deps id w → (runWorkerTurn deps id w x).posts.length = w.posts.length + 1 ∧
        ev'.attemptCount = ev.attemptCount) := by
  cases x with
  | poll wait o =>
    obtain ⟨hwatched, hprogress, hunused, hposts⟩ := h.polled deps wait o
    refine ⟨ev, hwatched, ?_, fun u _ => hunused u, fun _ => ?_, fun hn => absurd trivial hn⟩
    · rw [hprogress]
      exact hw
    · rw [hposts]
  | job s =>
    cases hlate : s.late deps.settings with
    | true =>
      -- no POST: only time has passed
      have hrun : runWorkerTurn deps id w (.job s) =
          w.wait (s.wait + seconds deps.settings.arqJobTimeoutSeconds) := if_pos hlate
      rw [hrun]
      exact ⟨ev, ⟨h.row, h.stored, h.endpoint⟩, hw, fun u _ hx => hx, fun _ => rfl,
        fun hn => absurd (SlowJob.settles_of_late hlate) hn⟩
    | false =>
    have hrun : runWorkerTurn deps id w (.job s) = (runTurn deps id w (s.turn deps id w)).2 :=
      if_neg (by rw [hlate]; decide)
    rw [hrun]
    obtain ⟨ep, hload, -⟩ := h.loaded
    have ht : s.turn deps id w = ⟨s.wait + s.lead, s.meets deps.settings ep.timeoutSeconds⟩ :=
      s.turn_of_load deps hload
    have huuid : (s.turn deps id w).oracle.uuid = s.oracle.uuid := by
      rw [ht]
      exact SlowJob.meets_uuid
    have hun : w.unused (s.turn deps id w).oracle.uuid := huuid ▸ hu _ rfl
    obtain ⟨ev', h', hp', hu'⟩ := h.turn deps hun
    obtain ⟨hquiet, hsent⟩ := h.counts deps hun hload h'.row
    have hsends : Sends (s.turn deps id w).oracle ev ep ↔ Sends s.oracle ev ep := by
      rw [ht]
      exact SlowJob.sends_meets_iff
    have hsettles : s.Settles deps id w ↔ (Sends s.oracle ev ep →
        (s.turn deps id w).oracle.answer ≠ .cancelled ∧
          Deliverable (s.turn deps id w).oracle (w.wait (s.turn deps id w).wait).now ev ep) := by
      rw [ht]
      exact s.settles_iff deps hload hlate
    refine ⟨ev', h', ?_, fun u hne hx => hu' u (fun he => hne ?_) hx, ?_, ?_⟩
    · rcases hp' with ⟨-, hp'⟩ | ⟨-, hp'⟩
      · exact hp' ▸ hw.step _
      · exact hp' ▸ hw
    · rw [he, huuid]
      rfl
    · intro hset
      by_cases hx : Sends s.oracle ev ep
      · obtain ⟨hlen, hcount, -⟩ := hsent (hsends.mpr hx)
        rw [hlen, hcount (hsettles.mp hset hx)]
        omega
      · obtain ⟨hposts, hcount⟩ := hquiet fun hy => hx (hsends.mp hy)
        rw [hposts, hcount]
    · intro hset
      obtain ⟨hx, hno⟩ := Classical.not_imp.mp fun hall => hset (hsettles.mpr hall)
      obtain ⟨hlen, -, hcount⟩ := hsent (hsends.mpr hx)
      exact ⟨hlen, hcount hno⟩

/-- The POSTs sent since `base` are the attempts counted, and no more than the budget. -/
def CountsAgree (m base : ℕ) (id : UUID) (w : World) : Prop :=
  ∃ r, w.db.events.get? id = some r ∧ w.posts.length = base + r.attemptCount ∧
    w.posts.length ≤ base + m

/-- From a state in which they agree, the counter and the POSTs agree after every turn if and only
if every turn settles. -/
theorem Watched.countsAgree_iff (deps : Deps) (base : ℕ) (xs : List WorkerTurn) {w : World}
    {ev : WebhookEvent} (h : Watched m id w ev) (hw : (w.progress ev).Within m)
    (hb : w.posts.length = base + ev.attemptCount)
    (hu : ∀ x ∈ xs, ∀ u, x.uuid? = some u → w.unused u)
    (hn : (xs.filterMap WorkerTurn.uuid?).Nodup) :
    (∀ us vs, xs = us ++ vs → CountsAgree m base id (runJobs deps id w us)) ↔
      ∀ us x vs, xs = us ++ x :: vs → x.Settles deps id (runJobs deps id w us) := by
  induction xs generalizing w ev with
  | nil =>
    refine ⟨fun _ us x vs he => by simp at he, fun _ us vs he => ?_⟩
    obtain ⟨rfl, -⟩ := List.append_eq_nil_iff.mp he.symm
    exact ⟨ev, h.row, hb, hb.trans_le (Nat.add_le_add_left hw.1 base)⟩
  | cons x xs ih =>
    obtain ⟨ev', h', hw', hu', hyes, hno⟩ := h.workerTurn deps hw (hu x List.mem_cons_self)
    have hhere : CountsAgree m base id w :=
      ⟨ev, h.row, hb, hb.trans_le (Nat.add_le_add_left hw.1 base)⟩
    rw [forall_prefix_cons, forall_split_cons]
    by_cases hx : x.Settles deps id w
    · have hb' : (runWorkerTurn deps id w x).posts.length = base + ev'.attemptCount := by
        have := hyes hx
        omega
      have hrest := ih h' hw' hb' (fun y hy u hyu => hu' u (fun hxu => ?_) (hu y
        (List.mem_cons_of_mem _ hy) u hyu)) ?_
      · exact ⟨fun hall => ⟨hx, hrest.mp hall.2⟩, fun hall => ⟨hhere, hrest.mpr hall.2⟩⟩
      · rw [List.filterMap_cons_some hxu, List.nodup_cons] at hn
        exact hn.1 (List.mem_filterMap.mpr ⟨y, hy, hyu⟩)
      · exact hn.sublist ((List.sublist_cons_self x xs).filterMap _)
    · refine ⟨fun hall => absurd ?_ hx, fun hall => absurd hall.1 hx⟩
      obtain ⟨r, hr, hcount, -⟩ := hall.2 [] xs rfl
      obtain ⟨hlen, hsame⟩ := hno hx
      obtain rfl : r = ev' := Option.some.inj (hr.symm.trans h'.row)
      change (runWorkerTurn deps id w x).posts.length = _ at hcount
      omega

end run

/-- An endpoint with one attempt and the longest timeout. -/
def patientShop : EndpointCreate := Sample.endpoint 1 120 Sample.shop.maxRetries_mem (by decide)

/-- A job whose endpoint never answers. -/
def silentJob (n : ℕ) : SlowJob :=
  ⟨0, 1000, Sample.oracle n (Sample.response 200 []), none, 1000, nofun⟩

end WebhookRelay

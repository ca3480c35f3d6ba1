import WebhookRelay.Delivery.Completes
import WebhookRelay.Delivery.Progress

/-!
# Runs of `deliver` one after the other

`runTurns` runs `deliver` for one event any number of times, with any pauses and any environment.
The tables follow the abstract `Progress` of `Delivery.Progress`, but for the runs that raise: such
a run is rolled back, and the answer to its POST is lost. `Watched.turn` is the step, and
`deliveries_lawful_iff` says that the runs obey the delivery law exactly when no answer is lost.
-/

namespace WebhookRelay

open Data Effect

/-! ### Sequences of runs -/

/-- One run: the microseconds since the last one, and its environment. -/
structure Turn where
  wait : ℕ
  oracle : Oracle

/-- The world some microseconds later. -/
def World.wait (w : World) (n : ℕ) : World := { w with now := w.now.advance n }

/-- One run of `deliver` after a pause. -/
def runTurn (deps : Deps) (id : UUID) (w : World) (t : Turn) :
    Except PyExn DeliveryOutcome × World :=
  runDeliver deps t.oracle id (w.wait t.wait)

/-- One run after the other. -/
def runTurns (deps : Deps) (id : UUID) (w : World) (ts : List Turn) : World :=
  ts.foldl (fun w t => (runTurn deps id w t).2) w

/-- The verdict on a status code, or on no response. -/
def verdictOf (code : Option ℤ) : Verdict :=
  if code.any isSuccess then .success
  else if code.any fun c => decide (400 ≤ c ∧ c < 500 ∧ c ≠ 429) then .permanent
  else .transient

/-- What the environment of a run says: a refusal, or the verdict on its answer. -/
def Turn.verdict (t : Turn) : Option Verdict :=
  if t.oracle.allowed then some (verdictOf t.oracle.answer.status) else none

/-- The progress that the tables show. -/
def World.progress (w : World) (ev : WebhookEvent) : Progress :=
  ⟨ev.status, ev.attemptCount, (deadLettersOf w.wal ev.id).map DeadLetterEvent.totalAttempts⟩

/-! ### The verdict and the exit -/

section verdict

variable {o : Oracle} {w : World} {ev : WebhookEvent} {ep : WebhookEndpoint}

/-- The progress an exit makes. -/
def Exit.progress (ev : WebhookEvent) (es : List ℕ) (x : Exit) : Progress :=
  ⟨x.status, if x.attempt?.isSome then ev.attemptCount + 1 else ev.attemptCount,
    es ++ (x.deadLetter?.map DeadLetterEvent.totalAttempts).toList⟩

/-- What `settle` decides is what the verdict calls for. -/
theorem progress_of_settle {now : Datetime} {p : PostResult} {a : DeliveryAttempt} {x : Exit}
    (hp : p.success = p.httpStatus.any isSuccess) (h : settle o ev ep now p a = .ok x)
    (es : List ℕ) :
    x.progress ev es = Progress.answered ep.maxRetries ⟨ev.status, ev.attemptCount, es⟩
      (verdictOf p.httpStatus) := by
  unfold settle at h
  dsimp only at h
  rw [hp] at h
  unfold verdictOf
  cases hs : p.httpStatus.any isSuccess with
  | true =>
    simp only [hs, if_true, Except.ok.injEq] at h
    subst h
    simp [Exit.progress, Exit.status, Exit.attempt?, Exit.deadLetter?, Progress.answered]
  | false =>
    simp only [hs, Bool.false_eq_true, if_false] at h ⊢
    by_cases hm : ep.maxRetries ≤ ev.attemptCount + 1
    · simp only [ExponentialBackoffStrategy.shouldRetry_of_le hm, Bool.false_eq_true, if_false,
        Except.ok.injEq] at h
      subst h
      split_ifs <;> simp [Exit.progress, Exit.status, Exit.attempt?, Exit.deadLetter?,
        Progress.answered, DeliveryService.deadLetterRow, EventRepository.delivering, hm]
    · have hr := ExponentialBackoffStrategy.shouldRetry_of_lt p.httpStatus
        (Nat.lt_of_not_le hm) p.retryAfterHeader
      cases hc : p.httpStatus.any fun c => decide (400 ≤ c ∧ c < 500 ∧ c ≠ 429) with
      | true =>
        rw [hc] at hr
        simp only [hr, Bool.not_true, Bool.false_eq_true, if_false, Except.ok.injEq] at h
        subst h
        simp [Exit.progress, Exit.status, Exit.attempt?, Exit.deadLetter?, Progress.answered,
          DeliveryService.deadLetterRow, EventRepository.delivering]
      | false =>
        rw [hc] at hr
        simp only [hr, Bool.not_false, if_true] at h
        obtain ⟨t, -, rfl⟩ := map_eq_ok.mp h
        simp [Exit.progress, Exit.status, Exit.attempt?, Exit.deadLetter?, Progress.answered, hm]

/-- What a run decides for an active endpoint is the progress its environment calls for. -/
theorem progress_of_decision {deps : Deps} {x : Exit} (hterm : ev.status.terminal = false)
    (hact : ep.isActive = true) (h : decision deps o w ev ep = .ok x) (es : List ℕ) (n : ℕ) :
    x.progress ev es =
      Progress.step ep.maxRetries ⟨ev.status, ev.attemptCount, es⟩ (Turn.verdict ⟨n, o⟩) := by
  unfold decision at h
  rw [hact] at h
  unfold Turn.verdict Progress.step
  simp only [hterm, Bool.not_true, Bool.false_eq_true, if_false] at h ⊢
  cases hal : o.allowed with
  | false =>
    simp only [hal, Bool.not_false, if_true] at h
    obtain ⟨t, -, rfl⟩ := map_eq_ok.mp h
    simp [Exit.progress, Exit.status, Exit.attempt?, Exit.deadLetter?]
  | true =>
    simp only [hal, Bool.not_true, Bool.false_eq_true, if_false] at h
    unfold attemptDecision at h
    split_ifs at h with henc
    cases hp : PostResult.ofAnswer ep.timeoutSeconds o.answer.result with
    | error y =>
      rw [hp] at h
      cases h
    | ok p =>
      rw [hp] at h
      change (if (loggedAttempt deps o w ev ep p).storable then _ else _) = _ at h
      split_ifs at h with hs
      simp only [if_true]
      rw [← httpStatus_of_ofAnswer hp]
      exact progress_of_settle (PostResult.success_of_ofAnswer hp) h es

end verdict

/-! ### The tables follow the progress -/

/-- The event is there, and its endpoint has the retry budget `m` and is active while the event is
not terminal. -/
structure Watched (m : ℕ) (id : UUID) (w : World) (ev : WebhookEvent) : Prop where
  row : w.db.events.get? id = some ev
  stored : ev.storable = true
  endpoint : ∃ ep, w.db.endpoints.get? ev.endpointId = some ep ∧ ep.maxRetries = m ∧
    ep.storable = true ∧ (ev.status.terminal = false → ep.isActive = true)

/-- The UUID is in none of the tables a run inserts into. -/
def World.unused (w : World) (u : UUID) : Prop :=
  w.db.attempts.get? u = none ∧ w.db.deadLetters.get? u = none

section refinement

variable {deps : Deps} {m : ℕ} {id : UUID} {w : World} {ev : WebhookEvent} {t : Turn}

theorem Watched.loaded (h : Watched m id w ev) :
    ∃ ep, w.db.eventWithEndpoint id = some (ev, some ep) ∧ ep.id = ev.endpointId ∧
      ep.maxRetries = m ∧ ep.storable = true ∧
      (ev.status.terminal = false → ep.isActive = true) := by
  obtain ⟨ep, hep, hm, hs, hact⟩ := h.endpoint
  refine ⟨ep, ?_, Table.key_of_get? hep, hm, hs, hact⟩
  change (w.db.events.get? id).map _ = _
  rw [h.row, Option.map_some, hep]

/-- A run that raises commits nothing; a run that answers commits its decision. -/
theorem runDeliver_cases (deps : Deps) (o : Oracle) (h : Watched m id w ev)
    (hterm : ev.status.terminal = false) (hu : w.unused o.uuid) :
    ∃ ep, w.db.eventWithEndpoint id = some (ev, some ep) ∧ ep.maxRetries = m ∧
      ep.storable = true ∧ ep.isActive = true ∧
      ((∃ e, (runDeliver deps o id w).1 = .error e ∧ (runDeliver deps o id w).2.wal = w.wal ∧
          ∀ x, decision deps o w ev ep ≠ .ok x) ∨
        ∃ x, decision deps o w ev ep = .ok x ∧ x.Valid ev ep ∧
          (runDeliver deps o id w).1 = .ok (x.outcome ev ep) ∧
          (runDeliver deps o id w).2.wal = w.wal ++ x.writes ev ep) := by
  obtain ⟨ep, hload, -, hm, hs, hact⟩ := h.loaded
  have hev : ev.id = id := Table.key_of_get? h.row
  have hf : w.Fresh o ev := ⟨hu.1, hu.2, by rw [hev, h.row]; rfl⟩
  have hrun := runDeliver_eq deps hload hterm h.stored hf
  refine ⟨ep, hload, hm, hs, hact hterm, ?_⟩
  cases hd : decision deps o w ev ep with
  | error e =>
    rw [hd] at hrun
    refine Or.inl ⟨e, by rw [hrun], ?_, fun x hx => by cases hx⟩
    rw [hrun]
    unfold World.afterRun World.posted
    split_ifs <;> rfl
  | ok x =>
    rw [hd] at hrun
    exact Or.inr ⟨x, rfl, decision_valid hd, by rw [hrun], by rw [hrun]⟩

/-- The event stays watched through a commit. -/
theorem Watched.exit (h : Watched m id w ev) (hterm : ev.status.terminal = false)
    {ep : WebhookEndpoint} (hep : w.db.eventWithEndpoint id = some (ev, some ep)) {x : Exit}
    (hx : x.Valid ev ep) {w' : World} (hw : w'.wal = w.wal ++ x.writes ev ep) :
    Watched m id w' (x.event ev) ∧ w'.progress (x.event ev) =
      x.progress ev ((deadLettersOf w.wal ev.id).map DeadLetterEvent.totalAttempts) := by
  have hid : ev.id = id := Table.key_of_get? h.row
  have hdb : w'.db = w.db.applyAll (x.writes ev ep) := by
    rw [World.db, hw, Db.applyAll_append]
    rfl
  have hxid : (x.event ev).id = ev.id := by cases x <;> rfl
  obtain ⟨-, -, hload⟩ := eventWithEndpoint_eq_some hep
  dsimp only at hload
  obtain ⟨ep', hep', hm, hs, hact⟩ := h.endpoint
  obtain rfl : ep' = ep := by
    rw [hload] at hep'
    exact (Option.some.inj hep').symm
  refine ⟨⟨?_, ?_, ?_⟩, ?_⟩
  · rw [hdb, Exit.events_get?, if_pos hid.symm, h.row, Option.map_some, Exit.update_self]
  · have hst := h.stored
    cases x <;> exact hst
  · have hxe : (x.event ev).endpointId = ev.endpointId := by cases x <;> rfl
    rw [hdb, Exit.endpoints_get?, hxe, hload, Exit.event_status]
    by_cases hd : ev.endpointId = ep'.id ∧ x.deactivates = true
    · rw [if_pos hd]
      refine ⟨_, rfl, hm, hs, fun hx' => ?_⟩
      cases x with
      | retried a t => exact absurd (of_decide_eq_true hd.2) hx.2.2.2
      | exhausted a d => cases hx'
      | _ => cases hd.2
    · rw [if_neg hd]
      exact ⟨ep', rfl, hm, hs, fun _ => hact hterm⟩
  · unfold World.progress Exit.progress
    rw [hw, hxid, deadLettersOf_append, Exit.deadLettersOf_writes, Exit.event_status,
      Exit.event_attemptCount, List.map_append]
    cases he : x.deadLetter? with
    | none => rfl
    | some d =>
      dsimp only
      rw [if_pos (hx.records he).eventId]
      rfl

/-- A commit takes no UUID but the fresh one of the run. -/
theorem unused_of_exit {deps : Deps} {o : Oracle} {ep : WebhookEndpoint} {x : Exit}
    (hd : decision deps o w ev ep = .ok x) (hu : w.unused o.uuid) {w' : World}
    (hw : w'.wal = w.wal ++ x.writes ev ep) {u : UUID} (hne : u ≠ o.uuid) (h : w.unused u) :
    w'.unused u := by
  have hdb : w'.db = w.db.applyAll (x.writes ev ep) := by
    rw [World.db, hw, Db.applyAll_append]
    rfl
  obtain ⟨hattempt, hentry⟩ := decision_uuid hd
  unfold World.unused
  rw [hdb, Exit.attempts_eq, Exit.deadLetters_eq]
  constructor
  · cases ha : x.attempt? with
    | none => exact h.1
    | some a =>
      have hid := hattempt a ha
      dsimp only
      rw [Table.get?_insert (by rw [hid]; exact hu.1), if_neg (by rw [hid]; exact hne.symm)]
      exact h.1
  · cases he : x.deadLetter? with
    | none => exact h.2
    | some d =>
      have hid := hentry d he
      dsimp only
      rw [Table.get?_insert (by rw [hid]; exact hu.2), if_neg (by rw [hid]; exact hne.symm)]
      exact h.2

/-- **One run.** The progress in the tables takes the step the environment calls for, or the run
raises and they stay as they are. -/
theorem Watched.turn (deps : Deps) (h : Watched m id w ev) (hu : w.unused t.oracle.uuid) :
    ∃ ev', Watched m id (runTurn deps id w t).2 ev' ∧
      ((∃ out, (runTurn deps id w t).1 = .ok out) ∧
          (runTurn deps id w t).2.progress ev' = (w.progress ev).step m t.verdict ∨
        (∃ e, (runTurn deps id w t).1 = .error e) ∧
          (runTurn deps id w t).2.progress ev' = w.progress ev) ∧
      ∀ u, u ≠ t.oracle.uuid → w.unused u → (runTurn deps id w t).2.unused u := by
  have hwait : Watched m id (w.wait t.wait) ev := ⟨h.row, h.stored, h.endpoint⟩
  cases hterm : ev.status.terminal with
  | true =>
    have hrun : runTurn deps id w t = (.ok (.of .notFound id), w.wait t.wait) :=
      runDeliver_of_terminal deps t.oracle hwait.row hterm
    rw [hrun]
    exact ⟨ev, hwait, Or.inl ⟨⟨_, rfl⟩, (Progress.step_of_terminal hterm _).symm⟩, fun u _ hu => hu⟩
  | false =>
    obtain ⟨ep, hload, hm, -, hact, hcases⟩ := runDeliver_cases deps t.oracle hwait hterm hu
    rcases hcases with ⟨e, hr, hwal, -⟩ | ⟨x, hd, hx, hr, hwal⟩
    · change (runTurn deps id w t).2.wal = w.wal at hwal
      have hdb : (runTurn deps id w t).2.db = w.db := by rw [World.db, hwal, World.db]
      refine ⟨ev, ⟨hdb ▸ h.row, h.stored, hdb ▸ h.endpoint⟩, Or.inr ⟨⟨e, hr⟩, ?_⟩, fun u _ hu => ?_⟩
      · rw [World.progress, hwal]
        rfl
      · exact ⟨hdb ▸ hu.1, hdb ▸ hu.2⟩
    · obtain ⟨hwatch, hprog⟩ := hwait.exit hterm hload hx hwal
      refine ⟨x.event ev, hwatch, Or.inl ⟨⟨_, hr⟩, ?_⟩,
        fun u hne hu' => unused_of_exit hd hu hwal hne hu'⟩
      rw [← hm]
      exact hprog.trans (progress_of_decision hterm hact hd _ _)

/-- The event stays watched through any number of runs. -/
theorem Watched.turns (deps : Deps) (ts : List Turn) {w : World} {ev : WebhookEvent}
    (h : Watched m id w ev) (hu : ∀ t ∈ ts, w.unused t.oracle.uuid)
    (hn : (ts.map fun t => t.oracle.uuid).Nodup) :
    ∃ ev', Watched m id (runTurns deps id w ts) ev' ∧
      ∀ u, u ∉ ts.map (fun t => t.oracle.uuid) → w.unused u →
        (runTurns deps id w ts).unused u := by
  induction ts generalizing w ev with
  | nil => exact ⟨ev, h, fun _ _ hu => hu⟩
  | cons t ts ih =>
    rw [List.map_cons, List.nodup_cons] at hn
    obtain ⟨ev₁, h₁, -, hu₁⟩ := h.turn deps (hu t List.mem_cons_self)
    obtain ⟨ev₂, h₂, hu₂⟩ := ih h₁
      (fun s hs => hu₁ _ (fun he => hn.1 (List.mem_map.mpr ⟨s, hs, he⟩))
        (hu s (List.mem_cons_of_mem _ hs))) hn.2
    refine ⟨ev₂, h₂, fun u hne hun => ?_⟩
    rw [List.map_cons, List.mem_cons, not_or] at hne
    exact hu₂ u hne.2 (hu₁ u hne.1 hun)

/-- Nothing is committed or sent for a terminal event. -/
theorem runTurns_of_terminal (deps : Deps) (ts : List Turn) {w : World}
    (hrow : w.db.events.get? id = some ev) (hterm : ev.status.terminal = true) :
    (runTurns deps id w ts).wal = w.wal ∧ (runTurns deps id w ts).posts = w.posts := by
  induction ts generalizing w with
  | nil => exact ⟨rfl, rfl⟩
  | cons t ts ih =>
    have hrun : runTurn deps id w t = (.ok (.of .notFound id), w.wait t.wait) :=
      runDeliver_of_terminal deps t.oracle hrow hterm
    change (runTurns deps id (runTurn deps id w t).2 ts).wal = _ ∧
      (runTurns deps id (runTurn deps id w t).2 ts).posts = _
    rw [hrun]
    exact ih (w := w.wait t.wait) hrow

theorem runTurns_append (deps : Deps) (id : UUID) (w : World) (ts ts' : List Turn) :
    runTurns deps id w (ts ++ ts') = runTurns deps id (runTurns deps id w ts) ts' :=
  List.foldl_append

end refinement

/-! ### Lost answers -/

/-- A run that gets as far as its POST gets from there to its commit. -/
def Turn.Recorded (id : UUID) (w : World) (t : Turn) : Prop :=
  ∀ ev ep, w.db.eventWithEndpoint id = some (ev, some ep) → ev.status.terminal = false →
    ep.isActive = true → t.oracle.allowed = true →
      Deliverable t.oracle (w.wait t.wait).now ev ep

instance (id : UUID) (w : World) (t : Turn) : Decidable (t.Recorded id w) :=
  decidable_of_iff (∀ x ∈ w.db.eventWithEndpoint id, ∀ ep ∈ x.2, x.1.status.terminal = false →
    ep.isActive = true → t.oracle.allowed = true →
      Deliverable t.oracle (w.wait t.wait).now x.1 ep)
    ⟨fun h ev ep hload => h (ev, some ep) hload ep rfl, fun h x hx ep hep =>
      h x.1 ep (hx.trans (congrArg (fun y => some (x.1, y)) hep))⟩

section lost

variable (deps : Deps) {m : ℕ} {id : UUID} {w : World} {ev : WebhookEvent} {t : Turn}

/-- A run that sends a POST returns if and only if its answer is not lost. -/
theorem Watched.recorded_iff (h : Watched m id w ev) (hu : w.unused t.oracle.uuid)
    (hanswer : t.oracle.answer ≠ .cancelled) (hterm : ev.status.terminal = false)
    (hallowed : t.oracle.allowed = true) :
    t.Recorded id w ↔ ∃ out, (runTurn deps id w t).1 = .ok out := by
  have hwait : Watched m id (w.wait t.wait) ev := ⟨h.row, h.stored, h.endpoint⟩
  obtain ⟨ep, hload, -, hs, hact, hcases⟩ := runDeliver_cases deps t.oracle hwait hterm hu
  have hdecision : decision deps t.oracle (w.wait t.wait) ev ep =
      attemptDecision deps t.oracle (w.wait t.wait) ev ep := by
    unfold decision
    rw [hact, hallowed]
    rfl
  have hrecorded : t.Recorded id w ↔ Deliverable t.oracle (w.wait t.wait).now ev ep := by
    refine ⟨fun hrec => hrec ev ep hload hterm hact hallowed, fun hdel ev' ep' hload' _ _ _ => ?_⟩
    obtain ⟨rfl, rfl⟩ : ev' = ev ∧ ep' = ep := by
      have := hload'.symm.trans hload
      simpa using this
    exact hdel
  rw [hrecorded, ← attemptDecision_isOk deps hanswer h.stored hs, ← hdecision]
  rcases hcases with ⟨e, hr, -, hno⟩ | ⟨x, hd, -, hr, -⟩
  · exact ⟨fun ⟨x, hx⟩ => absurd hx (hno x), fun ⟨out, hout⟩ => nomatch hr.symm.trans hout⟩
  · exact ⟨fun _ => ⟨_, hr⟩, fun _ => ⟨x, hd⟩⟩

/-- A run whose answer is not lost makes the progress that its verdict calls for; a refusal may be
without effect. -/
theorem Watched.turn_recorded (h : Watched m id w ev) (hu : w.unused t.oracle.uuid)
    (hanswer : t.oracle.answer ≠ .cancelled) (hrec : t.Recorded id w) :
    ∃ ev' xs, Watched m id (runTurn deps id w t).2 ev' ∧
      (runTurn deps id w t).2.progress ev' = (w.progress ev).run m xs ∧
      xs.reduceOption = t.verdict.toList ∧
      ∀ u, u ≠ t.oracle.uuid → w.unused u → (runTurn deps id w t).2.unused u := by
  obtain ⟨ev', h', ⟨-, hstep⟩ | ⟨⟨e, he⟩, hsame⟩, hu'⟩ := h.turn deps hu
  · exact ⟨ev', [t.verdict], h', hstep, List.reduceOption_singleton _, hu'⟩
  · refine ⟨ev', [], h', hsame, ?_, hu'⟩
    cases hal : t.oracle.allowed with
    | false => rw [Turn.verdict, hal]; rfl
    | true =>
      exfalso
      cases hterm : ev.status.terminal with
      | true =>
        have hrun : runTurn deps id w t = (.ok (.of .notFound id), w.wait t.wait) :=
          runDeliver_of_terminal deps t.oracle (w := w.wait t.wait) h.row hterm
        rw [hrun] at he
        cases he
      | false =>
        obtain ⟨out, hout⟩ := (h.recorded_iff deps hu hanswer hterm hal).mp hrec
        exact nomatch he.symm.trans hout

/-- A run whose answer is lost leaves the event as it was. -/
theorem Watched.turn_lost (h : Watched m id w ev) (hu : w.unused t.oracle.uuid)
    (hanswer : t.oracle.answer ≠ .cancelled) (hlost : ¬ t.Recorded id w) :
    ev.status.terminal = false ∧ t.oracle.allowed = true ∧
      ∃ ev', (runTurn deps id w t).2.db.events.get? id = some ev' ∧
        (runTurn deps id w t).2.progress ev' = w.progress ev := by
  obtain ⟨hterm, hallowed⟩ : ev.status.terminal = false ∧ t.oracle.allowed = true := by
    by_contra hnot
    refine hlost fun ev' ep' hload hterm _ hallowed => absurd ⟨?_, hallowed⟩ hnot
    obtain ⟨hget, -, -⟩ := eventWithEndpoint_eq_some hload
    rwa [← Option.some.inj (hget.symm.trans h.row)]
  refine ⟨hterm, hallowed, ?_⟩
  obtain ⟨ev', h', ⟨hok, -⟩ | ⟨-, hsame⟩, -⟩ := h.turn deps hu
  · exact absurd ((h.recorded_iff deps hu hanswer hterm hallowed).mpr hok) hlost
  · exact ⟨ev', h'.row, hsame⟩

/-- A run that is refused, or that raises, leaves the progress as it is or sets the status of an
open event to `failed`. -/
theorem Watched.turn_refused (h : Watched m id w ev) (hu : w.unused t.oracle.uuid)
    (hrefused : t.oracle.allowed = false) :
    ∃ ev', (runTurn deps id w t).2.db.events.get? id = some ev' ∧
      ((runTurn deps id w t).2.progress ev' = w.progress ev ∨ ev.status.terminal = false ∧
        (runTurn deps id w t).2.progress ev' = { w.progress ev with status := .failed }) := by
  obtain ⟨ev', h', hprog, -⟩ := h.turn deps hu
  refine ⟨ev', h'.row, ?_⟩
  rcases hprog with ⟨-, hstep⟩ | ⟨-, hsame⟩
  · have hverdict : t.verdict = none := by
      rw [Turn.verdict, hrefused]
      rfl
    rw [hverdict] at hstep
    cases hterm : ev.status.terminal with
    | true => exact Or.inl (hstep.trans (Progress.step_of_terminal hterm none))
    | false =>
      refine Or.inr ⟨rfl, hstep.trans ?_⟩
      rw [Progress.step, if_neg (by rw [show (w.progress ev).status = ev.status from rfl, hterm]
                                    decide)]
  · exact Or.inl hsame

end lost

/-- A condition on all prefixes of a list, one element at a time. -/
theorem forall_prefix_cons {α : Type} {a : α} {ts : List α} {P : List α → Prop} :
    (∀ us vs, a :: ts = us ++ vs → P us) ↔ P [] ∧ ∀ us vs, ts = us ++ vs → P (a :: us) := by
  constructor
  · intro h
    exact ⟨h [] _ rfl, fun us vs he => h (a :: us) vs (by rw [he]; rfl)⟩
  · rintro ⟨hnil, hcons⟩ us vs he
    cases us with
    | nil => exact hnil
    | cons b us =>
      rw [List.cons_append, List.cons.injEq] at he
      exact he.1 ▸ hcons us vs he.2

/-- A condition on all elements of a list and what comes before, one element at a time. -/
theorem forall_split_cons {α : Type} {a : α} {ts : List α} {P : List α → α → Prop} :
    (∀ us x vs, a :: ts = us ++ x :: vs → P us x) ↔
      P [] a ∧ ∀ us x vs, ts = us ++ x :: vs → P (a :: us) x := by
  constructor
  · intro h
    exact ⟨h [] a ts rfl, fun us x vs he => h (a :: us) x vs (by rw [he]; rfl)⟩
  · rintro ⟨hnil, hcons⟩ us x vs he
    cases us with
    | nil =>
      rw [List.nil_append, List.cons.injEq] at he
      exact he.1 ▸ hnil
    | cons b us =>
      rw [List.cons_append, List.cons.injEq] at he
      exact he.1 ▸ hcons us x vs he.2

/-! ### The whole run -/

section law

variable {deps : Deps} {m : ℕ} {id : UUID} {ev : WebhookEvent} {ep : WebhookEndpoint}

/-- The delivery law for runs of `deliver`, one after the other. -/
structure Lawful (deps : Deps) (m : ℕ) (id : UUID) (w : World) (ts : List Turn) : Prop where
  /-- After each run the tables are as the law says of the answers so far. -/
  law : ∀ us vs, ts = us ++ vs → ∃ r, (runTurns deps id w us).db.events.get? id = some r ∧
    Progress.Law m (us.map Turn.verdict).reduceOption ((runTurns deps id w us).progress r)
  /-- A refused run uses no attempt, makes no dead letter entry and settles nothing. -/
  refused : ∀ us t vs, ts = us ++ t :: vs → t.oracle.allowed = false →
    ∃ r r', (runTurns deps id w us).db.events.get? id = some r ∧
      (runTurns deps id w (us ++ [t])).db.events.get? id = some r' ∧
      ((runTurns deps id w (us ++ [t])).progress r' = (runTurns deps id w us).progress r ∨
        r.status.terminal = false ∧ (runTurns deps id w (us ++ [t])).progress r' =
          { (runTurns deps id w us).progress r with status := .failed })
  /-- Once the event is terminal, its row stays as it is and no POST is sent. -/
  settled : ∀ us vs r, ts = us ++ vs → (runTurns deps id w us).db.events.get? id = some r →
    r.status.terminal = true →
      (runTurns deps id w ts).db.events.get? id = some r ∧
        (runTurns deps id w ts).posts = (runTurns deps id w us).posts

/-- From a state that obeys the law of the answers `xs`, the tables go on to obey it if and only if
no answer is lost. -/
theorem Watched.law_iff (deps : Deps) (hm : 1 ≤ m) (ts : List Turn) {w : World}
    {ev : WebhookEvent} {xs : List (Option Verdict)} (h : Watched m id w ev)
    (hp : w.progress ev = Progress.fresh.run m xs)
    (hanswers : ∀ t ∈ ts, t.oracle.answer ≠ .cancelled)
    (hu : ∀ t ∈ ts, w.unused t.oracle.uuid) (hn : (ts.map fun t => t.oracle.uuid).Nodup) :
    (∀ us vs, ts = us ++ vs → ∃ r, (runTurns deps id w us).db.events.get? id = some r ∧
        Progress.Law m (xs ++ us.map Turn.verdict).reduceOption
          ((runTurns deps id w us).progress r)) ↔
      ∀ us t vs, ts = us ++ t :: vs → t.Recorded id (runTurns deps id w us) := by
  have hhere : Progress.Law m xs.reduceOption (w.progress ev) := by
    rw [hp]
    exact Progress.run_law hm xs
  induction ts generalizing w ev xs with
  | nil =>
    refine ⟨fun _ us x vs he => by simp at he, fun _ us vs he => ?_⟩
    obtain ⟨rfl, -⟩ := List.append_eq_nil_iff.mp he.symm
    exact ⟨ev, h.row, by rwa [List.map_nil, List.append_nil]⟩
  | cons t ts ih =>
    rw [List.map_cons, List.nodup_cons] at hn
    obtain ⟨hanswer, hanswers⟩ := List.forall_mem_cons.mp hanswers
    obtain ⟨hut, hu⟩ := List.forall_mem_cons.mp hu
    rw [forall_prefix_cons, forall_split_cons]
    by_cases hrec : t.Recorded id w
    · obtain ⟨ev', ys, h', hp', hys, hu'⟩ := h.turn_recorded deps hut hanswer hrec
      rw [hp, ← Progress.run_append] at hp'
      have hrest := ih h' hp' hanswers
        (fun s hs => hu' _ (fun he => hn.1 (List.mem_map.mpr ⟨s, hs, he⟩)) (hu s hs)) hn.2
        (hp' ▸ Progress.run_law hm _)
      have hxs (us : List Turn) : (xs ++ (t :: us).map Turn.verdict).reduceOption =
          (xs ++ ys ++ us.map Turn.verdict).reduceOption := by
        rw [List.map_cons, ← List.singleton_append, ← List.append_assoc]
        simp only [List.reduceOption_append, List.reduceOption_singleton, hys]
      refine ⟨fun hall => ⟨hrec, hrest.mp fun us vs he => ?_⟩,
        fun hall => ⟨⟨ev, h.row, ?_⟩, fun us vs he => ?_⟩⟩
      · rw [← hxs]
        exact hall.2 us vs he
      · rwa [List.map_nil, List.append_nil]
      · rw [hxs]
        exact hrest.mpr hall.2 us vs he
    · refine ⟨fun hall => absurd ?_ hrec, fun hall => absurd hall.1 hrec⟩
      obtain ⟨hterm, hallowed, ev', hrow', hsame⟩ := h.turn_lost deps hut hanswer hrec
      obtain ⟨r, hr, hlaw⟩ := hall.2 [] ts rfl
      obtain rfl : r = ev' := Option.some.inj (hr.symm.trans hrow')
      have hverdict : t.verdict = some (verdictOf t.oracle.answer.status) := by
        rw [Turn.verdict, hallowed]
        rfl
      have hlost : Progress.Law m (xs.reduceOption ++ [verdictOf t.oracle.answer.status])
          (Progress.fresh.run m xs) := by
        rw [← hp, ← hsame]
        rw [List.map_cons, List.map_nil, hverdict, List.reduceOption_append] at hlaw
        exact hlaw
      exact absurd hlost (Progress.not_law_of_lost hm (by rw [← hp]; exact hterm) _)

end law

end WebhookRelay

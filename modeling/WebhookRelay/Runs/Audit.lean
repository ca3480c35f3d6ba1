import WebhookRelay.Runs.Locks
import WebhookRelay.Runs.Rows

/-!
# The books of an event: its row, its attempt log, its dead letter entries

Under arbitrary interleavings a run may decide on a row that has changed since it was read, and
then the books are wrong. A commit is `Fresh` when what it was decided on still holds of the
committed row: the row is not terminal if the run writes a status, and has the counter that was
read if the run logs an attempt. Along runs whose commits are fresh the books are right
(`Reaches.books`):

* the attempt numbers are 1, 2, …, `attempt_count`, in the order of the log;
* the event is delivered if and only if its last attempt is a success, and no other one is;
* it has one dead letter entry if it is dead-lettered, and none otherwise;
* its attempts are within a budget that its endpoint has had.
-/

namespace WebhookRelay

open Data Effect EventRepository

/-- The attempt log of an event, oldest first. -/
def Db.attemptsOf (db : Db) (id : UUID) : List DeliveryAttempt :=
  db.attempts.rows.filter fun a => decide (a.eventId = id)

/-- The log ends with its only success. -/
def EndsWithSuccess (log : List DeliveryAttempt) : Prop :=
  ∃ init last, log = init ++ [last] ∧ last.success = true ∧ ∀ a ∈ init, a.success = false

/-- The books of a row are right. -/
structure Audited (wal : List Write) (r : WebhookEvent) : Prop where
  numbers : ((Db.empty.applyAll wal).attemptsOf r.id).map DeliveryAttempt.attemptNumber =
    List.range' 1 r.attemptCount
  success : ∀ a ∈ (Db.empty.applyAll wal).attemptsOf r.id,
    a.success = true ↔ ∃ n, a.httpStatusCode = some n ∧ isSuccess n = true
  failures : r.status ≠ .delivered →
    ∀ a ∈ (Db.empty.applyAll wal).attemptsOf r.id, a.success = false
  delivered : r.status = .delivered → r.deliveredAt.isSome = true ∧
    EndsWithSuccess ((Db.empty.applyAll wal).attemptsOf r.id)
  budget : r.attemptCount = 0 ∨ ∃ m, EverHad wal r.endpointId m ∧ r.attemptCount ≤ m
  budgetLeft : r.status.terminal = false →
    r.attemptCount = 0 ∨ ∃ m, EverHad wal r.endpointId m ∧ r.attemptCount < m
  entries : r.status ≠ .deadLettered → deadLettersOf wal r.id = []
  entry : r.status = .deadLettered → ∃ d, deadLettersOf wal r.id = [d] ∧
    d.endpointId = r.endpointId ∧ d.eventType = r.eventType ∧ d.originalPayload = r.payload

/-! ### Fresh commits -/

/-- The statement sets the status of an event. -/
def Write.setsStatus : Write → Bool
  | .updateEvent _ u => u.status.isSome
  | _ => false

/-- The statement inserts an attempt. -/
def Write.logsAttempt : Write → Bool
  | .insertAttempt _ => true
  | _ => false

/-- What a run that has read `ev` and is about to commit `ws` was decided on still holds of the
committed row `r`. -/
def FreshFor (ev r : WebhookEvent) (ws : List Write) : Prop :=
  (ws.any Write.setsStatus = true → r.status.terminal = false) ∧
    (ws.any Write.logsAttempt = true → r.attemptCount = ev.attemptCount)

instance (ev r : WebhookEvent) (ws : List Write) : Decidable (FreshFor ev r ws) :=
  inferInstanceAs (Decidable ((_ → _) ∧ (_ → _)))

/-- If the action makes a run of `deliver` commit, the commit is fresh. -/
def Fresh (c : Config) (a : Action) : Prop :=
  ∀ t ∈ a.taken, ∀ x ∈ committing? c t, ∀ r ∈ c.world.db.events.get? x.1.id,
    FreshFor x.1 r x.2.2

instance (c : Config) (a : Action) : Decidable (Fresh c a) :=
  inferInstanceAs (Decidable (∀ t ∈ a.taken, ∀ x ∈ committing? c t,
    ∀ r ∈ c.world.db.events.get? x.1.id, FreshFor x.1 r x.2.2))

section exits

variable {ev : WebhookEvent} {ep : WebhookEndpoint} {x : Exit}

/-- Every exit sets the status but a refusal of an event that is `failed` already. -/
theorem Exit.setsStatus (x : Exit) (ep : WebhookEndpoint) (hterm : ev.status.terminal = false)
    (h : ¬ (x.isRefusal = true ∧ ev.status = .failed)) :
    (x.writes ev ep).any Write.setsStatus = true := by
  have hflush {old new : WebhookEvent} (hne : new.status ≠ old.status) :
      (flush old new).any Write.setsStatus = true := by
    have hd : (EventColumns.diff old new).status = some new.status := if_neg hne
    have hnone : EventColumns.diff old new ≠ .none := by
      intro he
      rw [he] at hd
      cases hd
    unfold flush
    rw [if_neg hnone, List.any_cons]
    change ((EventColumns.diff old new).status.isSome || _) = true
    rw [hd]
    rfl
  cases x with
  | inactive d =>
    refine List.any_append.trans (Bool.or_eq_true_iff.mpr (Or.inl (hflush fun he => ?_)))
    change EventStatus.deadLettered = _ at he
    rw [← he] at hterm
    cases hterm
  | refused t => exact hflush fun he => h ⟨rfl, he.symm⟩
  | delivered a t =>
    exact List.any_append.trans (Bool.or_eq_true_iff.mpr (Or.inr (hflush fun he => nomatch he)))
  | retried a t =>
    exact List.any_append.trans (Bool.or_eq_true_iff.mpr (Or.inr (hflush fun he => nomatch he)))
  | exhausted a d =>
    exact List.any_append.trans (Bool.or_eq_true_iff.mpr (Or.inr (hflush fun he => nomatch he)))

/-- An exit with an attempt logs it. -/
theorem Exit.mem_writes_attempt {a : DeliveryAttempt} (ep : WebhookEndpoint)
    (h : x.attempt? = some a) : Write.insertAttempt a ∈ x.writes ev ep := by
  cases x <;> simp only [attempt?, reduceCtorEq, Option.some.injEq] at h <;> subst h <;>
    simp [writes]

/-- An exit with an attempt logs it. -/
theorem Exit.logsAttempt {a : DeliveryAttempt} (ep : WebhookEndpoint) (h : x.attempt? = some a) :
    (x.writes ev ep).any Write.logsAttempt = true :=
  List.any_eq_true.mpr ⟨_, x.mem_writes_attempt ep h, rfl⟩

end exits

/-! ### What an exit adds to the books -/

section additions

variable {ev : WebhookEvent} {ep : WebhookEndpoint} {x : Exit} {db : Db} {wal : List Write}

/-- The attempt log after an exit. -/
theorem attemptsOf_exit (hx : x.Valid ev ep)
    (hmissing : ∀ a, x.attempt? = some a → db.attempts.get? a.id = none) (id : UUID) :
    (db.applyAll (x.writes ev ep)).attemptsOf id =
      db.attemptsOf id ++ if id = ev.id then x.attempt?.toList else [] := by
  unfold Db.attemptsOf
  rw [x.attempts_eq]
  cases ha : x.attempt? with
  | none => simp
  | some a =>
    rw [Table.rows_insert (hmissing a ha), List.filter_append]
    congr 1
    have hid := (hx.logs ha).eventId
    by_cases h : id = ev.id
    · rw [if_pos h, h]
      simp [hid]
    · rw [if_neg h]
      simp [hid, Ne.symm h]

/-- The dead letter entries after an exit. -/
theorem deadLettersOf_exit (hx : x.Valid ev ep) (id : UUID) :
    deadLettersOf (wal ++ x.writes ev ep) id =
      deadLettersOf wal id ++ if id = ev.id then x.deadLetter?.toList else [] := by
  rw [deadLettersOf_append, x.deadLettersOf_writes]
  congr 1
  cases hd : x.deadLetter? with
  | none => simp
  | some d =>
    have hid := (hx.records hd).eventId
    dsimp only
    by_cases h : id = ev.id
    · rw [if_pos h, if_pos (hid.trans h.symm)]
      rfl
    · rw [if_neg h, if_neg fun he => h (he.symm.trans hid)]

/-- Benign statements add nothing to the books. -/
theorem attempts_benign {ws : List Write} (h : ∀ w ∈ ws, w.Benign) (db : Db) :
    (db.applyAll ws).attempts = db.attempts := by
  induction ws generalizing db with
  | nil => rfl
  | cons w ws ih =>
    have hw : (db.apply w).attempts = db.attempts := by
      cases w with
      | insertAttempt r => exact (h _ List.mem_cons_self).elim
      | _ => rfl
    rw [Db.applyAll_cons, ih (fun w' hw' => h w' (List.mem_cons_of_mem _ hw')), hw]

theorem deadLettersOf_benign {ws : List Write} (h : ∀ w ∈ ws, w.Benign) (id : UUID) :
    deadLettersOf ws id = [] := by
  refine List.filterMap_eq_nil_iff.mpr fun w hw => ?_
  cases w with
  | insertDeadLetter d => exact (h _ hw).elim
  | _ => rfl

end additions

/-! ### One exit on right books -/

section step

variable {ev r : WebhookEvent} {ep : WebhookEndpoint} {x : Exit} {wal : List Write}

/-- The attempt of a valid exit is a success if and only if the exit delivers. -/
theorem Exit.Valid.success_iff (hx : x.Valid ev ep) {a : DeliveryAttempt}
    (ha : x.attempt? = some a) : a.success = true ↔ x.status = .delivered := by
  cases x <;> simp only [attempt?, reduceCtorEq, Option.some.injEq] at ha <;> subst ha
  · exact iff_of_true hx.2 rfl
  · exact iff_of_false (by rw [hx.2.1]; decide) (by rintro ⟨⟩)
  · exact iff_of_false (by rw [hx.2.1]; decide) (by rintro ⟨⟩)

/-- Books stay right when the log, the entries and the columns they speak of stay. -/
theorem Audited.of_eq {wal' : List Write} {r' : WebhookEvent} (h : Audited wal r)
    (hlater : r.Later r') (hstatus : r'.status = r.status)
    (hcount : r'.attemptCount = r.attemptCount) (hwal : ∃ ws, wal' = wal ++ ws)
    (hlog : (Db.empty.applyAll wal').attemptsOf r.id = (Db.empty.applyAll wal).attemptsOf r.id)
    (hentries : deadLettersOf wal' r.id = deadLettersOf wal r.id) : Audited wal' r' := by
  obtain ⟨ws, rfl⟩ := hwal
  refine ⟨?_, ?_, ?_, fun hs => ⟨?_, ?_⟩, ?_, fun hs => ?_, fun hs => ?_, fun hs => ?_⟩
  · rw [hlater.id, hlog, hcount]
    exact h.numbers
  · rw [hlater.id, hlog]
    exact h.success
  · rw [hlater.id, hlog, hstatus]
    exact h.failures
  · exact hlater.deliveredAt (h.delivered (hstatus ▸ hs)).1
  · rw [hlater.id, hlog]
    exact (h.delivered (hstatus ▸ hs)).2
  · rw [hcount, hlater.endpointId]
    exact h.budget.imp_right fun ⟨m, hm, hle⟩ => ⟨m, hm.mono, hle⟩
  · rw [hcount, hlater.endpointId]
    exact (h.budgetLeft (hstatus ▸ hs)).imp_right fun ⟨m, hm, hlt⟩ => ⟨m, hm.mono, hlt⟩
  · rw [hlater.id, hentries]
    exact h.entries (hstatus ▸ hs)
  · rw [hlater.id, hentries, hlater.endpointId, hlater.eventType, hlater.payload]
    exact h.entry (hstatus ▸ hs)

/-- The books of a new row. -/
theorem WebhookEvent.IsNew.audited (h : r.IsNew)
    (hlog : (Db.empty.applyAll wal).attemptsOf r.id = []) (hentries : deadLettersOf wal r.id = []) :
    Audited wal r := by
  have hs := h.status
  refine ⟨?_, ?_, fun _ => ?_, fun hd => ?_, Or.inl h.attemptCount, fun _ => Or.inl h.attemptCount,
    fun _ => hentries, fun hd => ?_⟩
  · rw [hlog, h.attemptCount]
    rfl
  · rw [hlog]
    exact fun a ha => nomatch ha
  · rw [hlog]
    exact fun a ha => nomatch ha
  · rw [hs] at hd
    cases hd
  · rw [hs] at hd
    cases hd

/-- A valid exit that sets the status of an open row with right books. The run has read an earlier
state of the row, and its counter as it still is if the exit logs an attempt. -/
structure Exit.OnOpen (x : Exit) (wal : List Write) (ev r : WebhookEvent) (ep : WebhookEndpoint) :
    Prop where
  audited : Audited wal r
  later : ev.Later r
  isOpen : r.status.terminal = false
  valid : x.Valid ev ep
  endpointId : ep.id = ev.endpointId
  maxRetries : 1 ≤ ep.maxRetries
  everHad : EverHad wal ep.id ep.maxRetries
  status : (x.update ev r).status = x.status
  read : ∀ a, x.attempt? = some a → r.attemptCount = ev.attemptCount
  missing : ∀ a, x.attempt? = some a → (Db.empty.applyAll wal).attempts.get? a.id = none

namespace Exit.OnOpen

/-- The log after the exit. -/
theorem attemptsOf (h : x.OnOpen wal ev r ep) :
    (Db.empty.applyAll (wal ++ x.writes ev ep)).attemptsOf (x.update ev r).id =
      (Db.empty.applyAll wal).attemptsOf r.id ++ x.attempt?.toList := by
  rw [x.update_id, Db.applyAll_append, attemptsOf_exit h.valid h.missing, if_pos h.later.id]

/-- The dead letter entries after the exit. -/
theorem entriesOf (h : x.OnOpen wal ev r ep) :
    deadLettersOf (wal ++ x.writes ev ep) (x.update ev r).id =
      deadLettersOf wal r.id ++ x.deadLetter?.toList := by
  rw [x.update_id, deadLettersOf_exit h.valid, if_pos h.later.id]

/-- A budget the endpoint has had before. -/
theorem everHad_update {m : ℕ} (hm : EverHad wal r.endpointId m) :
    EverHad (wal ++ x.writes ev ep) (x.update ev r).endpointId m := by
  rw [x.update_endpointId]
  exact hm.mono

/-- The budget the run has read. -/
theorem everHad_read (h : x.OnOpen wal ev r ep) :
    EverHad (wal ++ x.writes ev ep) (x.update ev r).endpointId ep.maxRetries := by
  refine everHad_update ?_
  rw [h.later.endpointId, ← h.endpointId]
  exact h.everHad

theorem ne_delivered (h : x.OnOpen wal ev r ep) : r.status ≠ .delivered := by
  intro hs
  have hopen := h.isOpen
  rw [hs] at hopen
  cases hopen

theorem ne_deadLettered (h : x.OnOpen wal ev r ep) : r.status ≠ .deadLettered := by
  intro hs
  have hopen := h.isOpen
  rw [hs] at hopen
  cases hopen

/-- The attempt that is logged is the next one. -/
theorem numbers (h : x.OnOpen wal ev r ep) :
    (((Db.empty.applyAll wal).attemptsOf r.id ++ x.attempt?.toList).map
        DeliveryAttempt.attemptNumber) = List.range' 1 (x.update ev r).attemptCount := by
  rw [x.update_attemptCount ev r, List.map_append, h.audited.numbers]
  cases ha : x.attempt? with
  | none => simp
  | some a =>
    have hnumber := (h.valid.logs ha).attemptNumber
    rw [← h.read a ha] at hnumber ⊢
    simp only [Option.toList_some, List.map_cons, List.map_nil, Option.isSome_some, if_true,
      hnumber, List.range'_1_concat, Nat.add_comm]

/-- An attempt that is logged and does not deliver is a failure, as all before it. -/
theorem failures (h : x.OnOpen wal ev r ep) (hs : x.status ≠ .delivered) :
    ∀ a ∈ (Db.empty.applyAll wal).attemptsOf r.id ++ x.attempt?.toList, a.success = false := by
  intro b hb
  rcases List.mem_append.mp hb with hb | hb
  · exact h.audited.failures h.ne_delivered b hb
  · have hiff := h.valid.success_iff (Option.mem_toList.mp hb)
    simpa using fun hb => hs (hiff.mp hb)

/-- What delivers the event ends its log with a success. -/
theorem delivered (h : x.OnOpen wal ev r ep) (hs : x.status = .delivered) :
    (x.update ev r).deliveredAt.isSome = true ∧
      EndsWithSuccess ((Db.empty.applyAll wal).attemptsOf r.id ++ x.attempt?.toList) := by
  cases x with
  | delivered a t =>
    refine ⟨?_, _, a, rfl, h.valid.2, h.audited.failures h.ne_delivered⟩
    rw [Exit.update_deliveredAt]
    dsimp only
    split_ifs with he
    · exact h.later.deliveredAt (by rw [he]; rfl)
    · rfl
  | _ => cases hs

/-- The attempts stay within a budget. -/
theorem budget (h : x.OnOpen wal ev r ep) : (x.update ev r).attemptCount = 0 ∨
    ∃ m, EverHad (wal ++ x.writes ev ep) (x.update ev r).endpointId m ∧
      (x.update ev r).attemptCount ≤ m := by
  rw [x.update_attemptCount ev r]
  cases ha : x.attempt? with
  | none => exact h.audited.budget.imp_right fun ⟨m, hm, hle⟩ => ⟨m, everHad_update hm, hle⟩
  | some a =>
    right
    rw [← h.read a ha, Option.isSome_some, if_pos rfl]
    have hmax := h.maxRetries
    rcases h.audited.budgetLeft h.isOpen with hzero | ⟨m, hm, hlt⟩
    · exact ⟨ep.maxRetries, h.everHad_read, by omega⟩
    · exact ⟨m, everHad_update hm, by omega⟩

/-- What leaves the event open leaves it a try. -/
theorem budgetLeft (h : x.OnOpen wal ev r ep) (hs : x.status.terminal = false) :
    (x.update ev r).attemptCount = 0 ∨
      ∃ m, EverHad (wal ++ x.writes ev ep) (x.update ev r).endpointId m ∧
        (x.update ev r).attemptCount < m := by
  rw [x.update_attemptCount ev r]
  cases x with
  | refused t =>
    exact (h.audited.budgetLeft h.isOpen).imp_right fun ⟨m, hm, hlt⟩ => ⟨m, everHad_update hm, hlt⟩
  | retried a t => exact Or.inr ⟨ep.maxRetries, h.everHad_read, h.valid.2.2.1⟩
  | _ => cases hs

/-- What does not dead-letter the event makes no entry. -/
theorem entries (h : x.OnOpen wal ev r ep) (hs : x.status ≠ .deadLettered) :
    deadLettersOf wal r.id ++ x.deadLetter?.toList = [] := by
  have hnone := mt x.status_eq_deadLettered_iff.mpr hs
  rw [Option.not_isSome_iff_eq_none] at hnone
  rw [h.audited.entries h.ne_deadLettered, hnone]
  rfl

/-- What dead-letters the event makes its entry. -/
theorem entry (h : x.OnOpen wal ev r ep) (hs : x.status = .deadLettered) :
    ∃ d, deadLettersOf wal r.id ++ x.deadLetter?.toList = [d] ∧
      d.endpointId = (x.update ev r).endpointId ∧ d.eventType = (x.update ev r).eventType ∧
      d.originalPayload = (x.update ev r).payload := by
  obtain ⟨d, hd⟩ := Option.isSome_iff_exists.mp (x.status_eq_deadLettered_iff.mp hs)
  have hrec := h.valid.records hd
  refine ⟨d, ?_, ?_, ?_, ?_⟩
  · rw [h.audited.entries h.ne_deadLettered, hd]
    rfl
  · rw [hrec.endpointId, x.update_endpointId, h.later.endpointId, h.endpointId]
  · rw [hrec.eventType, x.update_eventType, h.later.eventType]
  · rw [hrec.payload, x.update_payload, h.later.payload]

end Exit.OnOpen

/-- An exit that sets the status of an open row keeps its books right. -/
theorem Exit.OnOpen.keeps (h : x.OnOpen wal ev r ep) :
    Audited (wal ++ x.writes ev ep) (x.update ev r) where
  numbers := by
    rw [h.attemptsOf]
    exact h.numbers
  success := by
    rw [h.attemptsOf]
    intro b hb
    rcases List.mem_append.mp hb with hb | hb
    · exact h.audited.success b hb
    · exact (h.valid.logs (Option.mem_toList.mp hb)).success
  failures := by
    rw [h.attemptsOf, h.status]
    exact h.failures
  delivered := by
    rw [h.attemptsOf, h.status]
    exact h.delivered
  budget := h.budget
  budgetLeft := by
    rw [h.status]
    exact h.budgetLeft
  entries := by
    rw [h.entriesOf, h.status]
    exact h.entries
  entry := by
    rw [h.entriesOf, h.status]
    exact h.entry

/-- **A fresh exit keeps the books right.** -/
theorem Audited.exit (h : Audited wal r) (hlater : ev.Later r)
    (hterm : ev.status.terminal = false) (hx : x.Valid ev ep)
    (hep : ep.id = ev.endpointId) (hbudget : 1 ≤ ep.maxRetries)
    (hever : EverHad wal ep.id ep.maxRetries) (hfresh : FreshFor ev r (x.writes ev ep))
    (hmissing : ∀ a, x.attempt? = some a →
      (Db.empty.applyAll wal).attempts.get? a.id = none) :
    Audited (wal ++ x.writes ev ep) (x.update ev r) := by
  have hstatus := x.update_status r hterm
  split_ifs at hstatus with hw
  · -- a refusal of a failed event leaves everything but the time of the next try
    have hnone : x.attempt? = none ∧ x.deadLetter? = none := by
      cases x <;> first | exact ⟨rfl, rfl⟩ | exact Bool.noConfusion (hw.1 : false = true)
    refine h.of_eq (x.later_update hterm r) hstatus ?_ ⟨_, rfl⟩ ?_ ?_
    · rw [x.update_attemptCount, hnone.1]
      rfl
    · rw [Db.applyAll_append, attemptsOf_exit hx hmissing, hnone.1]
      simp
    · rw [deadLettersOf_exit hx, hnone.2]
      simp
  · have hopen : x.OnOpen wal ev r ep :=
      ⟨h, hlater, hfresh.1 (x.setsStatus ep hterm hw), hx, hep, hbudget, hever, hstatus,
        fun a ha => hfresh.2 (x.logsAttempt ep ha), hmissing⟩
    exact hopen.keeps

end step

/-! ### Along fresh runs -/

/-- The books of every row are right, and there are none for a row that is not there. -/
structure Books (c : Config) : Prop where
  audited : ∀ id r, c.world.db.events.get? id = some r → Audited c.world.wal r
  absent : ∀ id, c.world.db.events.get? id = none →
    c.world.db.attemptsOf id = [] ∧ deadLettersOf c.world.wal id = []

variable {deps : Deps} {ok : Config → Action → Prop} {c c' : Config} {a : Action}

/-- What is committing is a run of `deliver` with a snapshot. -/
theorem Sound.committing (h : Sound c) {t : ℕ} {ev : WebhookEvent} {ep : WebhookEndpoint}
    {ws : List Write} (hc : committing? c t = some (ev, ep, ws)) : Snapshot c.world ev ep := by
  obtain ⟨th, id, k, hth, ho, hp, hph⟩ := committing?_eq_some.mp hc
  exact (h.snapshots th (List.mem_of_getElem? hth) ev ep ws
    ⟨by rw [ho]; rfl, by rw [hp]; rfl, hph⟩).2

/-- An attempt that is about to be committed is missing from the table. -/
theorem Reaches.committing_missing (h : Reaches deps ok c) {t : ℕ} {ev : WebhookEvent}
    {ep : WebhookEndpoint} {ws : List Write} (hc : committing? c t = some (ev, ep, ws))
    {row : DeliveryAttempt} (hrow : Write.insertAttempt row ∈ ws) :
    c.world.db.attempts.get? row.id = none := by
  obtain ⟨th, id, k, hth, ho, hp, hph⟩ := committing?_eq_some.mp hc
  have hpend := (h.lawful th (List.mem_of_getElem? hth)).delivers id ho (by rw [hp]; rfl)
  rw [hph] at hpend
  exact h.attempts_missing th (List.mem_of_getElem? hth) row (hpend.symm ▸ hrow)

/-- A benign commit keeps the books right. -/
theorem Books.benign (h : Books c) {ws : List Write} (hws : ∀ w ∈ ws, w.Benign)
    (hw : c'.world.wal = c.world.wal ++ ws) : Books c' := by
  have hdb := World.db_of_wal hw
  have hlog (id : UUID) : c'.world.db.attemptsOf id = c.world.db.attemptsOf id := by
    rw [hdb, Db.attemptsOf, attempts_benign hws, Db.attemptsOf]
  have hentries (id : UUID) : deadLettersOf c'.world.wal id = deadLettersOf c.world.wal id := by
    rw [hw, deadLettersOf_append, deadLettersOf_benign hws, List.append_nil]
  refine ⟨fun id r hrow => ?_, fun id hrow => ?_⟩
  · have hid := Table.key_of_get? hrow
    rw [hdb] at hrow
    rcases benign_events_get? hws c.world.db id with hsame | ⟨hnone, r', hr', hnew⟩
    · rw [hsame] at hrow
      exact (h.audited id r hrow).of_eq (.refl r) rfl rfl ⟨ws, hw⟩ (hlog _) (hentries _)
    · obtain rfl : r' = r := Option.some.inj (hr'.symm.trans hrow)
      subst hid
      obtain ⟨hempty, hnil⟩ := h.absent _ hnone
      exact hnew.audited ((hlog _).trans hempty) ((hentries _).trans hnil)
  · rw [hdb] at hrow
    rcases benign_events_get? hws c.world.db id with hsame | ⟨-, r', hr', -⟩
    · rw [hsame] at hrow
      exact (hlog id).symm ▸ (hentries id).symm ▸ h.absent id hrow
    · rw [hr'] at hrow
      cases hrow

/-- A fresh exit keeps the books of all events right. -/
theorem Books.exit (h : Books c) {ev r₀ : WebhookEvent} {ep : WebhookEndpoint} {x : Exit}
    (hr₀ : c.world.db.events.get? ev.id = some r₀) (hx : x.Valid ev ep)
    (hmissing : ∀ row, x.attempt? = some row → c.world.db.attempts.get? row.id = none)
    (hself : Audited (c.world.wal ++ x.writes ev ep) (x.update ev r₀))
    (hw : c'.world.wal = c.world.wal ++ x.writes ev ep) : Books c' := by
  have hdb := World.db_of_wal hw
  have hlog (id : UUID) (hid : id ≠ ev.id) :
      c'.world.db.attemptsOf id = c.world.db.attemptsOf id := by
    rw [hdb, attemptsOf_exit hx hmissing, if_neg hid, List.append_nil]
  have hentries (id : UUID) (hid : id ≠ ev.id) :
      deadLettersOf c'.world.wal id = deadLettersOf c.world.wal id := by
    rw [hw, deadLettersOf_exit hx, if_neg hid, List.append_nil]
  have hrows (id : UUID) : c'.world.db.events.get? id =
      if id = ev.id then (c.world.db.events.get? id).map (x.update ev)
      else c.world.db.events.get? id := by
    rw [hdb, x.events_get?]
  refine ⟨fun id r hrow => ?_, fun id hrow => ?_⟩
  · rw [hrows] at hrow
    split_ifs at hrow with hid
    · subst hid
      rw [hr₀] at hrow
      obtain rfl := Option.some.inj hrow
      rw [hw]
      exact hself
    · have hkey := Table.key_of_get? hrow
      exact (h.audited id r hrow).of_eq (.refl r) rfl rfl ⟨_, hw⟩ (hkey ▸ hlog id hid)
        (hkey ▸ hentries id hid)
  · rw [hrows] at hrow
    split_ifs at hrow with hid
    · subst hid
      rw [hr₀] at hrow
      cases hrow
    · exact (hlog id hid).symm ▸ (hentries id hid).symm ▸ h.absent id hrow

/-- One step keeps the books right, if a commit it makes is fresh. -/
theorem Books.step (h : Books c) (hr : Reaches deps ok c) (hfresh : Fresh c a)
    (hc : Commits c c' a) : Books c' := by
  cases hc with
  | nothing hw =>
    have hdb : c'.world.db = c.world.db := by rw [World.db, hw, World.db]
    refine ⟨fun id r hrow => ?_, fun id hrow => ?_⟩
    · rw [hw]
      exact h.audited id r (hdb ▸ hrow)
    · rw [hdb, hw]
      exact h.absent id (hdb ▸ hrow)
  | benign ws hws hw => exact h.benign hws hw
  | exit t ev ep x ha hcom hterm hx hw =>
    have hsnap := hr.sound.committing hcom
    obtain ⟨r₀, hr₀, hlater⟩ := hsnap.row
    have hmissing (row : DeliveryAttempt) (hrow : x.attempt? = some row) :
        c.world.db.attempts.get? row.id = none :=
      hr.committing_missing hcom (x.mem_writes_attempt ep hrow)
    exact h.exit hr₀ hx hmissing ((h.audited _ r₀ hr₀).exit hlater hterm hx hsnap.endpointId
      hsnap.budget.1 hsnap.everHad (hfresh t ha _ hcom r₀ hr₀) hmissing) hw

/-- **Along runs whose commits are fresh the books are right.** -/
theorem Reaches.books (h : Reaches deps Fresh c) : Books c := by
  refine h.invariant (fun _ => ⟨fun id r hrow => (nomatch hrow), fun id _ => ⟨rfl, rfl⟩⟩)
    fun c a c' hr hc ha hs => ?_
  exact hc.step hr ha (hr.commits hs)

end WebhookRelay

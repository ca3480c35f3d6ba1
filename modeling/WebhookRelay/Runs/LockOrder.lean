import WebhookRelay.Runs.Atomic

/-!
# The order in which a coroutine takes its locks

A statement that waits keeps the locks of the statements before it, so what matters for deadlocks
is what a coroutine holds when it asks for more. Every program takes its locks in one order
(`lockContract`): an event or an idempotency key, then an attempt, then an endpoint, then entries of
the dead letter queue; and a bulk replay takes its entries in the order in which it has selected
them. The insert of a new event is the exception, since a bulk replay inserts one after it has
marked an entry; but its identifier has just been drawn, so nobody else can hold it.
-/

namespace WebhookRelay

open Data Effect ReplayService

/-! ### Levels -/

/-- The place of a lock in the order. -/
def RowKey.level : RowKey → ℕ
  | .event _ => 0
  | .idempotency _ => 0
  | .attempt _ => 1
  | .endpoint _ => 2
  | .deadLetter _ => 3

/-- The locks of a statement that another session may hold: not the row of a new event. -/
def Write.waits : Write → List RowKey
  | .insertEvent r => (r.idempotencyKey.map RowKey.idempotency).toList
  | w => w.keys

/-- The locks of a call that another session may hold. -/
def Op.waits (e : Op) : List RowKey := e.writes.flatMap Write.waits

/-- The locks of some statements. -/
def locksOf (ws : List Write) : List RowKey := ws.flatMap Write.keys

/-- What a call may wait for is among its locks. -/
theorem Op.mem_locks_of_waits {e : Op} {k : RowKey} (h : k ∈ e.waits) : k ∈ e.locks := by
  obtain ⟨w, hw, hk⟩ := List.mem_flatMap.mp h
  refine List.mem_flatMap.mpr ⟨w, hw, ?_⟩
  cases w with
  | insertEvent r => exact List.mem_cons_of_mem _ hk
  | _ => exact hk

/-- The first lock comes before the second one: by its level, or in the order of a selection. -/
def RowKey.Before (queue : List UUID) (k k' : RowKey) : Prop :=
  k.level < k'.level ∨
    ∃ id id', k = .deadLetter id ∧ k' = .deadLetter id' ∧ [id, id'].Sublist queue

/-- The identifier that a call gives to a new event or to a new entry. -/
def Op.spends : Op → Option UUID
  | .insertEvent r => some r.id
  | .insertDeadLetter r => some r.id
  | _ => none

/-- The call is the SELECT of a bulk replay. -/
def Op.isSelect : Op → Bool
  | .selectDeadLetters _ _ _ => true
  | _ => false

/-! ### The contract -/

/-- What a coroutine has, as far as locks are concerned. -/
inductive Locking where
  /-- The identifiers it has drawn and not given away, the event it has loaded, the entries it has
  selected, and its statements. -/
  | holding (unused : List UUID) (event : Option UUID) (queue : List UUID) (ws : List Write)
  | committed
  /-- A statement or the commit has failed. -/
  | stopped
  /-- A call was answered as no call is. -/
  | lost

namespace Locking

/-- A coroutine before its first call. -/
def start : Locking := .holding [] none [] []

/-- A coroutine may make this call: it asks for locks in their order, gives away identifiers it has
drawn, updates the event it has loaded, and loads and selects before its first statement. -/
structure Orderly (unused : List UUID) (event : Option UUID) (queue : List UUID)
    (ws : List Write) (e : Op) : Prop where
  order : ∀ k ∈ locksOf ws, ∀ k' ∈ e.waits, k.Before queue k' ∨ k' ∈ locksOf ws
  spends : ∀ id, e.spends = some id → id ∈ unused
  updates : ∀ id u, Write.updateEvent id u ∈ e.writes → event = some id
  loads : e.isLoad = true → ws = []
  selects : e.isSelect = true → ws = []

/-- The calls of a phase. -/
def allows : Locking → Op → Prop
  | .holding unused event queue ws, e => Orderly unused event queue ws e
  | .committed, e => e.Idle
  | .stopped, _ => False
  | .lost, _ => True

/-- The phase after a call that is answered. -/
def answered (unused : List UUID) (event : Option UUID) (queue : List UUID) (ws : List Write) :
    (e : Op) → e.Resp → Locking
  | .commit, _ => .committed
  | .uuid4, (u : UUID) => .holding (unused ++ [u]) event queue ws
  | .getEventWithEndpoint _, some x => .holding unused (some x.1.id) queue ws
  | .selectDeadLetters _ _ _, rows => .holding unused event (rows.map DeadLetterEvent.id) ws
  | .getDeadLetter id, some entry =>
    if entry.id = id then .holding unused event queue ws else .lost
  | e, _ => .holding (e.spends.elim unused unused.erase) event queue (ws ++ e.writes)

/-- The phase after a call that raises. -/
def failed (p : Locking) (e : Op) : Locking :=
  match p with
  | .holding unused event queue ws =>
    if e.isCommit || !e.writes.isEmpty then .stopped else .holding unused event queue ws
  | p => p

/-- The phase after a call. -/
def next : Locking → (e : Op) → Except PyExn e.Resp → Locking
  | .holding unused event queue ws, e, .ok v => answered unused event queue ws e v
  | p, _, .ok _ => p
  | p, e, .error x => if countedError x then .lost else p.failed e

end Locking

/-- The contract of a coroutine: its locks are taken in order. -/
def lockContract : Contract relay PyExn Locking where
  allows := Locking.allows
  next := Locking.next

/-- The part of a program meets the contract from a phase on. -/
abbrev Locks {α : Type} (Q : Except PyExn α → Locking → Prop) (p : Locking) (q : Relay α) : Prop :=
  q.Obeys lockContract Q p

/-! ### Rules -/

/-- A call that changes nothing of what matters here. -/
structure Op.Neutral (e : Op) : Prop extends e.Idle where
  isLoad : e.isLoad = false
  isSelect : e.isSelect = false
  spends : e.spends = none
  answered : ∀ unused event queue ws v,
    Locking.answered unused event queue ws e v = .holding unused event queue ws

/-- The call reads something, or goes to Redis or to an endpoint. -/
def Op.isPlain : Op → Bool
  | .tokenHex | .now | .perfCounter | .uniform => true
  | .getEventByKey _ | .getEndpoint _ | .countByStatus _ | .countDeadLetters => true
  | .selectDueForRetry _ _ | .selectStalePending _ _ => true
  | .isAllowed _ | .recordSuccess _ | .recordFailure _ | .resetCircuit _ | .getOpenCircuits => true
  | .enqueueJob _ | .post _ => true
  | _ => false

theorem Op.neutral_of_isPlain {e : Op} (h : e.isPlain = true) : e.Neutral := by
  cases e with
  | tokenHex | now | perfCounter | uniform | getEventByKey _ | getEndpoint _ | countByStatus _
  | countDeadLetters | selectDueForRetry _ _ | selectStalePending _ _ | isAllowed _
  | recordSuccess _ | recordFailure _ | resetCircuit _ | getOpenCircuits | enqueueJob _ | post _ =>
    exact ⟨⟨rfl, rfl⟩, rfl, rfl, rfl, fun unused event queue ws _ =>
      congrArg (Locking.holding unused event queue) (List.append_nil ws)⟩
  | _ => cases h

/-- A plain call as a program. -/
theorem neutral_perform {e : Op} (h : e.isPlain = true) : (await e).Calls Op.Neutral :=
  Prog.calls_perform (Op.neutral_of_isPlain h)

/-- An exit condition that does not mind a call that fails. -/
def Lenient {α : Type} (Q : Except PyExn α → Locking → Prop) : Prop :=
  (∀ r, Q r .lost) ∧ ∀ x p, (countedError x = true → p = .lost) → Q (.error x) p

/-- No condition on how a program ends. -/
abbrev AnyEnd (α : Type) : Except PyExn α → Locking → Prop := fun _ _ => True

theorem lenient_true {α : Type} : Lenient (AnyEnd α) :=
  ⟨fun _ => trivial, fun _ _ _ => trivial⟩

section rules

variable {α β : Type} {Q : Except PyExn α → Locking → Prop} {unused : List UUID}
  {event : Option UUID} {queue : List UUID} {ws : List Write}

/-- Anything is allowed once the coroutine is lost. -/
theorem locks_lost (hQ : Lenient Q) (q : Relay α) : Locks Q .lost q := by
  induction q with
  | done a => exact hQ.1 _
  | raised x => exact hQ.1 _
  | call e k ih =>
    refine ⟨trivial, fun r => ?_⟩
    have hnext : Locking.next .lost e r = .lost := by
      cases r with
      | ok v => rfl
      | error x =>
        show (if countedError x then Locking.lost else .lost) = .lost
        rw [ite_self]
    show (k r).Obeys lockContract Q (Locking.next .lost e r)
    rw [hnext]
    exact ih r

/-- A call that raises. -/
theorem Lenient.failed (hQ : Lenient Q) (p : Locking) (e : Op) (x : PyExn) :
    Q (.error x) (p.next e (.error x)) := by
  refine hQ.2 x _ fun hx => ?_
  cases p <;> exact if_pos hx

/-- A neutral call is allowed. -/
theorem Op.Neutral.orderly {e : Op} (he : e.Neutral) :
    Locking.Orderly unused event queue ws e where
  order k _ k' hk' := by
    unfold Op.waits at hk'
    rw [he.writes] at hk'
    cases hk'
  spends id hid := by
    rw [he.spends] at hid
    cases hid
  updates id u hu := by
    rw [he.writes] at hu
    cases hu
  loads h := by
    rw [he.isLoad] at h
    cases h
  selects h := by
    rw [he.isSelect] at h
    cases h

/-- After a part that only makes neutral calls, the rest goes on in the same phase. -/
theorem locks_bind_neutral (hQ : Lenient Q) {q : Relay β} (hq : q.Calls Op.Neutral)
    {f : β → Relay α} (hraised : ∀ x, Q (.error x) (.holding unused event queue ws))
    (hf : ∀ b, Locks Q (.holding unused event queue ws) (f b)) :
    Locks Q (.holding unused event queue ws) (q >>= f) := by
  induction q with
  | done b => exact hf b
  | raised x => exact hraised x
  | call e k ih =>
    have he := hq.1
    refine ⟨he.orderly, fun r => ?_⟩
    cases r with
    | ok v =>
      show (k (.ok v) >>= f).Obeys lockContract Q (Locking.answered unused event queue ws e v)
      rw [he.answered]
      exact ih _ (hq.2 _)
    | error x =>
      show (k (.error x) >>= f).Obeys lockContract Q
        (if countedError x then .lost else Locking.failed _ e)
      split_ifs
      · exact locks_lost hQ _
      · have hfailed : (Locking.holding unused event queue ws).failed e =
            .holding unused event queue ws := by
          simp [Locking.failed, he.isCommit, he.writes]
        rw [hfailed]
        exact ih _ (hq.2 _)

/-- One call, and the rest from the phase after its answer. -/
theorem locks_bind (hQ : Lenient Q) {e : Op} (he : Locking.Orderly unused event queue ws e)
    {f : e.Resp → Relay α}
    (hf : ∀ v, Locks Q (Locking.answered unused event queue ws e v) (f v)) :
    Locks Q (.holding unused event queue ws) (await e >>= f) :=
  (Prog.obeys_perform_bind (I := relay) e f).mpr
    ⟨he, hf, fun x => hQ.failed (.holding unused event queue ws) e x⟩

/-- A commit, and nothing but idle calls afterwards. -/
theorem locks_bind_commit (hQ : Lenient Q) {f : Unit → Relay α} (hf : Locks Q .committed (f ())) :
    Locks Q (.holding unused event queue ws) (commit >>= f) := by
  refine locks_bind hQ ⟨?_, ?_, ?_, ?_, ?_⟩ fun _ => hf
  · exact fun _ _ _ h => nomatch h
  · exact fun _ h => nomatch h
  · exact fun _ _ h => nomatch h
  · exact fun h => nomatch h
  · exact fun h => nomatch h

/-- The orderly calls of a coroutine that has nothing in its session. -/
theorem orderly_first {e : Op} (hspends : ∀ id, e.spends = some id → id ∈ unused)
    (hupdates : ∀ id u, Write.updateEvent id u ∈ e.writes → event = some id) :
    Locking.Orderly unused event queue [] e :=
  ⟨fun _ hk => (nomatch hk), hspends, hupdates, fun _ => rfl, fun _ => rfl⟩

/-- A call whose locks are all above those that are held. -/
theorem orderly_above {e : Op} {n : ℕ} (hheld : ∀ k ∈ locksOf ws, k.level < n)
    (hwaits : ∀ k ∈ e.waits, n ≤ k.level) (hspends : ∀ id, e.spends = some id → id ∈ unused)
    (hupdates : ∀ id u, Write.updateEvent id u ∉ e.writes) (hload : e.isLoad = false)
    (hselect : e.isSelect = false) : Locking.Orderly unused event queue ws e where
  order k hk k' hk' := Or.inl (Or.inl (lt_of_lt_of_le (hheld k hk) (hwaits k' hk')))
  spends := hspends
  updates id u hu := absurd hu (hupdates id u)
  loads h := by
    rw [hload] at h
    cases h
  selects h := by
    rw [hselect] at h
    cases h

/-- A new identifier. -/
theorem locks_bind_uuid4 (hQ : Lenient Q) {f : UUID → Relay α}
    (hf : ∀ u, Locks Q (.holding (unused ++ [u]) event queue ws) (f u)) :
    Locks Q (.holding unused event queue ws) (uuid4 >>= f) :=
  locks_bind (e := .uuid4) hQ ⟨fun _ _ _ h => (nomatch h), fun _ h => (nomatch h),
    fun _ _ h => (nomatch h), fun h => (nomatch h), fun h => (nomatch h)⟩ hf

/-- A part with an exit condition of its own, and the rest from where it ends. -/
theorem locks_seq {p : Locking} {Q' : Except PyExn β → Locking → Prop} {q : Relay β}
    (hq : Locks Q' p q) {f : β → Relay α} (hf : ∀ b p', Q' (.ok b) p' → Locks Q p' (f b))
    (hraised : ∀ x p', Q' (.error x) p' → Q (.error x) p') : Locks Q p (q >>= f) := by
  refine (Prog.obeys_bind q f).mpr (hq.mono fun r p' hr => ?_)
  cases r with
  | ok b => exact hf b p' hr
  | error x => exact hraised x p' hr

end rules

/-! ### `deliver` -/

/-- A coroutine that has loaded an event: the locks it holds are below a level, and that of the
event is among them. -/
structure Locking.Delivering (id : UUID) (n : ℕ) (ws : List Write) : Prop where
  level : ∀ k ∈ locksOf ws, k.level < n
  event : RowKey.event id ∈ locksOf ws

/-- The statements that follow do not lower the level. -/
theorem Locking.Delivering.append {id : UUID} {n m : ℕ} {ws ws' : List Write}
    (h : Delivering id n ws) (hnm : n ≤ m) (hws' : ∀ k ∈ locksOf ws', k.level < m) :
    Delivering id m (ws ++ ws') where
  level k hk := by
    unfold locksOf at hk
    rw [List.flatMap_append] at hk
    rcases List.mem_append.mp hk with hk | hk
    · exact lt_of_lt_of_le (h.level k hk) hnm
    · exact hws' k hk
  event := by
    unfold locksOf
    rw [List.flatMap_append]
    exact List.mem_append_left _ h.event

/-- The locks of a flush of an event. -/
theorem keys_of_flushEvent {old new : WebhookEvent} {k : RowKey}
    (h : k ∈ (Op.flushEvent old new).locks) : k = .event old.id := by
  unfold Op.locks Op.writes at h
  dsimp only at h
  split_ifs at h
  · cases h
  · exact List.mem_singleton.mp h

/-- A flush of an event updates that event. -/
theorem updates_of_flushEvent {old new : WebhookEvent} {id : UUID} {u : EventColumns}
    (h : Write.updateEvent id u ∈ (Op.flushEvent old new).writes) : id = old.id := by
  unfold Op.writes at h
  dsimp only at h
  split_ifs at h
  · cases h
  · exact (Write.updateEvent.inj (List.mem_singleton.mp h)).1

section deliver

variable {α : Type} {unused queue : List UUID} {ws : List Write} {ev : WebhookEvent}
  {ep : WebhookEndpoint}

/-- The event is flushed while its lock is held. -/
theorem locks_flushEvent {n : ℕ} (hws : Locking.Delivering ev.id n ws) (hn : 0 < n)
    {old new : WebhookEvent} (hold : old.id = ev.id) {f : WebhookEvent → Relay α}
    (hf : ∀ ws, Locking.Delivering ev.id n ws →
      Locks (AnyEnd α) (.holding unused (some ev.id) queue ws) (f new)) :
    Locks (AnyEnd α) (.holding unused (some ev.id) queue ws)
      ((flushEvent old new >>= fun _ => pure new) >>= f) := by
  rw [bind_assoc]
  refine locks_bind (e := .flushEvent old new) lenient_true ⟨?_, ?_, ?_, ?_, ?_⟩ fun _ => ?_
  · intro k _ k' hk'
    rw [keys_of_flushEvent (Op.mem_locks_of_waits hk'), hold]
    exact Or.inr hws.event
  · exact fun _ h => nomatch h
  · intro id u hu
    rw [updates_of_flushEvent hu, hold]
  · exact fun h => nomatch h
  · exact fun h => nomatch h
  · refine hf _ (hws.append le_rfl fun k hk => ?_)
    rw [keys_of_flushEvent hk]
    exact hn

/-- The first flush takes the lock of the event. -/
theorem locks_firstFlush {old new : WebhookEvent} (hold : old.id = ev.id)
    (hdiff : EventColumns.diff old new ≠ .none) {f : WebhookEvent → Relay α}
    (hf : ∀ ws, Locking.Delivering ev.id 1 ws →
      Locks (AnyEnd α) (.holding unused (some ev.id) queue ws) (f new)) :
    Locks (AnyEnd α) (.holding unused (some ev.id) queue [])
      ((flushEvent old new >>= fun _ => pure new) >>= f) := by
  rw [bind_assoc]
  refine locks_bind (e := .flushEvent old new) lenient_true (orderly_first ?_ ?_) fun _ => ?_
  · exact fun _ h => nomatch h
  · intro id u hu
    rw [updates_of_flushEvent hu, hold]
  · refine hf _ ⟨fun k hk => ?_, ?_⟩
    · rw [keys_of_flushEvent hk]
      exact Nat.zero_lt_one
    · unfold locksOf Op.writes
      dsimp only
      rw [if_neg hdiff, hold]
      exact List.mem_cons_self

/-- Neutral calls in a run of `deliver`. -/
theorem locks_neutral {β : Type} {q : Relay β} (hq : q.Calls Op.Neutral) {event : Option UUID}
    {f : β → Relay α} (hf : ∀ b, Locks (AnyEnd α) (.holding unused event queue ws) (f b)) :
    Locks (AnyEnd α) (.holding unused event queue ws) (q >>= f) :=
  locks_bind_neutral lenient_true hq (fun _ => trivial) hf

/-- The commit that ends a run. -/
theorem locks_lastCommit {event : Option UUID} (a : α) :
    Locks (AnyEnd α) (.holding unused event queue ws) (commit >>= fun _ => Prog.done a) :=
  locks_bind_commit lenient_true trivial

/-- An attempt is logged above the event. -/
theorem locks_createAttempt (hws : Locking.Delivering ev.id 1 ws)
    {row : UUID → Datetime → DeliveryAttempt} {f : DeliveryAttempt → Relay α}
    (hf : ∀ unused ws a, Locking.Delivering ev.id 2 ws →
      Locks (AnyEnd α) (.holding unused (some ev.id) queue ws) (f a)) :
    Locks (AnyEnd α) (.holding unused (some ev.id) queue ws)
      (DeliveryAttemptRepository.create row >>= f) := by
  unfold DeliveryAttemptRepository.create
  simp only [bind_assoc]
  refine locks_bind_uuid4 lenient_true fun u => ?_
  refine locks_neutral (q := now) (neutral_perform rfl) fun t => ?_
  refine locks_bind (e := .insertAttempt (row u t)) lenient_true
    (orderly_above (n := 1) hws.level ?_ ?_ ?_ rfl rfl) fun _ => hf _ _ _ ?_
  · intro k hk
    rw [List.mem_singleton.mp hk]
    exact le_rfl
  · exact fun _ h => nomatch h
  · exact fun _ _ h => nomatch (List.mem_singleton.mp h)
  · refine hws.append (by decide) fun k hk => ?_
    rw [List.mem_singleton.mp hk]
    exact Nat.lt_succ_self _

/-- An entry of the dead letter queue is inserted above everything else, with an identifier that
has just been drawn. -/
theorem locks_createDeadLetter {n : ℕ} (hws : Locking.Delivering ev.id n ws) (hn : n ≤ 3)
    {row : UUID → Datetime → DeadLetterEvent} (hrow : ∀ u t, (row u t).id = u)
    {f : DeadLetterEvent → Relay α}
    (hf : ∀ unused ws d, Locking.Delivering ev.id 4 ws →
      Locks (AnyEnd α) (.holding unused (some ev.id) queue ws) (f d)) :
    Locks (AnyEnd α) (.holding unused (some ev.id) queue ws)
      (DeadLetterRepository.create row >>= f) := by
  unfold DeadLetterRepository.create
  simp only [bind_assoc]
  refine locks_bind_uuid4 lenient_true fun u => ?_
  refine locks_neutral (q := now) (neutral_perform rfl) fun t => ?_
  refine locks_bind (e := .insertDeadLetter (row u t)) lenient_true
    (orderly_above (n := 3) (fun k hk => (hws.level k hk).trans_le hn) ?_ ?_ ?_ rfl rfl)
    fun _ => hf _ _ _ ?_
  · intro k hk
    rw [List.mem_singleton.mp hk]
    exact le_rfl
  · rintro id ⟨⟩
    rw [hrow]
    exact List.mem_append_right _ (List.mem_singleton_self u)
  · exact fun _ _ h => nomatch (List.mem_singleton.mp h)
  · refine hws.append (hn.trans (by decide)) fun k hk => ?_
    rw [List.mem_singleton.mp hk]
    exact Nat.lt_succ_self _

/-- The endpoint is deactivated above the attempt. -/
theorem locks_deactivateGone (hws : Locking.Delivering ev.id 2 ws) (p : PostResult)
    {f : Unit → Relay α}
    (hf : ∀ ws, Locking.Delivering ev.id 3 ws →
      Locks (AnyEnd α) (.holding unused (some ev.id) queue ws) (f ())) :
    Locks (AnyEnd α) (.holding unused (some ev.id) queue ws)
      (DeliveryService.deactivateGone ep p >>= f) := by
  unfold DeliveryService.deactivateGone
  split_ifs
  · rw [bind_assoc]
    refine locks_bind (e := .deactivateEndpoint ep.id) lenient_true
      (orderly_above (n := 2) hws.level ?_ ?_ ?_ rfl rfl) fun _ => hf _ ?_
    · intro k hk
      rw [List.mem_singleton.mp hk]
      exact le_rfl
    · exact fun _ h => nomatch h
    · exact fun _ _ h => nomatch (List.mem_singleton.mp h)
    · refine hws.append (by decide) fun k hk => ?_
      rw [List.mem_singleton.mp hk]
      exact Nat.lt_succ_self _
  · exact hf ws ⟨fun k hk => (hws.level k hk).trans (by decide), hws.event⟩

theorem locks_deadLetterInactive (hterm : ev.status.terminal = false) :
    Locks (AnyEnd DeliveryOutcome) (.holding unused (some ev.id) queue [])
      (DeliveryService.deadLetterInactive ev ep) := by
  have hdiff : EventColumns.diff ev (EventRepository.deadLettered ev) ≠ .none := by
    intro h
    have hstatus := congrArg EventColumns.status h
    change changed ev.status .deadLettered = none at hstatus
    unfold changed at hstatus
    split_ifs at hstatus with hs
    rw [← hs] at hterm
    cases hterm
  unfold DeliveryService.deadLetterInactive EventRepository.markDeadLettered
  refine locks_firstFlush rfl hdiff fun ws hws => ?_
  refine locks_createDeadLetter hws (by decide) (fun _ _ => rfl) fun unused ws d _ => ?_
  exact locks_lastCommit _

theorem locks_deferDelivery (settings : Settings) :
    Locks (AnyEnd DeliveryOutcome) (.holding unused (some ev.id) queue [])
      (DeliveryService.deferDelivery settings ev ep) := by
  unfold DeliveryService.deferDelivery EventRepository.scheduleRetry
  refine locks_neutral (calls_nowPlusSeconds (Op.neutral_of_isPlain rfl) _) fun next => ?_
  rw [bind_assoc]
  refine locks_bind (e := .flushEvent ev (EventRepository.retryScheduled ev next)) lenient_true
    (orderly_first ?_ ?_) fun _ => locks_lastCommit _
  · exact fun _ h => nomatch h
  · intro id u hu
    rw [updates_of_flushEvent hu]

theorem locks_settleSuccess (hws : Locking.Delivering ev.id 2 ws) (a : DeliveryAttempt) (d : ℚ) :
    Locks (AnyEnd DeliveryOutcome) (.holding unused (some ev.id) queue ws)
      (DeliveryService.settleSuccess (EventRepository.delivering ev) ep a d) := by
  unfold DeliveryService.settleSuccess EventRepository.markDelivered
  refine locks_neutral (q := recordSuccess ep.id) (neutral_perform rfl) fun _ => ?_
  rw [bind_assoc]
  refine locks_neutral (q := now) (neutral_perform rfl) fun t => ?_
  refine locks_flushEvent hws (by decide) (by rfl) fun _ _ => ?_
  exact locks_lastCommit _

theorem locks_settleFailure (hws : Locking.Delivering ev.id 2 ws) (p : PostResult) :
    Locks (AnyEnd DeliveryOutcome) (.holding unused (some ev.id) queue ws)
      (DeliveryService.settleFailure (EventRepository.delivering ev) ep p) := by
  unfold DeliveryService.settleFailure
  refine locks_neutral (q := recordFailure ep.id) (neutral_perform rfl) fun _ => ?_
  refine locks_deactivateGone hws p fun ws hws => ?_
  dsimp only
  split_ifs
  · unfold DeliveryService.retryLater EventRepository.scheduleRetry
    refine locks_neutral (calls_nextRetryAt (Op.neutral_of_isPlain rfl)
      (Op.neutral_of_isPlain rfl) _ _ _ _) fun t => ?_
    refine locks_flushEvent hws (by decide) (by rfl) fun _ _ => ?_
    exact locks_lastCommit _
  · unfold DeliveryService.giveUp EventRepository.markDeadLettered
    refine locks_createDeadLetter hws le_rfl (fun _ _ => rfl) fun unused ws d hws => ?_
    refine locks_flushEvent hws (by decide) (by rfl) fun _ _ => ?_
    exact locks_lastCommit _

theorem locks_attemptDelivery (crypto : Crypto) :
    Locks (AnyEnd DeliveryOutcome) (.holding unused (some ev.id) queue [])
      (DeliveryService.attemptDelivery crypto ev ep) := by
  have hclock : perfCounter.Calls Op.Neutral := neutral_perform rfl
  have hdiff : EventColumns.diff ev (EventRepository.delivering ev) ≠ .none := by
    intro h
    have hcount := congrArg EventColumns.attemptCount h
    change changed ev.attemptCount (ev.attemptCount + 1) = none at hcount
    unfold changed at hcount
    split_ifs at hcount with hc
    omega
  unfold DeliveryService.attemptDelivery EventRepository.markDelivering
  refine locks_firstFlush rfl hdiff fun ws hws => ?_
  refine locks_neutral (calls_requestHeaders (Op.neutral_of_isPlain rfl) _ _ _) fun headers => ?_
  refine locks_neutral hclock fun start => ?_
  refine locks_neutral (q := (post _).attempt) (neutral_perform rfl).attempt fun answer => ?_
  refine locks_neutral (Prog.calls_ofExcept _) fun p => ?_
  refine locks_neutral hclock fun stop => ?_
  refine locks_createAttempt hws fun unused ws a hws => ?_
  split_ifs
  · exact locks_settleSuccess hws _ _
  · exact locks_settleFailure hws p

/-- Every run of `deliver` takes its locks in order. -/
theorem locks_deliver (deps : Deps) (id : UUID) :
    Locks (AnyEnd DeliveryOutcome) .start (DeliveryService.deliver deps id) := by
  unfold DeliveryService.deliver
  refine locks_bind (e := .getEventWithEndpoint id) lenient_true
    (orderly_first (fun _ h => nomatch h) fun _ _ h => nomatch h) fun row => ?_
  rcases row with _ | ⟨ev, endpoint?⟩
  · trivial
  · dsimp only
    cases hterm : ev.status.terminal with
    | true => trivial
    | false =>
      cases endpoint? with
      | none => trivial
      | some ep =>
        simp only [Bool.false_eq_true, if_false]
        split_ifs
        · exact locks_deadLetterInactive hterm
        · refine locks_neutral (q := isAllowed ep.id) (neutral_perform rfl) fun allowed => ?_
          split_ifs
          · exact locks_deferDelivery _
          · exact locks_attemptDelivery _

end deliver

/-! ### Requests with one statement -/

/-- The session may still be committed. -/
def Locking.isOpen : Locking → Prop
  | .holding _ _ _ _ => True
  | .lost => True
  | _ => False

/-- A handler that returns leaves its session open. -/
def Opens {α : Type} (r : Except PyExn α) (p : Locking) : Prop := ∀ a, r = .ok a → p.isOpen

theorem lenient_opens {α : Type} : Lenient (Opens (α := α)) :=
  ⟨fun _ _ _ => trivial, fun _ _ _ _ h => nomatch h⟩

section requests

variable {α β : Type} {p : Locking} {unused queue : List UUID} {event : Option UUID}
  {ws : List Write}

theorem opens_done (hp : p.isOpen) (a : α) : Locks Opens p (Prog.done a : Relay α) :=
  fun _ _ => hp

theorem opens_raised (x : PyExn) : Locks Opens p (Prog.raised x : Relay α) := fun _ h => nomatch h

/-- A part that leaves the session open, and the rest. -/
theorem opens_bind {q : Relay β} (hq : Locks Opens p q) {f : β → Relay α}
    (hf : ∀ b p, p.isOpen → Locks Opens p (f b)) : Locks Opens p (q >>= f) :=
  locks_seq hq (fun b p' hb => hf b p' (hb b rfl)) fun _ _ _ _ h => nomatch h

/-- Neutral calls leave the session as it is. -/
theorem opens_neutral {q : Relay β} (hq : q.Calls Op.Neutral) {f : β → Relay α}
    (hf : ∀ b, Locks Opens (.holding unused event queue ws) (f b)) :
    Locks Opens (.holding unused event queue ws) (q >>= f) :=
  locks_bind_neutral lenient_opens hq (fun _ _ h => nomatch h) hf

/-- Neutral calls in whatever is left of an open session. -/
theorem opens_of_neutral (hp : p.isOpen) {q : Relay α} (hq : q.Calls Op.Neutral) :
    Locks Opens p q := by
  cases p with
  | holding unused event queue ws =>
    have h : Locks Opens (.holding unused event queue ws) (q >>= Prog.done) :=
      opens_neutral hq fun a => opens_done (p := .holding unused event queue ws) trivial a
    rwa [show q >>= Prog.done = q from bind_pure q] at h
  | lost => exact locks_lost lenient_opens q
  | _ => exact hp.elim

/-- The session of a handler is committed after it has returned. -/
theorem locks_getDb {handler : Relay α} (h : Locks Opens p handler) :
    Locks (AnyEnd α) p (Api.getDb handler) := by
  refine locks_seq h (fun a p hp => ?_) fun _ _ _ => trivial
  cases p with
  | holding unused event queue ws => exact locks_lastCommit a
  | lost => exact locks_lost lenient_true _
  | _ => exact (hp a rfl).elim

theorem opens_found (hp : p.isOpen) (detail : Str) (x : Option α) :
    Locks Opens p (Api.found detail x) := by
  cases x with
  | some a => exact opens_done hp a
  | none => exact opens_raised _

/-- The only statement of a request. -/
theorem opens_first {e : Op} (hspends : ∀ id, e.spends = some id → id ∈ unused)
    (hupdates : ∀ id u, Write.updateEvent id u ∉ e.writes)
    (hopen : ∀ v, (Locking.answered unused event queue [] e v).isOpen) {f : e.Resp → Relay α}
    (hf : ∀ v p, p.isOpen → Locks Opens p (f v)) :
    Locks Opens (.holding unused event queue []) (await e >>= f) :=
  locks_bind lenient_opens (orderly_first hspends fun id u hu => absurd hu (hupdates id u))
    fun v => hf v _ (hopen v)

theorem opens_createEndpoint (data : EndpointCreate) :
    Locks Opens .start (Api.createEndpoint data) := by
  refine opens_neutral (q := tokenHex) (neutral_perform rfl) fun secret => ?_
  refine locks_bind_uuid4 lenient_opens fun id => ?_
  exact opens_first (e := .insertEndpoint (Api.newEndpoint data secret.text id))
    (fun _ h => nomatch h) (fun _ _ h => nomatch (List.mem_singleton.mp h)) (fun _ => trivial)
    fun _ _ hp => opens_done hp _

/-- A flush of an endpoint updates no event. -/
theorem flushEndpoint_updates (old new : WebhookEndpoint) (id : UUID) (u : EventColumns) :
    Write.updateEvent id u ∉ (Op.flushEndpoint old new).writes := by
  unfold Op.writes
  dsimp only
  split_ifs <;> simp

theorem opens_updateEndpoint (id : UUID) (data : EndpointUpdate) :
    Locks Opens .start (Api.updateEndpoint id data) := by
  have hupdate : Locks Opens .start (EndpointRepository.update id data) := by
    refine opens_neutral (q := EndpointRepository.getById id) (neutral_perform rfl) fun row => ?_
    cases row with
    | none => exact opens_done (p := .holding [] none [] []) trivial none
    | some endpoint =>
      exact opens_first (e := .flushEndpoint endpoint _) (fun _ h => nomatch h)
        (flushEndpoint_updates _ _) (fun _ => trivial) fun _ _ hp => opens_done hp _
  exact opens_bind hupdate fun _ _ hp => opens_found hp _ _

theorem opens_rotateSecret (id : UUID) : Locks Opens .start (Api.rotateSecret id) := by
  have hrotate : Locks Opens .start (EndpointRepository.rotateSecret id) := by
    refine opens_neutral (q := EndpointRepository.getById id) (neutral_perform rfl) fun row => ?_
    cases row with
    | none => exact opens_done (p := .holding [] none [] []) trivial none
    | some endpoint =>
      refine opens_neutral (q := tokenHex) (neutral_perform rfl) fun secret => ?_
      exact opens_first (e := .flushEndpoint endpoint _) (fun _ h => nomatch h)
        (flushEndpoint_updates _ _) (fun _ => trivial) fun _ _ hp => opens_done hp _
  exact opens_bind hrotate fun _ _ hp => opens_found hp _ _

theorem opens_deleteEndpoint (id : UUID) : Locks Opens .start (Api.deleteEndpoint id) := by
  refine opens_first (e := .deactivateEndpoint id) (fun _ h => nomatch h)
    (fun _ _ h => nomatch (List.mem_singleton.mp h)) (fun _ => trivial) fun there p hp => ?_
  split_ifs
  · exact opens_done hp ()
  · exact opens_raised _

theorem opens_discardDlqEntry (id : UUID) : Locks Opens .start (Api.discardDlqEntry id) := by
  refine opens_first (e := .deleteDeadLetter id) (fun _ h => nomatch h)
    (fun _ _ h => nomatch (List.mem_singleton.mp h)) (fun _ => trivial) fun there p hp => ?_
  split_ifs
  · exact opens_done hp ()
  · exact opens_raised _

theorem opens_globalStats : Locks Opens .start Api.globalStats := by
  refine opens_of_neutral (p := .start) trivial ?_
  exact (neutral_perform rfl).bind fun _ => (neutral_perform rfl).bind fun _ =>
    (neutral_perform rfl).bind fun _ => Prog.calls_done _

theorem opens_createEvent (data : EventCreate) : Locks Opens .start (Api.createEvent data) := by
  have hlookup : (Api.lookup data).Calls Op.Neutral := by
    unfold Api.lookup
    cases data.idempotencyKey with
    | none => exact Prog.calls_done _
    | some key =>
      dsimp only
      split_ifs
      · exact Prog.calls_done _
      · exact neutral_perform rfl
  refine opens_neutral hlookup fun existing => ?_
  cases existing with
  | some r => exact opens_done (p := .holding [] none [] []) trivial r
  | none =>
    refine opens_neutral (q := EndpointRepository.getById data.endpointId) (neutral_perform rfl)
      fun row => ?_
    have hfound : (Api.found (Str.lit "Endpoint not found") row).Calls Op.Neutral := by
      cases row with
      | some endpoint => exact Prog.calls_done endpoint
      | none => exact Prog.calls_raised _
    refine opens_neutral hfound fun endpoint => ?_
    split_ifs
    · exact opens_raised _
    · exact opens_raised _
    · refine opens_bind (q := EventRepository.create (Api.newEvent data)) ?_ fun event p hp => ?_
      · refine locks_bind_uuid4 lenient_opens fun id => ?_
        refine opens_neutral (q := now) (neutral_perform rfl) fun time => ?_
        refine opens_first (e := .insertEvent (Api.newEvent data id time)) ?_ ?_
          (fun _ => trivial) fun _ _ hp => opens_done hp _
        · rintro _ ⟨⟩
          exact List.mem_append_right _ (List.mem_singleton_self id)
        · exact fun _ _ h => nomatch (List.mem_singleton.mp h)
      · exact opens_of_neutral hp ((neutral_perform (e := .enqueueJob event.id) rfl).bind fun _ =>
          Prog.calls_done event)

end requests

/-! ### The replays -/

/-- The locks that are held come before the next entry of the queue. -/
def Reaching (queue : List UUID) (ws : List Write) (id : UUID) : Prop :=
  ∀ k ∈ locksOf ws, k.level < 3 ∨ ∃ d, k = .deadLetter d ∧ [d, id].Sublist queue

/-- What a replay in the session of a bulk replay leaves: it holds the lock of its entry now. -/
def Locking.Replayed (event : Option UUID) (queue : List UUID) (ws : List Write) (id : UUID)
    (p : Locking) : Prop :=
  p = .lost ∨ ∃ unused ws', p = .holding unused event queue ws' ∧
    ∀ k ∈ locksOf ws', k.level < 3 ∨ k ∈ locksOf ws ∨ k = .deadLetter id

/-- How a replay ends: when it is counted, the bulk replay goes on. -/
def EndsReplay {α : Type} (own : Bool) (event : Option UUID) (queue : List UUID) (ws : List Write)
    (id : UUID) (r : Except PyExn α) (p : Locking) : Prop :=
  own = false → (∀ x, r = .error x → countedError x = true) → p.Replayed event queue ws id

section replays

variable {own : Bool} {unused queue : List UUID} {event : Option UUID} {ws : List Write}
  {id : UUID}

theorem lenient_replays {α : Type} : Lenient (EndsReplay (α := α) own event queue ws id) :=
  ⟨fun _ _ _ => Or.inl rfl, fun x _ hp _ hx => Or.inl (hp (hx x rfl))⟩

/-- Idle calls after the commit. -/
theorem locks_committed {α : Type} {Q : Except PyExn α → Locking → Prop} (hQ : Lenient Q)
    (hend : ∀ r, Q r .committed) {q : Relay α} (hq : q.Calls Op.Idle) : Locks Q .committed q := by
  induction q with
  | done a => exact hend _
  | raised x => exact hend _
  | call e k ih =>
    refine ⟨hq.1, fun r => ?_⟩
    cases r with
    | ok v => exact ih _ (hq.2 _)
    | error x =>
      show Locks Q (if countedError x then .lost else .committed) (k (.error x))
      split_ifs
      · exact locks_lost hQ _
      · exact ih _ (hq.2 _)

/-- A phase with the locks of before and that of the entry. -/
theorem replayed_of_locks {ws' : List Write}
    (h : ∀ k ∈ locksOf ws', k.level < 3 ∨ k ∈ locksOf ws ∨ k = .deadLetter id) :
    (Locking.holding unused event queue ws').Replayed event queue ws id :=
  Or.inr ⟨unused, ws', rfl, h⟩

/-- The locks of a flush of an entry. -/
theorem keys_of_flushDeadLetter {old new : DeadLetterEvent} {k : RowKey}
    (h : k ∈ (Op.flushDeadLetter old new).locks) : k = .deadLetter old.id := by
  unfold Op.locks Op.writes at h
  dsimp only at h
  split_ifs at h
  · cases h
  · exact List.mem_singleton.mp h

/-- The entry is marked: its lock comes after those of the entries before it. -/
theorem orderly_flushDeadLetter {entry new : DeadLetterEvent} {ws' : List Write}
    (hws : Reaching queue ws entry.id)
    (hws' : ∀ k ∈ locksOf ws', k.level < 3 ∨ k ∈ locksOf ws) :
    Locking.Orderly unused event queue ws' (.flushDeadLetter entry new) where
  order k hk k' hk' := by
    have hk' := keys_of_flushDeadLetter (Op.mem_locks_of_waits hk')
    subst hk'
    rcases (hws' k hk).elim Or.inl (hws k) with hlow | ⟨d, rfl, hd⟩
    · exact Or.inl (Or.inl hlow)
    · exact Or.inl (Or.inr ⟨d, entry.id, rfl, rfl, hd⟩)
  spends _ h := nomatch h
  updates id u hu := by
    unfold Op.writes at hu
    dsimp only at hu
    split_ifs at hu
    · cases hu
    · cases List.mem_singleton.mp hu
  loads h := nomatch h
  selects h := nomatch h

/-- A replay from the mark on its entry on. -/
theorem locks_marking {entry : DeadLetterEvent} {ws' : List Write}
    (hws : Reaching queue ws entry.id)
    (hws' : ∀ k ∈ locksOf ws', k.level < 3 ∨ k ∈ locksOf ws) (newEvent : UUID)
    (res : ReplayResult) :
    Locks (EndsReplay own event queue ws entry.id) (.holding unused event queue ws') (do
      let entry ← DeadLetterRepository.markReplayed entry
      resetCircuit entry.endpointId
      commitOwn own
      let _ ← enqueueJob newEvent
      pure res) := by
  have hfirst {unused : List UUID} : (Locking.holding unused event queue ws').Replayed event queue
      ws entry.id := replayed_of_locks fun k hk => (hws' k hk).imp id Or.inl
  rw [DeadLetterRepository.markReplayed, bind_assoc]
  refine locks_bind_neutral (q := now) lenient_replays (neutral_perform rfl)
    (fun _ _ _ => hfirst) fun time => ?_
  rw [bind_assoc]
  let new := DeadLetterRepository.replayed entry time
  refine locks_bind (e := .flushDeadLetter entry new) lenient_replays
    (orderly_flushDeadLetter hws hws') fun _ => ?_
  rw [pure_bind]
  show Locks _ (.holding unused event queue (ws' ++ (Op.flushDeadLetter entry new).writes)) _
  have hmarked {unused : List UUID} : (Locking.holding unused event queue
      (ws' ++ (Op.flushDeadLetter entry new).writes)).Replayed event queue ws entry.id := by
    refine replayed_of_locks fun k hk => ?_
    unfold locksOf at hk
    rw [List.flatMap_append] at hk
    rcases List.mem_append.mp hk with hk | hk
    · exact (hws' k hk).imp id Or.inl
    · exact Or.inr (Or.inr (keys_of_flushDeadLetter hk))
  have hrest : (do
      let _ ← enqueueJob newEvent
      pure res : Relay ReplayResult).Calls Op.Neutral :=
    (neutral_perform (e := .enqueueJob newEvent) rfl).bind fun _ => Prog.calls_done res
  refine locks_bind_neutral (q := resetCircuit entry.endpointId) lenient_replays
    (neutral_perform rfl) (fun _ _ _ => hmarked) fun _ => ?_
  cases own with
  | true =>
    exact locks_bind_commit lenient_replays (locks_committed lenient_replays
      (fun _ h _ => Bool.noConfusion h) (hrest.imp fun _ he => he.toIdle))
  | false =>
    exact locks_bind_neutral (q := enqueueJob newEvent) lenient_replays (neutral_perform rfl)
      (fun _ _ _ => hmarked) fun _ _ _ => hmarked

/-- **One replay**: it inserts an event whose identifier it has just drawn, and then takes the lock
of its entry, which comes after the locks of the entries before it. -/
theorem locks_replaySingle (hws : Reaching queue ws id) (force : Bool) :
    Locks (EndsReplay own event queue ws id) (.holding unused event queue ws)
      (replaySingle id force own) := by
  have hsame {unused : List UUID} : (Locking.holding unused event queue ws).Replayed event queue ws
      id := replayed_of_locks fun _ hk => Or.inr (Or.inl hk)
  refine locks_bind (e := .getDeadLetter id) lenient_replays
    ⟨fun _ _ _ h => (nomatch h), fun _ h => (nomatch h), fun _ _ h => (nomatch h),
      fun h => (nomatch h), fun h => (nomatch h)⟩ fun row => ?_
  cases row with
  | none =>
    intro _ _
    show (Locking.holding unused event queue (ws ++ [])).Replayed event queue ws id
    rw [List.append_nil]
    exact hsame
  | some entry =>
    show Locks _ (if entry.id = id then Locking.holding unused event queue ws else .lost) _
    split_ifs with hid
    · subst hid
      refine locks_bind_neutral lenient_replays
        (calls_checkRecent (Op.neutral_of_isPlain rfl) entry force) (fun _ _ _ => hsame)
        fun _ => ?_
      -- the new event
      rw [EventRepository.create, bind_assoc]
      refine locks_bind_uuid4 lenient_replays fun newId => ?_
      rw [bind_assoc]
      refine locks_bind_neutral (q := now) lenient_replays (neutral_perform rfl)
        (fun _ _ _ => hsame) fun time => ?_
      rw [bind_assoc]
      refine locks_bind (e := .insertEvent (replayEvent entry newId time)) lenient_replays
        ⟨fun _ _ _ h => (nomatch h), ?_, fun _ _ h => (nomatch List.mem_singleton.mp h),
          fun h => (nomatch h), fun h => (nomatch h)⟩ fun _ => ?_
      · rintro _ ⟨⟩
        exact List.mem_append_right _ (List.mem_singleton_self newId)
      have hinserted : ∀ k ∈ locksOf (ws ++ [.insertEvent (replayEvent entry newId time)]),
          k.level < 3 ∨ k ∈ locksOf ws := by
        intro k hk
        unfold locksOf at hk
        rw [List.flatMap_append] at hk
        refine (List.mem_append.mp hk).symm.imp (fun hk => ?_) id
        rw [List.mem_singleton.mp hk]
        exact Nat.zero_lt_succ _
      -- the mark on the entry
      rw [pure_bind]
      exact locks_marking hws hinserted _ _
    · exact locks_lost lenient_replays _

/-- The loop of a bulk replay has come so far. -/
def Locking.Walked (event : Option UUID) (queue done : List UUID) (p : Locking) : Prop :=
  p = .lost ∨ ∃ unused ws, p = .holding unused event queue ws ∧
    ∀ k ∈ locksOf ws, k.level < 3 ∨ ∃ d ∈ done, k = .deadLetter d

/-- The loop of a bulk replay, by induction on the entries that are left: it takes their locks in
the order of the queue. -/
theorem locks_replayEach (force : Bool) (entries : List DeadLetterEvent) :
    ∀ (done : List UUID) (results : List ReplayResult) (errors : ℕ) (p : Locking),
      queue = done ++ entries.map DeadLetterEvent.id → p.Walked event queue done →
      Locks Opens p (replayEach force entries results errors) := by
  induction entries with
  | nil =>
    intro done results errors p _ hp
    refine opens_done ?_ _
    rcases hp with rfl | ⟨unused, ws, rfl, -⟩ <;> trivial
  | cons entry entries ih =>
    intro done results errors p hqueue hp
    rcases hp with rfl | ⟨unused, ws, rfl, hws⟩
    · exact locks_lost lenient_opens _
    have hreaching : Reaching queue ws entry.id := by
      intro k hk
      refine (hws k hk).imp id ?_
      rintro ⟨d, hd, rfl⟩
      refine ⟨d, rfl, ?_⟩
      rw [hqueue]
      have hentry : [entry.id].Sublist ((entry :: entries).map DeadLetterEvent.id) :=
        List.singleton_sublist.mpr List.mem_cons_self
      exact (List.singleton_sublist.mpr hd).append hentry
    have hnext : queue = (done ++ [entry.id]) ++ entries.map DeadLetterEvent.id := by
      rw [hqueue, List.append_assoc]
      rfl
    have hwalked {p : Locking} (h : p.Replayed event queue ws entry.id) :
        p.Walked event queue (done ++ [entry.id]) := by
      refine h.imp id ?_
      rintro ⟨unused', ws', rfl, hws'⟩
      refine ⟨unused', ws', rfl, fun k hk => ?_⟩
      rcases hws' k hk with hk | hk | rfl
      · exact Or.inl hk
      · exact (hws k hk).imp id fun ⟨d, hd, hk⟩ => ⟨d, List.mem_append_left _ hd, hk⟩
      · exact Or.inr ⟨entry.id, List.mem_append_right _ (List.mem_singleton_self _), rfl⟩
    refine (Prog.obeys_bind _ _).mpr ((Prog.obeys_attempt _).mpr ?_)
    have hone : Locks (EndsReplay false event queue ws entry.id) (.holding unused event queue ws)
        (replaySingle entry.id force false) := locks_replaySingle hreaching force
    refine hone.mono fun r p' hr => ?_
    cases r with
    | ok result => exact ih _ _ _ p' hnext (hwalked (hr rfl fun _ h => nomatch h))
    | error x =>
      dsimp only
      split_ifs with hx
      · exact ih _ _ _ p' hnext (hwalked (hr rfl fun _ h => by cases h; exact hx))
      · exact opens_raised x

theorem locks_replayBulk (endpointId : Option UUID) (eventType : Option Str) (force : Bool) :
    Locks (AnyEnd BulkReplayResult) .start (replayBulk endpointId eventType force) := by
  refine locks_bind (e := .selectDeadLetters endpointId eventType 1000) lenient_true
    (orderly_first (fun _ h => nomatch h) fun _ _ h => nomatch h) fun entries => ?_
  refine locks_seq (locks_replayEach force entries [] [] 0 _ rfl
    (Or.inr ⟨[], [], rfl, fun _ hk => nomatch hk⟩)) (fun x p hp => ?_) fun _ _ _ => trivial
  cases p with
  | holding unused event queue ws => exact locks_lastCommit _
  | lost => exact locks_lost lenient_true _
  | _ => exact (hp x rfl).elim

theorem locks_replayDlqEvent (id : UUID) (force : Bool) :
    Locks (AnyEnd ReplayResult) .start (Api.replayDlqEvent id force) := by
  refine (Prog.obeys_bind _ _).mpr ((Prog.obeys_attempt _).mpr ?_)
  have hreaching : Reaching [] [] id := fun _ hk => nomatch hk
  have hone : Locks (EndsReplay true none [] [] id) .start (replaySingle id force true) :=
    locks_replaySingle hreaching force
  refine hone.mono fun r p _ => ?_
  cases r with
  | ok result => trivial
  | error x => cases x <;> trivial

end replays

/-! ### All programs -/

/-- **Every coroutine takes its locks in order**, whatever its calls are answered. -/
theorem program_locks (deps : Deps) (o : Origin) :
    Locks (AnyEnd Reply) .start (o.program deps) := by
  have hany {α : Type} {q : Relay α} (h : Locks (AnyEnd α) .start q) (g : α → Reply) :
      Locks (AnyEnd Reply) .start (g <$> q) := (Prog.obeys_map g q).mpr h
  have hjob (id : UUID) : Locks (AnyEnd Reply) .start (jobProgram deps id) := by
    refine hany ((Prog.obeys_bind _ _).mpr ((locks_deliver deps id).mono fun r p _ => ?_)) _
    cases r <;> trivial
  cases o with
  | job id => exact hjob id
  | reaped id => exact hjob id
  | cron =>
    have hpoll : Worker.pollPendingRetries.Calls Op.Neutral :=
      pollPendingRetries_polls.imp fun e he => Op.neutral_of_isPlain (by
        cases e <;> first | rfl | exact he.elim)
    exact hany ((opens_of_neutral (p := .start) trivial hpoll).mono fun _ _ _ => trivial) _
  | request r =>
    cases r with
    | createEndpoint data => exact hany (locks_getDb (opens_createEndpoint data)) _
    | updateEndpoint id data => exact hany (locks_getDb (opens_updateEndpoint id data)) _
    | deleteEndpoint id => exact hany (locks_getDb (opens_deleteEndpoint id)) _
    | rotateSecret id => exact hany (locks_getDb (opens_rotateSecret id)) _
    | createEvent data => exact hany (locks_getDb (opens_createEvent data)) _
    | replay id force => exact hany (locks_replayDlqEvent id force) _
    | replayBulk endpointId eventType force =>
      exact hany (locks_replayBulk endpointId eventType force) _
    | discard id => exact hany (locks_getDb (opens_discardDlqEntry id)) _
    | stats => exact hany (locks_getDb opens_globalStats) _

end WebhookRelay

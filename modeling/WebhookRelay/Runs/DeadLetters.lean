import WebhookRelay.Runs.Alone

/-!
# Dead letter entries

Entries can be discarded, so what was ever created is read off the log (`deadLettersOf`). Along
runs that do not overlap an event has had exactly one entry if it is dead-lettered and none
otherwise; the entry carries the event's data and its number of attempts. The rows of the table
are entries that were created, up to the two columns a replay changes. Only a run of `deliver`
changes a row of the events: replaying an entry leaves the original event as it is.
-/

namespace WebhookRelay

open Data Effect

variable {deps : Deps} {c c' : Config} {a : Action}

/-! ### The total of attempts -/

/-- The entries of an event carry its counter. -/
def Totals (c : Config) : Prop :=
  ∀ id r, c.world.db.events.get? id = some r →
    ∀ d ∈ deadLettersOf c.world.wal id, d.totalAttempts = r.attemptCount

/-- One step of runs that do not overlap keeps the totals. -/
theorem Totals.step (h : Totals c) (hr : Reaches deps NoOverlap c) (hc : Commits c c' a) :
    Totals c' := by
  have hbooks := hr.fresh.books
  intro id r hrow d hd
  cases hc with
  | nothing hw =>
    rw [World.db, hw] at hrow
    rw [hw] at hd
    exact h id r hrow d hd
  | benign ws hws hw =>
    rw [hw, deadLettersOf_append, deadLettersOf_benign hws, List.append_nil] at hd
    rw [World.db_of_wal hw] at hrow
    rcases benign_events_get? hws c.world.db id with hsame | ⟨hnone, -⟩
    · exact h id r (hsame ▸ hrow) d hd
    · rw [(hbooks.absent id hnone).2] at hd
      cases hd
  | exit t ev ep x ht hcom hterm hx hw =>
    rw [hw, deadLettersOf_exit hx] at hd
    rw [World.db_of_wal hw, x.events_get?] at hrow
    split_ifs at hrow hd with hid
    · subst hid
      have hcur := hr.committing_current hcom
      rw [hcur] at hrow
      obtain rfl : x.update ev ev = r := Option.some.inj hrow
      have hnone : deadLettersOf c.world.wal ev.id = [] := by
        refine (hbooks.audited _ ev hcur).entries fun hs => ?_
        rw [hs] at hterm
        cases hterm
      rw [hnone, List.nil_append, Option.mem_toList] at hd
      rw [(hx.records hd).totalAttempts, x.update_self, x.event_attemptCount]
    · rw [List.append_nil] at hd
      exact h id r hrow d hd

/-- The entries of an event carry its counter, along runs that do not overlap. -/
theorem Reaches.totals (h : Reaches deps NoOverlap c) : Totals c := by
  refine h.invariant (fun _ => fun id r hrow => (nomatch hrow)) fun c a c' hr hc _ hs => ?_
  exact hc.step hr (hr.commits hs)

/-! ### The rows of the table -/

/-- The row is the entry that was created, up to the columns a replay changes. -/
def DeadLetterEvent.Keeps (d d₀ : DeadLetterEvent) : Prop :=
  d = { d₀ with replayedAt := d.replayedAt, replayCount := d.replayCount }

/-- A row of the table after a statement was there before, or is inserted by it. -/
theorem deadLetters_apply (w : Write) (db : Db) {d : DeadLetterEvent}
    (hd : d ∈ (db.apply w).deadLetters.rows) :
    (∃ d₀ ∈ db.deadLetters.rows, d.Keeps d₀) ∨ w = .insertDeadLetter d := by
  cases w with
  | insertDeadLetter r =>
    change d ∈ (db.deadLetters.insert r).rows at hd
    cases hr : db.deadLetters.get? r.id with
    | some r' =>
      rw [Table.insert_of_get? hr] at hd
      exact Or.inl ⟨d, hd, rfl⟩
    | none =>
      rw [Table.rows_insert hr] at hd
      rcases List.mem_append.mp hd with hd | hd
      · exact Or.inl ⟨d, hd, rfl⟩
      · rw [List.mem_singleton.mp hd]
        exact Or.inr rfl
  | updateDeadLetter id u =>
    obtain ⟨d₀, hd₀, hd⟩ := List.mem_map.mp hd
    refine Or.inl ⟨d₀, hd₀, ?_⟩
    split_ifs at hd
    · rw [← hd]
      rfl
    · rw [← hd]
      rfl
  | deleteDeadLetter id => exact Or.inl ⟨d, (List.mem_filter.mp hd).1, rfl⟩
  | _ => exact Or.inl ⟨d, hd, rfl⟩

/-- A row of the table is an entry that was created, up to the columns a replay changes. -/
theorem deadLetters_created (wal : List Write) {d : DeadLetterEvent}
    (hd : d ∈ (Db.empty.applyAll wal).deadLetters.rows) :
    ∃ d₀ ∈ deadLettersOf wal d.eventId, d.Keeps d₀ := by
  induction wal using List.reverseRecOn generalizing d with
  | nil => cases hd
  | append_singleton wal w ih =>
    rw [Db.applyAll_append] at hd
    rw [deadLettersOf_append]
    rcases deadLetters_apply w _ hd with ⟨d₁, hd₁, hkeeps⟩ | rfl
    · obtain ⟨d₀, hd₀, hkeeps₀⟩ := ih hd₁
      have hevent : d₁.eventId = d.eventId := by rw [hkeeps]
      refine ⟨d₀, List.mem_append_left _ (hevent ▸ hd₀), ?_⟩
      unfold DeadLetterEvent.Keeps at hkeeps hkeeps₀ ⊢
      rw [hkeeps, hkeeps₀]
    · refine ⟨d, List.mem_append_right _ ?_, rfl⟩
      rw [deadLettersOf_insertDeadLetter, if_pos rfl]
      exact List.mem_singleton_self d

/-! ### Rows of the events that do not change -/

/-- A coroutine that does not deliver changes no row of the events. -/
theorem events_kept {ok : Config → Action → Prop} (hr : Reaches deps ok c)
    (hs : step deps c a = some c') {t : ℕ} {th : Coroutine} (ht : a.taken = some t)
    (hth : c.threads[t]? = some th) (ho : th.origin.delivers = none) {id : UUID}
    {r : WebhookEvent} (hrow : c.world.db.events.get? id = some r) :
    c'.world.db.events.get? id = some r := by
  cases hr.commits hs with
  | nothing hw => rwa [World.db, hw]
  | benign ws hws hw =>
    rcases benign_events_get? hws c.world.db id with hsame | ⟨hnone, -⟩
    · rw [World.db_of_wal hw, hsame, hrow]
    · rw [hrow] at hnone
      cases hnone
  | exit t' ev ep x ht' hcom =>
    obtain ⟨th', id', k, hth', ho', -⟩ := committing?_eq_some.mp hcom
    obtain rfl : t = t' := Option.some.inj (ht.symm.trans ht')
    obtain rfl : th = th' := Option.some.inj (hth.symm.trans hth')
    rw [ho] at ho'
    cases ho'

/-! ### Conservation -/

/-- No dead letter entry is lost, duplicated or wrong. -/
structure DeadLettersConserved (deps : Deps) (c : Config) : Prop where
  /-- Exactly one entry was ever created for a dead-lettered event, and none for any other. -/
  count : ∀ id r, c.world.db.events.get? id = some r →
    (deadLettersOf c.world.wal id).length = if r.status = .deadLettered then 1 else 0
  /-- The entry carries the data of its event and its number of attempts. -/
  entry : ∀ id r, c.world.db.events.get? id = some r → ∀ d ∈ deadLettersOf c.world.wal id,
    d.endpointId = r.endpointId ∧ d.eventType = r.eventType ∧ d.originalPayload = r.payload ∧
      d.totalAttempts = r.attemptCount ∧ d.totalAttempts = (c.world.db.attemptsOf id).length
  /-- The rows of the table are such entries, up to the columns a replay changes. -/
  table : ∀ d ∈ c.world.db.deadLetters.rows,
    ∃ d₀ ∈ deadLettersOf c.world.wal d.eventId, d.Keeps d₀
  /-- No call of a request or of the cron job changes a row of the events: not those of a replay
  either. -/
  replay : ∀ a c' t th, step deps c a = some c' → a.taken = some t → c.threads[t]? = some th →
    th.origin.delivers = none → ∀ id r, c.world.db.events.get? id = some r →
      c'.world.db.events.get? id = some r

/-- **Dead letter entries are conserved**, in every state reached by requests and by runs that do
not overlap, whatever fails. -/
theorem dead_letters_conserved (h : Reaches deps NoOverlap c) : DeadLettersConserved deps c := by
  have hbooks := h.fresh.books
  refine ⟨fun id r hrow => ?_, fun id r hrow d hd => ?_, fun d hd => deadLetters_created _ hd,
    fun a c' t th hs ht hth ho id r hrow => events_kept h hs ht hth ho hrow⟩
  · have hid := Table.key_of_get? hrow
    have hr := hbooks.audited id r hrow
    split_ifs with hs
    · obtain ⟨d, hd, -⟩ := hr.entry hs
      rw [← hid, hd]
      rfl
    · rw [← hid, hr.entries hs]
      rfl
  · have hid := Table.key_of_get? hrow
    have hr := hbooks.audited id r hrow
    have htotal := h.totals id r hrow d hd
    have hs : r.status = .deadLettered := by
      by_contra hs
      rw [← hid, hr.entries hs] at hd
      cases hd
    obtain ⟨d', hd', hendpoint, htype, hpayload⟩ := hr.entry hs
    rw [← hid, hd', List.mem_singleton] at hd
    subst hd
    refine ⟨hendpoint, htype, hpayload, htotal, ?_⟩
    have hlen := congrArg List.length hr.numbers
    rw [List.length_map, List.length_range'] at hlen
    rw [htotal, ← hlen, ← hid]
    rfl

/-- An event that is dead-lettered after its only attempt, a replay of its entry, and a discard. -/
theorem dead_letters_conserved_replayed : ∃ c, Reaches Sample.deps NoOverlap c ∧
    (c.world.db.events.get? (Sample.id 2)).map WebhookEvent.status = some .deadLettered ∧
    (c.world.db.events.get? (Sample.id 4)).map WebhookEvent.status = some .pending ∧
    (deadLettersOf c.world.wal (Sample.id 2)).length = 1 ∧
    c.world.db.deadLetters.rows.length = 0 ∧ DeadLettersConserved Sample.deps c := by
  have hrun : (runActs (step Sample.deps) (fun c a => decide (NoOverlap c a))
      (initial Sample.start) (Sample.setup Sample.shop Sample.order ++
        Sample.job 2 16 (Sample.oracle 3 (Sample.response 500 [])) ++
        Sample.request 3 9 (.replay (Sample.id 3) false) (Sample.oracle 4 .cancelled) ++
        Sample.request 4 2 (.discard (Sample.id 3)) (Sample.oracle 5 .cancelled))).any (fun c =>
      decide ((c.world.db.events.get? (Sample.id 2)).map WebhookEvent.status =
          some .deadLettered ∧
        (c.world.db.events.get? (Sample.id 4)).map WebhookEvent.status = some .pending ∧
        (deadLettersOf c.world.wal (Sample.id 2)).length = 1 ∧
        c.world.db.deadLetters.rows.length = 0)) = true := by
    decide +kernel
  obtain ⟨c, hc, hfacts⟩ := exists_run NoOverlap (fun _ _ => of_decide_eq_true) hrun
  obtain ⟨hdead, hpending, hcount, hrows⟩ := of_decide_eq_true hfacts
  have hreach : Reaches Sample.deps NoOverlap c := ⟨Sample.start, hc⟩
  exact ⟨c, hreach, hdead, hpending, hcount, hrows, dead_letters_conserved hreach⟩

end WebhookRelay

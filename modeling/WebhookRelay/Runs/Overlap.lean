import WebhookRelay.Sample
import WebhookRelay.Runs.Audit

/-!
# Overlapping runs of `deliver`

arq promises to run a job at least once, so two runs for one event may overlap. The guard on a
terminal status reads the row without a lock, before the POST, and the commit writes what was
computed from that read. While every commit is fresh, nothing goes wrong (`safe_of_fresh`). A
commit that is not fresh can overwrite a terminal status and log an attempt number twice
(`not_safe_of_overlap`).
-/

namespace WebhookRelay

open Data Effect

variable {deps : Deps} {c c' : Config} {a : Action}

/-- What overlapping runs must not break, from a state to a later one. -/
structure Safe (c c' : Config) : Prop where
  /-- A terminal status that has been committed is never overwritten. -/
  terminal : ∀ id r, c.world.db.events.get? id = some r → r.status.terminal = true →
    ∃ r', c'.world.db.events.get? id = some r' ∧ r'.status = r.status
  /-- At most one dead letter entry is ever created for an event. -/
  entries : ∀ id, (deadLettersOf c'.world.wal id).length ≤ 1
  /-- The counter is the number of attempts. -/
  counter : ∀ id r, c'.world.db.events.get? id = some r →
    r.attemptCount = (c'.world.db.attemptsOf id).length
  /-- No attempt number occurs twice. -/
  numbers : ∀ id, ((c'.world.db.attemptsOf id).map DeliveryAttempt.attemptNumber).Nodup

/-- A step whose commit is fresh keeps a terminal status. -/
theorem terminal_kept (hr : Reaches deps Fresh c) (ha : Fresh c a) (hs : step deps c a = some c')
    {id : UUID} {r : WebhookEvent} (hrow : c.world.db.events.get? id = some r)
    (hterm : r.status.terminal = true) :
    ∃ r', c'.world.db.events.get? id = some r' ∧ r'.status = r.status := by
  cases hr.commits hs with
  | nothing hw => exact ⟨r, by rw [World.db, hw]; exact hrow, rfl⟩
  | benign ws hws hw =>
    rcases benign_events_get? hws c.world.db id with hsame | ⟨hnone, -⟩
    · exact ⟨r, by rw [World.db_of_wal hw, hsame, hrow], rfl⟩
    · rw [hrow] at hnone
      cases hnone
  | exit t ev ep x htaken hcom hopen hx hw =>
    rw [World.db_of_wal hw, x.events_get?, hrow]
    split_ifs with hid
    · subst hid
      refine ⟨_, rfl, ?_⟩
      rw [x.update_status r hopen]
      split_ifs with hkept
      · rfl
      · -- an exit that sets the status of a terminal row is not fresh
        have hfresh := (ha t htaken _ hcom r hrow).1 (x.setsStatus ep hopen hkept)
        rw [hterm] at hfresh
        cases hfresh
    · exact ⟨r, rfl, rfl⟩

/-- **While every commit is fresh, overlapping runs break nothing.** -/
theorem safe_of_fresh (hc : Reaches deps Fresh c) (hr : Runs (step deps) Fresh c c') :
    Safe c c' := by
  have hreach {s : Config} (hs : Runs (step deps) Fresh c s) : Reaches deps Fresh s := by
    obtain ⟨now, h⟩ := hc
    exact ⟨now, h.trans hs⟩
  have hbooks := (hreach hr).books
  refine ⟨fun id r hrow hterm => ?_, fun id => ?_, fun id r hrow => ?_, fun id => ?_⟩
  · refine hr.invariant
      (J := fun s => ∃ r', s.world.db.events.get? id = some r' ∧ r'.status = r.status)
      ⟨r, hrow, rfl⟩ fun s a s' hs hinv ha hstep => ?_
    obtain ⟨r', hrow', hstatus⟩ := hinv
    obtain ⟨r'', hrow'', hstatus'⟩ := terminal_kept (hreach hs) ha hstep hrow' (hstatus ▸ hterm)
    exact ⟨r'', hrow'', hstatus'.trans hstatus⟩
  · cases hrow : c'.world.db.events.get? id with
    | none =>
      rw [(hbooks.absent id hrow).2]
      exact Nat.zero_le 1
    | some r =>
      obtain rfl := Table.key_of_get? hrow
      have hr := hbooks.audited _ r hrow
      by_cases hdead : r.status = .deadLettered
      · obtain ⟨d, hd, -⟩ := hr.entry hdead
        rw [hd]
        exact le_rfl
      · rw [hr.entries hdead]
        exact Nat.zero_le 1
  · obtain rfl := Table.key_of_get? hrow
    have hlen := congrArg List.length (hbooks.audited _ r hrow).numbers
    rw [List.length_map, List.length_range'] at hlen
    exact hlen.symm
  · cases hrow : c'.world.db.events.get? id with
    | none =>
      rw [(hbooks.absent id hrow).1]
      exact List.nodup_nil
    | some r =>
      obtain rfl := Table.key_of_get? hrow
      have hnumbers := (hbooks.audited _ r hrow).numbers
      rw [World.db, hnumbers]
      exact List.nodup_range'

/-- Two runs of one event of which the second one reads the row after the first one has
committed. -/
theorem safe_of_fresh_late_read : ∃ c c', Reaches Sample.deps Fresh c ∧
    Runs (step Sample.deps) Fresh c c' ∧
    (c.world.db.events.get? (Sample.id 2)).map WebhookEvent.status = some .delivered ∧
    c'.threads.map (fun th => th.prog.ended) = [true, true, true, true] ∧ Safe c c' := by
  let overlapping := Sample.setup Sample.retrying Sample.order ++
    [.startJob (Sample.id 2), .startJob (Sample.id 2)] ++
    Sample.calls 2 14 (Sample.oracle 3 (Sample.response 200 []))
  let late := Sample.calls 3 1 (Sample.oracle 4 (Sample.response 500 []))
  have hrun : ((runActs (step Sample.deps) (fun c a => decide (Fresh c a))
      (initial Sample.start) overlapping).any fun c =>
        decide ((c.world.db.events.get? (Sample.id 2)).map WebhookEvent.status =
          some .delivered) &&
        (runActs (step Sample.deps) (fun c a => decide (Fresh c a)) c late).any fun c' =>
          decide (c'.threads.map (fun th => th.prog.ended) = [true, true, true, true])) = true := by
    decide +kernel
  obtain ⟨c, hc, hrest⟩ := exists_run Fresh (fun _ _ => of_decide_eq_true) hrun
  obtain ⟨hdelivered, hlate⟩ := Bool.and_eq_true_iff.mp hrest
  obtain ⟨c', hc', hended⟩ := exists_run Fresh (fun _ _ => of_decide_eq_true) hlate
  have hreach : Reaches Sample.deps Fresh c := ⟨Sample.start, hc⟩
  exact ⟨c, c', hreach, hc', of_decide_eq_true hdelivered, of_decide_eq_true hended,
    safe_of_fresh hreach hc'⟩

/-- Two runs of one event that both read the row before either of them commits: the first one
delivers the event, the second one logs the same attempt number and makes it `failed` again. -/
theorem not_safe_of_overlap : ∃ c c', Reaches Sample.deps anyStep c ∧
    Runs (step Sample.deps) anyStep c c' ∧
    (c.world.db.events.get? (Sample.id 2)).map WebhookEvent.status = some .delivered ∧
    (c'.world.db.events.get? (Sample.id 2)).map (fun r => (r.status, r.attemptCount)) =
      some (.failed, 1) ∧
    (c'.world.db.attemptsOf (Sample.id 2)).map DeliveryAttempt.attemptNumber = [1, 1] ∧
    ¬ Safe c c' := by
  let before := Sample.setup Sample.retrying Sample.order ++
    [.startJob (Sample.id 2), .startJob (Sample.id 2)] ++
    Sample.calls 3 1 (Sample.oracle 4 (Sample.response 500 [])) ++
    Sample.calls 2 14 (Sample.oracle 3 (Sample.response 200 []))
  let after := Sample.calls 3 14 (Sample.oracle 4 (Sample.response 500 []))
  have hrun : ((runActs (step Sample.deps) (fun _ _ => true) (initial Sample.start) before).any
      fun c => decide ((c.world.db.events.get? (Sample.id 2)).map WebhookEvent.status =
          some .delivered) &&
        (runActs (step Sample.deps) (fun _ _ => true) c after).any fun c' =>
          decide ((c'.world.db.events.get? (Sample.id 2)).map
              (fun r => (r.status, r.attemptCount)) = some (.failed, 1) ∧
            (c'.world.db.attemptsOf (Sample.id 2)).map DeliveryAttempt.attemptNumber =
              [1, 1])) = true := by
    decide +kernel
  obtain ⟨c, hc, hrest⟩ := exists_run anyStep (fun _ _ _ => trivial) hrun
  obtain ⟨hdelivered, hafter⟩ := Bool.and_eq_true_iff.mp hrest
  obtain ⟨c', hc', hfacts⟩ := exists_run anyStep (fun _ _ _ => trivial) hafter
  obtain ⟨hfailed, hnumbers⟩ := of_decide_eq_true hfacts
  refine ⟨c, c', ⟨Sample.start, hc⟩, hc', of_decide_eq_true hdelivered, hfailed, hnumbers, ?_⟩
  intro hsafe
  have := hsafe.numbers (Sample.id 2)
  rw [hnumbers] at this
  exact absurd this (by decide)

end WebhookRelay

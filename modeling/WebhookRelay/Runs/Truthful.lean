import WebhookRelay.Runs.Audit
import WebhookRelay.Runs.Posts

/-!
# What the row of an event says is true

Runs of one event can overlap, and then a status can be overwritten and an attempt can be missing
from the count (`Runs/Overlap.lean`). What is left of the books in every reachable state, without a
condition on the steps, is given by `Borne`:

* `delivered_at` is set if and only if the attempt log has a success;
* an event that is delivered has `delivered_at`, and one that is dead-lettered has had an entry of
  its content in the dead letter queue;
* `attempt_count` is at most the number of attempts in the log.

Since the log is truthful itself, an event with `delivered_at` has been sent to a receiver that
answered with success (`rows_truthful`).
-/

namespace WebhookRelay

open Data Effect

/-! ### What the log bears out -/

/-- The log of committed writes bears out what the row says. -/
structure Borne (wal : List Write) (r : WebhookEvent) : Prop where
  success : r.deliveredAt.isSome = true ↔
    ∃ a ∈ (Db.empty.applyAll wal).attemptsOf r.id, a.success = true
  delivered : r.status = .delivered → r.deliveredAt.isSome = true
  entry : r.status = .deadLettered → ∃ d ∈ deadLettersOf wal r.id, d.endpointId = r.endpointId ∧
    d.eventType = r.eventType ∧ d.originalPayload = r.payload
  count : r.attemptCount ≤ ((Db.empty.applyAll wal).attemptsOf r.id).length

section rows

variable {wal wal' : List Write} {ev r : WebhookEvent} {ep : WebhookEndpoint} {x : Exit}

/-- Nothing is said of a new row. -/
theorem WebhookEvent.IsNew.borne (h : r.IsNew)
    (hlog : (Db.empty.applyAll wal).attemptsOf r.id = []) : Borne wal r := by
  have hstatus := h.status
  refine ⟨?_, fun hs => ?_, fun hs => ?_, ?_⟩
  · rw [h.deliveredAt, hlog]
    simp
  · rw [hstatus] at hs
    cases hs
  · rw [hstatus] at hs
    cases hs
  · rw [h.attemptCount]
    exact Nat.zero_le _

/-- The log goes on without the event. -/
theorem Borne.of_eq (h : Borne wal r)
    (hlog : (Db.empty.applyAll wal').attemptsOf r.id = (Db.empty.applyAll wal).attemptsOf r.id)
    (hentries : deadLettersOf wal' r.id = deadLettersOf wal r.id) : Borne wal' r := by
  refine ⟨?_, h.delivered, ?_, ?_⟩
  · rw [hlog]
    exact h.success
  · rw [hentries]
    exact h.entry
  · rw [hlog]
    exact h.count

/-- A valid exit of a run that has read an earlier version of the row, whatever was committed in
between. -/
structure Exit.OnRow (x : Exit) (wal : List Write) (ev r : WebhookEvent) (ep : WebhookEndpoint) :
    Prop where
  borne : Borne wal r
  later : ev.Later r
  isOpen : ev.status.terminal = false
  valid : x.Valid ev ep
  endpointId : ep.id = ev.endpointId
  count : ev.attemptCount ≤ ((Db.empty.applyAll wal).attemptsOf ev.id).length
  missing : ∀ a, x.attempt? = some a → (Db.empty.applyAll wal).attempts.get? a.id = none

namespace Exit.OnRow

/-- The attempt log after the exit. -/
theorem attemptsOf (h : x.OnRow wal ev r ep) :
    (Db.empty.applyAll (wal ++ x.writes ev ep)).attemptsOf (x.update ev r).id =
      (Db.empty.applyAll wal).attemptsOf r.id ++ x.attempt?.toList := by
  rw [x.update_id, Db.applyAll_append, attemptsOf_exit h.valid h.missing, if_pos h.later.id]

/-- The entries after the exit. -/
theorem entriesOf (h : x.OnRow wal ev r ep) :
    deadLettersOf (wal ++ x.writes ev ep) (x.update ev r).id =
      deadLettersOf wal r.id ++ x.deadLetter?.toList := by
  rw [x.update_id, deadLettersOf_exit h.valid, if_pos h.later.id]

/-- An exit that delivers leaves a time of delivery; any other one leaves it as it is. -/
theorem deliveredAt (h : x.OnRow wal ev r ep) : (x.update ev r).deliveredAt.isSome = true ↔
    r.deliveredAt.isSome = true ∨ x.status = .delivered := by
  cases x with
  | delivered a t =>
    refine iff_of_true ?_ (Or.inr rfl)
    rw [Exit.update_deliveredAt]
    dsimp only
    split_ifs with he
    · exact h.later.deliveredAt (by rw [he]; rfl)
    · rfl
  | _ =>
    rw [Exit.update_deliveredAt]
    simp [Exit.status]

/-- The log has a success if it had one, or if the exit delivers. -/
theorem success (h : x.OnRow wal ev r ep) : (x.update ev r).deliveredAt.isSome = true ↔
    ∃ a ∈ (Db.empty.applyAll wal).attemptsOf r.id ++ x.attempt?.toList, a.success = true := by
  have hnew : (∃ a ∈ x.attempt?.toList, a.success = true) ↔ x.status = .delivered := by
    cases ha : x.attempt? with
    | none =>
      have hne : x.status ≠ .delivered := by
        intro hs
        cases x <;> simp [Exit.attempt?, Exit.status] at ha hs
      simp [hne]
    | some a => simpa using h.valid.success_iff ha
  rw [h.deliveredAt, h.borne.success, ← hnew]
  simp only [List.mem_append, or_and_right, exists_or]

/-- What delivers the event has left a time of delivery. -/
theorem delivered (h : x.OnRow wal ev r ep) (hs : (x.update ev r).status = .delivered) :
    (x.update ev r).deliveredAt.isSome = true := by
  rw [x.update_status r h.isOpen] at hs
  refine h.deliveredAt.mpr ?_
  split_ifs at hs
  · exact Or.inl (h.borne.delivered hs)
  · exact Or.inr hs

/-- What dead-letters the event has made an entry. -/
theorem entry (h : x.OnRow wal ev r ep) (hs : (x.update ev r).status = .deadLettered) :
    ∃ d ∈ deadLettersOf wal r.id ++ x.deadLetter?.toList, d.endpointId = r.endpointId ∧
      d.eventType = r.eventType ∧ d.originalPayload = r.payload := by
  rw [x.update_status r h.isOpen] at hs
  split_ifs at hs
  · obtain ⟨d, hd, hcontent⟩ := h.borne.entry hs
    exact ⟨d, List.mem_append_left _ hd, hcontent⟩
  · obtain ⟨d, hd⟩ := Option.isSome_iff_exists.mp (x.status_eq_deadLettered_iff.mp hs)
    have hrec := h.valid.records hd
    refine ⟨d, List.mem_append_right _ (by simp [hd]), ?_, ?_, ?_⟩
    · rw [hrec.endpointId, h.later.endpointId, h.endpointId]
    · rw [hrec.eventType, h.later.eventType]
    · rw [hrec.payload, h.later.payload]

/-- An exit that counts an attempt has logged it. -/
theorem attemptCount (h : x.OnRow wal ev r ep) : (x.update ev r).attemptCount ≤
    ((Db.empty.applyAll wal).attemptsOf r.id ++ x.attempt?.toList).length := by
  rw [x.update_attemptCount ev r, List.length_append]
  have hcount := h.count
  rw [← h.later.id] at hcount
  have hold := h.borne.count
  cases x.attempt? with
  | none => simpa using hold
  | some a => simpa using hcount

/-- **Every exit is borne out by what it writes.** -/
theorem keeps (h : x.OnRow wal ev r ep) : Borne (wal ++ x.writes ev ep) (x.update ev r) where
  success := by
    rw [h.attemptsOf]
    exact h.success
  delivered := h.delivered
  entry := by
    rw [h.entriesOf, x.update_endpointId, x.update_eventType, x.update_payload]
    exact h.entry
  count := by
    rw [h.attemptsOf]
    exact h.attemptCount

end Exit.OnRow

end rows

/-! ### In every reachable state -/

/-- The log bears out the rows, and the counters that the runs have read. -/
structure BorneOut (c : Config) : Prop where
  rows : ∀ id r, c.world.db.events.get? id = some r → Borne c.world.wal r
  absent : ∀ id, c.world.db.events.get? id = none → c.world.db.attemptsOf id = []
  counts : ∀ th ∈ c.threads, ∀ ev ep ws, Coroutine.Runs th ev ep ws →
    ev.attemptCount ≤ (c.world.db.attemptsOf ev.id).length

variable {deps : Deps} {ok : Config → Action → Prop} {c c' : Config} {a : Action}

/-- The rows and the logs after a benign commit. -/
theorem BorneOut.benign (h : BorneOut c) {ws : List Write} (hws : ∀ w ∈ ws, w.Benign)
    (hw : c'.world.wal = c.world.wal ++ ws) :
    (∀ id r, c'.world.db.events.get? id = some r → Borne c'.world.wal r) ∧
      (∀ id, c'.world.db.events.get? id = none → c'.world.db.attemptsOf id = []) ∧
      ∀ id, c.world.db.attemptsOf id <+: c'.world.db.attemptsOf id := by
  have hdb := World.db_of_wal hw
  have hlog (id : UUID) : c'.world.db.attemptsOf id = c.world.db.attemptsOf id := by
    rw [hdb, Db.attemptsOf, attempts_benign hws, Db.attemptsOf]
  have hentries (id : UUID) : deadLettersOf c'.world.wal id = deadLettersOf c.world.wal id := by
    rw [hw, deadLettersOf_append, deadLettersOf_benign hws, List.append_nil]
  refine ⟨fun id r hrow => ?_, fun id hrow => ?_, fun id => hlog id ▸ List.prefix_rfl⟩
  · have hid := Table.key_of_get? hrow
    rw [hdb] at hrow
    rcases benign_events_get? hws c.world.db id with hsame | ⟨hnone, r', hr', hnew⟩
    · rw [hsame] at hrow
      exact (h.rows id r hrow).of_eq (hlog _) (hentries _)
    · obtain rfl : r' = r := Option.some.inj (hr'.symm.trans hrow)
      subst hid
      exact hnew.borne ((hlog _).trans (h.absent _ hnone))
  · rw [hdb] at hrow
    rw [hlog]
    rcases benign_events_get? hws c.world.db id with hsame | ⟨-, r', hr', -⟩
    · exact h.absent id (hsame ▸ hrow)
    · rw [hr'] at hrow
      cases hrow

/-- The rows and the logs after an exit. -/
theorem BorneOut.exit (h : BorneOut c) {ev r₀ : WebhookEvent} {ep : WebhookEndpoint} {x : Exit}
    (hr₀ : c.world.db.events.get? ev.id = some r₀) (hx : x.OnRow c.world.wal ev r₀ ep)
    (hw : c'.world.wal = c.world.wal ++ x.writes ev ep) :
    (∀ id r, c'.world.db.events.get? id = some r → Borne c'.world.wal r) ∧
      (∀ id, c'.world.db.events.get? id = none → c'.world.db.attemptsOf id = []) ∧
      ∀ id, c.world.db.attemptsOf id <+: c'.world.db.attemptsOf id := by
  have hdb := World.db_of_wal hw
  have hlog (id : UUID) : c'.world.db.attemptsOf id = c.world.db.attemptsOf id ++
      if id = ev.id then x.attempt?.toList else [] := by
    rw [hdb]
    exact attemptsOf_exit hx.valid hx.missing id
  have hentries (id : UUID) (hid : id ≠ ev.id) :
      deadLettersOf c'.world.wal id = deadLettersOf c.world.wal id := by
    rw [hw, deadLettersOf_exit hx.valid, if_neg hid, List.append_nil]
  have hrows (id : UUID) : c'.world.db.events.get? id =
      if id = ev.id then (c.world.db.events.get? id).map (x.update ev)
      else c.world.db.events.get? id := by
    rw [hdb, x.events_get?]
  refine ⟨fun id r hrow => ?_, fun id hrow => ?_, fun id => hlog id ▸ List.prefix_append _ _⟩
  · rw [hrows] at hrow
    split_ifs at hrow with hid
    · subst hid
      rw [hr₀] at hrow
      obtain rfl := Option.some.inj hrow
      rw [hw]
      exact hx.keeps
    · obtain rfl := Table.key_of_get? hrow
      refine (h.rows _ r hrow).of_eq ?_ (hentries _ hid)
      have hsame := hlog r.id
      rwa [if_neg hid, List.append_nil] at hsame
  · rw [hrows] at hrow
    split_ifs at hrow with hid
    · subst hid
      rw [hr₀] at hrow
      cases hrow
    · rw [hlog, if_neg hid, List.append_nil]
      exact h.absent id hrow

/-- The rows and the logs after a step. -/
theorem BorneOut.commits (h : BorneOut c) (hr : Reaches deps ok c) (hc : Commits c c' a) :
    (∀ id r, c'.world.db.events.get? id = some r → Borne c'.world.wal r) ∧
      (∀ id, c'.world.db.events.get? id = none → c'.world.db.attemptsOf id = []) ∧
      ∀ id, c.world.db.attemptsOf id <+: c'.world.db.attemptsOf id := by
  cases hc with
  | nothing hw =>
    have hdb : c'.world.db = c.world.db := by rw [World.db, hw, World.db]
    rw [hdb, hw]
    exact ⟨h.rows, h.absent, fun _ => List.prefix_rfl⟩
  | benign ws hws hw => exact h.benign hws hw
  | exit t ev ep x ha hcom hterm hx hw =>
    have hsnap := hr.sound.committing hcom
    obtain ⟨r₀, hr₀, hlater⟩ := hsnap.row
    obtain ⟨th, id, k, hth, ho, hp, hph⟩ := committing?_eq_some.mp hcom
    refine h.exit hr₀ ⟨h.rows _ r₀ hr₀, hlater, hterm, hx, hsnap.endpointId, ?_, fun row hrow =>
      hr.committing_missing hcom (x.mem_writes_attempt ep hrow)⟩ hw
    exact h.counts th (List.mem_of_getElem? hth) ev ep _ ⟨by rw [ho]; rfl, by rw [hp]; rfl, hph⟩

/-- **In every reachable state the log bears out the rows.** -/
theorem Reaches.borneOut (h : Reaches deps ok c) : BorneOut c := by
  refine h.invariant (fun _ => ⟨fun _ _ hr => (nomatch hr), fun _ _ => rfl,
    fun _ hth => nomatch hth⟩) fun c a c' hr hc _ hs => ?_
  obtain ⟨hrows, habsent, hgrow⟩ := hc.commits hr (hr.commits hs)
  refine ⟨hrows, habsent, ?_⟩
  refine (stepped hs).forall_threads hc.counts
    (fun _ _ _ _ h ev ep ws hruns => (h ev ep ws hruns).trans (hgrow _).length_le) ?_ ?_ ?_ ?_
  · rintro o w - ev ep ws ⟨-, -, hph⟩
    cases hph
  · rintro t th e k r w s hth hp ha - hcounts ev ep ws hruns
    have hm : th ∈ c.threads := List.mem_of_getElem? hth
    refine le_trans ?_ (hgrow ev.id).length_le
    rcases (runs_answered (hr.lawful th hm) (fun _ => hr.follows_deliver hm) hp ha hruns).2 with
      ⟨ws', h⟩ | ⟨id, -, hread⟩
    · exact hcounts ev ep ws' h
    · exact (hc.rows id ev (id_of_read hread).1).count
  · rintro th - - ev ep ws ⟨-, hend, -⟩
    cases hend
  · rintro th - - id ho hend - ev ep ws ⟨-, hlive, -⟩
    exact Bool.noConfusion (hend.symm.trans hlive)

/-! ### Receivers -/

/-- A row that a coroutine has read is there in a later version. -/
theorem Reaches.row_later (h : Reaches deps ok c) : ∀ th ∈ c.threads, ∀ id ev ep,
    readCall id ev ep ∈ th.trace → ∃ r, c.world.db.events.get? id = some r ∧ ev.Later r := by
  refine h.invariant (J := fun c => ∀ th ∈ c.threads, ∀ id ev ep, readCall id ev ep ∈ th.trace →
    ∃ r, c.world.db.events.get? id = some r ∧ ev.Later r) (fun _ _ hth => nomatch hth)
    fun c a c' hr hc _ hs th' hth' id ev ep hmem => ?_
  have hmoves := ((hr.commits hs).events hr.sound).1
  obtain ⟨t, hth'⟩ := List.mem_iff_getElem?.mp hth'
  rcases (stepped hs).mem_trace hth' hmem with ⟨th, hth, hmem⟩ | ⟨th, k, s, hth, hp, ha⟩
  · obtain ⟨r, hrow, hlater⟩ := hc th (List.mem_of_getElem? hth) id ev ep hmem
    obtain ⟨r', hrow', hlater'⟩ := hmoves id r hrow
    exact ⟨r', hrow', hlater.trans hlater'⟩
  · exact hmoves id ev (hr.row_loaded (List.mem_of_getElem? hth) hp ha).1

/-- A receiver has got a POST with this body from a coroutine that delivers the event, and has
answered with success. -/
def Acknowledged (c : Config) (id : UUID) (body : List UInt8) : Prop :=
  ∃ (t : ℕ) (th : Coroutine) (req : HttpRequest) (resp : HttpResponse),
    c.threads[t]? = some th ∧ th.origin.delivers = some id ∧
    postCall req (.ok resp) ∈ th.trace ∧ req.content = body ∧ isSuccess resp.statusCode = true ∧
      req ∈ c.world.posts

/-- A POST that is reported as a success was answered with one. -/
theorem Reaches.acknowledged (h : Reaches deps ok c) {row : DeliveryAttempt}
    (hrow : row ∈ c.world.db.attempts.rows) (hs : row.success = true) {r : WebhookEvent}
    (hr : c.world.db.events.get? row.eventId = some r) :
    Acknowledged c row.eventId (DeliveryService.requestBody r) := by
  obtain ⟨t, th, id, ev, ep, req, answer, r', rest, hth, ho, htrace, -, hauth, hreports⟩ :=
    h.exists_logged hrow
  have hmem {x : Call relay PyExn} (hx : x ∈ [readCall id ev ep, postCall req answer]) :
      x ∈ th.trace := by
    refine (mem_told ?_).mp ?_
    · rcases List.mem_pair.mp hx with rfl | rfl <;> rfl
    · rw [htrace]
      rcases List.mem_pair.mp hx with rfl | rfl <;> simp
  obtain ⟨r₀, hr₀, hlater⟩ := h.row_later th (List.mem_of_getElem? hth) id ev ep (hmem (by simp))
  have hid : row.eventId = id := by
    rw [hreports.eventId, ← hlater.id, Table.key_of_get? hr₀]
  rw [hid] at hr ⊢
  rw [hr] at hr₀
  obtain rfl := Option.some.inj hr₀
  -- the outcome that is reported is a success, so that it is an answer
  obtain ⟨p, hp, -, -, -, -, hsuccess⟩ := hreports.outcome
  rw [hs] at hsuccess
  have hstatus := PostResult.success_of_ofAnswer hp
  rw [← hsuccess] at hstatus
  cases answer with
  | error x =>
    cases x <;> cases hp <;> cases hstatus
  | ok resp =>
    obtain ⟨text, -, rfl⟩ := PostResult.ofAnswer_ok hp
    refine ⟨t, th, req, resp, hth, ho, hmem (by simp), ?_, hstatus.symm, ?_⟩
    · rw [hauth.request.content]
      unfold DeliveryService.requestBody
      rw [hlater.payload]
    · -- a POST with an answer has gone out
      obtain ⟨senders, hledger⟩ := h.postLedger
      have hsender := hledger.concluded t th req (.ok resp) hth (hmem (by simp)) rfl
      obtain ⟨i, hi, rfl⟩ := List.mem_iff_getElem.mp hsender
      have hlt : i < c.world.posts.length := hledger.posts.length_eq ▸ hi
      obtain ⟨th', r'', hth', hmem'⟩ := hledger.posts.get hi hlt
      rw [List.get_eq_getElem] at hth'
      rw [hth] at hth'
      cases hth'
      obtain ⟨id', ev', ep', rest', -, -, htrace'⟩ := h.posting (List.mem_of_getElem? hth) hmem'
      rw [htrace] at htrace'
      cases htrace'
      exact List.get_mem _ _

/-- **What the row of an event says is true.** In every reachable state, whatever was interleaved
and whatever failed: `delivered_at` is set if and only if the attempt log has a success for the
event, and then a receiver has answered a POST with its payload with success; an event that is
delivered has `delivered_at`; one that is dead-lettered has had an entry of its content; and no more
attempts are counted than are in the log. -/
theorem rows_truthful (h : Reaches deps ok c) {id : UUID} {r : WebhookEvent}
    (hr : c.world.db.events.get? id = some r) :
    (r.deliveredAt.isSome = true ↔ ∃ a ∈ c.world.db.attemptsOf id, a.success = true) ∧
      (r.deliveredAt.isSome = true → Acknowledged c id (DeliveryService.requestBody r)) ∧
      (r.status = .delivered → r.deliveredAt.isSome = true) ∧
      (r.status = .deadLettered → ∃ d ∈ deadLettersOf c.world.wal id,
        d.endpointId = r.endpointId ∧ d.eventType = r.eventType ∧ d.originalPayload = r.payload) ∧
      r.attemptCount ≤ (c.world.db.attemptsOf id).length := by
  have hid := Table.key_of_get? hr
  have hborne := h.borneOut.rows id r hr
  subst hid
  refine ⟨hborne.success, fun hd => ?_, hborne.delivered, hborne.entry, hborne.count⟩
  obtain ⟨row, hrow, hs⟩ := hborne.success.mp hd
  obtain ⟨hrow, hevent⟩ := List.mem_filter.mp hrow
  have hevent := of_decide_eq_true hevent
  rw [← hevent]
  exact h.acknowledged hrow hs (hevent ▸ hr)

/-- The two overlapping runs of which the second one has made a delivered event `failed` again: its
row says `failed`, and a receiver has answered with success. -/
theorem rows_truthful_overlap : ∃ (c : Config) (r : WebhookEvent), Reaches Sample.deps anyStep c ∧
    c.world.db.events.get? (Sample.id 2) = some r ∧ r.status = .failed ∧
    Acknowledged c (Sample.id 2) (DeliveryService.requestBody r) := by
  let acts := Sample.setup Sample.retrying Sample.order ++
    [.startJob (Sample.id 2), .startJob (Sample.id 2)] ++
    Sample.calls 3 1 (Sample.oracle 4 (Sample.response 500 [])) ++
    Sample.calls 2 14 (Sample.oracle 3 (Sample.response 200 [])) ++
    Sample.calls 3 14 (Sample.oracle 4 (Sample.response 500 []))
  have hrun : ((runActs (step Sample.deps) (fun _ _ => true) (initial Sample.start) acts).any
      fun c => (c.world.db.events.get? (Sample.id 2)).any fun r =>
        decide (r.status = .failed ∧ r.deliveredAt.isSome = true)) = true := by
    decide +kernel
  obtain ⟨c, hc, hrow⟩ := exists_run anyStep (fun _ _ _ => trivial) hrun
  obtain ⟨r, hr, hfacts⟩ := (Option.any_eq_true _ _).mp hrow
  obtain ⟨hfailed, hdelivered⟩ := of_decide_eq_true hfacts
  have hreach : Reaches Sample.deps anyStep c := ⟨Sample.start, hc⟩
  exact ⟨c, r, hreach, hr, hfailed, (rows_truthful hreach hr).2.1 hdelivered⟩

end WebhookRelay

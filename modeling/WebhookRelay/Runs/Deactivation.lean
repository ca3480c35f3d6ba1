import WebhookRelay.Runs.Audit
import WebhookRelay.Runs.GoneEndpoint
import WebhookRelay.Runs.Posts

/-!
# What bans an endpoint

Two of the commits that ban an endpoint (`Deactivates`) are known by the coroutine that makes them,
whatever else is interleaved: that of a run of `deliver` whose POST was answered with 410
(`deactivates_of_gone`), and that of a DELETE (`deactivates_of_delete`).
-/

namespace WebhookRelay

open Data Effect

variable {deps : Deps} {ok : Config → Action → Prop} {b b' c : Config} {a : Action} {id : UUID}
  {t : ℕ} {th : Coroutine}

/-- A commit whose last word is false bans the endpoint, if it is there. -/
theorem deactivates_of_commit (hs : step deps b a = some b') (hth : b.threads[t]? = some th)
    {k : Except PyExn Unit → Relay Reply} (hp : th.prog = .call .commit k) (ha : a.taken = some t)
    (hthere : b.world.db.holds (.endpoint id) = true)
    (hlast : (th.session.pending.filterMap (Write.activity id)).getLast? = some false) :
    Deactivates b b' id := by
  refine ⟨hthere, ?_⟩
  rw [wal_transaction hs, List.drop_left, transaction_of_commit hth hp ha]
  exact hlast

/-! ### A run answered with 410 -/

/-- What a transaction of `deliver` sets `is_active` of its endpoint to. -/
theorem Exit.activity_writes (x : Exit) (ev : WebhookEvent) (ep : WebhookEndpoint) :
    (x.writes ev ep).filterMap (Write.activity ep.id) =
      if x.deactivates = true then [false] else [] := by
  have hflush (old new : WebhookEvent) :
      (flush old new).filterMap (Write.activity ep.id) = [] := by
    unfold flush
    split_ifs <;> rfl
  have hgone (row : DeliveryAttempt) : (goneWrites ep row).filterMap (Write.activity ep.id) =
      if row.httpStatusCode = some 410 then [false] else [] := by
    unfold goneWrites
    split_ifs
    · simp [Write.activity]
    · rfl
  have hattempt (row : DeliveryAttempt) : (Write.insertAttempt row).activity ep.id = none := rfl
  have hentry (d : DeadLetterEvent) : (Write.insertDeadLetter d).activity ep.id = none := rfl
  cases x <;>
    simp only [writes, deactivates, List.filterMap_append, List.filterMap_cons_none, hflush, hgone,
      hattempt, hentry, List.filterMap_nil, List.nil_append, List.append_nil, decide_eq_true_eq,
      Bool.false_eq_true, if_false]

/-- The attempt that a transaction of `deliver` inserts is the one of its exit. -/
theorem Exit.attempt_of_mem_writes {x : Exit} {ev : WebhookEvent} {ep : WebhookEndpoint}
    {row : DeliveryAttempt} (h : Write.insertAttempt row ∈ x.writes ev ep) :
    x.attempt? = some row := by
  have hflush (old new : WebhookEvent) : Write.insertAttempt row ∉ flush old new := by
    unfold flush
    split_ifs <;> simp
  have hgone (row' : DeliveryAttempt) : Write.insertAttempt row ∉ goneWrites ep row' := by
    unfold goneWrites
    split_ifs <;> simp
  cases x <;> simp [writes, hflush, hgone] at h <;> exact congrArg some h.symm

/-- A valid exit whose attempt was answered with 410 deactivates the endpoint: it is no success,
and no retry follows it. -/
theorem Exit.Valid.deactivates_of_gone {x : Exit} {ev : WebhookEvent} {ep : WebhookEndpoint}
    (hx : x.Valid ev ep) {row : DeliveryAttempt} (hrow : x.attempt? = some row)
    (hcode : row.httpStatusCode = some 410) : x.deactivates = true := by
  cases x with
  | inactive | refused => cases hrow
  | delivered row' t =>
    cases hrow
    obtain ⟨n, hn, hsuccess⟩ := (hx.1.success).mp hx.2
    rw [hcode] at hn
    cases hn
    cases hsuccess
  | retried row' t =>
    cases hrow
    exact absurd hcode hx.2.2.2
  | exhausted row' d =>
    cases hrow
    exact decide_eq_true hcode

/-- The endpoint of a snapshot is there. -/
theorem Snapshot.holds {w : World} {ev : WebhookEvent} {ep : WebhookEndpoint}
    (h : Snapshot w ev ep) : w.db.holds (.endpoint ep.id) = true := by
  obtain ⟨ws, ⟨ws', hlog⟩, ep', hep', -⟩ := h.everHad
  rw [World.db, ← hlog, Db.applyAll_append]
  refine holds_endpoint ?_ ws'
  exact Option.isSome_iff_exists.mpr ⟨ep', hep'⟩

/-- **The commit of a run answered with 410 bans the endpoint that it has loaded.** -/
theorem deactivates_of_gone (hb : Reaches deps ok b) (hs : step deps b a = some b')
    (ha : a.taken = some t) (hth : b.threads[t]? = some th) {ev : WebhookEvent}
    {ep : WebhookEndpoint} {ws : List Write} (hcommit : committing? b t = some (ev, ep, ws))
    {req : HttpRequest} {resp : HttpResponse} (hpost : postCall req (.ok resp) ∈ th.trace)
    (hgone : resp.statusCode = 410) : Deactivates b b' ep.id := by
  obtain ⟨th₀, id, k, hth₀, ho, hp, hph⟩ := committing?_eq_some.mp hcommit
  rw [hth] at hth₀
  cases hth₀
  have hm := List.mem_of_getElem? hth
  obtain ⟨ev', ep', x, hph', -, hx, hpend⟩ := hb.exit_of_commit hm ho hp
  rw [hph] at hph'
  cases hph'
  -- after the commit the attempt is logged, and it reports the answer
  obtain ⟨th', hth', hclosed, hstatements⟩ := hb.committing hs hth hp ha
  obtain ⟨th'', hth'', hgrows, -⟩ := (stepped hs).kept hth
  rw [hth'] at hth''
  cases hth''
  have hm' := List.mem_of_getElem? hth'
  have hb' : Reaches deps anyStep b' := (hb.mono fun _ _ _ _ => trivial).tail trivial hs
  obtain ⟨r, pre, post, hwhole, -⟩ := hb'.whole_of_closed hm' hclosed
  have hasked : (⟨.commit, r⟩ : Call relay PyExn) ∈ th'.trace := by
    rw [hwhole]
    exact List.mem_append_right _ List.mem_cons_self
  obtain ⟨row, r', hlog⟩ := hb'.logged_of_committed hm' (hgrows.subset hpost) hasked
  obtain ⟨_, _, _, _, -, -, htrace⟩ := hb'.posting hm' (hgrows.subset hpost)
  obtain ⟨_, _, _, _, _, _, -, -, hreports, htrace'⟩ := hb'.logging hm' hlog
  rw [htrace] at htrace'
  cases htrace'
  obtain ⟨p, hanswer, hstatus, -⟩ := hreports.outcome
  obtain ⟨text, -, rfl⟩ := PostResult.ofAnswer_ok hanswer
  have hrow : Write.insertAttempt row ∈ x.writes ev ep := by
    rw [← hpend, ← hstatements, statementsAt_of_getElem? hth']
    exact List.mem_flatMap.mpr ⟨_, hlog, List.mem_singleton_self _⟩
  have hdeactivates := hx.deactivates_of_gone (Exit.attempt_of_mem_writes hrow)
    (hstatus.trans (congrArg some hgone))
  refine deactivates_of_commit hs hth hp ha (hb.sound.committing hcommit).holds ?_
  rw [hpend, x.activity_writes, if_pos hdeactivates]
  rfl

/-! ### A DELETE -/

/-- How far a DELETE of an endpoint has come. It is finished when it has committed, when a call has
failed, and when there is no such endpoint. -/
inductive Removal where
  | started
  | removed
  | finished

namespace Removal

/-- The calls of a phase. -/
def allows (id : UUID) : Removal → Op → Prop
  | .started, e => e = .deactivateEndpoint id
  | .removed, e => e = .commit
  | .finished, _ => False

/-- The phase after a call. -/
def next : Removal → (e : Op) → Except PyExn e.Resp → Removal
  | .started, .deactivateEndpoint _, .ok true => .removed
  | _, _, _ => .finished

/-- What is in the session. -/
def pending (id : UUID) : Removal → List Write
  | .removed => (Op.deactivateEndpoint id).writes
  | _ => []

end Removal

/-- The contract of a DELETE. -/
def removalContract (id : UUID) : Contract relay PyExn Removal where
  allows := Removal.allows id
  next := Removal.next

/-- **A DELETE meets its contract.** -/
theorem program_removes (deps : Deps) (id : UUID) :
    (Origin.program deps (.request (.deleteEndpoint id))).Obeys (removalContract id)
      (finishing fun _ _ => True) .started := by
  refine (Prog.obeys_map _ _).mpr ((Prog.obeys_bind _ _).mpr ?_)
  refine (Prog.obeys_bind _ _).mpr (Prog.obeys_perform.mpr ⟨rfl, fun r => ?_⟩)
  rcases r with x | _ | _
  · exact fun _ h => nomatch h
  · exact fun _ h => nomatch h
  · exact (Prog.obeys_perform_bind _ _).mpr ⟨rfl, fun _ _ _ => trivial, fun _ _ h => nomatch h⟩

/-- The phases say what is in the session. -/
theorem removal_tracks (id : UUID) :
    Tracks (removalContract id) (fun p => p ≠ .finished) (Removal.pending id) .started where
  start := rfl
  ok p e v hallow hlive := by
    change Removal.allows id p e at hallow
    cases p with
    | started =>
      obtain rfl : e = .deactivateEndpoint id := hallow
      refine ⟨nofun, ?_⟩
      cases v with
      | false => exact absurd rfl hlive
      | true => rfl
    | removed =>
      obtain rfl : e = .commit := hallow
      exact absurd rfl hlive
    | finished => cases hallow
  error p e x hallow hlive := by
    change Removal.allows id p e at hallow
    cases p with
    | started | removed =>
      cases hallow
      exact hlive rfl
    | finished => cases hallow

/-- What is left of a DELETE meets its contract, and what it has called did. -/
theorem Reaches.removes (h : Reaches deps ok c) (hth : th ∈ c.threads)
    (ho : th.origin = .request (.deleteEndpoint id)) {e : Op}
    {k : Except PyExn e.Resp → Relay Reply} (hp : th.prog = .call e k) :
    Removal.allows id ((removalContract id).run .started th.trace) e := by
  rcases (h.obeys hth (by rw [ho]; exact program_removes deps id)).2 with hobeys | hcut
  · rw [hp] at hobeys
    exact hobeys.1
  · rw [hp] at hcut
    cases hcut

/-- The statements in the session of a DELETE are those of its phase. -/
theorem Reaches.removal_pending (h : Reaches deps ok c) (hth : th ∈ c.threads)
    (ho : th.origin = .request (.deleteEndpoint id)) (hend : th.prog.ended = false)
    (hlive : (removalContract id).run .started th.trace ≠ .finished) :
    th.session.pending = Removal.pending id ((removalContract id).run .started th.trace) := by
  refine h.pending_eq (removal_tracks id) (Q := fun _ _ => True)
    (S := fun o => o = .request (.deleteEndpoint id)) (fun o ho => ?_) (fun _ h => nomatch h) th hth
    ho hend hlive
  rw [ho]
  exact program_removes deps id

/-- A DELETE that goes on has found its endpoint. -/
theorem Reaches.removed_there (h : Reaches deps ok c) : ∀ th ∈ c.threads,
    th.origin = .request (.deleteEndpoint id) →
    (removalContract id).run .started th.trace = .removed →
    c.world.db.holds (.endpoint id) = true := by
  refine h.invariant (J := fun c => ∀ th ∈ c.threads,
    th.origin = .request (.deleteEndpoint id) →
    (removalContract id).run .started th.trace = .removed →
    c.world.db.holds (.endpoint id) = true) (fun _ _ hth => nomatch hth)
    fun c a c' hr hc _ hs => ?_
  obtain ⟨ws, hw⟩ := wal_step hs
  have hstays (hthere : c.world.db.holds (.endpoint id) = true) :
      c'.world.db.holds (.endpoint id) = true := by
    rw [World.db_of_wal hw]
    exact holds_endpoint hthere ws
  refine (stepped hs).forall_threads hc (fun _ _ _ _ h ho hph => hstays (h ho hph)) ?_ ?_ ?_ ?_
  · intro o w _ _ hph
    cases hph
  · intro t th e k r w s hth hp ha _ _ ho hph
    have hm := List.mem_of_getElem? hth
    have hallow := hr.removes hm ho hp
    have htrace : (th.answered machine e r (k r) s).trace = th.trace ++ [⟨e, r⟩] := rfl
    rw [htrace, Contract.run_append_singleton] at hph
    change Removal.next _ e r = .removed at hph
    -- the call was the UPDATE, and it has found a row
    have hpend := hr.removal_pending hm ho (by rw [hp]; rfl)
    cases hbefore : (removalContract id).run .started th.trace with
    | started =>
      rw [hbefore] at hallow hph hpend
      obtain rfl : e = .deactivateEndpoint id := hallow
      rcases r with x | _ | _
      · cases hph
      · cases hph
      · obtain ⟨o, -, hexec⟩ := ha.of_ok
        change flushed (.deactivateEndpoint id)
          ((c.world.view th.session).endpoints.get? id).isSome c.world th.session = _ at hexec
        have hthere := (flushed_eq_ok hexec).1
        rw [view_of_pending (hpend nofun)] at hthere
        exact hstays hthere
    | removed | finished =>
      rw [hbefore] at hallow hph
      cases hph
  · exact fun th _ h ho hph => hstays (h ho hph)
  · exact fun th _ _ id _ _ _ ho => nomatch ho

/-- **The commit of a DELETE bans the endpoint.** -/
theorem deactivates_of_delete (hb : Reaches deps ok b) (hs : step deps b a = some b')
    (ha : a.taken = some t) (hth : b.threads[t]? = some th)
    (ho : th.origin = .request (.deleteEndpoint id)) {k : Except PyExn Unit → Relay Reply}
    (hp : th.prog = .call .commit k) : Deactivates b b' id := by
  have hm := List.mem_of_getElem? hth
  have hremoved : (removalContract id).run .started th.trace = .removed := by
    have hallow := hb.removes hm ho hp
    cases hph : (removalContract id).run .started th.trace with
    | removed => rfl
    | started | finished =>
      rw [hph] at hallow
      cases hallow
  have hpend := hb.removal_pending hm ho (by rw [hp]; rfl) (by rw [hremoved]; exact nofun)
  refine deactivates_of_commit hs hth hp ha (hb.removed_there th hm ho hremoved) ?_
  rw [hpend, hremoved]
  simp [Removal.pending, Op.writes, Write.activity]

end WebhookRelay

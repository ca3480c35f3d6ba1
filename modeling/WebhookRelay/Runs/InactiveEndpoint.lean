import WebhookRelay.Runs.Coroutines

/-!
# The contract of a run that may find its endpoint inactive

A run of `deliver` reads its event together with the endpoint. If the event is not terminal and
the endpoint is inactive, its calls are known one by one: it marks the event, takes an identifier
and the time, inserts the entry and commits (`Guarded`, `guardContract`). Only a run that has read
an active endpoint makes other calls, a POST among them.
-/

namespace WebhookRelay

open Data Effect EventRepository

/-- How far a run has come. -/
inductive Guarded where
  | started
  /-- It has read an event whose endpoint is active; what it does then is left open. -/
  | active (ev : WebhookEvent)
  /-- It has read an event whose endpoint is inactive. -/
  | inactive (ev : WebhookEvent) (ep : WebhookEndpoint)
  | marked (ev : WebhookEvent) (ep : WebhookEndpoint)
  | named (ev : WebhookEvent) (ep : WebhookEndpoint) (id : UUID)
  | stamped (ev : WebhookEvent) (ep : WebhookEndpoint) (id : UUID) (now : Datetime)
  | entered (ev : WebhookEvent) (ep : WebhookEndpoint) (id : UUID) (now : Datetime)
  /-- It has committed. -/
  | settled (ev : WebhookEvent)
  /-- There is no such event, or it is terminal. -/
  | idle
  /-- A call has failed. -/
  | failed

namespace Guarded

/-- The entry of an event whose endpoint is inactive. -/
def entry (ev : WebhookEvent) (ep : WebhookEndpoint) : UUID → Datetime → DeadLetterEvent :=
  DeliveryService.deadLetterRow (deadLettered ev) ep (Str.lit "Endpoint is inactive") none

/-- The calls a run may make in a phase. -/
def allows (id : UUID) : Guarded → Op → Prop
  | .started, e => e = .getEventWithEndpoint id
  | .active _, _ => True
  | .inactive ev _, e => e = .flushEvent ev (deadLettered ev)
  | .marked _ _, e => e = .uuid4
  | .named _ _ _, e => e = .now
  | .stamped ev ep id now, e => e = .insertDeadLetter (entry ev ep id now)
  | .entered _ _ _ _, e => e = .commit
  | .settled _, _ => False
  | .idle, _ => False
  | .failed, _ => False

/-- The phase after the read. -/
def ofRead (ev : WebhookEvent) (ep : WebhookEndpoint) : Guarded :=
  if ev.status.terminal then .idle else if ep.isActive then .active ev else .inactive ev ep

/-- The phase after a call. -/
def next : Guarded → (e : Op) → Except PyExn e.Resp → Guarded
  | .active ev, _, _ => .active ev
  | .started, .getEventWithEndpoint _, .ok (some (ev, some ep)) => ofRead ev ep
  | .started, .getEventWithEndpoint _, .ok _ => .idle
  | .inactive ev ep, .flushEvent _ _, .ok _ => .marked ev ep
  | .marked ev ep, .uuid4, .ok id => .named ev ep id
  | .named ev ep id, .now, .ok now => .stamped ev ep id now
  | .stamped ev ep id now, .insertDeadLetter _, .ok _ => .entered ev ep id now
  | .entered ev _ _ _, .commit, .ok _ => .settled ev
  | _, _, _ => .failed

/-- How a run ends: when it has committed, with the event dead-lettered. -/
def ends : Except PyExn Reply → Guarded → Prop
  | _, .active _ => True
  | _, .idle => True
  | .ok reply, .settled _ => reply = .delivery .deadLettered
  | .error _, .failed => True
  | _, _ => False

/-- It has read an active endpoint. -/
def free : Guarded → Bool
  | .active _ => true
  | _ => false

/-- The event of a run that has found its endpoint inactive, and has not failed. -/
def event? : Guarded → Option WebhookEvent
  | .inactive ev _ => some ev
  | .marked ev _ => some ev
  | .named ev _ _ => some ev
  | .stamped ev _ _ _ => some ev
  | .entered ev _ _ _ => some ev
  | .settled ev => some ev
  | _ => none

/-- The statements in the session of a run. -/
def pending : Guarded → List Write
  | .marked ev _ => flush ev (deadLettered ev)
  | .named ev _ _ => flush ev (deadLettered ev)
  | .stamped ev _ _ _ => flush ev (deadLettered ev)
  | .entered ev ep id now =>
    flush ev (deadLettered ev) ++ [.insertDeadLetter (entry ev ep id now)]
  | _ => []

/-- The phases of a run that has not read an active endpoint, and has not failed. -/
def strict : Guarded → Prop
  | .active _ => False
  | .failed => False
  | _ => True

end Guarded

/-- The contract of a run for one event. -/
def guardContract (id : UUID) : Contract relay PyExn Guarded where
  allows := Guarded.allows id
  next := Guarded.next

section phases

variable {id : UUID} {p : Guarded}

/-- A run whose call fails has failed, unless its endpoint is active. -/
theorem Guarded.next_error (hp : p.free = false) (e : Op) (x : PyExn) :
    p.next e (.error x) = .failed := by
  cases p with
  | active ev => cases hp
  | _ => cases e <;> rfl

/-- The phases say what is in the session. -/
theorem guard_tracks (id : UUID) :
    Tracks (guardContract id) Guarded.strict Guarded.pending .started where
  start := rfl
  ok p e v hallow hlive := by
    change Guarded.allows id p e at hallow
    cases p with
    | active ev => exact hlive.elim
    | started =>
      obtain rfl : e = .getEventWithEndpoint id := hallow
      refine ⟨trivial, ?_⟩
      change Guarded.pending (Guarded.next _ _ _) = []
      rcases v with _ | ⟨ev, _ | ep⟩
      · rfl
      · rfl
      · change Guarded.pending (Guarded.ofRead ev ep) = []
        unfold Guarded.ofRead
        split_ifs <;> rfl
    | inactive ev ep =>
      obtain rfl : e = .flushEvent ev (deadLettered ev) := hallow
      exact ⟨trivial, rfl⟩
    | marked ev ep =>
      obtain rfl : e = .uuid4 := hallow
      exact ⟨trivial, (List.append_nil _).symm⟩
    | named ev ep id =>
      obtain rfl : e = .now := hallow
      exact ⟨trivial, (List.append_nil _).symm⟩
    | stamped ev ep id now =>
      obtain rfl : e = .insertDeadLetter (Guarded.entry ev ep id now) := hallow
      exact ⟨trivial, rfl⟩
    | entered ev ep id now =>
      obtain rfl : e = .commit := hallow
      exact ⟨trivial, rfl⟩
    | _ => cases hallow
  error p e x hallow hlive := by
    change Guarded.strict (Guarded.next p e (.error x)) at hlive
    cases hp : p.free with
    | true =>
      cases p with
      | active ev => exact hlive
      | _ => cases hp
    | false =>
      rw [Guarded.next_error hp] at hlive
      exact hlive

/-- A run that has read is not about to read again. -/
theorem Guarded.next_ne_started (p : Guarded) (e : Op) (r : Except PyExn e.Resp) :
    p.next e r ≠ .started := by
  intro h
  unfold Guarded.next Guarded.ofRead at h
  split at h
  all_goals first
    | cases h
    | split_ifs at h

/-- The event of a run stays the same, or the run has failed. -/
theorem Guarded.event?_next {e : Op} (hp : p ≠ .started) (h : p.allows id e)
    (r : Except PyExn e.Resp) :
    (p.next e r).event? = p.event? ∨ p.next e r = .failed := by
  cases r with
  | error x =>
    cases hfree : p.free with
    | true =>
      cases p with
      | active ev => exact Or.inl rfl
      | _ => cases hfree
    | false => exact Or.inr (Guarded.next_error hfree e x)
  | ok v =>
    cases p with
    | started => exact absurd rfl hp
    | active ev => exact Or.inl rfl
    | inactive _ _ | marked _ _ | named _ _ _ | stamped _ _ _ _ | entered _ _ _ _ =>
      cases h
      exact Or.inl rfl
    | _ => cases h

/-- The event of a run stays the same over any number of calls, or the run has failed. -/
theorem guard_event? {cs : List (Call relay PyExn)} (hp : p ≠ .started)
    (h : (guardContract id).Accepts p cs) :
    ((guardContract id).run p cs).event? = p.event? ∨
      (guardContract id).run p cs = .failed := by
  induction cs generalizing p with
  | nil => exact Or.inl rfl
  | cons c cs ih =>
    rcases ih (Guarded.next_ne_started p c.1 c.2) h.2 with hrun | hrun
    · rcases Guarded.event?_next hp h.1 c.2 with hnext | hnext
      · exact Or.inl (hrun.trans hnext)
      · right
        -- nothing is allowed any more
        have hstop : (guardContract id).Accepts .failed cs := hnext ▸ h.2
        cases cs with
        | nil => exact hnext
        | cons c' cs => exact hstop.1.elim
    · exact Or.inr hrun

/-- A run that has not read an active endpoint when it reads never does. -/
theorem Guarded.free_next {e : Op} (hp : p ≠ .started) (hfree : p.free = false)
    (h : p.allows id e) (r : Except PyExn e.Resp) : (p.next e r).free = false := by
  cases r with
  | error x => rw [Guarded.next_error hfree]; rfl
  | ok v =>
    cases p with
    | started => exact absurd rfl hp
    | active ev => cases hfree
    | inactive _ _ | marked _ _ | named _ _ _ | stamped _ _ _ _ | entered _ _ _ _ =>
      cases h
      rfl
    | _ => cases h

/-- Such a run sends no POST. -/
theorem guard_isPost {cs : List (Call relay PyExn)} (hp : p ≠ .started) (hfree : p.free = false)
    (h : (guardContract id).Accepts p cs) : ∀ x ∈ cs, x.1.isPost = false := by
  induction cs generalizing p with
  | nil => exact fun x hx => nomatch hx
  | cons c cs ih =>
    intro x hx
    rcases List.mem_cons.mp hx with rfl | hx
    · have hallow : p.allows id x.1 := h.1
      cases p with
      | started => exact absurd rfl hp
      | active ev => cases hfree
      | inactive _ _ | marked _ _ | named _ _ _ | stamped _ _ _ _ | entered _ _ _ _ =>
        rw [show x.1 = _ from hallow]
        rfl
      | _ => cases hallow
    · exact ih (Guarded.next_ne_started p c.1 c.2) (Guarded.free_next hp hfree h.1 c.2) h.2 x hx

/-- The calls a run still has to make. -/
def Guarded.left : Guarded → ℕ
  | .started => 6
  | .inactive _ _ => 5
  | .marked _ _ => 4
  | .named _ _ _ => 3
  | .stamped _ _ _ _ => 2
  | .entered _ _ _ _ => 1
  | _ => 0

/-- A call brings such a run closer to its end, and a commit ends it. -/
theorem Guarded.left_next {e : Op} (hp : p ≠ .started) (hfree : p.free = false)
    (h : p.allows id e) (r : Except PyExn e.Resp) :
    (p.next e r).left + 1 ≤ p.left ∧ (e.isCommit = true → (p.next e r).left = 0) := by
  cases p with
  | started => exact absurd rfl hp
  | active ev => cases hfree
  | entered _ _ _ _ =>
    cases h
    cases r <;> exact ⟨Nat.le_refl 1, fun _ => rfl⟩
  | inactive _ _ | marked _ _ | named _ _ _ | stamped _ _ _ _ =>
    cases h
    refine ⟨?_, fun hc => Bool.noConfusion hc⟩
    cases r
    · exact Nat.le_add_left 1 _
    · exact Nat.le_refl _
  | _ => cases h

/-- Such a run makes no more calls than these, and commits once at most. -/
theorem guard_calls {cs : List (Call relay PyExn)} (hp : p ≠ .started) (hfree : p.free = false)
    (h : (guardContract id).Accepts p cs) :
    cs.length ≤ p.left ∧ cs.countP (fun x => x.1.isCommit) ≤ if p.left = 0 then 0 else 1 := by
  induction cs generalizing p with
  | nil => exact ⟨Nat.zero_le _, Nat.zero_le _⟩
  | cons c cs ih =>
    obtain ⟨e, r⟩ := c
    obtain ⟨hlen, hcommits⟩ :=
      ih (Guarded.next_ne_started p e r) (Guarded.free_next hp hfree h.1 r) h.2
    obtain ⟨hleft, hcommit⟩ : (p.next e r).left + 1 ≤ p.left ∧
        (e.isCommit = true → (p.next e r).left = 0) := Guarded.left_next hp hfree h.1 r
    change cs.length ≤ (p.next e r).left at hlen
    change cs.countP _ ≤ if (p.next e r).left = 0 then 0 else 1 at hcommits
    rw [List.length_cons, List.countP_cons, if_neg (by omega : p.left ≠ 0)]
    refine ⟨by omega, ?_⟩
    cases hc : e.isCommit with
    | true =>
      rw [if_pos (hcommit hc)] at hcommits
      simp only [if_true]
      omega
    | false =>
      simp only [Bool.false_eq_true, if_false]
      split_ifs at hcommits <;> omega

/-- A run settles its event by a commit. -/
theorem Guarded.next_eq_settled {e : Op} {r : Except PyExn e.Resp} {ev : WebhookEvent}
    (h : p.allows id e) (hnext : p.next e r = .settled ev) :
    ∃ ep u now, p = .entered ev ep u now ∧ e = .commit ∧ ∃ v, r = .ok v := by
  cases r with
  | error x =>
    cases hfree : p.free with
    | true =>
      cases p with
      | active ev => cases hnext
      | _ => cases hfree
    | false =>
      rw [Guarded.next_error hfree] at hnext
      cases hnext
  | ok v =>
    cases p with
    | started =>
      obtain rfl : e = .getEventWithEndpoint id := h
      rcases v with _ | ⟨ev', _ | ep⟩
      · cases hnext
      · cases hnext
      · change Guarded.ofRead ev' ep = _ at hnext
        unfold Guarded.ofRead at hnext
        split_ifs at hnext
    | entered ev' ep u now =>
      obtain rfl : e = .commit := h
      cases hnext
      exact ⟨ep, u, now, rfl, rfl, v, rfl⟩
    | active ev => cases hnext
    | inactive _ _ | marked _ _ | named _ _ _ | stamped _ _ _ _ =>
      cases h
      cases hnext
    | _ => cases h

/-- A run fails by a call that fails. -/
theorem Guarded.next_eq_failed {e : Op} {r : Except PyExn e.Resp} (h : p.allows id e)
    (hnext : p.next e r = .failed) : p.free = false ∧ ∃ x, r = .error x := by
  cases r with
  | error x =>
    refine ⟨?_, x, rfl⟩
    cases p with
    | active ev => cases hnext
    | _ => rfl
  | ok v =>
    cases p with
    | started =>
      obtain rfl : e = .getEventWithEndpoint id := h
      rcases v with _ | ⟨ev', _ | ep⟩
      · cases hnext
      · cases hnext
      · change Guarded.ofRead ev' ep = _ at hnext
        unfold Guarded.ofRead at hnext
        split_ifs at hnext
    | active ev => cases hnext
    | inactive _ _ | marked _ _ | named _ _ _ | stamped _ _ _ _ | entered _ _ _ _ =>
      cases h
      cases hnext
    | _ => cases h

/-! ### The read at the start of a run -/

/-- The call that has read an event, with its endpoint. -/
def loaded (eventId : UUID) (ev : WebhookEvent) (ep? : Option WebhookEndpoint) :
    Call relay PyExn := ⟨.getEventWithEndpoint eventId, .ok (some (ev, ep?))⟩

/-- The phase of a run that has made calls is that of its read, or it has come further. -/
theorem guard_cases {cs : List (Call relay PyExn)} (h : (guardContract id).Accepts .started cs) :
    cs = [] ∨ ∃ r cs', cs = ⟨.getEventWithEndpoint id, r⟩ :: cs' ∧
      (guardContract id).Accepts (Guarded.next .started (.getEventWithEndpoint id) r) cs' := by
  cases cs with
  | nil => exact Or.inl rfl
  | cons c cs' =>
    obtain ⟨e, r⟩ := c
    obtain ⟨hallow, hrest⟩ := h
    obtain rfl : e = .getEventWithEndpoint id := hallow
    exact Or.inr ⟨r, cs', rfl, hrest⟩

/-- The event of a run is the one it has read. -/
theorem guard_read {cs : List (Call relay PyExn)} (h : (guardContract id).Accepts .started cs)
    {ev : WebhookEvent} (hev : ((guardContract id).run .started cs).event? = some ev) :
    ∃ ep, cs.head? = some (loaded id ev (some ep)) ∧ ev.status.terminal = false := by
  rcases guard_cases h with rfl | ⟨r, cs', rfl, hrest⟩
  · cases hev
  · have hfirst : (Guarded.next .started (.getEventWithEndpoint id) r).event? = some ev := by
      rcases guard_event? (Guarded.next_ne_started _ _ _) hrest with hrun | hrun
      · exact hrun.symm.trans hev
      · cases (congrArg Guarded.event? hrun).symm.trans hev
    rcases r with x | _ | ⟨ev', _ | ep⟩
    · cases hfirst
    · cases hfirst
    · cases hfirst
    · change (Guarded.ofRead ev' ep).event? = some ev at hfirst
      unfold Guarded.ofRead at hfirst
      split_ifs at hfirst with hterm hact
      · cases hfirst
      · cases hfirst
      · obtain rfl : ev' = ev := Option.some.inj hfirst
        exact ⟨ep, rfl, by simpa using hterm⟩

/-- A run that has read an event that is not terminal, and an inactive endpoint, is about that
event, or has failed. -/
theorem guard_of_read {cs : List (Call relay PyExn)} (h : (guardContract id).Accepts .started cs)
    {ev : WebhookEvent} {ep : WebhookEndpoint} (hread : cs.head? = some (loaded id ev (some ep)))
    (hterm : ev.status.terminal = false) (hact : ep.isActive = false) :
    ((guardContract id).run .started cs).event? = some ev ∨
      (guardContract id).run .started cs = .failed := by
  rcases guard_cases h with rfl | ⟨r, cs', rfl, hrest⟩
  · cases hread
  · obtain ⟨rfl⟩ := hread
    refine (guard_event? (Guarded.next_ne_started _ _ _) hrest).imp_left fun hrun => ?_
    have hfirst : (Guarded.ofRead ev ep).event? = some ev := by
      unfold Guarded.ofRead
      rw [hterm, hact]
      rfl
    exact hrun.trans hfirst

end phases

/-! ### The contract holds -/

section obeys

variable {id : UUID} {α : Type}

/-- The program meets the contract from a phase on, and ends as an outcome of `deliver` may. -/
abbrev Guards (id : UUID) (p : Guarded) (q : Relay DeliveryOutcome) : Prop :=
  q.Obeys (guardContract id)
    (fun r p' => Guarded.ends (r.map fun o => .delivery o.status) p') p

/-- With an active endpoint, everything goes. -/
theorem guards_active (ev : WebhookEvent) (q : Relay DeliveryOutcome) :
    Guards id (.active ev) q := by
  induction q with
  | done a => trivial
  | raised x => trivial
  | call e k ih => exact ⟨trivial, fun r => ih r⟩

/-- One call, and then the rest; when the call fails the run has failed. -/
theorem guards_bind {p : Guarded} (hp : p.free = false) (e : Op)
    {f : e.Resp → Relay DeliveryOutcome} (ha : p.allows id e)
    (hf : ∀ v, Guards id (p.next e (.ok v)) (f v)) :
    Guards id p (Prog.perform (I := relay) e >>= f) := by
  refine (Prog.obeys_perform_bind (I := relay) e f).mpr ⟨ha, hf, fun x => ?_⟩
  change Guarded.ends _ (p.next e (.error x))
  rw [Guarded.next_error hp]
  trivial

/-- The branch of an inactive endpoint, call by call. -/
theorem guards_deadLetterInactive (ev : WebhookEvent) (ep : WebhookEndpoint) :
    Guards id (.inactive ev ep) (DeliveryService.deadLetterInactive ev ep) := by
  unfold DeliveryService.deadLetterInactive EventRepository.markDeadLettered
    DeadLetterRepository.create
  simp only [bind_assoc]
  refine guards_bind rfl (.flushEvent ev (deadLettered ev)) rfl fun _ => ?_
  refine guards_bind rfl .uuid4 rfl fun u => ?_
  refine guards_bind rfl .now rfl fun t => ?_
  refine guards_bind rfl (.insertDeadLetter (Guarded.entry ev ep u t)) rfl
    fun _ => ?_
  exact guards_bind rfl .commit rfl fun _ => rfl

/-- **The contract holds**: every run of `deliver`, whatever its calls are answered. -/
theorem deliver_guards (deps : Deps) (id : UUID) :
    Guards id .started (DeliveryService.deliver deps id) := by
  unfold DeliveryService.deliver
  refine guards_bind rfl (.getEventWithEndpoint id) rfl fun v => ?_
  rcases v with _ | ⟨ev, ep?⟩
  · trivial
  · cases ep? with
    | none =>
      change Guards id .idle _
      dsimp only
      split_ifs <;> trivial
    | some ep =>
      change Guards id (Guarded.ofRead ev ep) _
      unfold Guarded.ofRead
      dsimp only
      by_cases hterm : ev.status.terminal = true
      · rw [if_pos hterm, if_pos hterm]
        trivial
      · rw [if_neg hterm, if_neg hterm]
        cases ep.isActive with
        | true => exact guards_active ev _
        | false => exact guards_deadLetterInactive ev ep

/-- The same of the coroutine that delivers an event. -/
theorem jobProgram_guards (deps : Deps) {o : Origin} (ho : o.delivers = some id) :
    (o.program deps).Obeys (guardContract id) Guarded.ends .started := by
  have h : (jobProgram deps id).Obeys (guardContract id) Guarded.ends .started := by
    refine (Prog.obeys_map _ _).mpr ((Prog.obeys_bind _ _).mpr ?_)
    refine (deliver_guards deps id).mono fun r p hr => ?_
    cases r <;> exact hr
  cases o with
  | job id' =>
    obtain rfl : id' = id := Option.some.inj ho
    exact h
  | reaped id' =>
    obtain rfl : id' = id := Option.some.inj ho
    exact h
  | request r => cases ho
  | cron => cases ho

end obeys

end WebhookRelay

import WebhookRelay.Circuit.NoLostFailures

/-!
# Circuits that are not CLOSED have had their failures

Whatever the calls read and write, a circuit leaves CLOSED only for a call that has counted its
failure up to the threshold, and every call that refuses, or writes another state than CLOSED, goes
back to such a one. So a circuit that is not CLOSED, or that has refused a call, has had at least as
many failures as the threshold says: every one of them is a different call of `record_failure` for
this endpoint (`Reaches.refused`). That needs no condition on the steps; that the failures have come
since the last closing does (`reopens_after_threshold`).
-/

namespace WebhookRelay

open Data Data.Redis Effect

namespace CircuitBreaker

variable {cb : CircuitBreaker} {c c' : Config} {a : Action} {ok : Config → Action → Prop}
  {id : Str} {o : Origin} {p : Phase} {m : ℕ}

/-! ### Calls -/

/-- What the call has found is the work of at most `m` failures: the count it holds, if that matters
still, and a state that is not CLOSED. -/
def Phase.Provoked (cb : CircuitBreaker) (m : ℕ) : Phase → Prop
  | .looking n => ∀ k, n = some k → k ≤ m
  | .dating _ => cb.failureThreshold ≤ m
  | .timing _ _ => cb.failureThreshold ≤ m
  | .waking _ _ _ => cb.failureThreshold ≤ m
  | .saw n s => (s = .closed → ∀ k, n = some k → k ≤ m) ∧ (s ≠ .closed → cb.failureThreshold ≤ m)
  | .opening _ _ _ => cb.failureThreshold ≤ m
  | _ => True

/-- More failures account for more. -/
theorem Phase.Provoked.mono {m' : ℕ} (h : p.Provoked cb m) (hm : m ≤ m') : p.Provoked cb m' := by
  have hcast : (m : ℤ) ≤ m' := by exact_mod_cast hm
  cases p with
  | looking n => exact fun k hk => (h k hk).trans hcast
  | saw n s => exact ⟨fun hs k hk => (h.1 hs k hk).trans hcast, fun hs => (h.2 hs).trans hcast⟩
  | dating n => exact le_trans h hcast
  | timing n v => exact le_trans h hcast
  | waking n q t => exact le_trans h hcast
  | opening n s t => exact le_trans h hcast
  | _ => trivial

/-- A call that starts has found nothing. -/
theorem provoked_start (m : ℕ) : (Phase.start o).Provoked cb m := by
  rcases Phase.start_cases o with ⟨-, h⟩ | ⟨-, h⟩ | ⟨-, -, h⟩ <;> rw [h]
  · trivial
  · trivial
  · exact fun k hk => nomatch hk

/-- An await that counts no failure finds what failures have caused. -/
theorem Phase.Provoked.advance {C : Circuit} {now : ℚ} (h : p.Provoked cb m)
    (hlive : p.live cb o = true) (hcount : p ≠ .counting)
    (hmode : C.mode ≠ .closed → cb.failureThreshold ≤ m) :
    (p.advance cb o C now).Provoked cb m := by
  have hadv := p.advanced cb o C now
  generalize p.advance cb o C now = p' at hadv
  cases hadv with
  | counted => exact absurd rfl hcount
  | readOpen n hopen => exact hmode (by simp [hopen])
  | read n hne => exact ⟨fun _ => h, hmode⟩
  | undated n => exact ⟨fun hclosed => (nomatch hclosed), fun _ => h⟩
  | dated n => exact h
  | elapsed n => exact h
  | early n => exact ⟨fun hclosed => (nomatch hclosed), fun _ => h⟩
  | woken n q t => exact ⟨fun hclosed => (nomatch hclosed), fun _ => h⟩
  | clocked n s hcall =>
    -- the call opens the circuit on its count, or on HALF_OPEN
    by_cases hs : s = .closed
    · unfold Phase.live at hlive
      rw [Phase.op_saw, if_neg fun hclose => hcall hclose.1] at hlive
      split_ifs at hlive with htrips
      · obtain ⟨-, htrips⟩ := htrips
        rw [hs] at htrips
        cases n with
        | none => cases htrips
        | some k =>
          have hk : cb.failureThreshold ≤ k := by simpa [Phase.trips] using htrips
          exact hk.trans (h.1 hs k rfl)
      · cases hlive
    · exact h.2 hs
  | _ => trivial

/-! ### Circuits -/

/-- The circuit and the calls for it are the work of the failures that have been counted. -/
structure Provoked (cb : CircuitBreaker) (id : Str) (c : Config) : Prop where
  counter : ∀ x, (Circuit.of c.world id).counter = some x → x.1 ≤ failuresCounted cb id c
  mode : (Circuit.of c.world id).mode ≠ .closed → cb.failureThreshold ≤ failuresCounted cb id c
  calls : ∀ th ∈ c.threads, th.origin.endpoint = id →
    (Caller.phase cb th).Provoked cb (failuresCounted cb id c)

/-- A change writes another state than CLOSED only for a call that has found enough failures. -/
theorem mode_apply_provoked {C : Circuit} {now : ℚ} {x : Change} (hx : p.change o = some x)
    (h : p.Provoked cb m) (hmode : C.mode ≠ .closed → cb.failureThreshold ≤ m) :
    (C.apply cb now x).mode ≠ .closed → cb.failureThreshold ≤ m := by
  rcases Phase.change_cases hx with ⟨-, rfl⟩ | ⟨n, q, t, rfl, rfl⟩ | ⟨n, rfl, -, rfl⟩ |
    ⟨n, s, t, rfl, rfl⟩ | ⟨-, rfl⟩ | ⟨-, rfl⟩
  · exact hmode
  · exact fun _ => h
  · exact fun hne => absurd rfl hne
  · exact fun _ => h
  · exact hmode
  · exact fun hne => absurd rfl hne

/-- A change other than the count of a failure leaves no greater counter. -/
theorem counter_apply {C : Circuit} {now : ℚ} {x : Change} (hx : x ≠ .count) {y : ℤ × ℚ}
    (hy : (C.apply cb now x).counter = some y) : C.counter = some y := by
  cases x with
  | count => exact absurd rfl hx
  | turn s t => cases s <;> exact hy
  | clear => cases hy
  | reset => cases hy

section called

variable {t : ℕ} {th th' : Caller}

/-- An await of a call for the endpoint. -/
theorem Provoked.called (h : Provoked cb th.origin.endpoint c) (hsound : Sound cb c)
    (hfits : (Caller.phase cb th).Fits th.origin) (hth : c.threads[t]? = some th)
    (hlive : (Caller.phase cb th).live cb th.origin = true) (ho : th'.origin = th.origin)
    (hph : Caller.phase cb th' = (Caller.phase cb th).advance cb th.origin
      (.of c.world th.origin.endpoint) c.world.now) :
    Provoked cb th.origin.endpoint ⟨changed cb th.origin.endpoint c.world
      ((Caller.phase cb th).change th.origin), c.threads.set t th'⟩ := by
  have hC := of_changed cb th.origin.endpoint hsound.tidy
    ((Caller.phase cb th).change th.origin) th.origin.endpoint
  rw [if_pos rfl] at hC
  have hN := failuresCounted_called th.origin.endpoint (w := changed cb th.origin.endpoint c.world
    ((Caller.phase cb th).change th.origin)) hth ho hph
  have hself := h.calls th (List.mem_of_getElem? hth) rfl
  have hfailures := failures_le h.counter c.world.now
  by_cases hcount : Caller.phase cb th = .counting
  · -- the failure is counted
    have horigin : th.origin = ⟨th.origin.endpoint, .recordFailure⟩ := by
      rw [hcount] at hfits
      have hcall : th.origin.call = .recordFailure := hfits
      rw [← hcall]
    rw [if_pos ⟨horigin, hcount⟩] at hN
    rw [hcount] at hC
    refine ⟨fun x hx => ?_, fun hmode => ?_, fun u hu hid => ?_⟩
    · have hx : (Circuit.of (changed cb th.origin.endpoint c.world
          ((Caller.phase cb th).change th.origin)) th.origin.endpoint).counter = some x := hx
      rw [hcount, hC] at hx
      obtain ⟨-, rfl⟩ := Circuit.counter_count.mp hx
      rw [hN]
      push_cast
      omega
    · have hmode : (Circuit.of (changed cb th.origin.endpoint c.world
          ((Caller.phase cb th).change th.origin)) th.origin.endpoint).mode ≠ .closed := hmode
      rw [hcount, hC] at hmode
      have hle := h.mode hmode
      rw [hN]
      push_cast
      omega
    · rw [hN]
      rcases List.mem_or_eq_of_mem_set hu with hu | rfl
      · exact (h.calls u hu hid).mono (Nat.le_succ _)
      · rw [hph, hcount]
        rintro k ⟨⟩
        push_cast
        omega
  · rw [if_neg fun hcounts => hcount hcounts.2, Nat.add_zero] at hN
    refine ⟨fun x hx => ?_, fun hmode => ?_, fun u hu hid => ?_⟩
    · rw [hN]
      refine h.counter x ?_
      rw [← hx, hC]
      cases hchange : (Caller.phase cb th).change th.origin with
      | none => rfl
      | some y =>
        have hy : y ≠ .count := by
          rintro rfl
          rcases Phase.change_cases hchange with ⟨hp, -⟩ | ⟨_, _, _, -, hp⟩ | ⟨_, -, -, hp⟩ |
            ⟨_, _, _, -, hp⟩ | ⟨-, hp⟩ | ⟨-, hp⟩
          · exact hcount hp
          all_goals cases hp
        have hx : (Circuit.of (changed cb th.origin.endpoint c.world
            ((Caller.phase cb th).change th.origin)) th.origin.endpoint).counter = some x := hx
        rw [hC, hchange] at hx
        exact (counter_apply hy hx).trans hx.symm
    · rw [hN]
      have hmode : (Circuit.of (changed cb th.origin.endpoint c.world
          ((Caller.phase cb th).change th.origin)) th.origin.endpoint).mode ≠ .closed := hmode
      rw [hC] at hmode
      cases hchange : (Caller.phase cb th).change th.origin with
      | none =>
        rw [hchange] at hmode
        exact h.mode hmode
      | some y =>
        rw [hchange] at hmode
        exact mode_apply_provoked hchange hself h.mode hmode
    · rw [hN]
      rcases List.mem_or_eq_of_mem_set hu with hu | rfl
      · exact h.calls u hu hid
      · rw [hph]
        exact hself.advance hlive hcount h.mode

/-- An await of a call for another endpoint. -/
theorem Provoked.elsewhere (h : Provoked cb id c) (hid : id ≠ th.origin.endpoint)
    (hsound : Sound cb c) (hth : c.threads[t]? = some th) (ho : th'.origin = th.origin)
    (hph : Caller.phase cb th' = (Caller.phase cb th).advance cb th.origin
      (.of c.world th.origin.endpoint) c.world.now) :
    Provoked cb id ⟨changed cb th.origin.endpoint c.world
      ((Caller.phase cb th).change th.origin), c.threads.set t th'⟩ := by
  have hC := of_changed cb th.origin.endpoint hsound.tidy
    ((Caller.phase cb th).change th.origin) id
  rw [if_neg hid] at hC
  have hN := failuresCounted_called id (w := changed cb th.origin.endpoint c.world
    ((Caller.phase cb th).change th.origin)) hth ho hph
  have hother : ¬(th.origin = ⟨id, .recordFailure⟩ ∧ Caller.phase cb th = .counting) := by
    rintro ⟨horigin, -⟩
    exact hid (by rw [horigin])
  rw [if_neg hother, Nat.add_zero] at hN
  refine ⟨?_, ?_, fun u hu hu' => ?_⟩
  · rw [hN]
    show ∀ x, (Circuit.of (changed cb _ _ _) id).counter = some x → _
    rw [hC]
    exact h.counter
  · rw [hN]
    show (Circuit.of (changed cb _ _ _) id).mode ≠ .closed → _
    rw [hC]
    exact h.mode
  · rw [hN]
    rcases List.mem_or_eq_of_mem_set hu with hu | rfl
    · exact h.calls u hu hu'
    · exact absurd (ho ▸ hu').symm hid

end called

/-- **A move adds to what failures have caused only by a failure.** -/
theorem Provoked.moved (h : Provoked cb id c) (hsound : Sound cb c)
    (hfits : ∀ th ∈ c.threads, (Caller.phase cb th).Fits th.origin) (hm : Moved cb c a c') :
    Provoked cb id c' := by
  cases hm with
  | started o =>
    have hN := failuresCounted_started cb id c o
    refine ⟨?_, ?_, fun th hth hid => ?_⟩
    · rw [hN]
      exact h.counter
    · rw [hN]
      exact h.mode
    · rw [hN]
      rcases List.mem_append.mp hth with hth | hth
      · exact h.calls th hth hid
      · rw [List.mem_singleton.mp hth, phase_start]
        exact provoked_start _
  | called hth hlive ho hph =>
    rename_i t th th'
    by_cases hid : id = th.origin.endpoint
    · subst hid
      exact h.called hsound (hfits th (List.mem_of_getElem? hth)) hth hlive ho hph
    · exact h.elsewhere hid hsound hth ho hph
  | ticked => exact ⟨h.counter, h.mode, h.calls⟩

/-- **In every reachable state, a circuit is the work of the failures counted.** -/
theorem Reaches.provoked (h : Reaches cb ok c) (id : Str) : Provoked cb id c := by
  refine (h.invariant (J := Provoked cb id) (fun now => ?_) fun c a c' hr hsound hc _ hm =>
    hc.moved hsound hr.fits hm).2
  have hfresh : Circuit.of ⟨[], now⟩ id = .fresh := (Holds.empty id).ofKeys
  refine ⟨fun x hx => ?_, fun hmode => absurd ?_ hmode, fun _ hth => nomatch hth⟩
  · have hx : (Circuit.of ⟨[], now⟩ id).counter = some x := hx
    rw [hfresh] at hx
    cases hx
  · show (Circuit.of ⟨[], now⟩ id).mode = .closed
    rw [hfresh]
    rfl

/-- A call of `is_allowed` makes no change of its own, so that it does not end with one. -/
theorem Reaches.not_finished (h : Reaches cb ok c) : ∀ th ∈ c.threads,
    Caller.phase cb th = .finished → th.origin.call ≠ .isAllowed := by
  refine (h.invariant (J := fun c => ∀ th ∈ c.threads, Caller.phase cb th = .finished →
    th.origin.call ≠ .isAllowed) (fun _ _ hth => nomatch hth) fun c a c' hr _ hc _ hm => ?_).2
  refine hm.forall_phases (P := fun o p => p.Fits o ∧ (p = .finished → o.call ≠ .isAllowed))
    (Q := fun o p => p = .finished → o.call ≠ .isAllowed)
    (fun th hth => ⟨hr.fits th hth, hc th hth⟩) (fun _ _ hp => hp.2) (fun o hstart => ?_)
    fun o p hp _ hnext => ?_
  · rcases Phase.start_cases o with ⟨-, h⟩ | ⟨-, h⟩ | ⟨-, -, h⟩ <;> cases h.symm.trans hstart
  · have hadv := p.advanced cb o (.of c.world o.endpoint) c.world.now
    rw [hnext] at hadv
    cases hadv with
    | opened => simp [hp.1.1]
    | cleared => simp [show o.call = .recordSuccess from hp.1]
    | reset => simp [show o.call = .reset from hp.1]
    | finished => exact hp.2 rfl

/-- A call of `is_allowed` answers yes or no. -/
theorem Reaches.allowed (h : Reaches cb ok c) {th : Caller} (hth : th ∈ c.threads)
    (ho : th.origin.call = .isAllowed) {x : Answer} (hp : th.prog = .done x) :
    ∃ b, x = .allowed b := by
  have hanswer := (h.sound.done hth hp).2
  unfold Phase.answer at hanswer
  rw [ho] at hanswer
  cases hphase : Caller.phase cb th with
  | saw n s =>
    rw [hphase] at hanswer
    exact ⟨_, (Except.ok.inj hanswer).symm⟩
  | finished => exact absurd ho (h.not_finished th hth hphase)
  | failed y =>
    rw [hphase] at hanswer
    cases hanswer
  | _ =>
    have hlive := (h.sound.done hth hp).1
    rw [hphase] at hlive
    cases hlive

/-- **A call is refused only after as many failures as the threshold says.** -/
theorem Reaches.refused (h : Reaches cb ok c) {th : Caller} (hth : th ∈ c.threads)
    (ho : th.origin = ⟨id, .isAllowed⟩) (hp : th.prog = .done (.allowed false)) :
    cb.failureThreshold ≤ failuresCounted cb id c := by
  have hprovoked := (h.provoked id).calls th hth (by rw [ho])
  have hanswer := (h.sound.done hth hp).2
  unfold Phase.answer at hanswer
  rw [ho] at hanswer
  cases hphase : Caller.phase cb th with
  | saw n s =>
    rw [hphase] at hprovoked hanswer
    refine hprovoked.2 ?_
    rintro rfl
    simp at hanswer
  | _ =>
    rw [hphase] at hanswer
    simp at hanswer

end CircuitBreaker

end WebhookRelay

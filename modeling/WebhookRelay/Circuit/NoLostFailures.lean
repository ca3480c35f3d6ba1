import WebhookRelay.Circuit.Reopening

/-!
# No lost failures

A circuit that is CLOSED while no call for it is under way, and then gets at least as many failures
as the threshold says within both the failure window and the recovery timeout, and no success and no
reset, is OPEN when all calls have ended, whatever their order (`no_lost_failures`): the counter
does not expire, so the last failure counted reaches the threshold; a call with such a count opens
the circuit unless it finds it OPEN; and nobody writes HALF_OPEN, because no opening is old enough.
-/

namespace WebhookRelay

open Data Data.Redis Effect

namespace CircuitBreaker

variable {cb : CircuitBreaker} {c₀ c c' : Config} {a : Action} {id : Str} {o : Origin} {p : Phase}

/-! ### Runs of failures and looks -/

/-- No success and no reset of the circuit starts. -/
def Unrelieved (id : Str) (_ : Config) : Action → Prop
  | .start o => o.endpoint = id → o.call ≠ .recordSuccess ∧ o.call ≠ .reset
  | _ => True

instance (id : Str) (c : Config) (a : Action) : Decidable (Unrelieved id c a) :=
  match a with
  | .start o => inferInstanceAs (Decidable (o.endpoint = id → _ ∧ _))
  | .call _ => inferInstanceAs (Decidable True)
  | .tick _ => inferInstanceAs (Decidable True)

/-- No call for the endpoint is under way. -/
def Idle (id : Str) (c : Config) : Prop :=
  ∀ th ∈ c.threads, th.origin.endpoint = id → th.prog.ended = true

/-- The calls of `record_failure` for the endpoint that have been started. -/
def failuresStarted (id : Str) (c : Config) : ℕ :=
  c.threads.countP fun th => decide (th.origin = ⟨id, .recordFailure⟩)

/-- The calls of `record_failure` for the endpoint that have counted their failure. -/
def failuresCounted (cb : CircuitBreaker) (id : Str) (c : Config) : ℕ :=
  c.threads.countP fun th =>
    decide (th.origin = ⟨id, .recordFailure⟩) && decide (Caller.phase cb th ≠ .counting)

/-- A run goes on from a state reached. -/
theorem Reaches.runs {ok ok' : Config → Action → Prop} (h : Reaches cb ok c₀)
    (hr : Runs (step cb) ok' c₀ c) : Reaches cb anyStep c := by
  obtain ⟨now, h₀⟩ := h
  exact ⟨now, Relation.ReflTransGen.trans (Runs.mono h₀ fun _ _ _ _ => trivial)
    (hr.mono fun _ _ _ _ => trivial)⟩

/-- The count of failures is not negative when the counter is not. -/
theorem failures_nonneg {C : Circuit} (h : ∀ x, C.counter = some x → 0 ≤ x.1) (now : ℚ) :
    0 ≤ C.failures now := by
  unfold Circuit.failures
  split
  · rename_i n d hcounter
    split_ifs
    · exact h _ hcounter
    · exact le_rfl
  · exact le_rfl

/-- A counter is never negative. -/
theorem Reaches.counter_nonneg {ok : Config → Action → Prop} (h : Reaches cb ok c) (id : Str) :
    ∀ x, (Circuit.of c.world id).counter = some x → 0 ≤ x.1 := by
  refine (h.invariant (J := fun c => ∀ x, (Circuit.of c.world id).counter = some x → 0 ≤ x.1)
    ?_ ?_).2
  · intro now x hx
    rw [show Circuit.of (initial now).world id = .fresh from (Holds.empty id).ofKeys] at hx
    cases hx
  · intro c a c' _ hsound hc _ hm x hx
    obtain hsame | ⟨t, th, y, rfl, hth, hy, hw⟩ := hm.world
    · rw [of_later hsame] at hx
      exact hc x hx
    · rw [hw, of_changed cb _ hsound.tidy] at hx
      split_ifs at hx
      · rcases y with _ | ⟨_ | _ | _, τ⟩ | _ | _
        · obtain ⟨-, rfl⟩ := Circuit.counter_count.mp hx
          change 0 ≤ (Circuit.of c.world id).failures c.world.now + 1
          have := failures_nonneg hc c.world.now
          omega
        · exact hc x hx
        · exact hc x hx
        · exact hc x hx
        · cases hx
        · cases hx
      · exact hc x hx

/-! ### The invariant -/

/-- What a call of the run knows about the circuit, which was CLOSED at the time `t₀`. -/
def Phase.Within (t₀ : ℚ) (C : Circuit) : Phase → Prop
  | .dating _ => C.mode = .opened
  | .timing _ v => ∃ q, v = .float q ∧ t₀ ≤ q
  | .waking _ _ _ => False
  | .opening _ _ t => t₀ ≤ t
  | _ => True

/-- The circuit and the calls for it, in a run of failures and looks from the time `t₀` on, before
which `n₀` failures had been counted. -/
structure Rising (cb : CircuitBreaker) (id : Str) (t₀ : ℚ) (n₀ : ℕ) (c : Config) : Prop where
  /-- The circuit is CLOSED, or was opened in the run. -/
  mode : (Circuit.of c.world id).mode = .closed ∨ (Circuit.of c.world id).mode = .opened ∧
    ∃ q, (Circuit.of c.world id).openedAt = some q ∧ t₀ ≤ q
  /-- No call under way relieves the circuit. -/
  calls : ∀ th ∈ c.threads, th.origin.endpoint = id →
    (Caller.phase cb th).live cb th.origin = true →
      th.origin.call ≠ .recordSuccess ∧ th.origin.call ≠ .reset
  /-- The calls know what is so. -/
  within : ∀ th ∈ c.threads, th.origin.endpoint = id →
    (Caller.phase cb th).Within t₀ (.of c.world id)
  /-- The counter counts the failures of the run, and does not expire in it. -/
  counter : n₀ < failuresCounted cb id c → ∃ m d, (Circuit.of c.world id).counter = some (m, d) ∧
    (failuresCounted cb id c : ℤ) ≤ n₀ + m ∧ t₀ + cb.failureWindow ≤ d
  /-- When the failures of the run reach the threshold, the circuit is OPEN or about to be. -/
  opening : n₀ < failuresCounted cb id c →
    cb.failureThreshold + n₀ ≤ failuresCounted cb id c →
      (Circuit.of c.world id).mode = .opened ∨ ∃ th ∈ c.threads, th.origin.endpoint = id ∧
        (Caller.phase cb th).poised cb th.origin = true

/-- An await of a call keeps what it knows. -/
theorem Phase.Within.advance {t₀ now : ℚ} {C : Circuit} (h : p.Within t₀ C)
    (hmode : C.mode = .closed ∨ C.mode = .opened ∧ ∃ q, C.openedAt = some q ∧ t₀ ≤ q)
    (ht₀ : t₀ ≤ now) (hnow : now - t₀ < cb.recoveryTimeout) :
    (p.advance cb o C now).Within t₀ C := by
  have hadv := p.advanced cb o C now
  generalize p.advance cb o C now = p' at hadv
  cases hadv with
  | readOpen n hopen => exact hopen
  | dated n hq =>
    rcases hmode with hclosed | ⟨-, q', hq', hle⟩
    · cases hclosed.symm.trans h
    · rw [hq] at hq'
      cases hq'
      exact ⟨_, rfl, hle⟩
  | elapsed n hv hover =>
    obtain ⟨q, rfl, hle⟩ := h
    cases hv
    exact absurd hover (by linarith)
  | clocked n s hcall => exact ht₀
  | _ => trivial

/-- What a call knows stays so while an OPEN circuit stays OPEN. -/
theorem Phase.Within.mono {t₀ : ℚ} {C C' : Circuit} (h : p.Within t₀ C)
    (hmode : C.mode = .opened → C'.mode = .opened) : p.Within t₀ C' := by
  cases p with
  | dating n => exact hmode h
  | _ => exact h

/-- The changes a call of the run may make. -/
theorem change_within {t₀ : ℚ} {C : Circuit} {x : Change} (hx : p.change o = some x)
    (hfits : p.Fits o) (hwithin : p.Within t₀ C) (hsuccess : o.call ≠ .recordSuccess)
    (hreset : o.call ≠ .reset) :
    p = .counting ∧ x = .count ∨ ∃ n s t, p = .opening n s t ∧ x = .turn .opened t ∧ t₀ ≤ t := by
  rcases Phase.change_cases hx with hcount | ⟨n, q, τ, rfl, -⟩ | ⟨n, -, hcall, -⟩ |
    ⟨n, s, τ, rfl, rfl⟩ | ⟨rfl, -⟩ | ⟨rfl, -⟩
  · exact Or.inl hcount
  · exact absurd hwithin id
  · exact absurd hcall hsuccess
  · exact Or.inr ⟨n, s, τ, rfl, rfl, hwithin⟩
  · exact absurd hfits hsuccess
  · exact absurd hfits hreset

/-- A call that is about to open the circuit stays so when it finds it CLOSED. -/
theorem poised_advance {C : Circuit} {now : ℚ} (hp : p.poised cb o = true)
    (hlive : p.live cb o = true) (hfits : p.Fits o) (hsuccess : o.call ≠ .recordSuccess)
    (hclosed : C.mode = .closed) (hx : p.change o = none) :
    (p.advance cb o C now).poised cb o = true := by
  have hadv := p.advanced cb o C now
  generalize p.advance cb o C now = p' at hadv
  cases hadv with
  | readOpen n hopen => cases hclosed.symm.trans hopen
  | read n hne =>
    have hsome : n.isSome = true := by
      cases n with
      | none => cases hp
      | some n => rfl
    have hp' : (n.any fun n => decide (cb.failureThreshold ≤ n)) = true := hp
    simp [Phase.poised, Phase.trips, hclosed, hp', hfits.2.mp hsome]
  | closed n s hcall => exact absurd hcall hsuccess
  | clocked => rfl
  | opened => cases hx
  | _ => cases hp

/-- The failures counted, after an await. -/
theorem failuresCounted_called (id : Str) {t : ℕ} {th th' : Caller} {w : Server}
    (hth : c.threads[t]? = some th) (ho : th'.origin = th.origin) {C : Circuit} {now : ℚ}
    (hph : Caller.phase cb th' = (Caller.phase cb th).advance cb th.origin C now) :
    failuresCounted cb id ⟨w, c.threads.set t th'⟩ = failuresCounted cb id c +
      if th.origin = ⟨id, .recordFailure⟩ ∧ Caller.phase cb th = .counting then 1 else 0 := by
  have hne : Caller.phase cb th' ≠ .counting := by
    intro h
    have hadv := (Caller.phase cb th).advanced cb th.origin C now
    rw [← hph, h] at hadv
    generalize Caller.phase cb th = p at hadv
    cases hadv
  have hset := countP_set_add (y := th') hth fun th : Caller =>
    decide (th.origin = ⟨id, .recordFailure⟩) && decide (Caller.phase cb th ≠ .counting)
  unfold failuresCounted
  by_cases horigin : th.origin = ⟨id, .recordFailure⟩
  · by_cases hcount : Caller.phase cb th = .counting
    · simpa [ho, horigin, hcount, hne] using hset
    · simpa [ho, horigin, hcount, hne] using hset
  · simpa [ho, horigin] using hset

section called

variable {t₀ : ℚ} {n₀ t : ℕ} {th th' : Caller}

/-- The state of the run after a change of a call for the endpoint. -/
theorem Rising.of_called {w : Server} (h : Rising cb th.origin.endpoint t₀ n₀ c)
    (hth : c.threads[t]? = some th)
    (hlive : (Caller.phase cb th).live cb th.origin = true) (ho : th'.origin = th.origin)
    (hph : Caller.phase cb th' = (Caller.phase cb th).advance cb th.origin
      (.of c.world th.origin.endpoint) c.world.now)
    (ht₀ : t₀ ≤ c.world.now) (hnow : c.world.now - t₀ < cb.recoveryTimeout)
    (hopen : (Circuit.of c.world th.origin.endpoint).mode = .opened →
      (Circuit.of w th.origin.endpoint).mode = .opened)
    (hmode : (Circuit.of w th.origin.endpoint).mode = .closed ∨
      (Circuit.of w th.origin.endpoint).mode = .opened ∧
        ∃ q, (Circuit.of w th.origin.endpoint).openedAt = some q ∧ t₀ ≤ q)
    (hcounter : n₀ < failuresCounted cb th.origin.endpoint ⟨w, c.threads.set t th'⟩ →
      ∃ m d, (Circuit.of w th.origin.endpoint).counter = some (m, d) ∧
        (failuresCounted cb th.origin.endpoint ⟨w, c.threads.set t th'⟩ : ℤ) ≤ n₀ + m ∧
          t₀ + cb.failureWindow ≤ d)
    (hopening : n₀ < failuresCounted cb th.origin.endpoint ⟨w, c.threads.set t th'⟩ →
      cb.failureThreshold + n₀ ≤
          failuresCounted cb th.origin.endpoint ⟨w, c.threads.set t th'⟩ →
        (Circuit.of w th.origin.endpoint).mode = .opened ∨
          ∃ u ∈ c.threads.set t th', u.origin.endpoint = th.origin.endpoint ∧
            (Caller.phase cb u).poised cb u.origin = true) :
    Rising cb th.origin.endpoint t₀ n₀ ⟨w, c.threads.set t th'⟩ := by
  have hm : th ∈ c.threads := List.mem_of_getElem? hth
  refine ⟨hmode, fun u hu hid hulive => ?_, fun u hu hid => ?_, hcounter, hopening⟩
  · rcases List.mem_or_eq_of_mem_set hu with hu | rfl
    · exact h.calls u hu hid hulive
    · rw [ho]
      exact h.calls th hm rfl hlive
  · rcases List.mem_or_eq_of_mem_set hu with hu | rfl
    · exact (h.within u hu hid).mono hopen
    · rw [hph]
      exact ((h.within th hm rfl).advance h.mode ht₀ hnow).mono hopen

/-- The failures that were counted are on record, as long as the failure window is not over. -/
theorem Rising.counted_le {id : Str} (h : Rising cb id t₀ n₀ c)
    (hpos : ∀ x, (Circuit.of c.world id).counter = some x → 0 ≤ x.1)
    (hW : c.world.now - t₀ < cb.failureWindow) :
    (failuresCounted cb id c : ℤ) ≤ n₀ + (Circuit.of c.world id).failures c.world.now := by
  by_cases hn : n₀ < failuresCounted cb id c
  · obtain ⟨m, d, hmd, hle, hd⟩ := h.counter hn
    unfold Circuit.failures
    rw [hmd]
    dsimp only
    rw [if_pos (by linarith)]
    exact hle
  · have := failures_nonneg hpos c.world.now
    omega

/-- An await that changes nothing leaves a call that is about to open the circuit, unless the
circuit is OPEN. -/
theorem Rising.opening_of_none (h : Rising cb th.origin.endpoint t₀ n₀ c)
    (hfits : (Caller.phase cb th).Fits th.origin) (hth : c.threads[t]? = some th)
    (hlive : (Caller.phase cb th).live cb th.origin = true) (ho : th'.origin = th.origin)
    (hph : Caller.phase cb th' = (Caller.phase cb th).advance cb th.origin
      (.of c.world th.origin.endpoint) c.world.now)
    (hx : (Caller.phase cb th).change th.origin = none)
    (hn : n₀ < failuresCounted cb th.origin.endpoint c)
    (hF : cb.failureThreshold + n₀ ≤ failuresCounted cb th.origin.endpoint c) :
    (Circuit.of c.world th.origin.endpoint).mode = .opened ∨
      ∃ u ∈ c.threads.set t th', u.origin.endpoint = th.origin.endpoint ∧
        (Caller.phase cb u).poised cb u.origin = true := by
  have hself : th' ∈ c.threads.set t th' :=
    List.mem_set (List.getElem?_eq_some_iff.mp hth).1 _
  rcases h.mode with hclosed | ⟨hopen, -⟩
  · rcases h.opening hn hF with hopen | ⟨u, hu, hid, hpoised⟩
    · exact Or.inl hopen
    · by_cases huth : u = th
      · subst huth
        refine Or.inr ⟨th', hself, by rw [ho], ?_⟩
        rw [hph, ho]
        exact poised_advance hpoised hlive hfits (h.calls u hu rfl hlive).1 hclosed hx
      · exact Or.inr ⟨u, mem_set_of_ne hth hu huth, hid, hpoised⟩
  · exact Or.inl hopen

section changes

variable {w : Server} (h : Rising cb th.origin.endpoint t₀ n₀ c) (hth : c.threads[t]? = some th)
  (hlive : (Caller.phase cb th).live cb th.origin = true) (ho : th'.origin = th.origin)
  (hph : Caller.phase cb th' = (Caller.phase cb th).advance cb th.origin
    (.of c.world th.origin.endpoint) c.world.now)
  (ht₀ : t₀ ≤ c.world.now) (hR : c.world.now - t₀ < cb.recoveryTimeout)

include h hth hlive ho hph ht₀ hR

/-- An await that changes nothing. -/
theorem Rising.unchanged (hfits : (Caller.phase cb th).Fits th.origin)
    (hx : (Caller.phase cb th).change th.origin = none)
    (hC : Circuit.of w th.origin.endpoint = .of c.world th.origin.endpoint) :
    Rising cb th.origin.endpoint t₀ n₀ ⟨w, c.threads.set t th'⟩ := by
  have hne : Caller.phase cb th ≠ .counting := by
    intro hp
    rw [hp] at hx
    cases hx
  have hk := failuresCounted_called th.origin.endpoint (w := w) hth ho hph
  rw [if_neg fun h => hne h.2, Nat.add_zero] at hk
  refine h.of_called hth hlive ho hph ht₀ hR ?_ ?_ ?_ ?_
  · rw [hC]
    exact id
  · rw [hC]
    exact h.mode
  · rw [hC, hk]
    exact h.counter
  · rw [hC, hk]
    exact h.opening_of_none hfits hth hlive ho hph hx

/-- A failure is counted. -/
theorem Rising.counted (hfits : (Caller.phase cb th).Fits th.origin)
    (hpos : ∀ x, (Circuit.of c.world th.origin.endpoint).counter = some x → 0 ≤ x.1)
    (hW : c.world.now - t₀ < cb.failureWindow) (hp : Caller.phase cb th = .counting)
    (hC : Circuit.of w th.origin.endpoint =
      (Circuit.of c.world th.origin.endpoint).apply cb c.world.now .count) :
    Rising cb th.origin.endpoint t₀ n₀ ⟨w, c.threads.set t th'⟩ := by
  rw [hp] at hfits
  have horigin : th.origin = ⟨th.origin.endpoint, .recordFailure⟩ := by
    rw [← (hfits : th.origin.call = .recordFailure)]
  have hk := failuresCounted_called th.origin.endpoint (w := w) hth ho hph
  rw [if_pos ⟨horigin, hp⟩] at hk
  have hcount := h.counted_le hpos hW
  have hwindow : 0 < cb.failureWindow := by
    have : (0 : ℚ) < cb.failureWindow := by linarith
    exact_mod_cast this
  refine h.of_called hth hlive ho hph ht₀ hR ?_ ?_ ?_ ?_
  · rw [hC]
    exact id
  · rw [hC]
    exact h.mode
  · intro _
    refine ⟨_, _, by rw [hC]; exact Circuit.counter_count.mpr ⟨hwindow, rfl⟩, ?_, ?_⟩
    · rw [hk]
      push_cast
      omega
    · linarith
  · intro _ hF
    rw [hk] at hF
    refine Or.inr ⟨th', List.mem_set (List.getElem?_eq_some_iff.mp hth).1 _, by rw [ho], ?_⟩
    rw [hph, hp]
    refine decide_eq_true ?_
    push_cast at hF
    omega

/-- The circuit is opened. -/
theorem Rising.opened {n : Option ℤ} {s : CircuitState} {τ : ℚ} (hτ : t₀ ≤ τ)
    (hp : Caller.phase cb th = .opening n s τ)
    (hC : Circuit.of w th.origin.endpoint =
      (Circuit.of c.world th.origin.endpoint).apply cb c.world.now (.turn .opened τ)) :
    Rising cb th.origin.endpoint t₀ n₀ ⟨w, c.threads.set t th'⟩ := by
  have hne : Caller.phase cb th ≠ .counting := by
    rw [hp]
    exact fun h => nomatch h
  have hk := failuresCounted_called th.origin.endpoint (w := w) hth ho hph
  rw [if_neg fun h => hne h.2, Nat.add_zero] at hk
  refine h.of_called hth hlive ho hph ht₀ hR ?_ ?_ ?_ ?_
  · rw [hC]
    exact fun _ => rfl
  · rw [hC]
    exact Or.inr ⟨rfl, τ, rfl, hτ⟩
  · rw [hC, hk]
    exact h.counter
  · rw [hC]
    exact fun _ _ => Or.inl rfl

end changes

/-- An await of a call for the endpoint. -/
theorem Rising.called (h : Rising cb th.origin.endpoint t₀ n₀ c) (hsound : Sound cb c)
    (hfits : (Caller.phase cb th).Fits th.origin)
    (hpos : ∀ x, (Circuit.of c.world th.origin.endpoint).counter = some x → 0 ≤ x.1)
    (hth : c.threads[t]? = some th)
    (hlive : (Caller.phase cb th).live cb th.origin = true) (ho : th'.origin = th.origin)
    (hph : Caller.phase cb th' = (Caller.phase cb th).advance cb th.origin
      (.of c.world th.origin.endpoint) c.world.now)
    (ht₀ : t₀ ≤ c.world.now) (hW : c.world.now - t₀ < cb.failureWindow)
    (hR : c.world.now - t₀ < cb.recoveryTimeout) :
    Rising cb th.origin.endpoint t₀ n₀ ⟨changed cb th.origin.endpoint c.world
      ((Caller.phase cb th).change th.origin), c.threads.set t th'⟩ := by
  have hm : th ∈ c.threads := List.mem_of_getElem? hth
  obtain ⟨hsuccess, hreset⟩ := h.calls th hm rfl hlive
  have hC := of_changed cb th.origin.endpoint hsound.tidy
    ((Caller.phase cb th).change th.origin) th.origin.endpoint
  rw [if_pos rfl] at hC
  cases hx : (Caller.phase cb th).change th.origin with
  | none =>
    rw [hx] at hC
    exact h.unchanged hth hlive ho hph ht₀ hR hfits hx hC
  | some x =>
    rw [hx] at hC
    rcases change_within hx hfits (h.within th hm rfl) hsuccess hreset with
      ⟨hp, rfl⟩ | ⟨n, s, τ, hp, rfl, hτ⟩
    · exact h.counted hth hlive ho hph ht₀ hR hfits hpos hW hp hC
    · exact h.opened hth hlive ho hph ht₀ hR hτ hp hC

/-- An await of a call for another endpoint. -/
theorem Rising.elsewhere {id : Str} (h : Rising cb id t₀ n₀ c) (hid : id ≠ th.origin.endpoint)
    (hsound : Sound cb c) (hth : c.threads[t]? = some th) (ho : th'.origin = th.origin)
    (hph : Caller.phase cb th' = (Caller.phase cb th).advance cb th.origin
      (.of c.world th.origin.endpoint) c.world.now) :
    Rising cb id t₀ n₀ ⟨changed cb th.origin.endpoint c.world
      ((Caller.phase cb th).change th.origin), c.threads.set t th'⟩ := by
  have hC := of_changed cb th.origin.endpoint hsound.tidy
    ((Caller.phase cb th).change th.origin) id
  have hk := failuresCounted_called id
    (w := changed cb th.origin.endpoint c.world ((Caller.phase cb th).change th.origin))
    hth ho hph
  rw [if_neg hid] at hC
  rw [if_neg fun h => hid (by rw [h.1]), Nat.add_zero] at hk
  have hold {u : Caller} (hu : u ∈ c.threads.set t th') (huid : u.origin.endpoint = id) :
      u ∈ c.threads := by
    rcases List.mem_or_eq_of_mem_set hu with hu | rfl
    · exact hu
    · exact absurd (huid.symm.trans (by rw [ho])) hid
  refine ⟨?_, fun u hu huid => h.calls u (hold hu huid) huid, fun u hu huid => ?_, ?_, ?_⟩
  · rw [hC]
    exact h.mode
  · rw [hC]
    exact h.within u (hold hu huid) huid
  · rw [hC, hk]
    exact h.counter
  · rw [hC, hk]
    intro hn hF
    rcases h.opening hn hF with hopen | ⟨u, hu, huid, hpoised⟩
    · exact Or.inl hopen
    · refine Or.inr ⟨u, mem_set_of_ne hth hu ?_, huid, hpoised⟩
      rintro rfl
      exact hid huid.symm

end called

/-- A call that starts has counted no failure. -/
theorem failuresCounted_started (cb : CircuitBreaker) (id : Str) (c : Config) (o : Origin) :
    failuresCounted cb id ⟨c.world, c.threads ++ [o.start cb]⟩ = failuresCounted cb id c := by
  unfold failuresCounted
  rw [List.countP_append, List.countP_singleton, if_neg, Nat.add_zero]
  rw [phase_start]
  rcases Phase.start_cases o with ⟨-, h⟩ | ⟨ho, -⟩ | ⟨ho, -, -⟩
  · simp [h]
  · have hne : o ≠ ⟨id, .recordFailure⟩ := by
      rintro rfl
      cases ho
    simp [Origin.start, hne]
  · have hne : o ≠ ⟨id, .recordFailure⟩ := by
      rintro rfl
      exact ho rfl
    simp [Origin.start, hne]

/-- A call starts. -/
theorem Rising.started {t₀ : ℚ} {n₀ : ℕ} (h : Rising cb id t₀ n₀ c)
    (hok : Unrelieved id c (.start o)) :
    Rising cb id t₀ n₀ ⟨c.world, c.threads ++ [o.start cb]⟩ := by
  have hk := failuresCounted_started cb id c o
  refine ⟨h.mode, fun u hu hid hulive => ?_, fun u hu hid => ?_, ?_, ?_⟩
  · rcases List.mem_append.mp hu with hu | hu
    · exact h.calls u hu hid hulive
    · rw [List.mem_singleton.mp hu] at hid ⊢
      exact hok hid
  · rcases List.mem_append.mp hu with hu | hu
    · exact h.within u hu hid
    · rw [List.mem_singleton.mp hu, phase_start]
      rcases Phase.start_cases o with ⟨-, h⟩ | ⟨-, h⟩ | ⟨-, -, h⟩ <;> rw [h] <;> trivial
  · rw [hk]
    exact h.counter
  · rw [hk]
    intro hn hF
    rcases h.opening hn hF with hopen | ⟨u, hu, hid, hpoised⟩
    · exact Or.inl hopen
    · exact Or.inr ⟨u, List.mem_append_left _ hu, hid, hpoised⟩

/-- A move of the run, while neither the failure window nor the recovery timeout is over. -/
theorem Rising.moved {t₀ : ℚ} {n₀ : ℕ} (h : Rising cb id t₀ n₀ c) (hsound : Sound cb c)
    (hfits : ∀ th ∈ c.threads, (Caller.phase cb th).Fits th.origin)
    (hpos : ∀ x, (Circuit.of c.world id).counter = some x → 0 ≤ x.1)
    (hok : Unrelieved id c a) (hm : Moved cb c a c') (ht₀ : t₀ ≤ c.world.now)
    (hW : c.world.now - t₀ < cb.failureWindow) (hR : c.world.now - t₀ < cb.recoveryTimeout) :
    Rising cb id t₀ n₀ c' := by
  cases hm with
  | started o => exact h.started hok
  | called hth hlive ho hph =>
    rename_i t th th'
    by_cases hid : id = th.origin.endpoint
    · subst hid
      exact h.called hsound (hfits th (List.mem_of_getElem? hth)) hpos hth hlive ho hph ht₀ hW hR
    · exact h.elsewhere hid hsound hth ho hph
  | ticked => exact ⟨h.mode, h.calls, h.within, h.counter, h.opening⟩

/-- The run of failures and looks, as long as neither the failure window nor the recovery timeout
is over. -/
theorem Runs.rising (h₀ : Reaches cb anyStep c₀) (hidle : Idle id c₀)
    (hclosed : (Circuit.of c₀.world id).mode = .closed)
    (hr : Runs (step cb) (Unrelieved id) c₀ c) : c₀.world.now ≤ c.world.now ∧
      (c.world.now - c₀.world.now < cb.failureWindow →
        c.world.now - c₀.world.now < cb.recoveryTimeout →
          Rising cb id c₀.world.now (failuresStarted id c₀) c) := by
  refine Effect.Runs.invariant (J := fun c => c₀.world.now ≤ c.world.now ∧
      (c.world.now - c₀.world.now < cb.failureWindow →
        c.world.now - c₀.world.now < cb.recoveryTimeout →
          Rising cb id c₀.world.now (failuresStarted id c₀) c)) hr ⟨le_rfl, fun _ _ => ?_⟩ ?_
  · have hended : ∀ th ∈ c₀.threads, th.origin.endpoint = id →
        (Caller.phase cb th).live cb th.origin = false := by
      intro th hth hid
      rw [h₀.sound.live_eq_not_ended hth, hidle th hth hid]
      rfl
    have hle : failuresCounted cb id c₀ ≤ failuresStarted id c₀ :=
      List.countP_mono_left fun th _ h => (Bool.and_eq_true_iff.mp h).1
    refine ⟨Or.inl hclosed, fun th hth hid hlive => ?_, fun th hth hid => ?_, fun hn => ?_,
      fun hn => ?_⟩
    · rw [hended th hth hid] at hlive
      cases hlive
    · have hlive := hended th hth hid
      cases hp : Caller.phase cb th with
      | dating n =>
        rw [hp] at hlive
        cases hlive
      | timing n v =>
        rw [hp] at hlive
        cases hlive
      | waking n q t =>
        rw [hp] at hlive
        cases hlive
      | opening n s t =>
        rw [hp] at hlive
        cases hlive
      | _ => trivial
    · omega
    · omega
  · rintro c a c' hrun ⟨hle, hc⟩ hok hs
    have hreach : Reaches cb anyStep c := h₀.runs hrun
    have hm := hreach.sound.moved hs
    refine ⟨hle.trans hm.now_le, fun hW hR => ?_⟩
    have hnow := hm.now_le
    exact (hc (by linarith) (by linarith)).moved hreach.sound hreach.fits
      (hreach.counter_nonneg id) hok hm hle (by linarith) (by linarith)

/-! ### Afterwards -/

/-- The phase of a call that finds the circuit OPEN since `q`. -/
def Phase.SeesOpen (q : ℚ) : Phase → Prop
  | .counting => True
  | .looking _ => True
  | .dating _ => True
  | .timing _ v => v = .float q
  | .saw _ s => s = .opened
  | _ => False

/-- The circuit is OPEN since `q`, the first `n` calls for it have ended, and the others find it
OPEN. -/
structure StaysOpen (cb : CircuitBreaker) (id : Str) (q : ℚ) (n : ℕ) (c : Config) : Prop where
  mode : (Circuit.of c.world id).mode = .opened
  openedAt : (Circuit.of c.world id).openedAt = some q
  old : ∀ t th, t < n → c.threads[t]? = some th → th.origin.endpoint = id →
    (Caller.phase cb th).live cb th.origin = false
  new : ∀ t th, n ≤ t → c.threads[t]? = some th → th.origin.endpoint = id →
    (Caller.phase cb th).SeesOpen q
  length : n ≤ c.threads.length

/-- A call that finds the circuit OPEN goes on to find it OPEN, before the recovery timeout is
over. -/
theorem Phase.SeesOpen.advance {q now : ℚ} {C : Circuit} (h : p.SeesOpen q)
    (hlive : p.live cb o = true) (hmode : C.mode = .opened) (hq : C.openedAt = some q)
    (hnow : now - q ≤ cb.recoveryTimeout) : (p.advance cb o C now).SeesOpen q := by
  have hadv := p.advanced cb o C now
  generalize p.advance cb o C now = p' at hadv
  cases hadv with
  | counted => trivial
  | readOpen => trivial
  | read n hne => exact absurd hmode hne
  | undated n hnone =>
    rw [hq] at hnone
    cases hnone
  | dated n hq' =>
    rw [hq] at hq'
    cases hq'
    rfl
  | undatable n hv =>
    cases (h : _ = Value.float q)
    cases hv
  | elapsed n hv hover =>
    cases (h : _ = Value.float q)
    cases hv
    exact absurd hover (by linarith)
  | early => rfl
  | closed n s hcall =>
    cases (h : s = .opened)
    unfold Phase.live at hlive
    simp [Phase.op_saw, Phase.trips] at hlive
  | clocked n s hcall =>
    cases (h : s = .opened)
    unfold Phase.live at hlive
    simp [Phase.op_saw, Phase.trips] at hlive
  | _ => exact absurd h id

/-- A call that finds the circuit OPEN leaves it so. -/
theorem change_seesOpen {q : ℚ} {x : Change} (h : p.SeesOpen q) (hx : p.change o = some x) :
    x = .count := by
  rcases Phase.change_cases hx with ⟨-, rfl⟩ | ⟨_, _, _, rfl, -⟩ | ⟨n, rfl, -, -⟩ |
    ⟨_, _, _, rfl, -⟩ | ⟨rfl, -⟩ | ⟨rfl, -⟩
  · rfl
  · exact absurd h id
  · cases (h : CircuitState.halfOpen = .opened)
  · exact absurd h id
  · exact absurd h id
  · exact absurd h id

/-- A move leaves the circuit OPEN, before the recovery timeout is over. -/
theorem StaysOpen.moved {q : ℚ} {n : ℕ} (h : StaysOpen cb id q n c) (hsound : Sound cb c)
    (hok : Unrelieved id c a) (hm : Moved cb c a c')
    (hnow : c.world.now - q ≤ cb.recoveryTimeout) : StaysOpen cb id q n c' := by
  have hcircuit : (Circuit.of c'.world id).mode = .opened ∧
      (Circuit.of c'.world id).openedAt = some q := by
    obtain hsame | ⟨t, th, x, rfl, hth, hx, hw⟩ := hm.world
    · rw [of_later hsame]
      exact ⟨h.mode, h.openedAt⟩
    · rw [hw, of_changed cb _ hsound.tidy]
      split_ifs with hid
      · have hne : n ≤ t := by
          by_contra hlt
          have hlive := h.old t th (by omega) hth hid.symm
          rw [Phase.live_of_change hx] at hlive
          cases hlive
        rw [change_seesOpen (h.new t th hne hth hid.symm) hx]
        exact ⟨h.mode, h.openedAt⟩
      · exact ⟨h.mode, h.openedAt⟩
  refine ⟨hcircuit.1, hcircuit.2, fun t th hlt hth hid => ?_, fun t th hle hth hid => ?_, ?_⟩
  · rcases hm.getElem? hth with hth | ⟨o, -, ht, -⟩ | ⟨th₀, -, hth₀, hlive, ho, -⟩
    · exact h.old t th hlt hth hid
    · have := h.length
      omega
    · rw [h.old t th₀ hlt hth₀ (by rw [← ho, hid])] at hlive
      cases hlive
  · rcases hm.getElem? hth with hth | ⟨o, rfl, -, rfl⟩ | ⟨th₀, -, hth₀, hlive, ho, hph⟩
    · exact h.new t th hle hth hid
    · rw [phase_start]
      rcases Phase.start_cases o with ⟨-, hstart⟩ | ⟨hcall, -⟩ | ⟨-, -, hstart⟩
      · rw [hstart]
        trivial
      · exact absurd hcall (hok hid).2
      · rw [hstart]
        trivial
    · have hid₀ : th₀.origin.endpoint = id := by rw [← ho, hid]
      rw [hph, hid₀]
      exact (h.new t th₀ hle hth₀ hid₀).advance hlive h.mode h.openedAt hnow
  · exact h.length.trans hm.length_le

/-- After the run, the circuit stays OPEN until the recovery timeout is over. -/
theorem Runs.staysOpen {q : ℚ} (h : Reaches cb anyStep c) (hidle : Idle id c)
    (hmode : (Circuit.of c.world id).mode = .opened)
    (hq : (Circuit.of c.world id).openedAt = some q)
    (hr : Runs (step cb) (Unrelieved id) c c') :
    c'.world.now - q ≤ cb.recoveryTimeout → StaysOpen cb id q c.threads.length c' := by
  refine Effect.Runs.invariant (J := fun c' => c'.world.now - q ≤ cb.recoveryTimeout →
    StaysOpen cb id q c.threads.length c') hr (fun _ => ?_) ?_
  · refine ⟨hmode, hq, fun t th _ hth hid => ?_, fun t th hle hth _ => ?_, le_rfl⟩
    · have hm : th ∈ c.threads := List.mem_of_getElem? hth
      rw [h.sound.live_eq_not_ended hm, hidle th hm hid]
      rfl
    · have := (List.getElem?_eq_some_iff.mp hth).1
      omega
  · intro c₁ a c₂ hrun hc hok hs hnow
    have hsound := (h.runs hrun).sound
    have hm := hsound.moved hs
    have hle := hm.now_le
    exact (hc (by linarith)).moved hsound hok hm (by linarith)

/-- A call of `is_allowed` that has found the circuit OPEN has answered no. -/
theorem denied_of_seesOpen {q : ℚ} (h : Sound cb c) {th : Caller} (hth : th ∈ c.threads)
    (hcall : th.origin.call = .isAllowed) (hsees : (Caller.phase cb th).SeesOpen q)
    (hended : th.prog.ended = true) : th.prog = .done (.allowed false) := by
  have hlive := h.live_eq_not_ended hth
  rw [hended] at hlive
  obtain ⟨n, hp⟩ : ∃ n, Caller.phase cb th = .saw n .opened := by
    cases hp : Caller.phase cb th with
    | saw n s =>
      rw [hp] at hsees
      cases (hsees : s = .opened)
      exact ⟨n, rfl⟩
    | waking n q t =>
      rw [hp] at hlive
      cases hlive
    | opening n s t =>
      rw [hp] at hlive
      cases hlive
    | finished =>
      rw [hp] at hsees
      exact absurd hsees id
    | failed x =>
      rw [hp] at hsees
      exact absurd hsees id
    | _ =>
      rw [hp] at hlive
      cases hlive
  have hanswer : (Caller.phase cb th).answer th.origin = .ok (.allowed false) := by
    rw [hp]
    unfold Phase.answer
    dsimp only
    rw [hcall]
    rfl
  cases hprog : th.prog with
  | done x =>
    have hx := (h.done hth hprog).2
    rw [hanswer] at hx
    cases hx
    rfl
  | raised x =>
    have hx := (h.raised hth hprog).2
    rw [hanswer] at hx
    cases hx
  | call e k =>
    rw [hprog] at hended
    cases hended

/-- **No lost failures**: a circuit that is CLOSED while no call for it is under way, and then gets
`n` failures, at least `failureThreshold` and at least one, within both the failure window and the
recovery timeout, next to any number of calls that look at it, is OPEN when all calls have ended,
with a time of opening in the run. Until more than the recovery timeout has passed since that time,
further calls of `is_allowed` answer no. -/
theorem no_lost_failures (h₀ : Reaches cb anyStep c₀) (hidle₀ : Idle id c₀)
    (hclosed : (Circuit.of c₀.world id).mode = .closed)
    (hr : Runs (step cb) (Unrelieved id) c₀ c) (hidle : Idle id c) {n : ℕ}
    (hn : failuresStarted id c = failuresStarted id c₀ + n) (hpos : 0 < n)
    (hF : cb.failureThreshold ≤ n) (hW : c.world.now - c₀.world.now < cb.failureWindow)
    (hR : c.world.now - c₀.world.now < cb.recoveryTimeout) :
    c.world.get (stateKey id) = some (.text CircuitState.opened.value) ∧
      ∃ q, c.world.get (openedAtKey id) = some (.float q) ∧ c₀.world.now ≤ q ∧ q ≤ c.world.now ∧
        ∀ c', Runs (step cb) (Unrelieved id) c c' → c'.world.now - q ≤ cb.recoveryTimeout →
          ∀ t th, c.threads.length ≤ t → c'.threads[t]? = some th →
            th.origin = ⟨id, .isAllowed⟩ → th.prog.ended = true →
              th.prog = .done (.allowed false) := by
  have hreach : Reaches cb anyStep c := h₀.runs hr
  have hsound := hreach.sound
  have hrising := (Runs.rising h₀ hidle₀ hclosed hr).2 hW hR
  have hended : ∀ th ∈ c.threads, th.origin.endpoint = id →
      (Caller.phase cb th).live cb th.origin = false := by
    intro th hth hid
    rw [hsound.live_eq_not_ended hth, hidle th hth hid]
    rfl
  -- every failure that was started has been counted
  have hcounted : failuresCounted cb id c = failuresStarted id c := by
    refine List.countP_congr fun th hth => ?_
    rw [Bool.and_eq_true_iff]
    refine ⟨fun h => h.1, fun h => ⟨h, decide_eq_true fun hp => ?_⟩⟩
    have hlive := hended th hth (by rw [of_decide_eq_true h])
    rw [hp] at hlive
    cases hlive
  have hopen : (Circuit.of c.world id).mode = .opened := by
    rcases hrising.opening (by omega) (by omega) with hopen | ⟨th, hth, hid, hpoised⟩
    · exact hopen
    · have hlive := hended th hth hid
      cases hp : Caller.phase cb th with
      | saw n s =>
        rw [hp] at hlive hpoised
        obtain ⟨hcall, htrips⟩ := Bool.and_eq_true_iff.mp hpoised
        unfold Phase.live at hlive
        simp [Phase.op_saw, of_decide_eq_true hcall, htrips] at hlive
      | looking n =>
        rw [hp] at hlive
        cases hlive
      | opening n s t =>
        rw [hp] at hlive
        cases hlive
      | _ =>
        rw [hp] at hpoised
        cases hpoised
  obtain ⟨q, hq, hle⟩ : ∃ q, (Circuit.of c.world id).openedAt = some q ∧ c₀.world.now ≤ q := by
    rcases hrising.mode with hmode | ⟨-, hq⟩
    · cases hopen.symm.trans hmode
    · exact hq
  have hstate : (Circuit.of c.world id).state = some .opened := by
    unfold Circuit.mode at hopen
    cases hs : (Circuit.of c.world id).state with
    | none =>
      rw [hs] at hopen
      cases hopen
    | some s =>
      rw [hs] at hopen
      exact congrArg some hopen
  refine ⟨hsound.tidy.get_stateKey_eq_some.mpr hstate, q, ?_, hle, ?_, ?_⟩
  · rw [hsound.tidy.get_openedAtKey, hq]
    rfl
  · obtain ⟨now, hm, hqnow⟩ := hreach.dated.opening id q hq
    exact hqnow.trans (hreach.le_now _ hm)
  · intro c' hr' hnow t th hlt hth ho hprog
    have hstays := Runs.staysOpen hreach hidle hopen hq hr' hnow
    exact denied_of_seesOpen (hreach.runs hr').sound (List.mem_of_getElem? hth) (by rw [ho])
      (hstays.new t th hlt hth (by rw [ho])) hprog

/-- Three failures overlap: two of them reach the threshold of 2, both find the circuit CLOSED, and
the one that reads its clock first writes last. -/
theorem no_lost_failures_of_overlap : ∃ c,
    Runs (step sampleBreaker) (Unrelieved sampleEndpoint) (initial 0) c ∧
      failuresStarted sampleEndpoint c = failuresStarted sampleEndpoint (initial 0) + 3 ∧
      c.world.get (stateKey sampleEndpoint) = some (.text CircuitState.opened.value) ∧
      ∃ q, c.world.get (openedAtKey sampleEndpoint) = some (.float q) ∧ 0 ≤ q ∧
        q ≤ c.world.now := by
  have hrun : (runActs (step sampleBreaker) (fun c a => decide (Unrelieved sampleEndpoint c a))
      (initial 0) (sampleCall 0 1 .recordFailure ++ sampleCall 1 1 .recordFailure ++
        sampleCall 2 1 .recordFailure ++ [.call 0, .call 1, .call 2, .call 1, .tick 5, .call 2,
          .call 2, .call 1])).any
        (fun c => decide ((∀ th ∈ c.threads, th.prog.ended = true) ∧ c.world.now = 5 ∧
          failuresStarted sampleEndpoint c = 3)) = true := by
    decide +kernel
  obtain ⟨c, hc, hfacts⟩ := exists_run (Unrelieved sampleEndpoint) (fun _ _ => of_decide_eq_true)
    hrun
  obtain ⟨hended, hnow, hstarted⟩ := of_decide_eq_true hfacts
  have hbefore : (Circuit.of (initial 0).world sampleEndpoint).mode = .closed := by
    rw [show Circuit.of (initial 0).world sampleEndpoint = .fresh from (Holds.empty _).ofKeys]
    rfl
  have hinitial : Reaches sampleBreaker anyStep (initial 0) := ⟨0, .refl⟩
  have hfive : c.world.now - (initial 0).world.now = 5 := by
    rw [hnow]
    norm_num [initial]
  obtain ⟨hopen, q, hq, hle, hqnow, -⟩ := no_lost_failures (n := 3) hinitial
    (fun _ hth => (nomatch hth)) hbefore hc (fun th hth _ => hended th hth) hstarted (by decide)
    (by decide) (by rw [hfive]; norm_num [sampleBreaker]) (by rw [hfive]; norm_num [sampleBreaker])
  exact ⟨c, hc, hstarted, hopen, q, hq, hle, hqnow⟩

end CircuitBreaker

end WebhookRelay

import WebhookRelay.Circuit.NoLostFailures
import WebhookRelay.Circuit.Transitions

/-!
# Calls that do not overlap

When a call is only started while no other call for its endpoint is under way (`NoOverlap`), a call
that is under way knows its circuit as it is (`Phase.Knows`): nobody else has changed it since the
call has read it. So every step of such a run is fresh and settled (`Reaches.fresh`,
`Reaches.settled`), which are the conditions under which the circuit keeps to its diagram and opens
only after enough failures.
-/

namespace WebhookRelay

open Data Data.Redis Effect

namespace CircuitBreaker

variable {cb : CircuitBreaker} {c c' : Config} {a : Action} {o : Origin} {p : Phase} {C : Circuit}

/-! ### The condition -/

/-- A call is only started when every call for its endpoint has ended. -/
def NoOverlap (c : Config) : Action → Prop
  | .start o => Idle o.endpoint c
  | _ => True

/-- Two calls for one endpoint are not both under way. -/
def NotBoth (th th' : Caller) : Prop :=
  th.origin.endpoint = th'.origin.endpoint → th.prog.ended = true ∨ th'.prog.ended = true

theorem NotBoth.symm (th th' : Caller) (h : NotBoth th th') : NotBoth th' th :=
  fun hid => (h hid.symm).symm

/-- No two calls for one endpoint are under way. -/
theorem Reaches.apart (h : Reaches cb NoOverlap c) : Effect.Apart NotBoth c.threads := by
  obtain ⟨now, hr⟩ := h
  refine hr.invariant (J := fun c => Effect.Apart NotBoth c.threads) .nil
    fun c a c' _ hc ha hs => ?_
  cases stepped hs with
  | started o => exact hc.append NotBoth.symm fun th hth hid => Or.inr (ha th hth hid.symm)
  | called hth hp =>
    refine hc.set NotBoth.symm fun u uh hu huh hid => ?_
    rcases hc _ _ _ _ (Ne.symm hu) hth huh hid with h | h
    · rw [hp] at h
      cases h
    · exact Or.inr h
  | ticked => exact hc

/-! ### What a call knows -/

/-- What a call that is under way has read of its circuit, or has written there, is so. -/
def Phase.Knows (C : Circuit) : Phase → Prop
  | .dating _ => C.mode = .opened
  | .timing _ v => C.mode = .opened ∧ ∃ q, C.openedAt = some q ∧ v = .float q
  | .waking _ q _ => C.mode = .opened ∧ C.openedAt = some q
  | .saw _ s => C.mode = s
  | .opening _ s _ => C.mode = s
  | .clearing => C.mode = .closed
  | _ => True

/-- A call knows nothing yet when it starts. -/
theorem Phase.knows_start (o : Origin) (C : Circuit) : (Phase.start o).Knows C := by
  rcases Phase.start_cases o with ⟨-, h⟩ | ⟨-, h⟩ | ⟨-, -, h⟩ <;> rw [h] <;> trivial

/-- An await that changes nothing teaches the call what it has read; one that changes the circuit
is the call's own. -/
theorem Phase.Knows.advance (h : p.Knows C) (hlive : p.live cb o = true) (now : ℚ) :
    (p.advance cb o C now).Knows (C.changed cb now (p.change o)) := by
  have hadv := p.advanced cb o C now
  generalize p.advance cb o C now = p' at hadv
  cases hadv with
  | readOpen n hopen => exact hopen
  | read n hopen => rfl
  | undated n hnone => exact h
  | dated n hdated => exact ⟨h, _, hdated, rfl⟩
  | elapsed n hv hover =>
    obtain ⟨hopen, q, hq, rfl⟩ := h
    cases hv
    exact ⟨hopen, hq⟩
  | early n hv hover => exact h.1
  | woken n q t => rfl
  | closed n s hcall =>
    -- CLOSED is only written on HALF_OPEN
    unfold Phase.live at hlive
    rw [Phase.op_saw] at hlive
    by_cases hclose : o.call = .recordSuccess ∧ s = .halfOpen
    · rw [show (Phase.saw n s).change o = some (.turn .closed 0) from if_pos hclose]
      rfl
    · have hfail : ¬(o.call = .recordFailure ∧ Phase.trips cb n s = true) := by
        rw [hcall]
        exact fun h => nomatch h.1
      rw [if_neg hclose, if_neg hfail] at hlive
      cases hlive
  | clocked n s hcall =>
    rw [show (Phase.saw n s).change o = none from if_neg fun hclose => hcall hclose.1]
    exact h
  | _ => trivial

/-- Two calls for one endpoint that are under way are one. -/
theorem Reaches.eq_of_live (h : Reaches cb NoOverlap c) {t u : ℕ} {th uh : Caller}
    (hth : c.threads[t]? = some th) (huh : c.threads[u]? = some uh)
    (hid : uh.origin.endpoint = th.origin.endpoint)
    (hlive : (Caller.phase cb th).live cb th.origin = true)
    (hlive' : (Caller.phase cb uh).live cb uh.origin = true) : u = t := by
  by_contra hut
  rw [h.sound.live_eq_not_ended (List.mem_of_getElem? hth)] at hlive
  rw [h.sound.live_eq_not_ended (List.mem_of_getElem? huh)] at hlive'
  rcases h.apart _ _ _ _ hut huh hth hid with hended | hended
  · rw [hended] at hlive'
    cases hlive'
  · rw [hended] at hlive
    cases hlive

/-- **A call that is alone with its circuit knows it**, in every reachable state. -/
theorem Reaches.knows (h : Reaches cb NoOverlap c) : ∀ th ∈ c.threads,
    (Caller.phase cb th).live cb th.origin = true →
      (Caller.phase cb th).Knows (.of c.world th.origin.endpoint) := by
  refine (h.invariant (J := fun c => ∀ th ∈ c.threads,
    (Caller.phase cb th).live cb th.origin = true →
      (Caller.phase cb th).Knows (.of c.world th.origin.endpoint))
    (fun _ _ hth => nomatch hth) ?_).2
  intro c a c' hr hsound hc ha hm uh huh hlive
  cases hm with
  | started o =>
    rcases List.mem_append.mp huh with huh | huh
    · exact hc uh huh hlive
    · rw [List.mem_singleton.mp huh]
      exact Phase.knows_start o _
  | called hth hlive₀ ho hph =>
    rename_i t th th'
    obtain ⟨u, hu⟩ := List.mem_iff_getElem?.mp huh
    have hcircuit := of_changed cb th.origin.endpoint hsound.tidy
      ((Caller.phase cb th).change th.origin) uh.origin.endpoint
    rcases getElem?_set_cases hu with ⟨rfl, rfl⟩ | ⟨hut, hu⟩
    · rw [ho, if_pos rfl] at hcircuit
      rw [ho, hcircuit, hph]
      exact (hc th (List.mem_of_getElem? hth) hlive₀).advance hlive₀ _
    · -- the other calls that are under way are for other endpoints
      have hid : uh.origin.endpoint ≠ th.origin.endpoint := fun hid =>
        hut (hr.eq_of_live hth hu hid hlive₀ hlive)
      rw [if_neg hid] at hcircuit
      rw [hcircuit]
      exact hc uh (List.mem_of_getElem? hu) hlive
  | ticked hn => exact hc uh huh hlive

/-! ### Every step is fresh and settled -/

/-- A call that knows its circuit, or has made its last await, does not write on a stale read. -/
theorem Phase.fresh_of_knows (h : p.live cb o = true → p.Knows C) : p.fresh o C = true := by
  cases p with
  | waking n q t => exact decide_eq_true (Or.inr (h rfl))
  | saw n s =>
    refine decide_eq_true fun ho hs => ?_
    have hlive : (Phase.saw n s).live cb o = true := by
      unfold Phase.live
      rw [Phase.op_saw, if_pos ⟨ho, hs⟩]
      rfl
    rw [show C.mode = s from h hlive, hs]
    decide
  | _ => rfl

/-- **Every step of a run without overlaps is fresh.** -/
theorem Reaches.fresh (h : Reaches cb NoOverlap c) (a : Action) : Fresh cb c a := by
  cases a with
  | start | tick => trivial
  | call t => exact fun th hth => Phase.fresh_of_knows (h.knows th (List.mem_of_getElem? hth))

/-- A call that is about to open the circuit has a next await. -/
theorem Phase.live_of_poised (h : p.poised cb o = true) : p.live cb o = true := by
  cases p with
  | looking | opening => rfl
  | saw n s =>
    obtain ⟨hcall, htrips⟩ := Bool.and_eq_true_iff.mp h
    have hcall : o.call = .recordFailure := of_decide_eq_true hcall
    have hclose : ¬(o.call = .recordSuccess ∧ s = .halfOpen) := by
      rw [hcall]
      exact fun h => nomatch h.1
    unfold Phase.live
    rw [Phase.op_saw, if_neg hclose, if_pos ⟨hcall, htrips⟩]
    rfl
  | _ => cases h

/-- The other calls for the endpoint have ended. -/
theorem Reaches.calm_of_call (h : Reaches cb NoOverlap c) {t : ℕ} {th : Caller}
    (hth : c.threads[t]? = some th) (hlive : (Caller.phase cb th).live cb th.origin = true)
    (hself : (Caller.phase cb th).poised cb th.origin = false) :
    calm cb c th.origin.endpoint = true := by
  refine List.all_eq_true.mpr fun uh huh => ?_
  obtain ⟨u, hu⟩ := List.mem_iff_getElem?.mp huh
  by_cases hid : uh.origin.endpoint = th.origin.endpoint
  · have hpoised : (Caller.phase cb uh).poised cb uh.origin = false := by
      by_contra hp
      have hp := Bool.eq_true_of_not_eq_false hp
      obtain rfl := h.eq_of_live hth hu hid hlive (Phase.live_of_poised hp)
      rw [hth] at hu
      cases hu
      rw [hself] at hp
      cases hp
    rw [hpoised, Bool.and_false]
    rfl
  · rw [decide_eq_false hid]
    rfl

/-- **Every step of a run without overlaps is settled.** -/
theorem Reaches.settled (h : Reaches cb NoOverlap c) (a : Action) : Settled cb c a := by
  cases a with
  | start | tick => trivial
  | call t =>
    intro th hth x hx
    have hlive : (Caller.phase cb th).live cb th.origin = true := Phase.live_of_change hx
    have hknows := h.knows th (List.mem_of_getElem? hth) hlive
    rcases Phase.change_cases hx with ⟨hp, rfl⟩ | ⟨n, q, τ, hp, rfl⟩ | ⟨n, hp, hcall, rfl⟩ |
      ⟨n, s, τ, hp, rfl⟩ | ⟨hp, rfl⟩ | ⟨hp, rfl⟩
    · -- nobody is about to delete the counter
      have hnone : halfCleared cb c th.origin.endpoint = false := by
        refine halfCleared_eq_false.mpr fun uh huh hid hclearing => ?_
        obtain ⟨u, hu⟩ := List.mem_iff_getElem?.mp huh
        obtain rfl := h.eq_of_live hth hu hid hlive (by rw [hclearing]; rfl)
        rw [hth] at hu
        cases hu
        rw [hp] at hclearing
        cases hclearing
      exact Bool.or_eq_true_iff.mpr (Or.inl (by rw [hnone]; rfl))
    · rw [hp] at hknows
      refine decide_eq_true fun hclosed => ?_
      rw [hknows.1] at hclosed
      cases hclosed
    · refine h.calm_of_call hth hlive ?_
      rw [hp]
      simp [Phase.poised, hcall]
    · rfl
    · rfl
    · refine h.calm_of_call hth hlive ?_
      rw [hp]
      rfl

/-- So runs without overlaps are runs of fresh steps, and of settled ones. -/
theorem Reaches.fresh_and_settled (h : Reaches cb NoOverlap c) :
    Reaches cb (Fresh cb) c ∧ Reaches cb (Settled cb) c :=
  ⟨h.mono fun _ _ hr _ => hr.fresh _, h.mono fun _ _ hr _ => hr.settled _⟩

end CircuitBreaker

end WebhookRelay

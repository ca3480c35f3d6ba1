import WebhookRelay.Circuit.NeverStuck
import Mathlib.Data.List.Induction

/-!
# Failures from before a closing

Closing a circuit writes CLOSED first and deletes the counter in a later command, and a failure
keeps its count while it looks at the state, so counts from before a closing can meet the CLOSED
circuit. `Settled` is the condition on the steps under which they do not; along such steps a
circuit opens only after as many failures as the threshold says have been counted since it was last
closed (`reopens_after_threshold`).
-/

namespace WebhookRelay

open Data Data.Redis Effect

namespace CircuitBreaker

variable {cb : CircuitBreaker} {c c' : Config} {a : Action} {id : Str} {o : Origin} {p : Phase}

/-! ### Settled steps -/

/-- The call is about to open the circuit: it holds a count that reaches the threshold and will
look at the state, or has seen a state on which it opens. -/
def Phase.poised (cb : CircuitBreaker) (o : Origin) : Phase → Bool
  | .looking n => n.any fun n => decide (cb.failureThreshold ≤ n)
  | .saw n s => decide (o.call = .recordFailure) && trips cb n s
  | .opening _ _ _ => true
  | _ => false

/-- The count on which the call is about to open the circuit; on HALF_OPEN it needs none. -/
def Phase.acting : Phase → Option ℤ
  | .looking n => n
  | .saw n .closed => n
  | .opening n .closed _ => n
  | _ => none

/-- No call is about to open the circuit. -/
def calm (cb : CircuitBreaker) (c : Config) (id : Str) : Bool :=
  c.threads.all fun th =>
    !(decide (th.origin.endpoint = id) && (Caller.phase cb th).poised cb th.origin)

/-- A success has written CLOSED, and has not deleted the counter yet. -/
def halfCleared (cb : CircuitBreaker) (c : Config) (id : Str) : Bool :=
  c.threads.any fun th =>
    decide (th.origin.endpoint = id) && decide (Caller.phase cb th = .clearing)

/-- The change of a call meets no count from before a closing: a circuit is closed while no call is
about to open it, a failure that finds a counter left over does not reach the threshold with it,
and HALF_OPEN is not written on CLOSED. -/
def settles (cb : CircuitBreaker) (c : Config) (id : Str) : Change → Bool
  | .count => !halfCleared cb c id ||
    decide ((Circuit.of c.world id).failures c.world.now + 1 < cb.failureThreshold)
  | .turn .closed _ => calm cb c id
  | .turn .halfOpen _ => decide ((Circuit.of c.world id).mode ≠ .closed)
  | .reset => calm cb c id
  | _ => true

/-- The steps at which no count from before a closing is met. -/
def Settled (cb : CircuitBreaker) (c : Config) : Action → Prop
  | .call t => ∀ th ∈ c.threads[t]?, ∀ x ∈ (Caller.phase cb th).change th.origin,
    settles cb c th.origin.endpoint x = true
  | _ => True

instance (cb : CircuitBreaker) (c : Config) (a : Action) : Decidable (Settled cb c a) :=
  match a with
  | .call t => inferInstanceAs (Decidable (∀ th ∈ c.threads[t]?,
    ∀ x ∈ (Caller.phase cb th).change th.origin, _ = true))
  | .start _ => inferInstanceAs (Decidable True)
  | .tick _ => inferInstanceAs (Decidable True)

/-! ### The invariant -/

/-- A call that is about to open the circuit is backed by `m` failures since the last closing. -/
def Phase.Backed (cb : CircuitBreaker) (o : Origin) (m : ℕ) (p : Phase) : Prop :=
  p.poised cb o = true → cb.failureThreshold ≤ m ∧ ∀ n, p.acting = some n → n ≤ m

/-- What the failures since the last closing of the circuit account for. -/
structure Ledger (cb : CircuitBreaker) (id : Str) (c : Config) : Prop where
  /-- The counter counts failures since the last closing, once it has been deleted. -/
  counter : halfCleared cb c id = false → ∀ x, (Circuit.of c.world id).counter = some x →
    x.1 ≤ (recorded id c.world.journal).length
  /-- A call that is about to open the circuit has enough of them. -/
  backed : ∀ th ∈ c.threads, th.origin.endpoint = id →
    (Caller.phase cb th).Backed cb th.origin (recorded id c.world.journal).length
  /-- A circuit that is not CLOSED has had enough of them. -/
  mode : (Circuit.of c.world id).mode ≠ .closed →
    cb.failureThreshold ≤ (recorded id c.world.journal).length

/-- More failures back a call as well. -/
theorem Phase.Backed.mono {m m' : ℕ} (h : p.Backed cb o m) (hm : m ≤ m') : p.Backed cb o m' := by
  intro hp
  obtain ⟨hle, hn⟩ := h hp
  have hcast : (m : ℤ) ≤ m' := by exact_mod_cast hm
  exact ⟨hle.trans hcast, fun n hacting => (hn n hacting).trans hcast⟩

theorem calm_eq_true (h : calm cb c id = true) {th : Caller} (hth : th ∈ c.threads)
    (hid : th.origin.endpoint = id) : (Caller.phase cb th).poised cb th.origin = false := by
  have := List.all_eq_true.mp h th hth
  simpa [hid] using this

theorem halfCleared_eq_false : halfCleared cb c id = false ↔
    ∀ th ∈ c.threads, th.origin.endpoint = id → Caller.phase cb th ≠ .clearing := by
  unfold halfCleared
  rw [List.any_eq_false]
  simp

/-- The phase a call starts in is not about to open anything. -/
theorem backed_start (m : ℕ) : (Phase.start o).Backed cb o m := by
  intro hp
  rcases Phase.start_cases o with ⟨-, h⟩ | ⟨-, h⟩ | ⟨-, -, h⟩ <;> rw [h] at hp <;> cases hp

/-- The counter says no more failures than its text. -/
theorem failures_le {C : Circuit} {m : ℕ} (h : ∀ x, C.counter = some x → x.1 ≤ m) (now : ℚ) :
    C.failures now ≤ m := by
  unfold Circuit.failures
  split
  · rename_i n d hcounter
    split_ifs
    · exact h _ hcounter
    · exact Int.natCast_nonneg m
  · exact Int.natCast_nonneg m

/-- An await that counts no failure keeps a call backed. -/
theorem backed_advance {C : Circuit} {now : ℚ} {m : ℕ} (hlive : p.live cb o = true)
    (hp : p.Backed cb o m) (hcount : p ≠ .counting)
    (hmode : C.mode ≠ .closed → cb.failureThreshold ≤ m)
    (hwaking : ∀ n q t, p = .waking n q t → C.mode ≠ .closed) :
    (p.advance cb o C now).Backed cb o m := by
  have hadv := p.advanced cb o C now
  intro hpoised
  generalize p.advance cb o C now = p' at hadv hpoised
  cases hadv with
  | counted => exact absurd rfl hcount
  | read n hne =>
    -- the call looks at the state with its count
    by_cases hclosed : C.mode = .closed
    · rw [hclosed] at hpoised ⊢
      have htrips : (n.any fun n => decide (cb.failureThreshold ≤ n)) = true := by
        simpa [Phase.poised, Phase.trips] using (Bool.and_eq_true_iff.mp hpoised).2
      exact hp htrips
    · refine ⟨hmode hclosed, fun k hk => ?_⟩
      cases hC : C.mode with
      | closed => exact absurd hC hclosed
      | opened => exact absurd hC hne
      | halfOpen =>
        rw [hC] at hk
        cases hk
  | woken n q t =>
    exact ⟨hmode (hwaking n q t rfl), fun k hk => by cases hk⟩
  | clocked n s hcall =>
    have hsaw : (Phase.saw n s).poised cb o = true := by
      unfold Phase.live at hlive
      rw [Phase.op_saw, if_neg (fun h => hcall h.1)] at hlive
      split_ifs at hlive with htrips
      · simp [Phase.poised, htrips.1, htrips.2]
      · cases hlive
    obtain ⟨hle, hn⟩ := hp hsaw
    refine ⟨hle, fun k hk => hn k ?_⟩
    cases s <;> exact hk
  | undated => simp [Phase.poised, Phase.trips] at hpoised
  | early => simp [Phase.poised, Phase.trips] at hpoised
  | _ => cases hpoised

/-- A call that moves on leaves no counter half cleared that was not. -/
theorem halfCleared_of_set {t : ℕ} {th th' : Caller} {w : Server}
    (hth : c.threads[t]? = some th) (hph : Caller.phase cb th ≠ .clearing)
    (h : halfCleared cb ⟨w, c.threads.set t th'⟩ id = false) : halfCleared cb c id = false := by
  rw [halfCleared_eq_false] at h ⊢
  intro u hu hid hp
  refine h u (mem_set_of_ne hth hu ?_) hid hp
  rintro rfl
  exact hph hp

/-- The ledger after an await of a call for the endpoint, from what the await does to the circuit
and to the failures on record. -/
theorem Ledger.of_called {t : ℕ} {th th' : Caller} {w : Server} (ho : th'.origin = th.origin)
    (hcounter : Caller.phase cb th ≠ .clearing →
      halfCleared cb ⟨w, c.threads.set t th'⟩ id = false → ∀ x, (Circuit.of w id).counter = some x →
        x.1 ≤ (recorded id w.journal).length)
    (hcleared : Caller.phase cb th = .clearing → (Circuit.of w id).counter = none)
    (hothers : ∀ u ∈ c.threads, u.origin.endpoint = id →
      (Caller.phase cb u).Backed cb u.origin (recorded id w.journal).length)
    (hself : (Caller.phase cb th').Backed cb th.origin (recorded id w.journal).length)
    (hmode : (Circuit.of w id).mode ≠ .closed →
      cb.failureThreshold ≤ (recorded id w.journal).length) :
    Ledger cb id ⟨w, c.threads.set t th'⟩ := by
  refine ⟨fun hclear x hx => ?_, fun u hu hid => ?_, hmode⟩
  · by_cases hph : Caller.phase cb th = .clearing
    · rw [hcleared hph] at hx
      cases hx
    · exact hcounter hph hclear x hx
  · rcases List.mem_or_eq_of_mem_set hu with hu | rfl
    · exact hothers u hu hid
    · rw [ho]
      exact hself

section called

variable {t : ℕ} {th th' : Caller} {w : Server}

/-- A failure is counted. -/
theorem Ledger.counted (h : Ledger cb th.origin.endpoint c) (hth : c.threads[t]? = some th)
    (ho : th'.origin = th.origin) (hp : Caller.phase cb th = .counting)
    (hph : Caller.phase cb th' = .looking
      (some ((Circuit.of c.world th.origin.endpoint).failures c.world.now + 1)))
    (hsettles : settles cb c th.origin.endpoint .count = true)
    (hC : Circuit.of w th.origin.endpoint =
      (Circuit.of c.world th.origin.endpoint).apply cb c.world.now .count)
    (hR : (recorded th.origin.endpoint w.journal).length =
      (recorded th.origin.endpoint c.world.journal).length + 1) :
    Ledger cb th.origin.endpoint ⟨w, c.threads.set t th'⟩ := by
  have hfailures (hclear : halfCleared cb c th.origin.endpoint = false) :=
    failures_le (h.counter hclear) c.world.now
  have hne : Caller.phase cb th ≠ .clearing := by
    rw [hp]
    exact fun h => nomatch h
  refine Ledger.of_called ho ?_ (fun hp' => absurd hp' hne) ?_ ?_ ?_
  · intro _ hclear x hx
    have hle := hfailures (halfCleared_of_set hth hne hclear)
    rw [hC] at hx
    obtain ⟨-, rfl⟩ := Circuit.counter_count.mp hx
    rw [hR]
    push_cast
    omega
  · intro u hu hid
    exact (h.backed u hu hid).mono (by omega)
  · rw [hph, hR]
    intro hpoised
    have hreach : cb.failureThreshold ≤
        (Circuit.of c.world th.origin.endpoint).failures c.world.now + 1 := by
      simpa [Phase.poised] using hpoised
    have hclear : halfCleared cb c th.origin.endpoint = false := by
      rcases Bool.or_eq_true_iff.mp hsettles with hno | hlt
      · exact Bool.not_eq_true' _ ▸ hno
      · have := of_decide_eq_true hlt
        omega
    have hle := hfailures hclear
    push_cast
    refine ⟨by omega, fun k hk => ?_⟩
    cases hk
    omega
  · rw [hC, hR]
    intro hmode
    have := h.mode hmode
    push_cast
    omega

/-- The circuit is closed while no call is about to open it. -/
theorem Ledger.closed (ho : th'.origin = th.origin)
    (hcalm : calm cb c th.origin.endpoint = true)
    (hself : (Caller.phase cb th').poised cb th.origin = false)
    (hcleared : Caller.phase cb th' = .clearing ∨ (Circuit.of w th.origin.endpoint).counter = none)
    (hth : c.threads[t]? = some th) (hne : Caller.phase cb th ≠ .clearing)
    (hmode : (Circuit.of w th.origin.endpoint).mode = .closed) :
    Ledger cb th.origin.endpoint ⟨w, c.threads.set t th'⟩ := by
  refine Ledger.of_called ho ?_ (fun hp => absurd hp hne) ?_ ?_ (absurd hmode)
  · intro _ hclear x hx
    rcases hcleared with hp | hnone
    · have hmem : th' ∈ c.threads.set t th' :=
        List.mem_set (List.getElem?_eq_some_iff.mp hth).1 _
      exact absurd hp (halfCleared_eq_false.mp hclear th' hmem (by rw [ho]))
    · rw [hnone] at hx
      cases hx
  · intro u hu hid hpoised
    rw [calm_eq_true hcalm hu hid] at hpoised
    cases hpoised
  · intro hpoised
    rw [hself] at hpoised
    cases hpoised

/-- No failure is counted, and the circuit is not closed. -/
theorem Ledger.kept (h : Ledger cb th.origin.endpoint c) (hth : c.threads[t]? = some th)
    (hlive : (Caller.phase cb th).live cb th.origin = true) (ho : th'.origin = th.origin)
    (hph : Caller.phase cb th' = (Caller.phase cb th).advance cb th.origin
      (.of c.world th.origin.endpoint) c.world.now)
    (hcount : Caller.phase cb th ≠ .counting)
    (hwaking : ∀ n q τ, Caller.phase cb th = .waking n q τ →
      (Circuit.of c.world th.origin.endpoint).mode ≠ .closed)
    (hR : recorded th.origin.endpoint w.journal = recorded th.origin.endpoint c.world.journal)
    (hcounter : (Circuit.of w th.origin.endpoint).counter =
      if Caller.phase cb th = .clearing then none
      else (Circuit.of c.world th.origin.endpoint).counter)
    (hmode : (Circuit.of w th.origin.endpoint).mode ≠ .closed →
      cb.failureThreshold ≤ (recorded th.origin.endpoint c.world.journal).length) :
    Ledger cb th.origin.endpoint ⟨w, c.threads.set t th'⟩ := by
  refine Ledger.of_called ho ?_ ?_ ?_ ?_ ?_
  · intro hne hclear x hx
    rw [hcounter, if_neg hne] at hx
    rw [hR]
    exact h.counter (halfCleared_of_set hth hne hclear) x hx
  · intro hp
    rw [hcounter, if_pos hp]
  · rw [hR]
    exact h.backed
  · rw [hR, hph]
    exact backed_advance hlive (h.backed th (List.mem_of_getElem? hth) rfl) hcount h.mode hwaking
  · rw [hR]
    exact hmode

/-- A settled await of a call for the endpoint keeps the ledger. -/
theorem Ledger.called (h : Ledger cb th.origin.endpoint c) (hsound : Sound cb c)
    (hok : Settled cb c (.call t)) (hth : c.threads[t]? = some th)
    (hlive : (Caller.phase cb th).live cb th.origin = true) (ho : th'.origin = th.origin)
    (hph : Caller.phase cb th' = (Caller.phase cb th).advance cb th.origin
      (.of c.world th.origin.endpoint) c.world.now) :
    Ledger cb th.origin.endpoint ⟨changed cb th.origin.endpoint c.world
      ((Caller.phase cb th).change th.origin), c.threads.set t th'⟩ := by
  have hC := of_changed cb th.origin.endpoint hsound.tidy
    ((Caller.phase cb th).change th.origin) th.origin.endpoint
  have hR := recorded_changed cb th.origin.endpoint th.origin.endpoint c.world
    ((Caller.phase cb th).change th.origin)
  rw [if_pos rfl] at hC hR
  have hback := h.backed th (List.mem_of_getElem? hth) rfl
  cases hx : (Caller.phase cb th).change th.origin with
  | none =>
    rw [hx] at hC hR
    have hne {p : Phase} (hp : (p.change th.origin).isSome) : Caller.phase cb th ≠ p := by
      rintro rfl
      rw [hx] at hp
      cases hp
    refine h.kept hth hlive ho hph (hne rfl) ?_ hR ?_ ?_
    · exact fun n q τ hp => absurd hp (hne rfl)
    · rw [hC, if_neg (hne rfl)]
      rfl
    · rw [hC]
      exact h.mode
  | some x =>
    rw [hx] at hC hR
    have hsettles := hok th hth x hx
    rcases Phase.change_cases hx with ⟨hp, rfl⟩ | ⟨n, q, τ, hp, rfl⟩ | ⟨n, hp, hcall, rfl⟩ |
      ⟨n, s, τ, hp, rfl⟩ | ⟨hp, rfl⟩ | ⟨hp, rfl⟩
    · refine h.counted hth ho hp ?_ hsettles hC ?_
      · rw [hph, hp]
        rfl
      · rw [hR]
        rfl
    · refine h.kept hth hlive ho hph ?_ (fun _ _ _ _ => of_decide_eq_true hsettles) hR ?_ ?_
      · rw [hp]
        simp
      · rw [hC, hp]
        rfl
      · exact fun _ => h.mode (of_decide_eq_true hsettles)
    · have hph' : Caller.phase cb th' = .clearing := by
        rw [hph, hp]
        exact if_pos hcall
      refine Ledger.closed ho hsettles ?_ (Or.inl hph') hth ?_ ?_
      · rw [hph']
        rfl
      · rw [hp]
        simp
      · rw [hC]
        rfl
    · have hle : cb.failureThreshold ≤ (recorded th.origin.endpoint c.world.journal).length := by
        rw [hp] at hback
        exact (hback rfl).1
      refine h.kept hth hlive ho hph ?_ ?_ hR ?_ fun _ => hle
      · rw [hp]
        simp
      · intro n' q τ' hp'
        rw [hp] at hp'
        cases hp'
      · rw [hC, hp]
        rfl
    · refine h.kept hth hlive ho hph ?_ ?_ hR ?_ ?_
      · rw [hp]
        simp
      · intro n' q τ' hp'
        rw [hp] at hp'
        cases hp'
      · rw [hC, if_pos hp]
        rfl
      · rw [hC]
        exact h.mode
    · have hph' : Caller.phase cb th' = .finished := by
        rw [hph, hp]
        rfl
      refine Ledger.closed ho hsettles ?_ (Or.inr ?_) hth ?_ ?_
      · rw [hph']
        rfl
      · rw [hC]
        rfl
      · rw [hp]
        simp
      · rw [hC]
        rfl

end called

/-- A settled move keeps the ledger of every endpoint. -/
theorem Ledger.moved (h : Ledger cb id c) (hsound : Sound cb c) (hok : Settled cb c a)
    (hm : Moved cb c a c') : Ledger cb id c' := by
  cases hm with
  | started o =>
    refine ⟨fun hclear => h.counter ?_, fun th hth hid => ?_, h.mode⟩
    · rw [halfCleared_eq_false] at hclear ⊢
      exact fun th hth => hclear th (List.mem_append_left _ hth)
    · rcases List.mem_append.mp hth with hth | hth
      · exact h.backed th hth hid
      · rw [List.mem_singleton.mp hth]
        exact backed_start _
  | called hth hlive ho hph =>
    rename_i t th th'
    by_cases hid : id = th.origin.endpoint
    · subst hid
      exact h.called hsound hok hth hlive ho hph
    · -- a call for another endpoint
      have hC := of_changed cb th.origin.endpoint hsound.tidy
        ((Caller.phase cb th).change th.origin) id
      have hR := recorded_changed cb th.origin.endpoint id c.world
        ((Caller.phase cb th).change th.origin)
      rw [if_neg hid] at hC hR
      refine ⟨fun hclear => ?_, fun u hu huid => ?_, ?_⟩
      · rw [hC, hR]
        refine h.counter (halfCleared_eq_false.mpr fun u hu huid => ?_)
        refine halfCleared_eq_false.mp hclear u (mem_set_of_ne hth hu ?_) huid
        rintro rfl
        exact hid huid.symm
      · rw [hR]
        rcases List.mem_or_eq_of_mem_set hu with hu | rfl
        · exact h.backed u hu huid
        · exact absurd (huid.symm.trans (by rw [ho])) hid
      · rw [hC, hR]
        exact h.mode
  | ticked hn => exact ⟨h.counter, h.backed, h.mode⟩

/-- **In every run of settled steps**, the failures since the last closing of a circuit account for
its counter, for the calls that are about to open it, and for its being open. -/
theorem Reaches.ledger (h : Reaches cb (Settled cb) c) (id : Str) : Ledger cb id c := by
  refine (h.invariant (J := Ledger cb id) ?_ ?_).2
  · intro now
    have hfresh : Circuit.of (initial now).world id = .fresh := (Holds.empty id).ofKeys
    refine ⟨fun _ x hx => ?_, fun th hth => (nomatch hth), fun hmode => ?_⟩
    · rw [hfresh] at hx
      cases hx
    · rw [hfresh] at hmode
      exact absurd rfl hmode
  · intro c a c' _ hsound hc hok hm
    exact hc.moved hsound hok hm

/-! ### Reopening -/

/-- After a closing, the failures on record have been counted since. -/
theorem recorded_le_countP (id : Str) {l : Journal} {x : ℚ × List Command}
    (hx : closes id x.2 = true) (l' : Journal) :
    (recorded id (l ++ x :: l')).length ≤ l'.countP fun y => counts id y.2 := by
  induction l' using List.reverseRecOn with
  | nil =>
    rw [recorded_append_singleton]
    unfold record
    rw [if_pos hx]
    exact Nat.zero_le _
  | append_singleton l' y ih =>
    rw [← List.cons_append, ← List.append_assoc, recorded_append_singleton, List.countP_append]
    unfold record
    split_ifs with hclose hcount
    · exact Nat.zero_le _
    · simpa [hcount] using ih
    · exact ih.trans (Nat.le_add_right _ _)

/-- Only a write of OPEN opens a circuit. -/
theorem opening_of_opened {C : Circuit} {x : Change} {now : ℚ} (hx : p.change o = some x)
    (hbefore : C.mode ≠ .opened) (hafter : (C.apply cb now x).mode = .opened) :
    ∃ n s t, p = .opening n s t := by
  rcases Phase.change_cases hx with ⟨-, rfl⟩ | ⟨_, _, _, -, rfl⟩ | ⟨-, -, -, rfl⟩ |
    ⟨n, s, t, hp, -⟩ | ⟨-, rfl⟩ | ⟨-, rfl⟩
  · exact absurd hafter hbefore
  · cases hafter
  · cases hafter
  · exact ⟨n, s, t, hp⟩
  · exact absurd hafter hbefore
  · cases hafter

/-- **A closed circuit opens again only on failures counted since**: in every run of settled steps,
when a step opens a circuit, at least `failureThreshold` failures have been counted since any
closing of it, and the count on which the call opens it, if it acts on one, counts only those. -/
theorem reopens_after_threshold (h : Reaches cb (Settled cb) c) (hs : step cb c a = some c')
    (hbefore : (Circuit.of c.world id).mode ≠ .opened)
    (hafter : (Circuit.of c'.world id).mode = .opened) {l l' : Journal} {x : ℚ × List Command}
    (hJ : c.world.journal = l ++ x :: l') (hx : closes id x.2 = true) :
    cb.failureThreshold ≤ (l'.countP fun y => counts id y.2) ∧
      ∃ t th, a = .call t ∧ c.threads[t]? = some th ∧ th.origin = ⟨id, .recordFailure⟩ ∧
        ∀ n, (Caller.phase cb th).acting = some n → n ≤ (l'.countP fun y => counts id y.2) := by
  have hsound := h.sound
  have hle : ((recorded id c.world.journal).length : ℤ) ≤ (l'.countP fun y => counts id y.2) := by
    rw [hJ]
    exact_mod_cast recorded_le_countP id hx l'
  obtain hsame | ⟨t, th, y, rfl, hth, hy, hw⟩ := (hsound.moved hs).world
  · rw [of_later hsame] at hafter
    exact absurd hafter hbefore
  · rw [hw, of_changed cb _ hsound.tidy] at hafter
    split_ifs at hafter with hid
    · subst hid
      obtain ⟨n, s, τ, hp⟩ := opening_of_opened hy hbefore hafter
      have hback := (h.ledger th.origin.endpoint).backed th (List.mem_of_getElem? hth) rfl
      rw [hp] at hback
      obtain ⟨hF, hn⟩ := hback rfl
      refine ⟨hF.trans hle, t, th, rfl, hth, ?_, fun k hk => ?_⟩
      · have hfits := h.fits th (List.mem_of_getElem? hth)
        rw [hp] at hfits
        rw [← hfits.1]
      · rw [hp] at hk
        exact (hn k hk).trans hle
    · exact absurd hafter hbefore

/-- After a reset, two failures open the circuit again. -/
theorem reopens_after_threshold_of_reset : ∃ c c' l l',
    Reaches sampleBreaker (Settled sampleBreaker) c ∧
    step sampleBreaker c (.call 4) = some c' ∧
    (Circuit.of c.world sampleEndpoint).mode ≠ .opened ∧
    (Circuit.of c'.world sampleEndpoint).mode = .opened ∧
    c.world.journal = l ++ (0, clearing sampleEndpoint) :: l' ∧
    (2 : ℤ) ≤ l'.countP fun y => counts sampleEndpoint y.2 := by
  have hrun : (runActs (step sampleBreaker) (fun c a => decide (Settled sampleBreaker c a))
      (initial 0) (sampleCall 0 2 .recordFailure ++ sampleCall 1 4 .recordFailure ++
        sampleCall 2 1 .reset ++ sampleCall 3 2 .recordFailure ++
          sampleCall 4 3 .recordFailure)).any
        (fun c => decide ((Circuit.of c.world sampleEndpoint).mode ≠ .opened ∧
            c.world.journal.drop 3 = [(0, clearing sampleEndpoint),
              (0, counting sampleBreaker sampleEndpoint),
              (0, counting sampleBreaker sampleEndpoint)]) &&
          (step sampleBreaker c (.call 4)).any fun c' =>
            decide ((Circuit.of c'.world sampleEndpoint).mode = .opened)) = true := by
    decide +kernel
  obtain ⟨c, hc, hfacts⟩ := exists_run (Settled sampleBreaker) (fun _ _ => of_decide_eq_true) hrun
  obtain ⟨hbefore, hafter⟩ := Bool.and_eq_true_iff.mp hfacts
  obtain ⟨hclosed, hdrop⟩ := of_decide_eq_true hbefore
  obtain ⟨c', hs, hopen⟩ := (Option.any_eq_true _ _).mp hafter
  have hJ := (List.take_append_drop 3 c.world.journal).symm
  rw [hdrop] at hJ
  exact ⟨c, c', _, _, ⟨0, hc⟩, hs, hclosed, of_decide_eq_true hopen, hJ,
    (reopens_after_threshold ⟨0, hc⟩ hs hclosed (of_decide_eq_true hopen) hJ (by decide)).1⟩

/-- A failure is counted while the circuit is OPEN; a success turns it HALF_OPEN and CLOSED, but
before it deletes the counter, one more failure is counted and reaches the threshold of 2. So the
circuit opens again after a single failure. -/
theorem reopens_after_one_failure : ∃ c c' l l',
    Reaches sampleBreaker anyStep c ∧
    (∀ th ∈ c.threads, th.origin.call = .recordSuccess ∨ th.origin.call = .recordFailure) ∧
    step sampleBreaker c (.call 4) = some c' ∧
    (Circuit.of c.world sampleEndpoint).mode ≠ .opened ∧
    (Circuit.of c'.world sampleEndpoint).mode = .opened ∧
    c.world.journal = l ++ (301, transition sampleEndpoint .closed 0) :: l' ∧
    ¬((2 : ℤ) ≤ l'.countP fun y => counts sampleEndpoint y.2) := by
  have hrun : (runActs (step sampleBreaker) (fun _ _ => true) (initial 0)
      (sampleCall 0 2 .recordFailure ++ sampleCall 1 4 .recordFailure ++
        .tick 300 :: sampleCall 2 4 .recordFailure ++
          .tick 301 :: sampleCall 3 5 .recordSuccess ++ sampleCall 4 3 .recordFailure)).any
        (fun c => decide ((∀ th ∈ c.threads,
              th.origin.call = .recordSuccess ∨ th.origin.call = .recordFailure) ∧
            (Circuit.of c.world sampleEndpoint).mode ≠ .opened ∧
            c.world.journal.drop 5 = [(301, transition sampleEndpoint .closed 0),
              (301, counting sampleBreaker sampleEndpoint)]) &&
          (step sampleBreaker c (.call 4)).any fun c' =>
            decide ((Circuit.of c'.world sampleEndpoint).mode = .opened)) = true := by
    decide +kernel
  obtain ⟨c, hc, hfacts⟩ := exists_run anyStep (fun _ _ _ => trivial) hrun
  obtain ⟨hbefore, hafter⟩ := Bool.and_eq_true_iff.mp hfacts
  obtain ⟨hcalls, hclosed, hdrop⟩ := of_decide_eq_true hbefore
  obtain ⟨c', hs, hopen⟩ := (Option.any_eq_true _ _).mp hafter
  have hJ := (List.take_append_drop 5 c.world.journal).symm
  rw [hdrop] at hJ
  exact ⟨c, c', _, _, ⟨0, hc⟩, hcalls, hs, hclosed, of_decide_eq_true hopen, hJ, by decide⟩

end CircuitBreaker

end WebhookRelay

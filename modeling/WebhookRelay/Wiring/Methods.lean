import WebhookRelay.Circuit.NeverStuck
import WebhookRelay.Wiring.System

/-!
# The methods of the circuit breaker in the wired system

`Method` says which call of the services is which call of the circuit breaker, and what the services
make of its answer. A method that is under way among others never raises on its own: every command
is answered, and the method goes on or returns (`CircuitBreaker.Reaches.goes_on`).
-/

namespace WebhookRelay

open Data Effect

/-! ### Methods return -/

namespace CircuitBreaker

variable {cb : CircuitBreaker} {c : Config} {ok : Config → Action → Prop} {th : Caller}

/-- The phase is none of a method that has raised, or that is about to. -/
def Phase.Steady : Phase → Prop
  | .timing _ v => v.float?.isSome = true
  | .failed _ => False
  | _ => True

/-- An await leads from a steady phase to a steady phase. -/
theorem Phase.Steady.advance {o : Origin} {p : Phase} (h : p.Steady) (C : Circuit) (now : ℚ) :
    (p.advance cb o C now).Steady := by
  have hadv := p.advanced cb o C now
  generalize p.advance cb o C now = p' at hadv
  cases hadv with
  | undatable n hv =>
    simp [Phase.Steady, hv] at h
  | dated => rfl
  | failed => exact h
  | _ => trivial

/-- In every reachable state, every call is in a steady phase. -/
theorem Reaches.steady (h : Reaches cb ok c) : ∀ th ∈ c.threads, (Caller.phase cb th).Steady := by
  refine (h.invariant (J := fun c => ∀ th ∈ c.threads, (Caller.phase cb th).Steady)
    (fun _ _ hth => nomatch hth) fun c a c' _ _ hc _ hm => ?_).2
  refine hm.forall_phases (P := fun _ p => p.Steady) (Q := fun _ p => p.Steady) hc
    (fun _ _ hp => hp) (fun o => ?_) fun o p hp _ => hp.advance _ _
  rcases Phase.start_cases o with ⟨-, hstart⟩ | ⟨-, hstart⟩ | ⟨-, -, hstart⟩ <;> rw [hstart] <;>
    trivial

/-- A call that has raised is in a failed phase. -/
theorem Phase.answer_ne_error {p : Phase} (h : p.Steady) (o : Origin) (x : Exn) :
    p.answer o ≠ .error x := by
  unfold Phase.answer
  cases p with
  | failed y => exact absurd h id
  | saw n s =>
    dsimp only
    split <;> simp
  | _ =>
    dsimp only
    split_ifs <;> simp

/-- No method raises. -/
theorem Reaches.not_raised (h : Reaches cb ok c) (hth : th ∈ c.threads) (x : Exn) :
    th.prog ≠ .raised x := by
  intro hp
  exact Phase.answer_ne_error (h.steady th hth) _ x (h.sound.raised hth hp).2

/-- **A method under way is answered and goes on.** -/
theorem Reaches.goes_on (h : Reaches cb anyStep c) {t : ℕ} (hth : c.threads[t]? = some th) {e : Op}
    {k : Except Exn e.Resp → Method Answer} (hp : th.prog = .call e k) :
    ∃ v, (exec e c.world).1 = .ok v ∧ step cb c (.call t) = some
      ⟨(exec e c.world).2, c.threads.set t (Caller.answered th e k c.world)⟩ ∧
      ∀ x, k (.ok v) ≠ .raised x := by
  have hstep : step cb c (.call t) = some
      ⟨(exec e c.world).2, c.threads.set t (Caller.answered th e k c.world)⟩ := by
    show Pool.call machine c t () = _
    unfold Pool.call
    simp only [hth, hp]
    rfl
  have h' := h.tail trivial hstep
  have hlt : t < c.threads.length := (List.getElem?_eq_some_iff.mp hth).1
  have hth' : Caller.answered th e k c.world ∈ c.threads.set t (Caller.answered th e k c.world) :=
    List.mem_of_getElem? (List.getElem?_set_self hlt)
  have hsteady := h'.steady _ hth'
  rw [phase_answered] at hsteady
  cases hv : (exec e c.world).1 with
  | error x =>
    rw [hv] at hsteady
    exact absurd hsteady id
  | ok v =>
    refine ⟨v, rfl, hstep, fun x hx => h'.not_raised hth' x ?_⟩
    show k (exec e c.world).1 = _
    rw [hv, hx]

end CircuitBreaker

/-! ### Which call is which method -/

/-- The call is a method of the circuit breaker. -/
def Op.isMethod : Op → Bool
  | .isAllowed _ => true
  | .recordSuccess _ => true
  | .recordFailure _ => true
  | .resetCircuit _ => true
  | _ => false

namespace Wiring

/-- What `is_allowed` answers. -/
def granted : CircuitBreaker.Answer → Bool
  | .allowed b => b
  | _ => false

/-- A call of the services that is a method of the circuit breaker, with what they make of the
answer. -/
inductive Method : (e : Op) → CircuitBreaker.Origin → (CircuitBreaker.Answer → e.Resp) → Prop where
  | isAllowed (ep : UUID) : Method (.isAllowed ep) ⟨ep.str, .isAllowed⟩ granted
  | recordSuccess (ep : UUID) :
    Method (.recordSuccess ep) ⟨ep.str, .recordSuccess⟩ fun _ => ()
  | recordFailure (ep : UUID) :
    Method (.recordFailure ep) ⟨ep.str, .recordFailure⟩ fun _ => ()
  | resetCircuit (ep : UUID) : Method (.resetCircuit ep) ⟨ep.str, .reset⟩ fun _ => ()

variable {wi : Wiring} {e : Op} {o : CircuitBreaker.Origin} {f : CircuitBreaker.Answer → e.Resp}

/-- What is run for a call that is a method. -/
theorem linkage_method (h : Method e o f) :
    wi.linkage e = (f <$> o.program wi.breaker).lift wi.raised := by
  have hmap {α β γ : Type} (g : α → β) (g' : β → γ) (q : CircuitBreaker.Method α) :
      g' <$> g <$> q = (fun a => g' (g a)) <$> q := by
    rw [← comp_map]
    rfl
  cases h with
  | isAllowed ep =>
    show (wi.breaker.isAllowed ep.str).lift wi.raised =
      (granted <$> CircuitBreaker.Answer.allowed <$> wi.breaker.isAllowed ep.str).lift wi.raised
    rw [hmap]
    exact congrArg _ (id_map _).symm
  | recordSuccess ep =>
    show (wi.breaker.recordSuccess ep.str).lift wi.raised = ((fun _ => ()) <$>
      (fun _ => CircuitBreaker.Answer.unit) <$> wi.breaker.recordSuccess ep.str).lift wi.raised
    rw [hmap]
    exact congrArg _ (id_map _).symm
  | recordFailure ep =>
    show ((fun _ => ()) <$> wi.breaker.recordFailure ep.str).lift wi.raised = ((fun _ => ()) <$>
      CircuitBreaker.Answer.state <$> wi.breaker.recordFailure ep.str).lift wi.raised
    rw [hmap]
  | resetCircuit ep =>
    show (CircuitBreaker.reset ep.str).lift wi.raised = ((fun _ => ()) <$>
      (fun _ => CircuitBreaker.Answer.unit) <$> CircuitBreaker.reset ep.str).lift wi.raised
    rw [hmap]
    exact congrArg _ (id_map _).symm

theorem Method.isMethod (h : Method e o f) : e.isMethod = true := by
  cases h <;> rfl

theorem exists_method (h : e.isMethod = true) : ∃ o f, Method e o f := by
  cases e with
  | isAllowed ep => exact ⟨_, _, .isAllowed ep⟩
  | recordSuccess ep => exact ⟨_, _, .recordSuccess ep⟩
  | recordFailure ep => exact ⟨_, _, .recordFailure ep⟩
  | resetCircuit ep => exact ⟨_, _, .resetCircuit ep⟩
  | _ => cases h

/-- What is run for any other call is the call itself. -/
theorem linkage_direct (wi : Wiring) (h : e.isMethod = false) :
    wi.linkage e = Prog.perform (I := wired) (.inl e) := by
  cases e <;> first | rfl | cases h

/-- Whatever is run for a call makes a call of its own. -/
theorem linkage_ended (wi : Wiring) (e : Op) : (wi.linkage e).ended = false := by
  cases e <;> rfl

/-- A method does not touch the world of the services, and they can be given any answer. -/
theorem Method.exec_eq (h : Method e o f) (a : CircuitBreaker.Answer) (orc : Oracle) :
    ∃ orc', ∀ w s, WebhookRelay.exec orc' e w s = (.ok (f a), w, s) := by
  cases h with
  | isAllowed ep => exact ⟨{ orc with allowed := granted a }, fun _ _ => rfl⟩
  | recordSuccess ep => exact ⟨orc, fun _ _ => rfl⟩
  | recordFailure ep => exact ⟨orc, fun _ _ => rfl⟩
  | resetCircuit ep => exact ⟨orc, fun _ _ => rfl⟩

/-- A method waits for no statement. -/
theorem Method.not_blocked (h : Method e o f) (others : List Session) (w : World) (s : Session) :
    WebhookRelay.blocked others w s e = false := by
  have hlocks : e.locks = [] := by
    cases h <;> rfl
  unfold WebhookRelay.blocked
  rw [hlocks]
  simp

end Wiring

end WebhookRelay

import WebhookRelay.Effect.Program

/-!
# Contracts: what a program may call, given the answers it has had

A `Contract` is an automaton over the calls and answers of a program: `allows p e` says that the
call `e` may be made in phase `p`, and `next p e r` is the phase after the answer `r`. A program
`Obeys` the contract from a phase, with an exit condition `Q`, when every call on every one of
its paths is allowed, whatever the answers were, and it ends in a phase where `Q` holds.

`Obeys` says nothing about a state, so it is proved of a program once and then holds under every
interleaving with others. The rules below are those of weakest preconditions: one for each
constructor, sequencing, `attempt`, and consequence.
-/

namespace Effect

variable {I : Interface} {ε α β P : Type}

/-- A call together with its answer. -/
abbrev Call (I : Interface) (ε : Type) : Type := Σ e : I.Op, Except ε (I.Resp e)

/-- An automaton that reads calls and answers, with the calls it allows in each phase. -/
structure Contract (I : Interface) (ε P : Type) where
  /-- The calls allowed in a phase. -/
  allows : P → I.Op → Prop
  /-- The phase after a call has been answered. -/
  next : P → (e : I.Op) → Except ε (I.Resp e) → P

namespace Contract

/-- The phase reached by a list of answered calls. -/
def run (C : Contract I ε P) (p : P) (cs : List (Call I ε)) : P :=
  cs.foldl (fun p c => C.next p c.1 c.2) p

@[simp] theorem run_append_singleton (C : Contract I ε P) (p : P) (cs : List (Call I ε))
    (c : Call I ε) : C.run p (cs ++ [c]) = C.next (C.run p cs) c.1 c.2 := by
  simp only [run, List.foldl_append, List.foldl_cons, List.foldl_nil]

/-- Every call of the list was allowed in the phase it was made in. -/
def Accepts (C : Contract I ε P) : P → List (Call I ε) → Prop
  | _, [] => True
  | p, c :: cs => C.allows p c.1 ∧ C.Accepts (C.next p c.1 c.2) cs

/-- The contract without memory: the calls that satisfy `A`. -/
def only (A : I.Op → Prop) : Contract I ε Unit where
  allows _ e := A e
  next _ _ _ := ()

/-- Related phases: whatever the first contract allows, the second one allows too, and the phases
after the answer are related again. -/
structure Simulates {P' : Type} (C : Contract I ε P) (C' : Contract I ε P')
    (R : P → P' → Prop) : Prop where
  allows : ∀ p p' e, R p p' → C.allows p e → C'.allows p' e
  next : ∀ p p' e r, R p p' → C.allows p e → R (C.next p e r) (C'.next p' e r)

end Contract

namespace Prog

/-- Every call on every path of the program is allowed, and it ends with `Q`. -/
def Obeys (C : Contract I ε P) (Q : Except ε α → P → Prop) : Prog I ε α → P → Prop
  | done a, p => Q (.ok a) p
  | raised x, p => Q (.error x) p
  | call e k, p => C.allows p e ∧ ∀ r, (k r).Obeys C Q (C.next p e r)

section Obeys

variable {C : Contract I ε P} {Q Q' : Except ε α → P → Prop} {p : P}

@[simp] theorem obeys_done (a : α) : (done a).Obeys C Q p ↔ Q (.ok a) p := Iff.rfl

@[simp] theorem obeys_raised (x : ε) : (raised x).Obeys C Q p ↔ Q (.error x) p := Iff.rfl

@[simp] theorem obeys_call (e : I.Op) (k : Except ε (I.Resp e) → Prog I ε α) :
    (call e k).Obeys C Q p ↔ C.allows p e ∧ ∀ r, (k r).Obeys C Q (C.next p e r) := Iff.rfl

@[simp] theorem obeys_ofExcept (r : Except ε α) : (ofExcept r).Obeys C Q p ↔ Q r p := by
  cases r <;> rfl

@[simp] theorem obeys_perform {e : I.Op} {Q : Except ε (I.Resp e) → P → Prop} :
    (perform e).Obeys C Q p ↔ C.allows p e ∧ ∀ r, Q r (C.next p e r) := by
  simp only [perform, obeys_call, obeys_ofExcept]

/-- Sequencing: the second part obeys from wherever the first one ends. -/
theorem obeys_bind {Q : Except ε β → P → Prop} (q : Prog I ε α) (f : α → Prog I ε β) :
    (q >>= f).Obeys C Q p ↔ q.Obeys C (fun r p' => match r with
      | .ok a => (f a).Obeys C Q p'
      | .error x => Q (.error x) p') p := by
  induction q generalizing p with
  | done a => rfl
  | raised x => rfl
  | call e k ih => exact and_congr Iff.rfl (forall_congr' fun r => ih r)

/-- A call and then the rest: the call is allowed, and the rest obeys after every success. -/
theorem obeys_perform_bind {Q : Except ε β → P → Prop} (e : I.Op)
    (f : I.Resp e → Prog I ε β) :
    (perform e >>= f).Obeys C Q p ↔ C.allows p e ∧
      (∀ v, (f v).Obeys C Q (C.next p e (.ok v))) ∧
      ∀ x, Q (.error x) (C.next p e (.error x)) := by
  rw [perform_bind, obeys_call]
  constructor
  · rintro ⟨ha, hk⟩
    exact ⟨ha, fun v => hk (.ok v), fun x => hk (.error x)⟩
  · rintro ⟨ha, hv, hx⟩
    refine ⟨ha, fun r => ?_⟩
    cases r with
    | ok v => exact hv v
    | error x => exact hx x

/-- `attempt` makes the same calls and ends with the result as a value. -/
theorem obeys_attempt {Q : Except ε (Except ε α) → P → Prop} (q : Prog I ε α) :
    q.attempt.Obeys C Q p ↔ q.Obeys C (fun r => Q (.ok r)) p := by
  induction q generalizing p with
  | done a => rfl
  | raised x => rfl
  | call e k ih => exact and_congr Iff.rfl (forall_congr' fun r => ih r)

/-- Consequence: a weaker exit condition. -/
theorem Obeys.mono {q : Prog I ε α} (h : q.Obeys C Q p) (hQ : ∀ r p', Q r p' → Q' r p') :
    q.Obeys C Q' p := by
  induction q generalizing p with
  | done a => exact hQ _ _ h
  | raised x => exact hQ _ _ h
  | call e k ih => exact ⟨h.1, fun r => ih r (h.2 r)⟩

/-- A contract that allows everything, with an exit condition that always holds. -/
theorem obeys_of_forall (hC : ∀ p e, C.allows p e) (hQ : ∀ r p, Q r p) (q : Prog I ε α) (p : P) :
    q.Obeys C Q p := by
  induction q generalizing p with
  | done a => exact hQ _ _
  | raised x => exact hQ _ _
  | call e k ih => exact ⟨hC p e, fun r => ih r _⟩

/-- Mapping a result makes the same calls. -/
theorem obeys_map {Q : Except ε β → P → Prop} (g : α → β) (q : Prog I ε α) :
    (g <$> q).Obeys C Q p ↔ q.Obeys C (fun r p' => Q (r.map g) p') p := by
  rw [← bind_pure_comp, obeys_bind]
  constructor <;> intro h <;> refine h.mono fun r p' hr => ?_ <;> cases r <;> exact hr

end Obeys

/-! ### One contract above another -/

/-- A program that obeys a contract obeys every contract above it. -/
theorem Obeys.simulate {P' : Type} {C : Contract I ε P} {C' : Contract I ε P'}
    {R : P → P' → Prop} (hC : Contract.Simulates C C' R) {Q : Except ε α → P → Prop}
    {Q' : Except ε α → P' → Prop} (hQ : ∀ r p p', R p p' → Q r p → Q' r p') {q : Prog I ε α}
    {p : P} {p' : P'} (hR : R p p') (h : q.Obeys C Q p) : q.Obeys C' Q' p' := by
  induction q generalizing p p' with
  | done a => exact hQ _ _ _ hR h
  | raised x => exact hQ _ _ _ hR h
  | call e k ih => exact ⟨hC.allows _ _ _ hR h.1, fun r => ih r (hC.next _ _ _ r hR h.1) (h.2 r)⟩

/-! ### What a program has called -/

/-- The program makes these calls, gets these answers, and goes on as another program. -/
inductive Makes : Prog I ε α → List (Call I ε) → Prog I ε α → Prop where
  | nil {q : Prog I ε α} : Makes q [] q
  | cons {e : I.Op} {k : Except ε (I.Resp e) → Prog I ε α} {r : Except ε (I.Resp e)}
    {cs : List (Call I ε)} {q : Prog I ε α} (h : Makes (k r) cs q) :
    Makes (call e k) (⟨e, r⟩ :: cs) q

section Makes

variable {C : Contract I ε P} {Q : Except ε α → P → Prop} {p : P} {q q' : Prog I ε α}
  {cs : List (Call I ε)}

/-- One more call. -/
theorem Makes.append {e : I.Op} {k : Except ε (I.Resp e) → Prog I ε α}
    (h : q.Makes cs (call e k)) (r : Except ε (I.Resp e)) : q.Makes (cs ++ [⟨e, r⟩]) (k r) := by
  generalize hq' : call e k = q' at h
  induction h with
  | nil =>
    subst hq'
    exact .cons .nil
  | cons _ ih => exact .cons (ih hq')

/-- What is left of a program obeys its contract from the phase that its calls have led to. -/
theorem Makes.obeys (h : q.Makes cs q') (hq : q.Obeys C Q p) : q'.Obeys C Q (C.run p cs) := by
  induction h generalizing p with
  | nil => exact hq
  | cons _ ih => exact ih (hq.2 _)

/-- The calls a program has made were allowed by its contract. -/
theorem Makes.accepts (h : q.Makes cs q') (hq : q.Obeys C Q p) : C.Accepts p cs := by
  induction h generalizing p with
  | nil => trivial
  | cons _ ih => exact ⟨hq.1, ih (hq.2 _)⟩

end Makes

/-! ### Contracts without memory -/

/-- Every call on every path of the program satisfies `A`. -/
def Calls (A : I.Op → Prop) (q : Prog I ε α) : Prop :=
  q.Obeys (Contract.only A) (fun _ _ => True) ()

section Calls

variable {A B : I.Op → Prop}

theorem calls_done (a : α) : (done a : Prog I ε α).Calls A := trivial

theorem calls_raised (x : ε) : (raised x : Prog I ε α).Calls A := trivial

theorem calls_ofExcept (r : Except ε α) : (ofExcept r : Prog I ε α).Calls A :=
  (obeys_ofExcept r).mpr trivial

theorem calls_perform {e : I.Op} (h : A e) : (perform e : Prog I ε (I.Resp e)).Calls A :=
  obeys_perform.mpr ⟨h, fun _ => trivial⟩

theorem Calls.bind {q : Prog I ε α} (h : q.Calls A) {f : α → Prog I ε β}
    (hf : ∀ a, (f a).Calls A) : (q >>= f).Calls A := by
  refine (obeys_bind q f).mpr (Obeys.mono h fun r _ _ => ?_)
  cases r with
  | ok a => exact hf a
  | error x => trivial

theorem Calls.attempt {q : Prog I ε α} (h : q.Calls A) : q.attempt.Calls A :=
  (obeys_attempt q).mpr h

theorem Calls.map {q : Prog I ε α} (h : q.Calls A) (g : α → β) : (g <$> q).Calls A :=
  (obeys_map g q).mpr h

/-- Calls of one kind are calls of a wider one. -/
theorem Calls.imp {q : Prog I ε α} (h : q.Calls A) (hAB : ∀ e, A e → B e) : q.Calls B := by
  induction q with
  | done a => exact calls_done a
  | raised x => exact calls_raised x
  | call e k ih => exact ⟨hAB e h.1, fun r => ih r (h.2 r)⟩

/-- What the calls of a program keep, its run keeps. -/
theorem Calls.drive {σ : Type} {h : (e : I.Op) → σ → Except ε (I.Resp e) × σ} {Inv : σ → Prop}
    (hkeep : ∀ e s, A e → Inv s → Inv (h e s).2) {q : Prog I ε α} (hq : q.Calls A) {s : σ}
    (hs : Inv s) : Inv (q.drive h s).2 := by
  induction q generalizing s with
  | done a => exact hs
  | raised x => exact hs
  | call e k ih => exact ih _ (hq.2 _) (hkeep e s hq.1 hs)

end Calls

end Prog

end Effect

import WebhookRelay.Effect.Contract

/-!
# Linking a program with implementations of its calls

A `Linkage` gives, for every call of an interface, a program over a second interface. `Prog.link`
runs these programs in place of the calls. While one of them is under way, the linked program
stands for a program that is still about to make the call: `Linked` relates the two. An answer to
a linked program takes it further within the implementation of the same call (`Linked.call_inv`),
or ends the implementation, and with it the call.

`Interface.sum` puts two interfaces side by side, and `Prog.lift` takes a program over the right one
there.
-/

namespace Effect

variable {I J K : Interface} {ε ε' α β : Type}

/-! ### Two interfaces side by side -/

/-- The calls of both interfaces. -/
abbrev Interface.sum (I K : Interface) : Interface := ⟨I.Op ⊕ K.Op, Sum.elim I.Resp K.Resp⟩

namespace Prog

/-- A program over the right interface, for a program that catches nothing: an exception of a call
ends it. Its own exceptions are raised as `f` says. -/
def lift (f : ε' → ε) : Prog K ε' α → Prog (I.sum K) ε α
  | done a => done a
  | raised x => raised (f x)
  | call e k => perform (I := I.sum K) (.inr e) >>= fun v : K.Resp e => (k (.ok v)).lift f

end Prog

/-! ### Linking -/

/-- For every call, the program that is run in its place. -/
abbrev Linkage (I J : Interface) (ε : Type) : Type := (e : I.Op) → Prog J ε (I.Resp e)

namespace Prog

/-- Run the implementations in place of the calls. -/
def link (L : Linkage I J ε) : Prog I ε α → Prog J ε α
  | done a => done a
  | raised x => raised x
  | call e k => (L e).attempt >>= fun r => (k r).link L

variable {L : Linkage I J ε}

theorem link_call (e : I.Op) (k : Except ε (I.Resp e) → Prog I ε α) :
    (call e k).link L = (L e).attempt >>= fun r => (k r).link L := rfl

/-- A linked program has ended when the program has, if no implementation is empty. -/
theorem ended_link (hL : ∀ e, (L e).ended = false) (p : Prog I ε α) :
    (p.link L).ended = p.ended := by
  cases p with
  | call e k =>
    rw [link_call]
    have he := hL e
    cases hq : L e with
    | call e' k' => rfl
    | _ =>
      rw [hq] at he
      cases he
  | _ => rfl

/-! ### Where a linked program stands -/

/-- The linked program stands for a program: both have ended, or the first one is within the
implementation of the next call of the second one. `W` says what may be left of an
implementation. -/
inductive Linked (L : Linkage I J ε) (W : (e : I.Op) → Prog J ε (I.Resp e) → Prop) :
    Prog J ε α → Prog I ε α → Prop where
  | ended (r : Except ε α) : Linked L W (ofExcept r) (ofExcept r)
  | within {e : I.Op} {k : Except ε (I.Resp e) → Prog I ε α} {q : Prog J ε (I.Resp e)}
    (hq : q.ended = false) (h : W e q) :
    Linked L W (q.attempt >>= fun r => (k r).link L) (call e k)

section Linked

variable {W W' : (e : I.Op) → Prog J ε (I.Resp e) → Prop} {q : Prog J ε α} {p : Prog I ε α}

/-- More may be left of an implementation. -/
theorem Linked.mono (h : Linked L W q p) (hW : ∀ e q, W e q → W' e q) : Linked L W' q p := by
  cases h with
  | ended r => exact .ended r
  | within hq h => exact .within hq (hW _ _ h)

/-- A linked program stands for the program. -/
theorem linked_link (h : ∀ e k, p = call e k → (L e).ended = false ∧ W e (L e)) :
    Linked L W (p.link L) p := by
  cases p with
  | done a => exact .ended (.ok a)
  | raised x => exact .ended (.error x)
  | call e k => exact .within (h e k rfl).1 (h e k rfl).2

/-- A linked program has ended when the program has. -/
theorem Linked.ended_eq (h : Linked L W q p) : q.ended = p.ended := by
  cases h with
  | ended r => cases r <;> rfl
  | within hq h =>
    rename_i e k q
    cases q with
    | call e' k' => rfl
    | _ => cases hq

/-- A linked program that has ended has the result of the program. -/
theorem Linked.eq_ofExcept {r : Except ε α} (h : Linked L W (ofExcept r) p) : p = ofExcept r := by
  generalize hq : (ofExcept r : Prog J ε α) = q at h
  cases h with
  | ended r' => cases r <;> cases r' <;> cases hq <;> rfl
  | within hq' h =>
    rename_i e k q
    cases q with
    | call e' k' => cases r <;> cases hq
    | _ => cases hq'

/-- A program that has ended has given its result to the linked program. -/
theorem Linked.ofExcept_eq {r : Except ε α} (h : Linked L W q (ofExcept r)) : q = ofExcept r := by
  generalize hp : (ofExcept r : Prog I ε α) = p at h
  cases h with
  | ended r' => cases r <;> cases r' <;> cases hp <;> rfl
  | within hq' h => cases r <;> cases hp

/-- The next call of a linked program is one within the implementation of a call of the program. -/
theorem Linked.call_inv {e' : J.Op} {f : Except ε (J.Resp e') → Prog J ε α}
    (h : Linked L W (call e' f) p) :
    ∃ (e : I.Op) (k : Except ε (I.Resp e) → Prog I ε α)
      (k' : Except ε (J.Resp e') → Prog J ε (I.Resp e)),
      p = call e k ∧ W e (call e' k') ∧ ∀ r, f r = (k' r).attempt >>= fun r => (k r).link L := by
  generalize hq : call e' f = q at h
  cases h with
  | ended r => cases r <;> cases hq
  | within hq' h =>
    rename_i e k q
    cases q with
    | call e'' k' =>
      cases hq
      exact ⟨e, k, k', rfl, h, fun _ => rfl⟩
    | _ => cases hq'

end Linked

/-- What comes after an implementation that has ended. -/
theorem attempt_ofExcept_bind {r : Except ε α} (f : Except ε α → Prog I ε β) :
    ((ofExcept r : Prog I ε α).attempt >>= f) = f r := by
  cases r <;> rfl

end Prog

end Effect

import Mathlib.Logic.Basic
import Mathlib.Tactic.Common

/-!
# Effectful programs as data

A program over an interface `I` is a tree: it has finished with a value, it has raised an
exception, or it is about to make one call and has a continuation for every answer to it. The
answer to a call is an `Except`, so a call can fail and the program decides what to do about it.

* `Prog I ε α` is a monad (`LawfulMonad`), so programs are written in `do` notation.
* `Prog.attempt` is `try`/`except`: it turns the exceptions of a program into values.
* `Prog.drive` runs a program to its end against a handler that answers every call at once, and
  `Prog.Executes` with pauses between the calls.

Running a program one call at a time, next to others, is the business of `Effect.Pool`.
-/

namespace Effect

/-- An interface: the calls a program may make, and the type each of them answers with. -/
structure Interface where
  /-- The calls. -/
  Op : Type
  /-- What a successful call answers with. -/
  Resp : Op → Type

/-- A program over `I` that finishes with an `α` or raises an `ε`. -/
inductive Prog (I : Interface) (ε α : Type) : Type where
  | done (a : α)
  | raised (x : ε)
  | call (e : I.Op) (k : Except ε (I.Resp e) → Prog I ε α)

variable {I : Interface} {ε α β γ σ : Type}

/-- A value that is there, or an exception. -/
def orRaise (x : ε) : Option α → Except ε α
  | some a => .ok a
  | none => .error x

/-- A mapped result is a value if and only if the result is one. -/
theorem map_eq_ok {f : α → β} {r : Except ε α} {b : β} :
    r.map f = .ok b ↔ ∃ a, r = .ok a ∧ f a = b := by
  cases r <;> simp [Except.map]

namespace Prog

/-- Sequencing: an exception skips the rest. -/
def bind : Prog I ε α → (α → Prog I ε β) → Prog I ε β
  | done a, f => f a
  | raised x, _ => raised x
  | call e k, f => call e fun r => (k r).bind f

instance : Monad (Prog I ε) where
  pure := done
  bind := bind

/-- A result that is already known, as a program that makes no call. -/
def ofExcept : Except ε α → Prog I ε α
  | .ok a => done a
  | .error x => raised x

/-- Make one call and answer with its result. -/
def perform (e : I.Op) : Prog I ε (I.Resp e) := call e ofExcept

/-- `try`: the exceptions of the program become values. -/
def attempt : Prog I ε α → Prog I ε (Except ε α)
  | done a => done (.ok a)
  | raised x => done (.error x)
  | call e k => call e fun r => (k r).attempt

/-- The program has nothing left to call. -/
def ended : Prog I ε α → Bool
  | call _ _ => false
  | _ => true

/-- The value the program has finished with, if it has. -/
def value? : Prog I ε α → Option α
  | done a => some a
  | _ => none

/-! ### Equations -/

theorem value?_eq_some {p : Prog I ε α} {a : α} : p.value? = some a ↔ p = done a := by
  cases p <;> simp [value?]

@[simp] theorem pure_eq_done (a : α) : (pure a : Prog I ε α) = done a := rfl

@[simp] theorem done_bind (a : α) (f : α → Prog I ε β) : (done a >>= f) = f a := rfl

@[simp] theorem call_bind (e : I.Op) (k : Except ε (I.Resp e) → Prog I ε α)
    (f : α → Prog I ε β) : (call e k >>= f) = call e fun r => k r >>= f := rfl

@[simp] theorem ofExcept_ok (a : α) : (ofExcept (.ok a) : Prog I ε α) = done a := rfl

/-- Binding after a call, with the two answers written out. -/
theorem perform_bind (e : I.Op) (f : I.Resp e → Prog I ε β) :
    (perform e >>= f) = call e fun r => match r with
      | .ok v => f v
      | .error x => raised x := by
  change call e (fun r => ofExcept r >>= f) = _
  congr 1
  funext r
  cases r <;> rfl

@[simp] theorem attempt_perform (e : I.Op) :
    (perform e : Prog I ε (I.Resp e)).attempt = call e done := by
  change call e (fun r => (ofExcept r).attempt) = _
  congr 1
  funext r
  cases r <;> rfl

instance : LawfulMonad (Prog I ε) :=
  LawfulMonad.mk' _
    (fun p => by
      induction p with
      | done a => rfl
      | raised x => rfl
      | call e k ih => exact congrArg (call e) (funext ih))
    (fun _ _ => rfl)
    (fun p f g => by
      induction p with
      | done a => rfl
      | raised x => rfl
      | call e k ih => exact congrArg (call e) (funext ih))

/-! ### Running to the end -/

/-- Run a program against a handler that answers every call from a state of its own. -/
def drive (h : (e : I.Op) → σ → Except ε (I.Resp e) × σ) : Prog I ε α → σ → Except ε α × σ
  | done a, s => (.ok a, s)
  | raised x, s => (.error x, s)
  | call e k, s => (k (h e s).1).drive h (h e s).2

section drive

variable (h : (e : I.Op) → σ → Except ε (I.Resp e) × σ)

@[simp] theorem drive_call (e : I.Op) (k : Except ε (I.Resp e) → Prog I ε α) (s : σ) :
    (call e k).drive h s = (k (h e s).1).drive h (h e s).2 := rfl

@[simp] theorem drive_ofExcept (r : Except ε α) (s : σ) :
    (ofExcept r : Prog I ε α).drive h s = (r, s) := by
  cases r <;> rfl

@[simp] theorem drive_perform (e : I.Op) (s : σ) : (perform e).drive h s = h e s := by
  simp only [perform, drive_call, drive_ofExcept]

/-- A sequence runs its first part and then, unless that raised, its second part. -/
theorem drive_bind (p : Prog I ε α) (f : α → Prog I ε β) (s : σ) :
    (p >>= f).drive h s = match p.drive h s with
      | (.ok a, s') => (f a).drive h s'
      | (.error x, s') => (.error x, s') := by
  induction p generalizing s with
  | done a => rfl
  | raised x => rfl
  | call e k ih => exact ih _ _

/-- A first part that is known to finish hands its value on. -/
theorem drive_bind_ok {p : Prog I ε α} {a : α} {s s' : σ} (hp : p.drive h s = (.ok a, s'))
    (f : α → Prog I ε β) : (p >>= f).drive h s = (f a).drive h s' := by
  rw [drive_bind, hp]

/-- A first part that is known to raise ends the sequence. -/
theorem drive_bind_error {p : Prog I ε α} {x : ε} {s s' : σ}
    (hp : p.drive h s = (.error x, s')) (f : α → Prog I ε β) :
    (p >>= f).drive h s = (.error x, s') := by
  rw [drive_bind, hp]

/-- `attempt` runs the same calls and always finishes. -/
theorem drive_attempt (p : Prog I ε α) (s : σ) :
    p.attempt.drive h s = (.ok (p.drive h s).1, (p.drive h s).2) := by
  induction p generalizing s with
  | done a => rfl
  | raised x => rfl
  | call e k ih => exact ih _ _

end drive

/-! ### Running with pauses -/

/-- A run of a program that is alone with the state, but for what happens to it by itself between
two calls (`pass`). -/
inductive Executes (pass : σ → σ → Prop) (h : (e : I.Op) → σ → Except ε (I.Resp e) × σ) :
    Prog I ε α → σ → Except ε α → σ → Prop where
  | done {a : α} {s : σ} : Executes pass h (.done a) s (.ok a) s
  | raised {x : ε} {s : σ} : Executes pass h (.raised x) s (.error x) s
  | call {e : I.Op} {k : Except ε (I.Resp e) → Prog I ε α} {s s₁ s' : σ} {r : Except ε α}
    (hp : pass s s₁) (hk : Executes pass h (k (h e s₁).1) (h e s₁).2 r s') :
    Executes pass h (.call e k) s r s'

/-- A run without pauses is a run. -/
theorem executes_drive {pass : σ → σ → Prop} (hpass : ∀ s, pass s s)
    (h : (e : I.Op) → σ → Except ε (I.Resp e) × σ) (p : Prog I ε α) (s : σ) :
    p.Executes pass h s (p.drive h s).1 (p.drive h s).2 := by
  induction p generalizing s with
  | done a => exact .done
  | raised x => exact .raised
  | call e k ih => exact .call (hpass s) (ih _ _)

end Prog

end Effect

import WebhookRelay.Circuit.NeverStuck

/-!
# Calls one at a time

`Sequence` runs calls one after the other, with time passing between them and in them. What a call
on its own does (`executes_run`) then gives what every sequence keeps (`Sequence.invariant`).
-/

namespace WebhookRelay

open Data Data.Redis Effect

namespace CircuitBreaker

variable {cb : CircuitBreaker} {o : Origin} {s s' : Server}

/-- A call that has run, with its start, its end and its result. -/
structure Served where
  origin : Origin
  start : ℚ
  stop : ℚ
  result : Except Exn Answer

/-- The instants lie in the call. -/
def Served.Spans (x : Served) (i : Instants) : Prop :=
  x.start ≤ i.count ∧ i.count ≤ i.look ∧ i.look ≤ i.act ∧ i.act ≤ x.stop

/-- Calls run one at a time, with time passing between them and in them. -/
inductive Sequence (cb : CircuitBreaker) : Server → List Served → Server → Prop where
  | nil {s : Server} : Sequence cb s [] s
  | cons {s s₁ s₂ s' : Server} {o : Origin} {r : Except Exn Answer} {calls : List Served}
    (hlater : s.Later s₁) (hrun : (o.program cb).Executes Server.Later exec s₁ r s₂)
    (hrest : Sequence cb s₂ calls s') : Sequence cb s (⟨o, s₁.now, s₂.now, r⟩ :: calls) s'

/-- The invariant rule: what time keeps, and every call on its own, holds after every sequence. -/
theorem Sequence.invariant {calls : List Served} (h : Sequence cb s calls s') {J : Server → Prop}
    (hs : Tidy s) (h₀ : J s) (hlater : ∀ s s₁, J s → s.Later s₁ → J s₁)
    (hrun : ∀ s o i a s', Tidy s → J s → Ran cb o s i a s' → J s') : Tidy s' ∧ J s' := by
  induction h with
  | nil => exact ⟨hs, h₀⟩
  | cons hpause hcall hrest ih =>
    obtain ⟨i, a, -, hran⟩ := executes_run hcall (hs.of_keyspace hpause.keyspace)
    exact ih hran.tidy
      (hrun _ _ i a _ (hs.of_keyspace hpause.keyspace) (hlater _ _ h₀ hpause) hran)

/-- Calls at given times, without pauses in them. -/
def serve (cb : CircuitBreaker) : Server → List (ℚ × Origin) → List Served × Server
  | s, [] => ([], s)
  | s, (t, o) :: calls =>
    let s₁ := { s with now := max s.now t }
    let x := (o.program cb).drive exec s₁
    let y := serve cb x.2 calls
    (⟨o, s₁.now, x.2.now, x.1⟩ :: y.1, y.2)

/-- Calls at given times are a sequence. -/
theorem sequence_serve (cb : CircuitBreaker) : ∀ (calls : List (ℚ × Origin)) (s : Server),
    Sequence cb s (serve cb s calls).1 (serve cb s calls).2
  | [], _ => .nil
  | (t, o) :: calls, s =>
    .cons ⟨rfl, le_max_left s.now t⟩
      (Prog.executes_drive (I := redis) Server.Later.refl exec (o.program cb) _)
      (sequence_serve cb calls _)

end CircuitBreaker

end WebhookRelay

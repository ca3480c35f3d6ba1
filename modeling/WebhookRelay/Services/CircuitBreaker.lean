import WebhookRelay.Data.Redis
import WebhookRelay.Effect.Program

/-!
# The circuit breaker

Source: `services/circuit_breaker.py`. The state of an endpoint's circuit is in three keys of
Redis: its state, its counter of failures, and the time it was opened at. Every method is a
program over the commands it awaits, with `time.time()` as a call of its own.
-/

namespace WebhookRelay

open Data Data.Redis Effect

/-- `CircuitState`. -/
inductive CircuitState where
  | closed
  | opened
  | halfOpen
  deriving DecidableEq

/-- The value of a `CircuitState`. -/
def CircuitState.value : CircuitState → Str
  | closed => Str.lit "closed"
  | opened => Str.lit "open"
  | halfOpen => Str.lit "half_open"

/-- `CircuitState(value)`; none is a `ValueError`. -/
def CircuitState.ofValue? : Value → Option CircuitState
  | .text s =>
    if s = closed.value then some closed
    else if s = opened.value then some opened
    else if s = halfOpen.value then some halfOpen
    else none
  | _ => none

@[simp] theorem CircuitState.ofValue?_value (s : CircuitState) :
    ofValue? (.text s.value) = some s := by
  cases s <;> rfl

@[simp] theorem CircuitState.value_inj {s t : CircuitState} : s.value = t.value ↔ s = t := by
  refine ⟨fun h => ?_, fun h => h ▸ rfl⟩
  have hs := ofValue?_value s
  rw [h, ofValue?_value] at hs
  exact (Option.some.inj hs).symm

/-- `CircuitBreaker.__init__`, the client of Redis aside. -/
structure CircuitBreaker where
  failureThreshold : ℤ
  failureWindow : ℤ
  recoveryTimeout : ℤ

namespace CircuitBreaker

/-! ### The calls -/

/-- The exceptions of a method: `ValueError`, `IndexError`, and `ResponseError` of a
transaction. -/
inductive Exn where
  | valueError
  | indexError
  | responseError
  deriving DecidableEq

/-- The awaits of the methods, and the clock. -/
inductive Op where
  | time
  | get (key : Str)
  | delete (key : Str)
  | execute (pipe : List Command)
  deriving DecidableEq

/-- What a call answers with. -/
def Op.Resp : Op → Type
  | .time => ℚ
  | .get _ => Option Value
  | .delete _ => ℤ
  | .execute _ => List Redis.Reply

/-- The interface of the methods. -/
abbrev redis : Interface := ⟨Op, Op.Resp⟩

/-- A method of the circuit breaker. -/
abbrev Method : Type → Type := Prog redis Exn

/-- Await one call. -/
abbrev await (e : Op) : Method e.Resp := Prog.perform (I := redis) e

/-- `raise`. -/
abbrev raise {α : Type} (x : Exn) : Method α := .raised x

/-- `time.time()`. -/
def time : Method ℚ := await .time

/-- `redis.get(...)`. -/
def get (key : Str) : Method (Option Value) := await (.get key)

/-- `redis.delete(...)`. -/
def delete (key : Str) : Method ℤ := await (.delete key)

/-- `pipe.execute()`. -/
def execute (pipe : List Command) : Method (List Redis.Reply) := await (.execute pipe)

/-! ### Keys -/

/-- `f"cb:{endpoint_id}:state"`. -/
def stateKey (endpointId : Str) : Str := Str.lit "cb:" ++ endpointId ++ Str.lit ":state"

/-- `f"cb:{endpoint_id}:failures"`. -/
def failuresKey (endpointId : Str) : Str := Str.lit "cb:" ++ endpointId ++ Str.lit ":failures"

/-- `f"cb:{endpoint_id}:opened_at"`. -/
def openedAtKey (endpointId : Str) : Str := Str.lit "cb:" ++ endpointId ++ Str.lit ":opened_at"

/-! ### The methods -/

/-- The pipeline of `_transition_to`, given the time of an opening. -/
def transition (endpointId : Str) (state : CircuitState) (now : ℚ) : List Command :=
  .set (stateKey endpointId) (.text state.value) :: match state with
    | .opened => [.set (openedAtKey endpointId) (.float now)]
    | .closed => [.del (openedAtKey endpointId)]
    | .halfOpen => []

/-- Source: `_transition_to`; only an opening reads the clock. -/
def transitionTo (endpointId : Str) (state : CircuitState) : Method Unit := do
  let now ← if state = .opened then time else pure 0
  let _ ← execute (transition endpointId state now)
  pure ()

/-- Source: `get_state`, once OPEN was read: the circuit turns HALF_OPEN when its time is up. -/
def getStateOpened (cb : CircuitBreaker) (endpointId : Str) : Method CircuitState := do
  match ← get (openedAtKey endpointId) with
  | none => pure .opened
  | some openedAt =>
    if openedAt.truthy then do
      let now ← time
      let elapsed := now - (← .ofExcept (orRaise .valueError openedAt.float?))
      if (cb.recoveryTimeout : ℚ) < elapsed then do
        transitionTo endpointId .halfOpen
        pure .halfOpen
      else pure .opened
    else pure .opened

/-- Source: `get_state`. -/
def getState (cb : CircuitBreaker) (endpointId : Str) : Method CircuitState := do
  match ← get (stateKey endpointId) with
  | none => pure .closed
  | some value =>
    let state ← .ofExcept (orRaise .valueError (CircuitState.ofValue? value))
    if state = .opened then getStateOpened cb endpointId else pure state

/-- Source: `is_allowed`. -/
def isAllowed (cb : CircuitBreaker) (endpointId : Str) : Method Bool := do
  let state ← getState cb endpointId
  pure (decide (state ≠ .opened))

/-- Source: `record_success`. -/
def recordSuccess (cb : CircuitBreaker) (endpointId : Str) : Method Unit := do
  let state ← getState cb endpointId
  if state = .halfOpen then do
    transitionTo endpointId .closed
    let _ ← delete (failuresKey endpointId)
    pure ()
  else pure ()

/-- The pipeline of `record_failure`. -/
def counting (cb : CircuitBreaker) (endpointId : Str) : List Command :=
  [.incr (failuresKey endpointId), .expire (failuresKey endpointId) cb.failureWindow]

/-- `results[0]`, the answer to `INCR`. -/
def firstCount : List Redis.Reply → Option ℤ
  | .int n :: _ => some n
  | _ => none

/-- Source: `record_failure`, once the failure was counted. -/
def recordFailureCounted (cb : CircuitBreaker) (endpointId : Str) (failureCount : ℤ) :
    Method CircuitState := do
  let currentState ← getState cb endpointId
  if cb.failureThreshold ≤ failureCount ∧ currentState = .closed then do
    transitionTo endpointId .opened
    pure .opened
  else if currentState = .halfOpen then do
    transitionTo endpointId .opened
    pure .opened
  else pure currentState

/-- Source: `record_failure`. -/
def recordFailure (cb : CircuitBreaker) (endpointId : Str) : Method CircuitState := do
  let results ← execute (counting cb endpointId)
  let failureCount ← .ofExcept (orRaise .responseError (firstCount results))
  recordFailureCounted cb endpointId failureCount

/-- The pipeline of `reset`. -/
def clearing (endpointId : Str) : List Command :=
  [.del (stateKey endpointId), .del (failuresKey endpointId), .del (openedAtKey endpointId)]

/-- Source: `reset`. -/
def reset (endpointId : Str) : Method Unit := do
  let _ ← execute (clearing endpointId)
  pure ()

/-- Source: `get_open_circuits`, over the keys that `scan_iter("cb:*:state")` yields. -/
def getOpenCircuits : List Str → Method (List Str)
  | [] => pure []
  | key :: keys => do
    let val ← get key
    if val = some (.text CircuitState.opened.value) then do
      let endpointId ← .ofExcept (orRaise .indexError (key.splitOn ':')[1]?)
      let endpointIds ← getOpenCircuits keys
      pure (endpointId :: endpointIds)
    else getOpenCircuits keys

end CircuitBreaker

end WebhookRelay

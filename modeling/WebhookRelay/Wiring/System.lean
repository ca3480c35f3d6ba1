import WebhookRelay.Circuit.Calls
import WebhookRelay.Effect.Linking
import WebhookRelay.System

/-!
# The services with the circuit breaker they are built with

Sources: `worker/arq_worker.py` (`startup`), `main.py` (`lifespan`). The services are given a
`CircuitBreaker`, whose methods are coroutines with awaits of their own. Here these methods stand in
the place of its interface (`linkage`): a coroutine of the wired system awaits PostgreSQL, arq, the
receiver and Redis, one command at a time, and every await can fail.

The Redis of the circuit breaker and the rest of the world have one clock. `get_open_circuits`
stays one call: it only reads, and what it reads goes to the statistics.
-/

namespace WebhookRelay

open Data Effect

/-- What `startup` and `lifespan` build the services from. -/
structure Wiring where
  deps : Deps
  /-- `CB_FAILURE_THRESHOLD`. -/
  failureThreshold : ℤ
  /-- `CB_FAILURE_WINDOW_SECONDS`. -/
  failureWindow : ℤ
  /-- What the services see of an exception of the circuit breaker. -/
  raised : CircuitBreaker.Exn → PyExn

namespace Wiring

/-- The circuit breaker of the services. -/
def breaker (wi : Wiring) : CircuitBreaker :=
  ⟨wi.failureThreshold, wi.failureWindow, wi.deps.settings.cbRecoveryTimeoutSeconds⟩

/-! ### The programs -/

/-- The awaits of the services and those of the circuit breaker. -/
abbrev wired : Interface := relay.sum CircuitBreaker.redis

/-- What is run for a call of the services: a method of the circuit breaker, or the call itself. The
answer to `record_failure` is dropped. -/
def linkage (wi : Wiring) : Linkage relay wired PyExn
  | .isAllowed endpoint => (wi.breaker.isAllowed endpoint.str).lift wi.raised
  | .recordSuccess endpoint => (wi.breaker.recordSuccess endpoint.str).lift wi.raised
  | .recordFailure endpoint =>
    ((fun _ => ()) <$> wi.breaker.recordFailure endpoint.str).lift wi.raised
  | .resetCircuit endpoint => (CircuitBreaker.reset endpoint.str).lift wi.raised
  | e => Prog.perform (I := wired) (.inl e)

/-- A coroutine of the services, with the methods of the circuit breaker in place. -/
abbrev wire (wi : Wiring) (p : Relay Reply) : Prog wired PyExn Reply := p.link wi.linkage

/-! ### The world -/

/-- The world with the Redis of the circuit breaker. -/
structure Backends where
  world : World
  /-- The transactions on the keys of the circuit breaker. -/
  journal : Redis.Journal

/-- `time.time()`. -/
def seconds (t : Datetime) : ℚ := t.micros / 1000000

/-- The Redis of the circuit breaker. -/
def Backends.server (b : Backends) : Redis.Server := ⟨b.journal, seconds b.world.now⟩

/-- What an await does. -/
def exec (wi : Wiring) (o : Oracle) : (e : wired.Op) → Backends → Session →
    Except PyExn (wired.Resp e) × Backends × Session
  | .inl e, b, s =>
    let x := WebhookRelay.exec o e b.world s
    (x.1, { b with world := x.2.1 }, x.2.2)
  | .inr e, b, s =>
    let x := CircuitBreaker.exec e b.server
    (x.1.mapError wi.raised, { b with journal := x.2.journal }, s)

/-- Only statements wait. -/
def blocked (others : List Session) (b : Backends) (s : Session) : wired.Op → Bool
  | .inl e => WebhookRelay.blocked others b.world s e
  | .inr _ => false

/-- PostgreSQL, arq, httpx and both uses of Redis as a machine. -/
def machine (wi : Wiring) : Machine wired PyExn Backends Session Oracle where
  fresh := .fresh
  exec := exec wi
  blocked := blocked

/-! ### The system -/

/-- A coroutine under way. -/
abbrev Coroutine : Type := Thread wired PyExn Reply Session Origin

/-- A state of the wired system. -/
abbrev Config : Type := Pool wired PyExn Reply Backends Session Origin

/-- A coroutine starts in some world. -/
def launch (wi : Wiring) (c : Config) (w : World) (o : Origin) (p : Relay Reply) : Config :=
  Pool.spawn (machine wi) { c with world := { c.world with world := w } } o (wi.wire p)

/-- arq stores the result of a job that has ended. -/
def finishJob (c : Config) (t : ℕ) : Option Config :=
  match c.threads[t]? with
  | some th =>
    match th.origin with
    | .job event =>
      if th.prog.ended then
        some ⟨{ c.world with world := c.world.world.finish event },
          c.threads.set t { th with origin := .reaped event }⟩
      else none
    | _ => none
  | none => none

/-- A worker takes a job that has a job key. -/
def startJob (wi : Wiring) (c : Config) (event : UUID) : Option Config :=
  if (c.world.world.jobs event).phase.isSome then
    some (wi.launch c (c.world.world.take event) (.job event) (jobProgram wi.deps event))
  else none

/-- One move. -/
def step (wi : Wiring) (c : Config) : Action → Option Config
  | .arrive r => some (wi.launch c c.world.world (.request r) r.program)
  | .startJob event => startJob wi c event
  | .startCron => some (wi.launch c c.world.world .cron cronProgram)
  | .call t o => c.call (machine wi) t o
  | .fault t o x applied => c.fault (machine wi) t o x.exn applied
  | .kill t => c.kill (machine wi) t .cancelled
  | .finishJob t => finishJob c t
  | .tick micros =>
    let w := c.world.world
    some { c with world := { c.world with world := { w with now := w.now.advance micros } } }

/-- The wired system before anything has happened. -/
def initial (now : Datetime) : Config := ⟨⟨(WebhookRelay.initial now).world, []⟩, []⟩

/-- No condition on the steps. -/
def anyStep (_ : Config) (_ : Action) : Prop := True

/-- The states reached from an empty database and an empty Redis by steps that meet a condition. -/
def Reaches (wi : Wiring) (ok : Config → Action → Prop) (c : Config) : Prop :=
  ∃ now, Runs (step wi) ok (initial now) c

/-- The invariant rule for reachable states. -/
theorem Reaches.invariant {wi : Wiring} {ok : Config → Action → Prop} {J : Config → Prop}
    {c : Config} (h : Reaches wi ok c) (h₀ : ∀ now, J (initial now))
    (hstep : ∀ c a c', Reaches wi ok c → J c → ok c a → step wi c a = some c' → J c') : J c := by
  obtain ⟨now, hr⟩ := h
  exact hr.invariant (h₀ now) fun c a c' hc => hstep c a c' ⟨now, hc⟩

end Wiring

end WebhookRelay

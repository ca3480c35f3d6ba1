import WebhookRelay.Worker

/-!
# The whole system: requests, workers and the cron job, interleaved

A `Config` is the world with the coroutines that are under way. `step` is one move of the
scheduler: a request arrives, a worker takes a job, the cron job starts, a coroutine makes one
call, a call fails, a coroutine is cut off, arq stores the result of a job, time passes.

A job can be taken while it is already in progress: arq promises to run it at least once.
-/

namespace WebhookRelay

open Data Effect

/-- The requests that are modelled. -/
inductive Request where
  | createEndpoint (data : EndpointCreate)
  | updateEndpoint (id : UUID) (data : EndpointUpdate)
  | deleteEndpoint (id : UUID)
  | rotateSecret (id : UUID)
  | createEvent (data : EventCreate)
  | replay (id : UUID) (force : Bool)
  | replayBulk (endpointId : Option UUID) (eventType : Option Str) (force : Bool)
  | discard (id : UUID)
  | stats

/-- Where a coroutine came from. A job whose result has been stored is `reaped`. -/
inductive Origin where
  | request (r : Request)
  | job (event : UUID)
  | reaped (event : UUID)
  | cron

/-- What a coroutine answers with. -/
inductive Reply where
  | unit
  | endpoint (r : WebhookEndpoint)
  | event (r : WebhookEvent)
  | replay (r : ReplayResult)
  | bulk (r : BulkReplayResult)
  | stats (r : Api.StatsResponse)
  | delivery (s : DeliveryStatus)
  | polled (enqueued : ℕ)

/-- The coroutine of a request. The replay handlers bring their own sessions. -/
def Request.program : Request → Relay Reply
  | .createEndpoint data => .endpoint <$> Api.getDb (Api.createEndpoint data)
  | .updateEndpoint id data => .endpoint <$> Api.getDb (Api.updateEndpoint id data)
  | .deleteEndpoint id => (fun _ => .unit) <$> Api.getDb (Api.deleteEndpoint id)
  | .rotateSecret id => .endpoint <$> Api.getDb (Api.rotateSecret id)
  | .createEvent data => .event <$> Api.getDb (Api.createEvent data)
  | .replay id force => .replay <$> Api.replayDlqEvent id force
  | .replayBulk endpointId eventType force =>
    .bulk <$> ReplayService.replayBulk endpointId eventType force
  | .discard id => (fun _ => .unit) <$> Api.getDb (Api.discardDlqEntry id)
  | .stats => .stats <$> Api.getDb Api.globalStats

/-- The coroutine of a job. -/
def jobProgram (deps : Deps) (event : UUID) : Relay Reply :=
  .delivery <$> Worker.deliverWebhookTask deps event

/-- The coroutine of the cron job. -/
def cronProgram : Relay Reply := .polled <$> Worker.pollPendingRetries

/-- A coroutine under way. -/
abbrev Coroutine : Type := Thread relay PyExn Reply Session Origin

/-- A state of the system. -/
abbrev Config : Type := Pool relay PyExn Reply World Session Origin

/-- The failures that can hit any call. -/
inductive Fault where
  | connectionLost
  | cancelled
  deriving DecidableEq

/-- The exception of a failure. -/
def Fault.exn : Fault → PyExn
  | .connectionLost => .connectionLost
  | .cancelled => .cancelled

/-- The moves of the scheduler. -/
inductive Action where
  | arrive (r : Request)
  | startJob (event : UUID)
  | startCron
  | call (t : ℕ) (o : Oracle)
  | fault (t : ℕ) (o : Oracle) (x : Fault) (applied : Bool)
  | kill (t : ℕ)
  | finishJob (t : ℕ)
  | tick (micros : ℕ)

/-- The world after arq has stored the result of a job. -/
def World.finish (w : World) (event : UUID) : World :=
  { w with jobs := Function.update w.jobs event ⟨none, some (w.now.advance keepResult)⟩ }

/-- The world after a worker has taken a job. -/
def World.take (w : World) (event : UUID) : World :=
  { w with jobs := Function.update w.jobs event ⟨some .inProgress, (w.jobs event).resultUntil⟩ }

/-- arq stores the result of a job that has ended. -/
def finishJob (c : Config) (t : ℕ) : Option Config :=
  match c.threads[t]? with
  | some th =>
    match th.origin with
    | .job event =>
      if th.prog.ended then
        some ⟨c.world.finish event, c.threads.set t { th with origin := .reaped event }⟩
      else none
    | _ => none
  | none => none

/-- A worker takes a job that has a job key. -/
def startJob (deps : Deps) (c : Config) (event : UUID) : Option Config :=
  if (c.world.jobs event).phase.isSome then
    some (Pool.spawn machine { c with world := c.world.take event } (.job event)
      (jobProgram deps event))
  else none

/-- One move. -/
def step (deps : Deps) (c : Config) : Action → Option Config
  | .arrive r => some (c.spawn machine (.request r) r.program)
  | .startJob event => startJob deps c event
  | .startCron => some (c.spawn machine .cron cronProgram)
  | .call t o => c.call machine t o
  | .fault t o x applied => c.fault machine t o x.exn applied
  | .kill t => c.kill machine t .cancelled
  | .finishJob t => finishJob c t
  | .tick micros => some { c with world := { c.world with now := c.world.now.advance micros } }

/-- The system before anything has happened. -/
def initial (now : Datetime) : Config := ⟨⟨[], now, fun _ => ⟨none, none⟩, []⟩, []⟩

/-- No condition on the steps. -/
def anyStep (_ : Config) (_ : Action) : Prop := True

/-- The states reached from an empty database by steps that meet a condition. -/
def Reaches (deps : Deps) (ok : Config → Action → Prop) (c : Config) : Prop :=
  ∃ now, Runs (step deps) ok (initial now) c

/-- The invariant rule for reachable states. -/
theorem Reaches.invariant {deps : Deps} {ok : Config → Action → Prop} {J : Config → Prop}
    {c : Config} (h : Reaches deps ok c) (h₀ : ∀ now, J (initial now))
    (hstep : ∀ c a c', Reaches deps ok c → J c → ok c a → step deps c a = some c' → J c') :
    J c := by
  obtain ⟨now, hr⟩ := h
  exact hr.invariant (h₀ now) fun c a c' hc => hstep c a c' ⟨now, hc⟩

/-- One step more. -/
theorem Reaches.tail {deps : Deps} {ok : Config → Action → Prop} {c c' : Config} {a : Action}
    (h : Reaches deps ok c) (ha : ok c a) (hs : step deps c a = some c') : Reaches deps ok c' := by
  obtain ⟨now, hr⟩ := h
  exact ⟨now, hr.tail ⟨a, ha, hs⟩⟩

/-- A condition may be replaced by one that it implies at every state reached. -/
theorem Reaches.mono {deps : Deps} {ok ok' : Config → Action → Prop} {c : Config}
    (h : Reaches deps ok c) (himp : ∀ c a, Reaches deps ok c → ok c a → ok' c a) :
    Reaches deps ok' c := by
  obtain ⟨now, hr⟩ := h
  exact ⟨now, hr.mono fun c a hc => himp c a ⟨now, hc⟩⟩

end WebhookRelay

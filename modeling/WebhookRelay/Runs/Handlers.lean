import WebhookRelay.Delivery.Sending
import WebhookRelay.Delivery.SlowEndpoints
import WebhookRelay.Runs.Calls

/-!
# What a request and a poll ask for

Two kinds of calls belong to one part of the program each: those that tell what was sent
(`Op.tells`) are made by the runs of `deliver` only, and those that read and mark dead letter
entries (`Op.replays`) by replays only. `program_asks` goes through the handlers and the poll once.
-/

namespace WebhookRelay

open Data Effect

/-- The call is one of a replay: it reads entries, marks one, or resets a circuit. -/
def Op.replays : Op → Bool
  | .getDeadLetter _ => true
  | .selectDeadLetters _ _ _ => true
  | .flushDeadLetter _ _ => true
  | .resetCircuit _ => true
  | _ => false

/-- A coroutine that does not deliver may make the call. -/
structure Origin.Asks (o : Origin) (e : Op) : Prop where
  tells : e.tells = false
  replays : e.replays = true → o.IsReplay

section asks

variable {o : Origin}

/-- A call that is of neither kind. -/
theorem asks_perform {e : Op} (ht : e.tells = false) (hr : e.replays = false) :
    (Prog.perform (I := relay) e : Relay e.Resp).Calls o.Asks :=
  Prog.calls_perform ⟨ht, fun h => Bool.noConfusion (hr.symm.trans h)⟩

/-- A call of a replay. -/
theorem asks_replaying {e : Op} (ht : e.tells = false) (ho : o.IsReplay) :
    (Prog.perform (I := relay) e : Relay e.Resp).Calls o.Asks :=
  Prog.calls_perform ⟨ht, fun _ => ho⟩

theorem asks_commit {α : Type} (a : α) : (commit >>= fun _ => pure a : Relay α).Calls o.Asks :=
  Prog.Calls.bind (asks_perform rfl rfl) fun _ => Prog.calls_done _

theorem asks_getDb {α : Type} {handler : Relay α} (h : handler.Calls o.Asks) :
    (Api.getDb handler).Calls o.Asks :=
  h.bind fun _ => asks_commit _

theorem asks_found {α : Type} (detail : Str) (x : Option α) :
    (Api.found detail x).Calls o.Asks := by
  cases x with
  | none => exact Prog.calls_raised _
  | some a => exact Prog.calls_done a

/-- The handlers of the endpoints. -/
theorem asks_endpoints : (∀ data, (Api.createEndpoint data).Calls o.Asks) ∧
    (∀ id data, (Api.updateEndpoint id data).Calls o.Asks) ∧
    (∀ id, (Api.deleteEndpoint id).Calls o.Asks) ∧
    ∀ id, (Api.rotateSecret id).Calls o.Asks := by
  have hget (id : UUID) : (EndpointRepository.getById id).Calls o.Asks := asks_perform rfl rfl
  have htoken : tokenHex.Calls o.Asks := asks_perform rfl rfl
  have hflush (old new : WebhookEndpoint) : (flushEndpoint old new).Calls o.Asks :=
    asks_perform rfl rfl
  refine ⟨fun data => ?_, fun id data => ?_, fun id => ?_, fun id => ?_⟩
  · exact htoken.bind fun _ => Prog.Calls.bind (asks_perform rfl rfl) fun _ =>
      Prog.Calls.bind (asks_perform rfl rfl) fun _ => Prog.calls_done _
  · refine Prog.Calls.bind ((hget id).bind fun row => ?_) fun _ => asks_found _ _
    cases row with
    | none => exact Prog.calls_done _
    | some endpoint => exact (hflush _ _).bind fun _ => Prog.calls_done _
  · refine Prog.Calls.bind (q := EndpointRepository.deactivate id) (asks_perform rfl rfl)
      fun there => ?_
    cases there with
    | true => exact Prog.calls_done _
    | false => exact Prog.calls_raised _
  · refine Prog.Calls.bind ((hget id).bind fun row => ?_) fun _ => asks_found _ _
    cases row with
    | none => exact Prog.calls_done _
    | some endpoint =>
      exact htoken.bind fun _ => (hflush _ _).bind fun _ => Prog.calls_done _

/-- A new event. -/
theorem asks_create (row : UUID → Datetime → WebhookEvent) :
    (EventRepository.create row).Calls o.Asks :=
  Prog.Calls.bind (asks_perform rfl rfl) fun _ => Prog.Calls.bind (asks_perform rfl rfl) fun _ =>
    Prog.Calls.bind (asks_perform rfl rfl) fun _ => Prog.calls_done _

theorem asks_createEvent (data : EventCreate) : (Api.createEvent data).Calls o.Asks := by
  have hlookup : (Api.lookup data).Calls o.Asks := by
    unfold Api.lookup
    cases data.idempotencyKey with
    | none => exact Prog.calls_done _
    | some key =>
      dsimp only
      split_ifs
      · exact Prog.calls_done _
      · exact asks_perform rfl rfl
  refine hlookup.bind fun existing => ?_
  cases existing with
  | some r => exact Prog.calls_done r
  | none =>
    refine Prog.Calls.bind (q := EndpointRepository.getById data.endpointId) (asks_perform rfl rfl)
      fun row => (asks_found _ row).bind fun endpoint => ?_
    split_ifs
    · exact Prog.calls_raised _
    · exact Prog.calls_raised _
    · exact (asks_create _).bind fun event =>
        Prog.Calls.bind (asks_perform rfl rfl) fun _ => Prog.calls_done _

theorem asks_replaySingle (ho : o.IsReplay) (id : UUID) (force own : Bool) :
    (ReplayService.replaySingle id force own).Calls o.Asks := by
  have hcommit : (ReplayService.commitOwn own).Calls o.Asks := by
    unfold ReplayService.commitOwn
    split_ifs
    · exact asks_perform rfl rfl
    · exact Prog.calls_done _
  have hmark (entry : DeadLetterEvent) :
      (DeadLetterRepository.markReplayed entry).Calls o.Asks :=
    Prog.Calls.bind (asks_perform rfl rfl) fun _ =>
      Prog.Calls.bind (asks_replaying rfl ho) fun _ => Prog.calls_done _
  refine Prog.Calls.bind (q := DeadLetterRepository.getById id) (asks_replaying rfl ho)
    fun row => ?_
  cases row with
  | none => exact Prog.calls_raised _
  | some entry =>
    have hcheck : (ReplayService.checkRecent entry force).Calls o.Asks :=
      calls_checkRecent ⟨rfl, fun h => nomatch h⟩ entry force
    exact hcheck.bind fun _ => (asks_create _).bind fun event =>
      (hmark entry).bind fun entry' => Prog.Calls.bind (asks_replaying rfl ho) fun _ =>
      hcommit.bind fun _ => Prog.Calls.bind (asks_perform rfl rfl) fun _ => Prog.calls_done _

/-- The loop of a bulk replay, by induction on the entries that are left. -/
theorem asks_replayEach (ho : o.IsReplay) (force : Bool) (entries : List DeadLetterEvent) :
    ∀ (results : List ReplayResult) (errors : ℕ),
      (ReplayService.replayEach force entries results errors).Calls o.Asks := by
  induction entries with
  | nil => exact fun _ _ => Prog.calls_done _
  | cons entry entries ih =>
    intro results errors
    refine Prog.Calls.bind (asks_replaySingle ho entry.id force false).attempt fun r => ?_
    cases r with
    | ok result => exact ih _ _
    | error x =>
      dsimp only
      split_ifs
      · exact ih _ _
      · exact Prog.calls_raised x

theorem asks_discardDlqEntry (id : UUID) : (Api.discardDlqEntry id).Calls o.Asks := by
  refine Prog.Calls.bind (q := DeadLetterRepository.deleteEntry id) (asks_perform rfl rfl)
    fun there => ?_
  cases there with
  | true => exact Prog.calls_done _
  | false => exact Prog.calls_raised _

theorem asks_globalStats : Api.globalStats.Calls o.Asks :=
  Prog.Calls.bind (asks_perform rfl rfl) fun _ => Prog.Calls.bind (asks_perform rfl rfl) fun _ =>
    Prog.Calls.bind (asks_perform rfl rfl) fun _ => Prog.calls_done _

/-- **A coroutine that does not deliver asks for nothing else.** -/
theorem program_asks (deps : Deps) {o : Origin} (ho : o.delivers = none) :
    (o.program deps).Calls o.Asks := by
  cases o with
  | job id => cases ho
  | reaped id => cases ho
  | cron =>
    refine Prog.Calls.map (pollPendingRetries_polls.imp fun e he => ?_) _
    cases e <;> first | exact ⟨rfl, fun h => Bool.noConfusion h⟩ | exact he.elim
  | request r =>
    cases r with
    | createEndpoint data => exact (asks_getDb (asks_endpoints.1 data)).map _
    | updateEndpoint id data => exact (asks_getDb (asks_endpoints.2.1 id data)).map _
    | deleteEndpoint id => exact (asks_getDb (asks_endpoints.2.2.1 id)).map _
    | rotateSecret id => exact (asks_getDb (asks_endpoints.2.2.2 id)).map _
    | createEvent data => exact (asks_getDb (asks_createEvent data)).map _
    | replay id force =>
      have hreplay : Origin.IsReplay (.request (.replay id force)) := trivial
      refine Prog.Calls.map (Prog.Calls.bind (asks_replaySingle hreplay id force true).attempt
        fun r => ?_) _
      rcases r with x | result
      · cases x <;> exact Prog.calls_raised _
      · exact Prog.calls_done result
    | replayBulk endpointId eventType force =>
      have hreplay : Origin.IsReplay (.request (.replayBulk endpointId eventType force)) := trivial
      refine Prog.Calls.map (Prog.Calls.bind
        (q := DeadLetterRepository.getUnreplayedByFilter endpointId eventType)
        (asks_replaying rfl hreplay) fun entries =>
          (asks_replayEach hreplay force entries [] 0).bind fun _ => asks_commit _) _
    | discard id => exact (asks_getDb (asks_discardDlqEntry id)).map _
    | stats => exact (asks_getDb asks_globalStats).map _

end asks

/-- **A run of `deliver` makes no call of a replay.** -/
theorem program_not_replays (deps : Deps) {o : Origin} {id : UUID} (ho : o.delivers = some id) :
    (o.program deps).Calls fun e : Op => e.replays = false := by
  have hjob : (jobProgram deps id).Calls fun e : Op => e.replays = false :=
    Prog.Calls.map ((calls_deliver (fun e he => by cases he <;> rfl) deps id).bind fun _ =>
      Prog.calls_done _) _
  cases o with
  | job id' =>
    obtain rfl : id' = id := Option.some.inj ho
    exact hjob
  | reaped id' =>
    obtain rfl : id' = id := Option.some.inj ho
    exact hjob
  | request r => cases ho
  | cron => cases ho

end WebhookRelay

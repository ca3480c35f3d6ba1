import WebhookRelay.Circuit.Provoked
import WebhookRelay.Wiring.Refines

/-!
# A job is refused only after failures of its endpoint

The circuit breaker counts calls of `record_failure` for a text; the services make such a call after
a POST for the endpoint with this identifier has failed, each coroutine once. So behind a job that
answers CIRCUIT_OPEN stand as many failed POSTs as `CB_FAILURE_THRESHOLD` says, of different
coroutines, and all of them for its own endpoint (`refused_after_failures`): no other endpoint, no
retried command and no coroutine that is cut off between two commands adds to them.
-/

namespace WebhookRelay

open Data Effect

/-- Among these calls is a POST to the endpoint, for an event of it, and it was a failure. -/
def FailedPost (crypto : Crypto) (endpoint : UUID) (cs : List (Call relay PyExn)) : Prop :=
  ∃ id ev ep req r p, readCall id ev ep ∈ cs ∧ ep.id = endpoint ∧ Authorised crypto ev ep req ∧
    postCall req r ∈ cs ∧ PostResult.ofAnswer req.timeout r = .ok p ∧ p.success = false

theorem FailedPost.mono {crypto : Crypto} {endpoint : UUID} {cs cs' : List (Call relay PyExn)}
    (h : FailedPost crypto endpoint cs) (hcs : ∀ x ∈ cs, x.1.isMethod = false → x ∈ cs') :
    FailedPost crypto endpoint cs' := by
  obtain ⟨id, ev, ep, req, r, p, hread, hep, hauth, hpost, hp⟩ := h
  exact ⟨id, ev, ep, req, r, p, hcs _ hread rfl, hep, hauth, hcs _ hpost rfl, hp⟩

namespace Wiring

variable {wi : Wiring} {c : Config} {d d' : WebhookRelay.Config} {b : CircuitBreaker.Config}
  {σ : Slots} {a : Action} {t : ℕ} {dh : WebhookRelay.Coroutine} {endpoint : UUID}

/-! ### Coroutines that have handed in their failure -/

/-- The coroutine has come to `record_failure`, to which it does not come again: it has made that
call, has ended, or waits for the circuit breaker. -/
inductive Past (dh : WebhookRelay.Coroutine) (slot : Option ℕ) : Prop where
  | answered (h : 4 < (transcript Op.tells dh.trace).length)
  | ended (h : dh.prog.ended = true)
  | waiting {e : Op} {k : Except PyExn e.Resp → Relay Reply} {u : ℕ} (hp : dh.prog = .call e k)
    (he : e.tells = true) (h : 4 ≤ (transcript Op.tells dh.trace).length) (hslot : slot = some u)

/-- Coroutine `t` has sent a POST to the endpoint, which failed, and has come to
`record_failure`. -/
def HandedIn (wi : Wiring) (endpoint : UUID) (d : WebhookRelay.Config) (σ : Slots) (t : ℕ) : Prop :=
  ∃ dh, d.threads[t]? = some dh ∧ FailedPost wi.deps.crypto endpoint dh.trace ∧ Past dh (σ t)

/-- A coroutine does not come back to `record_failure`. -/
theorem HandedIn.stepped (h : HandedIn wi endpoint d σ t) (hs : Stepped wi.deps d a d') :
    HandedIn wi endpoint d' (released a σ) t := by
  obtain ⟨dh, hdh, hfailed, hpast⟩ := h
  obtain ⟨dh', hdh', hgrows, -⟩ := hs.kept hdh
  refine ⟨dh', hdh', hfailed.mono fun x hx _ => hgrows.subset hx, ?_⟩
  have hle : (transcript Op.tells dh.trace).length ≤ (transcript Op.tells dh'.trace).length :=
    (hgrows.filter _).length_le
  cases hs.cameFrom hdh' with
  | started h ht =>
    have hlt : t < d.threads.length := (List.getElem?_eq_some_iff.mp hdh).1
    exact absurd ht hlt.ne
  | untouched hth htaken hinterrupts =>
    rw [hdh] at hth
    cases hth
    have hsame : released a σ t = σ t := if_neg (by simp [htaken, hinterrupts])
    rw [hsame]
    exact hpast
  | answered hth hp ha =>
    rw [hdh] at hth
    cases hth
    cases hpast with
    | answered h => exact .answered (h.trans_le hle)
    | ended h =>
      rw [hp] at h
      cases h
    | waiting hp' he h =>
      rw [hp] at hp'
      cases hp'
      -- the answer is one more call that tells
      refine .answered ?_
      show 4 < ((dh.trace ++ [_]).filter fun x : Call relay PyExn => x.1.tells).length
      rw [List.filter_append, List.length_append, List.filter_cons_of_pos (by exact he)]
      exact Nat.lt_succ_of_le h
  | killed => exact .ended rfl
  | reaped hth _ hend => exact .ended hend

/-- The coroutine that is answered waits no longer. -/
theorem released_call (σ : Slots) (t : ℕ) (orc : Oracle) :
    released (.call t orc) σ = Function.update σ t none := by
  funext u
  unfold released Function.update
  by_cases hu : u = t
  · subst hu
    simp [Action.taken]
  · have hne : t ≠ u := Ne.symm hu
    simp [Action.taken, Action.interrupts, hu, hne]

/-- A coroutine that comes to `record_failure` has sent a POST that failed. -/
theorem Together.failed (h : Together wi d b σ) (hdh : d.threads[t]? = some dh) {ep : UUID}
    {k : Except PyExn Unit → Relay Reply} (hp : dh.prog = .call (.recordFailure ep) k) :
    FailedPost wi.deps.crypto ep dh.trace ∧ (transcript Op.tells dh.trace).length = 4 := by
  obtain ⟨id, -, hd⟩ := h.services_reach.dispatching (List.mem_of_getElem? hdh) hp rfl
  generalize hcs : transcript Op.tells dh.trace = cs at hd
  cases hd with
  | @failed ev ep req r a p hauth hofAnswer hfailure =>
    have hmem {x : Call relay PyExn} (hx : x ∈ [readCall id ev ep, allowedCall ep, postCall req r,
        logCall a]) : x ∈ dh.trace := by
      rw [← hcs] at hx
      exact List.mem_of_mem_filter hx
    exact ⟨⟨id, ev, ep, req, r, p, hmem (by simp), rfl, hauth, hmem (by simp), hofAnswer,
      hfailure⟩, rfl⟩

/-- **Every failure that the circuit breaker is told of is that of a coroutine of its own.** -/
theorem Together.owners (h : Together wi d b σ) (endpoint : UUID) : ∃ owners : List ℕ,
    owners.Nodup ∧ owners.length = CircuitBreaker.failuresStarted endpoint.str b ∧
      ∀ t ∈ owners, HandedIn wi endpoint d σ t := by
  induction h with
  | initial now => exact ⟨[], List.nodup_nil, rfl, fun _ ht => nomatch ht⟩
  | services _ hs _ ih =>
    obtain ⟨owners, hnodup, hlength, howners⟩ := ih
    exact ⟨owners, hnodup, hlength, fun t ht => (howners t ht).stepped (stepped hs)⟩
  | @opens d b σ t dh e k o f h hdh hp hm hσ ih =>
    obtain ⟨owners, hnodup, hlength, howners⟩ := ih
    -- those who have come to the call before stay
    have hbefore (u : ℕ) (hu : u ∈ owners) :
        HandedIn wi endpoint d (Function.update σ t (some b.threads.length)) u := by
      obtain ⟨uh, huh, hfailed, hpast⟩ := howners u hu
      refine ⟨uh, huh, hfailed, ?_⟩
      by_cases hut : u = t
      · subst hut
        rw [hσ] at hpast
        cases hpast with
        | answered h => exact .answered h
        | ended h => exact .ended h
        | waiting _ _ _ hslot => cases hslot
      · rw [Function.update_of_ne hut]
        exact hpast
    have hcount : CircuitBreaker.failuresStarted endpoint.str ⟨b.world, b.threads ++
        [o.start wi.breaker]⟩ = CircuitBreaker.failuresStarted endpoint.str b +
          if o = ⟨endpoint.str, .recordFailure⟩ then 1 else 0 := by
      unfold CircuitBreaker.failuresStarted
      rw [List.countP_append, List.countP_singleton]
      by_cases ho : o = ⟨endpoint.str, .recordFailure⟩ <;> simp [CircuitBreaker.Origin.start, ho]
    by_cases ho : o = ⟨endpoint.str, .recordFailure⟩
    · rw [if_pos ho] at hcount
      subst ho
      generalize hoe : (⟨endpoint.str, .recordFailure⟩ : CircuitBreaker.Origin) = o at hm
      cases hm with
      | recordFailure ep =>
        obtain rfl : endpoint = ep :=
          UUID.str_injective (congrArg CircuitBreaker.Origin.endpoint hoe)
        obtain ⟨hfailed, hfour⟩ := h.failed hdh hp
        have hnew : t ∉ owners := by
          intro ht
          obtain ⟨dh', hdh', -, hpast⟩ := howners t ht
          rw [hdh] at hdh'
          cases hdh'
          cases hpast with
          | answered h => omega
          | ended h =>
            rw [hp] at h
            cases h
          | waiting _ _ _ hslot =>
            rw [hσ] at hslot
            cases hslot
        refine ⟨owners ++ [t], ?_, ?_, fun u hu => ?_⟩
        · refine hnodup.append (List.nodup_singleton t) ?_
          simpa using hnew
        · rw [← hoe, hcount, ← hlength]
          simp
        · rcases List.mem_append.mp hu with hu | hu
          · exact hbefore u hu
          · obtain rfl := List.mem_singleton.mp hu
            exact ⟨dh, hdh, hfailed, .waiting hp rfl hfour.ge (Function.update_self _ _ _)⟩
      | _ => cases congrArg CircuitBreaker.Origin.call hoe
    · rw [if_neg ho] at hcount
      exact ⟨owners, hnodup, hlength.trans hcount.symm, hbefore⟩
  | @breaker d b b' σ u _ hs ih =>
    obtain ⟨owners, hnodup, hlength, howners⟩ := ih
    refine ⟨owners, hnodup, hlength.trans ?_, howners⟩
    cases CircuitBreaker.stepped hs with
    | called hth hp =>
      rename_i bh e k
      have hset := countP_set_add (y := CircuitBreaker.Caller.answered bh e k b.world) hth
        fun th : CircuitBreaker.Caller => decide (th.origin = ⟨endpoint.str, .recordFailure⟩)
      unfold CircuitBreaker.failuresStarted
      exact (Nat.add_right_cancel hset).symm
  | @closes d d' b σ t u dh e k o f bh x orc _ _ _ _ _ _ _ hs _ ih =>
    obtain ⟨owners, hnodup, hlength, howners⟩ := ih
    refine ⟨owners, hnodup, hlength, fun t ht => ?_⟩
    rw [← released_call σ _ orc]
    exact (howners t ht).stepped (stepped hs)

/-! ### Refusals -/

/-- The failures counted are among those started. -/
theorem failuresCounted_le (cb : CircuitBreaker) (id : Str) (b : CircuitBreaker.Config) :
    CircuitBreaker.failuresCounted cb id b ≤ CircuitBreaker.failuresStarted id b :=
  List.countP_mono_left fun _ _ h => (Bool.and_eq_true_iff.mp h).1

/-- **A job is refused only after failures of its endpoint.** In every reachable state of the wired
system, whatever was interleaved and whatever failed, behind a job that has answered CIRCUIT_OPEN
there are at least as many different coroutines as the threshold of the circuit breaker says, each
of which has sent a POST for an event of the same endpoint that was not a success. So an endpoint
whose POSTs succeed is never refused. -/
theorem refused_after_failures {ok : Config → Action → Prop} (h : Reaches wi ok c) {th : Coroutine}
    (hth : th ∈ c.threads) {id : UUID} (ho : th.origin.delivers = some id)
    (hp : th.prog = .done (.delivery .circuitOpen)) : ∃ ev ep,
    readCall id ev ep ∈ th.trace.filterMap directly ∧ ∃ failing : List ℕ, failing.Nodup ∧
      wi.failureThreshold ≤ failing.length ∧ ∀ t ∈ failing, ∃ uh, c.threads[t]? = some uh ∧
        FailedPost wi.deps.crypto ep.id (uh.trace.filterMap directly) := by
  obtain ⟨d, b, σ, ht, h⟩ := h.matched
  obtain ⟨t, hth⟩ := List.getElem?_of_mem hth
  obtain ⟨dh, hdh⟩ := h.counterpart hth
  have hides := (h.threads t th dh trivial hth hdh).hides
  have hdp : dh.prog = .done (.delivery .circuitOpen) := (hides.result (.ok _)).mp hp
  have hm : dh ∈ d.threads := List.mem_of_getElem? hdh
  -- the circuit breaker has refused it
  obtain ⟨ev, ep, htold⟩ : ∃ ev ep,
      transcript Op.tells dh.trace = [readCall id ev ep, refusedCall ep] := by
    have hends := (ht.services_reach.obeys hm
      (program_dispatches wi.deps (hides.origin ▸ ho))).2
    rw [hdp, Contract.run_watching] at hends
    rcases hends with hends | hcut
    · exact hends _ rfl rfl
    · cases hcut
  have hmem {x : Call relay PyExn} (hx : x ∈ [readCall id ev ep, refusedCall ep]) :
      x ∈ dh.trace := by
    rw [← htold] at hx
    exact List.mem_of_mem_filter hx
  obtain ⟨bh, hbh, x, hbo, hbp, hx⟩ := ht.answers dh hm (.isAllowed ep.id) _ _ false
    (.isAllowed ep.id) (hmem (by simp))
  obtain ⟨y, rfl⟩ := ht.breaker_reaches.allowed hbh (by rw [hbo]) hbp
  obtain rfl : false = y := hx
  have hcounted := ht.breaker_reaches.refused hbh hbo hbp
  obtain ⟨owners, hnodup, hlength, howners⟩ := ht.owners ep.id
  refine ⟨ev, ep, ?_, owners, hnodup, ?_, fun u hu => ?_⟩
  · rw [hides.trace]
    exact List.mem_filter.mpr ⟨hmem (by simp), rfl⟩
  · have hle := failuresCounted_le wi.breaker ep.id.str b
    rw [hlength]
    exact hcounted.trans (by exact_mod_cast hle)
  · obtain ⟨vh, hvh, hfailed, -⟩ := howners u hu
    have hlt : u < c.threads.length := h.length ▸ (List.getElem?_eq_some_iff.mp hvh).1
    refine ⟨_, List.getElem?_eq_getElem hlt, ?_⟩
    rw [(h.threads u _ vh trivial (List.getElem?_eq_getElem hlt) hvh).alike.trace]
    exact hfailed.mono fun x hx hdirect => List.mem_filter.mpr ⟨hx, by simp [hdirect]⟩

/-- The job has answered CIRCUIT_OPEN. -/
def refused : Prog wired PyExn Reply → Bool
  | .done (.delivery s) => decide (s = .circuitOpen)
  | _ => false

theorem eq_of_refused {p : Prog wired PyExn Reply} (h : refused p = true) :
    p = .done (.delivery .circuitOpen) := by
  cases p with
  | done r =>
    cases r with
    | delivery s => rw [of_decide_eq_true h]
    | _ => cases h
  | _ => cases h

/-- The second job is refused, and the first one has failed. -/
theorem refused_after_failures_sample : ∃ c, Reaches sample anyStep c ∧ ∃ th ∈ c.threads,
    th.prog = .done (.delivery .circuitOpen) ∧ ∃ ev ep,
      readCall (Sample.id 2) ev ep ∈ th.trace.filterMap directly ∧ ∃ failing : List ℕ,
        failing.Nodup ∧ 1 ≤ failing.length ∧ ∀ t ∈ failing, ∃ uh, c.threads[t]? = some uh ∧
          FailedPost Sample.deps.crypto ep.id (uh.trace.filterMap directly) := by
  have hrun : (runActs (step sample) (fun _ _ => true) (initial Sample.start) refusedRun).any
      (fun c => c.threads.any fun th => decide (th.origin.delivers = some (Sample.id 2)) &&
        refused th.prog) = true := by
    decide +kernel
  obtain ⟨c, hc, hfacts⟩ := exists_run anyStep (fun _ _ _ => trivial) hrun
  obtain ⟨th, hth, hjob⟩ := List.any_eq_true.mp hfacts
  obtain ⟨ho, hjob⟩ := Bool.and_eq_true_iff.mp hjob
  have hp := eq_of_refused hjob
  have hreach : Reaches sample anyStep c := ⟨Sample.start, hc⟩
  obtain ⟨ev, ep, hread, failing, hnodup, hlength, hfailing⟩ :=
    refused_after_failures hreach hth (of_decide_eq_true ho) hp
  have hone : (1 : ℤ) ≤ failing.length := hlength
  exact ⟨c, hreach, th, hth, hp, ev, ep, hread, failing, hnodup, by exact_mod_cast hone, hfailing⟩

end Wiring

end WebhookRelay

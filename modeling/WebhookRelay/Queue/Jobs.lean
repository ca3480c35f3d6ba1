import WebhookRelay.Runs.Steps

/-!
# The jobs of arq

Only `enqueue_job` makes a job. Once an event has a job, queued or in progress, it keeps it until
arq stores the result: no call takes it away.
-/

namespace WebhookRelay

open Data Effect

/-- The event the coroutine is about to enqueue. -/
def Coroutine.enqueues (th : Coroutine) : Option UUID :=
  match th.prog with
  | .call (.enqueueJob id) _ => some id
  | _ => none

/-- Only `enqueue_job` changes the jobs. -/
theorem exec_jobs {o : Oracle} {e : Op} {w : World} {s : Session} (he : e.isEnqueue = false) :
    (exec o e w s).2.1.jobs = w.jobs := by
  have h := execs o e w s
  generalize (exec o e w s).2.1 = w' at h ⊢
  cases h with
  | enqueued id => cases he
  | _ => rfl

/-- The jobs after an answer. -/
theorem Answers.jobs {t : ℕ} {others : List Session} {e : Op} {w w' : World} {s s' : Session}
    {a : Action} {r : Except PyExn e.Resp} (h : Answers t others e w s a r w' s') :
    w'.jobs = w.jobs ∨ a.taken = some t ∧ ∃ id, e = .enqueueJob id ∧
      ∀ id', (w'.jobs id').phase.isSome = true → (w.jobs id').phase.isSome = true ∨ id' = id := by
  have hexec (o : Oracle) (ht : a.taken = some t) : (exec o e w s).2.1.jobs = w.jobs ∨
      a.taken = some t ∧ ∃ id, e = .enqueueJob id ∧ ∀ id',
        ((exec o e w s).2.1.jobs id').phase.isSome = true →
          (w.jobs id').phase.isSome = true ∨ id' = id := by
    cases he : e.isEnqueue with
    | false => exact Or.inl (exec_jobs he)
    | true =>
      cases e with
      | enqueueJob id =>
        refine Or.inr ⟨ht, id, rfl, fun id' h => ?_⟩
        rw [exec_enqueueJob] at h
        split at h
        · exact Or.inl h
        · change (Function.update w.jobs id _ id').phase.isSome = true at h
          by_cases hid : id' = id
          · exact Or.inr hid
          · rw [Function.update_of_ne hid] at h
            exact Or.inl h
      | _ => cases he
  cases h with
  | executed o _ => exact hexec o rfl
  | lost => exact Or.inl rfl
  | late o x _ => exact hexec o rfl

/-- No call takes a job away. -/
theorem Answers.jobs_keep {t : ℕ} {others : List Session} {e : Op} {w w' : World} {s s' : Session}
    {a : Action} {r : Except PyExn e.Resp} (h : Answers t others e w s a r w' s') {id : UUID}
    (hid : (w.jobs id).phase.isSome = true) : (w'.jobs id).phase.isSome = true := by
  have hexec (o : Oracle) : ((exec o e w s).2.1.jobs id).phase.isSome = true := by
    cases he : e.isEnqueue with
    | false => rwa [exec_jobs he]
    | true =>
      cases e with
      | enqueueJob id' =>
        rw [exec_enqueueJob]
        split
        · exact hid
        · change (Function.update w.jobs id' _ id).phase.isSome = true
          by_cases heq : id = id'
          · rw [heq, Function.update_self]
            rfl
          · rwa [Function.update_of_ne heq]
      | _ => cases he
  cases h with
  | executed o _ => exact hexec o
  | lost => exact hid
  | late o x _ => exact hexec o

/-- The event whose job is over. -/
def Action.finishes (c : Config) : Action → Option UUID
  | .finishJob t => (c.threads[t]?).bind fun th => th.origin.delivers
  | _ => none

/-- An event keeps its job until the result is stored. -/
theorem Stepped.jobs_keep {deps : Deps} {c c' : Config} {a : Action} (h : Stepped deps c a c')
    {id : UUID} (hid : (c.world.jobs id).phase.isSome = true) :
    (c'.world.jobs id).phase.isSome = true ∨ id ∈ a.finishes c := by
  have hupdate {w : World} {id' : UUID} {j : Job} (hw : w.jobs = Function.update c.world.jobs id' j)
      (hj : id = id' → j.phase.isSome = true) : (w.jobs id).phase.isSome = true := by
    rw [hw]
    by_cases he : id = id'
    · rw [he, Function.update_self]
      exact hj he
    · rwa [Function.update_of_ne he]
  cases h with
  | started hstart =>
    cases hstart with
    | request r => exact Or.inl hid
    | job id' hj => exact Or.inl (hupdate rfl fun _ => rfl)
    | cron => exact Or.inl hid
  | answered hth hp ha => exact Or.inl (ha.jobs_keep hid)
  | killed => exact Or.inl hid
  | reaped hth ho hend =>
    rename_i t th id'
    by_cases he : id = id'
    · right
      change id ∈ (c.threads[t]?).bind fun th => th.origin.delivers
      rw [hth, Option.bind_some, ho, he]
      rfl
    · exact Or.inl (hupdate rfl fun h => absurd h he)
  | ticked => exact Or.inl hid

/-- An enqueue that has been answered leaves a job, unless it met a live result. -/
theorem Answers.enqueued {t : ℕ} {others : List Session} {id : UUID} {w w' : World}
    {s s' : Session} {a : Action} {b : Bool}
    (h : Answers t others (.enqueueJob id) w s a (.ok b) w' s')
    (hid : (w.jobs id).resultLive w.now = true → (w.jobs id).phase.isSome = true) :
    (w'.jobs id).phase.isSome = true := by
  obtain ⟨o, -, hexec⟩ := h.of_ok
  rw [exec_enqueueJob] at hexec
  split at hexec
  · rename_i hkey
    obtain ⟨-, hw⟩ := Prod.mk.inj hexec
    obtain ⟨rfl, -⟩ := Prod.mk.inj hw
    rcases Bool.or_eq_true_iff.mp hkey with hphase | hresult
    · exact hphase
    · exact hid hresult
  · obtain ⟨-, hw⟩ := Prod.mk.inj hexec
    obtain ⟨rfl, -⟩ := Prod.mk.inj hw
    change (Function.update w.jobs id _ id).phase.isSome = true
    rw [Function.update_self]
    rfl

end WebhookRelay

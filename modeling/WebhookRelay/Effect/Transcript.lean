import WebhookRelay.Effect.Pool

/-!
# The calls that are watched

Often only some calls of a program matter, and in which order they come. In the contract
`Contract.watching` the phase is the `transcript`: the watched calls that were made, with their
answers. `may` says which watched call may come after a transcript; the other calls are free.

* In the trace of a program that obeys the contract, each watched call was one that may come after
  the watched calls before it (`Contract.may_of_accepts`).
* A program is walked through in terms of its watched calls: a part without them leaves the
  transcript as it is (`Prog.watching_bind_free`), and a watched call is added to it
  (`Prog.watching_bind_watched`).
-/

namespace Effect

variable {I : Interface} {ε α β P : Type} {watched : I.Op → Bool}
  {may : List (Call I ε) → I.Op → Prop}

/-- The watched calls of a list of calls. -/
def transcript (watched : I.Op → Bool) (cs : List (Call I ε)) : List (Call I ε) :=
  cs.filter fun c => watched c.1

@[simp] theorem transcript_nil : transcript watched ([] : List (Call I ε)) = [] := rfl

theorem transcript_cons_of_watched {c : Call I ε} (hc : watched c.1 = true)
    (cs : List (Call I ε)) : transcript watched (c :: cs) = c :: transcript watched cs :=
  List.filter_cons_of_pos (p := fun c : Call I ε => watched c.1) hc

theorem transcript_cons_of_free {c : Call I ε} (hc : watched c.1 = false)
    (cs : List (Call I ε)) : transcript watched (c :: cs) = transcript watched cs :=
  List.filter_cons_of_neg (p := fun c : Call I ε => watched c.1) (by simp [hc])

theorem mem_transcript {cs : List (Call I ε)} {c : Call I ε} (hc : watched c.1 = true) :
    c ∈ transcript watched cs ↔ c ∈ cs := by
  unfold transcript
  simp [hc]

namespace Contract

/-- The contract whose phase is the transcript so far. -/
def watching (watched : I.Op → Bool) (may : List (Call I ε) → I.Op → Prop) :
    Contract I ε (List (Call I ε)) where
  allows cs e := watched e = true → may cs e
  next cs e r := if watched e then cs ++ [⟨e, r⟩] else cs

/-- The phase is the transcript. -/
theorem run_watching (p cs : List (Call I ε)) :
    (watching watched may).run p cs = p ++ transcript watched cs := by
  induction cs generalizing p with
  | nil => exact (List.append_nil p).symm
  | cons c cs ih =>
    show (watching watched may).run (if watched c.1 then p ++ [⟨c.1, c.2⟩] else p) cs = _
    rw [ih]
    cases hc : watched c.1 with
    | true =>
      rw [if_pos rfl, transcript_cons_of_watched hc]
      simp
    | false => rw [if_neg (by simp), transcript_cons_of_free hc]

/-- **A watched call was one that may come after those before it.** -/
theorem may_of_accepts {p cs : List (Call I ε)} (h : (watching watched may).Accepts p cs)
    {pre post : List (Call I ε)} {c : Call I ε} (hcs : transcript watched cs = pre ++ c :: post) :
    may (p ++ pre) c.1 := by
  induction cs generalizing p pre with
  | nil => simp at hcs
  | cons x cs ih =>
    obtain ⟨hallow, hrest⟩ := h
    cases hx : watched x.1 with
    | true =>
      rw [transcript_cons_of_watched hx] at hcs
      have hnext : (watching watched may).next p x.1 x.2 = p ++ [x] := if_pos hx
      rw [hnext] at hrest
      cases pre with
      | nil =>
        obtain ⟨rfl, -⟩ := List.cons.inj hcs
        rw [List.append_nil]
        exact hallow hx
      | cons y pre =>
        obtain ⟨rfl, hcs'⟩ := List.cons.inj hcs
        simpa using ih hrest hcs'
    | false =>
      rw [transcript_cons_of_free hx] at hcs
      have hnext : (watching watched may).next p x.1 x.2 = p := if_neg (by simp [hx])
      rw [hnext] at hrest
      exact ih hrest hcs

/-- Every call was of the kind that the contract allows. -/
theorem of_accepts_only {A : I.Op → Prop} {cs : List (Call I ε)}
    (h : (only A : Contract I ε Unit).Accepts () cs) : ∀ c ∈ cs, A c.1 := by
  induction cs with
  | nil => exact fun _ hc => nomatch hc
  | cons x cs ih =>
    intro c hc
    rcases List.mem_cons.mp hc with rfl | hc
    · exact h.1
    · exact ih h.2 c hc

/-- Without watched calls the transcript is empty. -/
theorem transcript_eq_nil {cs : List (Call I ε)}
    (h : (only fun e => watched e = false : Contract I ε Unit).Accepts () cs) :
    transcript watched cs = [] :=
  List.filter_eq_nil_iff.mpr fun c hc => by simp [of_accepts_only h c hc]

end Contract

namespace Prog

variable {Q : Except ε β → List (Call I ε) → Prop} {p : List (Call I ε)}

/-- A part without watched calls, whose value has the property `A`. -/
def Free (watched : I.Op → Bool) (A : α → Prop) (q : Prog I ε α) : Prop :=
  q.Obeys (Contract.only fun e => watched e = false) (finishing fun a _ => A a) ()

theorem free_done {A : α → Prop} {a : α} (h : A a) : (done a : Prog I ε α).Free watched A := by
  rintro _ ⟨⟩
  exact h

theorem free_raised {A : α → Prop} (x : ε) : (raised x : Prog I ε α).Free watched A :=
  fun _ h => nomatch h

theorem Free.bind {A : α → Prop} {B : β → Prop} {q : Prog I ε α} (hq : q.Free watched A)
    {f : α → Prog I ε β} (hf : ∀ a, A a → (f a).Free watched B) : (q >>= f).Free watched B := by
  refine (obeys_bind q f).mpr (Obeys.mono hq fun r _ hr => ?_)
  cases r with
  | ok a => exact hf a (hr a rfl)
  | error x => exact fun _ h => nomatch h

theorem Calls.free {q : Prog I ε α} (h : q.Calls fun e => watched e = false) :
    q.Free watched fun _ => True :=
  Obeys.mono h fun _ _ _ _ _ => trivial

/-- After a part without watched calls, the transcript is the same. -/
theorem watching_bind_free {A : α → Prop} {q : Prog I ε α} (hq : q.Free watched A)
    {f : α → Prog I ε β} (hf : ∀ a, A a → (f a).Obeys (.watching watched may) Q p)
    (hx : ∀ x, Q (.error x) p) : (q >>= f).Obeys (.watching watched may) Q p := by
  induction q with
  | done a => exact hf a (hq a rfl)
  | raised x => exact hx x
  | call e k ih =>
    have he : watched e = false := hq.1
    refine ⟨fun hwatched => Bool.noConfusion (he.symm.trans hwatched), fun r => ?_⟩
    have hnext : (Contract.watching watched may).next p e r = p := if_neg (by simp [he])
    rw [hnext]
    exact ih r (hq.2 r)

/-- A program without watched calls. -/
theorem watching_of_free {A : β → Prop} {q : Prog I ε β} (hq : q.Free watched A)
    (hf : ∀ a, A a → Q (.ok a) p) (hx : ∀ x, Q (.error x) p) :
    q.Obeys (.watching watched may) Q p := by
  have h : (q >>= Prog.done).Obeys (.watching watched may) Q p := watching_bind_free hq hf hx
  rwa [show q >>= Prog.done = q from bind_pure q] at h

/-- A watched call is added to the transcript. -/
theorem watching_bind_watched {e : I.Op} (he : watched e = true) (hmay : may p e)
    {f : I.Resp e → Prog I ε β}
    (hf : ∀ v, (f v).Obeys (.watching watched may) Q (p ++ [⟨e, .ok v⟩]))
    (hx : ∀ x, Q (.error x) (p ++ [⟨e, .error x⟩])) :
    (perform e >>= f).Obeys (.watching watched may) Q p := by
  have hnext (r : Except ε (I.Resp e)) :
      (Contract.watching watched may).next p e r = p ++ [⟨e, r⟩] := if_pos he
  refine (obeys_perform_bind e f).mpr ⟨fun _ => hmay, fun v => ?_, fun x => ?_⟩
  · rw [hnext]
    exact hf v
  · rw [hnext]
    exact hx x

/-- A watched call whose failure is handled. -/
theorem watching_bind_attempt {e : I.Op} (he : watched e = true) (hmay : may p e)
    {f : Except ε (I.Resp e) → Prog I ε β}
    (hf : ∀ r, (f r).Obeys (.watching watched may) Q (p ++ [⟨e, r⟩])) :
    ((perform e).attempt >>= f).Obeys (.watching watched may) Q p := by
  rw [attempt_perform, call_bind]
  refine ⟨fun _ => hmay, fun r => ?_⟩
  have hnext : (Contract.watching watched may).next p e r = p ++ [⟨e, r⟩] := if_pos he
  rw [hnext]
  exact hf r

end Prog

end Effect

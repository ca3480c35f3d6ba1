import WebhookRelay.Circuit.Calls

/-!
# Calls and circuits, move by move

In a reachable state every call is its automaton in the phase its trace has reached, and the keys
of every endpoint hold a circuit (`Sound`). So an await takes a call from one phase to the next
(`Phase.advance`) and changes the circuit of its endpoint by the change of the phase, if it has
one, and no other circuit (`Moved`). The theorems about the circuit breaker are case analyses over
`Moved`, in which neither a key nor a program occurs.
-/

namespace WebhookRelay

open Data Data.Redis Effect

namespace CircuitBreaker

/-! ### Servers whose keys hold circuits -/

/-- The keys of every endpoint hold a circuit. -/
def Tidy (s : Server) : Prop := ∀ id, Holds s.keyspace id (.of s id)

/-- The server after a change, if there is one. -/
def changed (cb : CircuitBreaker) (id : Str) (s : Server) : Option Change → Server
  | some x => (s.execute (x.commands cb id)).2
  | none => s

variable {cb : CircuitBreaker} {o : Origin} {s : Server} {id : Str}

theorem tidy_initial (now : ℚ) : Tidy ⟨[], now⟩ := by
  intro id
  have h : Circuit.of ⟨[], now⟩ id = .fresh := (Holds.empty id).ofKeys
  rw [h]
  exact Holds.empty id

/-- The keys do not depend on the clock. -/
theorem Tidy.of_keyspace {s' : Server} (h : Tidy s) (hk : s'.keyspace = s.keyspace) : Tidy s' := by
  intro id
  unfold Circuit.of
  rw [hk]
  exact h id

@[simp] theorem now_changed (x : Option Change) : (changed cb id s x).now = s.now := by
  cases x <;> rfl

theorem holds_changed (cb : CircuitBreaker) (id : Str) (h : Tidy s) (x : Option Change) (j : Str) :
    Holds (changed cb id s x).keyspace j
      (if j = id then (Circuit.of s j).changed cb s.now x else .of s j) := by
  cases x with
  | none =>
    have hj : (if j = id then (Circuit.of s j).changed cb s.now none else .of s j) = .of s j :=
      ite_self _
    rw [hj]
    exact h j
  | some x =>
    unfold changed
    rw [Server.keyspace_execute]
    by_cases hj : j = id
    · subst hj
      rw [if_pos rfl]
      exact (h j).change x
    · rw [if_neg hj]
      exact (h j).change_of_ne hj x

/-- A change changes one circuit. -/
theorem of_changed (cb : CircuitBreaker) (id : Str) (h : Tidy s) (x : Option Change) (j : Str) :
    Circuit.of (changed cb id s x) j =
      if j = id then (Circuit.of s j).changed cb s.now x else .of s j :=
  (holds_changed cb id h x j).ofKeys

theorem Tidy.changed (cb : CircuitBreaker) (id : Str) (h : Tidy s) (x : Option Change) :
    Tidy (changed cb id s x) := by
  intro j
  rw [of_changed cb id h x j]
  exact holds_changed cb id h x j

/-! ### One await -/

namespace Phase

/-- The phase after the next await, given the circuit and the clock. -/
def advance (cb : CircuitBreaker) (o : Origin) (C : Circuit) (now : ℚ) : Phase → Phase
  | .counting => .looking (some (C.failures now + 1))
  | .looking n => if C.mode = .opened then .dating n else .saw n C.mode
  | .dating n =>
    match C.openedAt with
    | none => .saw n .opened
    | some q => .timing n (.float q)
  | .timing n v => timed cb n v now
  | .waking n _ _ => .saw n .halfOpen
  | .saw n s => if o.call = .recordSuccess then .clearing else .opening n s now
  | .opening _ _ _ => .finished
  | .clearing => .finished
  | .resetting => .finished
  | .finished => .finished
  | .failed x => .failed x

/-- What an await does to a phase, case by case. -/
inductive Advanced (cb : CircuitBreaker) (o : Origin) (C : Circuit) (now : ℚ) :
    Phase → Phase → Prop where
  | counted : Advanced cb o C now .counting (.looking (some (C.failures now + 1)))
  | readOpen (n : Option ℤ) (h : C.mode = .opened) : Advanced cb o C now (.looking n) (.dating n)
  | read (n : Option ℤ) (h : C.mode ≠ .opened) : Advanced cb o C now (.looking n) (.saw n C.mode)
  | undated (n : Option ℤ) (h : C.openedAt = none) :
    Advanced cb o C now (.dating n) (.saw n .opened)
  | dated (n : Option ℤ) {q : ℚ} (h : C.openedAt = some q) :
    Advanced cb o C now (.dating n) (.timing n (.float q))
  | undatable (n : Option ℤ) {v : Value} (h : v.float? = none) :
    Advanced cb o C now (.timing n v) (.failed .valueError)
  | elapsed (n : Option ℤ) {v : Value} {q : ℚ} (h : v.float? = some q)
    (hover : (cb.recoveryTimeout : ℚ) < now - q) :
    Advanced cb o C now (.timing n v) (.waking n q now)
  | early (n : Option ℤ) {v : Value} {q : ℚ} (h : v.float? = some q)
    (hover : ¬(cb.recoveryTimeout : ℚ) < now - q) :
    Advanced cb o C now (.timing n v) (.saw n .opened)
  | woken (n : Option ℤ) (q t : ℚ) : Advanced cb o C now (.waking n q t) (.saw n .halfOpen)
  | closed (n : Option ℤ) (s : CircuitState) (h : o.call = .recordSuccess) :
    Advanced cb o C now (.saw n s) .clearing
  | clocked (n : Option ℤ) (s : CircuitState) (h : o.call ≠ .recordSuccess) :
    Advanced cb o C now (.saw n s) (.opening n s now)
  | opened (n : Option ℤ) (s : CircuitState) (t : ℚ) :
    Advanced cb o C now (.opening n s t) .finished
  | cleared : Advanced cb o C now .clearing .finished
  | reset : Advanced cb o C now .resetting .finished
  | finished : Advanced cb o C now .finished .finished
  | failed (x : Exn) : Advanced cb o C now (.failed x) (.failed x)

/-- Every await is one of these cases. -/
theorem advanced (cb : CircuitBreaker) (o : Origin) (C : Circuit) (now : ℚ) (p : Phase) :
    Advanced cb o C now p (p.advance cb o C now) := by
  cases p with
  | counting => exact .counted
  | looking n =>
    unfold advance
    dsimp only
    split_ifs with h
    · exact .readOpen n h
    · exact .read n h
  | dating n =>
    unfold advance
    cases h : C.openedAt with
    | none => exact .undated n h
    | some q => exact .dated n h
  | timing n v =>
    change Advanced cb o C now (.timing n v) (timed cb n v now)
    unfold timed
    cases h : v.float? with
    | none => exact .undatable n h
    | some q =>
      dsimp only
      split_ifs with hover
      · exact .elapsed n h hover
      · exact .early n h hover
  | waking n q t => exact .woken n q t
  | saw n s =>
    unfold advance
    dsimp only
    split_ifs with h
    · exact .closed n s h
    · exact .clocked n s h
  | opening n s t => exact .opened n s t
  | clearing => exact .cleared
  | resetting => exact .reset
  | finished => exact .finished
  | failed x => exact .failed x

/-- The phase a call starts in, by its method. -/
theorem start_cases (o : Origin) : o.call = .recordFailure ∧ start o = .counting ∨
    o.call = .reset ∧ start o = .resetting ∨
    (o.call ≠ .recordFailure ∧ o.call ≠ .reset ∧ start o = .looking none) := by
  unfold start
  cases o.call <;> simp

/-- What a call is about to change, by its phase. -/
theorem change_cases {o : Origin} {p : Phase} {x : Change} (h : p.change o = some x) :
    p = .counting ∧ x = .count ∨
    (∃ n q t, p = .waking n q t ∧ x = .turn .halfOpen 0) ∨
    (∃ n, p = .saw n .halfOpen ∧ o.call = .recordSuccess ∧ x = .turn .closed 0) ∨
    (∃ n s t, p = .opening n s t ∧ x = .turn .opened t) ∨
    p = .clearing ∧ x = .clear ∨ p = .resetting ∧ x = .reset := by
  cases p with
  | counting =>
    cases h
    exact Or.inl ⟨rfl, rfl⟩
  | waking n q t =>
    cases h
    exact Or.inr (Or.inl ⟨n, q, t, rfl, rfl⟩)
  | saw n s =>
    unfold change at h
    dsimp only at h
    split_ifs at h with hclose
    cases h
    exact Or.inr (Or.inr (Or.inl ⟨n, by rw [hclose.2], hclose.1, rfl⟩))
  | opening n s t =>
    cases h
    exact Or.inr (Or.inr (Or.inr (Or.inl ⟨n, s, t, rfl, rfl⟩)))
  | clearing =>
    cases h
    exact Or.inr (Or.inr (Or.inr (Or.inr (Or.inl ⟨rfl, rfl⟩))))
  | resetting =>
    cases h
    exact Or.inr (Or.inr (Or.inr (Or.inr (Or.inr ⟨rfl, rfl⟩))))
  | _ => cases h

/-- The phase has a next await. -/
def live (cb : CircuitBreaker) (o : Origin) (p : Phase) : Bool := (p.op cb o).isSome

/-- A call that is about to change the circuit has a next await. -/
theorem live_of_change {cb : CircuitBreaker} {o : Origin} {p : Phase} {x : Change}
    (h : p.change o = some x) : p.live cb o = true := by
  unfold live
  rcases change_cases h with ⟨rfl, -⟩ | ⟨n, q, t, rfl, -⟩ | ⟨n, rfl, ho, -⟩ | ⟨n, s, t, rfl, -⟩ |
    ⟨rfl, -⟩ | ⟨rfl, -⟩
  · rfl
  · rfl
  · rw [op_saw, if_pos ⟨ho, rfl⟩]
    rfl
  · rfl
  · rfl
  · rfl

end Phase

/-- The transactions of the circuit breaker are answered without an error. -/
theorem exec_execute {x : Change} (h : Tidy s) :
    exec (.execute (x.commands cb id)) s =
      (.ok (s.execute (x.commands cb id)).1, (s.execute (x.commands cb id)).2) := by
  have hok : Redis.Reply.error ∉ (s.execute (x.commands cb id)).1 := by
    unfold Server.execute
    dsimp only
    rcases x with _ | ⟨_ | _ | _, t⟩ | _ | _
    · obtain ⟨hcount, -⟩ := execAll_counting cb s.now (h id)
      change Redis.Reply.error ∉ (s.keyspace.execAll s.now (counting cb id)).1
      unfold counting at hcount ⊢
      simp only [Keyspace.execAll] at hcount ⊢
      intro herror
      rcases List.mem_cons.mp herror with he | he
      · rw [← he] at hcount
        cases hcount
      · rw [List.mem_singleton] at he
        unfold Keyspace.exec at he
        dsimp only at he
        split at he <;> cases he
    all_goals
      simp [Change.commands, transition, clearing, Keyspace.execAll, Keyspace.exec]
  exact congrArg (·, (s.execute (x.commands cb id)).2) (if_neg hok)

/-- **An await of a call**: the phase it leads to, and what it does to the server. -/
theorem exec_phase {p : Phase} {e : Op} (hs : Tidy s) (he : p.op cb o = some e) :
    p.next cb e (exec e s).1 = p.advance cb o (.of s o.endpoint) s.now ∧
      (exec e s).2 = changed cb o.endpoint s (p.change o) := by
  have hexec (x : Change) (hx : p.change o = some x)
      (hop : e = .execute (x.commands cb o.endpoint)) {q : Phase}
      (hq : ∀ replies, p.after cb (.execute (x.commands cb o.endpoint)) replies = q) :
      p.next cb e (exec e s).1 = q ∧ (exec e s).2 = changed cb o.endpoint s (p.change o) := by
    subst hop
    rw [exec_execute hs, hx]
    exact ⟨hq _, rfl⟩
  cases p with
  | counting =>
    cases he
    rw [exec_execute hs]
    refine ⟨?_, rfl⟩
    change Phase.counted _ = _
    have hcount := (execAll_counting cb s.now (hs o.endpoint)).1
    unfold Phase.counted Server.execute Change.commands
    dsimp only
    rw [hcount]
    rfl
  | looking n =>
    cases he
    refine ⟨?_, rfl⟩
    change Phase.looked n (s.get (stateKey o.endpoint)) = _
    unfold Server.get
    rw [(hs o.endpoint).live_state]
    unfold Phase.looked Phase.advance Circuit.mode
    cases (Circuit.of s o.endpoint).state with
    | none => rfl
    | some state => simp
  | dating n =>
    cases he
    refine ⟨?_, rfl⟩
    change Phase.dated n (s.get (openedAtKey o.endpoint)) = _
    unfold Server.get
    rw [(hs o.endpoint).live_openedAt]
    unfold Phase.dated Phase.advance
    cases (Circuit.of s o.endpoint).openedAt with
    | none => rfl
    | some q => simp [Value.truthy]
  | timing n v =>
    cases he
    exact ⟨rfl, rfl⟩
  | waking n openedAt now =>
    cases he
    exact hexec _ rfl rfl fun _ => rfl
  | saw n state =>
    rw [Phase.op_saw] at he
    split_ifs at he with hclose htrips
    · cases he
      refine hexec _ (if_pos hclose) rfl fun _ => ?_
      exact (if_pos hclose.1).symm
    · cases he
      have hcall : o.call ≠ .recordSuccess := by
        rw [htrips.1]
        decide
      have hchange : (Phase.saw n state).change o = none := if_neg hclose
      rw [hchange]
      exact ⟨(if_neg hcall).symm, rfl⟩
  | opening n state now =>
    cases he
    exact hexec _ rfl rfl fun _ => rfl
  | clearing =>
    cases he
    exact ⟨rfl, rfl⟩
  | resetting =>
    cases he
    exact hexec _ rfl rfl fun _ => rfl
  | finished => cases he
  | failed x => cases he

/-! ### Sound states -/

/-- The phase a call has reached. -/
def Caller.phase (cb : CircuitBreaker) (th : Caller) : Phase :=
  (callContract cb th.origin).run (.start th.origin) th.trace

/-- Every call is its automaton, and the keys hold circuits. -/
structure Sound (cb : CircuitBreaker) (c : Config) : Prop where
  realises : ∀ th ∈ c.threads, Realises cb th.origin (Caller.phase cb th) th.prog
  tidy : Tidy c.world

variable {c c' : Config} {a : Action} {ok : Config → Action → Prop}

theorem phase_start (cb : CircuitBreaker) (o : Origin) :
    Caller.phase cb (o.start cb) = .start o := rfl

theorem phase_answered (th : Caller) (e : Op) (k : Except Exn e.Resp → Method Answer)
    (s : Server) : Caller.phase cb (Caller.answered th e k s) =
      (Caller.phase cb th).next cb e (exec e s).1 :=
  Contract.run_append_singleton (callContract cb th.origin) (.start th.origin) th.trace
    ⟨e, (exec e s).1⟩

/-- The phase of a call that has a next await. -/
theorem Sound.op (h : Sound cb c) {th : Caller} (hth : th ∈ c.threads) {e : Op}
    {k : Except Exn e.Resp → Method Answer} (hp : th.prog = .call e k) :
    (Caller.phase cb th).op cb th.origin = some e := by
  have hr := h.realises th hth
  rw [hp] at hr
  exact hr.1

/-- The phase of a call that has answered. -/
theorem Sound.done (h : Sound cb c) {th : Caller} (hth : th ∈ c.threads) {x : Answer}
    (hp : th.prog = .done x) : (Caller.phase cb th).op cb th.origin = none ∧
      (Caller.phase cb th).answer th.origin = .ok x := by
  have hr := h.realises th hth
  rw [hp] at hr
  exact ⟨hr.1, hr.2.symm⟩

/-- The phase of a call that has raised. -/
theorem Sound.raised (h : Sound cb c) {th : Caller} (hth : th ∈ c.threads) {x : Exn}
    (hp : th.prog = .raised x) : (Caller.phase cb th).op cb th.origin = none ∧
      (Caller.phase cb th).answer th.origin = .error x := by
  have hr := h.realises th hth
  rw [hp] at hr
  exact ⟨hr.1, hr.2.symm⟩

/-- A call has ended if and only if its phase has no next await. -/
theorem Sound.live_eq_not_ended (h : Sound cb c) {th : Caller} (hth : th ∈ c.threads) :
    (Caller.phase cb th).live cb th.origin = !th.prog.ended := by
  unfold Phase.live
  cases hp : th.prog with
  | done x =>
    rw [(h.done hth hp).1]
    rfl
  | raised x =>
    rw [(h.raised hth hp).1]
    rfl
  | call e k =>
    rw [h.op hth hp]
    rfl

/-- What a step does to the calls and to the circuits. -/
inductive Moved (cb : CircuitBreaker) (c : Config) : Action → Config → Prop where
  | started (o : Origin) : Moved cb c (.start o) ⟨c.world, c.threads ++ [o.start cb]⟩
  | called {t : ℕ} {th th' : Caller} (hth : c.threads[t]? = some th)
    (hlive : (Caller.phase cb th).live cb th.origin = true) (ho : th'.origin = th.origin)
    (hph : Caller.phase cb th' = (Caller.phase cb th).advance cb th.origin
      (.of c.world th.origin.endpoint) c.world.now) :
    Moved cb c (.call t) ⟨changed cb th.origin.endpoint c.world
      ((Caller.phase cb th).change th.origin), c.threads.set t th'⟩
  | ticked {now : ℚ} (h : c.world.now ≤ now) :
    Moved cb c (.tick now) ⟨{ c.world with now := now }, c.threads⟩

/-- Every step of a sound state is one of these. -/
theorem Sound.moved (h : Sound cb c) (hs : step cb c a = some c') : Moved cb c a c' := by
  cases stepped hs with
  | started o => exact .started o
  | called hth hp =>
    rename_i t th e k
    have hm : th ∈ c.threads := List.mem_of_getElem? hth
    have hop := h.op hm hp
    obtain ⟨hphase, hworld⟩ := exec_phase h.tidy hop
    rw [hworld]
    refine .called hth ?_ rfl ?_
    · unfold Phase.live
      rw [hop]
      rfl
    · rw [phase_answered, hphase]
  | ticked hn => exact .ticked hn

/-- A step keeps a state sound. -/
theorem Sound.step (h : Sound cb c) (hs : step cb c a = some c') : Sound cb c' := by
  refine ⟨?_, ?_⟩
  · intro th' hth'
    cases stepped hs with
    | started o =>
      rcases List.mem_append.mp hth' with hth' | hth'
      · exact h.realises th' hth'
      · rw [List.mem_singleton.mp hth']
        exact program_obeys cb o
    | called hth hp =>
      rename_i t th e k
      rcases List.mem_or_eq_of_mem_set hth' with hth' | rfl
      · exact h.realises th' hth'
      · have hr := h.realises th (List.mem_of_getElem? hth)
        rw [hp] at hr
        rw [phase_answered]
        exact hr.2 _
    | ticked => exact h.realises th' hth'
  · cases h.moved hs with
    | started => exact h.tidy
    | called => exact h.tidy.changed _ _ _
    | ticked => exact h.tidy.of_keyspace rfl

/-- A property of the calls and their phases is carried over a move when every await keeps it. -/
theorem Moved.forall_phases {P Q : Origin → Phase → Prop} (h : Moved cb c a c')
    (hc : ∀ th ∈ c.threads, P th.origin (Caller.phase cb th)) (hsame : ∀ o p, P o p → Q o p)
    (hstart : ∀ o, Q o (.start o))
    (hnext : ∀ o p, P o p → p.live cb o = true →
      Q o (p.advance cb o (.of c.world o.endpoint) c.world.now)) :
    ∀ th ∈ c'.threads, Q th.origin (Caller.phase cb th) := by
  intro th hth
  cases h with
  | started o =>
    rcases List.mem_append.mp hth with hth | hth
    · exact hsame _ _ (hc th hth)
    · rw [List.mem_singleton.mp hth]
      exact hstart o
  | called hget hlive ho hph =>
    rcases List.mem_or_eq_of_mem_set hth with hth | rfl
    · exact hsame _ _ (hc th hth)
    · rw [hph, ho]
      exact hnext _ _ (hc _ (List.mem_of_getElem? hget)) hlive
  | ticked => exact hsame _ _ (hc th hth)

/-- Where a call after a move comes from. -/
theorem Moved.getElem? (h : Moved cb c a c') {t : ℕ} {th' : Caller}
    (hth' : c'.threads[t]? = some th') :
    c.threads[t]? = some th' ∨
      (∃ o, a = .start o ∧ t = c.threads.length ∧ th' = o.start cb) ∨
      ∃ th, a = .call t ∧ c.threads[t]? = some th ∧
        (Caller.phase cb th).live cb th.origin = true ∧ th'.origin = th.origin ∧
        Caller.phase cb th' = (Caller.phase cb th).advance cb th.origin
          (.of c.world th.origin.endpoint) c.world.now := by
  cases h with
  | started o =>
    rw [List.getElem?_append] at hth'
    split_ifs at hth' with hlt
    · exact Or.inl hth'
    · obtain ⟨hzero, rfl⟩ := List.getElem?_eq_some_iff.mp hth'
      simp only [List.length_singleton] at hzero
      refine Or.inr (Or.inl ⟨o, rfl, by omega, ?_⟩)
      simp
  | called hth hlive ho hph =>
    rename_i u th th''
    rw [List.getElem?_set] at hth'
    split_ifs at hth' with hut
    · subst hut
      cases hth'
      exact Or.inr (Or.inr ⟨th, rfl, hth, hlive, ho, hph⟩)
    · exact Or.inl hth'
  | ticked => exact Or.inl hth'

/-- No call is forgotten. -/
theorem Moved.length_le (h : Moved cb c a c') : c.threads.length ≤ c'.threads.length := by
  cases h with
  | started => simp
  | called => simp
  | ticked => exact le_rfl

/-- A move leaves the keys as they are, or makes the change of one call. -/
theorem Moved.world (h : Moved cb c a c') :
    c.world.Later c'.world ∨ ∃ t th x, a = .call t ∧ c.threads[t]? = some th ∧
      (Caller.phase cb th).change th.origin = some x ∧
      c'.world = changed cb th.origin.endpoint c.world (some x) := by
  cases h with
  | started => exact Or.inl (.refl _)
  | called hth =>
    rename_i t th th' hlive ho hph
    change c.world.Later (changed cb _ c.world _) ∨ _
    cases hx : (Caller.phase cb th).change th.origin with
    | none => exact Or.inl (.refl _)
    | some x => exact Or.inr ⟨t, th, x, rfl, hth, hx, rfl⟩
  | ticked hn => exact Or.inl ⟨rfl, hn⟩

/-- The clock does not go back. -/
theorem Moved.now_le (h : Moved cb c a c') : c.world.now ≤ c'.world.now := by
  cases h with
  | started => exact le_refl _
  | called => exact (now_changed _).ge
  | ticked hn => exact hn

/-- The journal only grows. -/
theorem Moved.journal_prefix (h : Moved cb c a c') : c.world.journal <+: c'.world.journal := by
  cases h with
  | started => exact List.prefix_rfl
  | called =>
    rename_i t th th' hth hlive ho hph
    change c.world.journal <+: (changed cb _ c.world _).journal
    cases (Caller.phase cb th).change th.origin with
    | none => exact List.prefix_rfl
    | some x => exact List.prefix_append _ _
  | ticked => exact List.prefix_rfl

/-- The invariant rule: every state reached is sound, and what every move keeps holds in it. -/
theorem Reaches.invariant {J : Config → Prop} (h : Reaches cb ok c) (h₀ : ∀ now, J (initial now))
    (hstep : ∀ c a c', Reaches cb ok c → Sound cb c → J c → ok c a → Moved cb c a c' → J c') :
    Sound cb c ∧ J c := by
  obtain ⟨now, hr⟩ := h
  refine hr.invariant (J := fun c => Sound cb c ∧ J c) ⟨⟨fun _ hth => (nomatch hth), ?_⟩, h₀ now⟩ ?_
  · exact tidy_initial now
  · rintro c a c' hc ⟨hsound, hJ⟩ hok hs
    exact ⟨hsound.step hs, hstep c a c' ⟨now, hc⟩ hsound hJ hok (hsound.moved hs)⟩

/-- **Every reachable state is sound.** -/
theorem Reaches.sound (h : Reaches cb ok c) : Sound cb c :=
  (h.invariant (J := fun _ => True) (fun _ => trivial) fun _ _ _ _ _ _ _ _ => trivial).1

/-- Nothing on record is in the future. -/
theorem Reaches.le_now (h : Reaches cb ok c) : ∀ x ∈ c.world.journal, x.1 ≤ c.world.now := by
  refine (h.invariant (J := fun c => ∀ x ∈ c.world.journal, x.1 ≤ c.world.now)
    (fun now x hx => (nomatch hx)) ?_).2
  intro c a c' _ _ hc _ hm x hx
  obtain hsame | ⟨t, th, y, rfl, hth, hy, hw⟩ := hm.world
  · rw [hsame.1] at hx
    exact (hc x hx).trans hsame.2
  · rw [hw] at hx ⊢
    rcases List.mem_append.mp hx with hx | hx
    · exact hc x hx
    · rw [List.mem_singleton.mp hx]
      exact le_rfl

/-! ### Calls and their phases -/

/-- The phase is one that a call of this method goes through. -/
def Phase.Fits (o : Origin) : Phase → Prop
  | .counting => o.call = .recordFailure
  | .looking n => o.call ≠ .reset ∧ (n.isSome ↔ o.call = .recordFailure)
  | .dating n => o.call ≠ .reset ∧ (n.isSome ↔ o.call = .recordFailure)
  | .timing n _ => o.call ≠ .reset ∧ (n.isSome ↔ o.call = .recordFailure)
  | .waking n _ _ => o.call ≠ .reset ∧ (n.isSome ↔ o.call = .recordFailure)
  | .saw n _ => o.call ≠ .reset ∧ (n.isSome ↔ o.call = .recordFailure)
  | .opening n _ _ => o.call = .recordFailure ∧ n.isSome
  | .clearing => o.call = .recordSuccess
  | .resetting => o.call = .reset
  | _ => True

/-- An await leads from a phase of the method to another one. -/
theorem Phase.Fits.advance {o : Origin} {p : Phase} (h : p.Fits o) (hlive : p.live cb o = true)
    (C : Circuit) (now : ℚ) : (p.advance cb o C now).Fits o := by
  have hadv := p.advanced cb o C now
  generalize p.advance cb o C now = p' at hadv
  cases hadv with
  | counted =>
    have ho : o.call = .recordFailure := h
    simp [Phase.Fits, ho]
  | clocked n s hcall =>
    unfold Phase.live at hlive
    rw [Phase.op_saw, if_neg (fun h => hcall h.1)] at hlive
    split_ifs at hlive with htrips
    · exact ⟨htrips.1, h.2.mpr htrips.1⟩
    · cases hlive
  | closed n s hcall => exact hcall
  | undatable => trivial
  | opened => trivial
  | cleared => trivial
  | reset => trivial
  | finished => trivial
  | failed => trivial
  | _ => exact h

/-- **In every reachable state, every call is in a phase of its method.** -/
theorem Reaches.fits (h : Reaches cb ok c) :
    ∀ th ∈ c.threads, (Caller.phase cb th).Fits th.origin := by
  refine (h.invariant (J := fun c => ∀ th ∈ c.threads, (Caller.phase cb th).Fits th.origin)
    (fun now th hth => (nomatch hth)) ?_).2
  intro c a c' _ _ hc _ hm
  refine hm.forall_phases (P := fun o p => p.Fits o) (Q := fun o p => p.Fits o) hc
    (fun _ _ hp => hp) ?_ fun o p hp hlive => hp.advance hlive _ _
  intro o
  rcases Phase.start_cases o with ⟨ho, h⟩ | ⟨ho, h⟩ | ⟨ho, ho', h⟩
  · rw [h]
    exact ho
  · rw [h]
    exact ho
  · rw [h]
    simp [Phase.Fits, ho, ho']

end CircuitBreaker

end WebhookRelay

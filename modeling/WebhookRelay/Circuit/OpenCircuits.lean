import WebhookRelay.Circuit.NeverStuck
import WebhookRelay.Models
import Mathlib.Data.List.Induction

/-!
# The two views of the open circuits

`get_open_circuits` scans the state keys and lists the endpoints whose stored state is OPEN, for
the statistics. `is_allowed` reads one endpoint and applies the recovery timeout while it does. In
every reachable store, at any time, the list is the set of the endpoints whose calls are refused if
and only if no circuit that is stored OPEN has outlived its recovery timeout
(`open_circuits_agree_iff`): such a circuit is listed although its next call is let through.
-/

namespace WebhookRelay

open Data Data.Redis Effect

namespace CircuitBreaker

variable {cb : CircuitBreaker} {s : Server} {c : Config}

/-! ### Scanning -/

/-- What `scan_iter("cb:*:state")` yields in a store that does not change meanwhile: the keys that
match, in some order, some of them perhaps more than once. -/
def Scans (s : Server) (keys : List Str) : Prop :=
  ∀ key, key ∈ keys ↔ (s.get key).isSome = true ∧ ∃ part, key = stateKey part

/-- A key that no transaction has named is not there. -/
theorem replay_of_not_named {key : Str} : ∀ J : Journal,
    key ∉ J.flatMap (fun x => x.2.map Command.key) → J.replay key = none := by
  intro J
  induction J using List.reverseRecOn with
  | nil => exact fun _ => rfl
  | append_singleton J x ih =>
    intro h
    rw [List.flatMap_append, List.mem_append, not_or] at h
    rw [Journal.replay_append_singleton, execAll_of_ne, ih h.1]
    intro cmd hcmd hkey
    exact h.2 (List.mem_flatMap.mpr ⟨x, List.mem_singleton_self x,
      List.mem_map.mpr ⟨cmd, hcmd, hkey⟩⟩)

/-- A scan has an end. -/
theorem exists_scans (s : Server) : ∃ keys, Scans s keys := by
  classical
  refine ⟨(s.journal.flatMap fun x => x.2.map Command.key).filter fun key =>
    decide ((s.get key).isSome = true ∧ ∃ part, key = stateKey part), fun key => ?_⟩
  rw [List.mem_filter, decide_eq_true_eq, and_iff_right_iff_imp]
  rintro ⟨hthere, -⟩
  by_contra hnamed
  have hnone : s.keyspace key = none := replay_of_not_named s.journal hnamed
  rw [Server.get, Keyspace.live, hnone] at hthere
  cases hthere

/-- The second part of a state key is the endpoint, if that has no colon. -/
theorem splitOn_stateKey {id : Str} (h : ':' ∉ id) :
    (stateKey id).splitOn ':' = [Str.lit "cb", id, Str.lit "state"] := by
  have hjoin : stateKey id = [':'].intercalate [Str.lit "cb", id, Str.lit "state"] := by
    have hfirst : Str.lit "cb:" = Str.lit "cb" ++ [':'] := rfl
    have hlast : Str.lit ":state" = ':' :: Str.lit "state" := rfl
    rw [stateKey, hfirst, hlast]
    simp [List.intercalate]
  rw [hjoin]
  refine List.splitOn_intercalate ':' (fun l hl => ?_) (by simp)
  simp only [List.mem_cons, List.not_mem_nil, or_false] at hl
  rcases hl with rfl | rfl | rfl
  · decide
  · exact h
  · decide

/-- The endpoint that a key adds to the list, if it does. -/
def listed (s : Server) (key : Str) : Option Str :=
  if s.get key = some (.text CircuitState.opened.value) then (key.splitOn ':')[1]? else none

/-- `get_open_circuits` lists the endpoints of the keys that say OPEN. -/
theorem drive_getOpenCircuits : ∀ {keys : List Str},
    (∀ key ∈ keys, ((key.splitOn ':')[1]?).isSome = true) →
    (getOpenCircuits keys).drive exec s = (.ok (keys.filterMap (listed s)), s)
  | [], _ => rfl
  | key :: keys, h => by
    have ih := drive_getOpenCircuits fun k hk => h k (List.mem_cons_of_mem key hk)
    obtain ⟨id, hid⟩ := Option.isSome_iff_exists.mp (h key List.mem_cons_self)
    unfold getOpenCircuits
    rw [Prog.drive_bind_ok _ (show (get key).drive exec s = (.ok (s.get key), s) from rfl),
      List.filterMap_cons, listed]
    split_ifs with hopen
    · rw [hid]
      change (getOpenCircuits keys >>= fun ids => pure (id :: ids)).drive exec s = _
      rw [Prog.drive_bind_ok _ ih]
      rfl
    · exact ih

/-! ### Looking -/

/-- The awaits of the methods take no time of their own. -/
theorem now_drive {α : Type} (p : Method α) (s : Server) : (p.drive exec s).2.now = s.now := by
  induction p generalizing s with
  | done a => rfl
  | raised x => rfl
  | call e k ih =>
    refine (ih _ _).trans ?_
    cases e <;> rfl

/-- What `is_allowed` answers at once. -/
theorem drive_isAllowed (hs : Tidy s) (id : Str) : ((cb.isAllowed id).drive exec s).1 =
    .ok (decide ((Circuit.of s id).seen cb s.now ≠ .opened)) := by
  let program := (⟨id, .isAllowed⟩ : Origin).program cb
  obtain ⟨i, a, hr, hran⟩ := executes_run
    (Prog.executes_drive (I := redis) Server.Later.refl exec program s) hs
  have hlook : i.look = s.now := by
    have hend := hran.look_le.trans (hran.le_now.trans (now_drive program s).le)
    exact le_antisymm hend (hran.now_le.trans hran.count_le)
  have hanswer := hran.answer
  rw [Circuit.run, hlook] at hanswer
  change ((cb.isAllowed id >>= fun b => pure (.allowed b)).drive exec s).1 = .ok a at hr
  rw [Prog.drive_bind, hanswer] at hr
  rcases hrun : (cb.isAllowed id).drive exec s with ⟨_ | b, s'⟩
  · rw [hrun] at hr
    cases hr
  · rw [hrun] at hr ⊢
    exact congrArg Except.ok (Answer.allowed.inj (Except.ok.inj hr))

/-! ### Agreement -/

/-- The list of the open circuits is the set of the endpoints whose calls are refused. -/
def OpenCircuitsAgree (cb : CircuitBreaker) (s : Server) : Prop :=
  ∀ keys, Scans s keys → ∃ ids, (getOpenCircuits keys).drive exec s = (.ok ids, s) ∧
    ∀ id, id ∈ ids ↔ ((cb.isAllowed id).drive exec s).1 = .ok false

/-- The recovery timeout of no circuit that is stored OPEN is over. -/
def NoneOverdue (cb : CircuitBreaker) (s : Server) : Prop :=
  ∀ id q, s.get (stateKey id) = some (.text CircuitState.opened.value) →
    s.get (openedAtKey id) = some (.float q) → s.now - q ≤ cb.recoveryTimeout

theorem mode_eq_opened {C : Circuit} : C.mode = .opened ↔ C.state = some .opened := by
  unfold Circuit.mode
  cases C.state <;> simp

/-- No stored OPEN is read as HALF_OPEN. -/
theorem noneOverdue_iff (hs : Tidy s) :
    NoneOverdue cb s ↔ ∀ id, (Circuit.of s id).expired cb s.now = false := by
  unfold NoneOverdue Circuit.expired
  refine forall_congr' fun id => ?_
  simp only [hs.get_stateKey_eq_some, hs.get_openedAtKey, mode_eq_opened]
  cases (Circuit.of s id).openedAt with
  | none => simp
  | some q => by_cases hopen : (Circuit.of s id).state = some .opened <;> simp [hopen]

/-- Only UUIDs have a state. -/
def OnUuids (s : Server) : Prop := ∀ id, (Circuit.of s id).state.isSome = true →
  ∃ u : UUID, id = u.str

/-- A key that a scan yields is the state key of a UUID. -/
theorem Scans.uuid {keys : List Str} (h : Scans s keys) (hs : Tidy s) (huuid : OnUuids s)
    {key : Str} (hkey : key ∈ keys) : ∃ u : UUID, key = stateKey u.str := by
  obtain ⟨hthere, part, rfl⟩ := (h key).mp hkey
  rw [hs.get_stateKey, Option.isSome_map] at hthere
  obtain ⟨u, rfl⟩ := huuid part hthere
  exact ⟨u, rfl⟩

/-- What is listed is what is stored OPEN. -/
theorem mem_listed {keys : List Str} (h : Scans s keys) (hs : Tidy s) (huuid : OnUuids s)
    {id : Str} : id ∈ keys.filterMap (listed s) ↔ (Circuit.of s id).state = some .opened := by
  rw [List.mem_filterMap]
  constructor
  · rintro ⟨key, hkey, hlisted⟩
    obtain ⟨u, rfl⟩ := h.uuid hs huuid hkey
    rw [listed, splitOn_stateKey u.colon_not_mem_str] at hlisted
    split_ifs at hlisted with hopen
    obtain rfl : u.str = id := Option.some.inj hlisted
    exact hs.get_stateKey_eq_some.mp hopen
  · intro hopen
    obtain ⟨u, rfl⟩ := huuid id (by rw [hopen]; rfl)
    have hget := hs.get_stateKey_eq_some.mpr hopen
    refine ⟨stateKey u.str, (h _).mpr ⟨by rw [hget]; rfl, u.str, rfl⟩, ?_⟩
    rw [listed, if_pos hget, splitOn_stateKey u.colon_not_mem_str]
    rfl

/-- The agreement in a store that only has circuits of UUIDs. -/
theorem agree_iff (hs : Tidy s) (huuid : OnUuids s) :
    OpenCircuitsAgree cb s ↔ NoneOverdue cb s := by
  have hrun {keys : List Str} (h : Scans s keys) :
      (getOpenCircuits keys).drive exec s = (.ok (keys.filterMap (listed s)), s) := by
    refine drive_getOpenCircuits fun key hkey => ?_
    obtain ⟨u, rfl⟩ := h.uuid hs huuid hkey
    rw [splitOn_stateKey u.colon_not_mem_str]
    rfl
  have hrefused (id : Str) : ((cb.isAllowed id).drive exec s).1 = .ok false ↔
      (Circuit.of s id).state = some .opened ∧ (Circuit.of s id).expired cb s.now = false := by
    rw [drive_isAllowed hs, Except.ok.injEq, decide_eq_false_iff_not, not_not, Circuit.seen,
      ← mode_eq_opened]
    split_ifs with hexp <;> simp [hexp]
  rw [noneOverdue_iff hs]
  constructor
  · intro hagree id
    obtain ⟨keys, hkeys⟩ := exists_scans s
    obtain ⟨ids, hids, hmem⟩ := hagree keys hkeys
    obtain rfl := Except.ok.inj (congrArg Prod.fst ((hrun hkeys).symm.trans hids))
    by_contra hexp
    rw [Bool.not_eq_false] at hexp
    have hopen : (Circuit.of s id).state = some .opened := by
      rw [Circuit.expired, Bool.and_eq_true, decide_eq_true_eq] at hexp
      exact mode_eq_opened.mp hexp.1
    have hno := ((hrefused id).mp ((hmem id).mp ((mem_listed hkeys hs huuid).mpr hopen))).2
    rw [hexp] at hno
    cases hno
  · intro hnone keys hkeys
    refine ⟨_, hrun hkeys, fun id => ?_⟩
    rw [mem_listed hkeys hs huuid, hrefused, and_iff_left (hnone id)]

/-! ### Reachable stores -/

/-- Calls are made for UUIDs. -/
def ForUuids (_ : Config) : Action → Prop
  | .start o => ∃ u : UUID, o.endpoint = u.str
  | _ => True

/-- **In every reachable store only UUIDs have a state.** -/
theorem Reaches.onUuids (h : Reaches cb ForUuids c) : OnUuids c.world := by
  refine ((h.invariant (J := fun c => (∀ th ∈ c.threads, ∃ u : UUID,
    th.origin.endpoint = u.str) ∧ OnUuids c.world) (fun now => ⟨nofun, fun id hid => ?_⟩) ?_).2).2
  · rw [show Circuit.of (initial now).world id = .fresh from (Holds.empty id).ofKeys] at hid
    cases hid
  · rintro c a c' - hsound ⟨hthreads, hworld⟩ hok hm
    constructor
    · intro th hth
      cases hm with
      | started o =>
        rcases List.mem_append.mp hth with hth | hth
        · exact hthreads th hth
        · rw [List.mem_singleton.mp hth]
          exact hok
      | called hget hlive horigin hphase =>
        rcases List.mem_or_eq_of_mem_set hth with hth | rfl
        · exact hthreads th hth
        · rw [horigin]
          exact hthreads _ (List.mem_of_getElem? hget)
      | ticked => exact hthreads th hth
    · intro id hid
      obtain hsame | ⟨t, th, x, rfl, hth, hx, hw⟩ := hm.world
      · rw [of_later hsame] at hid
        exact hworld id hid
      · rw [hw, of_changed cb _ hsound.tidy] at hid
        split_ifs at hid with heq
        · rw [heq]
          exact hthreads th (List.mem_of_getElem? hth)
        · exact hworld id hid

/-- **When the two views of the open circuits agree**: in every reachable store, at every time, if
and only if no circuit that is stored OPEN is overdue. -/
theorem open_circuits_agree_iff (h : Reaches cb ForUuids c) (t : ℚ) :
    OpenCircuitsAgree cb { c.world with now := t } ↔ NoneOverdue cb { c.world with now := t } :=
  agree_iff (h.sound.tidy.of_keyspace rfl) h.onUuids

/-- The first failures of an endpoint, at the times 0 and 1. -/
def twoFailures (endpoint : Str) : List Action :=
  .start ⟨endpoint, .recordFailure⟩ :: List.replicate 2 (.call 0) ++ .tick 1 ::
    .start ⟨endpoint, .recordFailure⟩ :: List.replicate 4 (.call 1)

/-- A UUID in text form. -/
def sampleUuid : Str := (⟨1⟩ : UUID).str

/-- The call is made for the sample UUID. -/
def forSample (_ : Config) : Action → Bool
  | .start o => decide (o.endpoint = sampleUuid)
  | _ => true

/-- Two failures open the circuit of the sample UUID at the time 1, and write no other key. -/
theorem exists_opened : ∃ c, Reaches sampleBreaker ForUuids c ∧
    c.world.get (stateKey sampleUuid) = some (.text CircuitState.opened.value) ∧
    c.world.get (openedAtKey sampleUuid) = some (.float 1) ∧
    ∀ key ∈ c.world.journal.flatMap fun x => x.2.map Command.key,
      key ∈ [failuresKey sampleUuid, stateKey sampleUuid, openedAtKey sampleUuid] := by
  have hrun : (runActs (step sampleBreaker) forSample (initial 0) (twoFailures sampleUuid)).any
      (fun c => decide (c.world.get (stateKey sampleUuid) =
          some (.text CircuitState.opened.value) ∧
        c.world.get (openedAtKey sampleUuid) = some (.float 1) ∧
        ∀ key ∈ c.world.journal.flatMap fun x => x.2.map Command.key,
          key ∈ [failuresKey sampleUuid, stateKey sampleUuid, openedAtKey sampleUuid])) = true := by
    decide +kernel
  have himp (c : Config) (a : Action) (h : forSample c a = true) : ForUuids c a := by
    cases a with
    | start o => exact ⟨⟨1⟩, of_decide_eq_true h⟩
    | call t => trivial
    | tick now => trivial
  obtain ⟨c, hc, hfacts⟩ := exists_run ForUuids himp hrun
  exact ⟨c, ⟨0, hc⟩, of_decide_eq_true hfacts⟩

/-- At the time 300 the open circuit is listed and refused. -/
theorem open_circuits_agree_early : ∃ c, Reaches sampleBreaker ForUuids c ∧
    OpenCircuitsAgree sampleBreaker { c.world with now := 300 } := by
  obtain ⟨c, hc, -, hat, hnamed⟩ := exists_opened
  have htidy := hc.sound.tidy
  have htidy' : Tidy { c.world with now := 300 } := htidy.of_keyspace rfl
  refine ⟨c, hc, (open_circuits_agree_iff hc 300).mpr fun id q hid hq => ?_⟩
  obtain rfl : id = sampleUuid := by
    by_contra hne
    have hnone : c.world.keyspace (stateKey id) = none :=
      replay_of_not_named _ fun hkey => by simpa [hne] using hnamed _ hkey
    rw [Server.get, Keyspace.live] at hid
    change Option.map Entry.value (Option.filter _ (c.world.keyspace (stateKey id))) = _ at hid
    rw [hnone] at hid
    cases hid
  rw [htidy'.get_openedAtKey] at hq
  rw [htidy.get_openedAtKey] at hat
  obtain rfl : q = 1 := Value.float.inj (Option.some.inj (hq.symm.trans hat))
  norm_num [sampleBreaker]

/-- At the time 302 the open circuit is listed, and its next call is let through. -/
theorem not_open_circuits_agree : ∃ c, Reaches sampleBreaker ForUuids c ∧
    ¬ OpenCircuitsAgree sampleBreaker { c.world with now := 302 } := by
  obtain ⟨c, hc, hopen, hat, -⟩ := exists_opened
  have htidy := hc.sound.tidy
  have htidy' : Tidy { c.world with now := 302 } := htidy.of_keyspace rfl
  refine ⟨c, hc, fun hagree => ?_⟩
  have hnone := (agree_iff htidy' hc.onUuids).mp hagree sampleUuid 1
    (htidy'.get_stateKey_eq_some.mpr (htidy.get_stateKey_eq_some.mp hopen))
    ((htidy'.get_openedAtKey _).trans ((htidy.get_openedAtKey _).symm.trans hat))
  norm_num [sampleBreaker] at hnone

end CircuitBreaker

end WebhookRelay

import WebhookRelay.Delivery.Solo

/-!
# When the next try is

Source: `services/retry_service.py`. The next try after a 429 is as late as its `Retry-After` asks
for, for the headers that `float`, `timedelta` and the range of dates have no objection to
(`respects_retry_after_iff`). Without such a header it is the exponential delay, which is cut off at
the configured maximum before the jitter is added; so it stays below the maximum exactly when
the jitter does not lead past it (`within_cap_iff`).
-/

namespace WebhookRelay

open Data Effect

namespace ExponentialBackoffStrategy

/-! ### The exponential delay -/

section backoff

variable {base draw : ℚ} {n : ℕ} {cap : ℕ}

/-- The delay of the first tries, before it is cut off. -/
theorem exponential_le (hbase : 1 ≤ base) {m : ℕ} (h : n ≤ m) :
    initialDelaySeconds * base ^ ((n : ℤ) - 1) ≤ initialDelaySeconds * base ^ ((m : ℤ) - 1) := by
  have hpow : base ^ ((n : ℤ) - 1) ≤ base ^ ((m : ℤ) - 1) := zpow_le_zpow_right₀ hbase (by omega)
  exact mul_le_mul_of_nonneg_left hpow (by norm_num [initialDelaySeconds])

/-- The delay without jitter grows with the number of the try. -/
theorem rawDelay_mono (hbase : 1 ≤ base) {m : ℕ} (h : n ≤ m) :
    rawDelay n base cap ≤ rawDelay m base cap :=
  min_le_min_right _ (exponential_le hbase h)

/-- From the first try on the delay is not below the initial one. -/
theorem initialDelay_le_rawDelay (hbase : 1 ≤ base) (hcap : 30 ≤ cap) (hn : 1 ≤ n) :
    30 ≤ rawDelay n base cap := by
  have hfirst := exponential_le hbase hn
  rw [Nat.cast_one, sub_self, zpow_zero, mul_one] at hfirst
  exact le_min hfirst (by exact_mod_cast hcap)

theorem computeDelay_eq :
    computeDelay n base cap draw = rawDelay n base cap * (1 + draw / 4) := by
  unfold computeDelay jitterFactor
  ring

/-- Jitter does not shorten a delay. -/
theorem rawDelay_le_computeDelay (hraw : 0 ≤ rawDelay n base cap) (hdraw : 0 ≤ draw) :
    rawDelay n base cap ≤ computeDelay n base cap draw := by
  rw [computeDelay_eq]
  exact le_mul_of_one_le_right hraw (by linarith)

/-- A delay stays below the maximum unless its jitter leads past it. -/
theorem computeDelay_le_cap_iff (hcap : 0 < cap) (hdraw : 0 ≤ draw) :
    computeDelay n base cap draw ≤ cap ↔
      draw = 0 ∨ initialDelaySeconds * base ^ ((n : ℤ) - 1) * (1 + draw / 4) ≤ cap := by
  have hcap' : (0 : ℚ) < cap := by exact_mod_cast hcap
  rw [computeDelay_eq, rawDelay, min_mul_of_nonneg _ _ (by linarith), min_le_iff]
  constructor
  · rintro (h | h)
    · exact .inr h
    · exact .inl (by nlinarith)
  · rintro (rfl | h)
    · exact .inr (by simp)
    · exact .inl h

end backoff

/-! ### The maximum -/

/-- The delay of try `n` without an override is at least 30 s and at most the maximum, and later
tries have no shorter delay but for the jitter. -/
def WithinCap (o : Oracle) (data : EndpointCreate) (n : ℕ) : Prop :=
  ∀ (w : World) (s : Session), ∃ d : ℚ,
    (delay n data.retryBackoffBase data.retryMaxDelaySeconds none).drive (soloHandler o) (w, s) =
      (.ok (.finite d), w, s) ∧
    30 ≤ d ∧ d ≤ data.retryMaxDelaySeconds ∧
    ∀ m, n ≤ m → computeDelay n data.retryBackoffBase data.retryMaxDelaySeconds 0 ≤
      computeDelay m data.retryBackoffBase data.retryMaxDelaySeconds 0

/-- **When the maximum is one**: if there is no jitter, or if the exponential delay with its jitter
does not exceed it. -/
theorem within_cap_iff (o : Oracle) (data : EndpointCreate) (n : ℕ) (hn : 1 ≤ n) :
    WithinCap o data n ↔ (o.draw : ℚ) = 0 ∨
      30 * data.retryBackoffBase ^ (n - 1) * (1 + o.draw / 4) ≤ data.retryMaxDelaySeconds := by
  have hbase := data.retryBackoffBase_mem.1
  have hcap := data.retryMaxDelaySeconds_mem.1
  have hdraw := o.draw.2.1
  have hpow : data.retryBackoffBase ^ ((n : ℤ) - 1) = data.retryBackoffBase ^ (n - 1) := by
    rw [← zpow_natCast, Nat.cast_sub hn, Nat.cast_one]
  have hle : computeDelay n data.retryBackoffBase data.retryMaxDelaySeconds o.draw ≤
      data.retryMaxDelaySeconds ↔ (o.draw : ℚ) = 0 ∨
        30 * data.retryBackoffBase ^ (n - 1) * (1 + o.draw / 4) ≤ data.retryMaxDelaySeconds := by
    rw [computeDelay_le_cap_iff (by omega) hdraw, hpow]
    rfl
  refine Iff.trans ⟨fun h => ?_, fun h w s => ?_⟩ hle
  · obtain ⟨d, hrun, -, hd, -⟩ := h (Sample.world Sample.shop Sample.order) .fresh
    obtain rfl := PyFloat.finite.inj (Except.ok.inj (congrArg Prod.fst hrun))
    exact hd
  · have hraw : 30 ≤ rawDelay n data.retryBackoffBase data.retryMaxDelaySeconds :=
      initialDelay_le_rawDelay hbase (by omega) hn
    refine ⟨_, rfl, hraw.trans (rawDelay_le_computeDelay (by linarith) hdraw), h, fun m hm => ?_⟩
    simp only [computeDelay_eq, zero_div, add_zero, mul_one]
    exact rawDelay_mono hbase hm

/-- The first delay of the default settings, with all of its jitter, is 37.5 s. -/
theorem within_cap_first : WithinCap
    { Sample.oracle 1 .cancelled with draw := ⟨1, zero_le_one, le_rfl⟩ } Sample.shop 1 :=
  (within_cap_iff { Sample.oracle 1 .cancelled with draw := ⟨1, zero_le_one, le_rfl⟩ }
    Sample.shop 1 (by decide)).mpr (.inr (by decide +kernel))

/-- The twentieth delay of the default settings, with all of its jitter, is 4500 s. -/
theorem not_within_cap : ¬ WithinCap
    { Sample.oracle 1 .cancelled with draw := ⟨1, zero_le_one, le_rfl⟩ } Sample.shop 20 := by
  intro h
  obtain ⟨d, hrun, -, hle, -⟩ := h (Sample.world Sample.shop Sample.order) .fresh
  obtain rfl := PyFloat.finite.inj (Except.ok.inj (congrArg Prod.fst hrun))
  exact absurd hle (by decide +kernel)

/-! ### `Retry-After` -/

/-- What `deliver` does after try `n` of an endpoint was answered 429: `should_retry`, and
`next_retry_at` with the override it returns. -/
def retryAfter429 (data : EndpointCreate) (n : ℕ) (header : Str) : Relay (Option Datetime) := do
  let decision := shouldRetry (some 429) n data.maxRetries (some header)
  if decision.1 then
    let next ← nextRetryAt n data.retryBackoffBase data.retryMaxDelaySeconds decision.2
    pure (some next)
  else pure none

/-- A 429 leads to a next try that is not before now, nor before the time that its header asks
for if that is a number of seconds from zero on, within the range of dates. -/
def RespectsRetryAfter (o : Oracle) (w : World) (s : Session) (data : EndpointCreate) (n : ℕ)
    (header : Str) : Prop :=
  ∃ t, (retryAfter429 data n header).drive (soloHandler o) (w, s) = (.ok (some t), w, s) ∧
    w.now ≤ t ∧
    ∀ q, pyFloat header = some (.finite q) → 0 ≤ q →
      (∃ u, w.now.addSeconds (.finite q) = .ok u) →
      (w.now.micros : ℚ) + q * 1000000 ≤ t.micros

/-- The number a header asks for, if it is one and not zero. -/
def requestedDelay (header : Str) : Option PyFloat :=
  (pyFloat header).filter PyFloat.truthy

/-- The last microsecond of year 9999. -/
def lastMicros : ℤ := 253402300799999999

/-- The header can be respected. -/
def Respectable (draw : ℚ) (now : Datetime) (data : EndpointCreate) (n : ℕ) (header : Str) : Prop :=
  match requestedDelay header with
  | none =>
    -- the backoff has to lead to an instant
    now.micros + Timedelta.microsOf (min (30 * data.retryBackoffBase ^ ((n : ℤ) - 1))
      data.retryMaxDelaySeconds * (1 + draw / 4)) ≤ lastMicros
  | some (.finite q) =>
    -- its microseconds are not before now, not fewer than asked for, and not past the last instant
    0 ≤ Timedelta.microsOf q ∧ (0 < q → q * 1000000 ≤ Timedelta.microsOf q) ∧
      now.micros + Timedelta.microsOf q ≤ lastMicros
  | some (.inf _) => False
  | some .nan => False

section retryAfter

variable {o : Oracle} {w : World} {s : Session} {data : EndpointCreate} {n : ℕ} {header : Str}

/-- What a header that is not a number, or zero, leads to. -/
theorem retryDelay_of_requested (x : Option PyFloat) (ep : WebhookEndpoint) :
    retryDelay o n ep x = ((x.filter PyFloat.truthy).getD (retryDelay.backoff o n ep)) := by
  cases x with
  | none => rfl
  | some x =>
    unfold retryDelay
    dsimp only
    split_ifs with h <;> simp [Option.filter, h]

/-- A 429 within the budget is retried when `next_retry_at` says. -/
theorem drive_retryAfter429 (hn : n < data.maxRetries) :
    (retryAfter429 data n header).drive (soloHandler o) (w, s) =
      (((w.now.addSeconds ((requestedDelay header).getD (.finite (computeDelay n
        data.retryBackoffBase data.retryMaxDelaySeconds o.draw)))).mapError PyExn.ofNum).map some,
        w, s) := by
  have hdecision : shouldRetry (some 429) n data.maxRetries (some header) =
      (true, pyFloat header) := by
    have hbudget : ¬ data.maxRetries ≤ n := by omega
    unfold shouldRetry
    rw [if_neg hbudget]
    dsimp only
    by_cases hempty : header = []
    · subst hempty
      decide +kernel
    · simp [permanentFailureCodes, retryableStatusCodes, hempty]
  unfold retryAfter429
  rw [hdecision]
  have hnext := drive_nextRetryAt (o := o) (w := w) (s := s) n (Api.newEndpoint data [] ⟨0⟩)
    (pyFloat header)
  rw [retryDelay_of_requested] at hnext
  change (nextRetryAt n data.retryBackoffBase data.retryMaxDelaySeconds (pyFloat header)).drive
    (soloHandler o) (w, s) = ((w.now.addSeconds ((requestedDelay header).getD (.finite
      (computeDelay n data.retryBackoffBase data.retryMaxDelaySeconds o.draw)))).mapError
        PyExn.ofNum, w, s) at hnext
  change (nextRetryAt n data.retryBackoffBase data.retryMaxDelaySeconds (pyFloat header) >>=
    fun next => pure (some next)).drive (soloHandler o) (w, s) = _
  rw [Prog.drive_bind, hnext]
  cases w.now.addSeconds ((requestedDelay header).getD (.finite (computeDelay n
    data.retryBackoffBase data.retryMaxDelaySeconds o.draw))) <;> rfl

/-- The next try is as late as the number that is asked for, or as the backoff. -/
theorem respectsRetryAfter_iff_addSeconds (hn : n < data.maxRetries) :
    RespectsRetryAfter o w s data n header ↔
      ∃ t, w.now.addSeconds ((requestedDelay header).getD (.finite (computeDelay n
        data.retryBackoffBase data.retryMaxDelaySeconds o.draw))) = .ok t ∧ w.now ≤ t ∧
        ∀ q, pyFloat header = some (.finite q) → 0 ≤ q →
          (∃ u, w.now.addSeconds (.finite q) = .ok u) →
          (w.now.micros : ℚ) + q * 1000000 ≤ t.micros := by
  unfold RespectsRetryAfter
  rw [drive_retryAfter429 hn]
  refine exists_congr fun t => and_congr_left fun _ => ?_
  cases w.now.addSeconds ((requestedDelay header).getD (.finite (computeDelay n
    data.retryBackoffBase data.retryMaxDelaySeconds o.draw))) with
  | error x => exact ⟨fun h => absurd (congrArg Prod.fst h) nofun, nofun⟩
  | ok u =>
    constructor
    · intro h
      exact congrArg Except.ok (Option.some.inj (Except.ok.inj (congrArg Prod.fst h)))
    · rintro h
      rw [Except.ok.inj h]
      rfl

/-- A header that asks for a delay is that number, and the number is not zero. -/
theorem requestedDelay_finite {q : ℚ} (h : requestedDelay header = some (.finite q)) :
    pyFloat header = some (.finite q) ∧ q ≠ 0 := by
  obtain ⟨hnumber, htruthy⟩ := Option.filter_eq_some_iff.mp h
  exact ⟨hnumber, of_decide_eq_true htruthy⟩

/-- A number that is not asked for is zero. -/
theorem eq_zero_of_requestedDelay {q : ℚ} (h : requestedDelay header = none)
    (hnumber : pyFloat header = some (.finite q)) : q = 0 := by
  unfold requestedDelay at h
  rw [hnumber] at h
  by_contra hq
  have htruthy : (PyFloat.finite q).truthy = true := decide_eq_true hq
  rw [Option.filter_some, if_pos htruthy] at h
  cases h

/-- **When `Retry-After` is respected.** -/
theorem respects_retry_after_iff (o : Oracle) (w : World) (s : Session) (data : EndpointCreate)
    (n : ℕ) (header : Str) (hn : n < data.maxRetries) :
    RespectsRetryAfter o w s data n header ↔ Respectable o.draw w.now data n header := by
  rw [respectsRetryAfter_iff_addSeconds hn]
  unfold Respectable
  cases hreq : requestedDelay header with
  | none =>
    dsimp only [Option.getD_none]
    have hraw : 0 ≤ rawDelay n data.retryBackoffBase data.retryMaxDelaySeconds :=
      le_min (mul_nonneg (by norm_num [initialDelaySeconds])
        (zpow_nonneg (by linarith [data.retryBackoffBase_mem.1]) _)) (Nat.cast_nonneg _)
    have hround : 0 ≤ Timedelta.microsOf (computeDelay n data.retryBackoffBase
        data.retryMaxDelaySeconds o.draw) :=
      Timedelta.microsOf_nonneg (hraw.trans (rawDelay_le_computeDelay hraw o.draw.2.1))
    have hbackoff : min (30 * data.retryBackoffBase ^ ((n : ℤ) - 1)) data.retryMaxDelaySeconds *
        (1 + o.draw / 4) = computeDelay n data.retryBackoffBase data.retryMaxDelaySeconds o.draw :=
      computeDelay_eq.symm
    rw [hbackoff]
    constructor
    · rintro ⟨t, ht, -, -⟩
      rw [← Datetime.micros_of_addSeconds ht]
      exact t.upper
    · intro hlast
      obtain ⟨t, ht, hmicros⟩ := Datetime.addSeconds_finite hround hlast
      refine ⟨t, ht, Datetime.le_def.mpr (by omega), fun q hq _ _ => ?_⟩
      rw [eq_zero_of_requestedDelay hreq hq, zero_mul, add_zero]
      exact_mod_cast (by omega : w.now.micros ≤ t.micros)
  | some x =>
    cases x with
    | finite q =>
      obtain ⟨hnumber, hne⟩ := requestedDelay_finite hreq
      dsimp only [Option.getD_some]
      constructor
      · rintro ⟨t, ht, hnow, hlater⟩
        have hmicros := Datetime.micros_of_addSeconds ht
        have hlast := t.upper
        rw [Datetime.le_def] at hnow
        refine ⟨by omega, fun hpos => ?_, by unfold lastMicros; omega⟩
        have hasked := hlater q hnumber hpos.le ⟨t, ht⟩
        rw [hmicros] at hasked
        push_cast at hasked
        linarith
      · rintro ⟨hnonneg, hexact, hlast⟩
        obtain ⟨t, ht, hmicros⟩ := Datetime.addSeconds_finite hnonneg hlast
        refine ⟨t, ht, Datetime.le_def.mpr (by omega), fun q' hq' hpos _ => ?_⟩
        obtain rfl : q = q' := PyFloat.finite.inj (Option.some.inj (hnumber.symm.trans hq'))
        have hasked := hexact (lt_of_le_of_ne hpos hne.symm)
        rw [hmicros]
        push_cast
        linarith
    | inf b => exact ⟨fun ⟨t, ht, _⟩ => absurd ht nofun, False.elim⟩
    | nan => exact ⟨fun ⟨t, ht, _⟩ => absurd ht nofun, False.elim⟩

end retryAfter

/-- A `Retry-After` of two minutes is respected. -/
theorem respects_two_minutes : RespectsRetryAfter (Sample.oracle 1 .cancelled)
    (Sample.world Sample.retrying Sample.order) .fresh Sample.retrying 1 (Str.lit "120") := by
  have hreq : requestedDelay (Str.lit "120") = some (.finite 120) := by decide +kernel
  refine (respects_retry_after_iff (Sample.oracle 1 .cancelled)
    (Sample.world Sample.retrying Sample.order) .fresh Sample.retrying 1 (Str.lit "120")
    (by decide)).mpr ?_
  unfold Respectable
  rw [hreq]
  exact ⟨by decide +kernel, fun _ => by decide +kernel, by decide +kernel⟩

/-- A `Retry-After` of `nan` makes `next_retry_at` raise. -/
theorem not_respects_nan : ¬ RespectsRetryAfter (Sample.oracle 1 .cancelled)
    (Sample.world Sample.retrying Sample.order) .fresh Sample.retrying 1 (Str.lit "nan") := by
  have hreq : requestedDelay (Str.lit "nan") = some .nan := by decide +kernel
  have hbudget : 1 < Sample.retrying.maxRetries := by decide
  rintro ⟨t, hrun, -⟩
  rw [drive_retryAfter429 hbudget, hreq] at hrun
  exact absurd (congrArg Prod.fst hrun) nofun

end ExponentialBackoffStrategy

end WebhookRelay

import WebhookRelay.Sample
import WebhookRelay.Data.Pages

/-!
# The list operations

Sources: `list_endpoints`, `list_dlq` and `get_event_attempts` of the handlers, with the queries of
the repositories behind them. Each answers one page of the rows that match, in the order of the
query, with the number of pages. Page and size are any integers of the query string.

`listings_partition_iff` says when the pages are a partition of the rows: for every size that the
database accepts but zero, and for zero if no row matches. With a row, size zero is a division by
zero.
-/

namespace WebhookRelay

open Data

/-- What a list operation raises. -/
inductive ListError where
  /-- PostgreSQL rejects a negative offset or limit, and a NUL in a text. -/
  | databaseError
  | zeroDivisionError
  deriving DecidableEq

/-- `PaginatedResponse`; an item has the values of its row. -/
structure PaginatedResponse (ρ : Type) where
  items : List ρ
  total : ℕ
  page : ℤ
  size : ℤ
  pages : ℤ

/-! ### Queries -/

/-- `query.offset(offset).limit(limit)`. -/
def fetch {ρ : Type} (rows : List ρ) (offset limit : ℤ) : Except ListError (List ρ) :=
  if offset < 0 ∨ limit < 0 then .error .databaseError
  else .ok ((rows.drop offset.toNat).take limit.toNat)

/-- The two queries behind a list operation: a page of the matching rows in an order, and the
number of all of them. -/
def getPage {ρ : Type} (rows : List ρ) (matching : ρ → Bool) (order : ρ → ρ → Prop)
    [DecidableRel order] (page size : ℤ) : Except ListError (List ρ × ℕ) := do
  let items ← fetch ((rows.filter matching).insertionSort order) ((page - 1) * size) size
  pure (items, rows.countP matching)

/-- `if is_active is not None`. -/
def endpointMatches (isActive : Option Bool) (r : WebhookEndpoint) : Bool :=
  isActive.all fun b => decide (r.isActive = b)

/-- `created_at.desc()`, for the times at which the endpoints were created. -/
def newestFirst (createdAt : UUID → Datetime) (a b : WebhookEndpoint) : Prop :=
  (createdAt b.id).micros ≤ (createdAt a.id).micros

section newestFirst

variable (createdAt : UUID → Datetime)

instance : DecidableRel (newestFirst createdAt) :=
  fun a b => inferInstanceAs (Decidable ((createdAt b.id).micros ≤ (createdAt a.id).micros))

instance : Std.Total (newestFirst createdAt) := ⟨fun _ _ => Int.le_total _ _⟩

instance : IsTrans WebhookEndpoint (newestFirst createdAt) := ⟨fun _ _ _ h h' => Int.le_trans h' h⟩

end newestFirst

/-- Source: `EndpointRepository.get_all`. -/
def EndpointRepository.getAll (db : Db) (createdAt : UUID → Datetime) (page size : ℤ)
    (isActive : Option Bool) : Except ListError (List WebhookEndpoint × ℕ) :=
  getPage db.endpoints.rows (endpointMatches isActive) (newestFirst createdAt) page size

/-- `dead_lettered_at.desc()`. -/
def latestFirst (a b : DeadLetterEvent) : Prop := b.deadLetteredAt.micros ≤ a.deadLetteredAt.micros

instance : DecidableRel latestFirst :=
  fun a b => inferInstanceAs (Decidable (b.deadLetteredAt.micros ≤ a.deadLetteredAt.micros))

instance : Std.Total latestFirst := ⟨fun _ _ => Int.le_total _ _⟩

instance : IsTrans DeadLetterEvent latestFirst := ⟨fun _ _ _ h h' => Int.le_trans h' h⟩

/-- Source: `DeadLetterRepository.get_all`. -/
def DeadLetterRepository.getAll (db : Db) (endpointId : Option UUID) (eventType : Option Str)
    (page size : ℤ) : Except ListError (List DeadLetterEvent × ℕ) :=
  if eventType.any Str.hasNul then .error .databaseError
  else getPage db.deadLetters.rows (Db.deadLetterMatches endpointId eventType) latestFirst page size

/-- `attempt_number.asc()`. -/
def inOrder (a b : DeliveryAttempt) : Prop := a.attemptNumber ≤ b.attemptNumber

instance : DecidableRel inOrder :=
  fun a b => inferInstanceAs (Decidable (a.attemptNumber ≤ b.attemptNumber))

instance : Std.Total inOrder := ⟨fun _ _ => Nat.le_total _ _⟩

instance : IsTrans DeliveryAttempt inOrder := ⟨fun _ _ _ h h' => Nat.le_trans h h'⟩

/-- Source: `DeliveryAttemptRepository.get_by_event_id`. -/
def DeliveryAttemptRepository.getByEventId (db : Db) (eventId : UUID) (page size : ℤ) :
    Except ListError (List DeliveryAttempt × ℕ) :=
  getPage db.attempts.rows (fun r => decide (r.eventId = eventId)) inOrder page size

/-! ### Handlers -/

/-- `(total + size - 1) // size if total else 0`. -/
def responsePages (total : ℕ) (size : ℤ) : Except ListError ℤ :=
  if total = 0 then .ok 0
  else if size = 0 then .error .zeroDivisionError
  else .ok ((total + size - 1).fdiv size)

/-- The response to a list operation. -/
def respond {ρ : Type} (answer : Except ListError (List ρ × ℕ)) (page size : ℤ) :
    Except ListError (PaginatedResponse ρ) := do
  let (items, total) ← answer
  let pages ← responsePages total size
  pure ⟨items, total, page, size, pages⟩

namespace Api

/-- Source: `list_endpoints`. -/
def listEndpoints (db : Db) (createdAt : UUID → Datetime) (page size : ℤ)
    (isActive : Option Bool) : Except ListError (PaginatedResponse WebhookEndpoint) :=
  respond (EndpointRepository.getAll db createdAt page size isActive) page size

/-- Source: `list_dlq`. -/
def listDlq (db : Db) (endpointId : Option UUID) (eventType : Option Str) (page size : ℤ) :
    Except ListError (PaginatedResponse DeadLetterEvent) :=
  respond (DeadLetterRepository.getAll db endpointId eventType page size) page size

/-- Source: `get_event_attempts`. -/
def getEventAttempts (db : Db) (eventId : UUID) (page size : ℤ) :
    Except ListError (PaginatedResponse DeliveryAttempt) :=
  respond (DeliveryAttemptRepository.getByEventId db eventId page size) page size

end Api

/-! ### Partitions -/

/-- The items of an answer. -/
def itemsOf {ρ : Type} : Except ListError (PaginatedResponse ρ) → List ρ
  | .ok r => r.items
  | .error _ => []

/-- The items of the pages from 1 to `pages`. -/
def itemsUpTo {ρ : Type} (list : ℤ → Except ListError (PaginatedResponse ρ)) (pages : ℕ) : List ρ :=
  (List.range pages).flatMap fun i : ℕ => itemsOf (list ((i : ℤ) + 1))

/-- If the database accepts the first page, then every page is answered, all of them with one
number of pages; up to that number their items together are the matching rows, in the order of
the query, and after it there are no items. -/
def Partitions {ρ : Type} (list : ℤ → Except ListError (PaginatedResponse ρ)) (rows : List ρ)
    (order : ρ → ρ → Prop) : Prop :=
  list 1 ≠ .error .databaseError → ∃ pages : ℕ,
    (∀ page, 1 ≤ page → ∃ r, list page = .ok r ∧ r.pages = pages ∧
      ((pages : ℤ) < page → r.items = [])) ∧
    (itemsUpTo list pages).Perm rows ∧ (itemsUpTo list pages).Pairwise order

section getPage

variable {ρ : Type} {rows : List ρ} {matching : ρ → Bool} {order : ρ → ρ → Prop}
  [DecidableRel order]

/-- A query with a negative size is rejected. -/
theorem respond_of_neg {size : ℤ} (h : size < 0) (page : ℤ) :
    respond (getPage rows matching order page size) page size = .error .databaseError := by
  unfold getPage fetch
  rw [if_pos (.inr h)]
  rfl

theorem respond_ok {items : List ρ} {total : ℕ} {page size pages : ℤ}
    (h : responsePages total size = .ok pages) :
    respond (.ok (items, total)) page size = .ok ⟨items, total, page, size, pages⟩ := by
  change (responsePages total size >>= fun pages => pure _) = _
  rw [h]
  rfl

/-- A query with a size that is not negative, from the first page on. -/
theorem getPage_of_nonneg (size i : ℕ) : getPage rows matching order (i + 1) size =
    .ok (page size i ((rows.filter matching).insertionSort order), rows.countP matching) := by
  have hoffset : ((i + 1 : ℤ) - 1) * size = ((i * size : ℕ) : ℤ) := by
    push_cast
    ring
  have hnonneg : ¬ (((i * size : ℕ) : ℤ) < 0 ∨ (size : ℤ) < 0) := by omega
  unfold getPage fetch
  rw [hoffset, if_neg hnonneg]
  rfl

/-- The number of pages is rounded up. -/
theorem responsePages_of_pos {size : ℕ} (h : 0 < size) (total : ℕ) :
    responsePages total size = .ok (pageCount total size) := by
  have hsize : (size : ℤ) ≠ 0 := by omega
  unfold responsePages pageCount
  rw [if_neg hsize]
  split_ifs with htotal
  · rw [htotal, Nat.div_eq_of_lt (by omega)]
    rfl
  · have hsub : (total : ℤ) + size - 1 = ((total + size - 1 : ℕ) : ℤ) := by omega
    rw [hsub, Int.fdiv_eq_ediv_of_nonneg _ (by omega), Int.natCast_div]

/-- **When the pages of a query are a partition of its rows.** -/
theorem partitions_getPage [Std.Total order] [IsTrans ρ order] (size : ℤ) :
    Partitions (fun page => respond (getPage rows matching order page size) page size)
      (rows.filter matching) order ↔ size ≠ 0 ∨ ∀ r ∈ rows, matching r = false := by
  let ordered := (rows.filter matching).insertionSort order
  have hperm : ordered.Perm (rows.filter matching) := List.perm_insertionSort order _
  have hsorted : ordered.Pairwise order := List.pairwise_insertionSort order _
  have hcount : rows.countP matching = ordered.length := by
    rw [hperm.length_eq, List.countP_eq_length_filter]
  rcases lt_trichotomy size 0 with hsize | rfl | hsize
  · exact ⟨fun _ => .inl hsize.ne, fun _ haccept => absurd (respond_of_neg hsize 1) haccept⟩
  · have hquery (i : ℕ) : getPage rows matching order (i + 1) 0 =
        .ok (page 0 i ordered, rows.countP matching) := getPage_of_nonneg 0 i
    constructor
    · refine fun h => .inr fun r hr => ?_
      by_contra hmatch
      have hpos : rows.countP matching ≠ 0 :=
        (List.countP_pos_iff.mpr ⟨r, hr, Bool.not_eq_false _ ▸ hmatch⟩).ne'
      have hfirst : respond (getPage rows matching order 1 0) 1 0 = .error .zeroDivisionError := by
        have hdivision : responsePages (rows.countP matching) 0 = .error .zeroDivisionError := by
          unfold responsePages
          rw [if_neg hpos, if_pos rfl]
        rw [show getPage rows matching order 1 0 = _ from hquery 0]
        change (responsePages _ 0 >>= fun pages => pure _) = _
        rw [hdivision]
        rfl
      obtain ⟨_, hpages, -⟩ := h fun hreject => absurd (hfirst.symm.trans hreject) nofun
      obtain ⟨answer, hanswer, -⟩ := hpages 1 le_rfl
      cases hfirst.symm.trans hanswer
    · rintro (hne | hnone) -
      · exact absurd rfl hne
      · have hempty : rows.filter matching = [] :=
          List.filter_eq_nil_iff.mpr fun r hr => Bool.eq_false_iff.mp (hnone r hr)
        refine ⟨0, fun p hp => ?_, by rw [hempty]; exact List.Perm.nil, List.Pairwise.nil⟩
        obtain ⟨i, rfl⟩ : ∃ i : ℕ, p = i + 1 := ⟨(p - 1).toNat, by omega⟩
        have hnone : responsePages (rows.countP matching) 0 = .ok 0 := by
          rw [List.countP_eq_length_filter, hempty]
          rfl
        exact ⟨⟨page 0 i ordered, rows.countP matching, i + 1, 0, 0⟩,
          (congrArg (respond · (i + 1) 0) (hquery i)).trans (respond_ok hnone), rfl, fun _ => rfl⟩
  · obtain ⟨size, rfl⟩ := Int.eq_ofNat_of_zero_le hsize.le
    have hsize' : 0 < size := by omega
    have hlist (i : ℕ) : respond (getPage rows matching order (i + 1) size) (i + 1) size =
        .ok ⟨page size i ordered, rows.countP matching, i + 1, size,
          pageCount ordered.length size⟩ := by
      rw [getPage_of_nonneg, ← hcount]
      exact respond_ok (responsePages_of_pos hsize' _)
    have hitems : itemsUpTo (fun p => respond (getPage rows matching order p size) p size)
        (pageCount ordered.length size) = ordered := by
      simp only [itemsUpTo, hlist, itemsOf]
      exact flatMap_pages hsize' ordered
    refine ⟨fun _ => .inl hsize.ne', fun _ _ => ⟨pageCount ordered.length size, fun p hp => ?_,
      ?_, ?_⟩⟩
    obtain ⟨i, rfl⟩ : ∃ i : ℕ, p = i + 1 := ⟨(p - 1).toNat, by omega⟩
    · exact ⟨_, hlist i, rfl, fun hlate => page_of_le hsize' (by omega)⟩
    · rw [hitems]
      exact hperm
    · rw [hitems]
      exact hsorted

end getPage

/-! ### The three operations -/

/-- **When the pages of the list operations are a partition of the rows that match**: for a size
other than zero, if no row matches, or, for the dead letters, if the database rejects the
filter. -/
theorem listings_partition_iff (db : Db) (createdAt : UUID → Datetime) (size : ℤ) :
    (∀ isActive, Partitions (fun page => Api.listEndpoints db createdAt page size isActive)
        (db.endpoints.rows.filter (endpointMatches isActive)) (newestFirst createdAt) ↔
      size ≠ 0 ∨ ∀ r ∈ db.endpoints.rows, endpointMatches isActive r = false) ∧
    (∀ endpointId eventType,
      Partitions (fun page => Api.listDlq db endpointId eventType page size)
        (db.deadLetters.rows.filter (Db.deadLetterMatches endpointId eventType)) latestFirst ↔
      size ≠ 0 ∨ (∀ r ∈ db.deadLetters.rows,
        Db.deadLetterMatches endpointId eventType r = false) ∨
        eventType.any Str.hasNul = true) ∧
    ∀ eventId, Partitions (fun page => Api.getEventAttempts db eventId page size)
        (db.attempts.rows.filter fun r => decide (r.eventId = eventId)) inOrder ↔
      size ≠ 0 ∨ ∀ r ∈ db.attempts.rows, r.eventId ≠ eventId := by
  refine ⟨fun isActive => ?_, fun endpointId eventType => ?_, fun eventId => ?_⟩
  · exact partitions_getPage size
  · by_cases hnul : eventType.any Str.hasNul = true
    · have hreject : Api.listDlq db endpointId eventType 1 size = .error .databaseError := by
        unfold Api.listDlq DeadLetterRepository.getAll
        rw [if_pos hnul]
        rfl
      exact ⟨fun _ => .inr (.inr hnul), fun _ haccept => absurd hreject haccept⟩
    · have hlist (page : ℤ) : Api.listDlq db endpointId eventType page size =
          respond (getPage db.deadLetters.rows (Db.deadLetterMatches endpointId eventType)
            latestFirst page size) page size := by
        unfold Api.listDlq DeadLetterRepository.getAll
        rw [if_neg hnul]
      simp only [hlist, or_iff_left hnul]
      exact partitions_getPage size
  · refine (partitions_getPage size).trans ?_
    simp only [decide_eq_false_iff_not, ne_eq]

/-- The database with one endpoint. -/
def oneEndpoint : Db :=
  Db.empty.apply (.insertEndpoint (Api.newEndpoint Sample.shop Sample.digest.text (Sample.id 1)))

/-- With one endpoint, a list of pages of size zero is a division by zero. -/
theorem not_partitions_zero : ¬ Partitions
    (fun page => Api.listEndpoints oneEndpoint (fun _ => Sample.start) page 0 none)
    (oneEndpoint.endpoints.rows.filter (endpointMatches none))
    (newestFirst fun _ => Sample.start) := by
  have hfirst : Api.listEndpoints oneEndpoint (fun _ => Sample.start) 1 0 none =
      .error .zeroDivisionError := rfl
  intro h
  obtain ⟨_, hpages, -⟩ := h fun hreject => absurd (hfirst.symm.trans hreject) nofun
  obtain ⟨answer, hanswer, -⟩ := hpages 1 le_rfl
  exact absurd (hfirst.symm.trans hanswer) nofun

end WebhookRelay

import Mathlib.Data.List.Nodup
import Mathlib.Tactic.Common

/-!
# Keyed tables and dictionaries

`Table ρ key` is a finite table of rows in insertion order with a primary key: no two rows have
the same key, and the structure carries the proof. `Dict κ ν` is an insertion-ordered dictionary:
setting a key that is there replaces its value in place, a new key goes to the end.

Both are given with the lemmas that say what each operation does to a lookup and to the list of
rows, so that no proof about a table has to look inside it.
-/

namespace Data

/-- A table with primary key `key`: rows in insertion order, no key twice. -/
structure Table (ρ : Type) {κ : Type} (key : ρ → κ) where
  /-- The rows, oldest first. -/
  rows : List ρ
  /-- The key is a primary key. -/
  nodup : (rows.map key).Nodup

namespace Table

variable {ρ κ : Type} {key : ρ → κ}

/-- The table without rows. -/
def empty : Table ρ key := ⟨[], List.nodup_nil⟩

variable [DecidableEq κ]

/-- The row with a given key. -/
def get? (T : Table ρ key) (k : κ) : Option ρ := T.rows.find? fun r => decide (key r = k)

/-- Append a row; a row whose key is taken is not added. -/
def insert (T : Table ρ key) (r : ρ) : Table ρ key :=
  if h : key r ∈ T.rows.map key then T
  else ⟨T.rows ++ [r], by
    rw [List.map_append, List.map_singleton]
    exact List.Nodup.append T.nodup (List.nodup_singleton _) (by simpa using h)⟩

/-- Change the row with a given key, keeping its key. -/
def modify (T : Table ρ key) (k : κ) (f : ρ → ρ) (hf : ∀ r, key (f r) = key r) : Table ρ key :=
  ⟨T.rows.map fun r => if key r = k then f r else r, by
    have h : (fun r => key (if key r = k then f r else r)) = key := by
      funext r
      split_ifs <;> simp [hf]
    rw [List.map_map]
    change (T.rows.map fun r => key (if key r = k then f r else r)).Nodup
    rw [h]
    exact T.nodup⟩

/-- Remove the row with a given key. -/
def erase (T : Table ρ key) (k : κ) : Table ρ key :=
  ⟨T.rows.filter fun r => decide (key r ≠ k), T.nodup.sublist (List.filter_sublist.map key)⟩

/-- Looking a key up finds the row that has it. -/
theorem get?_eq_some_iff {T : Table ρ key} {k : κ} {r : ρ} :
    T.get? k = some r ↔ r ∈ T.rows ∧ key r = k := by
  constructor
  · intro h
    exact ⟨List.mem_of_find?_eq_some h, by simpa using List.find?_some h⟩
  · rintro ⟨hr, hk⟩
    cases hf : T.get? k with
    | none => exact absurd hk (by simpa using List.find?_eq_none.mp hf r hr)
    | some r' =>
      have hr' : r' ∈ T.rows := List.mem_of_find?_eq_some hf
      have hk' : key r' = k := by simpa using List.find?_some hf
      rw [List.inj_on_of_nodup_map T.nodup hr' hr (hk'.trans hk.symm)]

/-- A key that is not found is the key of no row. -/
theorem get?_eq_none_iff {T : Table ρ key} {k : κ} :
    T.get? k = none ↔ ∀ r ∈ T.rows, key r ≠ k := by
  simp [get?, List.find?_eq_none]

theorem mem_of_get? {T : Table ρ key} {k : κ} {r : ρ} (h : T.get? k = some r) : r ∈ T.rows :=
  (get?_eq_some_iff.mp h).1

theorem key_of_get? {T : Table ρ key} {k : κ} {r : ρ} (h : T.get? k = some r) : key r = k :=
  (get?_eq_some_iff.mp h).2

theorem get?_of_mem {T : Table ρ key} {r : ρ} (h : r ∈ T.rows) : T.get? (key r) = some r :=
  get?_eq_some_iff.mpr ⟨h, rfl⟩

/-- A row with a new key is appended. -/
theorem rows_insert {T : Table ρ key} {r : ρ} (h : T.get? (key r) = none) :
    (T.insert r).rows = T.rows ++ [r] := by
  have hn : key r ∉ T.rows.map key := by
    rw [List.mem_map]
    rintro ⟨r', hr', hk⟩
    exact get?_eq_none_iff.mp h r' hr' hk
  rw [insert, dif_neg hn]

/-- A row whose key is taken changes nothing. -/
theorem insert_of_get? {T : Table ρ key} {r r' : ρ} (h : T.get? (key r) = some r') :
    T.insert r = T := by
  rw [insert, dif_pos (List.mem_map.mpr ⟨r', mem_of_get? h, key_of_get? h⟩)]

/-- Looking up after a row with a new key was appended. -/
theorem get?_insert {T : Table ρ key} {r : ρ} (h : T.get? (key r) = none) (k : κ) :
    (T.insert r).get? k = if key r = k then some r else T.get? k := by
  rw [get?, rows_insert h, List.find?_append]
  by_cases hk : key r = k
  · subst hk
    change T.rows.find? (fun x => decide (key x = key r)) = none at h
    simp [h]
  · simp only [hk, if_false, List.find?_singleton, decide_false, Bool.false_eq_true,
      Option.or_none]
    rfl

/-- A key is there after an insert if and only if it was, or is the one of the row. -/
theorem isSome_get?_insert (T : Table ρ key) (r : ρ) (k : κ) :
    ((T.insert r).get? k).isSome = true ↔ (T.get? k).isSome = true ∨ key r = k := by
  cases hr : T.get? (key r) with
  | some r' =>
    rw [insert_of_get? hr]
    refine ⟨Or.inl, ?_⟩
    rintro (h | rfl)
    · exact h
    · rw [hr]
      rfl
  | none =>
    rw [get?_insert hr]
    split_ifs with hk
    · exact iff_of_true rfl (Or.inr hk)
    · exact ⟨Or.inl, fun h => h.resolve_right hk⟩

@[simp] theorem rows_modify (T : Table ρ key) (k : κ) (f : ρ → ρ) (hf : ∀ r, key (f r) = key r) :
    (T.modify k f hf).rows = T.rows.map fun r => if key r = k then f r else r := rfl

/-- A change that changes nothing. -/
@[simp] theorem modify_id (T : Table ρ key) (k : κ) (h : ∀ r, key (id r) = key r) :
    T.modify k id h = T := by
  cases T
  simp [modify]

/-- Looking up after a row was changed. -/
theorem get?_modify (T : Table ρ key) (k k' : κ) (f : ρ → ρ) (hf : ∀ r, key (f r) = key r) :
    (T.modify k f hf).get? k' = if k' = k then (T.get? k').map f else T.get? k' := by
  have hp : (fun r => decide (key (if key r = k then f r else r) = k')) =
      fun r => decide (key r = k') := by
    funext r
    split_ifs <;> simp [hf]
  have hfind : (T.modify k f hf).get? k' =
      (T.get? k').map fun r => if key r = k then f r else r := by
    rw [get?, rows_modify, List.find?_map]
    change (T.rows.find? (fun r => decide (key (if key r = k then f r else r) = k'))).map _ = _
    rw [hp]
    rfl
  rw [hfind]
  cases hg : T.get? k' with
  | none => simp
  | some r =>
    have hr := key_of_get? hg
    by_cases hk : k' = k <;> simp [hr, hk]

/-- A change keeps the keys that are there. -/
theorem isSome_get?_modify (T : Table ρ key) (k k' : κ) (f : ρ → ρ)
    (hf : ∀ r, key (f r) = key r) :
    ((T.modify k f hf).get? k').isSome = (T.get? k').isSome := by
  rw [get?_modify]
  split_ifs
  · exact Option.isSome_map
  · rfl

theorem get?_modify_self (T : Table ρ key) (k : κ) (f : ρ → ρ) (hf : ∀ r, key (f r) = key r) :
    (T.modify k f hf).get? k = (T.get? k).map f := by
  rw [get?_modify, if_pos rfl]

theorem get?_modify_of_ne (T : Table ρ key) {k k' : κ} (f : ρ → ρ) (hf : ∀ r, key (f r) = key r)
    (h : k' ≠ k) : (T.modify k f hf).get? k' = T.get? k' := by
  rw [get?_modify, if_neg h]

/-- Looking up after a row was removed. -/
theorem get?_erase (T : Table ρ key) (k k' : κ) :
    (T.erase k).get? k' = if k' = k then none else T.get? k' := by
  by_cases hk : k' = k
  · subst hk
    rw [if_pos rfl, get?_eq_none_iff]
    intro r hr
    simpa using (List.mem_filter.mp hr).2
  · rw [if_neg hk]
    cases hg : T.get? k' with
    | none =>
      rw [get?_eq_none_iff] at hg ⊢
      exact fun r hr => hg r (List.mem_of_mem_filter hr)
    | some r =>
      rw [get?_eq_some_iff] at hg ⊢
      exact ⟨List.mem_filter.mpr ⟨hg.1, by simpa [hg.2] using hk⟩, hg.2⟩

end Table

/-! ### Dictionaries -/

/-- An insertion-ordered dictionary. -/
structure Dict (κ ν : Type) where
  /-- The items, in insertion order. -/
  items : List (κ × ν)
  /-- No key twice. -/
  nodup : (items.map Prod.fst).Nodup

namespace Dict

variable {κ ν : Type}

/-- The dictionary without items. -/
def empty : Dict κ ν := ⟨[], List.nodup_nil⟩

/-- The items that satisfy `p`. -/
def filter (p : κ × ν → Bool) (d : Dict κ ν) : Dict κ ν :=
  ⟨d.items.filter p, d.nodup.sublist (List.filter_sublist.map Prod.fst)⟩

variable [DecidableEq κ]

instance [DecidableEq ν] : DecidableEq (Dict κ ν) := fun d d' =>
  decidable_of_iff (d.items = d'.items) (by cases d; cases d'; simp)

/-- The value of a key. -/
def get? (d : Dict κ ν) (k : κ) : Option ν := (d.items.find? fun x => decide (x.1 = k)).map Prod.snd

/-- The value of an item. -/
theorem get?_of_mem {d : Dict κ ν} {x : κ × ν} (h : x ∈ d.items) : d.get? x.1 = some x.2 := by
  have hsome : (d.items.find? fun y => decide (y.1 = x.1)).isSome :=
    List.find?_isSome.mpr ⟨x, h, decide_eq_true rfl⟩
  obtain ⟨y, hy⟩ := Option.isSome_iff_exists.mp hsome
  have hkey : y.1 = x.1 := by simpa using List.find?_some hy
  have heq : y = x := List.inj_on_of_nodup_map d.nodup (List.mem_of_find?_eq_some hy) h hkey
  unfold get?
  rw [hy, heq]
  rfl

/-- The items with `k` set to `v`. -/
def setItems (k : κ) (v : ν) : List (κ × ν) → List (κ × ν)
  | [] => [(k, v)]
  | (k', v') :: xs => if k' = k then (k, v) :: xs else (k', v') :: setItems k v xs

theorem map_fst_setItems (k : κ) (v : ν) :
    ∀ xs : List (κ × ν), (setItems k v xs).map Prod.fst =
      if k ∈ xs.map Prod.fst then xs.map Prod.fst else xs.map Prod.fst ++ [k]
  | [] => by simp [setItems]
  | (k', v') :: xs => by
    rw [setItems]
    by_cases hk : k' = k
    · simp [hk]
    · have ih := map_fst_setItems k v xs
      by_cases hm : k ∈ xs.map Prod.fst
      · rw [if_pos hm] at ih
        simp [hk, Ne.symm hk, hm, ih]
      · rw [if_neg hm] at ih
        simp [hk, Ne.symm hk, hm, ih]

/-- `d[k] = v`: in place when the key is there, at the end when it is new. -/
def set (d : Dict κ ν) (k : κ) (v : ν) : Dict κ ν :=
  ⟨setItems k v d.items, by
    rw [map_fst_setItems]
    split_ifs with h
    · exact d.nodup
    · exact List.Nodup.append d.nodup (List.nodup_singleton _) (by simpa using h)⟩

/-- `d.update(d')`. -/
def update (d d' : Dict κ ν) : Dict κ ν := d'.items.foldl (fun d x => d.set x.1 x.2) d

/-- The dictionary of a list of pairs, later ones overriding earlier ones. -/
def ofList (xs : List (κ × ν)) : Dict κ ν := xs.foldl (fun d x => d.set x.1 x.2) empty

/-- Setting a key replaces its item and keeps the others. -/
theorem mem_setItems {k : κ} {v : ν} {x : κ × ν} :
    ∀ {xs : List (κ × ν)}, (xs.map Prod.fst).Nodup →
      (x ∈ setItems k v xs ↔ x = (k, v) ∨ x ∈ xs ∧ x.1 ≠ k)
  | [], _ => by simp [setItems]
  | (k', v') :: xs, h => by
    rw [List.map_cons, List.nodup_cons] at h
    have ih := mem_setItems (k := k) (v := v) (x := x) h.2
    rw [setItems]
    by_cases hk : k' = k
    · subst hk
      rw [if_pos rfl, List.mem_cons, List.mem_cons]
      refine or_congr_right ⟨fun hx => ?_, ?_⟩
      · exact ⟨Or.inr hx, fun he => h.1 (List.mem_map.mpr ⟨x, hx, he⟩)⟩
      · rintro ⟨rfl | hx, hne⟩
        · exact absurd rfl hne
        · exact hx
    · rw [if_neg hk, List.mem_cons, ih, List.mem_cons]
      constructor
      · rintro (rfl | rfl | ⟨hx, hne⟩)
        · exact Or.inr ⟨Or.inl rfl, hk⟩
        · exact Or.inl rfl
        · exact Or.inr ⟨Or.inr hx, hne⟩
      · rintro (rfl | ⟨rfl | hx, hne⟩)
        · exact Or.inr (Or.inl rfl)
        · exact Or.inl rfl
        · exact Or.inr (Or.inr ⟨hx, hne⟩)

theorem mem_items_set {d : Dict κ ν} {k : κ} {v : ν} {x : κ × ν} :
    x ∈ (d.set k v).items ↔ x = (k, v) ∨ x ∈ d.items ∧ x.1 ≠ k :=
  mem_setItems d.nodup

/-- After a list of distinct keys has been set, its items are there, and the others that were. -/
theorem mem_items_foldl_set {x : κ × ν} :
    ∀ {xs : List (κ × ν)} (d : Dict κ ν), (xs.map Prod.fst).Nodup →
      (x ∈ (xs.foldl (fun d y => d.set y.1 y.2) d).items ↔
        x ∈ xs ∨ x ∈ d.items ∧ x.1 ∉ xs.map Prod.fst)
  | [], d, _ => by simp
  | y :: xs, d, h => by
    rw [List.map_cons, List.nodup_cons] at h
    rw [List.foldl_cons, mem_items_foldl_set _ h.2, mem_items_set, List.map_cons, List.mem_cons,
      List.mem_cons, not_or]
    constructor
    · rintro (hx | ⟨rfl | ⟨hx, hy⟩, hn⟩)
      · exact Or.inl (Or.inr hx)
      · exact Or.inl (Or.inl rfl)
      · exact Or.inr ⟨hx, hy, hn⟩
    · rintro ((rfl | hx) | ⟨hx, hy, hn⟩)
      · exact Or.inr ⟨Or.inl rfl, h.1⟩
      · exact Or.inl hx
      · exact Or.inr ⟨Or.inr ⟨hx, hy⟩, hn⟩

/-- The items of an update: those of the second dictionary, and those of the first one with a key
the second one does not have. -/
theorem mem_items_update {d d' : Dict κ ν} {x : κ × ν} :
    x ∈ (d.update d').items ↔ x ∈ d'.items ∨ x ∈ d.items ∧ x.1 ∉ d'.items.map Prod.fst :=
  mem_items_foldl_set d d'.nodup

/-- The items of a dictionary given by pairs with distinct keys. -/
theorem mem_items_ofList {xs : List (κ × ν)} (h : (xs.map Prod.fst).Nodup) {x : κ × ν} :
    x ∈ (ofList xs).items ↔ x ∈ xs := by
  rw [ofList, mem_items_foldl_set _ h]
  simp [empty]

end Dict

end Data

import Mathlib.Data.List.Dedup
import Mathlib.Data.List.Nodup

/-!
# Finite maps

A `Table` is a map with finitely many keys, as a list of entries with different keys. Its
readers go by key (`get?`); a loop over it visits the entries in an order of the runtime's
choice (`RangeOrder`).

* `get?_update`, `get?_foldl_set`: what a run of updates leaves at a key depends on the updates
  of that key only, and is the last one where they overwrite.
* `filter_flatMap_entries`: a loop over a table of groups meets the members of one group
  together and in their own order, in whatever order it visits the groups.
-/

/-- A map with finitely many keys. -/
structure Table (κ ν : Type*) where
  entries : List (κ × ν)
  nodup : (entries.map Prod.fst).Nodup

namespace Table

variable {κ ν α : Type*}

def empty : Table κ ν := ⟨[], List.nodup_nil⟩

def keys (t : Table κ ν) : List κ := t.entries.map Prod.fst

variable [DecidableEq κ]

def get? (t : Table κ ν) (key : κ) : Option ν := t.entries.lookup key

/-- The entry keeps its place if there is one of that key, and is added at the end otherwise. -/
def setEntry (key : κ) (value : ν) : List (κ × ν) → List (κ × ν)
  | [] => [(key, value)]
  | (k, v) :: es => if k = key then (k, value) :: es else (k, v) :: setEntry key value es

theorem keys_setEntry (key : κ) (value : ν) (es : List (κ × ν)) :
    (setEntry key value es).map Prod.fst =
      if key ∈ es.map Prod.fst then es.map Prod.fst else es.map Prod.fst ++ [key] := by
  induction es with
  | nil => rfl
  | cons e es ih =>
    obtain ⟨k, v⟩ := e
    unfold setEntry
    by_cases hk : k = key
    · simp [hk]
    · rw [if_neg hk, List.map_cons, ih]
      have hk' : key ≠ k := Ne.symm hk
      by_cases hmem : key ∈ es.map Prod.fst <;> simp_all

theorem nodup_setEntry {key : κ} {value : ν} {es : List (κ × ν)}
    (h : (es.map Prod.fst).Nodup) : ((setEntry key value es).map Prod.fst).Nodup := by
  rw [keys_setEntry]
  split
  · exact h
  · rename_i hkey
    exact List.nodup_append.2 ⟨h, List.nodup_singleton key, fun a ha b hb hab => by
      rw [List.mem_singleton.1 hb] at hab
      exact hkey (hab ▸ ha)⟩

def set (t : Table κ ν) (key : κ) (value : ν) : Table κ ν :=
  ⟨setEntry key value t.entries, nodup_setEntry t.nodup⟩

theorem lookup_cons (key k : κ) (v : ν) (es : List (κ × ν)) :
    ((k, v) :: es).lookup key = if key = k then some v else es.lookup key := by
  rw [List.lookup_cons]
  by_cases h : key = k
  · simp [h]
  · rw [if_neg h, beq_false_of_ne h]

@[simp] theorem get?_empty (key : κ) : (empty : Table κ ν).get? key = none := rfl

theorem get?_set (t : Table κ ν) (key key' : κ) (value : ν) :
    (t.set key value).get? key' = if key' = key then some value else t.get? key' := by
  obtain ⟨es, hes⟩ := t
  simp only [set, get?]
  clear hes
  induction es with
  | nil => exact lookup_cons key' key value []
  | cons e es ih =>
    obtain ⟨k, v⟩ := e
    unfold setEntry
    by_cases hk : k = key
    · subst hk
      rw [if_pos rfl, lookup_cons, lookup_cons]
      by_cases h : key' = k <;> simp [h]
    · rw [if_neg hk, lookup_cons, ih, lookup_cons]
      by_cases h : key' = k
      · subst h
        simp [hk]
      · simp [h]

/-- An entry is what is read at its key. -/
theorem mem_entries {t : Table κ ν} {key : κ} {value : ν} :
    (key, value) ∈ t.entries ↔ t.get? key = some value := by
  obtain ⟨es, hes⟩ := t
  simp only [get?]
  induction es with
  | nil => simp
  | cons e es ih =>
    obtain ⟨k, v⟩ := e
    rw [List.map_cons, List.nodup_cons] at hes
    rw [lookup_cons, List.mem_cons]
    by_cases hk : key = k
    · subst hk
      have hnew : (key, value) ∉ es := fun hmem => hes.1 (List.mem_map.2 ⟨_, hmem, rfl⟩)
      simp [hnew, eq_comm]
    · have hfst : (key, value) ≠ (k, v) := fun h => hk (Prod.mk.inj h).1
      rw [if_neg hk, ← ih hes.2]
      simp [hfst]

theorem mem_keys {t : Table κ ν} {key : κ} : key ∈ t.keys ↔ (t.get? key).isSome := by
  unfold keys
  rw [List.mem_map, Option.isSome_iff_exists]
  constructor
  · rintro ⟨⟨k, v⟩, he, rfl⟩
    exact ⟨v, mem_entries.1 he⟩
  · rintro ⟨v, hv⟩
    exact ⟨(key, v), mem_entries.2 hv, rfl⟩

/-! ## Runs of updates -/

/-- What an update leaves at its key. -/
def update (t : Table κ ν) (key : κ) (f : Option ν → ν) : Table κ ν := t.set key (f (t.get? key))

theorem get?_update (key : α → κ) (f : α → Option ν → ν) (k : κ) (xs : List α) :
    ∀ t : Table κ ν, (xs.foldl (fun t x => t.update (key x) (f x)) t).get? k =
      (xs.filter fun x => key x = k).foldl (fun o x => some (f x o)) (t.get? k) := by
  induction xs with
  | nil => exact fun t => rfl
  | cons x xs ih =>
    intro t
    rw [List.foldl_cons, ih, update, get?_set]
    by_cases hx : key x = k
    · rw [List.filter_cons_of_pos (by simp [hx]), List.foldl_cons, if_pos hx.symm, hx]
    · rw [List.filter_cons_of_neg (by simp [hx]), if_neg (Ne.symm hx)]

/-- Updates of one key that start from a default. -/
theorem foldl_getD {β : Type*} (g : β → α → β) (d : β) (xs : List α) :
    ∀ o : Option β, xs.foldl (fun o x => some (g (o.getD d) x)) o =
      if xs = [] then o else some (xs.foldl g (o.getD d)) := by
  induction xs with
  | nil => exact fun o => rfl
  | cons x xs ih =>
    intro o
    rw [List.foldl_cons, ih, Option.getD_some, List.foldl_cons]
    by_cases hxs : xs = [] <;> simp [hxs]

/-- **Updates that start from a default**, read at one key. -/
theorem get?_group (key : α → κ) (g : ν → α → ν) (d : ν) (k : κ) (xs : List α) :
    (xs.foldl (fun t x => t.update (key x) fun o => g (o.getD d) x) empty).get? k =
      if xs.filter (fun x => key x = k) = [] then none
      else some ((xs.filter fun x => key x = k).foldl g d) := by
  rw [get?_update key (fun x o => g (o.getD d) x), foldl_getD, get?_empty, Option.getD_none]

/-- **The last write to a key wins.** -/
theorem get?_foldl_set (key : α → κ) (value : α → ν) (k : κ) (xs : List α) :
    (xs.foldl (fun t x => t.set (key x) (value x)) empty).get? k =
      ((xs.filter fun x => key x = k).getLast?).map value := by
  have hlast : ∀ (ys : List α) (o : Option ν),
      ys.foldl (fun _ y => some (value y)) o = if ys = [] then o else (ys.getLast?).map value := by
    intro ys
    induction ys with
    | nil => exact fun o => rfl
    | cons y ys ih =>
      intro o
      rw [List.foldl_cons, ih]
      cases ys with
      | nil => rfl
      | cons z zs => simp
  have hfold := get?_update key (fun x _ => value x) k xs empty
  rw [hlast, get?_empty] at hfold
  refine hfold.trans ?_
  cases hxs : xs.filter fun x => key x = k <;> simp

/-! ## Loops over a table -/

/-- The order in which each loop over a map visits the entries. Every loop of a program run has
a number path of its own, so that the runtime is free to choose again each time. -/
structure RangeOrder where
  visit : List ℕ → {α : Type} → List α → List α
  perm : ∀ (loop : List ℕ) {α : Type} (xs : List α), (visit loop xs).Perm xs

/-- The last entry first. -/
def RangeOrder.reversed : RangeOrder :=
  ⟨fun _ _ xs => xs.reverse, fun _ _ xs => List.reverse_perm xs⟩

theorem filter_flatMap_nil {key : α → κ} {k : κ} {es : List (κ × List α)}
    (hkey : ∀ e ∈ es, ∀ x ∈ e.2, key x = e.1) (hk : k ∉ es.map Prod.fst) :
    (es.flatMap Prod.snd).filter (fun x => key x = k) = [] := by
  rw [List.filter_eq_nil_iff]
  intro x hx
  obtain ⟨e, he, hxe⟩ := List.mem_flatMap.1 hx
  have hkx : key x = e.1 := hkey e he x hxe
  have hne : e.1 ≠ k := fun h => hk (List.mem_map.2 ⟨e, he, h⟩)
  simpa [hkx] using hne

/-- **The members of one group**, met in a loop over a table of groups. -/
theorem filter_flatMap_entries {t : Table κ (List α)} {es : List (κ × List α)}
    (hes : es.Perm t.entries) {key : α → κ} (hkey : ∀ e ∈ es, ∀ x ∈ e.2, key x = e.1) (k : κ) :
    (es.flatMap Prod.snd).filter (fun x => key x = k) = (t.get? k).getD [] := by
  have hnd : (es.map Prod.fst).Nodup := (hes.map Prod.fst).nodup_iff.2 t.nodup
  have hmem : ∀ v, (k, v) ∈ es ↔ t.get? k = some v := fun v => hes.mem_iff.trans mem_entries
  cases hget : t.get? k with
  | none =>
    refine filter_flatMap_nil hkey fun hk => ?_
    obtain ⟨⟨k', v⟩, he, rfl⟩ := List.mem_map.1 hk
    rw [(hmem v).1 he] at hget
    cases hget
  | some v =>
    -- the entry of the group, with the others on its two sides
    obtain ⟨pre, post, hsplit⟩ := List.append_of_mem ((hmem v).2 hget)
    subst hsplit
    simp only [List.map_append, List.map_cons] at hnd
    obtain ⟨-, hpost, hdisj⟩ := List.nodup_append.1 hnd
    have hpre : k ∉ pre.map Prod.fst := fun h => hdisj k h k List.mem_cons_self rfl
    have hv : v.filter (fun x => key x = k) = v := by
      rw [List.filter_eq_self]
      intro x hx
      have hkx := hkey (k, v) (by simp) x hx
      exact decide_eq_true hkx
    rw [List.flatMap_append, List.flatMap_cons, List.filter_append, List.filter_append, hv,
      filter_flatMap_nil (fun e he => hkey e (by simp [he])) hpre,
      filter_flatMap_nil (fun e he => hkey e (by simp [he])) (List.nodup_cons.1 hpost).1]
    simp

end Table

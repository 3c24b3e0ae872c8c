import K8sDev.Proof.Allocate
import Mathlib.Data.Finset.Card

/-!
# What `PreferredAllocation` computes

`preferred_exact`: for a size that is not negative, the request is refused exactly when it
cannot be met (`Manager.Infeasible`), and otherwise answered with the required devices in
the order they are first named, then the first other devices offered.

Each loop is first put in closed form (`available_isOk`, `mustInclude_eq`, `fill_eq`).
-/

namespace K8sDev.DevicePlugin

variable {m : Manager}

/-! ## First occurrences -/

theorem nodup_eraseDups (ids : List String) : ids.eraseDups.Nodup := by
  cases ids with
  | nil => exact List.nodup_nil
  | cons id ids =>
    rw [List.eraseDups_cons, List.nodup_cons]
    refine ⟨?_, nodup_eraseDups (ids.filter fun b => !b == id)⟩
    simp [List.mem_eraseDups]
termination_by ids.length
decreasing_by simpa using Nat.lt_succ_of_le (List.length_filter_le _ ids)

theorem length_eraseDups (ids : List String) : ids.eraseDups.length = ids.toFinset.card := by
  rw [← List.toFinset_card_of_nodup (nodup_eraseDups ids)]
  congr 1
  ext x
  rw [List.mem_toFinset, List.mem_toFinset, List.mem_eraseDups]

/-- The elements of `ids` that are not in `selected`, each once, in the order in which they
occur first. -/
def others (selected ids : List String) : List String :=
  (ids.filter (· ∉ selected)).eraseDups

@[simp] theorem others_nil (selected : List String) : others selected [] = [] := rfl

@[simp] theorem others_nil_left (ids : List String) : others [] ids = ids.eraseDups := by
  simp [others]

theorem others_cons_mem {selected : List String} {id : String} (h : id ∈ selected)
    (ids : List String) : others selected (id :: ids) = others selected ids := by
  simp [others, h]

theorem others_cons {selected : List String} {id : String} (h : id ∉ selected)
    (ids : List String) :
    others selected (id :: ids) = id :: others (selected ++ [id]) ids := by
  unfold others
  rw [List.filter_cons_of_pos (by simpa using h), List.eraseDups_cons, List.filter_filter]
  congr 2
  apply List.filter_congr
  intro x _
  by_cases h1 : x = id <;> by_cases h2 : x ∈ selected <;> simp [h1, h2]

theorem mem_others {selected ids : List String} {x : String} :
    x ∈ others selected ids ↔ x ∈ ids ∧ x ∉ selected := by
  simp [others, List.mem_eraseDups]

/-! ## The loops in closed form -/

theorem available_isOk : ∀ {ids acc : List String},
    (∃ available, m.available acc ids = .ok available) ↔ ∀ x ∈ ids, m.Ready x := by
  intro ids
  induction ids with
  | nil => intro acc; simp [Manager.available]
  | cons id ids ih =>
    intro acc
    unfold Manager.available
    rw [List.forall_mem_cons]
    split
    · rename_i hd
      constructor
      · intro h
        obtain ⟨_, h⟩ := h
        cases h
      · intro h
        obtain ⟨d, hd', -⟩ := h.1
        rw [hd] at hd'
        cases hd'
    · rename_i d hd
      split
      · rename_i hhealth
        constructor
        · intro h
          obtain ⟨_, h⟩ := h
          cases h
        · intro h
          obtain ⟨d', hd', hhealth'⟩ := h.1
          rw [hd] at hd'
          obtain rfl := Option.some.inj hd'
          exact absurd hhealth' hhealth
      · rename_i hhealth
        rw [ih, and_iff_right]
        exact ⟨d, hd, not_not.1 hhealth⟩

theorem mustInclude_eq {available : List String} : ∀ {ids selected : List String},
    (∀ x ∈ ids, x ∈ available) →
      mustInclude available selected ids = .ok (selected ++ others selected ids) := by
  intro ids
  induction ids with
  | nil => intro selected _; simp [mustInclude]
  | cons id ids ih =>
    intro selected h
    rw [List.forall_mem_cons] at h
    unfold mustInclude
    rw [if_neg (not_not.2 h.1)]
    split
    · rename_i hsel
      rw [ih h.2, others_cons_mem hsel]
    · rename_i hsel
      rw [ih h.2, others_cons hsel, List.append_assoc, List.singleton_append]

theorem mustInclude_error {available : List String} : ∀ {ids selected : List String},
    (∃ x ∈ ids, x ∉ available) → ∃ e, mustInclude available selected ids = .error e := by
  intro ids
  induction ids with
  | nil => rintro selected ⟨x, hx, -⟩; cases hx
  | cons id ids ih =>
    rintro selected ⟨x, hx, hav⟩
    unfold mustInclude
    split
    · exact ⟨_, rfl⟩
    · rename_i hid
      have hrest : ∃ x ∈ ids, x ∉ available := by
        rcases List.mem_cons.1 hx with rfl | hx
        · exact absurd hav hid
        · exact ⟨x, hx, hav⟩
      split
      · exact ih hrest
      · exact ih hrest

theorem fill_eq (size : ℕ) : ∀ {ids selected : List String}, selected.length ≤ size →
    fill size selected ids = selected ++ (others selected ids).take (size - selected.length) := by
  intro ids
  induction ids with
  | nil => intro selected _; simp [fill]
  | cons id ids ih =>
    intro selected h
    unfold fill
    split
    · rename_i hfull
      simp [hfull]
    · rename_i hroom
      split
      · rename_i hsel
        rw [ih h, others_cons_mem hsel]
      · rename_i hsel
        have hroom' : size - selected.length = size - (selected ++ [id]).length + 1 := by
          rw [List.length_append, List.length_singleton]
          omega
        rw [ih (by rw [List.length_append, List.length_singleton]; omega), others_cons hsel, hroom',
          List.take_succ_cons, List.append_assoc, List.singleton_append]

/-! ## The allocation -/

/-- The request cannot be met: an offered device is unknown or not healthy, a required one is
not offered, more are required than asked for, or fewer are offered. -/
def Manager.Infeasible (m : Manager) (request : PreferredRequest) : Prop :=
  (∃ x ∈ request.availableDeviceIDs, ¬ m.Ready x) ∨
  (∃ x ∈ request.mustIncludeDeviceIDs, x ∉ request.availableDeviceIDs) ∨
  request.allocationSize < request.mustIncludeDeviceIDs.toFinset.card ∨
  (request.availableDeviceIDs.toFinset.card : ℤ) < request.allocationSize

/-- The required devices in the order of their first occurrences, then the first other devices
offered. -/
def PreferredRequest.preferred (request : PreferredRequest) : List String :=
  let must := request.mustIncludeDeviceIDs.eraseDups
  must ++ (others must request.availableDeviceIDs).take (request.allocationSize.toNat - must.length)

/-- The required devices and the other ones together are the offered ones. -/
theorem length_others {must ids : List String} (hsub : ∀ x ∈ must, x ∈ ids) :
    must.eraseDups.length + (others must.eraseDups ids).length = ids.toFinset.card := by
  have hnd : (must.eraseDups ++ others must.eraseDups ids).Nodup := by
    refine List.nodup_append.2 ⟨nodup_eraseDups must, nodup_eraseDups _, ?_⟩
    intro x hx y hy hxy
    subst hxy
    exact (mem_others.1 hy).2 hx
  rw [← List.length_append, ← List.toFinset_card_of_nodup hnd]
  congr 1
  ext x
  rw [List.mem_toFinset, List.mem_toFinset, List.mem_append, mem_others, List.mem_eraseDups]
  have := hsub x
  tauto

theorem preferred_nodup (request : PreferredRequest) : request.preferred.Nodup := by
  refine List.nodup_append.2 ⟨nodup_eraseDups _, (nodup_eraseDups _).take, ?_⟩
  intro x hx y hy hxy
  subst hxy
  exact (mem_others.1 (List.mem_of_mem_take hy)).2 hx

theorem preferred_length {request : PreferredRequest} (hsize : 0 ≤ request.allocationSize)
    (h : ¬ m.Infeasible request) : (request.preferred.length : ℤ) = request.allocationSize := by
  simp only [Manager.Infeasible, not_or, not_exists, not_and, not_not, not_lt] at h
  obtain ⟨-, hsub, hmust, hav⟩ := h
  have hlen := length_others hsub
  have hcard := length_eraseDups request.mustIncludeDeviceIDs
  unfold PreferredRequest.preferred
  simp only [List.length_append, List.length_take]
  omega

/-- **What `PreferredAllocation` computes.** -/
theorem preferred_eq {request : PreferredRequest} (hsize : 0 ≤ request.allocationSize)
    (h : ¬ m.Infeasible request) : m.preferredAllocation request = .ok request.preferred := by
  have hlen := preferred_length hsize h
  simp only [Manager.Infeasible, not_or, not_exists, not_and, not_not, not_lt] at h
  obtain ⟨hready, hsub, hmust, hav⟩ := h
  obtain ⟨available, havailable⟩ : ∃ available,
      m.available [] request.availableDeviceIDs = .ok available := available_isOk.2 hready
  have hmem : ∀ x, x ∈ available ↔ x ∈ request.availableDeviceIDs := fun x => by
    simpa using (available_ok havailable).2 x
  have hcard := length_eraseDups request.mustIncludeDeviceIDs
  unfold Manager.preferredAllocation
  simp only [havailable]
  rw [if_neg (by omega), mustInclude_eq (fun x hx => (hmem x).2 (hsub x hx))]
  simp only [List.nil_append, others_nil_left]
  rw [if_neg (by omega), fill_eq _ (by omega)]
  have hfill : request.preferred.length = request.allocationSize.toNat := by omega
  exact if_neg (not_not.2 hfill)

/-- A request that cannot be met is refused. -/
theorem preferred_error {request : PreferredRequest} (hsize : 0 ≤ request.allocationSize)
    (h : m.Infeasible request) : ∃ e, m.preferredAllocation request = .error e := by
  unfold Manager.preferredAllocation
  split
  · exact ⟨_, rfl⟩
  · rename_i available havailable
    have hready := (available_isOk (m := m)).1 ⟨available, havailable⟩
    have hmem : ∀ x, x ∈ available ↔ x ∈ request.availableDeviceIDs := fun x => by
      simpa using (available_ok havailable).2 x
    rw [if_neg (by omega)]
    simp only
    by_cases hsub : ∀ x ∈ request.mustIncludeDeviceIDs, x ∈ request.availableDeviceIDs
    · rw [mustInclude_eq (fun x hx => (hmem x).2 (hsub x hx))]
      simp only [List.nil_append, others_nil_left]
      have hcard := length_eraseDups request.mustIncludeDeviceIDs
      have hlen := length_others hsub
      split
      · exact ⟨_, rfl⟩
      · rename_i hmust
        rw [fill_eq _ (by omega)]
        -- the sizes leave only too few devices
        have hfew : (request.availableDeviceIDs.toFinset.card : ℤ) < request.allocationSize := by
          rcases h with ⟨x, hx, hnot⟩ | ⟨x, hx, hnot⟩ | hmany | hfew
          · exact absurd (hready x hx) hnot
          · exact absurd (hsub x hx) hnot
          · omega
          · exact hfew
        rw [if_pos]
        · exact ⟨_, rfl⟩
        · rw [List.length_append, List.length_take]
          omega
    · push Not at hsub
      obtain ⟨x, hx, hnot⟩ := hsub
      obtain ⟨e, he⟩ : ∃ e, mustInclude available [] request.mustIncludeDeviceIDs = .error e :=
        mustInclude_error ⟨x, hx, fun h => hnot ((hmem x).1 h)⟩
      rw [he]
      exact ⟨e, rfl⟩

/-- **`PreferredAllocation` meets its specification.** -/
theorem preferred_exact {request : PreferredRequest} (hsize : 0 ≤ request.allocationSize) :
    ((∃ e, m.preferredAllocation request = .error e) ↔ m.Infeasible request) ∧
    (¬ m.Infeasible request → m.preferredAllocation request = .ok request.preferred ∧
      (request.preferred.length : ℤ) = request.allocationSize ∧ request.preferred.Nodup) := by
  refine ⟨⟨?_, preferred_error hsize⟩, fun h => ?_⟩
  · rintro ⟨e, he⟩
    by_contra hfeasible
    rw [preferred_eq hsize hfeasible] at he
    cases he
  · exact ⟨preferred_eq hsize h, preferred_length hsize h, preferred_nodup request⟩

/-- A request with repeats on both lists, met by the two required devices and the first other. -/
def repeating : PreferredRequest :=
  ⟨["fpga-2", "fpga-0", "fpga-2", "fpga-1"], ["fpga-1", "fpga-0", "fpga-1"], 3⟩

theorem preferred_exact_repeating :
    (newFakeResourceManager 3).preferredAllocation repeating = .ok ["fpga-1", "fpga-0", "fpga-2"] ∧
      ¬ (newFakeResourceManager 3).Infeasible repeating := by
  have h : (newFakeResourceManager 3).preferredAllocation repeating =
      .ok ["fpga-1", "fpga-0", "fpga-2"] := by decide
  refine ⟨h, fun hinf => ?_⟩
  obtain ⟨e, he⟩ := (preferred_exact (by decide)).1.2 hinf
  rw [h] at he
  cases he

end K8sDev.DevicePlugin

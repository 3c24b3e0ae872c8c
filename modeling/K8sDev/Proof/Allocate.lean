import K8sDev.Spec.Allocate
import Mathlib.Data.List.Forall2
import Mathlib.Data.List.Nodup

/-!
# Preferred allocations are allocatable

What each of the two validators accepts, and that they agree.

* `preferred_spec`: a preferred allocation is free of duplicates and consists of healthy
  devices among the available ones.
* `validateAllocation_iff`: `ValidateAllocation` accepts exactly lists of healthy devices in
  which no device occurs twice, within a container or across.
* `preferred_allocatable`: hence a preferred allocation can be allocated unless two
  containers were offered the same device.
-/

namespace K8sDev.DevicePlugin

variable {m : Manager}

/-- The device is known and healthy. -/
def Manager.Ready (m : Manager) (deviceID : String) : Prop :=
  ∃ d, m.device? deviceID = some d ∧ d.health = healthy

theorem nodup_snoc {l : List String} {x : String} (h : l.Nodup) (hx : x ∉ l) : (l ++ [x]).Nodup := by
  simpa using h.concat hx

/-! ## The loops of `PreferredAllocation` -/

theorem available_ok : ∀ {ids acc available : List String},
    m.available acc ids = .ok available →
      (∀ x ∈ ids, m.Ready x) ∧ ∀ x, x ∈ available ↔ x ∈ acc ∨ x ∈ ids := by
  intro ids
  induction ids with
  | nil =>
    intro acc available h
    obtain rfl := Except.ok.inj h
    exact ⟨by simp, by simp⟩
  | cons id ids ih =>
    intro acc available h
    unfold Manager.available at h
    split at h
    · cases h
    · rename_i d hd
      split at h
      · cases h
      · rename_i hhealth
        obtain ⟨h1, h2⟩ := ih h
        refine ⟨?_, ?_⟩
        · intro x hx
          rcases List.mem_cons.1 hx with rfl | hx
          · exact ⟨d, hd, not_not.1 hhealth⟩
          · exact h1 x hx
        · intro x
          rw [h2, List.mem_insert_iff, List.mem_cons]
          tauto

theorem mustInclude_ok {available : List String} : ∀ {ids selected selected' : List String},
    mustInclude available selected ids = .ok selected' → selected.Nodup →
      (∀ x ∈ selected, x ∈ available) → selected'.Nodup ∧ ∀ x ∈ selected', x ∈ available := by
  intro ids
  induction ids with
  | nil =>
    intro selected selected' h hnd hsub
    obtain rfl := Except.ok.inj h
    exact ⟨hnd, hsub⟩
  | cons id ids ih =>
    intro selected selected' h hnd hsub
    unfold mustInclude at h
    split at h
    · cases h
    · rename_i hav
      split at h
      · exact ih h hnd hsub
      · rename_i hsel
        refine ih h (nodup_snoc hnd hsel) fun x hx => ?_
        rcases List.mem_append.1 hx with hx | hx
        · exact hsub x hx
        · obtain rfl := List.mem_singleton.1 hx
          exact not_not.1 hav

theorem fill_ok (size : ℕ) : ∀ (ids : List String) {selected : List String}, selected.Nodup →
    (fill size selected ids).Nodup ∧ ∀ x ∈ fill size selected ids, x ∈ selected ∨ x ∈ ids := by
  intro ids
  induction ids with
  | nil => intro selected hnd; exact ⟨hnd, fun x hx => .inl hx⟩
  | cons id ids ih =>
    intro selected hnd
    unfold fill
    split
    · exact ⟨hnd, fun x hx => .inl hx⟩
    · split
      · obtain ⟨h1, h2⟩ := ih hnd
        exact ⟨h1, fun x hx => (h2 x hx).imp_right (List.mem_cons_of_mem _)⟩
      · rename_i hsel
        obtain ⟨h1, h2⟩ := ih (nodup_snoc hnd hsel)
        refine ⟨h1, fun x hx => ?_⟩
        rcases h2 x hx with hx | hx
        · rcases List.mem_append.1 hx with hx | hx
          · exact .inl hx
          · obtain rfl := List.mem_singleton.1 hx
            exact .inr List.mem_cons_self
        · exact .inr (List.mem_cons_of_mem _ hx)

/-- A list that can be given to one container of `request`. -/
def Manager.Suits (m : Manager) (request : PreferredRequest) (ids : List String) : Prop :=
  ids.Nodup ∧ ∀ x ∈ ids, x ∈ request.availableDeviceIDs ∧ m.Ready x

/-- **What `PreferredAllocation` returns.** -/
theorem preferred_spec {request : PreferredRequest} {ids : List String}
    (h : m.preferredAllocation request = .ok ids) : m.Suits request ids := by
  unfold Manager.preferredAllocation at h
  split at h
  · cases h
  · rename_i available hav
    obtain ⟨hready, hmem⟩ := available_ok hav
    split at h
    · cases h
    · simp only at h
      split at h
      · cases h
      · rename_i selected hsel
        obtain ⟨hnd, hsub⟩ := mustInclude_ok hsel .nil (by simp)
        split at h
        · cases h
        · split at h
          · cases h
          · obtain rfl := Outcome.ok.inj h
            obtain ⟨hnd', hsub'⟩ := fill_ok request.allocationSize.toNat request.availableDeviceIDs hnd
            refine ⟨hnd', fun x hx => ?_⟩
            have hx' : x ∈ request.availableDeviceIDs := by
              rcases hsub' x hx with hx | hx
              · simpa using (hmem x).1 (hsub x hx)
              · exact hx
            exact ⟨hx', hready x hx'⟩

/-- `GetPreferredAllocation` returns a list for each container. -/
theorem getPreferred_spec : ∀ {requests : List PreferredRequest} {lists : List (List String)},
    getPreferredAllocation m requests = .ok lists → List.Forall₂ m.Suits requests lists := by
  intro requests
  induction requests with
  | nil =>
    intro lists h
    obtain rfl := Outcome.ok.inj h
    exact .nil
  | cons request requests ih =>
    intro lists h
    unfold getPreferredAllocation at h
    split at h
    · cases h
    · cases h
    · rename_i ids hids
      split at h
      · cases h
      · cases h
      · rename_i rest hrest
        obtain rfl := Outcome.ok.inj h
        exact .cons (preferred_spec hids) (ih hrest)

/-! ## The loops of `ValidateAllocation` -/

/-- The inner loop accepts healthy devices that nobody has requested before, and adds
them to the requested ones. -/
theorem validateContainer_iff {i : ℕ} : ∀ {ids : List String} {requested r : String → Option ℕ},
    m.validateContainer i requested ids = .ok r ↔
      (ids.Nodup ∧ ∀ x ∈ ids, m.Ready x ∧ requested x = none) ∧
        r = fun x => if x ∈ ids then some i else requested x := by
  intro ids
  induction ids with
  | nil =>
    intro requested r
    simp only [Manager.validateContainer, Except.ok.injEq]
    simp [eq_comm]
  | cons id ids ih =>
    intro requested r
    unfold Manager.validateContainer
    split
    · rename_i hd
      -- unknown
      refine ⟨nofun, fun h => ?_⟩
      obtain ⟨d, hd', -⟩ := (h.1.2 id List.mem_cons_self).1
      rw [hd] at hd'
      cases hd'
    · rename_i d hd
      split
      · rename_i hhealth
        -- not healthy
        refine ⟨nofun, fun h => ?_⟩
        obtain ⟨d', hd', hhealth'⟩ := (h.1.2 id List.mem_cons_self).1
        rw [hd] at hd'
        obtain rfl := Option.some.inj hd'
        exact absurd hhealth' hhealth
      · rename_i hhealth
        split
        · rename_i prev hprev
          -- named before, in this container or an earlier one
          refine ⟨nofun, fun h => ?_⟩
          rw [(h.1.2 id List.mem_cons_self).2] at hprev
          cases hprev
        · rename_i hnone
          have hupdate : ∀ x, Function.update requested id (some i) x = none ↔
              x ≠ id ∧ requested x = none := by
            intro x
            by_cases hx : x = id
            · subst hx; simp
            · simp [hx]
          have hfun : (fun x => if x ∈ ids then some i else Function.update requested id (some i) x) =
              fun x => if x ∈ id :: ids then some i else requested x := by
            funext x
            by_cases hx : x = id
            · subst hx; simp
            · simp [hx]
          -- accepted: the rest is checked with this device taken
          rw [ih, hfun]
          refine and_congr_left fun _ => ?_
          simp only [hupdate, List.nodup_cons, List.forall_mem_cons]
          constructor
          · rintro ⟨hnd, hall⟩
            refine ⟨⟨fun hmem => (hall id hmem).2.1 rfl, hnd⟩,
              ⟨⟨d, hd, not_not.1 hhealth⟩, hnone⟩, fun x hx => ⟨(hall x hx).1, (hall x hx).2.2⟩⟩
          · rintro ⟨⟨hmem, hnd⟩, -, hall⟩
            refine ⟨hnd, fun x hx => ⟨(hall x hx).1, ?_, (hall x hx).2⟩⟩
            rintro rfl
            exact hmem hx

/-- The outer loop accepts containers with disjoint lists of devices that are healthy and have
not been requested before. -/
theorem validateContainers_iff : ∀ {requests : List AllocateRequest} {i : ℕ}
    {requested : String → Option ℕ}, m.validateContainers i requested requests = .ok () ↔
      (∀ c ∈ requests, c.devicesIDs.Nodup ∧ ∀ x ∈ c.devicesIDs, m.Ready x ∧ requested x = none) ∧
        requests.Pairwise fun c c' => c.devicesIDs.Disjoint c'.devicesIDs := by
  intro requests
  induction requests with
  | nil => intro i requested; simp [Manager.validateContainers]
  | cons c requests ih =>
    intro i requested
    unfold Manager.validateContainers
    rw [List.forall_mem_cons, List.pairwise_cons]
    split
    · rename_i e he
      refine ⟨nofun, fun h => ?_⟩
      rw [validateContainer_iff.2 ⟨h.1.1, rfl⟩] at he
      cases he
    · rename_i r hr
      obtain ⟨hc, rfl⟩ := validateContainer_iff.1 hr
      have hnone : ∀ x, (if x ∈ c.devicesIDs then some i else requested x) = none ↔
          x ∉ c.devicesIDs ∧ requested x = none := by
        intro x
        by_cases hx : x ∈ c.devicesIDs <;> simp [hx]
      rw [ih]
      simp only [hnone]
      constructor
      · rintro ⟨hall, hpair⟩
        refine ⟨⟨hc, fun c' hc' => ⟨(hall c' hc').1, fun x hx => ?_⟩⟩, fun c' hc' x hx hx' => ?_, hpair⟩
        · exact ⟨((hall c' hc').2 x hx).1, ((hall c' hc').2 x hx).2.2⟩
        · exact ((hall c' hc').2 x hx').2.1 hx
      · rintro ⟨⟨-, hall⟩, hdisj, hpair⟩
        refine ⟨fun c' hc' => ⟨(hall c' hc').1, fun x hx => ?_⟩, hpair⟩
        exact ⟨((hall c' hc').2 x hx).1, fun hx' => hdisj c' hc' hx' hx, ((hall c' hc').2 x hx).2⟩

/-- **What `ValidateAllocation` accepts.** -/
theorem validateAllocation_iff {requests : List AllocateRequest} :
    m.validateAllocation requests = .ok () ↔
      (∀ c ∈ requests, c.devicesIDs.Nodup ∧ ∀ x ∈ c.devicesIDs, m.Ready x) ∧
        requests.Pairwise fun c c' => c.devicesIDs.Disjoint c'.devicesIDs := by
  unfold Manager.validateAllocation
  rw [validateContainers_iff]
  simp

/-- `Allocate` succeeds exactly when the request is valid. -/
theorem allocate_iff {requests : List AllocateRequest} :
    (∃ responses, allocate m requests = .ok responses) ↔ m.validateAllocation requests = .ok () := by
  unfold allocate
  split
  · rename_i e he
    rw [he]
    simp
  · rename_i h
    rw [h]
    simp

/-! ## The two agree -/

/-- Every returned list suits a request. -/
theorem suits_of_mem {requests : List PreferredRequest} {lists : List (List String)}
    (h : List.Forall₂ m.Suits requests lists) {ids : List String} (hids : ids ∈ lists) :
    ∃ request ∈ requests, m.Suits request ids := by
  induction h with
  | nil => cases hids
  | @cons request ids' requests lists hsuits _ ih =>
    rcases List.mem_cons.1 hids with rfl | hids
    · exact ⟨request, List.mem_cons_self, hsuits⟩
    · obtain ⟨r, hr, hs⟩ := ih hids
      exact ⟨r, List.mem_cons_of_mem _ hr, hs⟩

/-- Different offers lead to different devices. -/
theorem disjoint_of_available {requests : List PreferredRequest} {lists : List (List String)}
    (h : List.Forall₂ m.Suits requests lists)
    (hdisj : requests.Pairwise fun r r' => r.availableDeviceIDs.Disjoint r'.availableDeviceIDs) :
    lists.Pairwise List.Disjoint := by
  induction h with
  | nil => exact .nil
  | @cons request ids requests lists hsuits hrest ih =>
    rw [List.pairwise_cons] at hdisj ⊢
    refine ⟨fun ids' hids' x hx hx' => ?_, ih hdisj.2⟩
    obtain ⟨r, hr, hs⟩ := suits_of_mem hrest hids'
    exact hdisj.1 r hr (hsuits.2 x hx).1 (hs.2 x hx').1

/-- **Preferred allocations are allocatable.** `Allocate` accepts the lists that
`GetPreferredAllocation` returned exactly when no device was returned for two containers; and
always when the containers were offered different devices. -/
theorem preferred_allocatable {requests : List PreferredRequest} {lists : List (List String)}
    (h : getPreferredAllocation m requests = .ok lists) :
    ((∃ responses, allocate m (lists.map AllocateRequest.mk) = .ok responses) ↔
      lists.Pairwise List.Disjoint) ∧
    ((requests.map PreferredRequest.availableDeviceIDs).Pairwise List.Disjoint →
      ∃ responses, allocate m (lists.map AllocateRequest.mk) = .ok responses) := by
  have hspec := getPreferred_spec h
  have hvalid : (∃ responses, allocate m (lists.map AllocateRequest.mk) = .ok responses) ↔
      lists.Pairwise List.Disjoint := by
    rw [allocate_iff, validateAllocation_iff, List.pairwise_map]
    refine and_iff_right fun c hc => ?_
    obtain ⟨ids, hids, rfl⟩ := List.mem_map.1 hc
    obtain ⟨request, -, hsuits⟩ := suits_of_mem hspec hids
    exact ⟨hsuits.1, fun x hx => (hsuits.2 x hx).2⟩
  refine ⟨hvalid, fun hdisj => hvalid.2 ?_⟩
  exact disjoint_of_available hspec (List.pairwise_map.1 hdisj)

/-- Two containers that share an offer, with a repeated and a required device. -/
def sharing : List PreferredRequest :=
  [⟨["fpga-0", "fpga-1", "fpga-0"], ["fpga-1"], 1⟩, ⟨["fpga-1", "fpga-2"], ["fpga-2", "fpga-2"], 1⟩]

theorem sharing_preferred :
    getPreferredAllocation (newFakeResourceManager 3) sharing = .ok [["fpga-1"], ["fpga-2"]] := by
  decide

theorem preferred_allocatable_sharing :
    ∃ responses, allocate (newFakeResourceManager 3)
      ([["fpga-1"], ["fpga-2"]].map AllocateRequest.mk) = .ok responses :=
  (preferred_allocatable sharing_preferred).1.2 (by simp)

end K8sDev.DevicePlugin

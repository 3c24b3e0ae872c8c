import K8sDev.Spec.Rpc
import K8sDev.Proof.Watch
import K8sDev.Proof.Preferred

/-!
# What the allocation calls do

* `allocate_exact`: `Allocate` succeeds exactly on lists of healthy devices without repetition,
  answers each container with the devices it asked for, and changes nothing.
* `getPreferred_total`: `GetPreferredAllocation` answers, or panics on a negative size that it
  gets to (`Manager.Guarded` says when it does not).
-/

namespace K8sDev.DevicePlugin

variable {m : Manager} {n : ℕ} {s t : Server}

/-! ## The devices of a run -/

theorem updateHealth_ids (m : Manager) (id health : String) :
    (m.updateHealth id health).2.devices.map Device.id = m.devices.map Device.id := by
  rcases updateHealth_cases m id health with heq | ⟨heq, -⟩
  · rw [heq]
  · rw [heq]
    exact setHealth_ids m id health

/-- Only `UpdateHealth` changes the manager. -/
theorem call_manager (m : Manager) (a : Rpc) :
    (a.call m).2 = m ∨ ∃ id health, (a.call m).2 = (m.updateHealth id health).2 := by
  cases a with
  | updateHealth id health => exact .inr ⟨id, health, rfl⟩
  | allocate => exact .inl rfl
  | getPreferredAllocation => exact .inl rfl

theorem step_eq_some {a : Rpc} (h : s.step a = some t) :
    s.alive = true ∧ t.manager = (a.call s.manager).2 ∧
      t.alive = !(a.call s.manager).1.panicked := by
  unfold Server.step at h
  split at h
  · rename_i halive
    obtain rfl := Option.some.inj h
    exact ⟨halive, rfl, rfl⟩
  · cases h

theorem rpcs_ids (h : (rpcs n).Reachable s) :
    s.manager.devices.map Device.id = (List.range n).map deviceID := by
  refine Lts.Reachable.invariant (P := fun s : Server =>
    s.manager.devices.map Device.id = (List.range n).map deviceID) ?_ ?_ h
  · rintro s rfl
    simp [newFakeResourceManager, Function.comp_def]
  · intro s a t _ hs hst
    rw [(step_eq_some hst).2.1]
    rcases call_manager s.manager a with heq | ⟨id, health, heq⟩
    · rw [heq, hs]
    · rw [heq, updateHealth_ids, hs]

/-- A known device has one of the names that `newFakeResourceManager` gives. -/
theorem ready_deviceID (h : (rpcs n).Reachable s) {id : String} (hid : s.manager.Ready id) :
    ∃ i < n, id = deviceID i := by
  obtain ⟨d, hd, -⟩ := hid
  have hmem : id ∈ s.manager.devices.map Device.id := by
    have heq : d.id = id := by simpa using List.find?_some hd
    rw [← heq]
    exact List.mem_map_of_mem (List.mem_of_find?_eq_some hd)
  rw [rpcs_ids h] at hmem
  obtain ⟨i, hi, rfl⟩ := List.mem_map.1 hmem
  exact ⟨i, List.mem_range.1 hi, rfl⟩

/-- No name contains a comma. -/
theorem comma_not_mem_deviceID (i : ℕ) : ',' ∉ (deviceID i).toList := by
  unfold deviceID
  rw [String.toList_append, List.mem_append, not_or]
  refine ⟨by decide, fun h => ?_⟩
  rw [Nat.toList_repr] at h
  have hdigit := Nat.isDigit_of_mem_toDigits (by decide) (by decide) h
  revert hdigit
  decide

/-! ## `Allocate` -/

/-- Splitting undoes joining, for names without commas. -/
theorem splitCommas_intercalate {ids : List String} (h : ∀ id ∈ ids, ',' ∉ id.toList)
    (hne : ids ≠ []) : splitCommas (",".intercalate ids) = ids := by
  have hsplit := String.toList_split_intercalate h
  rw [if_neg hne, String.toList_split_char] at hsplit
  exact hsplit

/-- What `ValidateAllocation` accepts, by all the ids of the request. -/
theorem validateAllocation_flat {requests : List AllocateRequest} :
    m.validateAllocation requests = .ok () ↔
      (∀ id ∈ requests.flatMap AllocateRequest.devicesIDs, m.Ready id) ∧
        (requests.flatMap AllocateRequest.devicesIDs).Nodup := by
  rw [validateAllocation_iff, List.nodup_flatMap]
  simp only [List.mem_flatMap, forall_exists_index, and_imp]
  constructor
  · rintro ⟨hall, hdisj⟩
    exact ⟨fun id c hc hid => (hall c hc).2 id hid, fun c hc => (hall c hc).1, hdisj⟩
  · rintro ⟨hready, hnodup, hdisj⟩
    exact ⟨fun c hc => ⟨hnodup c hc, fun id hid => hready id c hc hid⟩, hdisj⟩

/-- The answer, when there is one. -/
theorem allocate_eq_ok {requests : List AllocateRequest} {responses : List AllocateResponse}
    (h : allocate m requests = .ok responses) :
    m.validateAllocation requests = .ok () ∧ responses = requests.map fun containerRequest =>
      ⟨[("DEMO_DEVICE_IDS", ",".intercalate containerRequest.devicesIDs)]⟩ := by
  unfold allocate at h
  split at h
  · cases h
  · rename_i hvalid
    exact ⟨hvalid, (Except.ok.inj h).symm⟩

/-- **`Allocate` validates exactly**, and each container can read its devices back. -/
theorem allocate_exact (h : (rpcs n).Reachable s) (requests : List AllocateRequest) :
    ((∃ responses, allocate s.manager requests = .ok responses) ↔
      (∀ id ∈ requests.flatMap AllocateRequest.devicesIDs, s.manager.Ready id) ∧
        (requests.flatMap AllocateRequest.devicesIDs).Nodup) ∧
    (∀ responses, allocate s.manager requests = .ok responses →
      List.Forall₂ (fun request response => ∃ ids, response.env? "DEMO_DEVICE_IDS" = some ids ∧
        (request.devicesIDs ≠ [] → splitCommas ids = request.devicesIDs)) requests responses) ∧
    (∀ t, (rpcs n).step s (.allocate requests) t → t = s) := by
  refine ⟨allocate_iff.trans validateAllocation_flat, fun responses hok => ?_, fun t hst => ?_⟩
  · obtain ⟨hvalid, rfl⟩ := allocate_eq_ok hok
    have hready := (validateAllocation_flat.1 hvalid).1
    rw [List.forall₂_map_right_iff, List.forall₂_same]
    intro request hrequest
    refine ⟨_, rfl, splitCommas_intercalate fun id hid => ?_⟩
    have hmem : id ∈ requests.flatMap AllocateRequest.devicesIDs :=
      List.mem_flatMap.2 ⟨request, hrequest, hid⟩
    obtain ⟨i, -, rfl⟩ := ready_deviceID h (hready id hmem)
    exact comma_not_mem_deviceID i
  · obtain ⟨halive, hmanager, halive'⟩ := step_eq_some hst
    have hkept : t.manager = s.manager := hmanager
    have hup : t.alive = s.alive := halive'.trans halive.symm
    exact congrArg₂ Server.mk hkept hup

/-- Two devices in one container. -/
theorem allocate_exact_pair : splitCommas "fpga-0,fpga-2" = ["fpga-0", "fpga-2"] := by
  have hinit : (rpcs 3).Reachable { manager := newFakeResourceManager 3 } := .of_init rfl
  have hok : allocate (newFakeResourceManager 3) [⟨["fpga-0", "fpga-2"]⟩] =
      .ok [⟨[("DEMO_DEVICE_IDS", "fpga-0,fpga-2")]⟩] := by decide
  have hall := (allocate_exact hinit [⟨["fpga-0", "fpga-2"]⟩]).2.1 _ hok
  rw [List.forall₂_cons] at hall
  obtain ⟨⟨ids, hids, hsplit⟩, -⟩ := hall
  have heq : ids = "fpga-0,fpga-2" := (Option.some.inj hids).symm
  rw [← heq]
  exact hsplit (by decide)

/-! ## `GetPreferredAllocation` -/

/-- The size reaches `make` and is negative. -/
def Manager.Panicking (m : Manager) (request : PreferredRequest) : Prop :=
  request.allocationSize < 0 ∧ ∀ x ∈ request.availableDeviceIDs, m.Ready x

/-- Every container with a negative size is offered an unknown or unhealthy device, or comes after
one that is refused. -/
def Manager.Guarded (m : Manager) (requests : List PreferredRequest) : Prop :=
  ∀ pre request post, requests = pre ++ request :: post → m.Panicking request →
    ∃ earlier ∈ pre, m.Infeasible earlier

/-- **What `PreferredAllocation` does for any size.** -/
theorem preferred_cases (m : Manager) (request : PreferredRequest) :
    m.Panicking request ∧ m.preferredAllocation request = .panic ∨
    (¬ m.Panicking request ∧ m.Infeasible request ∧
      ∃ e, m.preferredAllocation request = .error e) ∨
    (¬ m.Panicking request ∧ ¬ m.Infeasible request ∧
      m.preferredAllocation request = .ok request.preferred) := by
  rcases Int.lt_or_le request.allocationSize 0 with hneg | hsize
  · by_cases hready : ∀ x ∈ request.availableDeviceIDs, m.Ready x
    · obtain ⟨available, havailable⟩ : ∃ available,
        m.available [] request.availableDeviceIDs = .ok available := available_isOk.2 hready
      -- the first loop ends, and `make` comes before the checks of the size
      refine .inl ⟨⟨hneg, hready⟩, ?_⟩
      unfold Manager.preferredAllocation
      simp only [havailable]
      rw [if_pos hneg]
    · have hnone : ¬ ∃ available, m.available [] request.availableDeviceIDs = .ok available :=
        fun h => hready (available_isOk.1 h)
      have hsome : ∃ x ∈ request.availableDeviceIDs, ¬ m.Ready x := by
        push Not at hready
        exact hready
      refine .inr (.inl ⟨fun h => hready h.2, .inl hsome, ?_⟩)
      unfold Manager.preferredAllocation
      split
      · exact ⟨_, rfl⟩
      · rename_i available havailable
        exact absurd ⟨available, havailable⟩ hnone
  · have hnot : ¬ m.Panicking request := fun h => absurd h.1 (by omega)
    by_cases hinf : m.Infeasible request
    · exact .inr (.inl ⟨hnot, hinf, preferred_error hsize hinf⟩)
    · exact .inr (.inr ⟨hnot, hinf, preferred_eq hsize hinf⟩)

theorem guarded_nil (m : Manager) : m.Guarded [] := by
  intro pre request post h
  cases pre <;> cases h

theorem guarded_cons {request : PreferredRequest} {requests : List PreferredRequest} :
    m.Guarded (request :: requests) ↔
      ¬ m.Panicking request ∧ (m.Infeasible request ∨ m.Guarded requests) := by
  constructor
  · intro h
    refine ⟨fun hpanic => ?_, or_iff_not_imp_left.2 fun hinf pre r post heq hpanic => ?_⟩
    · obtain ⟨earlier, hmem, -⟩ := h [] request requests rfl hpanic
      cases hmem
    · obtain ⟨earlier, hmem, hearlier⟩ :=
        h (request :: pre) r post (by rw [heq, List.cons_append]) hpanic
      rcases List.mem_cons.1 hmem with rfl | hmem
      · exact absurd hearlier hinf
      · exact ⟨earlier, hmem, hearlier⟩
  · rintro ⟨hnot, h⟩ pre r post heq hpanic
    cases pre with
    | nil =>
      rw [List.nil_append, List.cons.injEq] at heq
      exact absurd (heq.1 ▸ hpanic) hnot
    | cons r' pre =>
      rw [List.cons_append, List.cons.injEq] at heq
      obtain ⟨rfl, heq⟩ := heq
      rcases h with hinf | h
      · exact ⟨request, List.mem_cons_self, hinf⟩
      · obtain ⟨earlier, hmem, hearlier⟩ := h pre r post heq hpanic
        exact ⟨earlier, List.mem_cons_of_mem _ hmem, hearlier⟩

/-- `GetPreferredAllocation` refuses the request, or answers its containers in order. -/
def Manager.Answers (m : Manager) (requests : List PreferredRequest) : Prop :=
  (∃ e, getPreferredAllocation m requests = .error e) ∨
    ∃ lists, getPreferredAllocation m requests = .ok lists ∧
      List.Forall₂ (fun request ids => m.preferredAllocation request = .ok ids) requests lists

theorem answers_iff {requests : List PreferredRequest} :
    m.Answers requests ↔ m.Guarded requests := by
  unfold Manager.Answers
  induction requests with
  | nil => exact iff_of_true (.inr ⟨[], rfl, .nil⟩) (guarded_nil m)
  | cons request requests ih =>
    rw [guarded_cons]
    unfold getPreferredAllocation
    rcases preferred_cases m request with
      ⟨hpanic, heq⟩ | ⟨hnot, hinf, e, heq⟩ | ⟨hnot, hinf, heq⟩
    · simp [heq, hpanic]
    · simp [heq, hnot, hinf]
    · -- the first container is answered, and the others decide
      simp only [heq, hnot, hinf, not_false_eq_true, true_and, false_or]
      rw [← ih]
      cases hrest : getPreferredAllocation m requests with
      | error e => simp
      | panic => simp
      | ok lists =>
        simp only [reduceCtorEq, exists_false, false_or, Outcome.ok.injEq, exists_eq_left',
          List.forall₂_cons, heq, true_and]

/-- The requests that a run may contain for the process to stay alive. -/
def Careful (s : Server) (a : Rpc) (_ : Server) : Prop :=
  ∀ requests, a = .getPreferredAllocation requests → s.manager.Guarded requests

/-- An answer is no panic. -/
theorem answers_not_panic {requests : List PreferredRequest} (h : m.Answers requests) :
    getPreferredAllocation m requests ≠ .panic := by
  rcases h with ⟨e, heq⟩ | ⟨lists, heq, -⟩
  · rw [heq]
    exact nofun
  · rw [heq]
    exact nofun

theorem call_panicked {a : Rpc} (h : (a.call m).1.panicked = true) :
    ∃ requests, a = .getPreferredAllocation requests ∧ ¬ m.Guarded requests := by
  cases a with
  | updateHealth => cases h
  | allocate => cases h
  | getPreferredAllocation requests =>
    refine ⟨requests, rfl, fun hguarded => ?_⟩
    have hnot := answers_not_panic (answers_iff.2 hguarded)
    simp only [Rpc.call] at h
    cases hresult : getPreferredAllocation m requests with
    | ok lists =>
      rw [hresult] at h
      cases h
    | error e =>
      rw [hresult] at h
      cases h
    | panic => exact hnot hresult

theorem alive_of_careful (h : ((rpcs n).restrict Careful).Reachable s) : s.alive = true := by
  refine Lts.Reachable.invariant (P := fun s : Server => s.alive = true) ?_ ?_ h
  · rintro s rfl
    rfl
  · rintro s a t - - ⟨hst, hcareful⟩
    rw [(step_eq_some hst).2.2, Bool.not_eq_true']
    by_contra hpanic
    obtain ⟨requests, ha, hnot⟩ := call_panicked (Bool.eq_true_of_not_eq_false hpanic)
    exact hnot (hcareful requests ha)

/-- **When `GetPreferredAllocation` does not panic**, in every state and over whole runs. -/
theorem getPreferred_total (n : ℕ) (s : Server) :
    (∀ requests, s.manager.Answers requests ↔ s.manager.Guarded requests) ∧
    (((rpcs n).restrict Careful).Reachable s → s.alive = true) :=
  ⟨fun _ => answers_iff, alive_of_careful⟩

/-- A container that asks for -1 devices. -/
theorem getPreferred_panics : (rpcs 1).Reachable { manager := newFakeResourceManager 1 } ∧
    ¬ (newFakeResourceManager 1).Answers [⟨[], [], -1⟩] ∧
    (rpcs 1).step { manager := newFakeResourceManager 1 } (.getPreferredAllocation [⟨[], [], -1⟩])
      { manager := newFakeResourceManager 1, alive := false } := by
  refine ⟨.of_init rfl, fun h => ?_, rfl⟩
  exact answers_not_panic h rfl

/-- A container that asks for -1 devices and is offered an unknown one. -/
theorem getPreferred_total_unknown :
    (newFakeResourceManager 1).Answers [⟨["fpga-7"], [], -1⟩] := by
  have htotal := getPreferred_total 1 { manager := newFakeResourceManager 1 }
  refine (htotal.1 _).2 (guarded_cons.2 ⟨?_, .inr (guarded_nil _)⟩)
  rintro ⟨-, hready⟩
  obtain ⟨d, hd, -⟩ := hready "fpga-7" List.mem_cons_self
  have hnone : (newFakeResourceManager 1).device? "fpga-7" = none := by decide
  rw [hnone] at hd
  cases hd

end K8sDev.DevicePlugin

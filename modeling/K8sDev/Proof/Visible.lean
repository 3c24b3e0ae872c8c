import K8sDev.Spec.Visible

/-!
# Enumeration and index are inverse

`setVisibleDevices` sets the index of every device, visible or not, so nothing of earlier visible
sets is left.

* `device?_setVisible`: what a call makes of a device.
* `kept_reachable`: no call changes anything but the index.
* `visible_round_trip`: after the last call, a device enumerated at `i` has index `i`.
-/

namespace K8sDev.MockNvml

variable {β : Type} {devices : List (Option (ℕ × β))} {s t : MockServer β} {physical : ℕ}
  {visible : Option (List ℕ)} {d : ConfigurableDevice β}

/-- The index that a call gives to a device. -/
def visibleIndex (visible : Option (List ℕ)) (physical : ℕ) : ℤ :=
  match visible with
  | some visible => slicesIndex visible physical
  | none => physical

/-- **What a call makes of a device.** -/
theorem device?_setVisible (s : MockServer β) (visible : Option (List ℕ)) (physical : ℕ) :
    (s.setVisibleDevices visible).device? physical =
      (s.device? physical).map fun d => { d with nvmlIndex := visibleIndex visible physical } := by
  unfold MockServer.device? MockServer.setVisibleDevices
  rw [List.getElem?_mapIdx]
  cases s.configurableDevices[physical]? with
  | none => rfl
  | some d => cases d <;> rfl

theorem device?_newServer (devices : List (Option (ℕ × β))) (physical : ℕ) :
    (newServer devices).device? physical =
      devices[physical]?.join.map fun device => newConfigurableDevice physical device.1 device.2 := by
  unfold MockServer.device? newServer
  rw [List.getElem?_mapIdx]
  cases devices[physical]? with
  | none => rfl
  | some device => cases device <;> rfl

/-- Everything but the index it is enumerated at. -/
structure ConfigurableDevice.SamePhysical (d d' : ConfigurableDevice β) : Prop where
  index : d'.index = d.index
  minorNumber : d'.minorNumber = d.minorNumber
  rest : d'.rest = d.rest

/-- The devices are those of the beginning, as far as they are physical. -/
structure MockServer.Kept (devices : List (Option (ℕ × β))) (s : MockServer β) : Prop where
  length : s.configurableDevices.length = devices.length
  device : ∀ physical d, s.device? physical = some d →
    ∃ d₀, (newServer devices).device? physical = some d₀ ∧ d₀.SamePhysical d

theorem kept_setVisible (hs : s.Kept devices) (visible : Option (List ℕ)) :
    (s.setVisibleDevices visible).Kept devices where
  length := (List.length_mapIdx).trans hs.length
  device := by
    intro physical d hd
    rw [device?_setVisible] at hd
    obtain ⟨d', hd', rfl⟩ := Option.map_eq_some_iff.1 hd
    obtain ⟨d₀, hd₀, hsame⟩ := hs.device physical d' hd'
    exact ⟨d₀, hd₀, hsame.index, hsame.minorNumber, hsame.rest⟩

/-- **No call changes what a device is.** -/
theorem kept_reachable (h : (serverLts devices).Reachable s) : s.Kept devices := by
  refine Lts.Reachable.invariant (P := MockServer.Kept devices) ?_ ?_ h
  · rintro _ rfl
    refine ⟨List.length_mapIdx, ?_⟩
    intro physical d hd
    exact ⟨d, hd, rfl, rfl, rfl⟩
  · rintro s visible t - hs ⟨-, rfl⟩
    exact kept_setVisible hs visible

/-- The device at a place of a list without repetition is found at that place. -/
theorem slicesIndex_getElem {list : List ℕ} (hnodup : list.Nodup) {i : ℕ} (hi : i < list.length) :
    slicesIndex list list[i] = i := by
  have hmem : list[i] ∈ list := List.getElem_mem hi
  rw [slicesIndex, if_pos hmem, hnodup.idxOf_getElem]

/-- The device that is enumerated at an index, and the index it was given. -/
theorem enumerated {up : Upstream β} (hup : up.Filters) (haccepts : s.Accepts visible) {i : ℕ}
    (hi : i < up.deviceGetCount (s.setVisibleDevices visible)) :
    ∃ physical, up.deviceGetHandleByIndex (s.setVisibleDevices visible) i = some physical ∧
      (visible = none → physical = i) ∧
      (∀ list, visible = some list → list[i]? = some physical ∧
        ((s.setVisibleDevices visible).device? physical).isSome) ∧
      visibleIndex visible physical = i := by
  have hcount := hup.count (s.setVisibleDevices visible)
  have hhandle := hup.handle (s.setVisibleDevices visible) i hi
  cases visible with
  | none => exact ⟨i, hhandle, fun _ => rfl, nofun, rfl⟩
  | some list =>
    obtain ⟨hnodup, hdevices⟩ := haccepts list rfl
    have hlt : i < list.length := by
      rw [hcount] at hi
      exact hi
    have hget : list[i]? = some list[i] := List.getElem?_eq_getElem hlt
    refine ⟨list[i], hhandle.trans hget, nofun, ?_, slicesIndex_getElem hnodup hlt⟩
    intro list' heq
    obtain rfl := Option.some.inj heq
    refine ⟨hget, ?_⟩
    rw [device?_setVisible, Option.isSome_map]
    exact hdevices _ (List.getElem_mem hlt)

/-- **Enumeration and index are inverse.** After any calls of `setVisibleDevices` and a last one, an
index below the count is that of a physical device, the one at its place in the visible set; the
index of the device is the one it was enumerated at, and leads back to it; and what else the device
is, no call has changed. -/
theorem visible_round_trip {up : Upstream β} (hup : up.Filters)
    (hs : (serverLts devices).Reachable s) (hlast : (serverLts devices).step s visible t) {i : ℕ}
    (hi : i < up.deviceGetCount t) :
    ∃ physical, up.deviceGetHandleByIndex t i = some physical ∧
      (visible = none → physical = i) ∧
      (∀ list, visible = some list → list[i]? = some physical ∧ (t.device? physical).isSome) ∧
      ∀ d, t.device? physical = some d →
        (up.handleLookupReturn d = .success →
          d.getIndex (up.handleLookupReturn d) = ((i : ℤ), Return.success) ∧
          up.deviceGetHandleByIndex t (d.getIndex (up.handleLookupReturn d)).1 = some physical) ∧
        ∃ d₀, (newServer devices).device? physical = some d₀ ∧ d₀.index = physical ∧
          d₀.SamePhysical d := by
  have hkept := kept_reachable (hs.step hlast)
  obtain ⟨haccepts, rfl⟩ := hlast
  obtain ⟨physical, hphysical, hnil, hlist, hindex⟩ := enumerated hup haccepts hi
  refine ⟨physical, hphysical, hnil, hlist, ?_⟩
  intro d hd
  constructor
  · intro hsuccess
    have hnvml : d.nvmlIndex = i := by
      rw [device?_setVisible] at hd
      obtain ⟨d', -, rfl⟩ := Option.map_eq_some_iff.1 hd
      exact hindex
    have hget : d.getIndex (up.handleLookupReturn d) = ((i : ℤ), Return.success) := by
      rw [ConfigurableDevice.getIndex, hsuccess, hnvml]
      rfl
    rw [hget]
    exact ⟨rfl, hphysical⟩
  · obtain ⟨d₀, hd₀, hsame⟩ := hkept.device physical d hd
    refine ⟨d₀, hd₀, ?_, hsame⟩
    rw [device?_newServer] at hd₀
    obtain ⟨device, -, rfl⟩ := Option.map_eq_some_iff.1 hd₀
    rfl

/-- A server that filters, with all devices at hand. -/
def filtering : Upstream String where
  handleLookupReturn _ := .success
  deviceGetCount s :=
    match s.visibleDevices with
    | some visible => visible.length
    | none => s.configurableDevices.length
  deviceGetHandleByIndex s i :=
    match s.visibleDevices with
    | some visible => if 0 ≤ i then visible[i.toNat]? else none
    | none => if 0 ≤ i ∧ i.toNat < s.configurableDevices.length then some i.toNat else none

theorem filtering_filters : filtering.Filters where
  count _ := rfl
  handle := by
    rintro ⟨devices, visible⟩ i hi
    have hnonneg := Int.natCast_nonneg i
    cases visible with
    | some visible =>
      show (if 0 ≤ (i : ℤ) then visible[(i : ℤ).toNat]? else none) = visible[i]?
      rw [if_pos hnonneg, Int.toNat_natCast]
    | none =>
      show (if 0 ≤ (i : ℤ) ∧ (i : ℤ).toNat < devices.length then some (i : ℤ).toNat else none) =
        some i
      rw [if_pos ⟨hnonneg, hi⟩, Int.toNat_natCast]

/-- Four devices, one of them nil. -/
def fourDevices : List (Option (ℕ × String)) :=
  [some (0, "a"), some (1, "b"), none, some (3, "d")]

/-- Device 1 is alone first, and then behind device 3. -/
theorem visible_round_trip_reordered :
    (((newServer fourDevices).setVisibleDevices (some [1])).setVisibleDevices (some [3, 1])).device? 1 =
        some ⟨1, 1, 1, "b"⟩ ∧
      filtering.deviceGetHandleByIndex
        (((newServer fourDevices).setVisibleDevices (some [1])).setVisibleDevices (some [3, 1])) 1 =
          some 1 := by
  have hinit : (serverLts fourDevices).Reachable (newServer fourDevices) := .of_init rfl
  have hfirst : (serverLts fourDevices).step (newServer fourDevices) (some [1])
      ((newServer fourDevices).setVisibleDevices (some [1])) := by
    refine ⟨?_, rfl⟩
    intro list heq
    obtain rfl := Option.some.inj heq
    exact ⟨by decide, by decide⟩
  have hlast : (serverLts fourDevices).step ((newServer fourDevices).setVisibleDevices (some [1]))
      (some [3, 1])
      (((newServer fourDevices).setVisibleDevices (some [1])).setVisibleDevices (some [3, 1])) := by
    refine ⟨?_, rfl⟩
    intro list heq
    obtain rfl := Option.some.inj heq
    exact ⟨by decide, by decide⟩
  obtain ⟨physical, hphysical, -, hlist, -⟩ :=
    visible_round_trip (i := 1) filtering_filters (hinit.step hfirst) hlast (by decide)
  obtain ⟨hget, -⟩ := hlist _ rfl
  obtain rfl : 1 = physical := by simpa using hget
  exact ⟨by decide, hphysical⟩

end K8sDev.MockNvml

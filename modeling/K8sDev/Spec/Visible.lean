import K8sDev.Lts.Run
import Mathlib.Data.Int.Basic

/-!
# Visible devices of the mock NVML

The candidate fix of `hami-mock-gpu/upstream-issues`: a device knows the index it is enumerated at
besides its physical one. The server it patches is a parameter, as far as the fix relies on it.
-/

namespace K8sDev.MockNvml

variable {β : Type}

/-- `nvml.Return`. -/
inductive Return
  | success
  | other (code : ℕ)
deriving DecidableEq, Repr

/-- A device; `rest` is what else identifies it, such as its UUID and its PCI address. -/
structure ConfigurableDevice (β : Type) where
  index : ℕ
  nvmlIndex : ℤ
  minorNumber : ℕ
  rest : β
deriving DecidableEq

/-- `NewConfigurableDevice`. -/
def newConfigurableDevice (index minorNumber : ℕ) (rest : β) : ConfigurableDevice β :=
  { index := index, nvmlIndex := index, minorNumber := minorNumber, rest := rest }

/-- The devices, some of which may be nil, and the visible ones; `none` is a nil slice. -/
structure MockServer (β : Type) where
  configurableDevices : List (Option (ConfigurableDevice β))
  visibleDevices : Option (List ℕ) := none

/-- `slices.Index`. -/
def slicesIndex (s : List ℕ) (v : ℕ) : ℤ := if v ∈ s then s.idxOf v else -1

/-- `setVisibleDevices`. -/
def MockServer.setVisibleDevices (s : MockServer β) (visible : Option (List ℕ)) : MockServer β where
  configurableDevices := s.configurableDevices.mapIdx fun physical d =>
    d.map fun d =>
      let index : ℤ :=
        match visible with
        | some visible => slicesIndex visible physical
        | none => physical
      { d with nvmlIndex := index }
  visibleDevices := visible

/-- `GetIndex`, after `handleLookupReturn`. -/
def ConfigurableDevice.getIndex (d : ConfigurableDevice β) (ret : Return) : ℤ × Return :=
  if ret ≠ .success then (0, ret) else (d.nvmlIndex, .success)

/-- The device of that physical index. -/
def MockServer.device? (s : MockServer β) (physical : ℕ) : Option (ConfigurableDevice β) :=
  s.configurableDevices[physical]?.join

/-! ## The patched server -/

/-- What the fix relies on. A handle is the physical index of its device. -/
structure Upstream (β : Type) where
  handleLookupReturn : ConfigurableDevice β → Return
  deviceGetCount : MockServer β → ℕ
  deviceGetHandleByIndex : MockServer β → ℤ → Option ℕ

/-- The count is that of the visible devices, and an index below it resolves to the visible device
at that place; without a visible set, to the device itself. -/
structure Upstream.Filters (up : Upstream β) : Prop where
  count : ∀ s, up.deviceGetCount s =
    match s.visibleDevices with
    | some visible => visible.length
    | none => s.configurableDevices.length
  handle : ∀ s (i : ℕ), i < up.deviceGetCount s → up.deviceGetHandleByIndex s i =
    match s.visibleDevices with
    | some visible => visible[i]?
    | none => some i

/-- The server after `Init`: the device at each place has that index. -/
def newServer (devices : List (Option (ℕ × β))) : MockServer β where
  configurableDevices := devices.mapIdx fun index device =>
    device.map fun device => newConfigurableDevice index device.1 device.2

/-- The list has devices of the server, each once. -/
def MockServer.Accepts (s : MockServer β) (visible : Option (List ℕ)) : Prop :=
  ∀ list, visible = some list → list.Nodup ∧ ∀ physical ∈ list, (s.device? physical).isSome

/-- Calls of `setVisibleDevices`. -/
def serverLts (devices : List (Option (ℕ × β))) : Lts (MockServer β) (Option (List ℕ)) where
  init s := s = newServer devices
  step s visible t := s.Accepts visible ∧ t = s.setVisibleDevices visible

end K8sDev.MockNvml

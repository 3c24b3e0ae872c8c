import K8sDev.Spec.Devices
import Mathlib.Data.List.Basic
import Mathlib.Logic.Function.Basic

/-!
# Allocation of devices

`PreferredAllocation` and `ValidateAllocation` of the resource manager, and the two RPCs
over them. The sets of the source are lists here; `selected` is its own set.
-/

namespace K8sDev.DevicePlugin

/-- What a call comes to: a value, an error, or a run-time panic. -/
inductive Outcome (α : Type)
  | ok (a : α)
  | error (e : Errorf)
  | panic
deriving DecidableEq, Repr

/-- `ContainerPreferredAllocationRequest`. The size is an `int32`. -/
structure PreferredRequest where
  availableDeviceIDs : List String
  mustIncludeDeviceIDs : List String
  allocationSize : ℤ
deriving DecidableEq, Repr

/-- `ContainerAllocateRequest`. -/
structure AllocateRequest where
  devicesIDs : List String
deriving DecidableEq, Repr

/-- `ContainerAllocateResponse`. -/
structure AllocateResponse where
  envs : List (String × String)
deriving DecidableEq, Repr

/-- The first loop of `PreferredAllocation`: every available device is known and healthy. -/
def Manager.available (m : Manager) : List String → List String → Except Errorf (List String)
  | available, [] => .ok available
  | available, deviceID :: ids =>
    match m.device? deviceID with
    | none => .error ⟨"unknown available device ID %q", [.q deviceID]⟩
    | some device =>
      if device.health ≠ healthy then
        .error ⟨"available device ID %q is %s", [.q deviceID, .s device.health]⟩
      else m.available (available.insert deviceID) ids

/-- The second loop: the devices that must be included. -/
def mustInclude (available : List String) : List String → List String → Except Errorf (List String)
  | selected, [] => .ok selected
  | selected, deviceID :: ids =>
    if deviceID ∉ available then
      .error ⟨"must-include device ID %q is not available", [.q deviceID]⟩
    else if deviceID ∈ selected then mustInclude available selected ids
    else mustInclude available (selected ++ [deviceID]) ids

/-- The third loop: fill up with available devices. -/
def fill (allocationSize : ℕ) : List String → List String → List String
  | selected, [] => selected
  | selected, deviceID :: ids =>
    if selected.length = allocationSize then selected
    else if deviceID ∈ selected then fill allocationSize selected ids
    else fill allocationSize (selected ++ [deviceID]) ids

/-- `PreferredAllocation`. -/
def Manager.preferredAllocation (m : Manager) (request : PreferredRequest) : Outcome (List String) :=
  match m.available [] request.availableDeviceIDs with
  | .error e => .error e
  | .ok available =>
    -- `make` with a negative capacity
    if request.allocationSize < 0 then .panic
    else
      let allocationSize := request.allocationSize.toNat
      match mustInclude available [] request.mustIncludeDeviceIDs with
      | .error e => .error e
      | .ok selected =>
        if selected.length > allocationSize then
          .error ⟨"must-include devices %d exceed allocation size %d",
            [.d selected.length, .d allocationSize]⟩
        else
          let selected := fill allocationSize selected request.availableDeviceIDs
          if selected.length ≠ allocationSize then
            .error ⟨"requested %d devices, only %d are available",
              [.d allocationSize, .d available.length]⟩
          else .ok selected

/-- `GetPreferredAllocation`: the first container that fails decides. -/
def getPreferredAllocation (m : Manager) : List PreferredRequest → Outcome (List (List String))
  | [] => .ok []
  | containerRequest :: requests =>
    match m.preferredAllocation containerRequest with
    | .error e => .error e
    | .panic => .panic
    | .ok deviceIDs =>
      match getPreferredAllocation m requests with
      | .error e => .error e
      | .panic => .panic
      | .ok responses => .ok (deviceIDs :: responses)

/-- The inner loop of `ValidateAllocation`, over the devices of one container. -/
def Manager.validateContainer (m : Manager) (containerIndex : ℕ) :
    (String → Option ℕ) → List String → Except Errorf (String → Option ℕ)
  | requested, [] => .ok requested
  | requested, deviceID :: ids =>
    match m.device? deviceID with
    | none => .error ⟨"unknown device ID %q", [.q deviceID]⟩
    | some device =>
      if device.health ≠ healthy then
        .error ⟨"device ID %q is %s", [.q deviceID, .s device.health]⟩
      else
        match requested deviceID with
        | some previousContainer =>
          .error ⟨"device ID %q requested by containers %d and %d",
            [.q deviceID, .d previousContainer, .d containerIndex]⟩
        | none =>
          m.validateContainer containerIndex
            (Function.update requested deviceID (some containerIndex)) ids

/-- The outer loop of `ValidateAllocation`. -/
def Manager.validateContainers (m : Manager) :
    ℕ → (String → Option ℕ) → List AllocateRequest → Except Errorf Unit
  | _, _, [] => .ok ()
  | containerIndex, requested, containerRequest :: requests =>
    match m.validateContainer containerIndex requested containerRequest.devicesIDs with
    | .error e => .error e
    | .ok requested => m.validateContainers (containerIndex + 1) requested requests

/-- `ValidateAllocation`. -/
def Manager.validateAllocation (m : Manager) (requests : List AllocateRequest) :
    Except Errorf Unit :=
  m.validateContainers 0 (fun _ => none) requests

/-- `Allocate`. -/
def allocate (m : Manager) (requests : List AllocateRequest) :
    Except Errorf (List AllocateResponse) :=
  match m.validateAllocation requests with
  | .error e => .error e
  | .ok () => .ok (requests.map fun containerRequest =>
      ⟨[("DEMO_DEVICE_IDS", ",".intercalate containerRequest.devicesIDs)]⟩)

end K8sDev.DevicePlugin

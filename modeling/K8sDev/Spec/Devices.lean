import K8sDev.Spec.Http
import K8sDev.Lts.Notify
import Mathlib.Data.List.Nodup
import Mathlib.Data.Fintype.Defs

/-!
# The device manager and its streams

`fakeResourceManager` and `ListAndWatch` of `extended-resource`. The map of devices and
`order` always have the same keys, so the model keeps one list, in creation order.

`UpdateHealth` holds the write lock from the change to the signal: nobody reads the devices
in between, and a token taken in between is as good as taken before. So it is one step. A
handler takes the token, reads the devices and sends them in separate steps.
-/

namespace K8sDev.DevicePlugin

/-- `pluginapi.Device`. -/
structure Device where
  id : String
  health : String
deriving DecidableEq, Repr

/-- `pluginapi.Healthy`. -/
def healthy : String := "Healthy"

/-- `pluginapi.Unhealthy`. -/
def unhealthy : String := "Unhealthy"

/-- An argument of a format string, by its verb: `%q`, `%s` or `%d`. -/
inductive Arg
  | q (s : String)
  | s (s : String)
  | d (n : ℕ)
deriving DecidableEq, Repr

/-- `fmt.Errorf`. -/
structure Errorf where
  format : String
  args : List Arg
deriving DecidableEq, Repr

/-- `fakeResourceManager`; `updates` says whether the channel holds a token. -/
structure Manager where
  devices : List Device
  updates : Bool
  nodup : (devices.map Device.id).Nodup
deriving DecidableEq

/-- The name of the `i`-th device. -/
def deviceID (i : ℕ) : String := "fpga-" ++ i.repr

theorem deviceID_injective : Function.Injective deviceID := by
  intro i j h
  have hl : "fpga-".toList ++ i.repr.toList = "fpga-".toList ++ j.repr.toList := by
    rw [← String.toList_append, ← String.toList_append]
    exact congrArg String.toList h
  have hr : i.repr = j.repr := String.toList_inj.1 (List.append_cancel_left hl)
  have hi := atoi_repr i
  rw [hr, atoi_repr j] at hi
  simpa using hi.symm

/-- `newFakeResourceManager`. -/
def newFakeResourceManager (deviceCount : ℕ) : Manager where
  devices := (List.range deviceCount).map fun i => ⟨deviceID i, healthy⟩
  updates := false
  nodup := by
    rw [List.map_map]
    exact List.Nodup.map deviceID_injective List.nodup_range

/-- `m.devices[deviceID]`. -/
def Manager.device? (m : Manager) (deviceID : String) : Option Device :=
  m.devices.find? fun d => d.id == deviceID

/-- `Devices`: copies, in creation order. -/
def Manager.listDevices (m : Manager) : List Device := m.devices

/-- `device.Health = health`. -/
def Manager.setHealth (m : Manager) (deviceID health : String) : Manager where
  devices := m.devices.map fun d => if d.id = deviceID then { d with health := health } else d
  updates := m.updates
  nodup := by
    have hid : Device.id ∘ (fun d : Device => if d.id = deviceID then { d with health := health } else d) =
        Device.id := by
      funext d
      simp only [Function.comp]
      split <;> rfl
    rw [List.map_map, hid]
    exact m.nodup

/-- `UpdateHealth`, with the error it returns. -/
def Manager.updateHealth (m : Manager) (deviceID health : String) : Option Errorf × Manager :=
  if health ≠ healthy ∧ health ≠ unhealthy then
    (some ⟨"unsupported health %q", [.q health]⟩, m)
  else
    match m.device? deviceID with
    | none => (some ⟨"unknown device ID %q", [.q deviceID]⟩, m)
    | some device =>
      if device.health = health then (none, m)
      -- the send never blocks: a token that is there stays
      else (none, { m.setHealth deviceID health with updates := true })

/-! ## Streams -/

/-- A handler of `ListAndWatch`: about to call `Devices`, with a list to send, in its
`select`, or holding a token; and the lists it has sent. -/
abbrev Stream := Notify.Watcher (List Device)

/-- The plugin with its open streams. `past` keeps the device lists that the manager had
before, for the statements. -/
structure Plugin (ι : Type) where
  manager : Manager
  past : List (List Device) := []
  stream : ι → Stream := fun _ => ⟨.closed, []⟩

inductive Label (ι : Type)
  | updateHealth (deviceID health : String)
  /-- Kubelet calls `ListAndWatch`. -/
  | opens (i : ι)
  | devices (i : ι)
  | send (i : ι)
  /-- `Send` fails and the handler returns. -/
  | sendError (i : ι)
  | take (i : ι)
  /-- The handler sees that its context is done. -/
  | done (i : ι)
deriving DecidableEq, Repr

variable {ι : Type} [DecidableEq ι]

def Plugin.goto (p : Plugin ι) (i : ι) (s : Stream) : Plugin ι :=
  { p with stream := Function.update p.stream i s }

def Plugin.step (p : Plugin ι) : Label ι → Option (Plugin ι)
  | .updateHealth deviceID health =>
    let m := (p.manager.updateHealth deviceID health).2
    some { p with
      manager := m
      past := if m.listDevices = p.manager.listDevices then p.past else p.past ++ [p.manager.listDevices] }
  | .opens i =>
    match (p.stream i).pc with
    | .closed => some (p.goto i ⟨.opened, []⟩)
    | _ => none
  | .devices i =>
    match (p.stream i).pc with
    | .opened | .woken => some (p.goto i ⟨.sending p.manager.listDevices, (p.stream i).sent⟩)
    | _ => none
  | .send i =>
    match (p.stream i).pc with
    | .sending ds => some (p.goto i ⟨.waiting, (p.stream i).sent ++ [ds]⟩)
    | _ => none
  | .sendError i =>
    match (p.stream i).pc with
    | .sending _ => some (p.goto i ⟨.closed, (p.stream i).sent⟩)
    | _ => none
  | .take i =>
    match (p.stream i).pc with
    | .waiting =>
      if p.manager.updates then
        some { p.goto i ⟨.woken, (p.stream i).sent⟩ with manager := { p.manager with updates := false } }
      else none
    | _ => none
  | .done i =>
    match (p.stream i).pc with
    | .waiting => some (p.goto i ⟨.closed, (p.stream i).sent⟩)
    | _ => none

/-- `newDevicePlugin`, without streams. -/
def newDevicePlugin (deviceCount : ℕ) : Plugin ι where
  manager := newFakeResourceManager deviceCount

/-- The plugin, any calls of `UpdateHealth` and any streams. -/
def pluginLts (deviceCount : ℕ) : Lts (Plugin ι) (Label ι) :=
  Lts.ofFun (newDevicePlugin deviceCount) Plugin.step

/-- Every device list the manager has had, the current one last. -/
def Plugin.history (p : Plugin ι) : List (List Device) := p.past ++ [p.manager.listDevices]

/-- A stream is only opened when all others have ended. -/
def Solo (p : Plugin ι) (l : Label ι) (_ : Plugin ι) : Prop :=
  ∀ i, l = .opens i → ∀ j, (p.stream j).pc = .closed

/-- A token is only taken while every other stream has, or is about to send, the current
devices, or has yet to read them. -/
def Courteous (p : Plugin ι) (l : Label ι) (_ : Plugin ι) : Prop :=
  ∀ i, l = .take i → ∀ j, j ≠ i → (p.stream j).Fresh p.manager.listDevices

instance [Fintype ι] (p : Plugin ι) (l : Label ι) (p' : Plugin ι) : Decidable (Solo p l p') := by
  unfold Solo; infer_instance

instance [Fintype ι] (p : Plugin ι) (l : Label ι) (p' : Plugin ι) :
    Decidable (Courteous p l p') := by
  unfold Courteous; infer_instance

/-- If no token is pending and every open stream waits, each of them has sent the current
devices. -/
def Plugin.Informed (p : Plugin ι) : Prop :=
  p.manager.updates = false → (∀ i, (p.stream i).pc = .closed ∨ (p.stream i).pc = .waiting) →
    ∀ i, (p.stream i).pc = .waiting → (p.stream i).sent.getLast? = some p.manager.listDevices

end K8sDev.DevicePlugin

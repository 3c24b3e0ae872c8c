import K8sDev.Spec.Allocate
import K8sDev.Lts.Run

/-!
# The allocation calls of kubelet

`Allocate`, `GetPreferredAllocation` and the changes of health between them, on one manager. The
two calls hold the read lock while they look at the devices, so each of them is one step. A panic
in a handler ends the process.
-/

namespace K8sDev.DevicePlugin

inductive Rpc
  | updateHealth (deviceID health : String)
  | allocate (requests : List AllocateRequest)
  | getPreferredAllocation (requests : List PreferredRequest)
deriving DecidableEq, Repr

inductive Reply
  | updated (err : Option Errorf)
  | allocated (response : Except Errorf (List AllocateResponse))
  | preferred (response : Outcome (List (List String)))

/-- The handler has panicked. -/
def Reply.panicked : Reply → Bool
  | .preferred .panic => true
  | _ => false

/-- A call, with the manager it leaves. -/
def Rpc.call (m : Manager) : Rpc → Reply × Manager
  | .updateHealth deviceID health =>
    let (err, m) := m.updateHealth deviceID health
    (.updated err, m)
  | .allocate requests => (.allocated (DevicePlugin.allocate m requests), m)
  | .getPreferredAllocation requests =>
    (.preferred (DevicePlugin.getPreferredAllocation m requests), m)

/-- The plugin process. -/
structure Server where
  manager : Manager
  alive : Bool := true

def Server.step (s : Server) (a : Rpc) : Option Server :=
  if s.alive then
    let (reply, m) := a.call s.manager
    some { manager := m, alive := !reply.panicked }
  else none

/-- Any calls, one after the other. -/
def rpcs (deviceCount : ℕ) : Lts Server Rpc :=
  Lts.ofFun { manager := newFakeResourceManager deviceCount } Server.step

/-- `strings.Split(s, ",")`. -/
def splitCommas (s : String) : List String := (s.toList.splitOn ',').map String.ofList

/-- `response.Envs[name]`. -/
def AllocateResponse.env? (response : AllocateResponse) (name : String) : Option String :=
  response.envs.lookup name

end K8sDev.DevicePlugin

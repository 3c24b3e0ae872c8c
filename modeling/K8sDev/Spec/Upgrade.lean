import K8sDev.Script.Basic
import Mathlib.Logic.Function.Basic

/-!
# Upgrading the cluster

`run.py` of `article-upgrade`: a drill with a disruption budget on one worker, the upgrade of the
control plane, and that of the kubelets, one node after the other.
-/

namespace K8sDev.Upgrade

inductive Node
  | controlPlane
  | worker
  | worker2
deriving DecidableEq, Repr

/-- `v1.35.1` and `v1.35.2`. -/
inductive Version
  | old
  | new
deriving DecidableEq, Repr

structure Cluster where
  /-- `serverVersion`. -/
  apiserver : Version
  /-- `/usr/bin/kubelet`. -/
  binary : Node → Version
  /-- The kubelet that runs, and reports its version. -/
  kubelet : Node → Option Version
  cordoned : Node → Bool

inductive Cmd
  /-- `drain`, which cordons first. -/
  | drain (node : Node)
  | uncordon (node : Node)
  /-- `kubeadm upgrade apply v1.35.2`. -/
  | upgradeApply
  /-- `systemctl stop kubelet`. -/
  | stopKubelet (node : Node)
  /-- `install … /usr/bin/kubelet`. -/
  | installKubelet (node : Node)
  /-- `systemctl start kubelet`. -/
  | startKubelet (node : Node)
  /-- `wait_for` the version of the API server. -/
  | waitServer
  /-- `wait_for` the version of a kubelet. -/
  | waitKubelet (node : Node)
  /-- Anything else that may raise: a call of `k` or `run`, a wait, an assertion, a file. -/
  | step (text : String)
deriving DecidableEq, Repr

open Function in
def effect : Cmd → Cluster → Option Cluster
  | .drain node, w => some { w with cordoned := update w.cordoned node true }
  | .uncordon node, w => some { w with cordoned := update w.cordoned node false }
  | .upgradeApply, w => some { w with apiserver := .new }
  | .stopKubelet node, w => some { w with kubelet := update w.kubelet node none }
  | .installKubelet node, w => some { w with binary := update w.binary node .new }
  | .startKubelet node, w =>
    -- a kubelet that runs already is left alone
    some { w with kubelet := update w.kubelet node ((w.kubelet node).or (some (w.binary node))) }
  | .waitServer, w => if w.apiserver = .new then some w else none
  | .waitKubelet node, w => if w.kubelet node = some .new then some w else none
  | .step _, w => some w

abbrev ClusterScript := Script Cluster Cmd

def run (c : Cmd) : ClusterScript Unit := Script.exec effect c

def steps (texts : List String) : ClusterScript Unit :=
  Script.forEach texts fun text => run (.step text)

/-- The names in the order of the upgrade. -/
def nodes : List Node := [.controlPlane, .worker, .worker2]

/-- The maintenance of `node`, where the Pod is: the first `drain` has to fail. -/
def drill (node : Node) : ClusterScript Unit := do
  steps ["apply workload.yaml", "wait_for 1 ready", "get pods"]
  Script.check (node != .controlPlane)
  let blocked ← Script.raised (run (.drain node))
  -- `check=False` does not keep `timeout=30` from raising
  run (.step "return of drain")
  Script.check blocked
  steps ["assert disruption budget", "get pods", "assert uid", "save drain-blocked.json"]
  run (.uncordon node)
  steps ["scale web 2", "wait_for 2 ready", "get pods", "assert two nodes"]
  run (.drain node)
  steps ["wait_for 2 ready", "get pods", "assert not node", "save drain-recovered.json"]
  run (.uncordon node)

/-- What a worker needs before its kubelet is stopped. -/
def prepare : List String :=
  ["docker cp config", "docker cp kubeadm", "docker cp kubelet", "docker cp kubectl",
    "install kubeadm", "kubeadm upgrade node"]

/-- `if node != cp`. -/
def prepareNode (node : Node) : ClusterScript Unit :=
  if node = .controlPlane then pure () else steps prepare

/-- The body of the loop over the nodes. -/
def upgradeNode (node : Node) : ClusterScript Unit := do
  run (.drain node)
  prepareNode node
  run (.stopKubelet node)
  run (.installKubelet node)
  run (.step "install kubectl")
  run (.startKubelet node)
  run (.waitKubelet node)
  run (.uncordon node)

/-- The upgrade of the control plane, until the API tells the new version. -/
def upgradeServer : ClusterScript Unit := do
  run .upgradeApply
  run (.step "write upgrade-apply.txt")
  run .waitServer

/-- The script; `node` is what the API tells of the Pod. -/
def upgrade (node : Node) : ClusterScript Unit := do
  steps ["hostname", "get nodes", "assert names"]
  let w ← Script.read
  Script.check (nodes.all fun n => w.kubelet n == some .old)
  steps ["save before-version.json"]
  drill node
  steps ["get --raw extensions/v1beta1", "assert NotFound", "save removed-api.json",
    "assert kernel_config", "docker cp config", "docker cp kubeadm", "docker cp kubelet",
    "docker cp kubectl", "install kubeadm", "kubeadm upgrade plan", "write upgrade-plan.txt"]
  upgradeServer
  run (.step "save control-plane-upgraded.json")
  Script.forEach nodes upgradeNode
  steps ["rollout status daemonset/kube-proxy", "wait_for 2 ready", "save after-version.json",
    "save after-nodes.json"]

/-! ## What has to hold -/

/-- A cluster at work: every node takes Pods, its kubelet runs, and none is newer than the API
server. -/
structure Cluster.Ready (w : Cluster) : Prop where
  schedulable : ∀ n, w.cordoned n = false
  running : ∀ n, (w.kubelet n).isSome
  skew : ∀ n, w.kubelet n = some .new → w.apiserver = .new

/-- What maintenance must not break: at most one node is out of service, a kubelet is stopped only
on a node that is, and no kubelet is newer than the API server. -/
structure Cluster.Safe (w : Cluster) : Prop where
  one : ∀ n m, w.cordoned n = true → w.cordoned m = true → n = m
  drained : ∀ n, w.kubelet n = none → w.cordoned n = true
  skew : ∀ n, w.kubelet n = some .new → w.apiserver = .new

/-- Where a run from `w₀` that raised has come to: the nodes of `done` are upgraded and in service,
the kubelets after the node it stopped at are as they were. -/
def Cluster.Halted (w₀ w : Cluster) : Prop :=
  ∃ done rest, nodes = done ++ rest ∧
    (∀ n ∈ done, w.kubelet n = some .new ∧ w.cordoned n = false) ∧
    ∀ n ∈ rest.tail, w.kubelet n = w₀.kubelet n ∧ w.binary n = w₀.binary n

end K8sDev.Upgrade

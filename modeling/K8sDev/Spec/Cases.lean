import K8sDev.Spec.Suite

/-!
# The cases of the Volcano suites

The functions of `run-tests.py`, `run-advanced.py` and `run-boundaries.py` as the commands, waits
and assertions that may raise, in their order. `drf` and `weighted` fill their queues while the
scheduler is scaled to zero.
-/

namespace K8sDev.Suite

/-! ## `run-tests.py` -/

def pending (job : String) (count : ℕ) : LabScript Unit := do
  run (.step ("wait " ++ count.repr ++ " pods of " ++ job))
  steps (List.replicate 6 ["get pods of " ++ job, "assert " ++ job ++ " not scheduled"]).flatten

def deleteJob (name : String) : LabScript Unit :=
  steps ["delete jobs.batch.volcano.sh " ++ name, "wait no pods of " ++ name]

def blockedJob (name : String) : LabScript Unit := do
  run (.step ("wait Pending " ++ name))
  steps (List.replicate 6 ("assert " ++ name ++ " not scheduled"))

def queueCommand (name action : String) : LabScript Unit :=
  steps ["get queue " ++ name, "apply command " ++ name ++ "-" ++ action]

def complete : LabScript Unit := steps ["apply job complete", "wait Completed complete"]

def gang : LabScript Unit := do
  steps ["apply job holder", "wait 2 running holder", "apply job gang"]
  pending "gang" 3
  snapshot
  deleteJob "holder"
  run (.step "wait 3 running gang")

def elastic : LabScript Unit :=
  steps ["apply job elastic", "wait 4 running elastic", "assert 5 pods of elastic"]

def quota : LabScript Unit := do
  steps ["apply queue limited", "apply job first", "wait 1 running first", "apply job second"]
  blockedJob "second"
  snapshot
  deleteJob "first"
  run (.step "wait 1 running second")

def closed : LabScript Unit := do
  run (.step "apply queue closed")
  queueCommand "closed" "CloseQueue"
  run (.step "wait Closed closed")
  expectRejected "create job closed"
  queueCommand "closed" "OpenQueue"
  steps ["wait Open closed", "apply job closed", "wait 1 running closed"]

def preempt : LabScript Unit :=
  steps ["apply priorityclass lab-low", "apply priorityclass lab-high", "apply job low",
    "wait 4 running low", "apply job high", "wait 1 running high", "assert fewer than 4 running low"]

def reclaim : LabScript Unit :=
  steps ["apply queue borrower", "apply queue owner", "apply job borrow", "wait 4 running borrow",
    "apply job owner", "wait 2 running owner", "assert at most 2 running borrow"]

def binpack : LabScript Unit :=
  steps ["apply job packed", "wait 4 running packed", "assert 1 node of packed"]

def affinity : LabScript Unit :=
  steps ["apply job spread", "wait 2 running spread", "assert 2 nodes of spread"]

def plugins : LabScript Unit :=
  steps ["apply job plugins", "wait 2 running plugins", "get running plugins", "exec env",
    "write env.log", "assert VC_TASK_INDEX", "assert service plugins headless", "assert secrets"]

def abort : LabScript Unit := steps ["apply job abort", "wait Aborted abort"]

def ttl : LabScript Unit := steps ["apply job ttl", "wait Completed ttl", "wait no job ttl"]

def gpuBasic : LabScript Unit :=
  steps ["apply job gpu", "wait 1 running gpu", "get running gpu", "exec env", "write env.log",
    "assert CUDA_DEVICE_MEMORY_LIMIT_0 and CUDA_DEVICE_SM_LIMIT", "assert vgpu-ids-new"]

def gpuReject (which : String) : LabScript Unit := do
  run (.step ("apply job reject by " ++ which))
  pending "reject" 1

def gpuShare : LabScript Unit :=
  steps ["apply job share", "wait 3 running share", "get running share", "write allocations.json",
    "assert 1 allocation"]

def gpuSpread : LabScript Unit :=
  steps ["apply job gpu-spread", "wait 2 running gpu-spread", "get running gpu-spread",
    "assert 2 allocations"]

def gpuFull : LabScript Unit := do
  steps ["apply job full", "wait 2 running full", "apply job waiting"]
  pending "waiting" 1
  deleteJob "full"
  run (.step "wait 1 running waiting")

/-- `tests` of `run-tests.py`. -/
def basicTests : List Test :=
  [⟨"01-job-completion", complete, true⟩, ⟨"02-gang-release", gang, false⟩,
   ⟨"03-elastic-minavailable", elastic, false⟩, ⟨"04-queue-capability", quota, false⟩,
   ⟨"05-queue-close-open", closed, false⟩, ⟨"06-priority-preemption", preempt, false⟩,
   ⟨"07-capacity-borrow-reclaim", reclaim, true⟩, ⟨"08-binpack", binpack, true⟩,
   ⟨"09-pod-antiaffinity", affinity, false⟩, ⟨"10-env-svc-ssh", plugins, false⟩,
   ⟨"11-failure-abort", abort, false⟩, ⟨"12-ttl-cleanup", ttl, false⟩,
   ⟨"13-vgpu-allocation", gpuBasic, false⟩, ⟨"14-vgpu-sharing", gpuShare, false⟩,
   ⟨"15-vgpu-device-spread", gpuSpread, false⟩, ⟨"16-vgpu-memory-reject", gpuReject "memory", false⟩,
   ⟨"17-vgpu-core-reject", gpuReject "cores", false⟩,
   ⟨"18-vgpu-count-reject", gpuReject "number", false⟩, ⟨"19-vgpu-release", gpuFull, false⟩]

/-! ## `run-advanced.py` -/

def nodegroup : LabScript Unit := do
  config
  steps ["label node volcano-lab-worker", "label node volcano-lab-worker2", "apply queue team-a",
    "apply job nodegroup", "wait 2 running nodegroup", "assert node of nodegroup"]

def hypernode : LabScript Unit := do
  config
  steps ["apply hypernode rack-a", "apply hypernode rack-b", "apply hypernode fabric",
    "apply job topo"]
  pending "topo" 3
  snapshot
  deleteJob "topo"
  steps ["apply job topo", "wait 3 running topo", "assert 2 nodes of topo", "get hypernodes",
    "write hypernodes.json"]

def taskTopology : LabScript Unit := do
  config
  steps ["apply job task-topology", "wait 2 running task-topology", "assert 2 nodes of task-topology"]

def native : LabScript Unit := do
  config
  run (.step "apply deployment native")
  Script.tryFinally
    (do
      steps ["wait 2 ready native", "assert pods scheduled"]
      snapshot)
    (run (.step "delete deployment native"))

def restart : LabScript Unit :=
  steps ["apply job restart", "wait 2 running restart", "get running restart", "delete pod",
    "wait 2 other running restart", "assert version of restart"]

def dependency : LabScript Unit :=
  steps ["apply job dependency", "wait Completed dependency", "get pods of dependency",
    "assert 2 pods", "find worker-0", "find second-0", "assert order of start"]

def cron : LabScript Unit := do
  run (.step "apply cronjob cron")
  Script.tryFinally (steps ["wait Completed", "get cronjobs", "write cron.json"])
    (run (.step "delete cronjob cron"))

def flow : LabScript Unit := do
  steps ["apply jobtemplate step-a", "apply jobtemplate step-b", "apply jobflow flow"]
  Script.tryFinally (steps ["wait 2 Completed", "get jobflows", "write flow.json"])
    (run (.step "delete jobflows,jobtemplates --all"))

/-- How `drf` and `weighted` fill their queues. The wait comes before the `try`. -/
def unscheduled (wait : String) (jobs : List String) : LabScript Unit := do
  run (.scale 0)
  run (.step wait)
  Script.tryFinally (steps jobs) (run (.scale 1))

def drfWait : String := "wait no pods -l app=volcano-scheduler"

def drf : LabScript Unit := do
  config
  unscheduled drfWait ["apply job fair-a", "apply job fair-b"]
  steps ["wait 4 running", "assert 2 and 2"]

def metrics : LabScript Unit :=
  steps ["get svc", "write services.json", "find scheduler service", "get --raw metrics",
    "write metrics.prom", "assert volcano_"]

def gpuDevicePolicy : LabScript Unit := do
  config
  steps ["apply job node-spread", "wait 2 running node-spread or one failed",
    "logs deployment/volcano-scheduler", "write startup-scheduler.log",
    "assert 2 running node-spread", "get running node-spread", "assert 2 ids"]

/-- `tests` of `run-advanced.py`. -/
def advancedTests : List Test :=
  [⟨"20-nodegroup", nodegroup, false⟩, ⟨"21-hypernode-hard", hypernode, false⟩,
   ⟨"22-task-topology", taskTopology, false⟩, ⟨"23-native-deployment", native, false⟩,
   ⟨"24-job-restart", restart, false⟩, ⟨"25-task-dependency", dependency, false⟩,
   ⟨"26-cronjob", cron, false⟩, ⟨"27-jobflow", flow, false⟩, ⟨"28-drf-fairness", drf, false⟩,
   ⟨"29-metrics", metrics, false⟩, ⟨"30-vgpu-spread-policy", gpuDevicePolicy, false⟩]

/-! ## `run-boundaries.py` -/

def weightedWait : String := "wait --for=delete pod -l app=volcano-scheduler"

def weighted : LabScript Unit := do
  config
  steps ["apply queue weight-a", "apply queue weight-b"]
  unscheduled weightedWait ["apply job weight-a", "apply job weight-b"]
  steps ["wait 10 running", "write counts.json", "assert weight-b > weight-a > 0"]

def namespaceQuota : LabScript Unit := do
  config
  run (.step "apply resourcequota cpu")
  Script.tryFinally
    (do
      run (.step "apply job quota")
      blockedJob "quota"
      run (.step "assert no pods of quota")
      snapshot)
    (run (.step "delete resourcequota cpu"))
  run (.step "wait 2 running quota")

/-- The configuration is applied a second time, with the hierarchy enabled. -/
def hierarchy : LabScript Unit := do
  config
  steps ["get cm volcano-scheduler-configmap", "apply volcano-scheduler-configmap",
    "rollout restart deployment/volcano-scheduler", "rollout status deployment/volcano-scheduler",
    "apply queue parent", "apply queue child-a", "apply queue child-b", "apply job child-a",
    "wait 1 running child-a", "apply job child-b"]
  blockedJob "child-b"
  deleteJob "child-a"
  run (.step "wait 1 running child-b")

def leastAllocated : LabScript Unit := do
  config
  steps ["apply job load", "wait 1 running load", "apply job fit", "wait 1 running fit",
    "assert node of fit"]

def backfill : LabScript Unit := do
  config
  run (.step "apply job large")
  pending "large" 3
  steps ["apply job small", "wait Completed small", "assert large not scheduled"]

def invalid : LabScript Unit := expectRejected "create job invalid"

def taints : LabScript Unit := do
  run (.step "taint node volcano-lab-worker")
  Script.tryFinally
    (do
      run (.step "apply job taint")
      pending "taint" 1
      snapshot
      deleteJob "taint"
      steps ["apply job tolerated", "wait 1 running tolerated"])
    (run (.step "untaint node volcano-lab-worker"))

def gpuNvml : LabScript Unit :=
  steps ["apply job nvml", "wait 1 running nvml", "get running nvml", "exec nvidia-smi",
    "write nvidia-smi.log", "assert GPU-"]

/-- `tests` of `run-boundaries.py`. -/
def boundaryTests : List Test :=
  [⟨"31-weighted-queues", weighted, false⟩, ⟨"32-namespace-quota", namespaceQuota, false⟩,
   ⟨"33-hierarchical-queue", hierarchy, false⟩, ⟨"34-resource-strategy-fit", leastAllocated, false⟩,
   ⟨"35-small-job-progress", backfill, false⟩, ⟨"36-invalid-job", invalid, false⟩,
   ⟨"37-taint-toleration", taints, false⟩, ⟨"38-nvml-observation", gpuNvml, false⟩]

/-! ## The files -/

inductive File
  | runTests
  | runAdvanced
  | runBoundaries
deriving DecidableEq, Repr

/-- `tests`. -/
def File.tests : File → List Test
  | .runTests => basicTests
  | .runAdvanced => advancedTests
  | .runBoundaries => boundaryTests

/-- What is under `if __name__=='__main__'`. -/
def File.main (file : File) (only : String) : LabScript Bool :=
  match file with
  | .runTests => do
    kUnchecked "create namespace volcano-tests"
    runSelected only basicTests
  | .runAdvanced => runSelected only advancedTests
  | .runBoundaries => runSelected only boundaryTests

end K8sDev.Suite

import K8sDev.Script.Basic

/-!
# Stopping the metrics pipeline

The cases `failures` and `multi` of `hpa/advanced/run.py`: a part of the way that the queue metric
takes to the HPA is scaled to zero, the HPA is observed without it, and it is scaled up again.
-/

namespace K8sDev.Outages

/-- The deployments that are stopped. -/
inductive Component
  | queue
  | prometheus
  | adapter
deriving DecidableEq, Repr

/-- The name of the deployment. -/
def Component.name : Component → String
  | queue => "queue"
  | prometheus => "prometheus"
  | adapter => "adapter-prometheus-adapter"

/-- What the two cases change and have to restore. -/
structure Cluster where
  /-- `spec.replicas`. -/
  replicas : Component → ℕ
  /-- `deployment/load` is there. -/
  load : Bool

inductive Cmd
  /-- `scale`. -/
  | scale (component : Component) (replicas : ℕ)
  /-- `apply("../lab/load.yaml")`. -/
  | applyLoad
  /-- `k("delete", "deployment", "load", "--ignore-not-found")`. -/
  | deleteLoad
  /-- Anything else that may raise: a call of `k`, a wait, an assertion, a row of evidence. -/
  | step (text : String)
deriving DecidableEq, Repr

def effect : Cmd → Cluster → Option Cluster
  | .scale component replicas, w =>
    some { w with replicas := fun c => if c = component then replicas else w.replicas c }
  | .applyLoad, w => some { w with load := true }
  | .deleteLoad, w => some { w with load := false }
  | .step _, w => some w

abbrev ClusterScript := Script Cluster Cmd

def run (c : Cmd) : ClusterScript Unit := Script.exec effect c

def steps (texts : List String) : ClusterScript Unit :=
  Script.forEach texts fun text => run (.step text)

/-- `ready`. -/
def ready (component : Component) : ClusterScript Unit :=
  run (.step ("rollout status deployment/" ++ component.name))

/-- `scale(component, 0)` and the `try` after it. `first` is what its `finally` starts with. -/
def outage (component : Component) (body first : ClusterScript Unit) : ClusterScript Unit := do
  run (.scale component 0)
  Script.tryFinally body do
    first
    run (.scale component 1)
    ready component

/-- The body of the loop of `failures`, eight times. -/
def sample : List String := ["emit metric and query", "snapshot"]

/-- `failures`. -/
def failures : ClusterScript Unit := do
  steps ["stage failures-reset", "reset_worker", "gauge 35", "steady 4"]
  Script.forEach [.queue, .prometheus, .adapter] fun component => do
    run (.step ("stage failure-" ++ component.name))
    outage component
      (steps ((List.replicate 8 sample).flatten ++
        ["snapshot", "assert requested == 4", "assert not ScalingActive"]))
      (pure ())
    steps ["stage failure-" ++ component.name ++ "-recover", "gauge 35", "steady 4"]
  steps ["stage real-zero", "gauge 0", "steady 1"]

/-- The stage after the second outage of `multi`. -/
def allLow : String := "stage multi-all-low"

/-- `multi`. -/
def multi : ClusterScript Unit := do
  steps ["stage multi-reset", "reset_worker", "apply hpa-multi.yaml", "gauge 35", "steady 4",
    "stage multi-cpu-low-queue-high", "hold 25", "gauge 0"]
  outage .adapter
    (steps ["stage multi-cpu-low-metric-failed", "wait_for not ScalingActive", "emit metric",
      "hold 45", "assert requested == 4"])
    (pure ())
  steps ["stage multi-recover-down", "steady 1"]
  outage .adapter
    (do
      steps ["stage multi-cpu-high-metric-failed", "emit metric"]
      run .applyLoad
      steps ["steady 4", "metric", "emit unavailable", "assert error"])
    (run .deleteLoad)
  run (.step allLow)
  steps ["gauge 0", "steady 1", "stage multi-cpu-high-queue-zero"]
  run .applyLoad
  Script.tryFinally (steps ["steady 4", "emit metric"]) (run .deleteLoad)
  steps ["stage multi-final-down", "steady 1"]

/-! ## What is left behind -/

/-- As `setup.sh` leaves the cluster: one replica each, and no load. -/
def up : Cluster := ⟨fun _ => 1, false⟩

/-- At most one of the deployments is stopped. -/
def Cluster.OneDown (w : Cluster) : Prop :=
  ∀ c c', w.replicas c = 0 → w.replicas c' = 0 → c = c'

abbrev Log := List (Entry Cluster Cmd)

/-- Why a deployment is left stopped by a run that raises: it was scaled down by a command that
failed, scaling it up was refused, or the `finally` of the second outage of `multi` ended when the
load could not be deleted. -/
def Stranded (log : Log) (c : Component) : Prop :=
  Saw log (.scale c 0) .lost ∨ Saw log (.scale c 1) .refused ∨
    c = .adapter ∧ (∃ f, f ≠ .done ∧ Ends log .deleteLoad f) ∧ ¬Saw log (.step allLow) .done

/-- The load was there at some time. -/
def Applied (log : Log) : Prop := ∃ f, f ≠ .refused ∧ Saw log .applyLoad f

/-- Why the load is left behind by a run that raises: outside the `try` it was created by a command
that failed, or deleting it was refused. -/
def LoadLeft (log : Log) : Prop :=
  Ends log .applyLoad .lost ∨ Ends log .deleteLoad .refused ∧ Applied log

end K8sDev.Outages

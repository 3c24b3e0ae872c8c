import K8sDev.Spec.Broker
import K8sDev.Steps.Curve
import Mathlib.Algebra.Order.Ring.Rat

/-!
# The queue figure

The figure of `hpa/advanced/plot.py`: the upper half is drawn from the events that `/stats` gave,
the lower from the samples of the experiment's log. `stamp` turns a time of either log into seconds;
the differences of such stamps are exact. The dashed line of the fixed baseline is a constant.
-/

namespace K8sDev.Queue

/-- `lo <= e["id"] <= hi`. -/
def inBatch (lo hi id : ℕ) : Bool := lo ≤ id && id ≤ hi

def batchEvents (lo hi : ℕ) (events : List Event) : List Event :=
  events.filter fun e => inBatch lo hi e.id

/-- `min(stamp(e["time"]) for e in events if e["kind"] == "enqueue")`; of nothing it is an
exception. -/
def batchStart (stamp : ℕ → ℚ) (lo hi : ℕ) (events : List Event) : Option ℚ :=
  (((batchEvents lo hi events).filter fun e => e.kind == .enqueue).map fun e => stamp e.time).min?

/-- `completed`, from the start of the batch. -/
def batchCompleted (stamp : ℕ → ℚ) (lo hi : ℕ) (start : ℚ) (events : List Event) : List ℚ :=
  (((batchEvents lo hi events).filter fun e => e.kind == .ack).map fun e =>
    stamp e.time - start).mergeSort

/-- The points of one line. `step` raises if there are not as many numbers as places, and the
label if nothing was completed. -/
def batchLine (stamp : ℕ → ℚ) (lo hi : ℕ) (events : List Event) : Option (List (ℚ × ℕ)) :=
  (batchStart stamp lo hi events).bind fun start =>
    let completed := batchCompleted stamp lo hi start events
    if (0 :: completed).length = (List.range 81).length then
      some ((0 :: completed).zip (List.range 81))
    else none

/-- The status of a deployment. -/
structure DeploymentStatus where
  readyReplicas : Option ℕ := none
deriving DecidableEq, Repr

/-- A line of `real-*.jsonl`. Many have no `deployment`; an empty one counts as none. -/
structure Row where
  time : ℕ
  stage : Option String
  deployment : Option DeploymentStatus
deriving DecidableEq, Repr

/-- `r["deployment"].get("readyReplicas", 0)`. -/
def Row.ready (r : Row) : ℕ := (r.deployment.bind DeploymentStatus.readyReplicas).getD 0

/-- The condition in `points`. -/
def Row.sampled (stamp : ℕ → ℚ) (start last : ℚ) (r : Row) : Bool :=
  r.stage == some "real-hpa-batch" && r.deployment.isSome &&
    (decide (0 ≤ stamp r.time - start) && decide (stamp r.time - start ≤ last))

/-- `points`. -/
def samples (stamp : ℕ → ℚ) (start last : ℚ) (rows : List Row) : List (ℚ × ℕ) :=
  (rows.filter (Row.sampled stamp start last)).map fun r => (stamp r.time - start, r.ready)

/-- The line of the ready Pods under the HPA. `completed[-1]` and `points[-1]` raise when there is
no element. -/
def readyLine (stamp : ℕ → ℚ) (lo hi : ℕ) (events : List Event) (rows : List Row) :
    Option (List (ℚ × ℕ)) :=
  (batchStart stamp lo hi events).bind fun start =>
    (batchCompleted stamp lo hi start events).getLast?.bind fun last =>
      let points := samples stamp start last rows
      points.getLast?.map fun p => ((0, 1) :: points) ++ [(last, p.2)]

/-- The lines of the figure: the tasks of the fixed baseline and of the batch under the HPA, and
the Pods of the latter. -/
structure Figure where
  fixed : List (ℚ × ℕ)
  hpa : List (ℚ × ℕ)
  ready : List (ℚ × ℕ)
deriving DecidableEq, Repr

def figure (stamp : ℕ → ℚ) (events : List Event) (rows : List Row) : Option Figure := do
  let fixed ← batchLine stamp 1 80 events
  let hpa ← batchLine stamp 81 160 events
  let ready ← readyLine stamp 81 160 events rows
  return { fixed, hpa, ready }

end K8sDev.Queue

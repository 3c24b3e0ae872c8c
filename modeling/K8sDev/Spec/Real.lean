import K8sDev.Spec.Consumer

/-!
# The queue experiment

What `real` of `hpa/advanced/run.py` asks the broker and concludes from the answers, and the
turns of one consumer that is left alone with the broker, as in its fixed baseline.
-/

namespace K8sDev.Queue

/-- What `http(18081, "/stats")` returns. -/
structure Stats where
  accepted : ℕ
  counts : Counts
  tasks : List Task
  events : List Event
deriving DecidableEq, Repr

def Body.stats? : Body → Option Stats
  | .stats accepted counts tasks events => some { accepted, counts, tasks, events }
  | _ => none

def statsCall : Call := ⟨.stats, "GET", []⟩

/-- `r["queue"]["pending"] == r["queue"]["inflight"] == 0`, which the experiment waits for. -/
def Stats.drained (b : Stats) : Bool := b.counts.pending == b.counts.inflight && b.counts.inflight == 0

/-- `b["completed"] == b["accepted"] and b["retries"] == 0`. -/
def Stats.countersPass (b : Stats) : Bool := b.counts.done == b.accepted && b.counts.retries == 0

/-- `all(t["done"] and t["attempts"] == 1 for t in b["tasks"])`. -/
def Stats.tasksPass (b : Stats) : Bool := b.tasks.all fun t => t.done && t.attempts == 1

/-- `not [e for e in b["events"] if e["kind"] == "rejected_ack"]`. -/
def Stats.eventsPass (b : Stats) : Bool := (b.events.filter fun e => e.kind == .rejectedAck).isEmpty

/-- The assertions at the end of `real`. -/
def Stats.audit (b : Stats) : Bool := b.countersPass && b.tasksPass && b.eventsPass

/-! ## A consumer alone -/

/-- How long the parts of one turn of `consumer` take: from the last request to the claim that the
broker serves, from there to the start of the sleep, what the sleep lasts beyond the duration of
the task, and from its end to the ack that the broker serves. -/
structure Pace where
  pause : ℕ
  response : ℕ
  oversleep : ℕ
  request : ℕ
deriving DecidableEq, Repr

/-- What a turn takes beyond the duration of its task. -/
def Pace.overhead (pace : Pace) : ℕ := pace.response + pace.oversleep + pace.request

/-- One turn of the loop of `consumer` with nobody else about: it claims, and if it got a task it
sleeps for its duration and acknowledges it. -/
def turn (worker : String) (pace : Pace) (h : Served) : Served :=
  let now := h.clock + pace.pause
  let claimed := serve now (claimCall worker) h
  match granted (claimCall worker) (handle now (claimCall worker) h.broker).1 with
  | some t =>
    let asleep := now + pace.response
    let awake := asleep + (t.duration + pace.oversleep)
    serve (awake + pace.request) (ackCall t.id worker) claimed
  | none => claimed

def turns (worker : String) (paces : List Pace) (h : Served) : Served :=
  paces.foldl (fun h pace => turn worker pace h) h

end K8sDev.Queue

import K8sDev.Spec.Http
import K8sDev.Lts.Run
import Mathlib.Data.List.Basic

/-!
# The task broker

The in-memory task queue of `hpa/advanced/main.go` in `broker` mode. Every handler runs
under the mutex, so a request is one step on the state; it reads the clock once.

Leases are released lazily: `reap` runs at the start of `/claim`, `/ack`, `/stats` and
`/metrics`, and `/enqueue` does not call it.
-/

namespace K8sDev.Queue

/-- `Task`. An empty `worker` means that nobody holds the task. -/
structure Task where
  id : ℕ := 0
  durationMS : ℕ := 0
  worker : String := ""
  attempts : ℕ := 0
  deadline : ℕ := 0
  done : Bool := false
deriving DecidableEq, Repr

/-- The kinds of events the handlers record. -/
inductive Kind
  | enqueue
  | claim
  | expired
  | ack
  | rejectedAck
deriving DecidableEq, Repr

structure Event where
  time : ℕ
  kind : Kind
  id : ℕ
  worker : String
deriving DecidableEq, Repr

/-- `tasks` and `events`, both only reached under `mu`. -/
structure Broker where
  tasks : List Task := []
  events : List Event := []
deriving DecidableEq, Repr

def record (now : ℕ) (kind : Kind) (id : ℕ) (worker : String) (s : Broker) : Broker :=
  { s with events := s.events ++ [⟨now, kind, id, worker⟩] }

/-- The test of `reap`: held, not done, and past the deadline. -/
def Task.expired (now : ℕ) (t : Task) : Bool :=
  !t.done && t.worker != "" && decide (t.deadline < now)

/-- The test of `/claim`: not done and held by nobody. -/
def Task.free (t : Task) : Bool := !t.done && t.worker == ""

/-- What `reap` does to one task. -/
def Task.release (now : ℕ) (t : Task) : Task :=
  if t.expired now then { t with worker := "" } else t

/-- The event `reap` records for one task. -/
def Task.expiry (now : ℕ) (t : Task) : List Event :=
  if t.expired now then [⟨now, .expired, t.id, t.worker⟩] else []

/-- `reap`: release every expired lease, in task order. -/
def reap (now : ℕ) (s : Broker) : Broker where
  tasks := s.tasks.map (Task.release now)
  events := s.events ++ s.tasks.flatMap (Task.expiry now)

structure Counts where
  pending : ℕ := 0
  inflight : ℕ := 0
  done : ℕ := 0
  retries : ℕ := 0
deriving DecidableEq, Repr

/-- One turn of the loop of `counts`. -/
def Counts.add (c : Counts) (t : Task) : Counts :=
  let c := if t.done then { c with done := c.done + 1 }
    else if t.worker ≠ "" then { c with inflight := c.inflight + 1 }
    else { c with pending := c.pending + 1 }
  if t.attempts > 1 then { c with retries := c.retries + (t.attempts - 1) } else c

def counts (ts : List Task) : Counts := ts.foldl Counts.add {}

/-- What a handler writes. `length` answers `/enqueue`, `task` answers `/claim`. -/
inductive Body
  | text (s : String)
  | length (n : ℕ)
  | task (t : Task)
  | metrics (c : Counts)
  | stats (accepted : ℕ) (c : Counts) (tasks : List Task) (events : List Event)
deriving DecidableEq, Repr

structure Response where
  code : ℕ
  body : Body
deriving DecidableEq, Repr

/-- `http.Error`. -/
def httpError (text : String) (code : ℕ) : Response := ⟨code, .text text⟩

/-- The lease: the expected duration and 20 s to acknowledge. -/
def Task.lease (t : Task) : ℕ := t.durationMS * millisecond + 20 * second

/-- One turn of the loop of `/enqueue`. -/
def addTask (now : ℕ) (ms : ℕ) (s : Broker) : Broker :=
  let id := s.tasks.length + 1
  record now .enqueue id "" { s with tasks := s.tasks ++ [{ id := id, durationMS := ms }] }

/-- The loop of `/enqueue`. -/
def addTasks (now : ℕ) (ms : ℕ) : ℕ → Broker → Broker
  | 0, s => s
  | n + 1, s => addTasks now ms n (addTask now ms s)

def enqueue (now : ℕ) (r : Request) (s : Broker) : Response × Broker :=
  if r.method ≠ "POST" then (httpError "POST required" 405, s)
  else
    match atoi (r.get "n"), atoi (r.get "duration_ms") with
    | some n, some ms =>
      if n < 1 ∨ n > 1000 ∨ ms < 1 ∨ ms > 90000 then
        (httpError "n 1..1000, duration_ms 1..90000" 400, s)
      else
        let s := addTasks now ms.toNat n.toNat s
        (⟨200, .length s.tasks.length⟩, s)
    | _, _ => (httpError "n 1..1000, duration_ms 1..90000" 400, s)

/-- A free task goes to `worker`. -/
def Task.grant (now : ℕ) (worker : String) (t : Task) : Task :=
  { t with worker := worker, attempts := t.attempts + 1, deadline := now + t.lease }

/-- The loop of `/claim`: the first free task is granted. Returns it with the new list. -/
def grantFirst (now : ℕ) (worker : String) : List Task → Option (Task × List Task)
  | [] => none
  | t :: ts =>
    if t.free then some (t.grant now worker, t.grant now worker :: ts)
    else (grantFirst now worker ts).map fun gts => (gts.1, t :: gts.2)

/-- `/claim` once it has the lock and has reaped. -/
def claimLocked (now : ℕ) (worker : String) (s : Broker) : Response × Broker :=
  match grantFirst now worker s.tasks with
  | some (t, ts) => (⟨200, .task t⟩, record now .claim t.id worker { s with tasks := ts })
  | none => (⟨200, .task {}⟩, s)

def claim (now : ℕ) (r : Request) (s : Broker) : Response × Broker :=
  if r.method ≠ "POST" then (httpError "POST required" 405, s)
  else
    let worker := r.get "worker"
    if worker = "" then (httpError "worker required" 400, s)
    else claimLocked now worker (reap now s)

/-- `/ack` once it has the lock and has reaped; `id` is `none` when `Atoi` failed. -/
def ackLocked (now : ℕ) (id : Option ℤ) (worker : String) (s : Broker) : Response × Broker :=
  match id with
  | none => (httpError "unknown id" 400, s)
  | some id =>
    if h : id < 1 ∨ id > s.tasks.length then (httpError "unknown id" 400, s)
    else
      -- `tasks[id-1]` is in range
      have hi : (id - 1).toNat < s.tasks.length := by omega
      let t := s.tasks[(id - 1).toNat]
      if t.done ∨ t.worker ≠ worker then
        (httpError "stale or duplicate ack" 409, record now .rejectedAck id.toNat worker s)
      else
        (⟨200, .text "ok"⟩, record now .ack id.toNat worker
          { s with tasks := s.tasks.set (id - 1).toNat { t with done := true } })

def ack (now : ℕ) (r : Request) (s : Broker) : Response × Broker :=
  if r.method ≠ "POST" then (httpError "POST required" 405, s)
  else ackLocked now (atoi (r.get "id")) (r.get "worker") (reap now s)

/-- What `/stats` encodes of the state. -/
def statsBody (s : Broker) : Body := .stats s.tasks.length (counts s.tasks) s.tasks s.events

def stats (now : ℕ) (s : Broker) : Response × Broker :=
  let s := reap now s
  (⟨200, statsBody s⟩, s)

/-- The queue part of `/metrics`. -/
def metrics (now : ℕ) (s : Broker) : Response × Broker :=
  let s := reap now s
  (⟨200, .metrics (counts s.tasks)⟩, s)

/-- The handlers of the queue. -/
inductive Path
  | enqueue
  | claim
  | ack
  | stats
  | metrics
deriving DecidableEq, Repr

/-- A request as the mux dispatches it. -/
structure Call where
  path : Path
  req : Request
deriving DecidableEq, Repr

def handle (now : ℕ) (c : Call) (s : Broker) : Response × Broker :=
  match c.path with
  | .enqueue => enqueue now c.req s
  | .claim => claim now c.req s
  | .ack => ack now c.req s
  | .stats => stats now s
  | .metrics => metrics now s

/-! ## Runs of the broker -/

/-- A call as it was served. -/
structure Exchange where
  now : ℕ
  call : Call
  resp : Response
deriving DecidableEq, Repr

/-- The broker with everything it has been asked so far. -/
structure Served where
  log : List Exchange := []
  broker : Broker := {}
deriving DecidableEq, Repr

/-- The last clock reading. -/
def Served.clock (h : Served) : ℕ := (h.log.getLast?.map Exchange.now).getD 0

def serve (now : ℕ) (c : Call) (h : Served) : Served where
  log := h.log ++ [⟨now, c, (handle now c h.broker).1⟩]
  broker := (handle now c h.broker).2

/-- Runs of the broker from the empty queue: any calls, on a nondecreasing clock. -/
def brokerLts : Lts Served (ℕ × Call) where
  init h := h = {}
  step h a h' := h.clock ≤ a.1 ∧ h' = serve a.1 a.2 h

/-- The broker after a sequence of calls. -/
def serveAll (calls : List (ℕ × Call)) (h : Served) : Served :=
  calls.foldl (fun h a => serve a.1 a.2 h) h

/-- The task a successful `/claim` returned: the empty task says "nothing to do". -/
def granted (c : Call) (resp : Response) : Option Task :=
  match c.path, resp.body with
  | .claim, .task t => if t.id = 0 then none else some t
  | _, _ => none

/-- Every claim granted so far, as it was returned, in order. -/
def grants (log : List Exchange) : List Task := log.filterMap fun x => granted x.call x.resp

/-- The last claim granted of a task. -/
def lastGrant (log : List Exchange) (id : ℕ) : Option Task :=
  ((grants log).filter fun g => g.id == id).getLast?

/-- The calls that `consumer` and the experiments post, by their query strings. -/
def enqueueCall (n ms : ℕ) : Call :=
  ⟨.enqueue, "POST", [("n", n.repr), ("duration_ms", ms.repr)]⟩

def claimCall (worker : String) : Call := ⟨.claim, "POST", [("worker", worker)]⟩

def ackCall (id : ℕ) (worker : String) : Call :=
  ⟨.ack, "POST", [("id", id.repr), ("worker", worker)]⟩

/-- An `/ack` carries a non-empty worker, as `consumer` sends it. -/
def Call.Named (c : Call) : Prop := c.path = .ack → c.req.get "worker" ≠ ""

instance (c : Call) : Decidable c.Named := by unfold Call.Named; infer_instance

end K8sDev.Queue

import K8sDev.Spec.Broker
import K8sDev.Lts.Mealy
import Mathlib.Logic.Function.Iterate

/-!
# A broker that expires leases on time

The reference for the lazy `reap`: its clock moves by single nanoseconds, and every tick
releases the leases whose deadline it has just passed. Its handlers are those of the
broker without the call to `reap`.
-/

namespace K8sDev.Queue

structure Eager where
  clock : ℕ := 0
  broker : Broker := {}
deriving DecidableEq, Repr

/-- One nanosecond passes. -/
def Eager.tick (e : Eager) : Eager where
  clock := e.clock + 1
  broker :=
    { tasks := e.broker.tasks.map fun t => if t.expired (e.clock + 1) then { t with worker := "" } else t
      events := e.broker.events ++ e.broker.tasks.flatMap fun t =>
        if t.expired (e.clock + 1) then [⟨e.clock + 1, .expired, t.id, t.worker⟩] else [] }

/-- Time passes until the clock reads `now`. -/
def Eager.advance (now : ℕ) (e : Eager) : Eager := Eager.tick^[now - e.clock] e

/-- The handlers, on a state that needs no reaping. -/
def Eager.answer (now : ℕ) (c : Call) (s : Broker) : Response × Broker :=
  match c.path with
  | .enqueue => enqueue now c.req s
  | .claim =>
    if c.req.method ≠ "POST" then (httpError "POST required" 405, s)
    else if c.req.get "worker" = "" then (httpError "worker required" 400, s)
    else claimLocked now (c.req.get "worker") s
  | .ack =>
    if c.req.method ≠ "POST" then (httpError "POST required" 405, s)
    else ackLocked now (atoi (c.req.get "id")) (c.req.get "worker") s
  | .stats => (⟨200, statsBody s⟩, s)
  | .metrics => (⟨200, .metrics (counts s.tasks)⟩, s)

def Eager.handle (now : ℕ) (c : Call) (e : Eager) : Response × Eager :=
  let e := e.advance now
  let out := Eager.answer now c e.broker
  (out.1, ⟨e.clock, out.2⟩)

/-- What is compared of an answer: the status code and the body, except the event list that
`/stats` adds (an expiry is recorded when it is noticed). -/
def Response.observe (r : Response) : Response :=
  match r.body with
  | .stats n c ts _ => ⟨r.code, .stats n c ts []⟩
  | _ => r

/-- The broker as a machine. -/
def lazyBroker : Mealy Broker (ℕ × Call) Response := ⟨fun s a => handle a.1 a.2 s⟩

/-- The reference as a machine. -/
def eagerBroker : Mealy Eager (ℕ × Call) Response := ⟨fun e a => Eager.handle a.1 a.2 e⟩

end K8sDev.Queue

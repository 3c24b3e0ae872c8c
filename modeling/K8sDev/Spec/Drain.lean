import K8sDev.Spec.Consumer

/-!
# One consumer process

`consumer` of `hpa/advanced/main.go` beside the end of `main`, in one process. The context is
cancelled at any instant; what the process posts has any outcome, at any time.

`log` is kept for the statements: what the consumer sent and received, and when.
-/

namespace K8sDev.Queue

/-- Where `main` is once the consumer has started. -/
inductive MainPc
  /-- At `<-ctx.Done()`. -/
  | serving
  /-- About to store `draining`. -/
  | signalled
  /-- At `<-done`. -/
  | waiting
  /-- In `server.Shutdown`. -/
  | shutdown
  | exited
deriving DecidableEq, Repr

/-- What a consumer does that others can see. -/
inductive Deed
  | claim (time : ℕ)
  | receive (t : Task) (time : ℕ)
  | ack (t : Task) (time : ℕ)
deriving DecidableEq, Repr

structure Process where
  now : ℕ := 0
  /-- `ctx.Err() != nil`. -/
  cancelled : Bool := false
  pc : Pc := .check
  main : MainPc := .serving
  draining : Bool := false
  log : List Deed := []
deriving DecidableEq, Repr

/-- `done` is closed when `consumer` returns. -/
def Process.done (s : Process) : Bool := s.pc == .exited

/-- What may happen next in a process. -/
inductive Turn
  | tick (d : ℕ)
  /-- `SIGTERM`. -/
  | cancel
  /-- The consumer takes its next step, and starts this exchange if it sends. -/
  | go (exchange : ℕ)
  /-- The consumer notices the cancellation in its `select`. -/
  | stop
  /-- The consumer's `post` returns. -/
  | answer (outcome : Option Body)
  /-- `main` takes its next step. -/
  | main
deriving DecidableEq, Repr

/-- The next step of `consumer`, by itself. -/
def Process.go (s : Process) (x : ℕ) : Option Process :=
  match s.pc with
  | .check => some { s with pc := if s.cancelled then .exited else .post }
  | .post => some { s with pc := .claiming x s.now, log := s.log ++ [.claim s.now] }
  | .backoff since => if since + second ≤ s.now then some { s with pc := .check } else none
  | .idle since =>
    if since + 200 * millisecond ≤ s.now then some { s with pc := .check } else none
  | .working t since =>
    if since + t.duration ≤ s.now then
      some { s with pc := .acking t x s.now, log := s.log ++ [.ack t s.now] }
    else none
  | _ => none

/-- The consumer has the outcome of its exchange. -/
def Process.answer (s : Process) (outcome : Option Body) : Option Process :=
  match s.pc with
  | .claiming _ _ =>
    match afterClaim s.now outcome with
    | .working t since => some { s with pc := .working t since, log := s.log ++ [.receive t since] }
    | q => some { s with pc := q }
  | .acking _ _ _ => some { s with pc := .check }
  | _ => none

/-- The next step of `main`. -/
def Process.mainStep (s : Process) : Option Process :=
  match s.main with
  | .serving => if s.cancelled then some { s with main := .signalled } else none
  | .signalled => some { s with main := .waiting, draining := true }
  | .waiting => if s.done then some { s with main := .shutdown } else none
  | .shutdown => some { s with main := .exited }
  | .exited => none

def Process.step (s : Process) : Turn → Option Process
  | .tick d => some { s with now := s.now + d }
  | .cancel => some { s with cancelled := true }
  | .go x => s.go x
  | .stop =>
    match s.pc, s.cancelled with
    | .idle _, true => some { s with pc := .exited }
    | _, _ => none
  | .answer outcome => s.answer outcome
  | .main => s.mainStep

/-- Runs of a process in `consumer` mode. -/
def processLts : Lts Process Turn := Lts.ofFun {} Process.step

def Deed.isClaim : Deed → Bool
  | .claim _ => true
  | _ => false

/-- The number of claims sent. -/
def Process.claims (s : Process) : ℕ := s.log.countP Deed.isClaim

/-- The task a deed receives, and when. -/
def Deed.received? : Deed → Option (Task × ℕ)
  | .receive t time => some (t, time)
  | _ => none

end K8sDev.Queue

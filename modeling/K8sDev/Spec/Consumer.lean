import K8sDev.Spec.Broker
import Mathlib.Logic.Function.Basic

/-!
# Consumers over a network

Any number of processes running `consumer` of `hpa/advanced/main.go`, the broker they
share and the messages between them. Requests and responses may be delayed at will and
lost; a consumer gives an exchange up with an error at any time, and takes no response
later than the timeout of its client. `SIGTERM` only sets a flag.

`execs` is kept for the statements: it records who worked on which claim, and when.
-/

namespace K8sDev.Queue

/-- Where a consumer is in its loop. -/
inductive Pc
  /-- At the top of the loop. -/
  | check
  /-- Not cancelled when it looked, about to post `/claim`. -/
  | post
  | claiming (exchange sent : ℕ)
  /-- Sleeping after a failed claim. -/
  | backoff (since : ℕ)
  /-- In the `select`, with nothing to do. -/
  | idle (since : ℕ)
  | working (t : Task) (since : ℕ)
  | acking (t : Task) (exchange sent : ℕ)
  | exited
deriving DecidableEq, Repr

/-- One exchange in the network: the request until the broker has served it, then the
response. -/
structure Flight (ι : Type) where
  proc : ι
  call : Call
  resp : Option Response
deriving DecidableEq, Repr

/-- The work on one claim: from the response until the end of the sleep. -/
structure Exec (ι : Type) where
  proc : ι
  task : Task
  received : ℕ
  ended : Option ℕ
deriving DecidableEq, Repr

structure World (ι : Type) where
  now : ℕ := 0
  queue : Served := {}
  net : ℕ → Option (Flight ι) := fun _ => none
  /-- The next exchange. -/
  fresh : ℕ := 0
  pc : ι → Pc := fun _ => .check
  cancelled : ι → Bool := fun _ => false
  execs : List (Exec ι) := []

/-- What may happen next. -/
inductive Label (ι : Type)
  | tick (d : ℕ)
  /-- Somebody else calls the broker. -/
  | client (c : Call)
  /-- `SIGTERM`. -/
  | cancel (p : ι)
  /-- The consumer takes its next step. -/
  | go (p : ι)
  /-- The consumer notices the cancellation in its `select`. -/
  | stop (p : ι)
  | serve (exchange : ℕ)
  | deliver (exchange : ℕ)
  | lose (exchange : ℕ)
  /-- The client of the consumer reports an error. -/
  | abandon (p : ι)
  | kill (p : ι)
deriving DecidableEq, Repr

/-- The timeout of `client`. -/
def timeout : ℕ := 5 * second

/-- The sleep of a task. -/
def Task.duration (t : Task) : ℕ := t.durationMS * millisecond

/-- `post`: an error without a response, and one for a status of 300 or more. -/
def post (resp : Option Response) : Option Body :=
  match resp with
  | none => none
  | some r => if r.code ≥ 300 then none else some r.body

/-- Where `consumer` goes with the outcome of a claim. -/
def afterClaim (now : ℕ) (outcome : Option Body) : Pc :=
  match outcome with
  | none => .backoff now
  | some (.task t) => if t.id = 0 then .idle now else .working t now
  -- not a task: `Unmarshal` fails
  | some _ => .idle now

section step

variable {ι : Type} [DecidableEq ι]

def World.goto (w : World ι) (p : ι) (q : Pc) : World ι :=
  { w with pc := Function.update w.pc p q }

/-- Send a request and wait at `q`, which is given the exchange. -/
def World.send (w : World ι) (p : ι) (c : Call) (q : ℕ → Pc) : World ι :=
  { w with
    net := Function.update w.net w.fresh (some ⟨p, c, none⟩)
    fresh := w.fresh + 1
    pc := Function.update w.pc p (q w.fresh) }

def World.drop (w : World ι) (x : ℕ) : World ι :=
  { w with net := Function.update w.net x none }

/-- The work of one process ends. -/
def Exec.finish (p : ι) (now : ℕ) (e : Exec ι) : Exec ι :=
  if e.proc = p ∧ e.ended = none then { e with ended := some now } else e

def World.finish (w : World ι) (p : ι) : World ι :=
  { w with execs := w.execs.map (Exec.finish p w.now) }

/-- The process has the outcome of its claim. -/
def World.claimed (w : World ι) (p : ι) (outcome : Option Body) : World ι :=
  match afterClaim w.now outcome with
  | .working t since => { w.goto p (.working t since) with execs := w.execs ++ [⟨p, t, since, none⟩] }
  | q => w.goto p q

/-- The next step of `consumer`, by itself. -/
def World.go (host : ι → String) (w : World ι) (p : ι) : Option (World ι) :=
  match w.pc p with
  | .check => some (w.goto p (if w.cancelled p then .exited else .post))
  | .post => some (w.send p (claimCall (host p)) fun x => .claiming x w.now)
  | .backoff since => if since + second ≤ w.now then some (w.goto p .check) else none
  | .idle since => if since + 200 * millisecond ≤ w.now then some (w.goto p .check) else none
  | .working t since =>
    if since + t.duration ≤ w.now then
      some ((w.finish p).send p (ackCall t.id (host p)) fun x => .acking t x w.now)
    else none
  | _ => none

/-- A response reaches the process that still waits for it. -/
def World.deliver (w : World ι) (x : ℕ) : Option (World ι) :=
  match w.net x with
  | some ⟨p, _, some r⟩ =>
    match w.pc p with
    | .claiming y sent =>
      if y = x ∧ w.now ≤ sent + timeout then some ((w.drop x).claimed p (post (some r))) else none
    | .acking _ y sent =>
      -- the outcome is only logged
      if y = x ∧ w.now ≤ sent + timeout then some ((w.drop x).goto p .check) else none
    | _ => none
  | _ => none

def World.step (host : ι → String) (w : World ι) : Label ι → Option (World ι)
  | .tick d => some { w with now := w.now + d }
  | .client c =>
    if c.path = .claim ∨ c.path = .ack then none
    else some { w with queue := serve w.now c w.queue }
  | .cancel p => some { w with cancelled := Function.update w.cancelled p true }
  | .go p => w.go host p
  | .stop p =>
    match w.pc p, w.cancelled p with
    | .idle _, true => some (w.goto p .exited)
    | _, _ => none
  | .serve x =>
    match w.net x with
    | some ⟨p, c, none⟩ =>
      some { w with
        queue := serve w.now c w.queue
        net := Function.update w.net x (some ⟨p, c, some (handle w.now c w.queue.broker).1⟩) }
    | _ => none
  | .deliver x => w.deliver x
  | .lose x => some (w.drop x)
  | .abandon p =>
    match w.pc p with
    | .claiming _ _ => some (w.claimed p (post none))
    | .acking _ _ _ => some (w.goto p .check)
    | _ => none
  | .kill p => some ((w.finish p).goto p .exited)

/-- The system of the broker and the consumers, all of them starting. -/
def worldLts (host : ι → String) : Lts (World ι) (Label ι) := Lts.ofFun {} (World.step host)

end step

/-! ## Conditions on runs -/

/-- A sleep overshoots by at most `slack`. -/
def Pc.OnTime (slack now : ℕ) : Pc → Prop
  | .working t since => now ≤ since + t.duration + slack
  | _ => True

instance (slack now : ℕ) (q : Pc) : Decidable (q.OnTime slack now) := by
  cases q <;> unfold Pc.OnTime <;> infer_instance

/-- An exchange completes within the timeout, and a sleep overshoots by less than 10 s. -/
def Pc.Prompt (now : ℕ) : Pc → Prop
  | .claiming _ sent => now ≤ sent + timeout
  | .acking _ _ sent => now ≤ sent + timeout
  | .working t since => now < since + t.duration + 10 * second
  | _ => True

instance (now : ℕ) (q : Pc) : Decidable (q.Prompt now) := by
  cases q <;> unfold Pc.Prompt <;> infer_instance

/-- Messages are lost, exchanges fail and processes are killed. -/
def Label.Faulty {ι : Type} : Label ι → Prop
  | .lose _ | .abandon _ | .kill _ => True
  | _ => False

instance {ι : Type} (l : Label ι) : Decidable l.Faulty := by
  cases l <;> unfold Label.Faulty <;> infer_instance

variable {ι : Type} [DecidableEq ι]

/-- Runs over a lossy network in which sleeps overshoot by at most 15 s. -/
def lossyLts (host : ι → String) : Lts (World ι) (Label ι) :=
  (worldLts host).restrict fun _ _ w => ∀ p, (w.pc p).OnTime (15 * second) w.now

/-- Runs without faults in which every exchange completes in time. -/
def promptLts (host : ι → String) : Lts (World ι) (Label ι) :=
  (worldLts host).restrict fun _ l w => ¬l.Faulty ∧ ∀ p, (w.pc p).Prompt w.now

/-- The consumer has no exchange under way and no task in hand. -/
def Pc.AtRest : Pc → Prop
  | .claiming _ _ | .working _ _ | .acking _ _ _ => False
  | _ => True

end K8sDev.Queue

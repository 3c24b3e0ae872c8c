import K8sDev.Lts.Run
import Mathlib.Data.Finset.Insert
import Mathlib.Logic.Function.Basic

/-!
# The request and byte counters

`/request`, `/upload`, `/work` and the counters of `/metrics` in `hpa/advanced/main.go`. Any number
of handlers run at the same time; an access to `requests` or `processedBytes` is one atomic step.
The queue part of `/metrics` is `Queue.metrics`.

`counted` and `added` are kept for the statements: the handlers that have added to the counters,
and what a scrape saw of them.
-/

namespace K8sDev.Counters

/-- What arrives at `/upload`: the body ends after `size` bytes, or breaks off there. -/
structure Upload where
  method : String
  size : ℕ
  complete : Bool
deriving DecidableEq, Repr

/-- The limit given to `MaxBytesReader`. -/
def maxBytes : ℕ := 8 * 1024 * 1024

/-- `io.Copy` from the limited body: the number of bytes, or an error. -/
def Upload.copy (u : Upload) : Option ℕ :=
  if u.size > maxBytes ∨ u.complete = false then none else some u.size

/-- A call, by its handler. -/
inductive Call
  | request
  | upload (u : Upload)
  | work
  | metrics
deriving DecidableEq, Repr

/-- What `/request`, `/upload` and `/work` answer. -/
inductive Reply
  | error (text : String) (code : ℕ)
  | ok
  | processed (n : ℕ)
deriving DecidableEq, Repr

/-- Where a handler is. -/
inductive Pc (ι : Type)
  | start
  | reading (u : Upload)
  /-- About to add the bytes. -/
  | read (n : ℕ)
  /-- About to add the request. -/
  | added (n : ℕ)
  /-- About to answer. -/
  | counted (reply : Reply)
  | ended (reply : Reply)
  /-- `/metrics` has loaded `requests`. -/
  | loaded (r : ℕ) (counted : Finset ι)
  /-- `/metrics` has loaded `processedBytes`. -/
  | reported (r b : ℕ) (counted added : Finset ι)
deriving DecidableEq

structure State (ι : Type) where
  requests : ℕ := 0
  processedBytes : ℕ := 0
  pc : ι → Pc ι := fun _ => .start
  counted : Finset ι := ∅
  added : Finset ι := ∅

variable {ι : Type} [DecidableEq ι]

def State.goto (s : State ι) (i : ι) (q : Pc ι) : State ι :=
  { s with pc := Function.update s.pc i q }

/-- `requests.Add(1)`, on the way to this answer. -/
def State.count (s : State ι) (i : ι) (reply : Reply) : State ι :=
  { s with
    requests := s.requests + 1
    counted := insert i s.counted
    pc := Function.update s.pc i (.counted reply) }

/-- `processedBytes.Add(n)`. -/
def State.addBytes (s : State ι) (i : ι) (n : ℕ) : State ι :=
  { s with
    processedBytes := s.processedBytes + n
    added := insert i s.added
    pc := Function.update s.pc i (.added n) }

/-- The next step of the handler of call `i`. -/
def State.step (calls : ι → Call) (s : State ι) (i : ι) : Option (State ι) :=
  match s.pc i with
  | .start =>
    match calls i with
    | .request => some (s.count i .ok)
    | .work => some (s.count i .ok)
    | .upload u =>
      if u.method ≠ "POST" then some (s.goto i (.ended (.error "POST required" 405)))
      else some (s.goto i (.reading u))
    | .metrics => some (s.goto i (.loaded s.requests s.counted))
  | .reading u =>
    match u.copy with
    | none => some (s.goto i (.ended (.error "incomplete or oversized body" 400)))
    | some n => some (s.goto i (.read n))
  | .read n => some (s.addBytes i n)
  | .added n => some (s.count i (.processed n))
  | .counted reply => some (s.goto i (.ended reply))
  | .loaded r counted => some (s.goto i (.reported r s.processedBytes counted s.added))
  | .ended _ | .reported _ _ _ _ => none

/-- All interleavings of the handlers of these calls. -/
def countersLts (calls : ι → Call) : Lts (State ι) ι := Lts.ofFun {} (State.step calls)

/-- The handler does not run: it has not started, or has answered. -/
def Pc.Idle : Pc ι → Prop
  | .start | .ended _ | .reported _ _ _ _ => True
  | _ => False

/-- The call was answered without an error. -/
def Pc.Succeeded : Pc ι → Prop
  | .ended .ok | .ended (.processed _) => True
  | _ => False

/-- The size of the body, for an upload that is accepted. -/
def Call.accepted : Call → Option ℕ
  | .upload u => if u.method ≠ "POST" then none else u.copy
  | _ => none

def Call.size (c : Call) : ℕ := c.accepted.getD 0

end K8sDev.Counters

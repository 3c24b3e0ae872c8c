import K8sDev.Script.Basic

/-!
# The Volcano test suites

`run-tests.py`, whose `case` also runs the cases of `run-advanced.py` and `run-boundaries.py`: each
case starts from a clean namespace, an exception ends the case and not the suite, and the exit
status tells whether a case failed.
-/

namespace K8sDev.Suite

inductive Status
  | pass
  | fail
deriving DecidableEq, Repr

/-- A member of `RESULTS`; the times and the texts of the errors are left out. -/
structure Row where
  case : String
  status : Status
deriving DecidableEq, Repr

/-- The cluster, `RESULTS`, and what is in `results.json`, if there is one. -/
structure Lab where
  /-- `spec.replicas` of `deployment/volcano-scheduler`. -/
  scheduler : ℕ := 1
  results : List Row := []
  file : Option (List Row) := none
deriving DecidableEq, Repr

inductive Cmd
  /-- `kubectl scale deployment/volcano-scheduler`. -/
  | scale (replicas : ℕ)
  /-- `results.json` is written. -/
  | write
  /-- `k(…, check=False)` of which nobody asks whether it failed. -/
  | unchecked (text : String)
  /-- `k('create', …, check=False)` of what admission has to refuse: the case asserts that it
  failed. -/
  | rejected (text : String)
  /-- Anything else that may raise: a call of `k`, a wait, an assertion. -/
  | step (text : String)
deriving DecidableEq, Repr

def effect : Cmd → Lab → Option Lab
  | .scale replicas, w => some { w with scheduler := replicas }
  | .write, w => some { w with file := some w.results }
  | .unchecked _, w => some w
  | .rejected _, w => some w
  | .step _, w => some w

abbrev LabScript := Script Lab Cmd

def run (c : Cmd) : LabScript Unit := Script.exec effect c

def steps (texts : List String) : LabScript Unit := Script.forEach texts fun text => run (.step text)

/-- `k(…, check=False)`. It still raises when the command does not return within 100 s. -/
def kUnchecked (text : String) : LabScript Unit := do
  Script.tolerate (run (.unchecked text))
  run (.step ("return of " ++ text))

/-- `p = k('create', …, check=False)` in `closed` and `invalid`, down to the assertion
`p.returncode and … in p.stderr`. -/
def expectRejected (text : String) : LabScript Unit := do
  let p ← Script.raised (run (.rejected text))
  steps ["return of " ++ text, "write admission.log"]
  Script.check p
  run (.step ("assert reason of " ++ text))

def clean : LabScript Unit := do
  kUnchecked "delete jobs.batch.volcano.sh,pods,podgroups --all"
  run (.step "wait no pods")
  kUnchecked "delete queues -l lab=volcano"

def config : LabScript Unit :=
  steps ["get cm volcano-scheduler-configmap", "apply volcano-scheduler-configmap",
    "rollout restart deployment/volcano-scheduler", "rollout status deployment/volcano-scheduler"]

def applyQueue : LabScript Unit := run (.step "apply queue lab")

/-- The log of the scheduler is read with `check=False`. -/
def snapshot : LabScript Unit := do
  steps ["get pods", "get jobs.batch.volcano.sh", "get podgroups", "get events", "get queues"]
  kUnchecked "logs deployment/volcano-scheduler"

/-- `if mode: config(mode)`. -/
def configIf (mode : Bool) : LabScript Unit := if mode then config else pure ()

/-- What `case` runs under its first `try`. -/
def attempt (fn : LabScript Unit) (mode : Bool) : LabScript Unit := do
  clean
  configIf mode
  applyQueue
  fn

/-- `case`. An exception of `fn` does not keep `snapshot` from being taken. -/
def case (name : String) (fn : LabScript Unit) (mode : Bool) : LabScript Unit := do
  let error ← Script.raised (attempt fn mode)
  let error' ← Script.raised snapshot
  let status := if error || error' then Status.fail else .pass
  Script.assign fun w => { w with results := w.results ++ [⟨name, status⟩] }
  run .write

/-- A member of `tests`: the name, the function, and whether it has a mode. -/
structure Test where
  name : String
  fn : LabScript Unit
  mode : Bool := false

/-- `not args.only or any(name.startswith(x) for x in args.only.split(','))`. -/
def selects (only name : String) : Bool :=
  only == "" || (only.toList.splitOn ',').any fun x => x.isPrefixOf name.toList

/-- The names of the cases that run. -/
def selected (only : String) (tests : List Test) : List String :=
  (tests.filter fun test => selects only test.name).map Test.name

/-- The end of each file: the selected cases, and whether the exit status is 1. An exception is
exit status 1, too. -/
def runSelected (only : String) (tests : List Test) : LabScript Bool := do
  Script.forEach (tests.filter fun test => selects only test.name) fun test =>
    case test.name test.fn test.mode
  clean
  let w ← Script.read
  return w.results.any fun row => row.status == .fail

/-- Whether the process exits with status 0. -/
def exitsZero (outcome : Option Bool) : Bool := outcome == some false

end K8sDev.Suite

import K8sDev.Poll.Loop
import Mathlib.Data.Int.Notation

/-!
# Waiting

The `wait` of the test programs: a check is made and made again, with a sleep between, until it
returns something or the time is over. Times are milliseconds of the monotonic clock. Last, the
part of `hpa/advanced/run.py` that asks that the replicas stay where they are.
-/

namespace K8sDev.Polling

open Poll

variable {α : Type}

/-- The sleep between two checks and the time a `wait` is given. -/
structure Wait where
  interval : ℕ
  timeout : ℕ
  interval_pos : 0 < interval

/-- One turn of a `wait`: how long its check takes, what it returns, and how much longer than the
interval the sleep after it is. -/
structure Round (α : Type) where
  took : ℕ
  check : Check α
  late : ℕ

def Wait.turn (w : Wait) (r : Round α) : Turn α := ⟨r.took, r.check, w.interval + r.late⟩

/-- `while time.monotonic() < deadline`. -/
def Wait.run (w : Wait) (start : ℕ) (rounds : List (Round α)) : List (Sample α) × Outcome α :=
  poll (start + w.timeout) start (rounds.map w.turn)

/-- `wait` of `deep-dive-common/lab.py`. -/
def DeepDiveCommon.wait (timeout : Option ℕ) : Wait :=
  ⟨2000, timeout.getD 180000, by decide⟩

/-- `wait` of `article-next-common/lab.py`. -/
def ArticleNextCommon.wait (timeout : Option ℕ) : Wait :=
  ⟨2000, timeout.getD 180000, by decide⟩

/-- `wait` of `article-image-lifecycle/run.py`. -/
def ArticleImageLifecycle.wait (timeout : Option ℕ) : Wait :=
  ⟨2000, timeout.getD 180000, by decide⟩

/-- `wait` of `article-resources-scheduling/run.py`; those of `-storage`, `-runtime` and `-memory`
are the same text. -/
def ArticleResources.wait (timeout : Option ℕ) : Wait :=
  ⟨1000, timeout.getD 180000, by decide⟩

/-- `wait_for` of `article-upgrade/run.py`. -/
def ArticleUpgrade.waitFor (timeout : Option ℕ) : Wait :=
  ⟨1000, timeout.getD 180000, by decide⟩

/-- `wait` of `volcano-hami/run-tests.py`. -/
def VolcanoHami.wait (timeout : Option ℕ) : Wait :=
  ⟨1000, timeout.getD 70000, by decide⟩

/-- `wait` of `pod-lifecycle-source/run.py`. -/
def PodLifecycleSource.wait (timeout : Option ℕ) : Wait :=
  ⟨500, timeout.getD 240000, by decide⟩

/-- `until` of `article-control-gc/run.py`. -/
def ArticleControlGc.until : Wait := ⟨500, 90000, by decide⟩

/-- `until` of `article-control-rollout/run.py`. -/
def ArticleControlRollout.until : Wait := ⟨500, 120000, by decide⟩

/-- `until` of `article-control-ha/components.py`. -/
def ArticleControlHa.until : Wait := ⟨1000, 150000, by decide⟩

namespace HpaAdvanced

/-- `wait_for`, whose check is a predicate of a `snapshot`. -/
def waitFor (timeout : Option ℕ) : Wait := ⟨5000, timeout.getD 240000, by decide⟩

/-- What `application_throughput` reads of a row of `snapshot`: its time, now of the wall clock,
`requested`, and the ready replicas of the Deployment, which an empty status leaves out. -/
structure Row where
  time : ℕ
  requested : Option ℕ
  readyReplicas : Option ℕ

/-- One turn of `hold`: how long the `snapshot` takes, its row, and how much longer than the five
seconds the sleep after it is. -/
structure Snapshot where
  took : ℕ
  row : Row
  late : ℕ

/-- The rows of `while time.monotonic() < end`, or `none` while it runs. -/
def holdUntil (deadline : ℕ) : ℕ → List Snapshot → Option (List Row)
  | now, [] => if now < deadline then none else some []
  | now, x :: rest =>
    if now < deadline then
      (holdUntil deadline (now + x.took + (5000 + x.late)) rest).map (x.row :: ·)
    else some []

def hold (milliseconds now : ℕ) (snapshots : List Snapshot) : Option (List Row) :=
  holdUntil (now + milliseconds) now snapshots

/-- `(b - a).total_seconds() < 15 for a, b in zip(times, times[1:])`. -/
def uninterrupted (rows : List Row) : Bool :=
  (rows.zip rows.tail).all fun ab => decide ((ab.2.time : ℤ) - ab.1.time < 15000)

def atTarget (replicas : ℕ) (row : Row) : Bool :=
  row.requested == some replicas && row.readyReplicas == some replicas

/-- The two assertions of `application_throughput` about the 45 seconds after `steady`. -/
def staysAt (replicas : ℕ) (rows : List Row) : Bool :=
  uninterrupted rows && rows.all (atTarget replicas)

end HpaAdvanced

end K8sDev.Polling

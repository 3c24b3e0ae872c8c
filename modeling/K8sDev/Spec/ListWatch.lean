import K8sDev.Log.Versioned

/-!
# List and watch

The client of `article-watch-consistency`: it lists the Pods, watches from the version of the
list until a Pod it has created appears, and watches again from the last version it has seen
until that Pod is deleted. The API server is code of others: it keeps a log of changes, and what
a connection delivers is described by `Served`.
-/

namespace K8sDev.ListWatch

/-- `type` of an event. -/
inductive EventType
  | added
  | modified
  | deleted
  | bookmark
  | error
deriving DecidableEq, Repr

/-- A line of a watch, as far as it is read: `object.metadata` may lack either field. -/
structure Event where
  type : EventType
  name : Option String
  resourceVersion : Option ℕ
deriving DecidableEq, Repr

/-- The first line that is asked for ends the loop; `none` if the connection ends before. -/
def readUntil (done : Event → Bool) : ℕ → List Event → Option (List Event × ℕ)
  | _, [] => none
  | lastRv, event :: lines =>
    let lastRv := event.resourceVersion.getD lastRv
    if done event then some ([event], lastRv)
    else (readUntil done lastRv lines).map fun r => (event :: r.1, r.2)

/-- `event["type"] == type and name == "after"`. -/
def isAfter (type : EventType) (event : Event) : Bool :=
  event.type = type && event.name = some "after"

/-- What the script saves. -/
structure Evidence where
  resourceVersion : ℕ
  pods : List (String × ℕ)
  created : List Event
  lastResourceVersion : ℕ
  reconnected : List Event

/-- The script after the list, by what the two connections deliver when they start from a
version; `none` is an `AssertionError`. -/
def listWatch (listRv : ℕ) (pods : List (String × ℕ)) (first second : ℕ → List Event) :
    Option Evidence :=
  (readUntil (isAfter .added) listRv (first listRv)).bind fun r =>
    -- the version that the second loop ends with is not used any more
    (readUntil (isAfter .deleted) r.2 (second r.2)).map fun r' => ⟨listRv, pods, r.1, r.2, r'.1⟩

/-! ## The API server -/

/-- A change of a Pod, at a revision. -/
structure Change where
  kind : EventType
  name : String
  revision : ℕ
  isChange : kind ≠ .bookmark ∧ kind ≠ .error

def Change.event (c : Change) : Event := ⟨c.kind, some c.name, some c.revision⟩

abbrev History := VersionLog Change Change.revision

/-- The Pods, with the revision of the last change of each. -/
abbrev Pods := String → Option ℕ

/-- What an event says about the Pods. -/
def applyEvent (pods : Pods) (event : Event) : Pods :=
  match event.name with
  | none => pods
  | some name => Function.update pods name
      (if event.type = .deleted then none else event.resourceVersion)

def applyChange (pods : Pods) (c : Change) : Pods := applyEvent pods c.event

/-- The Pods at a revision. -/
def podsAt (history : History) (revision : ℕ) : Pods :=
  history.stateAt applyChange (fun _ => none) revision

/-- A list at a revision. -/
def Listed (history : History) (revision : ℕ) (pods : List (String × ℕ)) : Prop :=
  ∀ name, pods.lookup name = podsAt history revision name

/-- A watch from a revision delivers the changes since, in order, until it breaks; it may end with
an error, such as the one for a revision that is too old. -/
def Served (history : History) (revision : ℕ) (lines : List Event) : Prop :=
  ∃ changes error, lines = changes.map Change.event ++ error ∧ changes <+: history.since revision ∧
    (error = [] ∨ error = [⟨.error, none, none⟩])

end K8sDev.ListWatch

import K8sDev.Json.Merge
import K8sDev.Lts.Run

/-!
# Reconciling an effect

`reconcile` of `deep-dive-reconcile` against an API server that holds the objects of one
namespace. Every call of `kubectl` is a step; between steps the process may die, and `desired`
may be edited.
-/

namespace K8sDev.Reconcile

open Json

/-- The objects of the namespace, by name. -/
abbrev Objects := List (String × Json)

/-- `kubectl create`: `none` is the answer `AlreadyExists`. -/
def create (objects : Objects) (name : String) (obj : Json) : Option Objects :=
  if (objects.lookup name).isSome then none else some (objects ++ [(name, obj)])

/-- `Lab.patch`: a merge patch; `none` if there is no such object. -/
def patch (objects : Objects) (name : String) (value : Json) : Option Objects :=
  (objects.lookup name).map fun obj => setMember name (value.mergePatch (some obj)) objects

/-- `'effect-' + uid`. -/
def effectName (uid : String) : String := "effect-" ++ uid

/-- The object that `reconcile` creates. -/
def effectObject (name : String) (data : Json) : Json :=
  .obj [("apiVersion", .str "v1"), ("kind", .str "ConfigMap"),
    ("metadata", .obj [("name", .str name), ("labels", .obj [("app", .str "effect")])]),
    ("data", data)]

/-- What the final check counts: objects with the label `app=effect`. -/
def isEffect (obj : Json) : Bool :=
  match obj.path? ["metadata", "labels", "app"] with
  | some (.str app) => app = "effect"
  | _ => false

def observed : String := "lab.example.com/observed"

/-- The patch that records the observed value. -/
def observedPatch (value : Json) : Json :=
  .obj [("metadata", .obj [("annotations", .obj [(observed, value)])])]

/-- `desired['metadata']['uid']` and `desired['data']`; `none` is an exception. -/
def view (desired : Json) : Option (String × Json) :=
  match desired.path? ["metadata", "uid"], desired.get? "data" with
  | some (.str uid), some data => some (uid, data)
  | _, _ => none

/-- The members of an object's `data`. -/
def dataOf (obj : Json) : List (String × Json) := (obj.get? "data").elim [] membersOf

/-- Where `reconcile` is, with what it has read. -/
inductive Pc
  | idle
  | read (desired : Json)
  /-- `create` was answered `AlreadyExists`. -/
  | present (desired : Json)
  /-- The effect is written. -/
  | written (desired : Json)
  | finished

/-- For the statements, `edited` says whether `desired` was edited since it was read last, and
`kept` whether the last write of the effect left no key behind. -/
structure Cluster where
  objects : Objects
  pc : Pc := .idle
  edited : Bool := false
  kept : Bool := true

inductive Action
  /-- Somebody replaces the data of `desired`. -/
  | edit (data : List (String × String))
  | get
  | create
  | patch
  | annotate
  | die

/-- The process ends, by an exception or a crash. -/
def Cluster.dead (s : Cluster) : Cluster := { s with pc := .idle }

def Cluster.edit (s : Cluster) (data : List (String × String)) : Option Cluster :=
  if (data.map Prod.fst).Nodup ∧ (data.lookup "value").isSome then
    (s.objects.lookup "desired").map fun desired =>
      { s with
        objects := setMember "desired"
          (.obj (setMember "data" (.obj (strings data)) desired.membersOf)) s.objects
        edited := true }
  else none

/-- `l.get('configmap', 'desired')`. -/
def Cluster.get (s : Cluster) : Cluster :=
  match s.objects.lookup "desired" with
  | some desired => { s with pc := .read desired, edited := false }
  | none => s.dead

/-- `k('create', ..)`. -/
def Cluster.create (s : Cluster) (desired : Json) : Cluster :=
  match view desired with
  | none => s.dead
  | some (uid, data) =>
    match Reconcile.create s.objects (effectName uid) (effectObject (effectName uid) data) with
    | some objects => { s with objects := objects, pc := .written desired, kept := true }
    | none => { s with pc := .present desired }

/-- `l.patch('configmap', name, {'data': desired['data']})`. -/
def Cluster.patch (s : Cluster) (desired : Json) : Cluster :=
  match view desired with
  | none => s.dead
  | some (uid, data) =>
    match s.objects.lookup (effectName uid),
      Reconcile.patch s.objects (effectName uid) (.obj [("data", data)]) with
    | some effect, some objects =>
      { s with
        objects := objects
        pc := .written desired
        kept := keysKept (dataOf effect) (dataOf desired) }
    | _, _ => s.dead

/-- The patch of `desired`. -/
def Cluster.annotate (s : Cluster) (desired : Json) : Cluster :=
  match desired.path? ["data", "value"] with
  | none => s.dead
  | some value =>
    match Reconcile.patch s.objects "desired" (observedPatch value) with
    | some objects => { s with objects := objects, pc := .finished }
    | none => s.dead

def Cluster.step (s : Cluster) (a : Action) : Option Cluster :=
  match a, s.pc with
  | .edit data, _ => s.edit data
  | .get, .idle | .get, .finished => some s.get
  | .create, .read desired => some (s.create desired)
  | .patch, .present desired => some (s.patch desired)
  | .annotate, .written desired => some (s.annotate desired)
  | .die, .read _ | .die, .present _ | .die, .written _ => some s.dead
  | _, _ => none

/-- Runs of `reconcile`, one after the other, from these objects on. -/
def cluster (objects : Objects) : Lts Cluster Action :=
  Lts.ofFun { objects := objects } Cluster.step

end K8sDev.Reconcile

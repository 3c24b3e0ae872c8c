import K8sDev.Script.Basic

/-!
# Stopping the control plane

`components.py` and `api-outage.py` of the control plane experiments take the manifests of static
pods away from the nodes, look at the cluster without them, and put them back.
-/

namespace K8sDev.StaticPods

/-- `article-control-control-plane` with the suffixes of `NODES`. -/
inductive Node
  | first
  | second
  | third
deriving DecidableEq, Repr

/-- `NODES`. -/
def nodes : List Node := [.first, .second, .third]

inductive Component
  | scheduler
  | controllerManager
  | apiserver
deriving DecidableEq, Repr

/-- The nodes, and the variable `stopped` (in `api-outage.py`: `disabled`). -/
structure Lab where
  /-- The manifest is in `/etc/kubernetes/manifests/`; if not, in `article-disabled`. -/
  inPlace : Node → Component → Bool
  /-- `/etc/kubernetes/article-disabled` is there. -/
  disabledDir : Node → Bool
  stopped : List Node

/-- What the scripts run. -/
inductive Cmd
  | mkdir (node : Node)
  /-- `mv` from `manifests/` to `article-disabled/`. -/
  | disable (node : Node) (component : Component)
  /-- `mv` back. -/
  | enable (node : Node) (component : Component)
  /-- Anything that may raise and touches no manifest: a call of `kubectl`, a wait, an assertion. -/
  | step (text : String)
deriving DecidableEq, Repr

def Lab.place (w : Lab) (node : Node) (component : Component) (b : Bool) : Lab :=
  { w with
    inPlace := fun n c => if n = node ∧ c = component then b else w.inPlace n c }

/-- What a command does: `mv` needs its source, and the directory it moves into. -/
def effect : Cmd → Lab → Option Lab
  | .mkdir node, w => some { w with disabledDir := fun n => if n = node then true else w.disabledDir n }
  | .disable node component, w =>
    if w.inPlace node component = true ∧ w.disabledDir node = true then
      some (w.place node component false)
    else none
  | .enable node component, w =>
    if w.inPlace node component = true then none else some (w.place node component true)
  | .step _, w => some w

abbrev LabScript := Script Lab Cmd

def run (c : Cmd) : LabScript Unit := Script.exec effect c

def steps (texts : List String) : LabScript Unit := Script.forEach texts fun text => run (.step text)

/-- `stopped.append(node)`. -/
def append (node : Node) : LabScript Unit :=
  Script.assign fun w => { w with stopped := w.stopped ++ [node] }

/-- The loop of the `finally`. -/
def restore (component : Component) : LabScript Unit := do
  let w ← Script.read
  Script.forEach w.stopped fun node => run (.enable node component)

/-- The `try` with its `finally`. `before` is what comes before the `mv` of a node, `body` what comes
after the loop. -/
def outage (component : Component) (before : Node → LabScript Unit) (body : List String) :
    LabScript Unit := do
  Script.assign fun w => { w with stopped := [] }
  Script.tryFinally
    (do
      Script.forEach nodes fun node => do
        before node
        run (.disable node component)
        append node
      steps body)
    (restore component)

/-- `components.py`, between the loop and the `finally`. -/
def observe : Component → List String
  | .scheduler =>
    ["until kube-scheduler: all processes stopped", "run needs-scheduler", "get pod needs-scheduler",
      "assert not nodeName"]
  | _ =>
    ["until kube-controller-manager: all processes stopped", "get pods -l app=baseline",
      "scale deployment baseline --replicas=3", "get deployment baseline", "assert replicas == 3",
      "assert len(items) == before"]

/-- `components.py`, after the `finally`. -/
def converge : Component → List String
  | .scheduler => ["wait pod/needs-scheduler --for=condition=Ready"]
  | _ => ["rollout status deployment/baseline"]

/-- `components.py`. -/
def components : LabScript Unit :=
  Script.forEach [.scheduler, .controllerManager] fun component => do
    outage component (fun node => run (.mkdir node)) (observe component)
    steps (converge component)

/-- `api-outage.py`. It makes no directory. -/
def apiOutage : LabScript Unit := do
  steps ["create existing-http", "wait pod/existing-http --for=condition=Ready", "get pod existing-http"]
  outage .apiserver (fun _ => pure ())
    ["while any kube-apiserver", "assert get pods fails", "curl the pod"]
  steps ["get pod existing-http until it answers", "assert uid", "assert containerID"]

/-! ## What is left behind -/

/-- Every manifest is in its place. -/
def Lab.Intact (w : Lab) : Prop := ∀ n c, w.inPlace n c = true

/-- At most one component is away, wherever it is. -/
def Lab.OneAway (w : Lab) : Prop :=
  ∀ n n' c c', w.inPlace n c = false → w.inPlace n' c' = false → c = c'

end K8sDev.StaticPods

import K8sDev.Spec.Admission
import Mathlib.Data.Finmap
import Mathlib.Data.List.Sort

/-!
# The admission webhook

`Service` of `admission-webhook` with its methods, and the `/mutate` handler, which repeats
`Mutate` without calling it. A call runs here from start to end; the steps between which other
requests can run are told apart in `Service.nodeName` (`Load`, `Next`) and `Service.store`.

The encoding of pods and the computation of patches are code of others (`Codec`).
-/

namespace K8sDev.Webhook

/-- `corev1.Node`; only its name is read. -/
structure Node where
  name : String
deriving DecidableEq, Repr

/-- `corev1.Pod`: what the service reads and writes, and the rest. A nil map is `none`. -/
structure Pod (ρ : Type) where
  name : String
  nodeSelector : Option (Finmap fun _ : String => String)
  rest : ρ
deriving DecidableEq

/-- `json.Unmarshal` and `json.Marshal` on pods, and `jsonpatch.CreatePatch`. -/
structure Codec (ρ : Type) where
  unmarshal : Option Json → Except String (Pod ρ)
  marshal : Pod ρ → Except String Json
  createPatch : Option Json → Json → Except String Json

/-- `Service`. The index is never negative. -/
structure Service where
  nodeList : List Node
  cache : String → Option String := fun _ => none
  next : ℕ := 0

variable {ρ : Type}

/-- The order of `sort.Slice` in `reload`. -/
def Node.le (a b : Node) : Prop := a.name ≤ b.name

instance : DecidableRel Node.le := fun a b => inferInstanceAs (Decidable (a.name ≤ b.name))

/-- `reload`, given what the API server lists. -/
def Service.reload (p : Service) : Except String (List Node) → Service
  | .error _ => p
  | .ok items => { p with nodeList := items.insertionSort Node.le }

/-- `Next`; `none` is the division by zero on an empty list. -/
def Service.nextNode (p : Service) : Option (Node × Service) :=
  let next := (p.next + 1) % p.nodeList.length
  p.nodeList[next]?.map fun node => (node, { p with next := next })

/-- `cache.Load`, and `Next` on a miss. -/
def Service.nodeName (p : Service) (name : String) : Option (String × Service) :=
  match p.cache name with
  | some nodeName => some (nodeName, p)
  | none => p.nextNode.map fun (node, p) => (node.name, p)

/-- `cache.Store`. -/
def Service.store (p : Service) (name nodeName : String) : Service :=
  { p with cache := Function.update p.cache name (some nodeName) }

/-- The label of a node's name. -/
def hostname : String := "kubernetes.io/hostname"

/-- The assignment into `pod.Spec.NodeSelector`; `none` is the panic on a nil map. -/
def Pod.select (pod : Pod ρ) (nodeName : String) : Option (Pod ρ) :=
  pod.nodeSelector.map fun selector =>
    { pod with nodeSelector := some (selector.insert hostname nodeName) }

/-- `strings.HasPrefix`. -/
def hasPrefix (s start : String) : Bool := start.toList.isPrefixOf s.toList

/-- The pods that `Mutate` is for. -/
def Pod.importer (pod : Pod ρ) : Bool := hasPrefix pod.name "importer-vm"

/-- `slog.Info("mutate pod", ..)`. -/
structure LogLine where
  namespace_ : String
  name : String
  nodeName : String
deriving DecidableEq, Repr

/-- A finished call: its answer, what it logged, and the service it leaves. -/
structure Call (α : Type) where
  answer : α
  log : Option LogLine
  svc : Service

/-! ## From the pod to its bytes -/

/-- How the common part of `Mutate` and the handler ends. -/
inductive Assigned (ρ : Type)
  | panic
  | marshalError (err : String)
  | done (pod : Pod ρ) (nodeName : String) (mutatedData : Json)

/-- From `cache.Load` to `cache.Store`. -/
def Service.assign (c : Codec ρ) (p : Service) (pod : Pod ρ) : Assigned ρ × Service :=
  match p.nodeName pod.name with
  | none => (.panic, p)
  | some (nodeName, p) =>
    match pod.select nodeName with
    | none => (.panic, p)
    | some pod =>
      match c.marshal pod with
      | .error err => (.marshalError err, p)
      | .ok mutatedData => (.done pod nodeName mutatedData, p.store pod.name nodeName)

/-! ## `Mutate` -/

inductive Mutated
  | panic
  | error (err : String)
  | returned (mutatedData : Option Json) (mutate : Bool)

/-- `Mutate`. -/
def Service.mutate [DecidableEq ρ] (c : Codec ρ) (p : Service) (req : AdmissionRequest) :
    Call Mutated :=
  match c.unmarshal req.object with
  | .error err => ⟨.error err, none, p⟩
  | .ok rawPod =>
    if rawPod.importer = false then ⟨.returned none false, none, p⟩
    else
      match p.assign c rawPod with
      | (.panic, p) => ⟨.panic, none, p⟩
      | (.marshalError err, p) => ⟨.error err, none, p⟩
      | (.done pod nodeName mutatedData, p) =>
        ⟨.returned (some mutatedData) (rawPod ≠ pod), some ⟨req.namespace_, req.name, nodeName⟩, p⟩

/-! ## The `/mutate` handler -/

/-- `admissionv1.AdmissionResponse`; `patch` is `none` when the field is not set. -/
structure AdmissionResponse where
  uid : String
  allowed : Bool
  patch : Option Json := none

/-- `admissionv1.AdmissionReview`, as an answer. -/
structure AdmissionReview where
  kind : String
  apiVersion : String
  response : AdmissionResponse

/-- What the body of a request holds: no JSON value, or one. -/
inductive Body
  | malformed (err : String)
  | json (value : Json)

/-- The error whose text `http.Error` sends. -/
inductive HandlerError
  | decode (err : String)
  | decodeType (err : UnmarshalTypeError)
  | marshal (err : String)
  | createPatch (err : String)

inductive Reply
  | panic
  /-- `http.Error(w, err.Error(), status)` -/
  | error (status : ℕ) (err : HandlerError)
  /-- Nothing was written: `net/http` answers 200 with an empty body. -/
  | nothing
  /-- 200 with an encoded review -/
  | review (resp : AdmissionReview)

/-- `http.StatusBadRequest`. -/
def badRequest : ℕ := 400

/-- The handler once the request is decoded. The error of `json.Unmarshal` is a variable of
its own, which the deferred function does not see. -/
def Service.serve (c : Codec ρ) (p : Service) (req : AdmissionRequest) : Call Reply :=
  match c.unmarshal req.object with
  | .error _ => ⟨.nothing, none, p⟩
  | .ok pod =>
    match p.assign c pod with
    | (.panic, p) => ⟨.panic, none, p⟩
    | (.marshalError err, p) => ⟨.error badRequest (.marshal err), none, p⟩
    | (.done _ nodeName mutatedData, p) =>
      let log := some ⟨req.namespace_, req.name, nodeName⟩
      match c.createPatch req.object mutatedData with
      | .error err => ⟨.error badRequest (.createPatch err), log, p⟩
      -- the patch is not used
      | .ok _ => ⟨.review ⟨"AdmissionReview", "admission.k8s.io/v1", { uid := req.uid, allowed := true }⟩,
          log, p⟩

/-- The `/mutate` handler. -/
def Service.handle (c : Codec ρ) (p : Service) (body : Body) : Call Reply :=
  match body with
  | .malformed err => ⟨.error badRequest (.decode err), none, p⟩
  | .json value =>
    match decodeRequest value with
    | .error err => ⟨.error badRequest (.decodeType err), none, p⟩
    | .ok req => p.serve c req

/-! ## What the steps do -/

@[simp] theorem store_cache_self (p : Service) (name nodeName : String) :
    (p.store name nodeName).cache name = some nodeName := by
  simp [Service.store]

@[simp] theorem store_next (p : Service) (name nodeName : String) :
    (p.store name nodeName).next = p.next := rfl

@[simp] theorem store_nodeList (p : Service) (name nodeName : String) :
    (p.store name nodeName).nodeList = p.nodeList := rfl

/-- The node at the next index. -/
theorem nextNode_eq_some {p q : Service} {node : Node} (h : p.nextNode = some (node, q)) :
    node ∈ p.nodeList ∧ q = { p with next := (p.next + 1) % p.nodeList.length } := by
  simp only [Service.nextNode, Option.map_eq_some_iff, Prod.mk.injEq] at h
  obtain ⟨node', hget, rfl, rfl⟩ := h
  exact ⟨List.mem_of_getElem? hget, rfl⟩

/-- `Next` only fails on an empty list. -/
theorem nextNode_isSome {p : Service} : p.nextNode.isSome ↔ p.nodeList ≠ [] := by
  unfold Service.nextNode
  rw [Option.isSome_map, isSome_getElem?, ← List.length_pos_iff]
  exact ⟨Nat.zero_lt_of_lt, Nat.mod_lt _⟩

/-- The node name that the next call for a pod of this name uses. -/
def Service.chosen (p : Service) (name : String) : Option String :=
  (p.cache name).or (p.nodeList[(p.next + 1) % p.nodeList.length]?.map Node.name)

/-- The service after that choice: a name that is not cached takes a turn. -/
def Service.drawn (p : Service) (name : String) : Service :=
  if (p.cache name).isSome then p else { p with next := (p.next + 1) % p.nodeList.length }

theorem nodeName_eq (p : Service) (name : String) :
    p.nodeName name = (p.chosen name).map fun nodeName => (nodeName, p.drawn name) := by
  unfold Service.nodeName Service.chosen Service.drawn Service.nextNode
  cases p.cache name with
  | some nodeName => rfl
  | none => simp [Option.map_map, Function.comp_def]

@[simp] theorem drawn_cache (p : Service) (name : String) : (p.drawn name).cache = p.cache := by
  unfold Service.drawn
  split <;> rfl

@[simp] theorem drawn_nodeList (p : Service) (name : String) :
    (p.drawn name).nodeList = p.nodeList := by
  unfold Service.drawn
  split <;> rfl

theorem chosen_isSome {p : Service} (h : p.nodeList ≠ []) (name : String) :
    ∃ nodeName, p.chosen name = some nodeName := by
  rw [← nextNode_isSome, Service.nextNode, Option.isSome_map] at h
  obtain ⟨node, hnode⟩ := Option.isSome_iff_exists.1 h
  unfold Service.chosen
  rw [hnode]
  cases p.cache name with
  | some nodeName => exact ⟨nodeName, rfl⟩
  | none => exact ⟨node.name, rfl⟩

theorem select_eq_some {pod pod' : Pod ρ} {nodeName : String} (h : pod.select nodeName = some pod') :
    ∃ selector, pod.nodeSelector = some selector ∧
      pod' = { pod with nodeSelector := some (selector.insert hostname nodeName) } := by
  obtain ⟨selector, hselector, rfl⟩ := Option.map_eq_some_iff.1 h
  exact ⟨selector, hselector, rfl⟩

theorem select_name {pod pod' : Pod ρ} {nodeName : String} (h : pod.select nodeName = some pod') :
    pod'.name = pod.name := by
  obtain ⟨selector, -, rfl⟩ := select_eq_some h
  rfl

/-- A call that gets through. -/
theorem assign_done {c : Codec ρ} {p : Service} {pod pod' : Pod ρ} {nodeName : String} {data : Json}
    (hchosen : p.chosen pod.name = some nodeName) (hselect : pod.select nodeName = some pod')
    (hmarshal : c.marshal pod' = .ok data) :
    p.assign c pod = (.done pod' nodeName data, (p.drawn pod.name).store pod.name nodeName) := by
  unfold Service.assign
  rw [nodeName_eq, hchosen]
  simp only [Option.map_some, hselect, hmarshal, select_name hselect]

end K8sDev.Webhook

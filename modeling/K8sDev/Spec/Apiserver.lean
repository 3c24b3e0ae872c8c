import K8sDev.Table.Basic

/-!
# The admission API server

`admission-webhook/pkg/apiserver`: hooks are grouped by the API group and version of the
resource they are hosted at, and each becomes the storage of that resource, so that creating an
`AdmissionReview` there calls the hook. The generic server of `k8s.io/apiserver` is a parameter:
`New` hands it API groups and post-start hooks, and gives up at the first it refuses.

The maps are ranged over in an order of the runtime's choice (`Table.RangeOrder`).
-/

namespace K8sDev.Apiserver

structure GroupVersion where
  group : String
  version : String
deriving DecidableEq, Repr

structure GroupVersionResource where
  group : String
  version : String
  resource : String
deriving DecidableEq, Repr

def GroupVersionResource.groupVersion (gvr : GroupVersionResource) : GroupVersion :=
  ⟨gvr.group, gvr.version⟩

/-- `AdmissionRequest` of either version. The server itself reads the `UID` only. -/
structure AdmissionRequest (α : Type) where
  uid : String
  rest : α

/-- `AdmissionResponse` of either version. The server itself sets the `UID` only. -/
structure AdmissionResponse (β : Type) where
  uid : String
  rest : β

/-- `AdmissionReview`. Both fields are pointers. -/
structure AdmissionReview (α β : Type) where
  request : Option (AdmissionRequest α)
  response : Option (AdmissionResponse β)

/-- `runtime.Object`: what a request body is decoded to. -/
inductive Object (α β : Type)
  | v1beta1 (review : AdmissionReview α β)
  | v1 (review : AdmissionReview α β)

/-- `AdmissionHookFunc` and `AdmissionV1HookFunc`, from pointer to pointer. -/
abbrev HookFunc (α β : Type) := Option (AdmissionRequest α) → Option (AdmissionResponse β)

/-- `Admit` or `Validate` of a hook. A Go type has one method of a name, so it is for one of the
two versions. -/
inductive Method (α β : Type)
  | v1beta1 (hookFn : HookFunc α β)
  | v1 (hookFn : HookFunc α β)

/-- `AdmissionHook` with the methods its type has: with `MutatingResource` it implements
`MutatingAdmissionHook`, and with `Admit` besides the interface of that version. -/
structure AdmissionHook (α β : Type) where
  mutatingResource : Option GroupVersionResource := none
  admitMethod : Option (Method α β) := none
  validatingResource : Option GroupVersionResource := none
  validateMethod : Option (Method α β) := none

/-- `admissionHookWrapper`, with what its `Resource` and `Admission` call. -/
inductive Wrapper (α β : Type)
  | mutatingV1Beta1 (resource : GroupVersionResource) (hook : HookFunc α β)
  | validatingV1Beta1 (resource : GroupVersionResource) (hook : HookFunc α β)
  | mutatingV1 (resource : GroupVersionResource) (hook : HookFunc α β)
  | validatingV1 (resource : GroupVersionResource) (hook : HookFunc α β)

/-- `rest.Storage`: `admissionreview.REST` and `admissionreview.V1REST`. -/
inductive Storage (α β : Type)
  | rest (hookFn : HookFunc α β)
  | v1Rest (hookFn : HookFunc α β)

section

variable {α β : Type}

/-- `Resource`. -/
def Wrapper.resource : Wrapper α β → GroupVersionResource
  | .mutatingV1Beta1 gvr _ | .validatingV1Beta1 gvr _ | .mutatingV1 gvr _ | .validatingV1 gvr _ => gvr

/-- `getAdmissionRest`; `none` is the nil storage after the `switch`. -/
def getAdmissionRest : Wrapper α β → Option (Storage α β)
  | .mutatingV1Beta1 _ admission | .validatingV1Beta1 _ admission => some (.rest admission)
  | .mutatingV1 _ admission | .validatingV1 _ admission => some (.v1Rest admission)

/-- `Create` of the two storages; `none` is a panic. -/
def Storage.create : Storage α β → Object α β → Option (Object α β)
  | .rest hookFn, .v1beta1 review =>
    some (.v1beta1 { review with response := hookFn review.request })
  | .v1Rest hookFn, .v1 review =>
    match hookFn review.request, review.request with
    | some response, some request =>
      some (.v1 { review with response := some { response with uid := request.uid } })
    -- `Response.UID = Request.UID` through a nil pointer
    | _, _ => none
  -- the type assertion on `obj` fails
  | _, _ => none

/-! ## Grouping the hooks -/

/-- The hook, if it implements `MutatingAdmissionHookV1Beta1`. -/
def AdmissionHook.mutatingV1Beta1? (hook : AdmissionHook α β) : Option (Wrapper α β) :=
  match hook.mutatingResource, hook.admitMethod with
  | some gvr, some (.v1beta1 f) => some (.mutatingV1Beta1 gvr f)
  | _, _ => none

/-- The hook, if it implements `ValidatingAdmissionHookV1Beta1`. -/
def AdmissionHook.validatingV1Beta1? (hook : AdmissionHook α β) : Option (Wrapper α β) :=
  match hook.validatingResource, hook.validateMethod with
  | some gvr, some (.v1beta1 f) => some (.validatingV1Beta1 gvr f)
  | _, _ => none

/-- The hook, if it implements `MutatingAdmissionHookV1`. -/
def AdmissionHook.mutatingV1? (hook : AdmissionHook α β) : Option (Wrapper α β) :=
  match hook.mutatingResource, hook.admitMethod with
  | some gvr, some (.v1 f) => some (.mutatingV1 gvr f)
  | _, _ => none

/-- The hook, if it implements `ValidatingAdmissionHookV1`. -/
def AdmissionHook.validatingV1? (hook : AdmissionHook α β) : Option (Wrapper α β) :=
  match hook.validatingResource, hook.validateMethod with
  | some gvr, some (.v1 f) => some (.validatingV1 gvr f)
  | _, _ => none

/-- `map[string]map[string][]admissionHookWrapper`. -/
abbrev Groups (α β : Type) := Table String (Table String (List (Wrapper α β)))

/-- The body of the four `if`s of `admissionHooksByGroupThenVersion`. -/
def addWrapper (ret : Groups α β) (w : Wrapper α β) : Groups α β :=
  let gvr := w.resource
  ret.update gvr.group fun group =>
    (group.getD .empty).update gvr.version fun wrappers => wrappers.getD [] ++ [w]

def addIf (ret : Groups α β) (w : Option (Wrapper α β)) : Groups α β :=
  match w with
  | some w => addWrapper ret w
  | none => ret

def admissionHooksByGroupThenVersion (hooks : List (AdmissionHook α β)) : Groups α β :=
  hooks.foldl (fun ret hook =>
    addIf (addIf (addIf (addIf ret hook.mutatingV1Beta1?) hook.validatingV1Beta1?) hook.mutatingV1?)
      hook.validatingV1?) .empty

/-! ## Building the server -/

/-- `genericapiserver.APIGroupInfo`, without the fields that are the same for every group. -/
structure APIGroupInfo (α β : Type) where
  prioritizedVersions : List GroupVersion := []
  versionedResourcesStorageMap : Table String (Table String (Storage α β)) := .empty

/-- `appendUniqueGroupVersion` of one element: the keys of a map, as `range` visits them. -/
def appendUniqueGroupVersion (visit : List GroupVersion → List GroupVersion)
    (slice : List GroupVersion) (elem : GroupVersion) : List GroupVersion :=
  visit (slice ++ [elem]).dedup

/-- The body of the inner loop of `New`. -/
def addHook (visit : List GroupVersion → List GroupVersion) (info : APIGroupInfo α β)
    (w : Wrapper α β) : APIGroupInfo α β :=
  let gvr := w.resource
  let versions := appendUniqueGroupVersion visit info.prioritizedVersions gvr.groupVersion
  match getAdmissionRest w with
  | none => { info with prioritizedVersions := versions }
  | some admissionReview =>
    { prioritizedVersions := versions
      versionedResourcesStorageMap := info.versionedResourcesStorageMap.update gvr.version
        fun storage => (storage.getD .empty).set gvr.resource admissionReview }

/-- The two inner loops of `New`: the wrappers of a group, version by version. -/
def groupInfo (order : Table.RangeOrder) (loop : List ℕ)
    (versionMap : Table String (List (Wrapper α β))) : APIGroupInfo α β :=
  (((order.visit loop versionMap.entries).flatMap Prod.snd).zipIdx).foldl
    (fun info wi => addHook (order.visit (wi.2 :: loop)) info wi.1) {}

/-- The loop over the groups. -/
def groupInfos (order : Table.RangeOrder) (groups : Groups α β) : List (APIGroupInfo α β) :=
  ((order.visit [] groups.entries).zipIdx).map fun ei => groupInfo order [ei.2] ei.1.2

def postStartHookName (hook : AdmissionHook α β) : String :=
  let name (kind : String) (gvr : GroupVersionResource) : String :=
    kind ++ "-" ++ gvr.resource ++ "." ++ gvr.version ++ "." ++ gvr.group
  let ns := (hook.mutatingResource.map (name "mutating")).toList ++
    (hook.validatingResource.map (name "validating")).toList
  if ns = [] then "" else "-".intercalate (ns ++ ["init"])

/-- The generic server: what it answers `InstallAPIGroup` and `AddPostStartHook` after what it
was handed before; `none` is success. -/
structure GenericServer (α β : Type) where
  installAPIGroup : List (APIGroupInfo α β) → APIGroupInfo α β → Option String
  addPostStartHook : List String → String → Option String

/-- How `New` ends without a server: with the error of `InstallAPIGroup`, or in the fatal log line
of `AddPostStartHookOrDie`. -/
inductive Failure
  | error (err : String)
  | fatal (err : String)
deriving DecidableEq, Repr

/-- `AdmissionServer`: what the generic server was handed. A post-start hook is given by the place
of the hook that it initializes. -/
structure AdmissionServer (α β : Type) where
  apiGroups : List (APIGroupInfo α β)
  postStartHooks : List (String × ℕ)

/-- A loop that hands over one item after the other, until one is refused. -/
def handOver {τ : Type} (refuse : List τ → τ → Option Failure) :
    List τ → List τ → Except Failure (List τ)
  | done, [] => .ok done
  | done, x :: xs =>
    match refuse done x with
    | some err => .error err
    | none => handOver refuse (done ++ [x]) xs

/-- The post-start hooks `New` adds. A hook without a name is skipped. -/
def postStarts (hooks : List (AdmissionHook α β)) : List (String × ℕ) :=
  (hooks.zipIdx.map fun hi => (postStartHookName hi.1, hi.2)).filter fun ni => ni.1 ≠ ""

/-- `New`, once it has the generic server and the client configuration. -/
def new (generic : GenericServer α β) (order : Table.RangeOrder) (hooks : List (AdmissionHook α β)) :
    Except Failure (AdmissionServer α β) := do
  let apiGroups ← handOver (fun done info => (generic.installAPIGroup done info).map Failure.error) []
    (groupInfos order (admissionHooksByGroupThenVersion hooks))
  let postStartHooks ← handOver
    (fun done ni => (generic.addPostStartHook (done.map Prod.fst) ni.1).map Failure.fatal) []
    (postStarts hooks)
  return { apiGroups, postStartHooks }

/-! ## Serving -/

/-- The storage that an API group has at a resource of one of its prioritized versions. -/
def APIGroupInfo.storage? (info : APIGroupInfo α β) (gvr : GroupVersionResource) :
    Option (Storage α β) :=
  if gvr.groupVersion ∈ info.prioritizedVersions then
    (info.versionedResourcesStorageMap.get? gvr.version).bind fun storage =>
      storage.get? gvr.resource
  else none

/-- What the generic server makes of the groups it was handed: `storageAt`, whose `Create` it
calls for an object posted at `/apis/<group>/<version>/<resource>`. Each group is installed with
the storages of its prioritized versions, and there are no others. -/
structure Serves (infos : List (APIGroupInfo α β))
    (storageAt : GroupVersionResource → Option (Storage α β)) : Prop where
  installed : ∀ info ∈ infos, ∀ gvr storage,
    info.storage? gvr = some storage → storageAt gvr = some storage
  only : ∀ gvr storage, storageAt gvr = some storage →
    ∃ info ∈ infos, info.storage? gvr = some storage

end

end K8sDev.Apiserver

import K8sDev.Spec.Webhook
import K8sDev.Lts.Run

/-!
# What a mutation call does

The handler beside `Mutate`, one call at a time.

* `handler_agrees`: on which pods and in which states the two do the same.
* `review_refused`: the handler decodes the review itself as the request in it, so it refuses
  every review.
* `mutate_cases`: what `Mutate` leaves, whatever the request.
-/

namespace K8sDev.Webhook

variable {ρ : Type} {c : Codec ρ} {p : Service} {req : AdmissionRequest}

theorem insert_eq_self {selector : Finmap fun _ : String => String} {key value : String} :
    selector.insert key value = selector ↔ selector.lookup key = some value := by
  constructor
  · intro h
    rw [← h, Finmap.lookup_insert]
  · intro h
    refine Finmap.ext_lookup fun k => ?_
    by_cases hk : k = key
    · rw [hk, Finmap.lookup_insert, h]
    · rw [Finmap.lookup_insert_of_ne _ hk]

/-! ## The two ways in one state -/

/-- `Mutate` returned `mutate = true`. -/
def Mutated.Changes : Mutated → Prop
  | .returned _ mutate => mutate = true
  | _ => False

/-- The reply carries a patch. -/
def Reply.Changes : Reply → Prop
  | .review resp => resp.response.patch.isSome
  | _ => False

/-- The node a call logs as chosen. -/
def Call.chose {α : Type} (call : Call α) : Option String := call.log.map LogLine.nodeName

/-- The handler does what `Mutate` does. -/
structure Agree (handler : Call Reply) (mutate : Call Mutated) : Prop where
  next : handler.svc.next = mutate.svc.next
  cache : handler.svc.cache = mutate.svc.cache
  changes : handler.answer.Changes ↔ mutate.answer.Changes
  node : handler.chose = mutate.chose

/-- **No reply carries a patch.** -/
theorem serve_unchanged (c : Codec ρ) (p : Service) (req : AdmissionRequest) :
    ¬ (p.serve c req).answer.Changes := by
  unfold Service.serve
  split
  · exact id
  · split
    · exact id
    · exact id
    · split
      · exact id
      · exact Bool.false_ne_true

/-- `Mutate` on a pod that it is not for. -/
theorem mutate_other [DecidableEq ρ] {pod : Pod ρ} (hpod : c.unmarshal req.object = .ok pod)
    (h : pod.importer = false) : p.mutate c req = ⟨.returned none false, none, p⟩ := by
  unfold Service.mutate
  rw [hpod]
  exact if_pos h

/-- A cached name takes no turn and keeps its node. -/
theorem store_cached {name nodeName : String} (h : p.cache name = some nodeName) :
    (p.drawn name).store name nodeName = p := by
  unfold Service.drawn Service.store
  rw [h]
  simp only [Option.isSome_some, if_true]
  rw [← h, Function.update_eq_self]

/-- The node is chosen already. -/
theorem select_eq_self {pod pod' : Pod ρ} {selector : Finmap fun _ : String => String}
    {nodeName : String} (hselector : pod.nodeSelector = some selector)
    (hselect : pod.select nodeName = some pod') :
    pod = pod' ↔ selector.lookup hostname = some nodeName := by
  rw [Pod.select, hselector, Option.map_some] at hselect
  obtain rfl := Option.some.inj hselect
  rw [← insert_eq_self]
  constructor
  · intro heq
    have hsame := congrArg Pod.nodeSelector heq
    rw [hselector] at hsame
    exact (Option.some.inj hsame).symm
  · intro heq
    rw [heq, ← hselector]

section Done

variable {pod pod' : Pod ρ} {nodeName : String} {data : Json}
  (hpod : c.unmarshal req.object = .ok pod) (hchosen : p.chosen pod.name = some nodeName)
  (hselect : pod.select nodeName = some pod') (hmarshal : c.marshal pod' = .ok data)

include hpod hchosen hselect hmarshal

theorem mutate_importer [DecidableEq ρ] (h : pod.importer = true) :
    p.mutate c req = ⟨.returned (some data) (decide (pod ≠ pod')),
      some ⟨req.namespace_, req.name, nodeName⟩, (p.drawn pod.name).store pod.name nodeName⟩ := by
  unfold Service.mutate
  rw [hpod]
  simp only [h, Bool.true_eq_false, if_false, assign_done hchosen hselect hmarshal]

theorem serve_done :
    (p.serve c req).svc = (p.drawn pod.name).store pod.name nodeName ∧
      (p.serve c req).chose = some nodeName := by
  unfold Service.serve
  rw [hpod]
  simp only [assign_done hchosen hselect hmarshal]
  split <;> exact ⟨rfl, rfl⟩

/-- The two leave the same index and cache. -/
theorem same_state_iff [DecidableEq ρ] :
    (p.serve c req).svc.next = (p.mutate c req).svc.next ∧
        (p.serve c req).svc.cache = (p.mutate c req).svc.cache ↔
      pod.importer = true ∨ (p.cache pod.name).isSome := by
  have hserve := (serve_done hpod hchosen hselect hmarshal).1
  cases h : pod.importer with
  | true => simp [hserve, mutate_importer hpod hchosen hselect hmarshal h]
  | false =>
    rw [mutate_other hpod h, hserve]
    simp only [Bool.false_eq_true, false_or]
    constructor
    · rintro ⟨-, hcache⟩
      rw [← hcache, store_cache_self, Option.isSome_some]
    · intro hcached
      obtain ⟨cached, hcached⟩ := Option.isSome_iff_exists.1 hcached
      have heq : cached = nodeName := by
        rw [Service.chosen, hcached] at hchosen
        exact Option.some.inj hchosen
      rw [← heq, store_cached hcached]
      exact ⟨rfl, rfl⟩

/-- The two report the same. -/
theorem same_changes_iff [DecidableEq ρ] :
    ((p.serve c req).answer.Changes ↔ (p.mutate c req).answer.Changes) ↔
      pod.importer = false ∨ pod = pod' := by
  have hserve := serve_unchanged c p req
  cases h : pod.importer with
  | true =>
    rw [mutate_importer hpod hchosen hselect hmarshal h]
    simp [hserve, Mutated.Changes]
  | false =>
    rw [mutate_other hpod h]
    simp [hserve, Mutated.Changes]

/-- The two log the same node. -/
theorem same_node_iff [DecidableEq ρ] :
    (p.serve c req).chose = (p.mutate c req).chose ↔ pod.importer = true := by
  rw [(serve_done hpod hchosen hselect hmarshal).2]
  cases h : pod.importer with
  | true =>
    rw [mutate_importer hpod hchosen hselect hmarshal h]
    simp [Call.chose]
  | false =>
    rw [mutate_other hpod h]
    simp [Call.chose]

end Done

/-- `assign` either gets through or leaves the cache alone. -/
theorem assign_cases (c : Codec ρ) (p : Service) (pod : Pod ρ) :
    (∃ pod' nodeName data, p.assign c pod = (.done pod' nodeName data,
        (p.drawn pod.name).store pod.name nodeName) ∧ p.chosen pod.name = some nodeName ∧
      pod.select nodeName = some pod' ∧ c.marshal pod' = .ok data) ∨
    ((p.assign c pod).2 = p ∨ (p.assign c pod).2 = p.drawn pod.name) ∧
      ((p.assign c pod).1 = .panic ∨ ∃ err, (p.assign c pod).1 = .marshalError err) := by
  cases hchosen : p.chosen pod.name with
  | none =>
    have h : p.assign c pod = (.panic, p) := by
      unfold Service.assign
      rw [nodeName_eq, hchosen]
      rfl
    rw [h]
    exact .inr ⟨.inl rfl, .inl rfl⟩
  | some nodeName =>
    cases hselect : pod.select nodeName with
    | none =>
      have h : p.assign c pod = (.panic, p.drawn pod.name) := by
        unfold Service.assign
        rw [nodeName_eq, hchosen]
        simp only [Option.map_some, hselect]
      rw [h]
      exact .inr ⟨.inr rfl, .inl rfl⟩
    | some pod' =>
      cases hmarshal : c.marshal pod' with
      | error err =>
        have h : p.assign c pod = (.marshalError err, p.drawn pod.name) := by
          unfold Service.assign
          rw [nodeName_eq, hchosen]
          simp only [Option.map_some, hselect, hmarshal]
        rw [h]
        exact .inr ⟨.inr rfl, .inr ⟨err, rfl⟩⟩
      | ok data =>
        exact .inl ⟨pod', nodeName, data, assign_done hchosen hselect hmarshal, rfl, hselect, hmarshal⟩

/-- **What `Mutate` can do.** It writes the chosen node into an importer pod and caches it, or it
writes nothing and leaves nodes and cache alone. -/
theorem mutate_cases [DecidableEq ρ] (c : Codec ρ) (p : Service) (req : AdmissionRequest) :
    (∃ pod pod' nodeName data, c.unmarshal req.object = .ok pod ∧ pod.importer = true ∧
      p.chosen pod.name = some nodeName ∧ pod.select nodeName = some pod' ∧
      c.marshal pod' = .ok data ∧
      p.mutate c req = ⟨.returned (some data) (decide (pod ≠ pod')),
        some ⟨req.namespace_, req.name, nodeName⟩, (p.drawn pod.name).store pod.name nodeName⟩) ∨
    (p.mutate c req).log = none ∧ (∀ data b, (p.mutate c req).answer ≠ .returned (some data) b) ∧
      (p.mutate c req).svc.nodeList = p.nodeList ∧ (p.mutate c req).svc.cache = p.cache := by
  cases hpod : c.unmarshal req.object with
  | error err =>
    right
    unfold Service.mutate
    rw [hpod]
    exact ⟨rfl, nofun, rfl, rfl⟩
  | ok pod =>
    cases himporter : pod.importer with
    | false =>
      right
      rw [mutate_other hpod himporter]
      exact ⟨rfl, nofun, rfl, rfl⟩
    | true =>
      rcases assign_cases c p pod with ⟨pod', nodeName, data, -, hchosen, hselect, hmarshal⟩ | h
      · exact .inl ⟨pod, pod', nodeName, data, rfl, himporter, hchosen, hselect, hmarshal,
          mutate_importer hpod hchosen hselect hmarshal himporter⟩
      · right
        obtain ⟨hsvc, hend⟩ := h
        -- a request that ends early has moved the index at most
        have hkeeps : (p.assign c pod).2.nodeList = p.nodeList ∧ (p.assign c pod).2.cache = p.cache := by
          rcases hsvc with h | h <;> rw [h]
          · exact ⟨rfl, rfl⟩
          · exact ⟨drawn_nodeList p pod.name, drawn_cache p pod.name⟩
        unfold Service.mutate
        simp only [hpod, himporter, Bool.true_eq_false, if_false]
        generalize p.assign c pod = r at hend hkeeps
        obtain ⟨r, q⟩ := r
        rcases hend with hend | ⟨err, hend⟩
        · simp only at hend
          subst hend
          exact ⟨rfl, nofun, hkeeps⟩
        · simp only at hend
          subst hend
          exact ⟨rfl, nofun, hkeeps⟩

/-- **When the handler refines `Mutate`.** It leaves the same index and cache on importer pods and
on names that are cached already, reports the same on other pods and on pods that name the
node already, and logs the same node on importer pods. -/
theorem handler_agrees [DecidableEq ρ] {pod : Pod ρ} {selector : Finmap fun _ : String => String}
    (hmarshal : ∀ pod, ∃ data, c.marshal pod = .ok data)
    (hpod : c.unmarshal req.object = .ok pod) (hselector : pod.nodeSelector = some selector)
    (hnodes : p.nodeList ≠ []) :
    ((p.serve c req).svc.next = (p.mutate c req).svc.next ∧
        (p.serve c req).svc.cache = (p.mutate c req).svc.cache ↔
      pod.importer = true ∨ (p.cache pod.name).isSome) ∧
    (((p.serve c req).answer.Changes ↔ (p.mutate c req).answer.Changes) ↔
      pod.importer = false ∨ selector.lookup hostname = p.chosen pod.name) ∧
    ((p.serve c req).chose = (p.mutate c req).chose ↔ pod.importer = true) ∧
    (Agree (p.serve c req) (p.mutate c req) ↔
      pod.importer = true ∧ selector.lookup hostname = p.chosen pod.name) := by
  obtain ⟨nodeName, hchosen⟩ := chosen_isSome hnodes pod.name
  obtain ⟨pod', hselect⟩ : ∃ pod', pod.select nodeName = some pod' := by
    rw [Pod.select, hselector]
    exact ⟨_, rfl⟩
  obtain ⟨data, hdata⟩ := hmarshal pod'
  have hstate := same_state_iff hpod hchosen hselect hdata
  have hnode := same_node_iff hpod hchosen hselect hdata
  have hchange := same_changes_iff hpod hchosen hselect hdata
  -- selecting a node changes nothing iff the pod names it already
  rw [select_eq_self hselector hselect, ← hchosen] at hchange
  refine ⟨hstate, hchange, hnode, ?_⟩
  constructor
  · rintro ⟨hnext, hcache, hchanges, hnode'⟩
    have h := hnode.1 hnode'
    refine ⟨h, (hchange.1 hchanges).resolve_left ?_⟩
    rw [h]
    exact Bool.true_eq_false_eq_False
  · rintro ⟨h, hlookup⟩
    obtain ⟨hnext, hcache⟩ := hstate.2 (.inl h)
    exact ⟨hnext, hcache, hchange.2 (.inr hlookup), hnode.2 h⟩

/-! ## A codec to run with

Pods whose selector names a host or nothing; a patch replaces the whole document. -/

def podJson (name : String) (selector : Option (Option String)) : Json :=
  .obj [("metadata", .obj [("name", .str name)]),
    ("spec", .obj (match selector with
      | none => []
      | some none => [("nodeSelector", .obj [])]
      | some (some host) => [("nodeSelector", .obj [(hostname, .str host)])]))]

def hostCodec : Codec Unit where
  unmarshal
    | none => .error "unexpected end of JSON input"
    | some raw =>
      let name := match (raw.get? "metadata").bind (·.get? "name") with
        | some (.str name) => name
        | _ => ""
      match (raw.get? "spec").bind (·.get? "nodeSelector") with
      | none => .ok ⟨name, none, ()⟩
      | some selector =>
        match selector.get? hostname with
        | some (.str host) => .ok ⟨name, some (Finmap.singleton hostname host), ()⟩
        | _ => .ok ⟨name, some ∅, ()⟩
  marshal pod := .ok (podJson pod.name (pod.nodeSelector.map (·.lookup hostname)))
  createPatch _ data := .ok (.arr [.obj [("op", .str "replace"), ("path", .str ""), ("value", data)]])

/-- A request for a pod. -/
def podRequest (pod : Json) : AdmissionRequest := ⟨"u", "pod", "default", some pod⟩

/-- Two nodes; the second is next. -/
def twoNodes : Service := { nodeList := [⟨"a"⟩, ⟨"b"⟩] }

/-- An importer pod without a host: `Mutate` reports a change, the handler does not. -/
theorem handler_disagrees :
    hostCodec.unmarshal (podRequest (podJson "importer-vm-1" (some none))).object =
      .ok ⟨"importer-vm-1", some ∅, ()⟩ ∧
    twoNodes.nodeList ≠ [] ∧
    ¬ Agree (twoNodes.serve hostCodec (podRequest (podJson "importer-vm-1" (some none))))
      (twoNodes.mutate hostCodec (podRequest (podJson "importer-vm-1" (some none)))) := by
  refine ⟨rfl, by decide, fun h => ?_⟩
  have hchange : (twoNodes.mutate hostCodec
      (podRequest (podJson "importer-vm-1" (some none)))).answer.Changes := rfl
  exact serve_unchanged _ _ _ (h.changes.2 hchange)

/-- An importer pod that names its node already. -/
theorem handler_agrees_named :
    Agree (twoNodes.serve hostCodec (podRequest (podJson "importer-vm-1" (some (some "b")))))
      (twoNodes.mutate hostCodec (podRequest (podJson "importer-vm-1" (some (some "b"))))) := by
  have hpod : hostCodec.unmarshal (podRequest (podJson "importer-vm-1" (some (some "b")))).object =
      .ok ⟨"importer-vm-1", some (Finmap.singleton hostname "b"), ()⟩ := rfl
  exact (handler_agrees (fun _ => ⟨_, rfl⟩) hpod rfl (by decide)).2.2.2.2 ⟨rfl, rfl⟩

/-! ## Reviews -/

/-- The body is an `AdmissionReview` of `admission.k8s.io/v1` whose request has this uid and this
object. -/
structure IsReview (body : Json) (uid : String) (object : Json) : Prop where
  apiVersion : ("apiVersion", .str "admission.k8s.io/v1") ∈ body.membersOf
  kind : ("kind", .str "AdmissionReview") ∈ body.membersOf
  request : ∃ request, ("request", .obj request) ∈ body.membersOf ∧
    ("uid", .str uid) ∈ request ∧ ("object", object) ∈ request

/-- The call is answered by a review that allows the request and whose patch gives the pod the
node that is cached for its name, and changes nothing else. `apply` applies a patch. -/
def Realises (c : Codec ρ) (apply : Json → Json → Option Json) (uid : String) (object : Json)
    (pod : Pod ρ) (call : Call Reply) : Prop :=
  ∃ resp patch data selector nodeName,
    call.answer = .review resp ∧ resp.kind = "AdmissionReview" ∧ resp.response.uid = uid ∧
    resp.response.allowed = true ∧ resp.response.patch = some patch ∧
    apply patch object = some data ∧ pod.nodeSelector = some selector ∧
    c.unmarshal (some data) =
      .ok { pod with nodeSelector := some (selector.insert hostname nodeName) } ∧
    call.svc.cache pod.name = some nodeName

/-- The kind of a review does not fit the kind of a request, which is an object. -/
theorem decodeRequest_review {body : Json} {uid : String} {object : Json}
    (h : IsReview body uid object) : ∃ err, decodeRequest body = .error err := by
  have hmismatch : ((GoType.struct requestFields).mismatch body).isSome := by
    cases body with
    | obj members => exact mismatchMembers_isSome (by decide) h.kind
    | _ => cases h.kind
  obtain ⟨err, herr⟩ := Option.isSome_iff_exists.1 hmismatch
  exact ⟨err, by rw [decodeRequest, herr]⟩

/-- **The handler refuses every review**, so it never realises the mutation. -/
theorem review_refused (c : Codec ρ) (apply : Json → Json → Option Json) (p : Service)
    (pod : Pod ρ) {body : Json} {uid : String} {object : Json} (h : IsReview body uid object) :
    (∃ err, p.handle c (.json body) = ⟨.error badRequest (.decodeType err), none, p⟩) ∧
      ¬ Realises c apply uid object pod (p.handle c (.json body)) := by
  obtain ⟨err, herr⟩ := decodeRequest_review h
  have hhandle : p.handle c (.json body) = ⟨.error badRequest (.decodeType err), none, p⟩ := by
    simp only [Service.handle, herr]
  refine ⟨⟨err, hhandle⟩, ?_⟩
  rintro ⟨resp, patch, data, selector, nodeName, hanswer, -⟩
  rw [hhandle] at hanswer
  cases hanswer

/-- A review of the creation of a pod, as the API server sends it. -/
def createReview (object : Json) : Json :=
  .obj [("kind", .str "AdmissionReview"), ("apiVersion", .str "admission.k8s.io/v1"),
    ("request", .obj [("uid", .str "705ab4f5"),
      ("kind", .obj [("group", .str ""), ("version", .str "v1"), ("kind", .str "Pod")]),
      ("resource", .obj [("group", .str ""), ("version", .str "v1"), ("resource", .str "pods")]),
      ("name", .str "importer-vm-1"), ("namespace", .str "default"), ("operation", .str "CREATE"),
      ("userInfo", .obj [("username", .str "admin"), ("groups", .arr [.str "system:masters"])]),
      ("object", object), ("oldObject", .null), ("dryRun", .bool false)])]

/-- Patches of `hostCodec` are applied. -/
def applyReplace : Json → Json → Option Json
  | .arr [.obj operation], _ => operation.lookup "value"
  | _, _ => none

theorem createReview_isReview (object : Json) :
    IsReview (createReview object) "705ab4f5" object where
  apiVersion := by simp [createReview, Json.membersOf]
  kind := by simp [createReview, Json.membersOf]
  request := ⟨_, List.mem_cons_of_mem _ (List.mem_cons_of_mem _ List.mem_cons_self),
    by simp, by simp⟩

/-- An importer pod, nodes to choose from, patches that do what they should: the mutation is
not realised. -/
theorem review_unrealised :
    hostCodec.unmarshal (some (podJson "importer-vm-1" (some none))) =
      .ok ⟨"importer-vm-1", some ∅, ()⟩ ∧
    twoNodes.nodeList ≠ [] ∧
    (∀ a b patch, hostCodec.createPatch (some a) b = .ok patch → applyReplace patch a = some b) ∧
    IsReview (createReview (podJson "importer-vm-1" (some none))) "705ab4f5"
      (podJson "importer-vm-1" (some none)) ∧
    ¬ Realises hostCodec applyReplace "705ab4f5" (podJson "importer-vm-1" (some none))
      ⟨"importer-vm-1", some ∅, ()⟩
      (twoNodes.handle hostCodec (.json (createReview (podJson "importer-vm-1" (some none))))) := by
  refine ⟨rfl, by decide, ?_, createReview_isReview _, ?_⟩
  · rintro a b patch h
    obtain rfl := Except.ok.inj h
    rfl
  · rintro ⟨resp, patch, data, selector, nodeName, hanswer, -⟩
    cases hanswer

theorem review_refused_create :
    ¬ Realises hostCodec applyReplace "705ab4f5" (podJson "importer-vm-1" (some none))
      ⟨"importer-vm-1", some ∅, ()⟩
      (twoNodes.handle hostCodec (.json (createReview (podJson "importer-vm-1" (some none))))) :=
  (review_refused hostCodec applyReplace twoNodes ⟨"importer-vm-1", some ∅, ()⟩
    (createReview_isReview (podJson "importer-vm-1" (some none)))).2

end K8sDev.Webhook

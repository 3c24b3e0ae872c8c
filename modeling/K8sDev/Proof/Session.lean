import K8sDev.Spec.Session
import K8sDev.Proof.Mutation

/-!
# How calls of the webhook fail

A call panics on a nil node selector, and on an empty node list when the name is not cached. A
request that fails after `Next` has left a trace, and one whose object is no pod is answered with
200.

* `mutation_total`: exactly when a call does not panic, and sessions without a panic.
* `handled_iff`: exactly when a request is answered, or refused without a trace.
-/

namespace K8sDev.Webhook

variable {ρ : Type} {c : Codec ρ} {p : Service} {pod : Pod ρ} {req : AdmissionRequest}

/-! ## Panics -/

/-- The pod has a selector to write to, and there is a node for it. -/
def Assignable (p : Service) (pod : Pod ρ) : Prop :=
  pod.nodeSelector ≠ none ∧ (p.cache pod.name ≠ none ∨ p.nodeList ≠ [])

/-- The visit only assigns nodes to pods it can. -/
def Visit.Safe (c : Codec ρ) (p : Service) : Visit → Prop
  | .reload _ => True
  | .mutate req => ∀ pod, c.unmarshal req.object = .ok pod → pod.importer = true → Assignable p pod
  | .post (.malformed _) => True
  | .post (.json value) => ∀ req pod, decodeRequest value = .ok req →
      c.unmarshal req.object = .ok pod → Assignable p pod

theorem chosen_ne_none : p.chosen pod.name ≠ none ↔ p.cache pod.name ≠ none ∨ p.nodeList ≠ [] := by
  constructor
  · intro h
    by_contra hnot
    obtain ⟨hcache, hnodes⟩ := not_or.1 hnot
    rw [Decidable.not_not] at hcache hnodes
    apply h
    rw [Service.chosen, hcache, hnodes]
    rfl
  · rintro (hcache | hnodes)
    · obtain ⟨host, hhost⟩ := Option.ne_none_iff_exists'.1 hcache
      simp [Service.chosen, hhost]
    · obtain ⟨host, hhost⟩ := chosen_isSome hnodes pod.name
      simp [hhost]

/-- The pod of a call, when it can be assigned. -/
theorem assignable_iff : Assignable p pod ↔
    ∃ nodeName pod', p.chosen pod.name = some nodeName ∧ pod.select nodeName = some pod' := by
  rw [Assignable, ← chosen_ne_none]
  constructor
  · rintro ⟨hselector, hchosen⟩
    obtain ⟨selector, hselector⟩ := Option.ne_none_iff_exists'.1 hselector
    obtain ⟨nodeName, hchosen⟩ := Option.ne_none_iff_exists'.1 hchosen
    have hselect : pod.select nodeName =
        some { pod with nodeSelector := some (selector.insert hostname nodeName) } := by
      rw [Pod.select, hselector]
      rfl
    exact ⟨nodeName, _, hchosen, hselect⟩
  · rintro ⟨nodeName, pod', hchosen, hselect⟩
    obtain ⟨selector, hselector, -⟩ := select_eq_some hselect
    exact ⟨by simp [hselector], by simp [hchosen]⟩

theorem assign_panics (h : ¬ Assignable p pod) :
    ∃ q, p.assign c pod = (.panic, q) := by
  unfold Service.assign
  rw [nodeName_eq]
  cases hchosen : p.chosen pod.name with
  | none => exact ⟨p, rfl⟩
  | some nodeName =>
    have hselect : pod.select nodeName = none := by
      by_contra hne
      obtain ⟨pod', hselect⟩ := Option.ne_none_iff_exists'.1 hne
      exact h (assignable_iff.2 ⟨nodeName, pod', hchosen, hselect⟩)
    simp only [Option.map_some, hselect]
    exact ⟨_, rfl⟩

/-- What becomes of a pod that can be assigned. -/
theorem assign_assignable {nodeName : String} {pod' : Pod ρ}
    (hchosen : p.chosen pod.name = some nodeName) (hselect : pod.select nodeName = some pod') :
    (∃ err, c.marshal pod' = .error err ∧
      p.assign c pod = (.marshalError err, p.drawn pod.name)) ∨
    ∃ data, c.marshal pod' = .ok data ∧
      p.assign c pod = (.done pod' nodeName data, (p.drawn pod.name).store pod.name nodeName) := by
  cases hmarshal : c.marshal pod' with
  | ok data => exact .inr ⟨data, rfl, assign_done hchosen hselect hmarshal⟩
  | error err =>
    refine .inl ⟨err, rfl, ?_⟩
    unfold Service.assign
    rw [nodeName_eq, hchosen]
    simp only [Option.map_some, hselect, hmarshal]

/-- Assigning panics on the pods that cannot be assigned, and on no other. -/
theorem assign_panic_iff : (p.assign c pod).1 = .panic ↔ ¬ Assignable p pod := by
  constructor
  · intro hpanic hassign
    obtain ⟨nodeName, pod', hchosen, hselect⟩ := assignable_iff.1 hassign
    rcases assign_assignable (c := c) hchosen hselect with ⟨err, -, heq⟩ | ⟨data, -, heq⟩
    · rw [heq] at hpanic
      cases hpanic
    · rw [heq] at hpanic
      cases hpanic
  · intro hnot
    obtain ⟨q, heq⟩ := assign_panics (c := c) hnot
    rw [heq]

theorem serve_panicked (hpod : c.unmarshal req.object = .ok pod) :
    (p.serve c req).answer.panicked = false ↔ Assignable p pod := by
  have hassign : (p.serve c req).answer.panicked = true ↔ (p.assign c pod).1 = .panic := by
    unfold Service.serve
    simp only [hpod]
    generalize p.assign c pod = r
    obtain ⟨r, q⟩ := r
    cases r with
    | panic => exact iff_of_true rfl rfl
    | marshalError err => simp [Reply.panicked]
    | done pod' nodeName data =>
      dsimp only
      split <;> simp [Reply.panicked]
  rw [← Bool.not_eq_true, hassign, assign_panic_iff, not_not]

theorem mutate_panicked [DecidableEq ρ] (hpod : c.unmarshal req.object = .ok pod) :
    (p.mutate c req).answer.panicked = false ↔ (pod.importer = true → Assignable p pod) := by
  by_cases himporter : pod.importer = true
  · have hassign : (p.mutate c req).answer.panicked = true ↔ (p.assign c pod).1 = .panic := by
      unfold Service.mutate
      simp only [hpod, himporter, Bool.true_eq_false, if_false]
      generalize p.assign c pod = r
      obtain ⟨r, q⟩ := r
      cases r with
      | panic => exact iff_of_true rfl rfl
      | marshalError err => simp [Mutated.panicked]
      | done pod' nodeName data => simp [Mutated.panicked]
    rw [← Bool.not_eq_true, hassign, assign_panic_iff, not_not]
    exact ⟨fun h _ => h, fun h => h himporter⟩
  · -- another pod is left alone
    have hother : pod.importer = false := by simpa using himporter
    have hquiet : (p.mutate c req).answer.panicked = false := by
      rw [mutate_other hpod hother]
      rfl
    exact iff_of_true hquiet fun h => absurd h himporter

/-- **When a visit does not panic.** -/
theorem visit_panicked [DecidableEq ρ] (v : Visit) :
    (v.run c p).1 = false ↔ v.Safe c p := by
  cases v with
  | reload listed => exact ⟨fun _ => trivial, fun _ => rfl⟩
  | mutate req =>
    simp only [Visit.run, Visit.Safe]
    cases hpod : c.unmarshal req.object with
    | error err => simp [Service.mutate, hpod, Mutated.panicked]
    | ok pod => simp [mutate_panicked hpod]
  | post body =>
    cases body with
    | malformed err => exact ⟨fun _ => trivial, fun _ => rfl⟩
    | json value =>
      simp only [Visit.run, Visit.Safe, Service.handle]
      cases hreq : decodeRequest value with
      | error err => simp [Reply.panicked]
      | ok req =>
        constructor
        · intro h req' pod hreq' hpod
          obtain rfl := Except.ok.inj hreq'
          exact (serve_panicked hpod).1 h
        · intro h
          cases hpod : c.unmarshal req.object with
          | error err => simp [Service.serve, hpod, Reply.panicked]
          | ok pod => exact (serve_panicked hpod).2 (h req pod rfl hpod)

/-- **When calls do not panic**: for each call the exact condition, and for sessions, that no call
has panicked when all met theirs. -/
theorem mutation_total [DecidableEq ρ] (c : Codec ρ) (s : Session) :
    (∀ req pod, c.unmarshal req.object = .ok pod →
      ((s.svc.mutate c req).answer.panicked = false ∧ (s.svc.serve c req).answer.panicked = false ↔
        pod.nodeSelector ≠ none ∧ (s.svc.cache pod.name ≠ none ∨ s.svc.nodeList ≠ []))) ∧
    (∀ v : Visit, (v.run c s.svc).1 = false ↔ v.Safe c s.svc) ∧
    (((sessions c).restrict fun s v _ => v.Safe c s.svc).Reachable s → s.panicked = false) := by
  refine ⟨?_, fun v => visit_panicked v, ?_⟩
  · intro req pod hpod
    rw [mutate_panicked hpod, serve_panicked hpod]
    exact ⟨fun h => h.2, fun h => ⟨fun _ => h, h⟩⟩
  · intro hr
    refine Lts.Reachable.invariant (P := fun s : Session => s.panicked = false) ?_ ?_ hr
    · rintro _ ⟨items, rfl⟩
      rfl
    · -- a panic does not end a session, so the flag says whether there was one
      rintro s v _ - ih ⟨rfl, hsafe⟩
      have hquiet := (visit_panicked v).2 hsafe
      simp only [ih, hquiet, Bool.or_self]

/-- A pod without a selector, or no nodes: `Mutate` and the handler panic. -/
theorem mutation_panics :
    ((sessions hostCodec).Reachable { svc := twoNodes } ∧
      hostCodec.unmarshal (podRequest (podJson "importer-vm-1" none)).object =
        .ok ⟨"importer-vm-1", none, ()⟩ ∧
      (twoNodes.mutate hostCodec (podRequest (podJson "importer-vm-1" none))).answer = .panic ∧
      (twoNodes.serve hostCodec (podRequest (podJson "importer-vm-1" none))).answer = .panic) ∧
    (sessions hostCodec).Reachable { svc := { nodeList := [] } } ∧
      hostCodec.unmarshal (podRequest (podJson "importer-vm-1" (some none))).object =
        .ok ⟨"importer-vm-1", some ∅, ()⟩ ∧
      (Service.mutate hostCodec { nodeList := [] }
        (podRequest (podJson "importer-vm-1" (some none)))).answer = .panic ∧
      (Service.serve hostCodec { nodeList := [] }
        (podRequest (podJson "importer-vm-1" (some none)))).answer = .panic := by
  have htwo : (sessions hostCodec).init { svc := twoNodes } := ⟨[⟨"a"⟩, ⟨"b"⟩], rfl⟩
  have hnone : (sessions hostCodec).init { svc := { nodeList := [] } } := ⟨[], rfl⟩
  exact ⟨⟨.of_init htwo, rfl, rfl, rfl⟩, .of_init hnone, rfl, rfl, rfl⟩

/-! ## Failed requests -/

/-- The request is answered with a review, or refused with an error status and without a trace. -/
def Handled (c : Codec ρ) (p : Service) (encodes : Bool) (body : Body) : Prop :=
  match (p.handle c body).answer.sent encodes with
  | .aborted => False
  | .status _ (some _) => True
  | .status code none => ¬ (200 ≤ code ∧ code < 300) ∧
      (p.handle c body).svc.next = p.next ∧ (p.handle c body).svc.cache = p.cache

/-- `Marshal` of the mutated pod or `CreatePatch` fail only when nothing had to be chosen, and the
review can be written. -/
def Concludes (c : Codec ρ) (p : Service) (encodes : Bool) (object : Option Json) (name : String)
    (mutated : Pod ρ) : Prop :=
  match c.marshal mutated with
  | .error _ => p.cache name ≠ none ∨ p.nodeList.length = 1 ∧ p.next = 0
  | .ok mutatedData =>
    match c.createPatch object mutatedData with
    | .error _ => p.cache name ≠ none
    | .ok _ => encodes = true

/-- The body is no request, or one for a pod with a selector whose review concludes. -/
def Accountable (c : Codec ρ) (p : Service) (encodes : Bool) : Body → Prop
  | .malformed _ => True
  | .json value =>
    match decodeRequest value with
    | .error _ => True
    | .ok req => ∃ pod nodeName mutated, c.unmarshal req.object = .ok pod ∧
        p.chosen pod.name = some nodeName ∧ pod.select nodeName = some mutated ∧
        Concludes c p encodes req.object pod.name mutated

/-- A turn moves the index, unless there is one node and it is where it was. -/
theorem drawn_next (hnodes : p.nodeList ≠ []) (name : String) :
    (p.drawn name).next = p.next ↔ p.cache name ≠ none ∨ p.nodeList.length = 1 ∧ p.next = 0 := by
  have hpos := List.length_pos_of_ne_nil hnodes
  unfold Service.drawn
  cases hcache : p.cache name with
  | some host => simp
  | none =>
    simp only [Option.isSome_none, Bool.false_eq_true, if_false, ne_eq, not_true, false_or]
    have hmod := Nat.mod_lt (p.next + 1) hpos
    constructor
    · intro hsame
      rcases Nat.lt_or_ge (p.next + 1) p.nodeList.length with hlt | hge
      · rw [Nat.mod_eq_of_lt hlt] at hsame
        omega
      · have heq : p.next + 1 = p.nodeList.length := by omega
        rw [heq, Nat.mod_self] at hsame
        omega
    · rintro ⟨hone, hzero⟩
      rw [hone, hzero]

/-- The cache keeps what it has, and only that. -/
theorem stored_cache {name nodeName : String} (hchosen : p.chosen name = some nodeName) :
    ((p.drawn name).store name nodeName).next = p.next ∧
      ((p.drawn name).store name nodeName).cache = p.cache ↔ p.cache name ≠ none := by
  constructor
  · rintro ⟨-, hcache⟩
    rw [← hcache, store_cache_self]
    simp
  · intro hne
    obtain ⟨cached, hcached⟩ := Option.ne_none_iff_exists'.1 hne
    have heq : nodeName = cached := by
      rw [Service.chosen, hcached] at hchosen
      exact (Option.some.inj hchosen).symm
    rw [heq, store_cached hcached]
    exact ⟨rfl, rfl⟩

/-- **A request for a pod that can be assigned.** -/
theorem handled_assigned {encodes : Bool} {value : Json} {nodeName : String} {mutated : Pod ρ}
    (hnodes : p.nodeList ≠ []) (hreq : decodeRequest value = .ok req)
    (hpod : c.unmarshal req.object = .ok pod) (hchosen : p.chosen pod.name = some nodeName)
    (hselect : pod.select nodeName = some mutated) :
    Handled c p encodes (.json value) ↔ Concludes c p encodes req.object pod.name mutated := by
  have h400 : ¬ (200 ≤ badRequest ∧ badRequest < 300) := by decide
  unfold Handled Concludes
  simp only [Service.handle, hreq, Service.serve, hpod]
  rcases assign_assignable (c := c) hchosen hselect with
    ⟨err, hmarshal, heq⟩ | ⟨data, hmarshal, heq⟩
  · -- `Marshal` failed: `Next` has run when the name was not cached
    simp only [heq, hmarshal, Reply.sent, drawn_cache, and_true]
    rw [drawn_next hnodes]
    exact and_iff_right h400
  · simp only [heq, hmarshal]
    cases hpatch : c.createPatch req.object data with
    | error err =>
      -- the name is stored already
      simp only [Reply.sent]
      rw [stored_cache hchosen]
      exact and_iff_right h400
    | ok patch =>
      simp only [Reply.sent]
      cases encodes with
      | true => simp
      | false => simp

/-- **When a failed request is reported and leaves no trace.** -/
theorem handled_iff {encodes : Bool} {body : Body} (hnodes : p.nodeList ≠ []) :
    Handled c p encodes body ↔ Accountable c p encodes body := by
  have h400 : ¬ (200 ≤ badRequest ∧ badRequest < 300) := by decide
  cases body with
  | malformed err => exact ⟨fun _ => trivial, fun _ => ⟨h400, rfl, rfl⟩⟩
  | json value =>
    cases hreq : decodeRequest value with
    | error err =>
      simp only [Handled, Accountable, Service.handle, hreq, Reply.sent]
      exact ⟨fun _ => trivial, fun _ => ⟨h400, trivial, trivial⟩⟩
    | ok req =>
      simp only [Accountable, hreq]
      cases hpod : c.unmarshal req.object with
      | error err =>
        -- 200 and an empty body
        simp [Handled, Service.handle, hreq, Service.serve, hpod, Reply.sent]
      | ok pod =>
        by_cases hassign : Assignable p pod
        · obtain ⟨nodeName, mutated, hchosen, hselect⟩ := assignable_iff.1 hassign
          rw [handled_assigned hnodes hreq hpod hchosen hselect]
          constructor
          · intro h
            exact ⟨pod, nodeName, mutated, rfl, hchosen, hselect, h⟩
          · rintro ⟨pod', nodeName', mutated', hpod', hchosen', hselect', h⟩
            obtain rfl := Except.ok.inj hpod'
            obtain rfl := Option.some.inj (hchosen.symm.trans hchosen')
            obtain rfl := Option.some.inj (hselect.symm.trans hselect')
            exact h
        · -- a panic: no status at all
          obtain ⟨q, heq⟩ := assign_panics (c := c) hassign
          constructor
          · intro h
            simp only [Handled, Service.handle, hreq, Service.serve, hpod, heq, Reply.sent] at h
          · rintro ⟨pod', nodeName, mutated, hpod', hchosen, hselect, -⟩
            obtain rfl := Except.ok.inj hpod'
            exact absurd (assignable_iff.2 ⟨nodeName, mutated, hchosen, hselect⟩) hassign

/-- A request without an object is answered with 200 and an empty body. -/
theorem handled_objectless : twoNodes.nodeList ≠ [] ∧
    (twoNodes.handle hostCodec (.json (.obj []))).answer.sent true = .status 200 none ∧
    ¬ Handled hostCodec twoNodes true (.json (.obj [])) := by
  refine ⟨by decide, rfl, fun h => ?_⟩
  exact h.1 (by decide)

/-- A request for a pod with a selector. -/
theorem handled_pod : Handled hostCodec twoNodes true
    (.json (.obj [("object", podJson "importer-vm-1" (some none))])) := by
  refine (handled_iff (by decide)).2 ⟨⟨"importer-vm-1", some ∅, ()⟩, "b", _, rfl, rfl, rfl, rfl⟩

end K8sDev.Webhook

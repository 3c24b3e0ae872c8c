import K8sDev.Proof.Mutation

/-!
# Which nodes pods are sent to

Calls of `Mutate`, one after the other, between reloads. The cache is never cleared, so a pod's
name keeps the node of its first call, also when that node is gone (`mutate_stale`).

* `mutate_assigns`: the host a call writes is, for a name seen first, a node of the list
  installed now, and otherwise the host written first, a node of the list installed then.
-/

namespace K8sDev.Webhook

/-- The service and what is remembered about its past: the last list a reload got, and for each
pod name the host written first with the list of that moment. -/
structure History where
  svc : Service
  installed : List Node
  first : String → Option (String × List Node) := fun _ => none

inductive Action
  | reload (listed : Except String (List Node))
  | mutate (req : AdmissionRequest)

variable {ρ : Type} [DecidableEq ρ] {c : Codec ρ}

/-- The pod name and the host of a call that writes a host. -/
def written (c : Codec ρ) (p : Service) (req : AdmissionRequest) : Option (String × String) :=
  match c.unmarshal req.object, (p.mutate c req).chose with
  | .ok pod, some host => some (pod.name, host)
  | _, _ => none

def History.note (h : History) : Option (String × String) → History
  | none => h
  | some (name, host) =>
    if (h.first name).isSome then h
    else { h with first := Function.update h.first name (some (host, h.installed)) }

/-- Reloads and calls in any order. The first reload is made before the first call. -/
def history (c : Codec ρ) : Lts History Action where
  init h := ∃ items, h = { svc := Service.reload { nodeList := [] } (.ok items), installed := items }
  step h a h' :=
    match a with
    | .reload listed =>
      h' = { h with
        svc := h.svc.reload listed
        installed := match listed with
          | .ok items => items
          | .error _ => h.installed }
    | .mutate req =>
      h' = { h.note (written c h.svc req) with svc := (h.svc.mutate c req).svc }

/-- The list that decides about the next call for a pod of this name. -/
def History.live (h : History) (name : String) : List Node :=
  match h.first name with
  | some (_, live) => live
  | none => h.installed

/-! ## The invariant -/

/-- The cache holds, for each name, the host written first, a node of the list of that moment. -/
structure Settled (h : History) : Prop where
  nodes : h.svc.nodeList.Perm h.installed
  fresh : ∀ name, h.svc.cache name = none → h.first name = none
  cached : ∀ name host, h.svc.cache name = some host →
    ∃ live, h.first name = some (host, live) ∧ host ∈ live.map Node.name

theorem chosen_fresh {p : Service} {name host : String} (h : p.chosen name = some host)
    (hfresh : p.cache name = none) : host ∈ p.nodeList.map Node.name := by
  rw [Service.chosen, hfresh, Option.none_or] at h
  obtain ⟨node, hnode, rfl⟩ := Option.map_eq_some_iff.1 h
  exact List.mem_map_of_mem (List.mem_of_getElem? hnode)

theorem chosen_cached {p : Service} {name host cached : String} (h : p.chosen name = some host)
    (hcached : p.cache name = some cached) : host = cached := by
  rw [Service.chosen, hcached] at h
  exact (Option.some.inj h).symm

theorem settled_init {h : History} (h0 : (history c).init h) : Settled h := by
  obtain ⟨items, rfl⟩ := h0
  exact ⟨List.perm_insertionSort _ _, fun _ _ => rfl, nofun⟩

theorem settled_reload {h : History} (hs : Settled h) (listed : Except String (List Node)) :
    Settled { h with
      svc := h.svc.reload listed
      installed := match listed with
        | .ok items => items
        | .error _ => h.installed } := by
  cases listed with
  | error e => exact hs
  | ok items => exact ⟨List.perm_insertionSort _ _, hs.fresh, hs.cached⟩

theorem settled_mutate {h : History} (hs : Settled h) (req : AdmissionRequest) :
    Settled { h.note (written c h.svc req) with svc := (h.svc.mutate c req).svc } := by
  rcases mutate_cases c h.svc req with
    ⟨pod, pod', host, data, hpod, -, hchosen, -, -, hcall⟩ | ⟨hlog, -, hnodes, hcache⟩
  · have hwritten : written c h.svc req = some (pod.name, host) := by
      simp only [written, hpod, hcall, Call.chose, Option.map_some]
    rw [hwritten, hcall]
    cases hold : h.svc.cache pod.name with
    | some cached =>
      -- a cached name: neither the cache nor the record changes
      obtain rfl := chosen_cached hchosen hold
      obtain ⟨live, hfirst, -⟩ := hs.cached _ _ hold
      have hnote : h.note (some (pod.name, host)) = h := by
        simp only [History.note, hfirst, Option.isSome_some, if_true]
      rw [store_cached hold, hnote]
      exact hs
    | none =>
      have hnote : h.note (some (pod.name, host)) =
          { h with first := Function.update h.first pod.name (some (host, h.installed)) } := by
        simp only [History.note, hs.fresh _ hold, Option.isSome_none, Bool.false_eq_true, if_false]
      rw [hnote]
      refine ⟨?_, fun name hname => ?_, fun name host' hname => ?_⟩
      · rw [store_nodeList, drawn_nodeList]
        exact hs.nodes
      · by_cases heq : name = pod.name
        · rw [heq, store_cache_self] at hname
          cases hname
        · simp only [Service.store, drawn_cache, Function.update_of_ne heq] at hname ⊢
          exact hs.fresh name hname
      · by_cases heq : name = pod.name
        · rw [heq, store_cache_self] at hname
          obtain rfl := Option.some.inj hname
          refine ⟨h.installed, by rw [heq]; exact Function.update_self .., ?_⟩
          exact (hs.nodes.map Node.name).subset (chosen_fresh hchosen hold)
        · simp only [Service.store, drawn_cache, Function.update_of_ne heq] at hname ⊢
          exact hs.cached name host' hname
  · have hwritten : written c h.svc req = none := by
      simp only [written, Call.chose, hlog, Option.map_none]
      split
      · rename_i hnone
        cases hnone
      · rfl
    rw [hwritten]
    refine ⟨?_, ?_, ?_⟩
    · simp only [hnodes]
      exact hs.nodes
    · simp only [hcache]
      exact hs.fresh
    · simp only [hcache]
      exact hs.cached

theorem settled {h : History} (hr : (history c).Reachable h) : Settled h := by
  refine hr.invariant (fun h h0 => settled_init h0) ?_
  intro h a h' _ hs hst
  cases a with
  | reload listed =>
    rw [show h' = _ from hst]
    exact settled_reload hs listed
  | mutate req =>
    rw [show h' = _ from hst]
    exact settled_mutate hs req

/-- **Where a call sends its pod.** -/
theorem mutate_assigns {h : History} (hr : (history c).Reachable h) {req : AdmissionRequest}
    {data : Json} {b : Bool} (hcall : (h.svc.mutate c req).answer = .returned (some data) b) :
    ∃ pod pod' host, c.unmarshal req.object = .ok pod ∧ pod.select host = some pod' ∧
      c.marshal pod' = .ok data ∧ host ∈ (h.live pod.name).map Node.name ∧
      ∀ earlier live, h.first pod.name = some (earlier, live) → host = earlier := by
  have hs := settled hr
  rcases mutate_cases c h.svc req with
    ⟨pod, pod', host, data', hpod, -, hchosen, hselect, hmarshal, hm⟩ | ⟨-, hnone, -, -⟩
  · rw [hm] at hcall
    obtain rfl : data' = data := by
      simp only [Mutated.returned.injEq, Option.some.injEq] at hcall
      exact hcall.1
    refine ⟨pod, pod', host, hpod, hselect, hmarshal, ?_⟩
    cases hcached : h.svc.cache pod.name with
    | some cached =>
      obtain rfl := chosen_cached hchosen hcached
      obtain ⟨live, hfirst, hmem⟩ := hs.cached _ _ hcached
      rw [History.live, hfirst]
      refine ⟨hmem, fun earlier live' h => ?_⟩
      exact congrArg Prod.fst (Option.some.inj h)
    | none =>
      rw [History.live, hs.fresh _ hcached]
      exact ⟨(hs.nodes.map Node.name).subset (chosen_fresh hchosen hcached), nofun⟩
  · exact absurd hcall (hnone data b)

/-! ## A node that leaves -/

/-- The creation of an importer pod without a host. -/
def create : AdmissionRequest := podRequest (podJson "importer-vm-1" (some none))

/-- The first list has the nodes `a` and `b`. -/
def opening : History where
  svc := Service.reload { nodeList := [] } (.ok [⟨"b"⟩, ⟨"a"⟩])
  installed := [⟨"b"⟩, ⟨"a"⟩]

/-- The pod is sent to `b`. -/
def placed : History where
  svc :=
    { nodeList := [⟨"a"⟩, ⟨"b"⟩]
      cache := Function.update (fun _ => none) "importer-vm-1" (some "b")
      next := 1 }
  installed := [⟨"b"⟩, ⟨"a"⟩]
  first := Function.update (fun _ => none) "importer-vm-1" (some ("b", [⟨"b"⟩, ⟨"a"⟩]))

/-- Then `b` is no longer listed. -/
def departed : History :=
  { placed with svc := { placed.svc with nodeList := [⟨"a"⟩] }, installed := [⟨"a"⟩] }

theorem departed_reachable : (history hostCodec).Reachable departed := by
  have h0 : (history hostCodec).Reachable opening := .of_init ⟨_, rfl⟩
  have h1 : (history hostCodec).step opening (.mutate create) placed := rfl
  have h2 : (history hostCodec).step placed (.reload (.ok [⟨"a"⟩])) departed := rfl
  exact (h0.step h1).step h2

/-- The next call for the pod still sends it to `b`. -/
theorem mutate_stale :
    (history hostCodec).Reachable departed ∧ departed.installed ≠ [] ∧
    (∃ data b, (departed.svc.mutate hostCodec create).answer = .returned (some data) b ∧
      hostCodec.unmarshal (some data) =
        .ok ⟨"importer-vm-1", some (Finmap.singleton hostname "b"), ()⟩) ∧
    "b" ∉ departed.installed.map Node.name :=
  ⟨departed_reachable, by decide, ⟨_, _, rfl, rfl⟩, by decide⟩

theorem mutate_assigns_departed : ∃ pod : Pod Unit, ∃ pod' host,
    hostCodec.unmarshal create.object = .ok pod ∧ pod.select host = some pod' ∧
      host ∈ (departed.live pod.name).map Node.name := by
  obtain ⟨pod, pod', host, hpod, hselect, -, hmem, -⟩ :=
    mutate_assigns departed_reachable (rfl : (departed.svc.mutate hostCodec create).answer = _)
  exact ⟨pod, pod', host, hpod, hselect, hmem⟩

end K8sDev.Webhook

import K8sDev.Spec.Apiserver
import Mathlib.Data.List.ReduceOption

/-!
# Where the admission hooks are served

A hook becomes one wrapper for each method and version it has (`wrappersOf`, in the order of
registration). The three nested maps of `New` only sort these wrappers by their resource, so
what is served at a resource does not depend on the order in which the maps are ranged over.

* `served`: an endpoint is the last wrapper registered for it, and nothing else is served, by any
  generic server that serves the groups it was handed (`Serves`).
* `groups_wellFormed`: what `InstallAPIGroup` is handed, for every order.
* `review_answered`: a review created at the endpoint of a hook is answered by that hook, under
  the `UID` of its request, as long as no two methods share an endpoint.
* `initialized_once`: which hooks are initialized, and when `New` dies instead.
-/

namespace K8sDev.Apiserver

variable {α β : Type}

/-- The wrappers of one hook, in the order of the four `if`s. -/
def AdmissionHook.wrappers (hook : AdmissionHook α β) : List (Wrapper α β) :=
  [hook.mutatingV1Beta1?, hook.validatingV1Beta1?, hook.mutatingV1?, hook.validatingV1?].reduceOption

/-- All wrappers, in the order of registration. -/
def wrappersOf (hooks : List (AdmissionHook α β)) : List (Wrapper α β) :=
  hooks.flatMap AdmissionHook.wrappers

theorem wrappersOf_cons (hook : AdmissionHook α β) (hooks : List (AdmissionHook α β)) :
    wrappersOf (hook :: hooks) = hook.wrappers ++ wrappersOf hooks :=
  List.flatMap_cons

/-- The wrappers registered for one resource. -/
def registered (hooks : List (AdmissionHook α β)) (gvr : GroupVersionResource) :
    List (Wrapper α β) :=
  (wrappersOf hooks).filter fun w => w.resource = gvr

/-- The storage of a wrapper. -/
def Wrapper.storage : Wrapper α β → Storage α β
  | .mutatingV1Beta1 _ admission | .validatingV1Beta1 _ admission => .rest admission
  | .mutatingV1 _ admission | .validatingV1 _ admission => .v1Rest admission

/-- The nil storage is never reached. -/
theorem getAdmissionRest_eq (w : Wrapper α β) : getAdmissionRest w = some w.storage := by
  cases w <;> rfl

/-! ## The groups -/

theorem foldl_addIf (ret : Groups α β) (ws : List (Option (Wrapper α β))) :
    ws.foldl addIf ret = ws.reduceOption.foldl addWrapper ret := by
  induction ws generalizing ret with
  | nil => rfl
  | cons w ws ih =>
    cases w with
    | none => exact ih ret
    | some w => exact ih (addWrapper ret w)

/-- **The loop over the hooks is a loop over their wrappers.** -/
theorem groups_eq (hooks : List (AdmissionHook α β)) :
    admissionHooksByGroupThenVersion hooks = (wrappersOf hooks).foldl addWrapper .empty := by
  have hstep : ∀ (hooks : List (AdmissionHook α β)) (ret : Groups α β),
      hooks.foldl (fun ret hook => addIf (addIf (addIf (addIf ret hook.mutatingV1Beta1?)
        hook.validatingV1Beta1?) hook.mutatingV1?) hook.validatingV1?) ret =
      (wrappersOf hooks).foldl addWrapper ret := by
    intro hooks
    induction hooks with
    | nil => exact fun ret => rfl
    | cons hook hooks ih =>
      intro ret
      rw [List.foldl_cons, ih, wrappersOf_cons, List.foldl_append]
      exact congrArg (fun ret => List.foldl addWrapper ret _) (foldl_addIf ret
        [hook.mutatingV1Beta1?, hook.validatingV1Beta1?, hook.mutatingV1?, hook.validatingV1?])
  exact hstep hooks .empty

/-- The wrappers of one version, in the table of a group. -/
def addVersion (group : Table String (List (Wrapper α β))) (w : Wrapper α β) :
    Table String (List (Wrapper α β)) :=
  group.update w.resource.version fun wrappers => wrappers.getD [] ++ [w]

theorem foldl_snoc {τ : Type} (xs : List τ) : ∀ ys, xs.foldl (fun l x => l ++ [x]) ys = ys ++ xs := by
  induction xs with
  | nil => simp
  | cons x xs ih => intro ys; simp [ih]

/-- What the grouping holds for a group: its wrappers by version. -/
theorem get?_groups (hooks : List (AdmissionHook α β)) (group : String) :
    (admissionHooksByGroupThenVersion hooks).get? group =
      if (wrappersOf hooks).filter (fun w => w.resource.group = group) = [] then none
      else some (((wrappersOf hooks).filter fun w => w.resource.group = group).foldl addVersion
        .empty) := by
  rw [groups_eq]
  exact Table.get?_group (fun w : Wrapper α β => w.resource.group) addVersion .empty group _

theorem get?_versions (ws : List (Wrapper α β)) (version : String) :
    (ws.foldl addVersion .empty).get? version =
      if ws.filter (fun w => w.resource.version = version) = [] then none
      else some (ws.filter fun w => w.resource.version = version) := by
  have hget := Table.get?_group (fun w : Wrapper α β => w.resource.version)
    (fun wrappers w => wrappers ++ [w]) [] version ws
  rw [foldl_snoc, List.nil_append] at hget
  exact hget

/-- The wrappers under a version are of that version. -/
theorem version_of_mem {ws : List (Wrapper α β)} {e : String × List (Wrapper α β)}
    (he : e ∈ (ws.foldl addVersion .empty).entries) : ∀ w ∈ e.2, w.resource.version = e.1 := by
  have hget := Table.mem_entries.1 he
  rw [get?_versions] at hget
  split at hget
  · cases hget
  · intro w hw
    rw [← Option.some.inj hget] at hw
    exact of_decide_eq_true (List.mem_filter.1 hw).2

/-! ## One API group -/

/-- The wrappers of a group in the order the loops of `New` meet them. -/
def visited (order : Table.RangeOrder) (loop : List ℕ) (versionMap : Table String (List (Wrapper α β))) :
    List (Wrapper α β) :=
  (order.visit loop versionMap.entries).flatMap Prod.snd

/-- A group meets each version's wrappers together and in their order. -/
theorem filter_visited (order : Table.RangeOrder) (loop : List ℕ) (ws : List (Wrapper α β))
    (version : String) :
    (visited order loop (ws.foldl addVersion .empty)).filter (fun w => w.resource.version = version) =
      ws.filter fun w => w.resource.version = version := by
  have hperm := order.perm loop (ws.foldl addVersion .empty).entries
  have hkey : ∀ e ∈ order.visit loop (ws.foldl addVersion .empty).entries,
      ∀ w ∈ e.2, w.resource.version = e.1 := fun e he => version_of_mem (hperm.mem_iff.1 he)
  rw [visited, Table.filter_flatMap_entries hperm hkey, get?_versions]
  split
  · rename_i hnil
    exact hnil.symm
  · rfl

theorem mem_visited {order : Table.RangeOrder} {loop : List ℕ} {ws : List (Wrapper α β)}
    {w : Wrapper α β} : w ∈ visited order loop (ws.foldl addVersion .empty) ↔ w ∈ ws := by
  have hfilter := filter_visited order loop ws w.resource.version
  have hmem : ∀ xs : List (Wrapper α β),
      w ∈ xs.filter (fun x => x.resource.version = w.resource.version) ↔ w ∈ xs := by simp
  rw [← hmem, hfilter, hmem]

/-- One turn of the inner loop, on the storages. -/
def addStorage (storages : Table String (Table String (Storage α β))) (w : Wrapper α β) :
    Table String (Table String (Storage α β)) :=
  storages.update w.resource.version fun storage =>
    (storage.getD .empty).set w.resource.resource w.storage

/-- The order of the versions does not reach the storages. -/
theorem foldl_addHook_storages (visit : ℕ → List GroupVersion → List GroupVersion)
    (ws : List (Wrapper α β)) : ∀ (info : APIGroupInfo α β) (i : ℕ),
      ((ws.zipIdx i).foldl (fun info wi => addHook (visit wi.2) info wi.1)
        info).versionedResourcesStorageMap = ws.foldl addStorage info.versionedResourcesStorageMap := by
  induction ws with
  | nil => exact fun _ _ => rfl
  | cons w ws ih =>
    intro info i
    rw [List.zipIdx_cons, List.foldl_cons, ih, List.foldl_cons]
    simp only [addHook, getAdmissionRest_eq, addStorage]

/-- The prioritized versions are those of the wrappers met so far, each once. -/
theorem foldl_addHook_versions {visit : ℕ → List GroupVersion → List GroupVersion}
    (hvisit : ∀ i gvs, (visit i gvs).Perm gvs) (ws : List (Wrapper α β)) :
    ∀ (info : APIGroupInfo α β) (i : ℕ), info.prioritizedVersions.Nodup →
      let info' := (ws.zipIdx i).foldl (fun info wi => addHook (visit wi.2) info wi.1) info
      info'.prioritizedVersions.Nodup ∧ ∀ gv, gv ∈ info'.prioritizedVersions ↔
        gv ∈ info.prioritizedVersions ∨ ∃ w ∈ ws, w.resource.groupVersion = gv := by
  induction ws with
  | nil => exact fun info i hnd => ⟨hnd, fun gv => by simp⟩
  | cons w ws ih =>
    intro info i hnd
    -- what one turn appends
    have hstep : (addHook (visit i) info w).prioritizedVersions =
        visit i (info.prioritizedVersions ++ [w.resource.groupVersion]).dedup := by
      simp only [addHook, getAdmissionRest_eq, appendUniqueGroupVersion]
    have hperm := hvisit i (info.prioritizedVersions ++ [w.resource.groupVersion]).dedup
    have hnd' : (addHook (visit i) info w).prioritizedVersions.Nodup := by
      rw [hstep]
      exact hperm.nodup_iff.2 (List.nodup_dedup _)
    obtain ⟨hnodup, hmem⟩ := ih (addHook (visit i) info w) (i + 1) hnd'
    rw [List.zipIdx_cons]
    refine ⟨hnodup, fun gv => ?_⟩
    rw [List.foldl_cons, hmem, hstep, hperm.mem_iff]
    simp [or_assoc, eq_comm]

theorem groupInfo_storages (order : Table.RangeOrder) (loop : List ℕ)
    (versionMap : Table String (List (Wrapper α β))) :
    (groupInfo order loop versionMap).versionedResourcesStorageMap =
      (visited order loop versionMap).foldl addStorage .empty :=
  foldl_addHook_storages (fun i => order.visit (i :: loop)) _ {} 0

theorem groupInfo_versions (order : Table.RangeOrder) (loop : List ℕ)
    (versionMap : Table String (List (Wrapper α β))) :
    (groupInfo order loop versionMap).prioritizedVersions.Nodup ∧
      ∀ gv, gv ∈ (groupInfo order loop versionMap).prioritizedVersions ↔
        ∃ w ∈ visited order loop versionMap, w.resource.groupVersion = gv := by
  obtain ⟨hnd, hmem⟩ := foldl_addHook_versions
    (fun i gvs => order.perm (i :: loop) gvs) (visited order loop versionMap) {} 0 List.nodup_nil
  exact ⟨hnd, fun gv => (hmem gv).trans (by simp)⟩

/-- **The storages of a group**: at each version and resource the last wrapper. -/
theorem get?_storages (ws : List (Wrapper α β)) (version resource : String) :
    ((ws.foldl addStorage .empty).get? version).bind (fun storage => storage.get? resource) =
      (((ws.filter fun w => w.resource.version = version).filter fun w =>
        w.resource.resource = resource).getLast?).map Wrapper.storage := by
  have hversion := Table.get?_group (fun w : Wrapper α β => w.resource.version)
    (fun storage w => storage.set w.resource.resource w.storage) Table.empty version ws
  have hset := Table.get?_foldl_set (fun w : Wrapper α β => w.resource.resource) Wrapper.storage
    resource (ws.filter fun w => w.resource.version = version)
  unfold addStorage
  rw [hversion]
  split
  · rename_i hnil
    rw [hnil]
    rfl
  · rw [Option.bind_some, hset]

/-- The loops of `New`, where the generic server refuses nothing. -/
theorem handOver_ok {τ : Type} {refuse : List τ → τ → Option Failure} {xs : List τ} :
    ∀ {done out : List τ}, handOver refuse done xs = .ok out → out = done ++ xs := by
  induction xs with
  | nil => intro done out h; cases h; simp
  | cons x xs ih =>
    intro done out h
    rw [handOver] at h
    split at h
    · cases h
    · simpa using ih h

theorem new_ok {generic : GenericServer α β} {order : Table.RangeOrder}
    {hooks : List (AdmissionHook α β)} {server : AdmissionServer α β}
    (h : new generic order hooks = .ok server) :
    server.apiGroups = groupInfos order (admissionHooksByGroupThenVersion hooks) ∧
      server.postStartHooks = postStarts hooks := by
  simp only [new] at h
  cases hgroups : handOver (fun done info => (generic.installAPIGroup done info).map Failure.error) []
      (groupInfos order (admissionHooksByGroupThenVersion hooks)) with
  | error err => rw [hgroups] at h; cases h
  | ok apiGroups =>
    cases hstarts : handOver (fun done ni =>
        (generic.addPostStartHook (done.map Prod.fst) ni.1).map Failure.fatal) []
        (postStarts hooks) with
    | error err => rw [hgroups, hstarts] at h; cases h
    | ok starts =>
      rw [hgroups, hstarts] at h
      cases h
      exact ⟨by simpa using handOver_ok hgroups, by simpa using handOver_ok hstarts⟩

/-! ## All groups -/

/-- The wrappers of one group. -/
def ofGroup (hooks : List (AdmissionHook α β)) (group : String) : List (Wrapper α β) :=
  (wrappersOf hooks).filter fun w => w.resource.group = group

theorem mem_ofGroup {hooks : List (AdmissionHook α β)} {group : String} {w : Wrapper α β} :
    w ∈ ofGroup hooks group ↔ w ∈ wrappersOf hooks ∧ w.resource.group = group := by
  simp [ofGroup]

theorem get?_groups_eq {hooks : List (AdmissionHook α β)} {group : String}
    {versionMap : Table String (List (Wrapper α β))} :
    (admissionHooksByGroupThenVersion hooks).get? group = some versionMap ↔
      ofGroup hooks group ≠ [] ∧ versionMap = (ofGroup hooks group).foldl addVersion .empty := by
  rw [get?_groups]
  unfold ofGroup
  split
  · rename_i hnil
    simp [hnil]
  · rename_i hne
    exact ⟨fun h => ⟨hne, (Option.some.inj h).symm⟩, fun h => congrArg some h.2.symm⟩

theorem keys_groups {hooks : List (AdmissionHook α β)} {group : String} :
    group ∈ (admissionHooksByGroupThenVersion hooks).keys ↔
      ∃ w ∈ wrappersOf hooks, w.resource.group = group := by
  rw [Table.mem_keys, Option.isSome_iff_exists]
  simp only [get?_groups_eq]
  constructor
  · rintro ⟨-, hne, -⟩
    obtain ⟨w, hw⟩ := List.exists_mem_of_ne_nil _ hne
    exact ⟨w, mem_ofGroup.1 hw⟩
  · rintro ⟨w, hw⟩
    exact ⟨_, List.ne_nil_of_mem (mem_ofGroup.2 hw), rfl⟩

/-- **The API groups, each with its wrappers**, in the order they are installed. -/
theorem groupInfos_eq (order : Table.RangeOrder) (hooks : List (AdmissionHook α β)) :
    List.Forall₂ (fun group info => ofGroup hooks group ≠ [] ∧
        ∃ loop, info = groupInfo order loop ((ofGroup hooks group).foldl addVersion .empty))
      ((order.visit [] (admissionHooksByGroupThenVersion hooks).entries).map Prod.fst)
      (groupInfos order (admissionHooksByGroupThenVersion hooks)) := by
  have hmem : ∀ e ∈ order.visit [] (admissionHooksByGroupThenVersion hooks).entries,
      ofGroup hooks e.1 ≠ [] ∧ e.2 = (ofGroup hooks e.1).foldl addVersion .empty := fun e he =>
    get?_groups_eq.1 (Table.mem_entries.1 ((order.perm [] _).mem_iff.1 he))
  rw [groupInfos]
  generalize order.visit [] (admissionHooksByGroupThenVersion hooks).entries = es at hmem
  suffices h : ∀ k, List.Forall₂ (fun group info => ofGroup hooks group ≠ [] ∧
      ∃ loop, info = groupInfo order loop ((ofGroup hooks group).foldl addVersion .empty))
      (es.map Prod.fst) ((es.zipIdx k).map fun ei => groupInfo order [ei.2] ei.1.2) from h 0
  induction es with
  | nil => exact fun k => .nil
  | cons e es ih =>
    intro k
    obtain ⟨hne, heq⟩ := hmem e List.mem_cons_self
    rw [List.zipIdx_cons]
    have hrest := ih (fun e he => hmem e (List.mem_cons_of_mem _ he)) (k + 1)
    exact .cons ⟨hne, [k], congrArg (groupInfo order [k]) heq⟩ hrest

/-! ## The endpoints -/

theorem registered_eq (hooks : List (AdmissionHook α β)) (gvr : GroupVersionResource) :
    ((ofGroup hooks gvr.group).filter fun w => w.resource.version = gvr.version).filter
      (fun w => w.resource.resource = gvr.resource) = registered hooks gvr := by
  rw [ofGroup, registered, List.filter_filter, List.filter_filter]
  congr 1
  funext w
  obtain ⟨g, v, r⟩ := gvr
  cases hw : w.resource with
  | mk g' v' r' => by_cases hg : g' = g <;> by_cases hv : v' = v <;> by_cases hr : r' = r <;>
      simp [hg, hv, hr]

theorem groupInfo_served (order : Table.RangeOrder) (loop : List ℕ)
    (hooks : List (AdmissionHook α β)) (group : String) (gvr : GroupVersionResource) :
    (groupInfo order loop ((ofGroup hooks group).foldl addVersion .empty)).storage? gvr =
      if group = gvr.group then ((registered hooks gvr).getLast?).map Wrapper.storage else none := by
  have hversions := (groupInfo_versions order loop ((ofGroup hooks group).foldl addVersion .empty)).2
    gvr.groupVersion
  unfold APIGroupInfo.storage?
  rw [groupInfo_storages, get?_storages, filter_visited]
  by_cases hgroup : group = gvr.group
  · subst hgroup
    rw [if_pos rfl, registered_eq]
    split
    · rfl
    · rename_i hnone
      rw [hversions] at hnone
      -- nobody registered for that version, so nobody for the resource
      cases hlast : (registered hooks gvr).getLast? with
      | none => rfl
      | some w =>
        have hw := List.mem_of_getLast? hlast
        rw [registered, List.mem_filter] at hw
        have hgvr : w.resource = gvr := of_decide_eq_true hw.2
        exact absurd ⟨w, mem_visited.2 (mem_ofGroup.2 ⟨hw.1, by rw [hgvr]⟩), by rw [hgvr]⟩ hnone
  · rw [if_neg hgroup, if_neg]
    rw [hversions]
    rintro ⟨w, hw, hgv⟩
    have hwg := (mem_ofGroup.1 (mem_visited.1 hw)).2
    exact hgroup (hwg.symm.trans (congrArg GroupVersion.group hgv))

/-- Among the groups handed over, the storage at a resource is the last method's. -/
theorem installed_iff {generic : GenericServer α β} {order : Table.RangeOrder}
    {hooks : List (AdmissionHook α β)} {server : AdmissionServer α β}
    (h : new generic order hooks = .ok server) (gvr : GroupVersionResource)
    (storage : Storage α β) :
    (∃ info ∈ server.apiGroups, info.storage? gvr = some storage) ↔
      ((registered hooks gvr).getLast?).map Wrapper.storage = some storage := by
  have hinfos := groupInfos_eq order hooks
  rw [← (new_ok h).1] at hinfos
  constructor
  · rintro ⟨info, hinfo, hstorage⟩
    obtain ⟨i, hi, rfl⟩ := List.getElem_of_mem hinfo
    obtain ⟨-, loop, heq⟩ := hinfos.get (hinfos.length_eq ▸ hi) hi
    simp only [List.get_eq_getElem] at heq
    rw [heq, groupInfo_served] at hstorage
    split at hstorage
    · exact hstorage
    · cases hstorage
  · intro hlast
    obtain ⟨w, hget, -⟩ := Option.map_eq_some_iff.1 hlast
    -- the group of the endpoint is among the groups installed
    have hw := List.mem_of_getLast? hget
    rw [registered, List.mem_filter] at hw
    have hgvr : w.resource = gvr := of_decide_eq_true hw.2
    have hkey : gvr.group ∈ (order.visit [] (admissionHooksByGroupThenVersion hooks).entries).map
        Prod.fst :=
      ((order.perm [] _).map Prod.fst).mem_iff.2 (keys_groups.2 ⟨w, hw.1, by rw [hgvr]⟩)
    obtain ⟨i, hi, hgroup⟩ := List.getElem_of_mem hkey
    have hi' : i < server.apiGroups.length := hinfos.length_eq ▸ hi
    obtain ⟨-, loop, heq⟩ := hinfos.get hi hi'
    simp only [List.get_eq_getElem] at heq
    refine ⟨server.apiGroups[i], List.getElem_mem hi', ?_⟩
    rw [heq, hgroup, groupInfo_served, if_pos rfl, hlast]

theorem storageAt_iff {generic : GenericServer α β} {order : Table.RangeOrder}
    {hooks : List (AdmissionHook α β)} {server : AdmissionServer α β}
    (h : new generic order hooks = .ok server)
    {storageAt : GroupVersionResource → Option (Storage α β)}
    (hserves : Serves server.apiGroups storageAt) (gvr : GroupVersionResource)
    (storage : Storage α β) : storageAt gvr = some storage ↔
      ((registered hooks gvr).getLast?).map Wrapper.storage = some storage := by
  rw [← installed_iff h gvr storage]
  constructor
  · exact hserves.only gvr storage
  · rintro ⟨info, hinfo, hstorage⟩
    exact hserves.installed info hinfo gvr storage hstorage

/-- **What is served where.** Whatever the order of the maps, a generic server that serves the
groups it was handed serves at a resource the last method registered for it, and serves nothing
else. -/
theorem served {generic : GenericServer α β} {order : Table.RangeOrder}
    {hooks : List (AdmissionHook α β)} {server : AdmissionServer α β}
    (h : new generic order hooks = .ok server)
    {storageAt : GroupVersionResource → Option (Storage α β)}
    (hserves : Serves server.apiGroups storageAt) (gvr : GroupVersionResource) :
    storageAt gvr = ((registered hooks gvr).getLast?).map Wrapper.storage :=
  Option.ext fun storage => storageAt_iff h hserves gvr storage

/-! ## What `InstallAPIGroup` is handed -/

/-- The API group of the hooks: its prioritized versions are the versions that some method is
hosted at, and the storages of each are the resources there. -/
structure APIGroupInfo.Covers (hooks : List (AdmissionHook α β)) (group : String)
    (info : APIGroupInfo α β) : Prop where
  nonempty : info.prioritizedVersions ≠ []
  nodup : info.prioritizedVersions.Nodup
  versions : ∀ gv, gv ∈ info.prioritizedVersions ↔
    gv.group = group ∧ ∃ w ∈ wrappersOf hooks, w.resource.groupVersion = gv
  storages : ∀ version, version ∈ info.versionedResourcesStorageMap.keys ↔
    ⟨group, version⟩ ∈ info.prioritizedVersions
  resources : ∀ version storage, info.versionedResourcesStorageMap.get? version = some storage →
    ∀ resource, resource ∈ storage.keys ↔
      ∃ w ∈ wrappersOf hooks, w.resource = ⟨group, version, resource⟩

theorem get?_addStorage (ws : List (Wrapper α β)) (version : String) :
    (ws.foldl addStorage .empty).get? version =
      if ws.filter (fun w => w.resource.version = version) = [] then none
      else some ((ws.filter fun w => w.resource.version = version).foldl
        (fun storage w => storage.set w.resource.resource w.storage) .empty) :=
  Table.get?_group (fun w : Wrapper α β => w.resource.version)
    (fun storage w => storage.set w.resource.resource w.storage) Table.empty version ws

theorem mem_keys_resources {ws : List (Wrapper α β)} {resource : String} :
    resource ∈ (ws.foldl (fun storage w => storage.set w.resource.resource w.storage)
      (.empty : Table String (Storage α β))).keys ↔ ∃ w ∈ ws, w.resource.resource = resource := by
  have hget := Table.get?_foldl_set (fun w : Wrapper α β => w.resource.resource) Wrapper.storage
    resource ws
  rw [Table.mem_keys, hget, Option.isSome_map, List.getLast?_isSome]
  constructor
  · intro hne
    obtain ⟨w, hw⟩ := List.exists_mem_of_ne_nil _ hne
    exact ⟨w, by simpa using hw⟩
  · rintro ⟨w, hw, hr⟩
    have hmem : w ∈ ws.filter fun w => w.resource.resource = resource := by simp [hw, hr]
    exact List.ne_nil_of_mem hmem

theorem groupInfo_covers (order : Table.RangeOrder) (loop : List ℕ)
    (hooks : List (AdmissionHook α β)) {group : String} (hne : ofGroup hooks group ≠ []) :
    (groupInfo order loop ((ofGroup hooks group).foldl addVersion .empty)).Covers hooks group := by
  obtain ⟨hnd, hmem⟩ := groupInfo_versions order loop ((ofGroup hooks group).foldl addVersion .empty)
  have hversions : ∀ gv, gv ∈ (groupInfo order loop
      ((ofGroup hooks group).foldl addVersion .empty)).prioritizedVersions ↔
      gv.group = group ∧ ∃ w ∈ wrappersOf hooks, w.resource.groupVersion = gv := by
    intro gv
    rw [hmem]
    constructor
    · rintro ⟨w, hw, rfl⟩
      obtain ⟨hw, hg⟩ := mem_ofGroup.1 (mem_visited.1 hw)
      exact ⟨hg, w, hw, rfl⟩
    · rintro ⟨hg, w, hw, rfl⟩
      exact ⟨w, mem_visited.2 (mem_ofGroup.2 ⟨hw, hg⟩), rfl⟩
  refine ⟨?_, hnd, hversions, ?_, ?_⟩
  · obtain ⟨w, hw⟩ := List.exists_mem_of_ne_nil _ hne
    exact List.ne_nil_of_mem ((hmem w.resource.groupVersion).2 ⟨w, mem_visited.2 hw, rfl⟩)
  · intro version
    rw [hversions, groupInfo_storages, Table.mem_keys, get?_addStorage, filter_visited]
    have hfilter : (ofGroup hooks group).filter (fun w => w.resource.version = version) = [] ↔
        ¬∃ w ∈ wrappersOf hooks, w.resource.groupVersion = ⟨group, version⟩ := by
      rw [List.filter_eq_nil_iff]
      constructor
      · rintro hnone ⟨w, hw, hgv⟩
        obtain ⟨hg, hv⟩ := GroupVersion.mk.inj hgv
        exact hnone w (mem_ofGroup.2 ⟨hw, hg⟩) (decide_eq_true hv)
      · intro hnone w hw hv
        obtain ⟨hw, hg⟩ := mem_ofGroup.1 hw
        have hgv : w.resource.groupVersion = ⟨group, version⟩ :=
          (GroupVersion.mk.injEq ..).mpr ⟨hg, of_decide_eq_true hv⟩
        exact hnone ⟨w, hw, hgv⟩
    split
    · rename_i hnil
      simp [hfilter.1 hnil]
    · rename_i hsome
      simpa using not_not.1 (mt hfilter.2 hsome)
  · intro version storage hstorage resource
    rw [groupInfo_storages, get?_addStorage, filter_visited] at hstorage
    split at hstorage
    · cases hstorage
    · obtain rfl := Option.some.inj hstorage
      rw [mem_keys_resources]
      constructor
      · rintro ⟨w, hmem, rfl⟩
        obtain ⟨hmem, hv⟩ := List.mem_filter.1 hmem
        obtain ⟨hw, rfl⟩ := mem_ofGroup.1 hmem
        obtain rfl := of_decide_eq_true hv
        exact ⟨w, hw, rfl⟩
      · rintro ⟨w, hw, hgvr⟩
        have hg : w.resource.group = group := by rw [hgvr]
        exact ⟨w, List.mem_filter.2 ⟨mem_ofGroup.2 ⟨hw, hg⟩, by simp [hgvr]⟩, by rw [hgvr]⟩

/-- **What `InstallAPIGroup` is handed**, whatever the order of the maps: one API group for each
group that some method is hosted in, with exactly the versions and resources of its methods. -/
theorem groups_wellFormed (generic : GenericServer α β) (order : Table.RangeOrder)
    (hooks : List (AdmissionHook α β)) :
    ∃ groups : List String, groups.Nodup ∧
      (∀ group, group ∈ groups ↔ ∃ w ∈ wrappersOf hooks, w.resource.group = group) ∧
      List.Forall₂ (APIGroupInfo.Covers hooks) groups
        (groupInfos order (admissionHooksByGroupThenVersion hooks)) ∧
      ∀ server, new generic order hooks = .ok server →
        server.apiGroups = groupInfos order (admissionHooksByGroupThenVersion hooks) := by
  have hperm := (order.perm [] (admissionHooksByGroupThenVersion hooks).entries).map Prod.fst
  refine ⟨(order.visit [] (admissionHooksByGroupThenVersion hooks).entries).map Prod.fst,
    hperm.nodup_iff.2 (admissionHooksByGroupThenVersion hooks).nodup,
    fun group => hperm.mem_iff.trans keys_groups, ?_, fun server h => (new_ok h).1⟩
  refine (groupInfos_eq order hooks).imp ?_
  rintro group info ⟨hne, loop, rfl⟩
  exact groupInfo_covers order loop hooks hne

/-! ## Reviews -/

/-- The hook answers the requests posted at that resource by that method. -/
def AdmissionHook.Hosts (hook : AdmissionHook α β) (gvr : GroupVersionResource)
    (method : Method α β) : Prop :=
  hook.mutatingResource = some gvr ∧ hook.admitMethod = some method ∨
    hook.validatingResource = some gvr ∧ hook.validateMethod = some method

/-- The storage a method becomes. -/
def Method.storage : Method α β → Storage α β
  | .v1beta1 hookFn => .rest hookFn
  | .v1 hookFn => .v1Rest hookFn

/-- The review as the endpoint of the method decodes it. -/
def Method.object : Method α β → AdmissionReview α β → Object α β
  | .v1beta1 _ => .v1beta1
  | .v1 _ => .v1

/-- The call of the method. -/
def Method.call : Method α β → HookFunc α β
  | .v1beta1 hookFn | .v1 hookFn => hookFn

/-- The `UID` of the response: the request's at v1, what the hook put there at v1beta1. -/
def Method.stamp (method : Method α β) (request : AdmissionRequest α)
    (answer : AdmissionResponse β) : AdmissionResponse β :=
  match method with
  | .v1beta1 _ => answer
  | .v1 _ => { answer with uid := request.uid }

/-- The wrapper of a method is registered for its resource. -/
theorem wrapper_of_hosts {hooks : List (AdmissionHook α β)} {hook : AdmissionHook α β}
    (hhook : hook ∈ hooks) {gvr : GroupVersionResource} {method : Method α β}
    (hm : hook.Hosts gvr method) :
    ∃ w ∈ wrappersOf hooks, w.resource = gvr ∧ w.storage = method.storage := by
  have hmem : ∀ w : Wrapper α β, some w ∈ [hook.mutatingV1Beta1?, hook.validatingV1Beta1?,
      hook.mutatingV1?, hook.validatingV1?] → w ∈ wrappersOf hooks := fun w hw =>
    List.mem_flatMap.2 ⟨hook, hhook, List.reduceOption_mem_iff.2 hw⟩
  rcases hm with ⟨hres, hmethod⟩ | ⟨hres, hmethod⟩
  · cases method with
    | v1beta1 f =>
      have hw : hook.mutatingV1Beta1? = some (.mutatingV1Beta1 gvr f) := by
        simp [AdmissionHook.mutatingV1Beta1?, hres, hmethod]
      exact ⟨.mutatingV1Beta1 gvr f, hmem _ (by simp [hw]), rfl, rfl⟩
    | v1 f =>
      have hw : hook.mutatingV1? = some (.mutatingV1 gvr f) := by
        simp [AdmissionHook.mutatingV1?, hres, hmethod]
      exact ⟨.mutatingV1 gvr f, hmem _ (by simp [hw]), rfl, rfl⟩
  · cases method with
    | v1beta1 f =>
      have hw : hook.validatingV1Beta1? = some (.validatingV1Beta1 gvr f) := by
        simp [AdmissionHook.validatingV1Beta1?, hres, hmethod]
      exact ⟨.validatingV1Beta1 gvr f, hmem _ (by simp [hw]), rfl, rfl⟩
    | v1 f =>
      have hw : hook.validatingV1? = some (.validatingV1 gvr f) := by
        simp [AdmissionHook.validatingV1?, hres, hmethod]
      exact ⟨.validatingV1 gvr f, hmem _ (by simp [hw]), rfl, rfl⟩

/-- A resource nobody else is hosted at. -/
theorem registered_single {hooks : List (AdmissionHook α β)}
    (hnd : ((wrappersOf hooks).map Wrapper.resource).Nodup) {w : Wrapper α β}
    (hw : w ∈ wrappersOf hooks) : registered hooks w.resource = [w] := by
  unfold registered
  generalize wrappersOf hooks = ws at hnd hw
  induction ws with
  | nil => cases hw
  | cons x xs ih =>
    rw [List.map_cons, List.nodup_cons] at hnd
    rcases List.mem_cons.1 hw with rfl | hw
    · have hnone : xs.filter (fun y => y.resource = w.resource) = [] := by
        rw [List.filter_eq_nil_iff]
        intro y hy hyw
        exact hnd.1 (List.mem_map.2 ⟨y, hy, of_decide_eq_true hyw⟩)
      rw [List.filter_cons_of_pos (by simp), hnone]
    · have hne : x.resource ≠ w.resource := fun h => hnd.1 (List.mem_map.2 ⟨w, hw, h.symm⟩)
      rw [List.filter_cons_of_neg (by simp [hne]), ih hnd.2 hw]

/-- **Reviews are answered by their hook.** When no two methods share a resource, the storage
served at the resource of a hook's method creates a review by the answer of that method, under
the `UID` of the request at v1; the rest of the review is kept. It is a panic at v1, and no
response at v1beta1, when the method answers nil. -/
theorem review_answered {generic : GenericServer α β} {order : Table.RangeOrder}
    {hooks : List (AdmissionHook α β)} {server : AdmissionServer α β}
    (h : new generic order hooks = .ok server)
    {storageAt : GroupVersionResource → Option (Storage α β)}
    (hserves : Serves server.apiGroups storageAt)
    (hnd : ((wrappersOf hooks).map Wrapper.resource).Nodup) {hook : AdmissionHook α β}
    (hhook : hook ∈ hooks) {gvr : GroupVersionResource} {method : Method α β}
    (hm : hook.Hosts gvr method) (request : AdmissionRequest α)
    (old : Option (AdmissionResponse β)) :
    ∃ storage, storageAt gvr = some storage ∧
      (∀ answer, method.call (some request) = some answer →
        storage.create (method.object ⟨some request, old⟩) =
          some (method.object ⟨some request, some (method.stamp request answer)⟩)) ∧
      (method.call (some request) = none →
        storage.create (method.object ⟨some request, old⟩) = match method with
          | .v1beta1 _ => some (.v1beta1 ⟨some request, none⟩)
          | .v1 _ => none) := by
  obtain ⟨w, hw, rfl, hstorage⟩ := wrapper_of_hosts hhook hm
  -- no other method has this resource, so the last one registered is this one
  have hserved : storageAt w.resource = some method.storage := by
    rw [storageAt_iff h hserves, registered_single hnd hw, ← hstorage]
    rfl
  refine ⟨method.storage, hserved, ?_⟩
  cases method with
  | v1beta1 f =>
    refine ⟨fun answer hanswer => ?_, fun hnil => ?_⟩
    · simp only [Method.call] at hanswer
      simp only [Method.storage, Method.object, Storage.create, hanswer, Method.stamp]
    · simp only [Method.call] at hnil
      simp only [Method.storage, Method.object, Storage.create, hnil]
  | v1 f =>
    refine ⟨fun answer hanswer => ?_, fun hnil => ?_⟩
    · simp only [Method.call] at hanswer
      simp only [Method.storage, Method.object, Storage.create, hanswer, Method.stamp]
    · simp only [Method.call] at hnil
      simp only [Method.storage, Method.object, Storage.create, hnil]

/-! ## Post-start hooks -/

/-- A hook without a resource has no name. -/
theorem postStartHookName_eq_empty {hook : AdmissionHook α β} :
    postStartHookName hook = "" ↔
      hook.mutatingResource = none ∧ hook.validatingResource = none := by
  have hinit : ∀ s : String, s ++ "-" ++ "init" ≠ "" := by
    intro s h
    have hlen := congrArg String.length h
    simp only [String.length_append] at hlen
    exact absurd hlen (by simp)
  unfold postStartHookName
  cases hook.mutatingResource <;> cases hook.validatingResource <;>
    simp only [Option.map_none, Option.map_some, Option.toList_none, Option.toList_some,
      List.nil_append, List.cons_append, List.append_nil, reduceCtorEq, if_true, if_false, and_true,
      and_false, iff_false]
  · exact hinit _
  · exact hinit _
  · exact hinit _

theorem mem_postStarts {hooks : List (AdmissionHook α β)} {i : ℕ} {name : String} :
    (name, i) ∈ postStarts hooks ↔
      name ≠ "" ∧ ∃ hook, hooks[i]? = some hook ∧ postStartHookName hook = name := by
  unfold postStarts
  rw [List.mem_filter, List.mem_map, decide_eq_true_iff, and_comm]
  refine and_congr_right fun _ => ?_
  constructor
  · rintro ⟨⟨hook, j⟩, hmem, heq⟩
    obtain ⟨rfl, rfl⟩ := Prod.mk.inj heq
    exact ⟨hook, List.mem_zipIdx_iff_getElem?.1 hmem, rfl⟩
  · rintro ⟨hook, hget, rfl⟩
    exact ⟨(hook, i), List.mem_zipIdx_iff_getElem?.2 hget, rfl⟩

theorem names_postStarts (hooks : List (AdmissionHook α β)) :
    (postStarts hooks).map Prod.fst = (hooks.map postStartHookName).filter fun n => n ≠ "" := by
  have hnames : (hooks.zipIdx.map fun hi => (postStartHookName hi.1, hi.2)).map Prod.fst =
      hooks.map postStartHookName := by
    rw [List.map_map]
    have hcomp : (Prod.fst ∘ fun hi : AdmissionHook α β × ℕ => (postStartHookName hi.1, hi.2)) =
        postStartHookName ∘ Prod.fst := rfl
    rw [hcomp, ← List.map_map, List.zipIdx_map_fst]
  rw [← hnames, List.filter_map]
  rfl

theorem nodup_places (hooks : List (AdmissionHook α β)) :
    ((postStarts hooks).map Prod.snd).Nodup := by
  have hplaces : (hooks.zipIdx.map fun hi => (postStartHookName hi.1, hi.2)).map Prod.snd =
      List.range' 0 hooks.length := by
    rw [List.map_map]
    exact List.zipIdx_map_snd 0 hooks
  have hsub : ((postStarts hooks).map Prod.snd).Sublist (List.range' 0 hooks.length) := by
    rw [← hplaces]
    exact List.filter_sublist.map Prod.snd
  exact hsub.nodup List.nodup_range'

/-- A loop that stops at the first name that is taken. -/
theorem handOver_names {refuse : List (String × ℕ) → String × ℕ → Option Failure}
    {own : List String}
    (hrefuse : ∀ done ni, refuse done ni = none ↔ ni.1 ∉ done.map Prod.fst ∧ ni.1 ∉ own)
    (starts : List (String × ℕ)) : ∀ done, (∃ out, handOver refuse done starts = .ok out) ↔
      (starts.map Prod.fst).Nodup ∧
        ∀ name ∈ starts.map Prod.fst, name ∉ done.map Prod.fst ∧ name ∉ own := by
  induction starts with
  | nil => exact fun done => ⟨fun _ => ⟨List.nodup_nil, by simp⟩, fun _ => ⟨done, rfl⟩⟩
  | cons ni starts ih =>
    intro done
    rw [handOver, List.map_cons, List.nodup_cons, List.forall_mem_cons]
    cases h : refuse done ni with
    | some err =>
      have htaken : ¬(ni.1 ∉ done.map Prod.fst ∧ ni.1 ∉ own) := by
        rw [← hrefuse, h]
        simp
      exact ⟨fun ⟨_, hout⟩ => (by cases hout), fun ⟨_, hfree, _⟩ => absurd hfree htaken⟩
    | none =>
      have hfree := (hrefuse done ni).1 h
      have hdone : ∀ name, name ∉ (done ++ [ni]).map Prod.fst ↔
          name ∉ done.map Prod.fst ∧ name ≠ ni.1 := by
        intro name
        simp only [List.map_append, List.map_cons, List.map_nil, List.mem_append,
          List.mem_singleton, not_or, ne_eq]
      rw [ih]
      simp only [hdone]
      constructor
      · rintro ⟨hnd, hall⟩
        exact ⟨⟨fun hmem => (hall _ hmem).1.2 rfl, hnd⟩, hfree,
          fun name hmem => ⟨(hall name hmem).1.1, (hall name hmem).2⟩⟩
      · rintro ⟨⟨hnew, hnd⟩, -, hall⟩
        exact ⟨hnd, fun name hmem =>
          ⟨⟨(hall name hmem).1, fun heq => hnew (heq ▸ hmem)⟩, (hall name hmem).2⟩⟩

/-- **Every hook is initialized once.** Of a generic server that takes every API group and
refuses the names of post-start hooks that are taken, `New` builds an admission server iff no
two hooks with a resource have the same name, and none has a name of the generic server's own.
Each hook with a resource is then initialized once, and no other. -/
theorem initialized_once {generic : GenericServer α β} {order : Table.RangeOrder}
    {hooks : List (AdmissionHook α β)} {own : List String}
    (hinstall : ∀ done info, generic.installAPIGroup done info = none)
    (hadd : ∀ done name, generic.addPostStartHook done name = none ↔ name ∉ done ∧ name ∉ own) :
    ((∃ server, new generic order hooks = .ok server) ↔
      ((hooks.map postStartHookName).filter fun n => n ≠ "").Nodup ∧
        ∀ hook ∈ hooks, postStartHookName hook ≠ "" → postStartHookName hook ∉ own) ∧
    ∀ server, new generic order hooks = .ok server → ∀ i hook, hooks[i]? = some hook →
      (server.postStartHooks.map Prod.snd).count i =
        if hook.mutatingResource = none ∧ hook.validatingResource = none then 0 else 1 := by
  constructor
  · have hgroups : ∀ infos done, handOver (fun done info =>
        (generic.installAPIGroup done info).map Failure.error) done infos = .ok (done ++ infos) := by
      intro infos
      induction infos with
      | nil => intro done; simp [handOver]
      | cons info infos ih =>
        intro done
        rw [handOver, hinstall]
        simpa using ih (done ++ [info])
    -- the groups are always taken, so only the names of the hooks decide
    have hnew : (∃ server, new generic order hooks = .ok server) ↔ ∃ out,
        handOver (fun done ni => (generic.addPostStartHook (done.map Prod.fst) ni.1).map
          Failure.fatal) [] (postStarts hooks) = .ok out := by
      simp only [new, hgroups]
      cases handOver (fun done ni => (generic.addPostStartHook (done.map Prod.fst) ni.1).map
          Failure.fatal) [] (postStarts hooks) with
      | error err => exact ⟨fun ⟨_, h⟩ => (by cases h), fun ⟨_, h⟩ => (by cases h)⟩
      | ok out => exact ⟨fun _ => ⟨out, rfl⟩, fun _ => ⟨_, rfl⟩⟩
    have hrefuse : ∀ (done : List (String × ℕ)) (ni : String × ℕ),
        (generic.addPostStartHook (done.map Prod.fst) ni.1).map Failure.fatal = none ↔
          ni.1 ∉ done.map Prod.fst ∧ ni.1 ∉ own := fun done ni => by
      rw [Option.map_eq_none_iff, hadd]
    rw [hnew, handOver_names hrefuse, names_postStarts]
    refine and_congr_right fun _ => ⟨fun hall hook hhook hne => ?_, fun hall name hname => ?_⟩
    · exact (hall _ (List.mem_filter.2 ⟨List.mem_map.2 ⟨hook, hhook, rfl⟩, by simpa using hne⟩)).2
    · obtain ⟨hmem, hne⟩ := List.mem_filter.1 hname
      obtain ⟨hook, hhook, rfl⟩ := List.mem_map.1 hmem
      exact ⟨List.not_mem_nil, hall hook hhook (of_decide_eq_true hne)⟩
  · intro server h i hook hget
    rw [(new_ok h).2, (nodup_places hooks).count]
    -- a hook has a name iff it has a resource, and is handed over at its place
    have hmem : i ∈ (postStarts hooks).map Prod.snd ↔ postStartHookName hook ≠ "" := by
      constructor
      · intro hi
        obtain ⟨⟨name, j⟩, hni, rfl⟩ := List.mem_map.1 hi
        obtain ⟨hne, hook', hget', rfl⟩ := mem_postStarts.1 hni
        rw [hget] at hget'
        obtain rfl := Option.some.inj hget'
        exact hne
      · intro hne
        exact List.mem_map.2 ⟨(_, i), mem_postStarts.2 ⟨hne, hook, hget, rfl⟩, rfl⟩
    by_cases hname : postStartHookName hook = ""
    · rw [if_neg (fun hi => hmem.1 hi hname), if_pos (postStartHookName_eq_empty.1 hname)]
    · rw [if_pos (hmem.2 hname), if_neg (mt postStartHookName_eq_empty.2 hname)]

/-- The hook of the tests, at v1. -/
def testWebhookV1 : AdmissionHook Unit String where
  mutatingResource := some ⟨"admission.openshift.io", "v1", "testmutators"⟩
  admitMethod := some (.v1 fun _ => some ⟨"", "{}"⟩)
  validatingResource := some ⟨"admission.openshift.io", "v1", "testvalidators"⟩
  validateMethod := some (.v1 fun _ => some ⟨"", ""⟩)

/-- A generic server that refuses the names that are taken, also by itself. -/
def recommended : GenericServer Unit String where
  installAPIGroup _ _ := none
  addPostStartHook done name :=
    if name ∈ done ∨ name = "generic-apiserver-start-informers" then some "already registered"
    else none

/-- A generic server that looks an endpoint up in the groups it was handed, the first first. -/
def lookUp (infos : List (APIGroupInfo α β)) (gvr : GroupVersionResource) :
    Option (Storage α β) :=
  infos.findSome? fun info => info.storage? gvr

/-- The groups of a built server never disagree, so looking an endpoint up serves all of them. -/
theorem lookUp_serves {generic : GenericServer α β} {order : Table.RangeOrder}
    {hooks : List (AdmissionHook α β)} {server : AdmissionServer α β}
    (h : new generic order hooks = .ok server) :
    Serves server.apiGroups (lookUp server.apiGroups) := by
  have only : ∀ gvr storage, lookUp server.apiGroups gvr = some storage →
      ∃ info ∈ server.apiGroups, info.storage? gvr = some storage := by
    intro gvr storage hfind
    obtain ⟨info, hinfo, hstorage⟩ := List.exists_of_findSome?_eq_some hfind
    exact ⟨info, hinfo, hstorage⟩
  refine ⟨fun info hinfo gvr storage hstorage => ?_, only⟩
  have hlast := (installed_iff h gvr storage).1 ⟨info, hinfo, hstorage⟩
  cases hfind : lookUp server.apiGroups gvr with
  | none =>
    have hnone := List.findSome?_eq_none_iff.1 hfind info hinfo
    rw [hstorage] at hnone
    cases hnone
  | some first =>
    have hfirst := (installed_iff h gvr first).1 (only gvr first hfind)
    rw [hfirst] at hlast
    exact hlast

theorem new_test : ∃ server, new recommended .reversed [testWebhookV1] = .ok server := ⟨_, rfl⟩

theorem served_test : ∃ server, new recommended .reversed [testWebhookV1] = .ok server ∧
    lookUp server.apiGroups ⟨"admission.openshift.io", "v1", "testmutators"⟩ =
      some (.v1Rest fun _ => some ⟨"", "{}"⟩) := by
  obtain ⟨server, h⟩ := new_test
  exact ⟨server, h, (served h (lookUp_serves h) _).trans rfl⟩

theorem review_answered_test : ∃ server storage,
    new recommended .reversed [testWebhookV1] = .ok server ∧
      lookUp server.apiGroups ⟨"admission.openshift.io", "v1", "testmutators"⟩ = some storage ∧
      storage.create (.v1 ⟨some ⟨"u", ()⟩, none⟩) =
        some (.v1 ⟨some ⟨"u", ()⟩, some ⟨"u", "{}"⟩⟩) := by
  obtain ⟨server, h⟩ := new_test
  have hhosts : testWebhookV1.Hosts ⟨"admission.openshift.io", "v1", "testmutators"⟩
      (.v1 fun _ => some ⟨"", "{}"⟩) := .inl ⟨rfl, rfl⟩
  obtain ⟨storage, hstorage, hanswer, -⟩ :=
    review_answered h (lookUp_serves h) (by decide) List.mem_cons_self hhosts ⟨"u", ()⟩ none
  exact ⟨server, storage, h, hstorage, hanswer ⟨"", "{}"⟩ rfl⟩

theorem initialized_once_test : ∃ server, new recommended .reversed [testWebhookV1] = .ok server ∧
    (server.postStartHooks.map Prod.snd).count 0 = 1 := by
  obtain ⟨server, h⟩ := new_test
  have hadd : ∀ done name, recommended.addPostStartHook done name = none ↔
      name ∉ done ∧ name ∉ ["generic-apiserver-start-informers"] := by
    intro done name
    simp [recommended]
  have hcount := (initialized_once (fun _ _ => rfl) hadd).2 server h 0 testWebhookV1 rfl
  exact ⟨server, h, hcount⟩

end K8sDev.Apiserver

import K8sDev.Proof.Mutation
import K8sDev.Lts.Memo

/-!
# One node per pod name under concurrency

Requests that run `Load`, `Next` and `Store` as steps of their own, with reloads in between. A
request of `Mutate` for a pod that it is not for takes none of the steps.

* `race`: two requests for one name can miss together and go to different nodes.
* `one_node`: they cannot if no lookup misses while another request for the name is between
  its lookup and its store.
-/

namespace K8sDev.Webhook

/-- Where a request is. -/
inductive Progress (ρ : Type)
  | waiting
  | missed (pod : Pod ρ)
  | chosen (pod : Pod ρ) (nodeName : String)
  | stored (pod : Pod ρ) (nodeName : String)
  | failed

structure Server (ι ρ : Type) where
  svc : Service
  request : ι → Progress ρ := fun _ => .waiting

inductive Event (ι ρ : Type)
  /-- `cache.Load` -/
  | load (i : ι) (pod : Pod ρ)
  /-- `Next` -/
  | next (i : ι)
  /-- From the assignment to `cache.Store` -/
  | store (i : ι)
  | reload (listed : Except String (List Node))

variable {ι ρ : Type} [DecidableEq ι] {c : Codec ρ}

def Server.goto (s : Server ι ρ) (i : ι) (progress : Progress ρ) : Server ι ρ :=
  { s with request := Function.update s.request i progress }

def Server.step (c : Codec ρ) (s : Server ι ρ) : Event ι ρ → Option (Server ι ρ)
  | .load i pod =>
    match s.request i with
    | .waiting =>
      match s.svc.cache pod.name with
      | some nodeName => some (s.goto i (.chosen pod nodeName))
      | none => some (s.goto i (.missed pod))
    | _ => none
  | .next i =>
    match s.request i with
    | .missed pod =>
      match s.svc.nextNode with
      -- the panic on an empty list
      | none => some (s.goto i .failed)
      | some (node, svc) => some { s.goto i (.chosen pod node.name) with svc := svc }
    | _ => none
  | .store i =>
    match s.request i with
    | .chosen pod nodeName =>
      match pod.select nodeName with
      -- the panic on a nil map
      | none => some (s.goto i .failed)
      | some selected =>
        match c.marshal selected with
        | .error _ => some (s.goto i .failed)
        | .ok _ =>
          some { s.goto i (.stored pod nodeName) with svc := s.svc.store pod.name nodeName }
    | _ => none
  | .reload listed => some { s with svc := s.svc.reload listed }

/-- Requests and reloads in any order, from a new service. -/
def server (c : Codec ρ) (ι : Type) [DecidableEq ι] (items : List Node) :
    Lts (Server ι ρ) (Event ι ρ) :=
  Lts.ofFun { svc := Service.reload { nodeList := [] } (.ok items) } (Server.step c)

/-- The request has its node. -/
def Progress.Assigned (name nodeName : String) : Progress ρ → Prop
  | .chosen pod n | .stored pod n => pod.name = name ∧ n = nodeName
  | _ => False

/-- The request is between its lookup and its store. -/
def Progress.Pending (name : String) : Progress ρ → Prop
  | .missed pod | .chosen pod _ => pod.name = name
  | _ => False

instance (name : String) : DecidablePred fun progress : Progress ρ => progress.Pending name
  | .missed pod => inferInstanceAs (Decidable (pod.name = name))
  | .chosen pod _ => inferInstanceAs (Decidable (pod.name = name))
  | .waiting | .stored _ _ | .failed => inferInstanceAs (Decidable False)

/-- No lookup misses while another request for the name is between its lookup and its store. -/
def Apart (s : Server ι ρ) : Event ι ρ → Server ι ρ → Prop
  | .load _ pod, _ => s.svc.cache pod.name = none → ∀ j, ¬ (s.request j).Pending pod.name
  | _, _ => True

/-! ## The cache as a table filled on demand -/

/-- A request as a client of the table. -/
def Progress.pc : Progress ρ → Memo.Pc String String
  | .waiting => .idle
  | .missed pod => .missed pod.name
  | .chosen pod nodeName => .holds pod.name nodeName
  | .stored pod nodeName => .stored pod.name nodeName
  | .failed => .failed

def Server.memo (s : Server ι ρ) : Memo.State ι String String where
  table := s.svc.cache
  pc i := (s.request i).pc

theorem memo_goto (s : Server ι ρ) (i : ι) (progress : Progress ρ) :
    (s.goto i progress).memo = s.memo.move i progress.pc := by
  unfold Server.memo Memo.State.move Server.goto
  congr 1
  funext j
  by_cases h : j = i
  · rw [h]; simp
  · simp [h]

theorem pending_pc {progress : Progress ρ} {name : String} :
    progress.pc.Pending name ↔ progress.Pending name := by
  cases progress <;> simp [Progress.pc, Memo.Pc.Pending, Progress.Pending]

theorem uses_pc {progress : Progress ρ} {name nodeName : String}
    (h : progress.Assigned name nodeName) : progress.pc.Uses name nodeName := by
  cases progress with
  | chosen pod n =>
    obtain ⟨rfl, rfl⟩ := h
    exact .inl rfl
  | stored pod n =>
    obtain ⟨rfl, rfl⟩ := h
    exact .inr rfl
  | waiting => cases h
  | missed pod => cases h
  | failed => cases h

/-- Every step of the server is a step of the table, a reload none. -/
theorem step_memo {s t : Server ι ρ} {e : Event ι ρ} (hst : s.step c e = some t)
    (hapart : Apart s e t) :
    t.memo = s.memo ∨ ∃ a, ((Memo.memo ι String String).restrict Memo.Alone).step s.memo a t.memo := by
  cases e with
  | load i pod =>
    simp only [Server.step] at hst
    split at hst
    · rename_i hwaiting
      have hidle : s.memo.pc i = .idle := by simp only [Server.memo, hwaiting, Progress.pc]
      -- a miss needs that nobody else is between a lookup and a store of the name
      have halone : Memo.Alone s.memo (.load i pod.name) t.memo := fun hnone j hj =>
        hapart hnone j (pending_pc.1 hj)
      refine .inr ⟨.load i pod.name, ⟨hidle, ?_⟩, halone⟩
      split at hst
      · rename_i nodeName hhit
        obtain rfl := Option.some.inj hst
        exact .inr ⟨nodeName, hhit, memo_goto _ _ _⟩
      · rename_i hmiss
        obtain rfl := Option.some.inj hst
        exact .inl ⟨hmiss, memo_goto _ _ _⟩
    · cases hst
  | next i =>
    simp only [Server.step] at hst
    split at hst
    · rename_i pod hmissed
      have hpc : s.memo.pc i = .missed pod.name := by simp only [Server.memo, hmissed, Progress.pc]
      split at hst
      · -- no node: the request fails with the panic
        obtain rfl := Option.some.inj hst
        exact .inr ⟨.fail i, ⟨⟨pod.name, .inl hpc⟩, memo_goto _ _ _⟩, trivial⟩
      · rename_i node svc hnext
        obtain rfl := Option.some.inj hst
        refine .inr ⟨.draw i node.name, ⟨pod.name, hpc, ?_⟩, trivial⟩
        rw [show Memo.Pc.holds pod.name node.name = (Progress.chosen pod node.name).pc from rfl,
          ← memo_goto]
        obtain ⟨-, rfl⟩ := nextNode_eq_some hnext
        rfl
    · cases hst
  | store i =>
    simp only [Server.step] at hst
    split at hst
    · rename_i pod nodeName hchosen
      have hpc : s.memo.pc i = .holds pod.name nodeName := by
        simp only [Server.memo, hchosen, Progress.pc]
      have hfail : ((Memo.memo ι String String).restrict Memo.Alone).step s.memo (.fail i)
          (s.goto i .failed).memo :=
        ⟨⟨⟨pod.name, .inr ⟨nodeName, hpc⟩⟩, memo_goto _ _ _⟩, trivial⟩
      -- the write of the node selector and the encoding may fail before the store
      split at hst
      · obtain rfl := Option.some.inj hst
        exact .inr ⟨_, hfail⟩
      · split at hst
        · obtain rfl := Option.some.inj hst
          exact .inr ⟨_, hfail⟩
        · obtain rfl := Option.some.inj hst
          refine .inr ⟨.store i, ⟨pod.name, nodeName, hpc, ?_⟩, trivial⟩
          rw [show Memo.Pc.stored pod.name nodeName = (Progress.stored pod nodeName).pc from rfl,
            ← memo_goto]
          rfl
    · cases hst
  | reload listed =>
    obtain rfl := Option.some.inj hst
    left
    cases listed <;> rfl

/-- **One node per pod name.** In every run in which no lookup misses while another request for
the name is between its lookup and its store, requests for one name have one node, and
once it is stored it is the one in the cache. -/
theorem one_node {items : List Node} {s : Server ι ρ}
    (h : ((server c ι items).restrict Apart).Reachable s) {i j : ι}
    {name nodeName nodeName' : String} (hi : (s.request i).Assigned name nodeName)
    (hj : (s.request j).Assigned name nodeName') :
    nodeName = nodeName' ∧
      ((∃ pod, s.request i = .stored pod nodeName) → s.svc.cache name = some nodeName) := by
  have hsim : ∃ m, ((Memo.memo ι String String).restrict Memo.Alone).Reachable m ∧ m = s.memo := by
    refine Lts.Reachable.simulate (R := fun s m => m = Server.memo s) ?_ ?_ h
    · rintro s rfl
      exact ⟨_, ⟨fun _ => rfl, fun _ => rfl⟩, rfl⟩
    · rintro s m e t - rfl ⟨hst, hapart⟩
      rcases step_memo hst hapart with heq | ⟨a, ha⟩
      · exact ⟨[], _, .nil _, heq.symm⟩
      · exact ⟨_, _, .single ha, rfl⟩
  obtain ⟨m, hm, rfl⟩ := hsim
  obtain ⟨heq, hstored⟩ := Memo.one_value hm (uses_pc hi) (uses_pc hj)
  refine ⟨heq, ?_⟩
  rintro ⟨pod, hpod⟩
  rw [hpod] at hi
  refine hstored ?_
  simp only [Server.memo, hpod, Progress.pc, hi.1]

/-! ## Two requests for one pod -/

/-- A pod to be created, as two requests decode it. -/
def importerPod : Pod Unit := ⟨"importer-vm-1", some ∅, ()⟩

/-- Both miss before either stores. -/
def racing : List (Event Bool Unit) :=
  [.load true importerPod, .load false importerPod, .next true, .next false, .store true, .store false]

/-- The two are sent to different nodes. -/
theorem race : ∃ s, (server hostCodec Bool [⟨"a"⟩, ⟨"b"⟩]).Reachable s ∧ s.svc.nodeList ≠ [] ∧
    s.request true = .stored importerPod "b" ∧ s.request false = .stored importerPod "a" := by
  refine ⟨(racing.foldlM (Server.step hostCodec)
    { svc := Service.reload { nodeList := [] } (.ok [⟨"a"⟩, ⟨"b"⟩]) }).get rfl, ?_, by decide, rfl, rfl⟩
  exact ⟨_, racing, rfl, Lts.run_of_foldlM _ (Option.some_get _).symm⟩

/-- One after the other, with a reload in between. -/
def taking : List (Event Bool Unit) :=
  [.load true importerPod, .next true, .store true, .reload (.ok [⟨"c"⟩]),
    .load false importerPod, .store false]

instance [Fintype ι] (s t : Server ι ρ) : ∀ e : Event ι ρ, Decidable (Apart s e t)
  | .load _ pod =>
    inferInstanceAs (Decidable (s.svc.cache pod.name = none → ∀ j, ¬ (s.request j).Pending pod.name))
  | .next _ | .store _ | .reload _ => inferInstanceAs (Decidable True)

def taken : Server Bool Unit :=
  (taking.foldlM (Lts.guard (Server.step hostCodec) Apart)
    { svc := Service.reload { nodeList := [] } (.ok [⟨"a"⟩, ⟨"b"⟩]) }).get rfl

theorem one_node_taken : taken.request false = .stored importerPod "b" ∧
    taken.svc.cache "importer-vm-1" = some "b" := by
  have hreach : ((server hostCodec Bool [⟨"a"⟩, ⟨"b"⟩]).restrict Apart).Reachable taken :=
    Lts.reachable_of_exec taking rfl
  have htrue : taken.request true = .stored importerPod "b" := rfl
  have hfalse : taken.request false = .stored importerPod "b" := rfl
  have hi : (taken.request true).Assigned "importer-vm-1" "b" := by
    rw [htrue]
    exact ⟨rfl, rfl⟩
  have hj : (taken.request false).Assigned "importer-vm-1" "b" := by
    rw [hfalse]
    exact ⟨rfl, rfl⟩
  exact ⟨hfalse, (one_node hreach hi hj).2 ⟨_, htrue⟩⟩

end K8sDev.Webhook

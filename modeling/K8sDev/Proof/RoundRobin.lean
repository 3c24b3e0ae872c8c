import K8sDev.Spec.Webhook
import K8sDev.Lts.Run
import K8sDev.Cyclic.Window
import Mathlib.Data.String.Basic

/-!
# Round-robin balance across reloads

Calls of `Next` between reloads. As `reload` sorts, every listing of the same nodes installs the
same list, and `Next` goes on reading it in a circle (`run_reads`).

* `next_balanced`: in every window of consecutive calls each node is returned equally often,
  up to one, and exactly once in a window of as many calls as there are nodes.
-/

namespace K8sDev.Webhook

/-- One call of `Next`, with the node it returns, or one `reload`. -/
inductive Turn
  | next (node : Node)
  | reload (listed : Except String (List Node))

/-- The service between calls of `Next` and reloads. -/
def turns : Lts Service Turn where
  init _ := True
  step p turn q :=
    match turn with
    | .next node => p.nextNode = some (node, q)
    | .reload listed => q = p.reload listed

/-- The nodes returned, in order. -/
def returned : List Turn → List Node
  | [] => []
  | .next node :: turns => node :: returned turns
  | .reload _ :: turns => returned turns

theorem returned_append (as bs : List Turn) : returned (as ++ bs) = returned as ++ returned bs := by
  induction as with
  | nil => rfl
  | cons a as ih => cases a <;> simp [returned, ih]

/-! ## Sorting forgets the order of the listing -/

instance : Std.Total Node.le := ⟨fun a b => le_total a.name b.name⟩

instance : IsTrans Node Node.le := ⟨fun a b c => le_trans (a := a.name) (b := b.name) (c := c.name)⟩

instance : Std.Antisymm Node.le where
  antisymm := fun ⟨a⟩ ⟨b⟩ h h' => by
    have : a = b := le_antisymm h h'
    rw [this]

theorem insertionSort_eq {items nodes : List Node} (h : items.Perm nodes) :
    items.insertionSort Node.le = nodes.insertionSort Node.le := by
  refine List.Perm.eq_of_pairwise' (r := Node.le) ?_ ?_ ?_
  · exact List.pairwise_insertionSort _ _
  · exact List.pairwise_insertionSort _ _
  · exact (List.perm_insertionSort _ _).trans (h.trans (List.perm_insertionSort _ _).symm)

/-- A reload that lists the same nodes changes nothing. -/
theorem reload_same {p : Service} {listed : Except String (List Node)} {nodes : List Node}
    (hp : p.nodeList = nodes.insertionSort Node.le)
    (h : ∀ items, listed = .ok items → items.Perm nodes) : p.reload listed = p := by
  cases listed with
  | error e => rfl
  | ok items =>
    simp only [Service.reload]
    rw [insertionSort_eq (h items rfl), ← hp]

/-! ## What a run returns -/

section Balance

variable {nodes : List Node}

/-- Every reload of the run that succeeds lists these nodes. -/
def Lists (nodes : List Node) (as : List Turn) : Prop :=
  ∀ items, .reload (.ok items) ∈ as → items.Perm nodes

/-- **The nodes returned are read off the sorted list in a circle.** -/
theorem run_reads {p q : Service} {as : List Turn} (h : turns.Run p as q)
    (hp : p.nodeList = nodes.insertionSort Node.le) (hlists : Lists nodes as) :
    q.nodeList = nodes.insertionSort Node.le ∧
      q.next ≡ p.next + (returned as).length [MOD nodes.length] ∧
      (returned as).map some =
        Cyclic.reads (nodes.insertionSort Node.le) (p.next + 1) (returned as).length := by
  induction h with
  | nil => exact ⟨hp, Nat.ModEq.rfl, rfl⟩
  | @snoc q r as a _ hst ih =>
    obtain ⟨hq, hmod, hreads⟩ := ih fun items hitems => hlists items (List.mem_append_left _ hitems)
    have hlen : (nodes.insertionSort Node.le).length = nodes.length := List.length_insertionSort _ _
    rw [returned_append]
    cases a with
    | reload listed =>
      have hr : r = q := by
        rw [show r = q.reload listed from hst]
        refine reload_same hq fun items hitems => hlists items ?_
        rw [hitems]
        exact List.mem_append_right _ List.mem_cons_self
      rw [hr, show returned [Turn.reload listed] = [] from rfl, List.append_nil]
      exact ⟨hq, hmod, hreads⟩
    | next node =>
      simp only [turns, Service.nextNode, Option.map_eq_some_iff, Prod.mk.injEq] at hst
      obtain ⟨node', hget, rfl, rfl⟩ := hst
      rw [hq, hlen] at hget
      have hlast : returned [Turn.next node'] = [node'] := rfl
      have hnext : q.next + 1 ≡ p.next + 1 + (returned as).length [MOD nodes.length] := by
        have := hmod.add_right 1
        rwa [Nat.add_right_comm] at this
      refine ⟨hq, ?_, ?_⟩
      · rw [hlast, List.length_append, List.length_singleton, ← Nat.add_assoc, hq, hlen]
        exact (Nat.mod_modEq _ _).trans (hmod.add_right 1)
      · rw [hlast, List.length_append, List.length_singleton, Cyclic.reads_succ, List.map_append,
          hreads, hlen, ← hnext, hget, List.map_singleton]

/-- **Round-robin balance across reloads.** The service starts with a listing of the nodes, in
any order, and any counter. -/
theorem next_balanced {p q : Service} {items : List Node} {as : List Turn}
    (hne : nodes ≠ []) (hnames : (nodes.map Node.name).Nodup) (hitems : items.Perm nodes)
    (h : turns.Run (p.reload (.ok items)) as q) (hlists : Lists nodes as) :
    q.nextNode.isSome ∧
    ∀ w, w <:+: returned as →
      (∀ node ∈ w, node ∈ nodes) ∧
      ∀ node ∈ nodes,
        (w.count node = w.length / nodes.length ∨ w.count node = w.length ⌈/⌉ nodes.length) ∧
        (w.length = nodes.length → w.count node = 1) := by
  obtain ⟨hq, -, hreads⟩ := run_reads h (insertionSort_eq hitems) hlists
  have hlen : (nodes.insertionSort Node.le).length = nodes.length := List.length_insertionSort _ _
  have hnd : (nodes.insertionSort Node.le).Nodup :=
    (List.perm_insertionSort _ _).nodup_iff.2 (List.Nodup.of_map _ hnames)
  refine ⟨?_, fun w hw => ?_⟩
  · rw [nextNode_isSome, hq, ← List.length_pos_iff, hlen]
    exact List.length_pos_iff.2 hne
  · obtain ⟨c, hc⟩ := Cyclic.infix_reads (hreads ▸ hw.map some)
    rw [List.length_map] at hc
    have hcount : ∀ node, w.count node =
        (Cyclic.reads (nodes.insertionSort Node.le) c w.length).count (some node) := fun node => by
      rw [← hc, List.count_map_of_injective _ _ (Option.some_injective _)]
    refine ⟨fun node hnode => ?_, fun node hnode => ?_⟩
    · have hmem := hc ▸ List.mem_map_of_mem (f := some) hnode
      simp only [Cyclic.reads, List.mem_map] at hmem
      obtain ⟨i, -, hi⟩ := hmem
      exact (List.mem_insertionSort _).1 (List.mem_of_getElem? hi)
    · have hnode' : node ∈ nodes.insertionSort Node.le := (List.mem_insertionSort _).2 hnode
      rw [hcount, ← hlen]
      refine ⟨Cyclic.count_reads_eq hnd hnode' c w.length, fun hw => ?_⟩
      rw [hw]
      exact Cyclic.count_reads_round hnd hnode' c

end Balance

/-- Three nodes and a counter. -/
def counting (next : ℕ) : Service := { nodeList := [⟨"a"⟩, ⟨"b"⟩, ⟨"c"⟩], next := next }

/-- Two calls, a reload that lists the nodes in another order, and one more call. -/
def reordered : List Turn :=
  [.next ⟨"a"⟩, .next ⟨"b"⟩, .reload (.ok [⟨"c"⟩, ⟨"b"⟩, ⟨"a"⟩]), .next ⟨"c"⟩]

theorem reordered_run :
    turns.Run (({ nodeList := [], next := 5 } : Service).reload (.ok [⟨"b"⟩, ⟨"a"⟩, ⟨"c"⟩])) reordered
      (counting 2) := by
  have h1 : turns.step (counting 5) (.next ⟨"a"⟩) (counting 0) := rfl
  have h2 : turns.step (counting 0) (.next ⟨"b"⟩) (counting 1) := rfl
  have h3 : turns.step (counting 1) (.reload (.ok [⟨"c"⟩, ⟨"b"⟩, ⟨"a"⟩])) (counting 1) := rfl
  have h4 : turns.step (counting 1) (.next ⟨"c"⟩) (counting 2) := rfl
  exact ((((Lts.Run.nil _).snoc h1).snoc h2).snoc h3).snoc h4

theorem next_balanced_reordered : (returned reordered).count ⟨"c"⟩ = 1 := by
  have hlists : Lists [⟨"b"⟩, ⟨"a"⟩, ⟨"c"⟩] reordered := by
    intro items hitems
    simp only [reordered, List.mem_cons, Turn.reload.injEq, Except.ok.injEq, reduceCtorEq,
      List.not_mem_nil, or_false, false_or] at hitems
    rw [hitems]
    decide
  have h := (next_balanced (by decide) (by decide) (.refl _) reordered_run hlists).2
    (returned reordered) List.infix_rfl
  exact (h.2 ⟨"c"⟩ (by decide)).2 rfl
end K8sDev.Webhook

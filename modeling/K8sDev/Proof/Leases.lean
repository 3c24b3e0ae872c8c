import K8sDev.Proof.Atomic
import Mathlib.Data.List.Nodup
import Mathlib.Data.List.Pairwise

/-!
# What holds of every queue

Invariants of the atomic steps, for arbitrary clients.

* `numbered`: tasks are numbered 1, 2, ... in list order.
* `Task.OK`: a free task was never leased, or its last lease is over.
* `Task.Chain`: the leases granted of a task have attempts 1, 2, ..., each granted after the
  deadline of all the earlier ones; the last of them is what the task records.
* `Ghost.OK.apart`: of two leases of one task, one was granted after the other's deadline.
* `served_queue`: they hold of every state of the broker, with the claims its log shows.
-/

namespace K8sDev.Queue

/-! ## One task changes -/

theorem Broker.Numbered.touch {pre post : List Task} {t u : Task} {es es' : List Event}
    (h : (Broker.mk (pre ++ t :: post) es).Numbered) (hid : u.id = t.id) :
    (Broker.mk (pre ++ u :: post) es').Numbered := by
  simpa [Broker.Numbered, hid] using h

/-- After one task was replaced, every other task is an old one with another number. -/
theorem Broker.Numbered.mem_touch {pre post : List Task} {t u x : Task} {es : List Event}
    (h : (Broker.mk (pre ++ t :: post) es).Numbered) (hx : x ∈ pre ++ u :: post) :
    x = u ∨ x ∈ pre ++ t :: post ∧ x.id ≠ t.id := by
  have hnd : ((pre ++ t :: post).map Task.id).Nodup := by
    have : (pre ++ t :: post).map Task.id = List.range' 1 (pre ++ t :: post).length := h
    rw [this]; exact List.nodup_range'
  simp only [List.map_append, List.map_cons, List.nodup_append, List.nodup_cons, List.mem_cons,
    List.mem_map] at hnd
  obtain ⟨-, ⟨hpost, -⟩, hpre⟩ := hnd
  simp only [List.mem_append, List.mem_cons] at hx ⊢
  rcases hx with hx | rfl | hx
  · exact .inr ⟨.inl hx, hpre _ ⟨x, hx, rfl⟩ _ (.inl rfl)⟩
  · exact .inl rfl
  · exact .inr ⟨.inr (.inr hx), fun hid => hpost ⟨x, hx, hid⟩⟩

/-- **Where a task after a step comes from**: it was there, it was just added, or it is the
one task the step is about. -/
theorem Atomic.mem {now : ℕ} {s s' : Broker} {a : Act} (h : Atomic now s a s') {x : Task}
    (hx : x ∈ s'.tasks) :
    x ∈ s.tasks ∨ (∃ ms, a = .add ms ∧ x = { id := s.tasks.length + 1, durationMS := ms }) ∨
    ∃ t ∈ s.tasks, (a = .expire t ∧ t.expired now = true ∧ x = { t with worker := "" }) ∨
      (∃ w, a = .claim t w ∧ t.free = true ∧ w ≠ "" ∧ x = t.grant now w) ∨
      (a = .ack t ∧ t.done = false ∧ x = { t with done := true }) := by
  have old : ∀ {pre post : List Task} {t u : Task}, x ∈ pre ++ u :: post →
      x ∈ pre ++ t :: post ∨ x = u := by
    intro pre post t u hx
    simp only [List.mem_append, List.mem_cons] at hx ⊢
    tauto
  cases h with
  | wait => exact .inl hx
  | add _ ms =>
    rcases List.mem_append.1 hx with hx | hx
    · exact .inl hx
    · exact .inr (.inl ⟨ms, rfl, List.mem_singleton.1 hx⟩)
  | @expire pre post t es ht =>
    rcases old (t := t) hx with hx | hx
    · exact .inl hx
    · exact .inr (.inr ⟨t, by simp, .inl ⟨rfl, ht, hx⟩⟩)
  | @claim pre post t es w hreap hpre ht hw =>
    rcases old (t := t) hx with hx | hx
    · exact .inl hx
    · exact .inr (.inr ⟨t, by simp, .inr (.inl ⟨w, rfl, ht, hw, hx⟩)⟩)
  | @ack pre post t es hreap ht =>
    rcases old (t := t) hx with hx | hx
    · exact .inl hx
    · exact .inr (.inr ⟨t, by simp, .inr (.inr ⟨rfl, ht, hx⟩)⟩)
  | reject => exact .inl hx

theorem atomic_numbered {now : ℕ} {s s' : Broker} {a : Act} (h : Atomic now s a s')
    (hs : s.Numbered) : s'.Numbered := by
  cases h with
  | wait => exact hs
  | add ms =>
    show (s.tasks ++ [_]).map Task.id = List.range' 1 (s.tasks ++ [_]).length
    have hs' : s.tasks.map Task.id = List.range' 1 s.tasks.length := hs
    rw [List.map_append, hs', List.length_append, List.length_singleton, List.range'_concat]
    simp [Nat.add_comm]
  | expire => exact hs.touch rfl
  | claim => exact hs.touch rfl
  | ack => exact hs.touch rfl
  | reject => exact hs

/-- A task stays in the queue under its number, and a done task never changes again. -/
def Broker.Grows (s s' : Broker) : Prop :=
  ∀ t ∈ s.tasks, ∃ u ∈ s'.tasks, u.id = t.id ∧ u.durationMS = t.durationMS ∧
    t.attempts ≤ u.attempts ∧ (t.done = true → u = t)

theorem Broker.Grows.refl (s : Broker) : s.Grows s :=
  fun t ht => ⟨t, ht, rfl, rfl, le_rfl, fun _ => rfl⟩

theorem Broker.Grows.trans {s s' s'' : Broker} (h : s.Grows s') (h' : s'.Grows s'') :
    s.Grows s'' := by
  intro t ht
  obtain ⟨u, hu, h1, h2, h3, h4⟩ := h t ht
  obtain ⟨v, hv, h5, h6, h7, h8⟩ := h' u hu
  refine ⟨v, hv, h5.trans h1, h6.trans h2, h3.trans h7, fun hd => ?_⟩
  obtain rfl := h4 hd
  exact h8 hd

theorem Atomic.grows {now : ℕ} {s s' : Broker} {a : Act} (h : Atomic now s a s') : s.Grows s' := by
  have touch : ∀ {pre post : List Task} {t u : Task} {es es' : List Event}, u.id = t.id →
      u.durationMS = t.durationMS → t.attempts ≤ u.attempts → t.done = false →
      (Broker.mk (pre ++ t :: post) es).Grows ⟨pre ++ u :: post, es'⟩ := by
    intro pre post t u es es' h1 h2 h3 hd x hx
    simp only [List.mem_append, List.mem_cons] at hx
    rcases hx with hx | rfl | hx
    · exact ⟨x, by simp [hx], rfl, rfl, le_rfl, fun _ => rfl⟩
    · exact ⟨u, by simp, h1, h2, h3, fun h => by rw [hd] at h; cases h⟩
    · exact ⟨x, by simp [hx], rfl, rfl, le_rfl, fun _ => rfl⟩
  cases h with
  | wait => exact .refl _
  | add =>
    exact fun t ht => ⟨t, List.mem_append_left _ ht, rfl, rfl, le_rfl, fun _ => rfl⟩
  | expire ht => exact touch rfl rfl le_rfl (expired_iff.1 ht).1
  | claim _ _ ht => exact touch rfl rfl (Nat.le_succ _) (free_iff.1 ht).1
  | ack _ ht => exact touch rfl rfl le_rfl ht
  | reject => exact .refl _

/-- Nothing is taken out of the log. -/
theorem Atomic.events_extend {now : ℕ} {s s' : Broker} {a : Act} (h : Atomic now s a s') :
    s.events <+: s'.events := by
  cases h with
  | wait => exact List.prefix_rfl
  | add | expire | claim | ack | reject => exact List.prefix_append _ _

theorem numbered {g : Ghost} (h : queueLts.Reachable g) : g.broker.Numbered := by
  refine Lts.Reachable.invariant (P := fun g : Ghost => g.broker.Numbered) ?_ ?_ h
  · rintro _ rfl; rfl
  · rintro g a g' - ih ⟨-, ha, -⟩; exact atomic_numbered ha ih

/-! ## From requests to atomic steps -/

theorem serve_clock (now : ℕ) (c : Call) (h : Served) : (serve now c h).clock = now := by
  simp [serve, Served.clock]

theorem grants_serve (now : ℕ) (c : Call) (h : Served) :
    grants (serve now c h).log =
      grants h.log ++ (granted c (handle now c h.broker).1).toList := by
  simp only [grants, serve, List.filterMap_append]
  cases hg : granted c (handle now c h.broker).1 <;> simp [hg]

/-- Calls on a nondecreasing clock make a run. -/
theorem reachable_serveAll {P : Call → Prop} : ∀ (calls : List (ℕ × Call)) (h : Served),
    (brokerLts.restrict fun _ a _ => P a.2).Reachable h → (∀ a ∈ calls, P a.2) →
    (∀ a ∈ calls, h.clock ≤ a.1) → calls.Pairwise (fun a b => a.1 ≤ b.1) →
    (brokerLts.restrict fun _ a _ => P a.2).Reachable (serveAll calls h) := by
  intro calls
  induction calls with
  | nil => intro h hr _ _ _; exact hr
  | cons a calls ih =>
    intro h hr hP hle hp
    rw [List.pairwise_cons] at hp
    refine ih _ (hr.step ⟨⟨hle a List.mem_cons_self, rfl⟩, hP a List.mem_cons_self⟩)
      (fun b hb => hP b (List.mem_cons_of_mem _ hb)) ?_ hp.2
    intro b hb
    rw [serve_clock]
    exact hp.1 b hb

/-- Any calls on a nondecreasing clock, from the empty queue. -/
theorem reachable_calls {calls : List (ℕ × Call)} (hp : calls.Pairwise fun a b => a.1 ≤ b.1) :
    brokerLts.Reachable (serveAll calls {}) :=
  (reachable_serveAll (P := fun _ => True) calls {} (.of_init rfl) (fun _ _ => trivial)
    (fun _ _ => Nat.zero_le _) hp).of_restrict

theorem handle_grows {s : Broker} (hs : s.Numbered) (now : ℕ) (c : Call) :
    s.Grows (handle now c s).2 := by
  obtain ⟨as, hrun, -⟩ := handle_run (g := ⟨now, [], s⟩) hs le_rfl c
  refine hrun.relation (R := fun g g' : Ghost => g.broker.Grows g'.broker) (fun _ => .refl _)
    (fun _ _ _ h h' => h.trans h') ?_
  exact fun _ _ _ hst => hst.2.1.grows

/-- What a served broker is as a queue. -/
def Served.ghost (h : Served) : Ghost := ⟨h.clock, grants h.log, h.broker⟩

theorem ghost_serve (now : ℕ) (c : Call) (h : Served) :
    (serve now c h).ghost = ⟨now, h.ghost.granted ++
      (granted c (handle now c h.ghost.broker).1).toList, (handle now c h.ghost.broker).2⟩ := by
  simp only [Served.ghost, serve_clock, grants_serve]
  rfl

/-- **Every run of the broker is a run of the queue.** -/
theorem served_queue {h : Served} (hr : brokerLts.Reachable h) : queueLts.Reachable h.ghost := by
  refine Lts.Reachable.invariant (P := fun h : Served => queueLts.Reachable h.ghost) ?_ ?_ hr
  · rintro _ rfl; exact .of_init rfl
  · rintro h ⟨now, c⟩ h' - ih ⟨hclk, rfl⟩
    obtain ⟨as, hrun, -⟩ := handle_run (numbered ih) hclk c
    rw [ghost_serve]
    exact ih.run hrun

/-- No task leaves the queue along a run. -/
theorem run_grows {h h' : Served} {as : List (ℕ × Call)} (hr : brokerLts.Reachable h)
    (hrun : brokerLts.Run h as h') : h.broker.Grows h'.broker := by
  induction hrun with
  | nil => exact .refl _
  | snoc hrun hst ih =>
    obtain ⟨-, rfl⟩ := hst
    exact ih.trans (handle_grows (numbered (served_queue (hr.run hrun))) _ _)

/-- The log only grows along a run. -/
theorem run_events {h h' : Served} {as : List (ℕ × Call)} (hr : brokerLts.Reachable h)
    (hrun : brokerLts.Run h as h') : h.broker.events <+: h'.broker.events := by
  induction hrun with
  | nil => exact List.prefix_rfl
  | @snoc s _ as a hrun hst ih =>
    obtain ⟨hclk, rfl⟩ := hst
    have hnum := numbered (served_queue (hr.run hrun))
    obtain ⟨bs, hatoms, -⟩ := handle_run (g := s.ghost) hnum hclk a.2
    refine ih.trans (hatoms.relation (R := fun g g' : Ghost => g.broker.events <+: g'.broker.events)
      (fun _ => List.prefix_rfl) (fun _ _ _ hl hr => hl.trans hr) ?_)
    exact fun _ _ _ hst => hst.2.1.events_extend

/-- A run of atomic steps by somebody is a run of `namedLts`. -/
theorem Ghost.run_named {g g' : Ghost} {as : List (ℕ × Act)} (h : queueLts.Run g as g')
    (hn : ∀ a ∈ as, a.2.Named) : namedLts.Run g as g' := by
  induction h with
  | nil => exact .nil _
  | snoc _ hst ih =>
    exact (ih fun a ha => hn a (List.mem_append_left _ ha)).snoc ⟨hst, hn _ (by simp)⟩

/-- The runs of the broker all of whose calls are safe. -/
def safeLts : Lts Served (ℕ × Call) :=
  brokerLts.restrict fun h a _ => a.2.Safe a.1 h.broker

/-- The runs of the broker whose acks carry a non-empty worker. -/
def namedBrokerLts : Lts Served (ℕ × Call) := brokerLts.restrict fun _ a _ => a.2.Named

theorem safe_of_named {h : Served} (hr : namedBrokerLts.Reachable h) : safeLts.Reachable h :=
  hr.weaken fun _ _ _ _ _ hn => hn.safe _ _

/-- Calls that name their workers, from the empty queue. -/
theorem reachable_named {calls : List (ℕ × Call)} (hn : ∀ a ∈ calls, a.2.Named)
    (hp : calls.Pairwise fun a b => a.1 ≤ b.1) : namedBrokerLts.Reachable (serveAll calls {}) :=
  reachable_serveAll calls {} (.of_init rfl) hn (fun _ _ => Nat.zero_le _) hp

/-- **A run of safe calls** is a run in which tasks are only completed by somebody. -/
theorem safe_queue {h : Served} (hr : safeLts.Reachable h) : namedLts.Reachable h.ghost := by
  refine Lts.Reachable.invariant (P := fun h : Served => namedLts.Reachable h.ghost) ?_ ?_ hr
  · rintro _ rfl; exact .of_init rfl
  · rintro h ⟨now, c⟩ h' - ih ⟨⟨hclk, rfl⟩, hc⟩
    obtain ⟨as, hrun, hn⟩ := handle_run (numbered ih.of_restrict) hclk c
    rw [ghost_serve]
    exact ih.run (Ghost.run_named hrun (hn hc))

/-! ## The lease a task records -/

/-- A task agrees with the clock: it has no holder before its first lease, its lease was
granted in the past, and once it is free again that lease is over. -/
structure Task.OK (clock : ℕ) (t : Task) : Prop where
  fresh : t.attempts = 0 → t.worker = "" ∧ t.deadline = 0
  past : t.deadline ≤ clock + t.lease
  lapsed : t.worker = "" → t.done = false → 0 < t.attempts → t.deadline < clock

/-- A task agrees with the leases `gs` granted of it. -/
structure Task.Chain (gs : List Task) (t : Task) : Prop where
  attempts : gs.map Task.attempts = List.range' 1 t.attempts
  same : ∀ x ∈ gs, x.id = t.id ∧ x.durationMS = t.durationMS ∧ x.worker ≠ "" ∧ x.done = false
  later : gs.Pairwise fun x y => x.deadline + y.lease < y.deadline
  le : ∀ x ∈ gs, x.deadline ≤ t.deadline
  last : ∀ x, gs.getLast? = some x →
    x.deadline = t.deadline ∧ (t.worker = x.worker ∨ t.worker = "")

/-- The leases granted of one task. -/
def Ghost.leases (g : Ghost) (id : ℕ) : List Task := g.granted.filter fun x => x.id == id

/-- A call adds the lease it is granted. -/
theorem leases_serve (now : ℕ) (c : Call) (h : Served) (id : ℕ) :
    (serve now c h).ghost.leases id = h.ghost.leases id ++
      (granted c (handle now c h.broker).1).toList.filter fun x => x.id == id := by
  simp only [Ghost.leases, Served.ghost, grants_serve, List.filter_append]

theorem Task.OK.mono {clock now : ℕ} {t : Task} (h : t.OK clock) (hle : clock ≤ now) :
    t.OK now where
  fresh := h.fresh
  past := h.past.trans (Nat.add_le_add_right hle _)
  lapsed h1 h2 h3 := (h.lapsed h1 h2 h3).trans_le hle

/-- A granted task is held. -/
theorem Task.OK.grant {now : ℕ} {t : Task} {w : String} (hw : w ≠ "") : (t.grant now w).OK now where
  fresh h := by simp at h
  past := by simp
  lapsed h := absurd h hw

/-- The chain only looks at what completing and expiring leave alone. -/
theorem Task.Chain.congr {gs : List Task} {t u : Task} (h : t.Chain gs) (hid : u.id = t.id)
    (hdur : u.durationMS = t.durationMS) (hatt : u.attempts = t.attempts)
    (hdl : u.deadline = t.deadline) (hw : u.worker = t.worker ∨ u.worker = "") : u.Chain gs where
  attempts := by rw [hatt]; exact h.attempts
  same := by rw [hid, hdur]; exact h.same
  later := h.later
  le := by rw [hdl]; exact h.le
  last x hx := by
    obtain ⟨h1, h2⟩ := h.last x hx
    refine ⟨by rw [hdl, h1], ?_⟩
    rcases hw with hw | hw
    · rwa [hw]
    · exact .inr hw

/-- A chain is empty exactly when the task was never leased. -/
theorem Task.Chain.nil_iff {gs : List Task} {t : Task} (h : t.Chain gs) :
    gs = [] ↔ t.attempts = 0 := by
  have := congrArg List.length h.attempts
  simp only [List.length_map, List.length_range'] at this
  rw [← this, List.length_eq_zero_iff]

/-- A new lease comes after the deadline of every earlier one. -/
theorem Task.Chain.grant {gs : List Task} {t : Task} {clock now : ℕ} {w : String}
    (h : t.Chain gs) (hok : t.OK clock) (hle : clock ≤ now) (ht : t.free = true) (hw : w ≠ "") :
    (t.grant now w).Chain (gs ++ [t.grant now w]) := by
  obtain ⟨hdone, hworker⟩ := free_iff.1 ht
  -- a task that is free again has let its last lease run out
  have hover : ∀ x ∈ gs, x.deadline < now := by
    intro x hx
    have hpos : 0 < t.attempts := by
      rcases Nat.eq_zero_or_pos t.attempts with h0 | hpos
      · rw [h.nil_iff.2 h0] at hx; simp at hx
      · exact hpos
    have h1 := h.le x hx
    have h2 := hok.lapsed hworker hdone hpos
    omega
  refine ⟨?_, ?_, ?_, ?_, ?_⟩
  · simp [h.attempts, List.range'_concat, Nat.add_comm]
  · intro x hx
    rcases List.mem_append.1 hx with hx | hx
    · exact h.same x hx
    · obtain rfl := List.mem_singleton.1 hx
      exact ⟨rfl, rfl, hw, hdone⟩
  · rw [List.pairwise_append]
    refine ⟨h.later, List.pairwise_singleton _ _, ?_⟩
    intro x hx y hy
    obtain rfl := List.mem_singleton.1 hy
    have := hover x hx
    simp only [grant_lease, grant_deadline]
    omega
  · intro x hx
    rcases List.mem_append.1 hx with hx | hx
    · have := hover x hx
      simp only [grant_deadline]
      omega
    · obtain rfl := List.mem_singleton.1 hx; exact le_rfl
  · intro x hx
    obtain rfl : t.grant now w = x := by simpa using hx
    exact ⟨rfl, .inl rfl⟩

/-- The queue is well formed. -/
structure Ghost.OK (g : Ghost) : Prop where
  numbered : g.broker.Numbered
  task : ∀ t ∈ g.broker.tasks, t.OK g.clock
  chain : ∀ t ∈ g.broker.tasks, t.Chain (g.leases t.id)
  known : ∀ x ∈ g.granted, ∃ t ∈ g.broker.tasks, t.id = x.id

/-- A task changes and keeps its chain, and no lease is granted. -/
theorem Ghost.OK.touch {clock now : ℕ} {gr pre post : List Task} {t u : Task} {es es' : List Event}
    (h : Ghost.OK ⟨clock, gr, ⟨pre ++ t :: post, es⟩⟩) (hclk : clock ≤ now) (hid : u.id = t.id)
    (hok : u.OK now) (hch : u.Chain (gr.filter fun x => x.id == u.id))
    (hknown : ∀ x ∈ gr, ∃ t ∈ pre ++ u :: post, t.id = x.id) :
    Ghost.OK ⟨now, gr, ⟨pre ++ u :: post, es'⟩⟩ := by
  have hs : (Broker.mk (pre ++ t :: post) es).Numbered := h.numbered
  refine ⟨hs.touch hid, ?_, ?_, hknown⟩
  · intro x hx
    rcases hs.mem_touch hx with rfl | ⟨hx, -⟩
    · exact hok
    · exact (h.task x hx).mono hclk
  · intro x hx
    rcases hs.mem_touch hx with rfl | ⟨hx, -⟩
    · exact hch
    · exact h.chain x hx

/-- Nothing was granted of a task that was not there. -/
theorem Ghost.OK.leases_new {clock : ℕ} {gr : List Task} {s : Broker} (h : Ghost.OK ⟨clock, gr, s⟩)
    (ms now : ℕ) : Ghost.leases ⟨now, gr, addTask now ms s⟩ (s.tasks.length + 1) = [] := by
  refine List.filter_eq_nil_iff.2 fun x hx => ?_
  obtain ⟨t, ht, htx⟩ := h.known x hx
  have hle : t.id ≤ s.tasks.length := (h.numbered.mem ht).2.1
  rw [beq_iff_eq]
  omega

/-- **An atomic step keeps the queue well formed.** -/
theorem Ghost.OK.step {g g' : Ghost} {a : ℕ × Act} (h : g.OK) (hst : queueLts.step g a g') :
    g'.OK := by
  obtain ⟨now, a⟩ := a
  obtain ⟨hclk, hat, hclk', hgr⟩ := hst
  obtain ⟨clock, gr, s⟩ := g
  obtain ⟨clock', gr', s'⟩ := g'
  simp only at hclk hat hclk' hgr
  obtain rfl := hclk'.symm
  subst hgr
  have hs : s.Numbered := h.numbered
  have hold : ∀ t ∈ s.tasks, t.OK now := fun t ht => (h.task t ht).mono hclk
  have hchain : ∀ t ∈ s.tasks, t.Chain (gr.filter fun x => x.id == t.id) := h.chain
  have hnum := atomic_numbered hat hs
  -- no task is lost, so what was granted is still known
  have hid : ∀ t ∈ s.tasks, ∃ u ∈ s'.tasks, u.id = t.id := by
    intro t ht
    obtain ⟨u, hu, heq, -⟩ := hat.grows t ht
    exact ⟨u, hu, heq⟩
  have hknown : ∀ x ∈ gr, ∃ t ∈ s'.tasks, t.id = x.id := by
    intro x hx
    obtain ⟨t, ht, htx⟩ := h.known x hx
    obtain ⟨u, hu, heq⟩ := hid t ht
    exact ⟨u, hu, heq.trans htx⟩
  cases hat with
  | wait =>
    simp only [Act.granted, List.append_nil]
    exact ⟨hs, hold, hchain, hknown⟩
  | add _ ms =>
    simp only [Act.granted, List.append_nil]
    refine ⟨hnum, ?_, ?_, hknown⟩
    · intro x hx
      rcases List.mem_append.1 hx with hx | hx
      · exact hold x hx
      · obtain rfl := List.mem_singleton.1 hx
        exact ⟨fun _ => ⟨rfl, rfl⟩, Nat.zero_le _, fun _ _ h0 => absurd h0 (Nat.lt_irrefl 0)⟩
    · intro x hx
      rcases List.mem_append.1 hx with hx | hx
      · exact hchain x hx
      · obtain rfl := List.mem_singleton.1 hx
        rw [h.leases_new ms now]
        exact ⟨rfl, by simp, .nil, by simp, by simp⟩
  | @expire pre post t es ht =>
    simp only [Act.granted, List.append_nil]
    obtain ⟨-, -, hdl⟩ := expired_iff.1 ht
    have hok := hold t (by simp)
    refine h.touch hclk rfl ⟨fun h0 => ⟨rfl, (hok.fresh h0).2⟩, hok.past, fun _ _ _ => hdl⟩ ?_
      hknown
    exact (hchain t (by simp)).congr rfl rfl rfl rfl (.inr rfl)
  | @claim pre post t es w hreap hpre ht hw =>
    have hch := (hchain t (by simp)).grant (h.task t (by simp)) hclk ht hw
    refine ⟨hnum, ?_, ?_, ?_⟩
    · intro x hx
      rcases hs.mem_touch hx with rfl | ⟨hx, -⟩
      · exact .grant hw
      · exact hold x hx
    · intro x hx
      rcases hs.mem_touch hx with rfl | ⟨hx, hid⟩
      · simpa [Ghost.leases, Act.granted] using hch
      · have := h.chain x hx
        simpa [Ghost.leases, Act.granted, Ne.symm hid] using this
    · intro x hx
      rcases List.mem_append.1 hx with hx | hx
      · exact hknown x hx
      · obtain rfl := List.mem_singleton.1 hx
        exact hid t (by simp)
  | @ack pre post t es hreap ht =>
    simp only [Act.granted, List.append_nil]
    have hok := hold t (by simp)
    refine h.touch hclk rfl ⟨hok.fresh, hok.past, fun _ hd => by simp at hd⟩ ?_ hknown
    exact (hchain t (by simp)).congr rfl rfl rfl rfl (.inl rfl)
  | reject =>
    simp only [Act.granted, List.append_nil]
    exact ⟨hs, hold, hchain, hknown⟩

/-- When tasks are only completed by somebody, a done task keeps the worker who did it. -/
theorem worker_of_done {g : Ghost} (h : namedLts.Reachable g) :
    ∀ t ∈ g.broker.tasks, t.done = true → t.worker ≠ "" := by
  refine Lts.Reachable.invariant (P := fun g : Ghost =>
    ∀ t ∈ g.broker.tasks, t.done = true → t.worker ≠ "") ?_ ?_ h
  · rintro _ rfl; simp
  · rintro g ⟨now, a⟩ g' - ih ⟨⟨-, hat, -⟩, hn⟩ x hx hd
    rcases hat.mem hx with hx | ⟨ms, -, rfl⟩ | ⟨t, ht, ⟨-, he, rfl⟩ | ⟨w, -, -, hw, rfl⟩ | ⟨rfl, -, rfl⟩⟩
    · exact ih x hx hd
    · cases hd
    · rw [(expired_iff.1 he).1] at hd; cases hd
    · exact hw
    · exact hn

theorem Ghost.OK.of_reachable {g : Ghost} (h : queueLts.Reachable g) : g.OK := by
  refine Lts.Reachable.invariant ?_ (fun _ _ _ _ ih hst => ih.step hst) h
  rintro _ rfl
  exact ⟨rfl, by simp, by simp, by simp⟩

/-! ## The leases granted -/

/-- The chain of a granted lease's task. -/
theorem Ghost.OK.lease {g : Ghost} (h : g.OK) {x : Task} (hx : x ∈ g.granted) :
    ∃ t ∈ g.broker.tasks, t.id = x.id ∧ t.Chain (g.leases x.id) ∧ x ∈ g.leases x.id := by
  obtain ⟨t, ht, hid⟩ := h.known x hx
  exact ⟨t, ht, hid, hid ▸ h.chain t ht, List.mem_filter.2 ⟨hx, by simp⟩⟩

/-- No lease is granted twice. -/
theorem Ghost.OK.nodup {g : Ghost} (h : g.OK) : g.granted.Nodup := by
  rw [List.nodup_iff_count_le_one]
  intro x
  by_cases hx : x ∈ g.granted
  · obtain ⟨t, -, -, hch, -⟩ := h.lease hx
    have hnd : (g.leases x.id).Nodup :=
      List.Nodup.of_map Task.attempts (by rw [hch.attempts]; exact List.nodup_range')
    rw [← List.count_filter (p := fun y => y.id == x.id) (by simp)]
    exact List.nodup_iff_count_le_one.1 hnd x
  · rw [List.count_eq_zero_of_not_mem hx]
    exact Nat.zero_le 1

/-- A lease was granted in the past. -/
theorem Ghost.OK.lease_past {g : Ghost} (h : g.OK) {x : Task} (hx : x ∈ g.granted) :
    x.deadline ≤ g.clock + x.lease := by
  obtain ⟨t, ht, -, hch, hmem⟩ := h.lease hx
  have hlease : x.lease = t.lease := by simp only [Task.lease, (hch.same x hmem).2.1]
  have h1 := hch.le x hmem
  have h2 := (h.task t ht).past
  omega

/-- One of two leases was granted after the deadline of the other. -/
def Task.Apart (x y : Task) : Prop :=
  x.deadline + y.lease < y.deadline ∨ y.deadline + x.lease < x.deadline

instance : Std.Symm Task.Apart := ⟨fun _ _ h => h.symm⟩

/-- **Two leases of one task are apart.** -/
theorem Ghost.OK.apart {g : Ghost} (h : g.OK) {x y : Task} (hx : x ∈ g.granted)
    (hy : y ∈ g.granted) (hid : x.id = y.id) (hne : x ≠ y) : x.Apart y := by
  obtain ⟨t, -, -, hch, hmem⟩ := h.lease hx
  have hmem' : y ∈ g.leases x.id := List.mem_filter.2 ⟨hy, by simp [hid]⟩
  have hpair : (g.leases x.id).Pairwise Task.Apart := hch.later.imp fun h => .inl h
  exact hpair.forall hmem hmem' hne

end K8sDev.Queue

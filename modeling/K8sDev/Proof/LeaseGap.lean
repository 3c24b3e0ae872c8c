import K8sDev.Proof.Fencing
import K8sDev.Proof.Network

/-!
# A lease excludes other claims

What the log of exchanges shows of the leases, for arbitrary clients.

* `Served.Dated`: a claim's deadline is its time and the lease, and a task whose `/ack` was
  accepted is done.
* `served_dated`: that holds of every run.
* `lease_exclusive`: a claim of a task comes after every earlier claim's lease, and no `/ack` of
  the task was accepted before.
-/

namespace K8sDev.Queue

variable {h : Served} {now : ℕ} {c : Call}

/-- The broker accepted an `/ack` of this task. -/
def Exchange.Acks (x : Exchange) (id : ℕ) : Prop :=
  x.call.path = .ack ∧ atoi (x.call.req.get "id") = some (id : ℤ) ∧ x.resp.code = 200

/-- The claim that an exchange granted. -/
def Exchange.granted (x : Exchange) : Option Task := Queue.granted x.call x.resp

/-- The log agrees with the queue. -/
structure Served.Dated (h : Served) : Prop where
  deadline : ∀ x ∈ h.log, ∀ t, x.granted = some t → t.deadline = x.now + t.lease
  done : ∀ x ∈ h.log, ∀ id, x.Acks id → ∃ t ∈ h.broker.tasks, t.id = id ∧ t.done = true

/-! ## One more exchange -/

theorem mem_serve_log {x : Exchange} (hx : x ∈ (serve now c h).log) :
    x ∈ h.log ∨ x = ⟨now, c, (handle now c h.broker).1⟩ := by
  rcases List.mem_append.1 hx with hx | hx
  · exact .inl hx
  · exact .inr (List.mem_singleton.1 hx)

theorem mem_grants {x : Exchange} {t : Task} (hx : x ∈ h.log) (ht : x.granted = some t) :
    t ∈ grants h.log :=
  List.mem_filterMap.2 ⟨x, hx, ht⟩

/-- An `/ack` answered with 200 completes the task. -/
theorem done_of_acks (hs : h.broker.Numbered) {id : ℕ}
    (hack : (Exchange.mk now c (handle now c h.broker).1).Acks id) :
    ∃ t ∈ (serve now c h).broker.tasks, t.id = id ∧ t.done = true := by
  obtain ⟨path, r⟩ := c
  obtain ⟨hpath, hid, h200⟩ := hack
  simp only at hpath hid h200
  subst hpath
  obtain ⟨t, -, htid, -, -, ⟨u, hu, hut, hdone⟩, -⟩ := accepts_of_200 hs h200
  have heq : t.id = id := by
    have := htid.symm.trans hid
    simpa using this
  exact ⟨u, hu, hut.trans heq, hdone⟩

theorem Served.Dated.serve (hd : h.Dated) (hs : h.broker.Numbered) (now : ℕ) (c : Call) :
    (serve now c h).Dated where
  deadline := by
    intro x hx t ht
    rcases mem_serve_log hx with hx | rfl
    · exact hd.deadline x hx t ht
    · exact (handle_granted ht).2.2.2
  done := by
    intro x hx id hack
    rcases mem_serve_log hx with hx | rfl
    · obtain ⟨t, ht, hid, hdone⟩ := hd.done x hx id hack
      obtain ⟨u, hu, -, -, -, hsame⟩ := handle_grows hs now c t ht
      obtain rfl := hsame hdone
      exact ⟨u, hu, hid, hdone⟩
    · exact done_of_acks hs hack

theorem served_dated (hr : brokerLts.Reachable h) : h.Dated := by
  refine Lts.Reachable.invariant (P := Served.Dated) ?_ ?_ hr
  · rintro _ rfl
    exact ⟨by simp, by simp⟩
  · rintro h ⟨now, c⟩ h' hr ih ⟨-, rfl⟩
    exact ih.serve (numbered (served_queue hr)) now c

/-! ## Two claims of one task -/

/-- `y` grants no task that `x` completed or whose lease from `x` is not over. -/
def Exchange.Excludes (x y : Exchange) : Prop :=
  ∀ u, y.granted = some u →
    (∀ t, x.granted = some t → t.id = u.id →
      t.durationMS = u.durationMS ∧ x.now + (t.durationMS * millisecond + 20 * second) < y.now) ∧
    ¬ x.Acks u.id

/-- **A claim after the log so far.** -/
theorem excludes_serve (hr : brokerLts.Reachable h) (hclk : h.clock ≤ now) {x : Exchange}
    (hx : x ∈ h.log) : x.Excludes ⟨now, c, (handle now c h.broker).1⟩ := by
  intro u hu
  have hu' : granted c (handle now c h.broker).1 = some u := hu
  have hd := served_dated hr
  have hok : h.ghost.OK := .of_reachable (served_queue hr)
  have hok' : (serve now c h).ghost.OK :=
    .of_reachable (served_queue (hr.step (a := (now, c)) ⟨hclk, rfl⟩))
  have hleases : (serve now c h).ghost.leases u.id = h.ghost.leases u.id ++ [u] := by
    rw [leases_serve, hu']
    simp
  constructor
  · intro t ht hid
    have hmem : t ∈ h.ghost.leases u.id :=
      List.mem_filter.2 ⟨mem_grants hx ht, by simp [hid]⟩
    have hu'' : u ∈ (serve now c h).ghost.granted := by
      have : u ∈ (serve now c h).ghost.leases u.id := by
        rw [hleases]
        exact List.mem_append_right _ List.mem_cons_self
      exact (List.mem_filter.1 this).1
    obtain ⟨v, -, -, hch, -⟩ := hok'.lease hu''
    rw [hleases] at hch
    -- both carry the duration of the stored task
    have hsame : t.durationMS = u.durationMS := by
      have ht' := (hch.same t (List.mem_append_left _ hmem)).2.1
      have hu' := (hch.same u (List.mem_append_right _ List.mem_cons_self)).2.1
      rw [ht', hu']
    -- the chain says that `u` was granted after the deadline of `t`
    have hlater := (List.pairwise_append.1 hch.later).2.2 t hmem u List.mem_cons_self
    have hdeadline := hd.deadline x hx t ht
    have hdeadline' := (handle_granted hu').2.2.2
    have hlease : t.lease = t.durationMS * millisecond + 20 * second := rfl
    refine ⟨hsame, ?_⟩
    show x.now + (t.durationMS * millisecond + 20 * second) < now
    omega
  · -- an accepted `/ack` completes the task, and a completed task is not granted
    intro hack
    obtain ⟨t, ht, hid, hdone⟩ := hd.done x hx u.id hack
    have hnil := (not_granted_of_done hok hok' ht hdone).1
    rw [hu', hid] at hnil
    simp at hnil

/-- **Leases are exclusive.** In every run, of two claims of one task the later one comes after
the deadline of the first, which is its time and the lease, and no `/ack` of the task was accepted
before it. -/
theorem lease_exclusive (hr : brokerLts.Reachable h) :
    h.log.Pairwise Exchange.Excludes ∧
      ∀ x ∈ h.log, ∀ t, x.granted = some t →
        t.deadline = x.now + (t.durationMS * millisecond + 20 * second) := by
  refine ⟨?_, (served_dated hr).deadline⟩
  refine Lts.Reachable.invariant (P := fun h : Served => h.log.Pairwise Exchange.Excludes) ?_ ?_ hr
  · rintro _ rfl
    exact .nil
  · rintro h ⟨now, c⟩ h' hr ih ⟨hclk, rfl⟩
    refine List.pairwise_append.2 ⟨ih, List.pairwise_singleton _ _, ?_⟩
    intro x hx y hy
    obtain rfl := List.mem_singleton.1 hy
    exact excludes_serve hr hclk hx

/-- Worker `b` asks at the deadline of `a`'s lease, then right after it. -/
def contended : List (ℕ × Call) :=
  [(0, enqueueCall 1 1), (1, claimCall "a"), (20001000001, claimCall "b"),
    (20001000002, claimCall "b")]

theorem lease_exclusive_contended :
    (serveAll contended {}).log.map Exchange.granted =
        [none, some ⟨1, 1, "a", 1, 20001000001, false⟩, none,
          some ⟨1, 1, "b", 2, 40002000002, false⟩] ∧
      (serveAll contended {}).log.Pairwise Exchange.Excludes :=
  ⟨by decide, (lease_exclusive (reachable_calls (by decide))).1⟩

end K8sDev.Queue

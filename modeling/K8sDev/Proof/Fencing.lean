import K8sDev.Proof.Authority

/-!
# Late acknowledgements

An `/ack` is sent for one claim and can arrive at any later time. The broker knows the
claim only by the worker's name, so a late `/ack` may meet a later lease of the same
task under the same name.

* `fenced_iff`: the `/ack` of a claim is fenced (rejected once its lease is over, and
  accepted only under the current lease) exactly when no such later lease is running.
* `ack_fencing`: in a run in which none ever is, every accepted `/ack` belongs to the
  last claim of its task.
* `ack_stale_accepted`: the `/ack` of an expired claim completes the task while the
  second claim by the same name is being worked on.
-/

namespace K8sDev.Queue

/-- The `/ack` a consumer sends for a claim. -/
def Task.ackRequest (g : Task) : Request := (ackCall g.id g.worker).req

/-- The `/ack` sent for the claim `g` and processed at `now` is rejected if the lease is over,
and accepted only if `g` is the task's current claim. -/
def Fenced (now : ℕ) (g : Task) (h : Served) : Prop :=
  (g.deadline < now → Rejects now g.ackRequest h.broker) ∧
    (Accepts now g.ackRequest h.broker → lastGrant h.log g.id = some g)

/-- The worker of the claim `g` has claimed the task again since, that lease still runs at
`now`, and the task is not done. -/
def Reclaimed (now : ℕ) (g : Task) (h : Served) : Prop :=
  (∃ t ∈ h.broker.tasks, t.id = g.id ∧ t.done = false) ∧
    ∃ g', lastGrant h.log g.id = some g' ∧ g'.worker = g.worker ∧ g.attempts < g'.attempts ∧
      now ≤ g'.deadline

/-- The broker and the claims whose `/ack` it accepted. -/
structure Acked where
  served : Served := {}
  accepted : List Task := []

/-- A call other than `/ack`, or the `/ack` sent for a claim that was granted. -/
inductive Delivery
  | call (c : Call)
  | ack (g : Task)

/-- What is delivered to the broker at `now`. Nothing bounds the time between a claim and the
delivery of its `/ack`, and an `/ack` may be delivered more than once. -/
inductive Deliver (now : ℕ) : Acked → Delivery → Acked → Prop
  | call {f : Acked} {c : Call} (hc : c.path ≠ .ack) :
      Deliver now f (.call c) ⟨serve now c f.served, f.accepted⟩
  | ack {f : Acked} {g : Task} (hg : g ∈ grants f.served.log) :
      Deliver now f (.ack g) ⟨serve now (ackCall g.id g.worker) f.served,
        f.accepted ++
          if (handle now (ackCall g.id g.worker) f.served.broker).1.code = 200 then [g] else []⟩

/-- Runs of the broker in which every `/ack` is sent for a granted claim. -/
def fenceLts : Lts Acked (ℕ × Delivery) where
  init f := f = {}
  step f a f' := f.served.clock ≤ a.1 ∧ Deliver a.1 f a.2 f'

/-- Such a run is a run of the broker. -/
theorem fence_served {f : Acked} (h : fenceLts.Reachable f) : brokerLts.Reachable f.served := by
  refine Lts.Reachable.invariant (P := fun f : Acked => brokerLts.Reachable f.served) ?_ ?_ h
  · rintro _ rfl; exact .of_init rfl
  · rintro f ⟨now, d⟩ f' - ih ⟨hclk, hd⟩
    cases hd with
    | call hc => exact ih.step (a := (now, _)) ⟨hclk, rfl⟩
    | ack hg => exact ih.step (a := (now, _)) ⟨hclk, rfl⟩

/-! ## One late acknowledgement -/

theorem ackRequest_get (g : Task) : atoi (g.ackRequest.get "id") = some (g.id : ℤ) ∧
    g.ackRequest.get "worker" = g.worker :=
  ackCall_get g.id g.worker

/-- An earlier claim of a task is over by the time of the last one. -/
theorem earlier_over {h : Served} (hg : h.ghost.OK) {t g g' : Task} (ht : t ∈ h.broker.tasks)
    (hmem : g ∈ grants h.log) (hid : g.id = t.id) (hlast : lastGrant h.log t.id = some g')
    (hne : g ≠ g') : g.deadline < h.clock ∧ g.attempts < g'.attempts := by
  have hch := hg.chain t ht
  have hm : g ∈ h.ghost.leases t.id := List.mem_filter.2 ⟨hmem, by simp [hid]⟩
  obtain ⟨init, hinit⟩ : ∃ init, h.ghost.leases t.id = init ++ [g'] :=
    List.getLast?_eq_some_iff.1 hlast
  have hg' : g' ∈ h.ghost.leases t.id := List.mem_of_getLast? hlast
  have hin : g ∈ init := by
    rw [hinit] at hm
    rcases List.mem_append.1 hm with hm | hm
    · exact hm
    · exact absurd (List.mem_singleton.1 hm) hne
  constructor
  · have hlater := hch.later
    rw [hinit, List.pairwise_append] at hlater
    have h1 := hlater.2.2 g hin g' (by simp)
    have h2 := (hg.task t ht).past
    have h3 := (hch.last g' hlast).1
    have h4 : g'.lease = t.lease := by
      unfold Task.lease; rw [(hch.same g' hg').2.1]
    have hclk : h.ghost.clock = h.clock := rfl
    omega
  · have hatt := hch.attempts
    have hsorted : ((h.ghost.leases t.id).map Task.attempts).Pairwise (· < ·) := by
      rw [hatt]; exact List.pairwise_lt_range'
    rw [hinit, List.map_append, List.pairwise_append] at hsorted
    exact hsorted.2.2 _ (List.mem_map_of_mem hin) _ (by simp)

/-- **Fencing, exactly.** The `/ack` of a claim is fenced iff the same worker does not hold a
later lease of the task. -/
theorem fenced_iff {h : Served} (hg : h.ghost.OK) {now : ℕ} {g : Task} (hnow : h.clock ≤ now)
    (hmem : g ∈ grants h.log) : Fenced now g h ↔ ¬Reclaimed now g h := by
  obtain ⟨hid, hwk⟩ := ackRequest_get g
  obtain ⟨t, ht, htg⟩ := hg.known g hmem
  have hs : h.broker.Numbered := hg.numbered
  have hid' : atoi (g.ackRequest.get "id") = some (t.id : ℤ) := by rw [hid, htg]
  have hgw : g.worker ≠ "" :=
    ((hg.chain t ht).same g (List.mem_filter.2 ⟨hmem, by simp [htg]⟩)).2.2.1
  have hdone : (∃ u ∈ h.broker.tasks, u.id = g.id ∧ u.done = false) ↔ t.done = false := by
    refine ⟨?_, fun hd => ⟨t, ht, htg, hd⟩⟩
    rintro ⟨u, hu, hug, hd⟩
    rwa [hs.inj hu ht (hug.trans htg.symm)] at hd
  -- accepted means: some lease of this worker is the current one
  have hacc : Accepts now g.ackRequest h.broker ↔ t.done = false ∧
      ∃ g', lastGrant h.log g.id = some g' ∧ g'.worker = g.worker ∧ now ≤ g'.deadline := by
    rw [accepts_iff hs rfl ht hid', hwk, ← htg]
    exact and_congr_right fun hd => holder_iff hg hnow ht hd hgw
  rw [Fenced, rejects_iff hs rfl ht hid', hacc, Reclaimed, hdone]
  constructor
  · rintro ⟨hrej, hcur⟩ ⟨hd, g', h1, h2, h3, h4⟩
    have := hcur ⟨hd, g', h1, h2, h4⟩
    rw [this] at h1
    cases h1
    exact Nat.lt_irrefl _ h3
  · intro hre
    constructor
    · rintro hover ⟨hd, g', h1, h2, h3⟩
      have hne : g ≠ g' := by rintro rfl; omega
      exact hre ⟨hd, g', h1, h2, (earlier_over hg ht hmem htg.symm (htg ▸ h1) hne).2, h3⟩
    · rintro ⟨hd, g', h1, h2, h3⟩
      by_contra hne
      have hgg : g ≠ g' := by rintro rfl; exact hne h1
      exact hre ⟨hd, g', h1, h2, (earlier_over hg ht hmem htg.symm (htg ▸ h1) hgg).2, h3⟩

/-! ## Runs with late acknowledgements -/

/-- No claim is granted of a task that is done. -/
theorem not_granted_of_done {h : Served} {now : ℕ} {c : Call} (hg : h.ghost.OK)
    (hg' : (serve now c h).ghost.OK) {t : Task} (ht : t ∈ h.broker.tasks) (hd : t.done = true) :
    (granted c (handle now c h.broker).1).toList.filter (fun x => x.id == t.id) = [] ∧
      t ∈ (serve now c h).broker.tasks := by
  obtain ⟨u, hu, -, -, -, hsame⟩ := handle_grows hg.numbered now c t ht
  obtain rfl := hsame hd
  refine ⟨?_, hu⟩
  have hlen := congrArg List.length (hg.chain u ht).attempts
  have hlen' := congrArg List.length (hg'.chain u hu).attempts
  rw [leases_serve] at hlen'
  simp only [List.length_map, List.length_append, List.length_range'] at hlen hlen'
  apply List.length_eq_zero_iff.1
  omega

theorem lastGrant_serve_of_done {h : Served} {now : ℕ} {c : Call} (hg : h.ghost.OK)
    (hg' : (serve now c h).ghost.OK) {t : Task} (ht : t ∈ h.broker.tasks) (hd : t.done = true) :
    lastGrant (serve now c h).log t.id = lastGrant h.log t.id ∧ t ∈ (serve now c h).broker.tasks := by
  obtain ⟨hnil, hmem⟩ := not_granted_of_done hg hg' ht hd
  refine ⟨?_, hmem⟩
  rw [lastGrant_eq, lastGrant_eq, leases_serve, hnil, List.append_nil]

/-- An `/ack` hands out nothing. -/
theorem lastGrant_ack (h : Served) (now : ℕ) (g : Task) (id : ℕ) :
    lastGrant (serve now (ackCall g.id g.worker) h).log id = lastGrant h.log id := by
  simp [lastGrant, grants_serve, granted, ackCall]

/-- An `/ack` answered with 200 was accepted. -/
theorem accepts_of_200 {s : Broker} (hs : s.Numbered) {now : ℕ} {r : Request}
    (h200 : (handle now ⟨.ack, r⟩ s).1.code = 200) : Accepts now r s := by
  have hm : r.method = "POST" := by
    by_contra hm
    simp [handle, ack, hm, httpError] at h200
  rcases ack_cases hs now hm with ⟨-, heq⟩ | ⟨t, -, -, ⟨-, u, -, -, h409, -⟩ | ⟨-, -, hacc⟩⟩
  · rw [heq] at h200
    cases h200
  · rw [h409] at h200
    cases h200
  · exact hacc

/-- In a run in which no `/ack` meets a later lease of its worker, an accepted `/ack` belongs to
the last claim of a task that is done. -/
theorem accepted_current {f : Acked} (hf : (fenceLts.restrict fun f a _ =>
      ∀ g, a.2 = .ack g → ¬Reclaimed a.1 g f.served).Reachable f) :
    ∀ g ∈ f.accepted, lastGrant f.served.log g.id = some g ∧
      ∃ t ∈ f.served.broker.tasks, t.id = g.id ∧ t.done = true := by
  refine Lts.Reachable.invariant (P := fun f : Acked => ∀ g ∈ f.accepted,
    lastGrant f.served.log g.id = some g ∧
      ∃ t ∈ f.served.broker.tasks, t.id = g.id ∧ t.done = true) ?_ ?_ hf
  · rintro _ rfl; simp
  · rintro f ⟨now, d⟩ f' hf ih ⟨⟨hclk, hd⟩, hre⟩
    have hr := fence_served hf.of_restrict
    have hok : f.served.ghost.OK := .of_reachable (served_queue hr)
    have hok' : ∀ c : Call, (serve now c f.served).ghost.OK := fun c =>
      .of_reachable (served_queue (hr.step (a := (now, c)) ⟨hclk, rfl⟩))
    -- what was accepted before stays the last claim of a done task
    have keep : ∀ c : Call, ∀ g ∈ f.accepted, lastGrant (serve now c f.served).log g.id = some g ∧
        ∃ t ∈ (serve now c f.served).broker.tasks, t.id = g.id ∧ t.done = true := by
      intro c g hg
      obtain ⟨hlast, t, ht, htg, hdone⟩ := ih g hg
      have := lastGrant_serve_of_done hok (hok' c) ht hdone
      exact ⟨by rw [← htg, this.1, htg, hlast], t, this.2, htg, hdone⟩
    cases hd with
    | call hc => exact keep _
    | @ack g hg =>
      intro x hx
      rcases List.mem_append.1 hx with hx | hx
      · exact keep _ x hx
      · split at hx
        · rename_i h200
          obtain rfl := List.mem_singleton.1 hx
          have hacc : Accepts now x.ackRequest f.served.broker :=
            accepts_of_200 hok.numbered h200
          have hcur := ((fenced_iff hok hclk hg).2 (hre x rfl)).2 hacc
          obtain ⟨t, ht, hid, -, -, ⟨u, hu, hut, hdone⟩, -⟩ := hacc
          have htx : t.id = x.id := by
            rw [(ackRequest_get x).1] at hid
            simpa using hid.symm
          exact ⟨by rw [lastGrant_ack, hcur], u, hu, hut.trans htx, hdone⟩
        · simp at hx

/-- **Fencing of acknowledgements and its exact condition.** In every run in which each `/ack`
is sent for a granted claim, an `/ack` delivered at any later time is fenced iff its worker
does not hold a later lease of the task; and in a run in which no `/ack` meets such a
lease, every accepted `/ack` belongs to the last claim of its task. -/
theorem ack_fencing {f : Acked} (hf : fenceLts.Reachable f) :
    (∀ (now : ℕ) (g : Task), f.served.clock ≤ now → g ∈ grants f.served.log →
      (Fenced now g f.served ↔ ¬Reclaimed now g f.served)) ∧
    ((fenceLts.restrict fun f a _ => ∀ g, a.2 = .ack g → ¬Reclaimed a.1 g f.served).Reachable f →
      ∀ g ∈ f.accepted, lastGrant f.served.log g.id = some g ∧
        ∃ t ∈ f.served.broker.tasks, t.id = g.id ∧ t.done = true) := by
  have hg : f.served.ghost.OK := .of_reachable (served_queue (fence_served hf))
  constructor
  · intro now g hnow hmem
    exact fenced_iff hg hnow hmem
  · intro hsafe
    exact accepted_current hsafe

/-- Worker `a` claims a task of 1 ms twice, the second time after the first lease is over. -/
def reclaimed : List (ℕ × Call) :=
  [(0, enqueueCall 1 1), (1, claimCall "a"), (21 * second, claimCall "a")]

/-- The first of the two claims: `a`'s lease until 20.001 s. -/
def firstClaim : Task := ⟨1, 1, "a", 1, 1 + (millisecond + 20 * second), false⟩

/-- The broker after both claims. -/
def reclaimedAcked : Acked := ⟨serveAll reclaimed {}, []⟩

theorem reclaimed_reachable : fenceLts.Reachable reclaimedAcked := by
  have step : ∀ (now : ℕ) (c : Call) {f : Acked}, fenceLts.Reachable f → c.path ≠ .ack →
      f.served.clock ≤ now → fenceLts.Reachable ⟨serve now c f.served, f.accepted⟩ :=
    fun now c _ hf hc hclk => hf.step (a := (now, .call c)) ⟨hclk, .call hc⟩
  have h0 : fenceLts.Reachable {} := .of_init rfl
  have h1 := step 0 (enqueueCall 1 1) h0 (by decide) (by decide)
  have h2 := step 1 (claimCall "a") h1 (by decide) (by decide)
  exact step (21 * second) (claimCall "a") h2 (by decide) (by decide)

/-- **A stale acknowledgement completes the task.** The `/ack` of the first claim arrives a
second after the second claim by the same worker, and is accepted. -/
theorem ack_stale_accepted : ¬∀ (f : Acked) (now : ℕ) (g : Task), fenceLts.Reachable f →
    f.served.clock ≤ now → g ∈ grants f.served.log → Fenced now g f.served := by
  intro hall
  have hf := hall reclaimedAcked (22 * second) firstClaim reclaimed_reachable (by decide) (by decide)
  obtain ⟨t, -, -, h409, -⟩ := hf.1 (by decide)
  revert h409
  decide

theorem ack_fencing_reclaimed :
    Fenced (22 * second) firstClaim reclaimedAcked.served ↔
      ¬Reclaimed (22 * second) firstClaim reclaimedAcked.served :=
  (ack_fencing reclaimed_reachable).1 (22 * second) firstClaim (by decide) (by decide)

end K8sDev.Queue

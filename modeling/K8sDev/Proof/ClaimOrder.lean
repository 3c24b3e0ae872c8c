import K8sDev.Proof.Audit
import K8sDev.Proof.Conserve
import K8sDev.Proof.Network

/-!
# Tasks are served in order

A claim is granted of the first task that is not busy, so a task is claimed for the first time
only after all tasks before it were, however claims of expired tasks come in between.

* `firstClaims_eq`: the tasks claimed so far are 1, 2, ..., k, first claimed in this order.
* `busy_before`: at a claim every earlier task is done or under a lease that is not over.
* `claim_empty_iff`: the empty task is the answer when no task is pending.
-/

namespace K8sDev.Queue

variable {now : ℕ} {s s' : Broker} {g : Ghost} {h : Served} {t u x : Task}

/-- The tasks of the recorded claims, in order. -/
def claimIds (es : List Event) : List ℕ := (es.filter fun e => e.kind == .claim).map Event.id

/-- The tasks in the order of their first claims. -/
def firstClaims (es : List Event) : List ℕ := (claimIds es).eraseDups

/-- Done, or under a lease that is not over. -/
def Task.Busy (now : ℕ) (t : Task) : Prop := t.done = true ∨ t.worker ≠ "" ∧ now ≤ t.deadline

/-! ## First claims -/

theorem firstClaims_concat (es : List Event) (e : Event) : firstClaims (es ++ [e]) =
    if e.kind = .claim ∧ e.id ∉ claimIds es then firstClaims es ++ [e.id] else firstClaims es := by
  have hids : claimIds (es ++ [e]) = claimIds es ++ if e.kind = .claim then [e.id] else [] := by
    by_cases hk : e.kind = .claim <;> simp [claimIds, hk]
  unfold firstClaims
  rw [hids, List.eraseDups_append]
  by_cases hk : e.kind = .claim
  · by_cases hmem : e.id ∈ claimIds es
    · simp [hk, hmem, List.removeAll]
    · simp [hk, hmem, List.removeAll, List.eraseDups_cons]
  · simp [hk]

theorem firstClaims_other {es : List Event} {e : Event} (hk : e.kind ≠ .claim) :
    firstClaims (es ++ [e]) = firstClaims es := by
  rw [firstClaims_concat, if_neg]
  intro hboth
  exact hk hboth.1

/-- A task was claimed when it has attempts. -/
theorem mem_claimIds (hr : namedLts.Reachable g) (ht : t ∈ g.broker.tasks) :
    t.id ∈ claimIds g.broker.events ↔ 0 < t.attempts := by
  rw [attempts_eq hr ht, List.countP_pos_iff]
  simp only [claimIds, List.mem_map, List.mem_filter, Bool.and_eq_true, beq_iff_eq]
  constructor
  · rintro ⟨e, ⟨he, hk⟩, hid⟩
    exact ⟨e, he, hk, hid⟩
  · rintro ⟨e, he, hk, hid⟩
    exact ⟨e, ⟨he, hk⟩, hid⟩

/-- A task that is not free was claimed. -/
theorem claimed_of_not_free (hr : namedLts.Reachable g) (ht : t ∈ g.broker.tasks)
    (hfree : t.free = false) : 0 < t.attempts := by
  by_contra hpos
  have hfresh : t.attempts = 0 := by omega
  have hworker := (((Ghost.OK.of_reachable hr.of_restrict).task t ht).fresh hfresh).1
  have hdone : t.done = true := by simpa [Task.free, hworker] using hfree
  exact worker_of_done hr t ht hdone hworker

/-- Smaller numbers come before. -/
theorem Broker.Numbered.mem_pre {pre post : List Task} {es : List Event}
    (hs : (Broker.mk (pre ++ t :: post) es).Numbered) (hx : x ∈ pre ++ t :: post)
    (hlt : x.id < t.id) : x ∈ pre := by
  have hids : (pre ++ t :: post).map Task.id = List.range' 1 (pre ++ t :: post).length := hs
  have hsorted : ((pre ++ t :: post).map Task.id).Pairwise (· < ·) := by
    rw [hids]
    exact List.pairwise_lt_range'
  rw [List.map_append, List.map_cons, List.pairwise_append, List.pairwise_cons] at hsorted
  rcases List.mem_append.1 hx with hx | hx
  · exact hx
  · rcases List.mem_cons.1 hx with rfl | hx
    · exact absurd hlt (Nat.lt_irrefl _)
    · have hgt := hsorted.2.1.1 x.id (List.mem_map_of_mem hx)
      omega

theorem Broker.Numbered.exists_id (hs : s.Numbered) {i : ℕ} (hpos : 1 ≤ i)
    (hle : i ≤ s.tasks.length) : ∃ x ∈ s.tasks, x.id = i := by
  have hlt : i - 1 < s.tasks.length := by omega
  refine ⟨s.tasks[i - 1], List.getElem_mem hlt, ?_⟩
  rw [hs.get hlt]
  omega

/-- **A step keeps the order of first claims.** -/
theorem firstClaims_step {a : Act} (hr : namedLts.Reachable g) (hat : Atomic now g.broker a s')
    (hfirst : ∃ k, firstClaims g.broker.events = List.range' 1 k) :
    ∃ k, firstClaims s'.events = List.range' 1 k := by
  obtain ⟨clock, gr, s⟩ := g
  obtain ⟨k, hk⟩ := hfirst
  have hs : s.Numbered := numbered hr.of_restrict
  cases hat with
  | wait => exact ⟨k, hk⟩
  | add | reject => exact ⟨k, (firstClaims_other (by simp)).trans hk⟩
  | expire | ack => exact ⟨k, (firstClaims_other (by simp)).trans hk⟩
  | @claim pre post t es w hreap hpre ht hw =>
    have hmem : ∀ i, i ∈ claimIds es ↔ 1 ≤ i ∧ i ≤ k := by
      intro i
      rw [← List.mem_eraseDups, show (claimIds es).eraseDups = List.range' 1 k from hk,
        List.mem_range'_1]
      omega
    rw [firstClaims_concat]
    split
    · -- a first claim: of the task after the last one
      rename_i hnew
      obtain ⟨hpos, hle, -⟩ := hs.mem (t := t) (by simp)
      have hlow : ¬ (1 ≤ t.id ∧ t.id ≤ k) := fun hin => hnew.2 ((hmem t.id).2 hin)
      -- everything before `t` was claimed
      have hnext : t.id = k + 1 := by
        by_contra hne
        obtain ⟨x, hx, hid⟩ := hs.exists_id (i := k + 1) (by omega) (by omega)
        have hbefore : x ∈ pre := hs.mem_pre hx (by omega)
        have hclaimed := (mem_claimIds hr hx).2 (claimed_of_not_free hr hx (hpre x hbefore))
        have hbound := ((hmem x.id).1 hclaimed).2
        omega
      refine ⟨k + 1, ?_⟩
      rw [show firstClaims es = List.range' 1 k from hk, List.range'_concat]
      simp [hnext, Nat.add_comm]
    · exact ⟨k, hk⟩

/-- **Tasks are claimed for the first time in the order of their numbers.** -/
theorem firstClaims_eq (hr : namedLts.Reachable g) :
    ∃ k ≤ g.broker.tasks.length, firstClaims g.broker.events = List.range' 1 k := by
  have hfirst : ∃ k, firstClaims g.broker.events = List.range' 1 k := by
    refine Lts.Reachable.invariant (P := fun g : Ghost =>
      ∃ k, firstClaims g.broker.events = List.range' 1 k) ?_ ?_ hr
    · rintro _ rfl
      exact ⟨0, rfl⟩
    · rintro g ⟨now, a⟩ g' hr ih ⟨⟨-, hat, -⟩, -⟩
      exact firstClaims_step hr hat ih
  obtain ⟨k, hk⟩ := hfirst
  refine ⟨k, ?_, hk⟩
  by_contra hlt
  -- the last of them is a stored task
  have hlast : k ∈ claimIds g.broker.events := by
    rw [← List.mem_eraseDups, show (claimIds g.broker.events).eraseDups = _ from hk,
      List.mem_range'_1]
    omega
  obtain ⟨e, he, hid⟩ := List.mem_map.1 hlast
  obtain ⟨t, ht, hte⟩ := event_known hr.of_restrict e (List.mem_filter.1 he).1
  have hbound := ((numbered hr.of_restrict).mem ht).2.1
  omega

/-! ## What a claim answers -/

theorem free_release_iff : (t.release now).free = false ↔ t.Busy now := by
  rw [Bool.eq_false_iff, ne_eq, free_iff, release_done, release_worker, Task.Busy]
  cases hexp : t.expired now with
  | true =>
    obtain ⟨hdone, -, hover⟩ := expired_iff.1 hexp
    simp [hdone, hover]
  | false =>
    have hnot : ¬ (t.done = false ∧ t.worker ≠ "" ∧ t.deadline < now) := by
      rw [← expired_iff, hexp]
      simp
    by_cases hdone : t.done = true
    · simp [hdone]
    · have hlive : t.worker ≠ "" → now ≤ t.deadline := by
        intro hw
        by_contra hlt
        exact hnot ⟨by simpa using hdone, hw, by omega⟩
      simpa [hdone] using hlive

/-- Nothing is pending after expiry. -/
theorem pending_eq_zero_iff :
    (counts (reap now s).tasks).pending = 0 ↔ ∀ t ∈ s.tasks, t.Busy now := by
  rw [counts_eq]
  simp only [reap, List.countP_eq_zero, List.mem_map]
  constructor
  · intro hnone t ht
    exact free_release_iff.1 (by simpa using hnone _ ⟨t, ht, rfl⟩)
  · rintro hbusy _ ⟨t, ht, rfl⟩
    simpa using free_release_iff.2 (hbusy t ht)

/-- **The answers of `/claim`**: an error, a task, or the empty task. -/
theorem claim_answers (hs : s.Numbered) (now : ℕ) (r : Request) :
    ((r.method ≠ "POST" ∨ r.get "worker" = "") ∧
      ∃ text code, 400 ≤ code ∧ (handle now ⟨.claim, r⟩ s).1 = httpError text code) ∨
    (r.method = "POST" ∧ r.get "worker" ≠ "") ∧
      ((∃ t ∈ s.tasks, ¬ t.Busy now ∧ (∀ x ∈ s.tasks, x.id < t.id → x.Busy now) ∧
          (handle now ⟨.claim, r⟩ s).1 =
            ⟨200, .task ((t.release now).grant now (r.get "worker"))⟩) ∨
        (∀ t ∈ s.tasks, t.Busy now) ∧ (handle now ⟨.claim, r⟩ s).1 = ⟨200, .task {}⟩) := by
  simp only [handle]
  unfold claim
  by_cases hm : r.method ≠ "POST"
  · rw [if_pos hm]
    exact .inl ⟨.inl hm, _, 405, by omega, rfl⟩
  rw [if_neg hm]
  by_cases hw : r.get "worker" = ""
  · simp only [if_pos hw]
    exact .inl ⟨.inr hw, _, 400, by omega, rfl⟩
  simp only [if_neg hw]
  refine .inr ⟨⟨by simpa using hm, hw⟩, ?_⟩
  rcases claimLocked_cases now (r.get "worker") (reap now s) with
    ⟨pre, u, post, hts, hpre, hu, heq⟩ | ⟨hnone, heq⟩
  · -- the task as it was before the reap
    have hmap : s.tasks.map (Task.release now) = pre ++ u :: post := hts
    obtain ⟨t, ht, rfl⟩ := List.mem_map.1 (show u ∈ s.tasks.map (Task.release now) by
      rw [hmap]
      simp)
    refine .inl ⟨t, ht, ?_, ?_, by rw [heq]⟩
    · rw [← free_release_iff, hu]
      simp
    · intro x hx hlt
      have hnum : (Broker.mk (pre ++ t.release now :: post) []).Numbered := by
        have := hs.reap now
        rwa [Broker.Numbered, hts] at this
      refine free_release_iff.1 (hpre _ (hnum.mem_pre ?_ (by simpa using hlt)))
      rw [← hmap]
      exact List.mem_map_of_mem hx
  · refine .inr ⟨fun t ht => ?_, by rw [heq]⟩
    exact free_release_iff.1 (hnone _ (List.mem_map_of_mem ht))

/-- At a claim the tasks before are busy. -/
theorem busy_before (hs : s.Numbered) {c : Call} (hu : granted c (handle now c s).1 = some u) :
    1 ≤ u.id ∧ ∀ t ∈ s.tasks, t.id < u.id → t.Busy now := by
  obtain ⟨hpath, hbody, hid⟩ := granted_iff.1 hu
  obtain ⟨path, r⟩ := c
  simp only at hpath
  subst hpath
  refine ⟨Nat.pos_of_ne_zero hid, ?_⟩
  rcases claim_answers hs now r with
    ⟨-, text, code, -, heq⟩ | ⟨-, ⟨t, -, -, hbefore, heq⟩ | ⟨-, heq⟩⟩
  · rw [heq] at hbody
    cases hbody
  · rw [heq] at hbody
    obtain rfl := Body.task.inj hbody
    simpa using hbefore
  · rw [heq] at hbody
    obtain rfl := Body.task.inj hbody
    exact absurd rfl hid

theorem claim_empty_iff (hs : s.Numbered) (now : ℕ) (r : Request) :
    (handle now ⟨.claim, r⟩ s).1 = ⟨200, .task {}⟩ ↔
      r.method = "POST" ∧ r.get "worker" ≠ "" ∧ (counts (reap now s).tasks).pending = 0 := by
  rw [pending_eq_zero_iff]
  rcases claim_answers hs now r with
    ⟨hbad, text, code, hcode, heq⟩ | ⟨⟨hm, hw⟩, ⟨t, ht, hfree, -, heq⟩ | ⟨hbusy, heq⟩⟩
  · rw [heq]
    constructor
    · intro hresp
      cases hresp
    · rintro ⟨hm, hw, -⟩
      exact absurd hbad (by simp [hm, hw])
  · rw [heq]
    have hpos := (hs.mem ht).1
    constructor
    · intro hresp
      have hid := congrArg Task.id (Body.task.inj (congrArg Response.body hresp))
      simp only [grant_id, release_id] at hid
      omega
    · rintro ⟨-, -, hbusy⟩
      exact absurd (hbusy t ht) hfree
  · rw [heq]
    exact ⟨fun _ => ⟨hm, hw, hbusy⟩, fun _ => rfl⟩

/-- A consumer takes the empty task, and nothing else, for "nothing to do". -/
theorem idle_iff (hs : s.Numbered) (now : ℕ) (r : Request) (later : ℕ) :
    afterClaim later (post (some (handle now ⟨.claim, r⟩ s).1)) = .idle later ↔
      (handle now ⟨.claim, r⟩ s).1 = ⟨200, .task {}⟩ := by
  rcases claim_answers hs now r with
    ⟨-, text, code, hcode, heq⟩ | ⟨-, ⟨t, ht, -, -, heq⟩ | ⟨-, heq⟩⟩
  · have hfail : 300 ≤ code := by omega
    rw [heq]
    simp [afterClaim, post, httpError, hfail]
  · have hid : t.id ≠ 0 := by
      have := (hs.mem ht).1
      omega
    have hne : (t.release now).grant now (r.get "worker") ≠ {} := by
      intro h0
      have := congrArg Task.id h0
      simp only [grant_id, release_id] at this
      exact hid this
    rw [heq]
    simp [afterClaim, post, hid, hne]
  · rw [heq]
    simp [afterClaim, post]

/-- **First claims come in the order of enqueueing.** In every run in which an `/ack` names its
worker, the tasks claimed so far are 1, 2, ..., k and were first claimed in this order; a claim is
granted while every earlier task is done or under a lease that is not over; and the empty task,
which a consumer takes for "nothing to do", is the answer when no task is pending after expiry. -/
theorem claims_in_order (hr : namedBrokerLts.Reachable h) :
    (∃ k ≤ h.broker.tasks.length, firstClaims h.broker.events = List.range' 1 k) ∧
    (∀ now c u, granted c (handle now c h.broker).1 = some u →
      1 ≤ u.id ∧ ∀ t ∈ h.broker.tasks, t.id < u.id → t.done = true ∨
        t.worker ≠ "" ∧ now ≤ t.deadline) ∧
    ∀ now r, ((handle now ⟨.claim, r⟩ h.broker).1 = ⟨200, .task {}⟩ ↔
        r.method = "POST" ∧ r.get "worker" ≠ "" ∧
          (counts (reap now h.broker).tasks).pending = 0) ∧
      ∀ later, afterClaim later (post (some (handle now ⟨.claim, r⟩ h.broker).1)) = .idle later ↔
        (handle now ⟨.claim, r⟩ h.broker).1 = ⟨200, .task {}⟩ := by
  have hg := safe_queue (safe_of_named hr)
  have hs : h.broker.Numbered := numbered hg.of_restrict
  refine ⟨firstClaims_eq hg, ?_, ?_⟩
  · intro now c u hu
    exact busy_before hs hu
  · intro now r
    exact ⟨claim_empty_iff hs now r, idle_iff hs now r⟩

/-- Task 1 is claimed again, after its lease, between the first claims of the other two. -/
def reclaimedFirst : List (ℕ × Call) :=
  [(0, enqueueCall 3 1), (1, claimCall "a"), (2, claimCall "b"), (21 * second, claimCall "c"),
    (22 * second, claimCall "c"), (23 * second, claimCall "c")]

theorem claims_in_order_reclaimed :
    claimIds (serveAll reclaimedFirst {}).broker.events = [1, 2, 1, 2, 3] ∧
      ∃ k ≤ (serveAll reclaimedFirst {}).broker.tasks.length,
        firstClaims (serveAll reclaimedFirst {}).broker.events = List.range' 1 k := by
  have hr : namedBrokerLts.Reachable (serveAll reclaimedFirst {}) :=
    reachable_named (by decide) (by decide)
  exact ⟨by decide, (claims_in_order hr).1⟩

end K8sDev.Queue

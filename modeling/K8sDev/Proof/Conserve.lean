import K8sDev.Proof.Leases

/-!
# Conservation of tasks

`counts` recomputes its numbers from the fields of the tasks. They are quantities of the
event history (`conservation`): what is done was acknowledged, what is in flight was
claimed and neither expired nor acknowledged, and a retry is an expired lease whose task
was claimed again. What `/stats` and `/metrics` report of accepted, completed and retried
tasks never decreases (`reports_mono`).
-/

namespace K8sDev.Queue

/-- The tasks `counts` calls in flight. -/
def Task.held (t : Task) : Bool := !t.done && t.worker != ""

/-- Free again after a lease that expired. -/
def Task.lapsed (t : Task) : Bool := t.free && decide (1 ≤ t.attempts)

/-- The number of extra claims. -/
def retriesOf (ts : List Task) : ℕ := (ts.map fun t => t.attempts - 1).sum

def ofKind (k : Kind) (es : List Event) : ℕ := es.countP fun e => e.kind == k

/-- One turn of the loop of `counts`, in closed form. -/
theorem Counts.add_eq (c : Counts) (t : Task) : c.add t =
    ⟨c.pending + (if t.free then 1 else 0), c.inflight + (if t.held then 1 else 0),
      c.done + (if t.done then 1 else 0), c.retries + (t.attempts - 1)⟩ := by
  have hret : ∀ n : ℕ, (if n > 1 then c.retries + (n - 1) else c.retries) = c.retries + (n - 1) := by
    intro n
    split
    · rfl
    · omega
  unfold Counts.add Task.free Task.held
  rw [← hret]
  cases t.done <;> by_cases hw : t.worker = "" <;> by_cases ha : t.attempts > 1 <;> simp [hw, ha]

/-- **`counts` in closed form.** -/
theorem counts_eq (ts : List Task) :
    counts ts = ⟨ts.countP Task.free, ts.countP Task.held, ts.countP Task.done, retriesOf ts⟩ := by
  have key : ∀ (ts : List Task) (c : Counts), ts.foldl Counts.add c =
      ⟨c.pending + ts.countP Task.free, c.inflight + ts.countP Task.held,
        c.done + ts.countP Task.done, c.retries + retriesOf ts⟩ := by
    intro ts
    induction ts with
    | nil => intro c; rfl
    | cons t ts ih =>
      intro c
      rw [List.foldl_cons, ih, Counts.add_eq]
      simp only [List.countP_cons, retriesOf, List.map_cons, List.sum_cons, Counts.mk.injEq]
      omega
  simpa [counts] using key ts {}

/-- Every task is pending, in flight or done. -/
theorem counts_total (ts : List Task) :
    ts.countP Task.free + ts.countP Task.held + ts.countP Task.done = ts.length := by
  induction ts with
  | nil => rfl
  | cons t ts ih =>
    simp only [List.countP_cons, List.length_cons, Task.free, Task.held] at ih ⊢
    by_cases hd : t.done = true <;> by_cases hw : t.worker = "" <;> simp [hd, hw] <;> omega

/-! ## The identities -/

/-- The counts of the tasks as quantities of the event history. -/
structure Broker.Balanced (s : Broker) : Prop where
  done : s.tasks.countP Task.done = ofKind .ack s.events
  held : s.tasks.countP Task.held + ofKind .expired s.events + ofKind .ack s.events =
    ofKind .claim s.events
  retries : retriesOf s.tasks + s.tasks.countP Task.lapsed = ofKind .expired s.events

theorem ofKind_append (k : Kind) (es : List Event) (e : Event) :
    ofKind k (es ++ [e]) = ofKind k es + if e.kind = k then 1 else 0 := by
  by_cases h : e.kind = k <;> simp [ofKind, List.countP_append, h]

theorem retriesOf_touch (pre post : List Task) (t : Task) :
    retriesOf (pre ++ t :: post) = retriesOf pre + (t.attempts - 1) + retriesOf post := by
  simp [retriesOf, Nat.add_assoc]

/-- **An atomic step keeps the identities.** -/
theorem balanced_step {clock now : ℕ} {s s' : Broker} {a : Act} (h : Atomic now s a s')
    (hok : ∀ t ∈ s.tasks, t.OK clock) (hn : a.Named) (hb : s.Balanced) : s'.Balanced := by
  obtain ⟨h1, h2, h3⟩ := hb
  cases h with
  | wait => exact ⟨h1, h2, h3⟩
  | add _ ms =>
    have hr : retriesOf (s.tasks ++ [{ id := s.tasks.length + 1, durationMS := ms }]) =
        retriesOf s.tasks := by simp [retriesOf]
    refine ⟨?_, ?_, ?_⟩ <;>
      simp [addTask, record, ofKind_append, List.countP_append, Task.held, Task.lapsed, hr, h1, h2, h3]
  | @expire pre post t es ht =>
    obtain ⟨hd, hw, -⟩ := expired_iff.1 ht
    -- an expired lease was granted once
    have hatt : 1 ≤ t.attempts := by
      by_contra h0
      exact hw ((hok t (by simp)).fresh (by omega)).1
    refine ⟨?_, ?_, ?_⟩ <;>
      simp [ofKind_append, List.countP_append, retriesOf_touch, Task.held, Task.lapsed, Task.free,
        hd, hw, hatt] at h1 h2 h3 ⊢ <;> omega
  | @claim pre post t es w hreap hpre ht hw =>
    obtain ⟨hd, hw'⟩ := free_iff.1 ht
    refine ⟨?_, ?_, ?_⟩ <;>
      simp [ofKind_append, List.countP_append, List.countP_cons, retriesOf_touch, Task.held,
        Task.lapsed, Task.free, hd, hw, hw'] at h1 h2 h3 ⊢
    · omega
    · omega
    · by_cases ha : 1 ≤ t.attempts <;> simp [ha] at h3 <;> omega
  | @ack pre post t es hreap hd =>
    have hw : t.worker ≠ "" := hn
    refine ⟨?_, ?_, ?_⟩ <;>
      simp [ofKind_append, List.countP_append, retriesOf_touch, Task.held, Task.lapsed, Task.free,
        hd, hw] at h1 h2 h3 ⊢ <;> omega
  | reject => exact ⟨by simpa [record, ofKind_append] using h1,
      by simpa [record, ofKind_append] using h2, by simpa [record, ofKind_append] using h3⟩

theorem balanced {g : Ghost} (h : namedLts.Reachable g) : g.broker.Balanced := by
  refine Lts.Reachable.invariant (P := fun g : Ghost => g.broker.Balanced) ?_ ?_ h
  · rintro _ rfl; exact ⟨rfl, rfl, rfl⟩
  · rintro g ⟨now, a⟩ g' hr ih ⟨⟨-, hat, -⟩, hn⟩
    exact balanced_step hat (Ghost.OK.of_reachable hr.of_restrict).task hn ih

/-! ## Reports -/

/-- The counts of a report. -/
def Response.counts? (r : Response) : Option Counts :=
  match r.body with
  | .metrics c => some c
  | .stats _ c _ _ => some c
  | _ => none

/-- The number of accepted tasks, which only `/stats` reports. -/
def Response.accepted? (r : Response) : Option ℕ :=
  match r.body with
  | .stats n _ _ _ => some n
  | _ => none

/-- The reports that `r` has to be followed by: nothing it counts has gone back. -/
def Response.Before (r r' : Response) : Prop :=
  (∀ m ∈ r.accepted?, ∀ n ∈ r'.accepted?, m ≤ n) ∧
    ∀ c ∈ r.counts?, ∀ d ∈ r'.counts?, c.done ≤ d.done ∧ c.retries ≤ d.retries

/-- What a report says is not ahead of the tasks. -/
def Response.UpTo (r : Response) (ts : List Task) : Prop :=
  (∀ m ∈ r.accepted?, m ≤ ts.length) ∧
    ∀ c ∈ r.counts?, c.done ≤ ts.countP Task.done ∧ c.retries ≤ retriesOf ts

/-- Accepted, done and retried tasks only grow. -/
structure Broker.Climbs (s s' : Broker) : Prop where
  accepted : s.tasks.length ≤ s'.tasks.length
  done : s.tasks.countP Task.done ≤ s'.tasks.countP Task.done
  retries : retriesOf s.tasks ≤ retriesOf s'.tasks

theorem Atomic.climbs {now : ℕ} {s s' : Broker} {a : Act} (h : Atomic now s a s') : s.Climbs s' := by
  have touch : ∀ {pre post : List Task} {t u : Task} {es es' : List Event},
      (t.done = true → u.done = true) → t.attempts ≤ u.attempts →
      (Broker.mk (pre ++ t :: post) es).Climbs ⟨pre ++ u :: post, es'⟩ := by
    intro pre post t u es es' hd ha
    refine ⟨by simp, ?_, ?_⟩
    · simp only [List.countP_append, List.countP_cons]
      by_cases h : t.done = true <;> simp [h, hd]
    · simp only [retriesOf_touch]
      omega
  cases h with
  | wait | reject => exact ⟨le_rfl, le_rfl, le_rfl⟩
  | add => exact ⟨by simp [addTask, record], by simp [addTask, record, List.countP_append],
      by simp [addTask, record, retriesOf]⟩
  | expire => exact touch id le_rfl
  | claim => exact touch id (Nat.le_succ _)
  | ack => exact touch (fun _ => rfl) le_rfl

theorem handle_climbs {s : Broker} (hs : s.Numbered) (now : ℕ) (c : Call) :
    s.Climbs (handle now c s).2 := by
  obtain ⟨as, hrun, -⟩ := handle_run (g := ⟨now, [], s⟩) hs le_rfl c
  refine hrun.relation (R := fun g g' : Ghost => g.broker.Climbs g'.broker)
    (fun _ => ⟨le_rfl, le_rfl, le_rfl⟩) ?_ ?_
  · exact fun _ _ _ h h' => ⟨h.1.trans h'.1, h.2.trans h'.2, h.3.trans h'.3⟩
  · exact fun _ _ _ hst => hst.2.1.climbs

theorem ackLocked_text (now : ℕ) (id : Option ℤ) (w : String) (s : Broker) :
    ∃ text, (ackLocked now id w s).1.body = .text text := by
  unfold ackLocked
  cases id with
  | none => exact ⟨_, rfl⟩
  | some id =>
    simp only
    split
    · exact ⟨_, rfl⟩
    · split <;> exact ⟨_, rfl⟩

/-- **Only `/stats` and `/metrics` report**, and what they report is the state they leave. -/
theorem report_eq (now : ℕ) (c : Call) (s : Broker) :
    (∀ m ∈ (handle now c s).1.accepted?, m = (handle now c s).2.tasks.length) ∧
      ∀ d ∈ (handle now c s).1.counts?, d = counts (handle now c s).2.tasks := by
  unfold Response.accepted? Response.counts?
  rcases handle_cases now c s with
    ⟨text, code, -, heq⟩ | ⟨ms, n, -, heq⟩ | ⟨-, -, heq⟩ | ⟨-, heq⟩ | ⟨body, rfl | rfl, heq⟩
  · simp [heq, httpError]
  · simp [heq]
  · rcases claimLocked_cases now (c.req.get "worker") (reap now s) with
      ⟨pre, t, post, -, -, -, heq'⟩ | ⟨-, heq'⟩
    · simp [heq, heq']
    · simp [heq, heq']
  · obtain ⟨text, htext⟩ :=
      ackLocked_text now (atoi (c.req.get "id")) (c.req.get "worker") (reap now s)
    simp [heq, htext]
  · simp [heq, statsBody]
  · simp [heq]

/-- No report of the log is ahead of the tasks. -/
theorem upTo {h : Served} (hr : brokerLts.Reachable h) :
    ∀ x ∈ h.log, x.resp.UpTo h.broker.tasks := by
  refine Lts.Reachable.invariant (P := fun h : Served =>
    ∀ x ∈ h.log, x.resp.UpTo h.broker.tasks) ?_ ?_ hr
  · rintro _ rfl; simp
  · rintro h ⟨now, c⟩ h' hr ih ⟨-, rfl⟩ x hx
    rcases List.mem_append.1 hx with hx | hx
    · have hcl := handle_climbs (numbered (served_queue hr)) now c
      obtain ⟨h1, h2⟩ := ih x hx
      exact ⟨fun m hm => (h1 m hm).trans hcl.accepted,
        fun d hd => ⟨(h2 d hd).1.trans hcl.done, (h2 d hd).2.trans hcl.retries⟩⟩
    · obtain rfl := List.mem_singleton.1 hx
      obtain ⟨h1, h2⟩ := report_eq now c h.broker
      refine ⟨fun m hm => (h1 m hm).le, fun d hd => ?_⟩
      rw [h2 d hd, counts_eq]
      exact ⟨le_rfl, le_rfl⟩

/-- **Reports never go back.** -/
theorem reports_mono {h : Served} (hr : brokerLts.Reachable h) :
    h.log.Pairwise fun x y => x.resp.Before y.resp := by
  refine Lts.Reachable.invariant (P := fun h : Served =>
    h.log.Pairwise fun x y => x.resp.Before y.resp) ?_ ?_ hr
  · rintro _ rfl; exact .nil
  · rintro h ⟨now, c⟩ h' hr ih ⟨hclk, rfl⟩
    refine List.pairwise_append.2 ⟨ih, List.pairwise_singleton _ _, fun x hx y hy => ?_⟩
    obtain rfl := List.mem_singleton.1 hy
    obtain ⟨hup1, hup2⟩ := upTo (hr.step (a := (now, c)) ⟨hclk, rfl⟩) x (List.mem_append_left _ hx)
    obtain ⟨h1, h2⟩ := report_eq now c h.broker
    refine ⟨fun m hm n hn => ?_, fun d hd e he => ?_⟩
    · rw [h1 n hn]; exact hup1 m hm
    · rw [h2 e he, counts_eq]; exact hup2 d hd

/-- **Conservation.** In every reachable state of a broker whose acks carry a worker, the tasks
are numbered in list order, so that `tasks[id-1]` is the task with that number; each is
pending, in flight or completed; these counts are quantities of the event history; and along
the run what is reported of accepted, completed and retried tasks never decreases. -/
theorem conservation {h : Served} (hr : namedBrokerLts.Reachable h) :
    (h.broker.tasks.map Task.id = List.range' 1 h.broker.tasks.length ∧
      ∀ id, 1 ≤ id → id ≤ h.broker.tasks.length →
        ∃ t, h.broker.tasks[id - 1]? = some t ∧ t.id = id) ∧
    (counts h.broker.tasks).pending + (counts h.broker.tasks).inflight +
      (counts h.broker.tasks).done = h.broker.tasks.length ∧
    (counts h.broker.tasks).done = ofKind .ack h.broker.events ∧
    ((counts h.broker.tasks).inflight : ℤ) = ofKind .claim h.broker.events -
      ofKind .expired h.broker.events - ofKind .ack h.broker.events ∧
    ((counts h.broker.tasks).retries : ℤ) = ofKind .expired h.broker.events -
      h.broker.tasks.countP Task.lapsed ∧
    h.log.Pairwise fun x y => x.resp.Before y.resp := by
  have hn := safe_queue (safe_of_named hr)
  have hnum : h.broker.Numbered := numbered hn.of_restrict
  obtain ⟨h1, h2, h3⟩ : h.broker.Balanced := balanced hn
  rw [counts_eq]
  refine ⟨⟨hnum, fun id hlo hhi => ?_⟩, counts_total _, h1, ?_, ?_, reports_mono hr.of_restrict⟩
  · have hi : id - 1 < h.broker.tasks.length := by omega
    exact ⟨h.broker.tasks[id - 1], by simp [hi], by rw [hnum.get hi]; omega⟩
  · simp only; omega
  · simp only; omega

/-- A claim that expired and was made again, and one that is in flight. -/
def retried : List (ℕ × Call) :=
  [(0, enqueueCall 2 1), (1, claimCall "a"), (21 * second, claimCall "b"),
    (21 * second, claimCall "b"), (22 * second, ackCall 1 "b")]

theorem conservation_retried :
    (counts (serveAll retried {}).broker.tasks).pending +
      (counts (serveAll retried {}).broker.tasks).inflight +
      (counts (serveAll retried {}).broker.tasks).done = (serveAll retried {}).broker.tasks.length :=
  (conservation (reachable_named (by decide) (by decide))).2.1

end K8sDev.Queue

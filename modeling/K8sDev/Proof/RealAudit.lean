import K8sDev.Spec.Real
import K8sDev.Proof.ExactlyOnce

/-!
# What the audit of the queue experiment proves

`real` reads `/stats` once at the end and makes three assertions. Of a broker whose acks carry
a worker they say the same as its event log (`audit_iff_stories`): every task was enqueued,
claimed once and acknowledged by that claimant, and nothing else ever happened to it.

`audit_sound`: over the lossy network, a passed audit means that each task was worked on exactly
once, to its end, and by the worker it records, whatever was lost, delayed or killed.
-/

namespace K8sDev.Queue

open Lifecycle

/-! ## The counters -/

theorem done_eq_length {ts : List Task} :
    (counts ts).done = ts.length ↔ ∀ t ∈ ts, t.done = true := by
  rw [counts_eq]
  exact List.countP_eq_length

theorem retries_eq_zero {ts : List Task} :
    (counts ts).retries = 0 ↔ ∀ t ∈ ts, t.attempts ≤ 1 := by
  rw [counts_eq]
  show retriesOf ts = 0 ↔ _
  rw [retriesOf, List.sum_eq_zero_iff_forall_eq_nat, List.forall_mem_map]
  exact forall₂_congr fun t _ => by omega

/-- What the experiment waits for: nothing is left to do. -/
theorem drained_iff {s : Broker} {b : Stats} (hb : (statsBody s).stats? = some b) :
    b.drained = true ↔ ∀ t ∈ s.tasks, t.done = true := by
  obtain rfl := Option.some.inj hb
  have htotal := counts_total s.tasks
  have hdone := @done_eq_length s.tasks
  rw [counts_eq] at hdone
  simp only [Stats.drained, Bool.and_eq_true, beq_iff_eq, counts_eq] at hdone ⊢
  rw [← hdone]
  omega

/-! ## The audit and the event log -/

/-- The whole history of a task that was done at the first attempt. -/
def onceBy (w : String) : List (Mark String) := [.create, .claim w, .ack w]

/-- A done task with one attempt has no lost lease in its history. -/
theorem marks_onceBy {g : Ghost} (hn : namedLts.Reachable g) {t : Task} (ht : t ∈ g.broker.tasks) :
    t.done = true ∧ t.attempts = 1 ↔ ∃ w, marks g.broker.events t.id = onceBy w := by
  have hagrees := agrees hn t ht
  constructor
  · rintro ⟨hdone, hone⟩
    obtain ⟨ws, hws⟩ := replay_eq_some_iff.1 hagrees.phase
    have hphase : t.phase = .done t.worker := if_pos hdone
    have hclaims := hagrees.attempts
    rw [hws, hphase, hone] at hclaims
    refine ⟨t.worker, ?_⟩
    rw [hws, hphase]
    -- every lost lease was another claim
    have hlost : ws.length = 0 := by
      simp only [Phase.story, List.countP_cons, List.countP_append, countP_claim_lost,
        Mark.isClaim] at hclaims
      simpa using hclaims
    rw [List.length_eq_zero_iff.1 hlost]
    rfl
  · rintro ⟨w, hw⟩
    have hclaims := hagrees.attempts
    rw [hw] at hclaims
    have hack : Mark.ack w ∈ marks g.broker.events t.id := by simp [hw, onceBy]
    simp only [marks, List.mem_filterMap, List.mem_filter, beq_iff_eq] at hack
    obtain ⟨e, ⟨he, hid⟩, hmark⟩ := hack
    have hkind : e.kind = .ack ∧ e.worker = w := by
      cases hk : e.kind <;> simp [Event.mark?, hk] at hmark
      exact ⟨rfl, hmark⟩
    exact ⟨((acked_iff hn ht w).1 ⟨e, he, hkind.1, hid, hkind.2⟩).1,
      hclaims.symm.trans (by simp [onceBy, List.countP_cons, Mark.isClaim])⟩

variable {h : Served} {b : Stats}

/-- The two counters say as much as the tasks one by one. -/
theorem countersPass_iff (hr : namedBrokerLts.Reachable h)
    (hb : (statsBody h.broker).stats? = some b) : b.countersPass = true ↔ b.tasksPass = true := by
  obtain rfl := Option.some.inj hb
  have hn := safe_queue (safe_of_named hr)
  simp only [Stats.countersPass, Stats.tasksPass, Bool.and_eq_true, beq_iff_eq, List.all_eq_true,
    done_eq_length, retries_eq_zero]
  constructor
  · rintro ⟨hdone, hle⟩ t ht
    have hpos : 0 < t.attempts := attempts_pos hn ht (hdone t ht)
    have honce : t.attempts ≤ 1 := hle t ht
    exact ⟨hdone t ht, by omega⟩
  · intro hall
    exact ⟨fun t ht => (hall t ht).1, fun t ht => (hall t ht).2.le⟩

/-- **The audit reads the event log.** The assertions hold iff every task has the history of
one attempt that succeeded, and no `/ack` was ever rejected. -/
theorem audit_iff_stories (hr : namedBrokerLts.Reachable h)
    (hb : (statsBody h.broker).stats? = some b) :
    b.audit = true ↔
      (∀ t ∈ h.broker.tasks, ∃ w, marks h.broker.events t.id = onceBy w) ∧
        ∀ e ∈ h.broker.events, e.kind ≠ .rejectedAck := by
  have hn := safe_queue (safe_of_named hr)
  have hcounters := countersPass_iff hr hb
  have htasks : b.tasksPass = true ↔
      ∀ t ∈ h.broker.tasks, ∃ w, marks h.broker.events t.id = onceBy w := by
    obtain rfl := Option.some.inj hb
    simp only [Stats.tasksPass, List.all_eq_true, Bool.and_eq_true, beq_iff_eq]
    exact forall₂_congr fun t ht => marks_onceBy hn ht
  have hevents : b.eventsPass = true ↔ ∀ e ∈ h.broker.events, e.kind ≠ .rejectedAck := by
    obtain rfl := Option.some.inj hb
    simp [Stats.eventsPass, List.isEmpty_iff, List.filter_eq_nil_iff]
  simp only [Stats.audit, Bool.and_eq_true, hcounters, and_self, htasks, hevents]

/-- The audit in terms of the counters: everything is completed, nothing expired and nothing was
rejected. -/
theorem audit_iff_log (hr : namedBrokerLts.Reachable h)
    (hb : (statsBody h.broker).stats? = some b) :
    b.audit = true ↔ b.drained = true ∧
      ∀ e ∈ h.broker.events, e.kind ≠ .expired ∧ e.kind ≠ .rejectedAck := by
  have hn := safe_queue (safe_of_named hr)
  have hcounters := countersPass_iff hr hb
  have hdrained := drained_iff hb
  have hretries := (balanced hn).retries
  obtain rfl := Option.some.inj hb
  have hevents : ∀ k, ofKind k h.broker.events = 0 ↔ ∀ e ∈ h.broker.events, e.kind ≠ k := by
    intro k
    simp [ofKind, List.countP_eq_zero]
  have hrejected : Stats.eventsPass ⟨h.broker.tasks.length, counts h.broker.tasks, h.broker.tasks,
      h.broker.events⟩ = true ↔ ∀ e ∈ h.broker.events, e.kind ≠ .rejectedAck := by
    simp [Stats.eventsPass, List.isEmpty_iff, List.filter_eq_nil_iff]
  simp only [Stats.audit, Bool.and_eq_true, ← hcounters, and_self, hrejected, hdrained]
  simp only [Stats.countersPass, Bool.and_eq_true, beq_iff_eq, done_eq_length, and_assoc,
    forall₂_and]
  refine and_congr_right fun hdone => and_congr_left fun _ => ?_
  -- with everything done no lease has lapsed, so retries are expiries
  have hlapsed : h.broker.tasks.countP Task.lapsed = 0 := by
    rw [List.countP_eq_zero]
    intro t ht
    simp [Task.lapsed, Task.free, hdone t ht]
  have hcount : (counts h.broker.tasks).retries = retriesOf h.broker.tasks := by rw [counts_eq]
  rw [← hevents, hcount]
  have hbalance : retriesOf h.broker.tasks + 0 = ofKind .expired h.broker.events := hlapsed ▸ hretries
  omega

/-- **What the audit proves.** Of a broker whose acks carry a worker, the three assertions hold iff
the history of every task in the event log is one enqueue, one claim and one `/ack` of that
claimant, and no `/ack` was rejected; equally, iff nothing is pending or in flight and nothing
ever expired or was rejected. The assertion on the two counters implies the one on the tasks. -/
theorem audit_iff (hr : namedBrokerLts.Reachable h) (hb : (statsBody h.broker).stats? = some b) :
    (b.audit = true ↔ (∀ t ∈ h.broker.tasks, ∃ w, marks h.broker.events t.id = onceBy w) ∧
      ∀ e ∈ h.broker.events, e.kind ≠ .rejectedAck) ∧
    (b.audit = true ↔ b.drained = true ∧
      ∀ e ∈ h.broker.events, e.kind ≠ .expired ∧ e.kind ≠ .rejectedAck) ∧
    (b.countersPass = true → b.tasksPass = true) :=
  ⟨audit_iff_stories hr hb, audit_iff_log hr hb, (countersPass_iff hr hb).1⟩

/-- Two tasks done at the first attempt. -/
def smooth : List (ℕ × Call) :=
  [(0, enqueueCall 2 1), (1, claimCall "a"), (2, claimCall "b"), (1 * second, ackCall 1 "a"),
    (1 * second, ackCall 2 "b")]

theorem audit_iff_smooth :
    ∃ b, (statsBody (serveAll smooth {}).broker).stats? = some b ∧ b.audit = true := by
  have hr : namedBrokerLts.Reachable (serveAll smooth {}) := reachable_named (by decide) (by decide)
  exact ⟨_, rfl, (audit_iff hr rfl).2.1.2 ⟨by decide, by decide⟩⟩

/-! ## Over the network -/

variable {ι : Type} {host : ι → String} {w w' : World ι}

/-- Members with one image, where images differ. -/
theorem filter_eq_singleton {τ κ : Type} {f : τ → κ} {p : τ → Bool} {xs : List τ} {x : τ}
    (hnd : (xs.map f).Nodup) (hx : x ∈ xs) (hpx : p x = true)
    (hp : ∀ y ∈ xs, p y = true → f y = f x) : xs.filter p = [x] := by
  induction xs with
  | nil => cases hx
  | cons y ys ih =>
    rw [List.map_cons, List.nodup_cons] at hnd
    rcases List.mem_cons.1 hx with rfl | hx
    · have hnone : ys.filter p = [] := by
        rw [List.filter_eq_nil_iff]
        intro z hz hpz
        exact hnd.1 (List.mem_map.2 ⟨z, hz, hp z (List.mem_cons_of_mem x hz) hpz⟩)
      rw [List.filter_cons_of_pos hpx, hnone]
    · have hny : ¬p y = true := fun hpy => hnd.1 (List.mem_map.2
        ⟨x, hx, (hp y List.mem_cons_self hpy).symm⟩)
      rw [List.filter_cons_of_neg hny]
      exact ih hnd.2 hx fun z hz => hp z (List.mem_cons_of_mem y hz)

/-- A task with one attempt was only ever worked on under one claim. -/
theorem World.OK.task_unique (hw : w.OK host) {t : Task} (ht : t ∈ w.queue.broker.tasks)
    (hone : t.attempts = 1) {e e' : Exec ι} (he : e ∈ w.execs) (he' : e' ∈ w.execs)
    (hid : e.task.id = t.id) (hid' : e'.task.id = t.id) : e.task = e'.task := by
  have hchain : t.Chain (w.queue.ghost.leases t.id) := hw.ghost.chain t ht
  have hmem : ∀ x ∈ w.execs, x.task.id = t.id → x.task ∈ w.queue.ghost.leases t.id := fun x hx hxid =>
    List.mem_filter.2 ⟨(hw.execs x hx).granted, by simp [hxid]⟩
  have hlen : (w.queue.ghost.leases t.id).length = 1 := by
    have hattempts := congrArg List.length hchain.attempts
    simpa [hone] using hattempts
  obtain ⟨g, hg⟩ := List.length_eq_one_iff.1 hlen
  have h1 := hmem e he hid
  have h2 := hmem e' he' hid'
  rw [hg, List.mem_singleton] at h1 h2
  rw [h1, h2]

theorem step_stats [DecidableEq ι] (hst : w.step host (.client statsCall) = some w') :
    w' = { w with queue := serve w.now statsCall w.queue } ∧
      ∀ b, (handle w.now statsCall w.queue.broker).1.body.stats? = some b →
        (statsBody w'.queue.broker).stats? = some b := by
  have hw' : w' = { w with queue := serve w.now statsCall w.queue } := by
    simpa [World.step, statsCall, eq_comm] using hst
  subst hw'
  exact ⟨rfl, fun b hb => hb⟩

/-- **The audit is sound.** Read `/stats` at any point of a run over the lossy network in which
sleeps overshoot by at most 15 s. If the audit passes, every accepted task was worked on under
one claim only, by the worker it records, for its whole duration and before the `/ack` that
completed it. -/
theorem audit_sound [DecidableEq ι] (hr : (lossyLts host).Reachable w)
    (hst : w.step host (.client statsCall) = some w')
    (hb : (handle w.now statsCall w.queue.broker).1.body.stats? = some b)
    (haudit : b.audit = true) :
    ∀ t ∈ w'.queue.broker.tasks, ∃ e ev,
      w'.execs.filter (fun x => x.task.id == t.id) = [e] ∧ host e.proc = t.worker ∧
      ev ∈ w'.queue.broker.events ∧ ev.kind = .ack ∧ ev.id = t.id ∧ e.Full ev.time := by
  obtain ⟨hw', hstats⟩ := step_stats hst
  have hr' : (lossyLts host).Reachable w' := hr.step ⟨hst, by
    rw [hw']
    exact (World.OK.of_reachable hr).onTime⟩
  have hw := World.OK.of_reachable hr'
  have hn := safe_queue (safe_of_named hw.queue)
  have htasks : b.tasksPass = true := by
    simp only [Stats.audit, Bool.and_eq_true] at haudit
    exact haudit.1.2
  intro t ht
  have honce : t.done = true ∧ t.attempts = 1 := by
    obtain rfl := Option.some.inj (hstats b hb)
    simpa using List.all_eq_true.1 htasks t ht
  -- the `/ack` that completed it, and the work it was sent for
  obtain ⟨ev, hev, hk, hid, hwk⟩ := (acked_iff hn ht t.worker).2 ⟨honce.1, rfl⟩
  obtain ⟨e, he, hfull, hproc, heid⟩ := hw.acked ev hev hk
  have hetask : e.task.id = t.id := heid.trans hid
  refine ⟨e, ev, ?_, hproc.trans hwk, hev, hk, hid, hfull⟩
  refine filter_eq_singleton hw.once.execs he (by simp [hetask]) fun x hx hxid => ?_
  exact hw.task_unique ht honce.2 hx he (by simpa using hxid) hetask

/-- Two tasks and two consumers, one of them cancelled while it works, over the lossy network. -/
def overseen : World Bool :=
  (drain.foldlM (Lts.guard (World.step hosts)
    fun _ _ w => ∀ p, (w.pc p).OnTime (15 * second) w.now) {}).get (by decide)

theorem overseen_reachable : (lossyLts hosts).Reachable overseen :=
  Lts.reachable_of_exec drain (by decide)

theorem audit_sound_drain : ∃ w', overseen.step hosts (.client statsCall) = some w' ∧
    w'.queue.broker.tasks.length = 2 ∧ ∀ t ∈ w'.queue.broker.tasks,
      ∃ e, w'.execs.filter (fun x => x.task.id == t.id) = [e] ∧ hosts e.proc = t.worker := by
  refine ⟨_, rfl, by decide, fun t ht => ?_⟩
  obtain ⟨e, ev, hone, hproc, -⟩ := audit_sound overseen_reachable rfl rfl (by decide) t ht
  exact ⟨e, hone, hproc⟩

/-- **The audit is complete.** In runs without faults, with distinct host names, the audit passes
at every point where the experiment's wait is over. -/
theorem audit_complete [DecidableEq ι] (hinj : Function.Injective host) (hhost : ∀ p, host p ≠ "")
    (hr : (promptLts host).Reachable w) (hst : w.step host (.client statsCall) = some w')
    (hb : (handle w.now statsCall w.queue.broker).1.body.stats? = some b) :
    b.audit = true ↔ b.drained = true := by
  obtain ⟨hw', hstats⟩ := step_stats hst
  have hr' : (promptLts host).Reachable w' := hr.step ⟨hst, by
    rw [hw']
    exact ⟨id, (World.Settled.of_reachable hinj hhost hr).prompt⟩⟩
  have hw := World.Settled.of_reachable hinj hhost hr'
  rw [audit_iff_log hw.base.queue (hstats b hb)]
  exact and_iff_left hw.books.smooth.events

theorem audit_complete_drained :
    ∃ b, (handle drained.now statsCall drained.queue.broker).1.body.stats? = some b ∧
      b.audit = true :=
  ⟨_, rfl, (audit_complete hosts_injective (by decide) drained_reachable rfl rfl).2 (by decide)⟩

end K8sDev.Queue

import K8sDev.Proof.Leases
import K8sDev.Lease.Lifecycle

/-!
# The audit log and the tasks

The broker keeps one history twice: in the fields of each task and in the event list.
Read as marks, the events of a task are a history of the leased-item automaton
(`Lifecycle`), and the automaton's phase is what the task records.

`audit_log`: for every task, the events other than `rejected_ack` replay to the task.
-/

namespace K8sDev.Queue

open Lifecycle

/-- What an event says about its task. A rejected `/ack` says nothing. -/
def Event.mark? (e : Event) : Option (Mark String) :=
  match e.kind with
  | .enqueue => some .create
  | .claim => some (.claim e.worker)
  | .expired => some (.expire e.worker)
  | .ack => some (.ack e.worker)
  | .rejectedAck => none

/-- The events of one task other than `rejected_ack`, in order. -/
def marks (es : List Event) (id : ℕ) : List (Mark String) :=
  (es.filter fun e => e.id == id).filterMap Event.mark?

/-- Where a task stands, by its fields. -/
def Task.phase (t : Task) : Phase String :=
  if t.done then .done t.worker else if t.worker = "" then .free else .held t.worker

theorem marks_append (es es' : List Event) (id : ℕ) :
    marks (es ++ es') id = marks es id ++ marks es' id := by
  simp [marks]

theorem marks_singleton (e : Event) (id : ℕ) :
    marks [e] id = if e.id = id then e.mark?.toList else [] := by
  by_cases h : e.id = id
  · cases hm : e.mark? <;> simp [marks, h, hm]
  · simp [marks, h]

theorem phase_of_free {t : Task} (h : t.free = true) : t.phase = .free := by
  obtain ⟨hd, hw⟩ := free_iff.1 h
  simp [Task.phase, hd, hw]

theorem phase_of_held {t : Task} (hd : t.done = false) (hw : t.worker ≠ "") :
    t.phase = .held t.worker := by
  simp [Task.phase, hd, hw]

/-- The events of one kind about one task are the marks of that kind. -/
theorem countP_marks {p : Event → Bool} {q : Mark String → Bool}
    (hpq : ∀ e, p e = (e.mark?.map q).getD false) (es : List Event) (id : ℕ) :
    (marks es id).countP q = es.countP fun e => p e && e.id == id := by
  induction es with
  | nil => rfl
  | cons e es ih =>
    have hsplit : marks (e :: es) id = marks [e] id ++ marks es id := marks_append [e] es id
    rw [hsplit, List.countP_append, ih, marks_singleton, List.countP_cons, Nat.add_comm]
    congr 1
    rw [hpq e]
    cases hm : e.mark? <;> by_cases hid : e.id = id <;> simp [hid]

/-! ## One atomic step -/

/-- **What a step does to the history of each task**: nothing, or the one mark that moves the
task it is about. -/
theorem Atomic.history {now : ℕ} {s s' : Broker} {a : Act} (h : Atomic now s a s')
    (hs : s.Numbered) {x : Task} (hx : x ∈ s'.tasks) :
    (x ∈ s.tasks ∧ marks s'.events x.id = marks s.events x.id) ∨
    (∃ ms, x = { id := s.tasks.length + 1, durationMS := ms } ∧
      marks s'.events x.id = marks s.events x.id ++ [.create]) ∨
    ∃ t ∈ s.tasks, x.id = t.id ∧
      (t.expired now = true ∧ x = { t with worker := "" } ∧
          marks s'.events t.id = marks s.events t.id ++ [.expire t.worker] ∨
        (∃ w, t.free = true ∧ w ≠ "" ∧ x = t.grant now w ∧
          marks s'.events t.id = marks s.events t.id ++ [.claim w]) ∨
        a = .ack t ∧ t.done = false ∧ x = { t with done := true } ∧
          marks s'.events t.id = marks s.events t.id ++ [.ack t.worker]) := by
  cases h with
  | wait => exact .inl ⟨hx, rfl⟩
  | add _ ms =>
    rcases List.mem_append.1 hx with hx | hx
    · refine .inl ⟨hx, ?_⟩
      have hne : s.tasks.length + 1 ≠ x.id := by have := (hs.mem hx).2.1; omega
      simp [addTask, record, marks_append, marks_singleton, hne]
    · obtain rfl := List.mem_singleton.1 hx
      exact .inr (.inl ⟨ms, rfl, by simp [addTask, record, marks_append, marks_singleton, Event.mark?]⟩)
  | @expire pre post t es ht =>
    rcases hs.mem_touch hx with rfl | ⟨hx, hid⟩
    · exact .inr (.inr ⟨t, by simp, rfl, .inl ⟨ht, rfl, by
        simp [marks_append, marks_singleton, Event.mark?]⟩⟩)
    · exact .inl ⟨hx, by simp [marks_append, marks_singleton, Ne.symm hid]⟩
  | @claim pre post t es w hreap hpre ht hw =>
    rcases hs.mem_touch hx with rfl | ⟨hx, hid⟩
    · exact .inr (.inr ⟨t, by simp, rfl, .inr (.inl ⟨w, ht, hw, rfl, by
        simp [marks_append, marks_singleton, Event.mark?]⟩)⟩)
    · exact .inl ⟨hx, by simp [marks_append, marks_singleton, Ne.symm hid]⟩
  | @ack pre post t es hreap ht =>
    rcases hs.mem_touch hx with rfl | ⟨hx, hid⟩
    · exact .inr (.inr ⟨t, by simp, rfl, .inr (.inr ⟨rfl, ht, rfl, by
        simp [marks_append, marks_singleton, Event.mark?]⟩)⟩)
    · exact .inl ⟨hx, by simp [marks_append, marks_singleton, Ne.symm hid]⟩
  | reject =>
    exact .inl ⟨hx, by simp [record, marks_append, marks_singleton, Event.mark?]⟩

/-- Every event is about a stored task. -/
theorem event_known {g : Ghost} (h : queueLts.Reachable g) :
    ∀ e ∈ g.broker.events, ∃ t ∈ g.broker.tasks, t.id = e.id := by
  refine Lts.Reachable.invariant (P := fun g : Ghost =>
    ∀ e ∈ g.broker.events, ∃ t ∈ g.broker.tasks, t.id = e.id) ?_ ?_ h
  · rintro _ rfl; simp
  · rintro ⟨clock, gr, s⟩ ⟨now, a⟩ ⟨clock', gr', s'⟩ - ih ⟨-, hat, -⟩ e he
    have hold : e ∈ s.events → ∃ t ∈ s'.tasks, t.id = e.id := by
      intro he
      obtain ⟨t, ht, hte⟩ := ih e he
      obtain ⟨u, hu, hut, -⟩ := hat.grows t ht
      exact ⟨u, hu, hut.trans hte⟩
    cases hat with
    | wait => exact hold he
    | add =>
      rcases List.mem_append.1 he with he | he
      · exact hold he
      · obtain rfl := List.mem_singleton.1 he
        exact ⟨_, List.mem_append_right _ (List.mem_singleton_self _), rfl⟩
    | expire | claim | ack =>
      rcases List.mem_append.1 he with he | he
      · exact hold he
      · obtain rfl := List.mem_singleton.1 he
        exact ⟨_, List.mem_append_right _ List.mem_cons_self, rfl⟩
    | reject ht =>
      rcases List.mem_append.1 he with he | he
      · exact hold he
      · obtain rfl := List.mem_singleton.1 he
        exact ⟨_, ht, rfl⟩

theorem marks_new {g : Ghost} (h : queueLts.Reachable g) :
    marks g.broker.events (g.broker.tasks.length + 1) = [] := by
  simp only [marks, List.filterMap_eq_nil_iff, List.mem_filter, beq_iff_eq]
  rintro e ⟨he, heid⟩
  obtain ⟨t, ht, hte⟩ := event_known h e he
  have hle := ((numbered h).mem ht).2.1
  omega

/-! ## Creations and completions -/

/-- What the history of a task shows whoever completed it: that it was created, and one completion
if it is done. -/
structure Task.Logged (ms : List (Mark String)) (t : Task) : Prop where
  created : Mark.create ∈ ms
  acks : ms.countP Mark.isAck = if t.done then 1 else 0

/-- **Every task is logged**, also when a task nobody holds is completed by nobody. -/
theorem logged {g : Ghost} (h : queueLts.Reachable g) :
    ∀ t ∈ g.broker.tasks, t.Logged (marks g.broker.events t.id) := by
  refine Lts.Reachable.invariant (P := fun g : Ghost =>
    ∀ t ∈ g.broker.tasks, t.Logged (marks g.broker.events t.id)) ?_ ?_ h
  · rintro _ rfl; simp
  · rintro g ⟨now, a⟩ g' hr ih ⟨-, hat, -⟩ x hx
    rcases hat.history (numbered hr) hx with
      ⟨hx, hm⟩ | ⟨ms, rfl, hm⟩ | ⟨t, ht, hid, ⟨-, rfl, hm⟩ | ⟨w, -, -, rfl, hm⟩ | ⟨-, hd, rfl, hm⟩⟩
    · rw [hm]; exact ih x hx
    · rw [hm]
      simp only [marks_new hr]
      exact ⟨List.mem_cons_self, rfl⟩
    · obtain ⟨hcreated, hacks⟩ := ih t ht
      simp only
      rw [hm]
      exact ⟨List.mem_append_left _ hcreated, by simp [hacks, Mark.isAck]⟩
    · obtain ⟨hcreated, hacks⟩ := ih t ht
      rw [grant_id, hm]
      refine ⟨List.mem_append_left _ hcreated, ?_⟩
      rw [List.countP_append, hacks]
      rfl
    · obtain ⟨hcreated, hacks⟩ := ih t ht
      simp only
      rw [hm]
      rw [hd] at hacks
      exact ⟨List.mem_append_left _ hcreated, by simp [hacks, Mark.isAck]⟩

/-- A stored task was enqueued. -/
theorem enqueued {g : Ghost} (h : queueLts.Reachable g) {t : Task} (ht : t ∈ g.broker.tasks) :
    ∃ e ∈ g.broker.events, e.kind = .enqueue ∧ e.id = t.id := by
  have hcreate := (logged h t ht).created
  simp only [marks, List.mem_filterMap, List.mem_filter, beq_iff_eq] at hcreate
  obtain ⟨e, ⟨he, hid⟩, hmark⟩ := hcreate
  refine ⟨e, he, ?_, hid⟩
  cases hk : e.kind <;> simp [Event.mark?, hk] at hmark
  rfl

/-- A done task was acknowledged once, any other task never. -/
theorem acks_eq {g : Ghost} (h : queueLts.Reachable g) {t : Task} (ht : t ∈ g.broker.tasks) :
    (g.broker.events.countP fun e => e.kind == .ack && e.id == t.id) = if t.done then 1 else 0 := by
  rw [← (logged h t ht).acks]
  refine (countP_marks (fun e => ?_) _ _).symm
  cases hk : e.kind <;> simp [Event.mark?, hk, Mark.isAck]

/-- A task is done iff the log shows its completion. -/
theorem done_iff_acked {g : Ghost} (h : queueLts.Reachable g) {t : Task}
    (ht : t ∈ g.broker.tasks) :
    t.done = true ↔ ∃ e ∈ g.broker.events, e.kind = .ack ∧ e.id = t.id := by
  have hacks := acks_eq h ht
  constructor
  · intro hd
    rw [if_pos hd] at hacks
    have hpos : 0 < g.broker.events.countP fun e => e.kind == .ack && e.id == t.id := by omega
    simpa [List.countP_pos_iff] using hpos
  · rintro ⟨e, he, hack, hid⟩
    have hpos : 0 < g.broker.events.countP fun e => e.kind == .ack && e.id == t.id :=
      List.countP_pos_iff.2 ⟨e, he, by simp [hack, hid]⟩
    by_contra hd
    rw [if_neg hd] at hacks
    omega

/-! ## Tasks that are completed by somebody -/

/-- A task agrees with its history. -/
structure Task.Agrees (ms : List (Mark String)) (t : Task) : Prop where
  phase : replay ms = some t.phase
  attempts : ms.countP Mark.isClaim = t.attempts

/-- **The history of every task replays to the task**, when tasks are only completed by
somebody. -/
theorem agrees {g : Ghost} (h : namedLts.Reachable g) :
    ∀ t ∈ g.broker.tasks, t.Agrees (marks g.broker.events t.id) := by
  refine Lts.Reachable.invariant (P := fun g : Ghost =>
    ∀ t ∈ g.broker.tasks, t.Agrees (marks g.broker.events t.id)) ?_ ?_ h
  · rintro _ rfl; simp
  · rintro g ⟨now, a⟩ g' hr ih ⟨⟨-, hat, -⟩, hn⟩ x hx
    rcases hat.history (numbered hr.of_restrict) hx with
      ⟨hx, hm⟩ | ⟨ms, rfl, hm⟩ | ⟨t, ht, hid, ⟨he, rfl, hm⟩ | ⟨w, hf, hw, rfl, hm⟩ | ⟨rfl, hd, rfl, hm⟩⟩
    · rw [hm]; exact ih x hx
    · -- a new task has no events yet
      rw [hm]
      simp only [marks_new hr.of_restrict]
      exact ⟨rfl, rfl⟩
    · obtain ⟨hd, hw, -⟩ := expired_iff.1 he
      obtain ⟨hp, ha⟩ := ih t ht
      rw [phase_of_held hd hw] at hp
      simp only
      rw [hm]
      refine ⟨?_, by simp [ha, Mark.isClaim]⟩
      rw [replay_snoc hp, phase_of_free (by simp [Task.free, hd])]
      simp [Phase.next]
    · obtain ⟨hd, -⟩ := free_iff.1 hf
      obtain ⟨hp, ha⟩ := ih t ht
      rw [phase_of_free hf] at hp
      rw [grant_id, hm]
      refine ⟨?_, by simp [ha, Mark.isClaim]⟩
      rw [replay_snoc hp, phase_of_held (t := t.grant now w) hd hw]
      rfl
    · obtain ⟨hp, ha⟩ := ih t ht
      rw [phase_of_held hd hn] at hp
      simp only
      rw [hm]
      refine ⟨?_, by simp [ha, Mark.isClaim]⟩
      rw [replay_snoc hp]
      simp [Phase.next, Task.phase]

/-- The number of attempts is the number of claims in the log. -/
theorem attempts_eq {g : Ghost} (h : namedLts.Reachable g) {t : Task} (ht : t ∈ g.broker.tasks) :
    t.attempts = g.broker.events.countP fun e => e.kind == .claim && e.id == t.id := by
  rw [← (agrees h t ht).attempts]
  refine countP_marks (fun e => ?_) _ _
  cases hk : e.kind <;> simp [Event.mark?, hk, Mark.isClaim]

/-- A done task was claimed. -/
theorem attempts_pos {g : Ghost} (h : namedLts.Reachable g) {t : Task} (ht : t ∈ g.broker.tasks)
    (hd : t.done = true) : 0 < t.attempts := by
  obtain ⟨hp, ha⟩ := agrees h t ht
  obtain ⟨ws, hws⟩ := replay_eq_some_iff.1 hp
  have hdone : t.phase = .done t.worker := if_pos hd
  rw [← ha, hws, hdone]
  exact countP_claim_story_done ws t.worker

/-- **A task is done by whom the log says**, and only then. -/
theorem acked_iff {g : Ghost} (h : namedLts.Reachable g) {t : Task} (ht : t ∈ g.broker.tasks)
    (w : String) :
    (∃ e ∈ g.broker.events, e.kind = .ack ∧ e.id = t.id ∧ e.worker = w) ↔
      t.done = true ∧ t.worker = w := by
  obtain ⟨ws, hws⟩ := replay_eq_some_iff.1 (agrees h t ht).phase
  have hmem : Mark.ack w ∈ marks g.broker.events t.id ↔
      ∃ e ∈ g.broker.events, e.kind = .ack ∧ e.id = t.id ∧ e.worker = w := by
    simp only [marks, List.mem_filterMap, List.mem_filter, beq_iff_eq, and_assoc]
    refine exists_congr fun e => and_congr_right fun _ => ?_
    cases hk : e.kind <;> simp [Event.mark?, hk]
  rw [← hmem, hws, mem_ack_story]
  unfold Task.phase
  cases hd : t.done with
  | true => simp
  | false => by_cases hw : t.worker = "" <;> simp [hw]

/-! ## The audit log determines the queue -/

/-- **The audit log determines the queue.** In every run whose acks carry a worker, the events
of a task other than `rejected_ack` are its creation, the claims that expired, each with its
expiry, then possibly a claim that holds, and then possibly its completion. The task has as
many attempts as claims, is done iff it was acknowledged, and its worker is the last
claimant unless that claim expired; its number and duration stay what they were. -/
theorem audit_log {h : Served} (hr : namedBrokerLts.Reachable h) :
    (∀ id, (∀ t ∈ h.broker.tasks, t.id ≠ id) → marks h.broker.events id = []) ∧
    (∀ t ∈ h.broker.tasks,
      (∃ ws, marks h.broker.events t.id = t.phase.story ws) ∧
      t.attempts = h.broker.events.countP (fun e => e.kind == .claim && e.id == t.id) ∧
      (t.done = true ↔ ∃ e ∈ h.broker.events, e.kind = .ack ∧ e.id = t.id) ∧
      t.worker = (holder (marks h.broker.events t.id)).getD "") ∧
    (∀ as h', namedBrokerLts.Run h as h' → ∀ t ∈ h.broker.tasks,
      ∃ u, h'.broker.tasks[t.id - 1]? = some u ∧ u.id = t.id ∧ u.durationMS = t.durationMS) := by
  have hn := safe_queue (safe_of_named hr)
  refine ⟨?_, ?_, ?_⟩
  · intro id hid
    simp only [marks, List.filterMap_eq_nil_iff, List.mem_filter, beq_iff_eq]
    rintro e ⟨he, rfl⟩
    obtain ⟨t, ht, hte⟩ := event_known hn.of_restrict e he
    exact absurd hte (hid t ht)
  · intro t ht
    have hp : replay (marks h.broker.events t.id) = some t.phase := (agrees hn t ht).phase
    obtain ⟨ws, hws⟩ := replay_eq_some_iff.1 hp
    refine ⟨⟨ws, hws⟩, attempts_eq hn ht, done_iff_acked hn.of_restrict ht, ?_⟩
    rw [hws, holder_story]
    unfold Task.phase
    cases hd : t.done with
    | true => simp
    | false => by_cases hw : t.worker = "" <;> simp [hw]
  · intro as h' hrun t ht
    obtain ⟨u, hu, hid, hdur, -⟩ := run_grows hr.of_restrict hrun.of_restrict t ht
    have hnum := numbered (safe_queue (safe_of_named (hr.run hrun))).of_restrict
    exact ⟨u, hid ▸ (hnum.mem hu).2.2, hid, hdur⟩

/-- Three tasks: the first one expires once and is then completed, the second is held, and the
third waits; a duplicate `/ack` is rejected. -/
def audited : List (ℕ × Call) :=
  [(0, enqueueCall 3 1), (1, claimCall "a"), (21 * second, claimCall "b"),
    (21 * second, claimCall "a"), (22 * second, ackCall 1 "b"), (23 * second, ackCall 1 "b")]

theorem audit_log_audited :
    ∃ ws, marks (serveAll audited {}).broker.events 1 = (Phase.done "b").story ws := by
  have hr : namedBrokerLts.Reachable (serveAll audited {}) := reachable_named (by decide) (by decide)
  obtain ⟨⟨ws, hws⟩, -⟩ := (audit_log hr).2.1
    ⟨1, 1, "b", 2, 21 * second + (millisecond + 20 * second), true⟩ (by decide)
  exact ⟨ws, hws⟩

end K8sDev.Queue

import K8sDev.Spec.Plot
import K8sDev.Proof.Alone

/-!
# What the queue figure shows

A completed task has one `/ack` in the log, whoever sent it, so the events of a batch count its
tasks: the upper lines can be drawn exactly when both batches are completed, and at any time after
its start a line is at the number of tasks of its batch that were completed by then. The lower line
needs a sample between the first enqueue of the second batch and its last `/ack`.
-/

namespace K8sDev.Queue

variable {g : Ghost} {t : Task} {lo hi : ℕ}

/-- The `/ack`s of a kind are as many as the tasks that have one. -/
theorem countP_acks (hn : queueLts.Reachable g) (p : Event → Bool) :
    (g.broker.events.countP fun e => e.kind == .ack && p e) =
      g.broker.tasks.countP fun t =>
        g.broker.events.any fun e => e.kind == .ack && e.id == t.id && p e := by
  have hnumbered : g.broker.Numbered := numbered hn
  have hids : (g.broker.tasks.map Task.id).Nodup := hnumbered ▸ List.nodup_range'
  -- on both sides the numbers are without repetition, and they are the same
  suffices hperm : List.Perm ((g.broker.events.filter fun e => e.kind == .ack && p e).map Event.id)
      ((g.broker.tasks.filter fun t =>
        g.broker.events.any fun e => e.kind == .ack && e.id == t.id && p e).map Task.id) by
    have hlength := hperm.length_eq
    rwa [List.length_map, List.length_map, ← List.countP_eq_length_filter,
      ← List.countP_eq_length_filter] at hlength
  refine (List.perm_ext_iff_of_nodup ?_ ?_).2 fun id => ?_
  · -- no task has two
    refine List.nodup_iff_count_le_one.2 fun id => ?_
    rw [List.count, List.countP_map, List.countP_filter]
    by_cases hid : ∃ t ∈ g.broker.tasks, t.id = id
    · obtain ⟨t, ht, rfl⟩ := hid
      have hone := acks_eq hn ht
      have hle : (g.broker.events.countP fun e => e.kind == .ack && e.id == t.id) ≤ 1 := by
        rw [hone]
        split <;> omega
      refine (List.countP_mono_left fun e _ he => ?_).trans hle
      simp only [Function.comp_apply, Bool.and_eq_true, beq_iff_eq] at he ⊢
      exact ⟨he.2.1, he.1⟩
    · have hzero : g.broker.events.countP
          (fun e => ((fun x => x == id) ∘ Event.id) e && (e.kind == .ack && p e)) = 0 := by
        refine List.countP_eq_zero.2 fun e he hsome => ?_
        simp only [Function.comp_apply, Bool.and_eq_true, beq_iff_eq] at hsome
        obtain ⟨t, ht, hte⟩ := event_known hn e he
        exact hid ⟨t, ht, hte.trans hsome.1⟩
      omega
  · exact hids.sublist (List.filter_sublist.map Task.id)
  · simp only [List.mem_map, List.mem_filter, List.any_eq_true, Bool.and_eq_true, beq_iff_eq]
    constructor
    · rintro ⟨e, ⟨he, hack, hp⟩, rfl⟩
      obtain ⟨t, ht, hte⟩ := event_known hn e he
      exact ⟨t, ⟨ht, e, he, ⟨hack, hte.symm⟩, hp⟩, hte⟩
    · rintro ⟨t, ⟨-, e, he, ⟨hack, hid⟩, hp⟩, rfl⟩
      exact ⟨e, ⟨he, hack, hp⟩, hid⟩

/-! ## The size of a batch -/

theorem countP_range' (lo hi n : ℕ) (hlo : 1 ≤ lo) :
    (List.range' 1 n).countP (inBatch lo hi) = min hi n + 1 - lo := by
  induction n with
  | zero => simp; omega
  | succ n ih =>
    rw [List.range'_1_concat, List.countP_append, ih, List.countP_singleton]
    unfold inBatch
    split
    · rename_i hin
      simp only [Bool.and_eq_true, decide_eq_true_eq] at hin
      omega
    · rename_i hout
      simp only [Bool.and_eq_true, decide_eq_true_eq] at hout
      omega

theorem countP_batch (hs : g.broker.Numbered) (hlo : 1 ≤ lo) (hi : ℕ) :
    (g.broker.tasks.countP fun t => inBatch lo hi t.id) =
      min hi g.broker.tasks.length + 1 - lo := by
  have hmap : (g.broker.tasks.countP fun t => inBatch lo hi t.id) =
      (g.broker.tasks.map Task.id).countP (inBatch lo hi) := by
    rw [List.countP_map]
    rfl
  have hids : g.broker.tasks.map Task.id = List.range' 1 g.broker.tasks.length := hs
  rw [hmap, hids, countP_range' lo hi _ hlo]

/-- Whether a task was completed by some time. -/
def doneBy (events : List Event) (stamp : ℕ → ℚ) (time : ℚ) (t : Task) : Bool :=
  events.any fun e => e.kind == .ack && e.id == t.id && decide (stamp e.time ≤ time)

variable {stamp : ℕ → ℚ}

theorem countP_batchCompleted (hn : queueLts.Reachable g) (start : ℚ) (p : ℚ → Bool) :
    (batchCompleted stamp lo hi start g.broker.events).countP p =
      g.broker.tasks.countP fun t => inBatch lo hi t.id && g.broker.events.any fun e =>
        e.kind == .ack && e.id == t.id && p (stamp e.time - start) := by
  unfold batchCompleted batchEvents
  rw [(List.mergeSort_perm _ _).countP_eq, List.countP_map, List.filter_filter, List.countP_filter]
  have hacks := countP_acks hn fun e => inBatch lo hi e.id && p (stamp e.time - start)
  refine Eq.trans (List.countP_congr fun e _ => ?_) (hacks.trans (List.countP_congr fun t _ => ?_))
  · simp only [Function.comp_apply, Bool.and_eq_true]
    tauto
  · simp only [Bool.and_eq_true, List.any_eq_true, beq_iff_eq]
    constructor
    · rintro ⟨e, he, ⟨hack, hid⟩, hin, hp⟩
      exact ⟨hid ▸ hin, e, he, ⟨hack, hid⟩, hp⟩
    · rintro ⟨hin, e, he, ⟨hack, hid⟩, hp⟩
      exact ⟨e, he, ⟨hack, hid⟩, hid.symm ▸ hin, hp⟩

theorem length_batchCompleted (hn : queueLts.Reachable g) (start : ℚ) :
    (batchCompleted stamp lo hi start g.broker.events).length =
      g.broker.tasks.countP fun t => inBatch lo hi t.id && t.done := by
  rw [← List.countP_true, countP_batchCompleted hn]
  refine List.countP_congr fun t ht => ?_
  have hdone := done_iff_acked hn ht
  simp [hdone]

/-! ## The lines -/

/-- **When a line can be drawn**: all tasks of the batch are there and done. -/
theorem batchLine_isSome (hn : queueLts.Reachable g) (stamp : ℕ → ℚ) (hlo : 1 ≤ lo)
    (hsize : hi + 1 = lo + 80) :
    (batchLine stamp lo hi g.broker.events).isSome ↔ hi ≤ g.broker.tasks.length ∧
      ∀ t ∈ g.broker.tasks, inBatch lo hi t.id = true → t.done = true := by
  have hnumbered : g.broker.Numbered := numbered hn
  have hbatch := countP_batch hnumbered hlo hi
  have hlength : ∀ start, (batchCompleted stamp lo hi start g.broker.events).length = 80 ↔
      hi ≤ g.broker.tasks.length ∧
        ∀ t ∈ g.broker.tasks, inBatch lo hi t.id = true → t.done = true := by
    intro start
    have hfilter : (g.broker.tasks.countP fun t => inBatch lo hi t.id && t.done) =
        (g.broker.tasks.filter fun t => inBatch lo hi t.id).countP Task.done := by
      rw [List.countP_filter]
      exact List.countP_congr fun t _ => by simp [and_comm]
    have hall := List.countP_eq_length (p := Task.done)
      (l := g.broker.tasks.filter fun t => inBatch lo hi t.id)
    have hle := List.countP_le_length (p := Task.done)
      (l := g.broker.tasks.filter fun t => inBatch lo hi t.id)
    rw [← List.countP_eq_length_filter] at hall hle
    simp only [List.mem_filter, and_imp] at hall
    rw [length_batchCompleted hn, hfilter, ← hall]
    omega
  unfold batchLine
  cases hstart : batchStart stamp lo hi g.broker.events with
  | some start =>
    rw [← hlength start, Option.bind_some]
    simp only [List.length_cons, List.length_range]
    split <;> simp <;> omega
  | none =>
    rw [Option.bind_none]
    refine iff_of_false (by simp) fun hdone => ?_
    -- a batch that is there was enqueued
    have hpos : lo - 1 < g.broker.tasks.length := by omega
    obtain ⟨t, ht, hid⟩ : ∃ t ∈ g.broker.tasks, t.id = lo := by
      refine ⟨g.broker.tasks[lo - 1], List.getElem_mem hpos, ?_⟩
      rw [hnumbered.get]
      omega
    obtain ⟨e, he, hkind, heid⟩ := enqueued hn ht
    have hin : inBatch lo hi e.id = true := by
      rw [heid, hid]
      simp [inBatch]
      omega
    have hnil := List.min?_eq_none_iff.1 hstart
    rw [List.map_eq_nil_iff, List.filter_eq_nil_iff] at hnil
    exact hnil e (List.mem_filter.2 ⟨he, hin⟩) (by simp [hkind])

/-- The times at which the tasks of a batch were enqueued. -/
def enqueueStamps (stamp : ℕ → ℚ) (events : List Event) (lo hi : ℕ) : Set ℚ :=
  {x | ∃ e ∈ events, e.kind = .enqueue ∧ inBatch lo hi e.id = true ∧ stamp e.time = x}

theorem isLeast_batchStart {events : List Event} {start : ℚ}
    (h : batchStart stamp lo hi events = some start) :
    IsLeast (enqueueStamps stamp events lo hi) start := by
  obtain ⟨hmem, hle⟩ := List.min?_eq_some_iff.1 h
  refine ⟨?_, ?_⟩
  · simpa [enqueueStamps, batchEvents, and_assoc, and_left_comm] using hmem
  · rintro _ ⟨e, he, hkind, hin, rfl⟩
    exact hle _ (List.mem_map.2 ⟨e, by simp [batchEvents, he, hkind, hin], rfl⟩)

/-- What a line shows of the tasks of its batch. -/
def Shows (stamp : ℕ → ℚ) (s : Broker) (lo hi : ℕ) (points : List (ℚ × ℕ)) : Prop :=
  ∃ start, IsLeast (enqueueStamps stamp s.events lo hi) start ∧
    ∀ x, 0 ≤ x → Steps.valueAt points x =
      some (s.tasks.countP fun t => inBatch lo hi t.id && doneBy s.events stamp (start + x) t)

theorem sorted_batchCompleted (stamp : ℕ → ℚ) (lo hi : ℕ) (start : ℚ) (events : List Event) :
    (batchCompleted stamp lo hi start events).Pairwise (· ≤ ·) :=
  List.pairwise_mergeSort' (· ≤ ·) _

theorem batchLine_shows (hn : queueLts.Reachable g) {points : List (ℚ × ℕ)}
    (h : batchLine stamp lo hi g.broker.events = some points) :
    Shows stamp g.broker lo hi points := by
  obtain ⟨start, hstart, h⟩ := Option.bind_eq_some_iff.1 h
  dsimp only at h
  split at h
  · rename_i hlength
    obtain rfl := Option.some.inj h
    refine ⟨start, isLeast_batchStart hstart, fun x hx => ?_⟩
    have hsorted := sorted_batchCompleted stamp lo hi start g.broker.events
    have hrange : 81 = (batchCompleted stamp lo hi start g.broker.events).length + 1 := by
      simpa using hlength.symm
    rw [hrange, Steps.valueAt_zip_range hsorted hx, countP_batchCompleted hn]
    congr 1
    refine List.countP_congr fun t _ => ?_
    simp [doneBy, add_comm]
  · cases h

/-! ## The samples -/

variable {events : List Event} {rows : List Row}

/-- The row was sampled while the batch was worked on: between its first `/enqueue` and its last
`/ack`. -/
def Row.Within (stamp : ℕ → ℚ) (events : List Event) (lo hi : ℕ) (r : Row) : Prop :=
  r.stage = some "real-hpa-batch" ∧ r.deployment.isSome ∧
    (∃ e ∈ events, e.kind = .enqueue ∧ inBatch lo hi e.id = true ∧ stamp e.time ≤ stamp r.time) ∧
    ∃ e ∈ events, e.kind = .ack ∧ inBatch lo hi e.id = true ∧ stamp r.time ≤ stamp e.time

instance (stamp : ℕ → ℚ) (events : List Event) (lo hi : ℕ) (r : Row) :
    Decidable (r.Within stamp events lo hi) := by
  unfold Row.Within
  infer_instance

theorem mem_batchCompleted {start x : ℚ} : x ∈ batchCompleted stamp lo hi start events ↔
    ∃ e ∈ events, e.kind = .ack ∧ inBatch lo hi e.id = true ∧ stamp e.time - start = x := by
  unfold batchCompleted batchEvents
  simp only [List.mem_mergeSort, List.mem_map, List.mem_filter, beq_iff_eq]
  constructor
  · rintro ⟨e, ⟨⟨he, hin⟩, hack⟩, hx⟩
    exact ⟨e, he, hack, hin, hx⟩
  · rintro ⟨e, he, hack, hin, hx⟩
    exact ⟨e, ⟨⟨he, hin⟩, hack⟩, hx⟩

/-- The places of the figure bound the rows by the two ends of the batch. -/
theorem sampled_iff {start last : ℚ} (hstart : batchStart stamp lo hi events = some start)
    (hlast : (batchCompleted stamp lo hi start events).getLast? = some last) (r : Row) :
    r.sampled stamp start last = true ↔ r.Within stamp events lo hi := by
  obtain ⟨⟨e₀, he₀, hkind₀, hin₀, htime₀⟩, hleast⟩ := isLeast_batchStart hstart
  obtain ⟨hmem, hgreatest⟩ :=
    Steps.isGreatest_getLast? (sorted_batchCompleted stamp lo hi start events) hlast
  obtain ⟨e₁, he₁, hack₁, hin₁, htime₁⟩ := mem_batchCompleted.1 hmem
  have hfrom : 0 ≤ stamp r.time - start ↔ ∃ e ∈ events, e.kind = .enqueue ∧
      inBatch lo hi e.id = true ∧ stamp e.time ≤ stamp r.time := by
    rw [sub_nonneg]
    constructor
    · exact fun hle => ⟨e₀, he₀, hkind₀, hin₀, htime₀.le.trans hle⟩
    · rintro ⟨e, he, hkind, hin, hle⟩
      exact (hleast ⟨e, he, hkind, hin, rfl⟩).trans hle
  have hto : stamp r.time - start ≤ last ↔ ∃ e ∈ events, e.kind = .ack ∧
      inBatch lo hi e.id = true ∧ stamp r.time ≤ stamp e.time := by
    constructor
    · intro hle
      exact ⟨e₁, he₁, hack₁, hin₁, by linarith⟩
    · rintro ⟨e, he, hack, hin, hle⟩
      have hbound : stamp e.time - start ≤ last :=
        hgreatest (mem_batchCompleted.2 ⟨e, he, hack, hin, rfl⟩)
      linarith
  simp only [Row.sampled, Row.Within, Bool.and_eq_true, beq_iff_eq, decide_eq_true_eq, hfrom, hto,
    and_assoc]

/-- What the lower line shows: a curve, at the ready Pods of the last sample up to a time, and at
one before the first of them. -/
def ShowsReady (stamp : ℕ → ℚ) (events : List Event) (lo hi : ℕ) (rows : List Row)
    (points : List (ℚ × ℕ)) : Prop :=
  ((rows.Pairwise fun r r' => stamp r.time ≤ stamp r'.time) →
    points.Pairwise fun p q => p.1 ≤ q.1) ∧
  ∃ start, IsLeast (enqueueStamps stamp events lo hi) start ∧
    ∀ x, 0 ≤ x → Steps.valueAt points x = some (((rows.filter fun r =>
      decide (r.Within stamp events lo hi) && decide (stamp r.time ≤ start + x)).getLast?.map
        Row.ready).getD 1)

theorem readyLine_shows {points : List (ℚ × ℕ)}
    (h : readyLine stamp lo hi events rows = some points) :
    ShowsReady stamp events lo hi rows points := by
  obtain ⟨start, hstart, h⟩ := Option.bind_eq_some_iff.1 h
  obtain ⟨last, hlast, h⟩ := Option.bind_eq_some_iff.1 h
  obtain ⟨p, hp, rfl⟩ := Option.map_eq_some_iff.1 h
  have hplaces : ∀ q ∈ samples stamp start last rows, 0 ≤ q.1 ∧ q.1 ≤ last := by
    intro q hq
    obtain ⟨r, hr, rfl⟩ := List.mem_map.1 hq
    have hsampled := (List.mem_filter.1 hr).2
    simp only [Row.sampled, Bool.and_eq_true, decide_eq_true_eq] at hsampled
    exact hsampled.2
  have hpmem : p ∈ samples stamp start last rows := List.mem_of_getLast? hp
  refine ⟨fun hsorted => ?_, start, isLeast_batchStart hstart, fun x hx => ?_⟩
  · rw [List.cons_append, List.pairwise_cons, List.pairwise_append]
    refine ⟨fun q hq => ?_, ?_, List.pairwise_singleton _ _, fun q hq q' hq' => ?_⟩
    · rcases List.mem_append.1 hq with hq | hq
      · exact (hplaces q hq).1
      · obtain rfl := List.mem_singleton.1 hq
        exact (hplaces p hpmem).1.trans (hplaces p hpmem).2
    · refine List.pairwise_map.2 ((hsorted.sublist List.filter_sublist).imp fun hle => ?_)
      exact sub_le_sub_right hle start
    · obtain rfl := List.mem_singleton.1 hq'
      exact (hplaces q hq).2
  · have hrows : (samples stamp start last rows).filter (fun q => q.1 ≤ x) =
        (rows.filter fun r => decide (r.Within stamp events lo hi) &&
          decide (stamp r.time ≤ start + x)).map fun r => (stamp r.time - start, r.ready) := by
      rw [samples, List.filter_map, List.filter_filter]
      congr 1
      refine List.filter_congr fun r _ => ?_
      rw [Bool.eq_iff_iff]
      simp only [Function.comp_apply, Bool.and_eq_true, decide_eq_true_eq,
        sampled_iff hstart hlast r, sub_le_iff_le_add']
      exact and_comm
    rw [List.cons_append, Steps.valueAt_cons hx,
      Steps.valueAt_hold hp (fun q hq => (hplaces q hq).2), Steps.valueAt, hrows, List.getLast?_map,
      Option.map_map]
    rfl

theorem readyLine_isSome {points : List (ℚ × ℕ)}
    (hbatch : batchLine stamp lo hi events = some points) :
    (readyLine stamp lo hi events rows).isSome ↔ ∃ r ∈ rows, r.Within stamp events lo hi := by
  obtain ⟨start, hstart, h⟩ := Option.bind_eq_some_iff.1 hbatch
  dsimp only at h
  split at h
  · rename_i hlength
    obtain ⟨last, hlast⟩ : ∃ last,
        (batchCompleted stamp lo hi start events).getLast? = some last := by
      refine Option.isSome_iff_exists.1 (List.getLast?_isSome.2 fun hnil => ?_)
      rw [hnil] at hlength
      simp at hlength
    have hpoints : (readyLine stamp lo hi events rows).isSome ↔
        samples stamp start last rows ≠ [] := by
      simp [readyLine, hstart, hlast]
    rw [hpoints, samples, ne_eq, List.map_eq_nil_iff, List.filter_eq_nil_iff]
    simp only [sampled_iff hstart hlast, not_forall, not_not, exists_prop]
  · cases h

/-! ## The figure -/

theorem figure_eq_some {fig : Figure} : figure stamp events rows = some fig ↔
    batchLine stamp 1 80 events = some fig.fixed ∧
      batchLine stamp 81 160 events = some fig.hpa ∧
      readyLine stamp 81 160 events rows = some fig.ready := by
  obtain ⟨fixed, hpa, ready⟩ := fig
  unfold figure
  cases batchLine stamp 1 80 events <;> cases batchLine stamp 81 160 events <;>
    cases readyLine stamp 81 160 events rows <;> simp

theorem figure_isSome : (figure stamp events rows).isSome ↔
    (batchLine stamp 1 80 events).isSome ∧ (batchLine stamp 81 160 events).isSome ∧
      ∃ r ∈ rows, r.Within stamp events 81 160 := by
  cases hfixed : batchLine stamp 1 80 events with
  | none => simp [figure, hfixed]
  | some fixed =>
    cases hhpa : batchLine stamp 81 160 events with
    | none => simp [figure, hfixed, hhpa]
    | some hpa =>
      rw [← readyLine_isSome hhpa]
      cases hready : readyLine stamp 81 160 events rows <;> simp [figure, hfixed, hhpa, hready]

/-- **What the figure shows**, whoever called the broker. It can be drawn exactly when the first
160 tasks are there and done and a sample was taken while the second batch was worked on. Each
upper line then counts the tasks of its batch: at any time after the first of them was enqueued, it
is at the number of those that were completed by then. The lower line is at the ready Pods of the
last sample. -/
theorem figure_exact {h : Served} (hr : brokerLts.Reachable h) (stamp : ℕ → ℚ) (rows : List Row) :
    ((figure stamp h.broker.events rows).isSome ↔
      (160 ≤ h.broker.tasks.length ∧ ∀ t ∈ h.broker.tasks, t.id ≤ 160 → t.done = true) ∧
        ∃ r ∈ rows, r.Within stamp h.broker.events 81 160) ∧
    ∀ fig, figure stamp h.broker.events rows = some fig →
      Shows stamp h.broker 1 80 fig.fixed ∧ Shows stamp h.broker 81 160 fig.hpa ∧
        ShowsReady stamp h.broker.events 81 160 rows fig.ready := by
  have hn := served_queue hr
  have hnumbered : h.ghost.broker.Numbered := numbered hn
  constructor
  · have hfixed := batchLine_isSome hn stamp le_rfl (rfl : 80 + 1 = 1 + 80)
    have hhpa := batchLine_isSome hn stamp (by omega) (rfl : 160 + 1 = 81 + 80)
    rw [figure_isSome, ← and_assoc]
    refine and_congr_left fun _ => (and_congr hfixed hhpa).trans ⟨?_, ?_⟩
    · rintro ⟨⟨-, hfirst⟩, hlen, hsecond⟩
      refine ⟨hlen, fun t ht hle => ?_⟩
      have hpos := (hnumbered.mem ht).1
      by_cases hid : t.id ≤ 80
      · exact hfirst t ht (by simp [inBatch, hpos, hid])
      · exact hsecond t ht (by simp [inBatch, hle]; omega)
    · rintro ⟨hlen, hdone⟩
      have hof : ∀ lo hi, hi ≤ 160 → ∀ t ∈ h.ghost.broker.tasks, inBatch lo hi t.id = true →
          t.done = true := by
        intro lo hi hhi t ht hin
        simp only [inBatch, Bool.and_eq_true, decide_eq_true_eq] at hin
        exact hdone t ht (by omega)
      exact ⟨⟨(by omega : 80 ≤ 160).trans hlen, hof 1 80 (by omega)⟩, hlen, hof 81 160 le_rfl⟩
  · intro fig hfigure
    obtain ⟨hfixed, hhpa, hready⟩ := figure_eq_some.1 hfigure
    exact ⟨batchLine_shows hn hfixed, batchLine_shows hn hhpa, readyLine_shows hready⟩

/-- Enough turns complete everything, and nothing goes away. -/
theorem turns_complete {h : Served} {worker : String} {paces : List Pace}
    (hr : brokerLts.Reachable h) (hsettled : h.broker.Settled) (hworker : worker ≠ "")
    (hpaces : ∀ p ∈ paces, p.overhead ≤ 20 * second)
    (henough : (undone h.broker).length ≤ paces.length) :
    brokerLts.Reachable (turns worker paces h) ∧
      (turns worker paces h).broker.tasks.length = h.broker.tasks.length ∧
      h.broker.events <+: (turns worker paces h).broker.events ∧
      ∀ t ∈ (turns worker paces h).broker.tasks, t.done = true := by
  obtain ⟨as, hrun⟩ := turns_run worker paces h
  obtain ⟨hundone, hlength⟩ := turns_undone hr hworker paces (hsettled.idle _) hpaces
  rw [List.drop_eq_nil_of_le henough] at hundone
  exact ⟨hr.run hrun, hlength, run_events hr hrun,
    (@undone_eq_nil _ (turns worker paces h).broker.events).1 hundone⟩

/-- Two batches of 80 tasks of one second. -/
def twoBatches : Served := serveAll [(0, enqueueCall 80 1000), (0, enqueueCall 80 1000)] {}

/-- A sample taken when the second batch was enqueued. -/
def firstSample : Row := ⟨0, some "real-hpa-batch", some { readyReplicas := some 1 }⟩

/-- The figure of a run in which one consumer does both batches. -/
theorem figure_exact_twoBatches : (figure (fun n => n)
    (turns "a" (List.replicate 160 ⟨1, 1, 1, 1⟩) twoBatches).broker.events [firstSample]).isSome := by
  have hsettled : twoBatches.broker.Settled := by
    unfold Broker.Settled
    decide +kernel
  have hlen : twoBatches.broker.tasks.length = 160 := by decide +kernel
  have hundone : (undone twoBatches.broker).length = 160 := by decide +kernel
  have hstart : brokerLts.Reachable twoBatches := reachable_calls (by decide)
  have hpaces : ∀ p ∈ List.replicate 160 (Pace.mk 1 1 1 1), p.overhead ≤ 20 * second := by
    intro p hp
    rw [List.eq_of_mem_replicate hp]
    decide
  have henough : (undone twoBatches.broker).length ≤
      (List.replicate 160 (Pace.mk 1 1 1 1)).length := by
    rw [hundone, List.length_replicate]
  obtain ⟨hr, hlength, hevents, hdone⟩ :=
    turns_complete hstart hsettled (show "a" ≠ "" by decide) hpaces henough
  rw [hlen] at hlength
  have henqueue : twoBatches.broker.events[80]? = some ⟨0, .enqueue, 81, ""⟩ := by decide +kernel
  have hlater := hevents.subset (List.mem_of_getElem? henqueue)
  obtain ⟨h, hh⟩ : ∃ h, h = turns "a" (List.replicate 160 ⟨1, 1, 1, 1⟩) twoBatches := ⟨_, rfl⟩
  rw [← hh] at hr hlength hdone hlater ⊢
  -- the second batch has an ack, after the sample
  have hplace : 80 < h.broker.tasks.length := by omega
  have hmem := List.getElem_mem hplace
  obtain ⟨e, he, hack, hid⟩ := (done_iff_acked (served_queue hr) hmem).1 (hdone _ hmem)
  have hnumbered : h.broker.Numbered := numbered (served_queue hr)
  rw [hnumbered.get hplace] at hid
  have hwithin : firstSample.Within (fun n => (n : ℚ)) h.broker.events 81 160 :=
    ⟨rfl, rfl, ⟨_, hlater, rfl, rfl, le_rfl⟩, e, he, hack, by rw [hid]; rfl, Nat.cast_nonneg e.time⟩
  exact (figure_exact hr _ _).1.2
    ⟨⟨hlength.ge, fun t ht _ => hdone t ht⟩, firstSample, List.mem_cons_self, hwithin⟩

end K8sDev.Queue

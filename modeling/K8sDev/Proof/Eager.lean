import K8sDev.Spec.Eager
import K8sDev.Proof.Leases

/-!
# Lazy reaping is eager expiry

A lease past its deadline that `reap` has not visited yet is not observable: every handler
that looks at holders reaps first. The tasks of the reference are those of the broker with
the expired leases released (`Sim`), each handler keeps this and answers alike
(`sim_step`), hence so does every sequence of requests (`lazy_eq_eager`).
-/

namespace K8sDev.Queue

/-- Nothing is left to release at `now`. -/
def Swept (now : ℕ) (ts : List Task) : Prop := ∀ t ∈ ts, t.expired now = false

/-- **The simulation**: the reference holds the tasks of the broker, with the leases that have
expired by its clock released. -/
def Sim (s : Broker) (e : Eager) : Prop := e.broker.tasks = s.tasks.map (Task.release e.clock)

theorem map_release_of_swept {now : ℕ} {ts : List Task} (h : Swept now ts) :
    ts.map (Task.release now) = ts := by
  rw [List.map_congr_left fun t ht => release_of_not_expired (h t ht)]
  simp

/-- Releasing later releases more. -/
theorem release_release {c c' : ℕ} (h : c ≤ c') (t : Task) :
    (t.release c).release c' = t.release c' := by
  cases hc : t.expired c with
  | false => rw [release_of_not_expired hc]
  | true =>
    obtain ⟨hd, hw, hdl⟩ := expired_iff.1 hc
    have hc' : t.expired c' = true := expired_iff.2 ⟨hd, hw, by omega⟩
    have hfree : Task.expired c' { t with worker := "" } = false := by simp [Task.expired]
    rw [release_of_expired hc, release_of_expired hc', release_of_not_expired hfree]

theorem tick_clock (n : ℕ) (e : Eager) : (Eager.tick^[n] e).clock = e.clock + n := by
  induction n with
  | zero => rfl
  | succ n ih => rw [Function.iterate_succ_apply', Eager.tick, ih, Nat.add_assoc]

/-- As time passes, the reference releases exactly the leases that `reap` would. -/
theorem tick_sim {s : Broker} {e : Eager} (h : Sim s e) (n : ℕ) : Sim s (Eager.tick^[n] e) := by
  induction n with
  | zero => exact h
  | succ n ih =>
    rw [Function.iterate_succ_apply']
    set e' := Eager.tick^[n] e
    show e'.broker.tasks.map (Task.release (e'.clock + 1)) = s.tasks.map (Task.release (e'.clock + 1))
    rw [show e'.broker.tasks = s.tasks.map (Task.release e'.clock) from ih, List.map_map]
    exact List.map_congr_left fun t _ => release_release (Nat.le_succ _) t

theorem advance_clock {e : Eager} {now : ℕ} (h : e.clock ≤ now) : (e.advance now).clock = now := by
  rw [Eager.advance, tick_clock]; omega

/-- At the next request the reference holds the tasks that `reap` would leave. -/
theorem advance_tasks {s : Broker} {e : Eager} {now : ℕ} (hs : Sim s e) (h : e.clock ≤ now) :
    (e.advance now).broker.tasks = (reap now s).tasks := by
  have := tick_sim hs (now - e.clock)
  rw [Sim, tick_clock, show e.clock + (now - e.clock) = now by omega] at this
  exact this

/-- A state without expired leases is its own reference. -/
theorem sim_of_swept {s : Broker} {e : Eager} (h : Swept e.clock s.tasks)
    (ht : e.broker.tasks = s.tasks) : Sim s e := by
  rw [Sim, map_release_of_swept h, ht]

/-! ## The handlers only look at the tasks -/

/-- A new task is never expired, so `/enqueue` does not need to reap. -/
theorem addTasks_release (now ms : ℕ) : ∀ (n : ℕ) (s s' : Broker),
    s'.tasks = s.tasks.map (Task.release now) →
    (addTasks now ms n s').tasks = (addTasks now ms n s).tasks.map (Task.release now) ∧
      (addTasks now ms n s').tasks.length = (addTasks now ms n s).tasks.length := by
  intro n
  induction n with
  | zero => intro s s' h; exact ⟨h, by rw [addTasks, addTasks, h, List.length_map]⟩
  | succ n ih =>
    intro s s' h
    refine ih (addTask now ms s) (addTask now ms s') ?_
    simp only [addTask, record, List.map_append, List.map_cons, List.map_nil]
    rw [h, List.length_map, release_of_not_expired (by simp [Task.expired])]

theorem claimLocked_congr (now : ℕ) (w : String) {s s' : Broker} (h : s'.tasks = s.tasks) :
    (claimLocked now w s').1 = (claimLocked now w s).1 ∧
      (claimLocked now w s').2.tasks = (claimLocked now w s).2.tasks := by
  unfold claimLocked
  rw [h]
  cases grantFirst now w s.tasks <;> simp [record, h]

theorem claimLocked_swept {now : ℕ} {w : String} {s : Broker} (h : Swept now s.tasks) :
    Swept now (claimLocked now w s).2.tasks := by
  rcases claimLocked_cases now w s with ⟨pre, t, post, hts, -, -, heq⟩ | ⟨-, heq⟩
  · rw [heq]
    intro x hx
    rw [Swept, hts] at h
    simp only [List.mem_append, List.mem_cons] at h hx
    rcases hx with hx | rfl | hx
    · exact h x (.inl hx)
    · -- the new lease runs
      simp [Task.expired]
    · exact h x (.inr (.inr hx))
  · rw [heq]; exact h

theorem ackLocked_congr (now : ℕ) (id : Option ℤ) (w : String) {s s' : Broker}
    (h : s'.tasks = s.tasks) :
    (ackLocked now id w s').1 = (ackLocked now id w s).1 ∧
      (ackLocked now id w s').2.tasks = (ackLocked now id w s).2.tasks := by
  obtain ⟨ts, es⟩ := s
  obtain ⟨ts', es'⟩ := s'
  obtain rfl : ts' = ts := h
  unfold ackLocked
  cases id with
  | none => exact ⟨rfl, rfl⟩
  | some id =>
    simp only
    split
    · exact ⟨rfl, rfl⟩
    · split <;> exact ⟨rfl, rfl⟩

theorem ackLocked_swept {now : ℕ} {id : Option ℤ} {w : String} {s : Broker}
    (h : Swept now s.tasks) : Swept now (ackLocked now id w s).2.tasks := by
  unfold ackLocked
  cases id with
  | none => exact h
  | some id =>
    simp only
    split
    · exact h
    · split
      · exact h
      · intro x hx
        rcases List.mem_or_eq_of_mem_set hx with hx | rfl
        · exact h x hx
        · simp [Task.expired]

/-- **One request.** Related states answer alike and stay related. -/
theorem sim_step {s : Broker} {e : Eager} {now : ℕ} (hs : Sim s e) (h : e.clock ≤ now) (c : Call) :
    (handle now c s).1.observe = (Eager.handle now c e).1.observe ∧
      Sim (handle now c s).2 (Eager.handle now c e).2 := by
  have htasks := advance_tasks hs h
  have hclk := advance_clock h
  have hswept : Swept now (reap now s).tasks := reap_expired now s
  -- a request that changes no task
  have hsim : ∀ s' : Broker, s'.tasks = s.tasks ∨ s'.tasks = (reap now s).tasks →
      Sim s' ⟨(e.advance now).clock, (e.advance now).broker⟩ := by
    rintro s' (heq | heq)
    · show (e.advance now).broker.tasks = s'.tasks.map (Task.release (e.advance now).clock)
      rw [htasks, hclk, heq]; rfl
    · exact sim_of_swept (by rw [heq, hclk]; exact hswept) (by rw [heq]; exact htasks)
  obtain ⟨path, r⟩ := c
  cases path with
  | enqueue =>
    simp only [handle, Eager.handle, Eager.answer, enqueue]
    split
    · exact ⟨rfl, hsim _ (.inl rfl)⟩
    · split
      · split
        · exact ⟨rfl, hsim _ (.inl rfl)⟩
        · rename_i n ms _ _ _
          obtain ⟨h1, h2⟩ := addTasks_release now ms.toNat n.toNat s (e.advance now).broker htasks
          refine ⟨by simp [Response.observe, h2], ?_⟩
          show _ = _
          rw [hclk]; exact h1
      · exact ⟨rfl, hsim _ (.inl rfl)⟩
  | claim =>
    simp only [handle, Eager.handle, Eager.answer, claim]
    split
    · exact ⟨rfl, hsim _ (.inl rfl)⟩
    · split
      · exact ⟨rfl, hsim _ (.inl rfl)⟩
      · obtain ⟨h1, h2⟩ := claimLocked_congr now (r.get "worker") htasks
        refine ⟨by rw [h1], sim_of_swept ?_ h2⟩
        rw [hclk]; exact claimLocked_swept hswept
  | ack =>
    simp only [handle, Eager.handle, Eager.answer, ack]
    split
    · exact ⟨rfl, hsim _ (.inl rfl)⟩
    · obtain ⟨h1, h2⟩ := ackLocked_congr now (atoi (r.get "id")) (r.get "worker") htasks
      refine ⟨by rw [h1], sim_of_swept ?_ h2⟩
      rw [hclk]; exact ackLocked_swept hswept
  | stats =>
    refine ⟨?_, hsim _ (.inr rfl)⟩
    simp [handle, Eager.handle, Eager.answer, stats, statsBody, Response.observe, htasks]
  | metrics =>
    refine ⟨?_, hsim _ (.inr rfl)⟩
    simp [handle, Eager.handle, Eager.answer, metrics, Response.observe, htasks]

/-- The clock of the reference after a request is that of the request. -/
theorem handle_clock {e : Eager} {now : ℕ} (h : e.clock ≤ now) (c : Call) :
    (Eager.handle now c e).2.clock = now :=
  advance_clock h

/-- An acknowledgement that is refused changes nothing but the log, and that only when it
is stale. -/
theorem ackLocked_refused {now : ℕ} {id : Option ℤ} {w : String} {s : Broker}
    (h : 400 ≤ (ackLocked now id w s).1.code) :
    (ackLocked now id w s).2 = s ∨
      (ackLocked now id w s).1.code = 409 ∧
        ∃ n : ℕ, id = some (n : ℤ) ∧ (ackLocked now id w s).2 = record now .rejectedAck n w s := by
  unfold ackLocked at h ⊢
  cases id with
  | none => exact .inl rfl
  | some id =>
    simp only at h ⊢
    split at h
    · rename_i hid
      rw [dif_pos hid]
      exact .inl rfl
    · rename_i hid
      rw [dif_neg hid]
      split at h
      · rename_i hst
        rw [if_pos hst]
        exact .inr ⟨rfl, id.toNat, by rw [Int.toNat_of_nonneg (by omega)], rfl⟩
      · simp at h

/-- A refused request leaves the reference where the clock brought it. -/
theorem answer_refused {now : ℕ} {c : Call} {s : Broker}
    (h : 400 ≤ (Eager.answer now c s).1.code) :
    (Eager.answer now c s).2 = s ∨
      c.path = .ack ∧ (Eager.answer now c s).1.code = 409 ∧
        ∃ n : ℕ, atoi (c.req.get "id") = some (n : ℤ) ∧
          (Eager.answer now c s).2 = record now .rejectedAck n (c.req.get "worker") s := by
  obtain ⟨path, r⟩ := c
  cases path with
  | enqueue =>
    simp only [Eager.answer, enqueue] at h ⊢
    split
    · exact .inl rfl
    · rename_i hm
      rw [if_neg hm] at h
      split
      · rename_i n ms hn hms
        simp only [hn, hms] at h
        split
        · exact .inl rfl
        · rename_i hr
          rw [if_neg hr] at h
          simp at h
      · exact .inl rfl
  | claim =>
    simp only [Eager.answer] at h ⊢
    split
    · exact .inl rfl
    · rename_i hm
      split
      · exact .inl rfl
      · rename_i hw
        -- past its checks a claim is never refused
        rw [if_neg hm, if_neg hw] at h
        unfold claimLocked at h
        split at h <;> simp at h
  | ack =>
    simp only [Eager.answer] at h ⊢
    split
    · exact .inl rfl
    · rename_i hm
      rw [if_neg hm] at h
      -- only a rejected acknowledgement leaves a trace
      rcases ackLocked_refused h with heq | ⟨hcode, n, hid, heq⟩
      · exact .inl heq
      · exact .inr ⟨trivial, hcode, n, hid, heq⟩
  | stats => exact .inl rfl
  | metrics => exact .inl rfl

/-- **Lazy reaping is eager expiry.** The broker and the reference answer every sequence of
requests on a nondecreasing clock alike, and a request the reference refuses leaves it as the
clock brought it, up to one `rejected_ack` for a stale acknowledgement. -/
theorem lazy_eq_eager :
    (∀ calls : List (ℕ × Call), calls.Pairwise (fun a b => a.1 ≤ b.1) →
      (lazyBroker.outputs {} calls).map Response.observe =
        (eagerBroker.outputs {} calls).map Response.observe) ∧
      ∀ (e : Eager) (now : ℕ) (c : Call), 400 ≤ (Eager.handle now c e).1.code →
        (Eager.handle now c e).2 = e.advance now ∨
          c.path = .ack ∧ (Eager.handle now c e).1.code = 409 ∧
            ∃ n : ℕ, atoi (c.req.get "id") = some (n : ℤ) ∧
              (Eager.handle now c e).2 =
                { e.advance now with
                  broker := record now .rejectedAck n (c.req.get "worker") (e.advance now).broker } := by
  refine ⟨?_, ?_⟩
  · intro calls hsorted
    refine Mealy.map_outputs_eq Sim (fun e a => e.clock ≤ a.1) ?_ rfl ?_
    · intro s e a hs hok
      exact sim_step hs hok a.2
    · refine Mealy.admits_of_sorted Eager.clock (fun e a h => h)
        (fun e a h => handle_clock h a.2) calls {} ?_ hsorted
      intro a _
      exact Nat.zero_le _
  · intro e now c h
    rcases answer_refused h with heq | ⟨hp, hcode, n, hid, heq⟩
    · exact .inl (congrArg (Eager.mk (e.advance now).clock) heq)
    · exact .inr ⟨hp, hcode, n, hid, congrArg (Eager.mk (e.advance now).clock) heq⟩

/-- Four requests: a claim, a look at its deadline, one a nanosecond later, and a stale
acknowledgement. -/
def lapsing : List (ℕ × Call) :=
  [(0, enqueueCall 1 5), (1, claimCall "a"), (1 + 20005 * millisecond, ⟨.stats, "GET", []⟩),
    (2 + 20005 * millisecond, ⟨.metrics, "GET", []⟩), (2 + 20005 * millisecond, ackCall 1 "a")]

/-- The lease counts as held at its deadline and as released a nanosecond later, and the
acknowledgement is refused. -/
theorem lazy_eq_eager_lapsing :
    (lazyBroker.outputs {} lapsing).map Response.observe =
        (eagerBroker.outputs {} lapsing).map Response.observe ∧
      (lazyBroker.outputs {} lapsing).map Response.code = [200, 200, 200, 200, 409] :=
  ⟨lazy_eq_eager.1 lapsing (by decide), by decide⟩

end K8sDev.Queue

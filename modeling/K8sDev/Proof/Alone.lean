import K8sDev.Proof.RealAudit

/-!
# A consumer alone drains the queue

When nobody else claims, one turn of `consumer` whose requests and sleep take at most 20 s beyond
the task completes the first task that is not done (`turn_cases`), so `n` turns complete the first
`n` of them, in the order of their numbers (`drains`). Who has called before does not matter.
-/

namespace K8sDev.Queue

variable {h : Served} {worker : String} {now : ℕ} {pace : Pace}

/-- The numbers of the tasks that are not done, in order. -/
def undone (s : Broker) : List ℕ := (s.tasks.filter fun t => !t.done).map Task.id

/-- Every lease that was not completed is over at `now`. -/
def Broker.Idle (now : ℕ) (s : Broker) : Prop :=
  ∀ t ∈ s.tasks, t.done = false → t.worker = "" ∨ t.deadline < now

theorem undone_eq_nil {ts : List Task} {es : List Event} :
    undone ⟨ts, es⟩ = [] ↔ ∀ t ∈ ts, t.done = true := by
  simp [undone, List.filter_eq_nil_iff]

theorem undone_reap (now : ℕ) (s : Broker) : undone (reap now s) = undone s := by
  have hdone : (fun t : Task => !t.done) ∘ Task.release now = fun t : Task => !t.done :=
    funext fun t => congrArg not (release_done now t)
  have hid : Task.id ∘ Task.release now = Task.id := funext fun t => release_id now t
  simp only [undone, reap, List.filter_map, List.map_map, hdone, hid]

theorem handle_claimCall_eq (hw : worker ≠ "") (now : ℕ) (s : Broker) :
    handle now (claimCall worker) s = claimLocked now worker (reap now s) := by
  simp [handle, claimCall, claim, Request.get, hw]

theorem handle_ackCall_eq (id : ℕ) (worker : String) (now : ℕ) (s : Broker) :
    handle now (ackCall id worker) s = ackLocked now (some (id : ℤ)) worker (reap now s) := by
  obtain ⟨hid, hworker⟩ := ackCall_get id worker
  have hpost : (ackCall id worker).req.method = "POST" := rfl
  have hack : handle now (ackCall id worker) s = ack now (ackCall id worker).req s := rfl
  rw [hack, ack, hid, hworker, hpost]
  rfl

/-- What is left over after a reap when nobody is at work. -/
theorem Broker.Idle.free {s : Broker} (hi : s.Idle now) : ∀ t ∈ (reap now s).tasks, t.free = !t.done := by
  intro t ht
  obtain ⟨u, hu, rfl⟩ := List.mem_map.1 ht
  cases hdone : u.done with
  | true => simp [Task.free, release_done, hdone]
  | false =>
    have hworker : (u.release now).worker = "" := by
      rw [release_worker]
      split
      · rfl
      · rename_i hexp
        rcases hi u hu hdone with hw | hover
        · exact hw
        · by_contra hw
          exact hexp (expired_iff.2 ⟨hdone, hw, hover⟩)
    simp [Task.free, release_done, hdone, hworker]

/-- A task stands at one place only. -/
theorem Broker.Numbered.split_unique {pre post pre' post' : List Task} {u : Task}
    {es : List Event} (hs : (Broker.mk (pre ++ u :: post) es).Numbered)
    (heq : pre ++ u :: post = pre' ++ u :: post') : pre' = pre ∧ post' = post := by
  have hids : (pre ++ u :: post).map Task.id = List.range' 1 (pre ++ u :: post).length := hs
  have hnd : (pre ++ u :: post).Nodup := List.Nodup.of_map Task.id (hids ▸ List.nodup_range')
  rw [List.nodup_append, List.nodup_cons] at hnd
  have hpre : u ∉ pre := fun hu => hnd.2.2 u hu u List.mem_cons_self rfl
  have hpost : u ∉ post := hnd.2.1.1
  obtain ⟨h₁, -, h₂⟩ := (List.append_cons_inj_of_notMem hpre hpost).1 heq
  exact ⟨h₁.symm, h₂.symm⟩

/-- **Acknowledging in time.** The claimed task is completed, and nothing else is touched. -/
theorem ack_in_time {pre post : List Task} {t : Task} {es : List Event} {later : ℕ}
    (hs : (Broker.mk (pre ++ t :: post) es).Numbered) (hdone : t.done = false)
    (htime : later ≤ t.deadline)
    (hothers : ∀ x ∈ pre ++ post, x.done = false → x.worker = "") :
    (handle later (ackCall t.id t.worker) ⟨pre ++ t :: post, es⟩).2.tasks =
      pre ++ { t with done := true } :: post := by
  -- no lease is over yet
  have hreap : reap later ⟨pre ++ t :: post, es⟩ = ⟨pre ++ t :: post, es⟩ := by
    refine reap_of_not_expired fun x hx => ?_
    rw [Bool.eq_false_iff]
    intro hexp
    obtain ⟨hxdone, hxworker, hxover⟩ := expired_iff.1 hexp
    have hsplit : x = t ∨ x ∈ pre ++ post := by
      simp only [List.mem_append, List.mem_cons] at hx ⊢
      tauto
    rcases hsplit with rfl | hx
    · omega
    · exact hxworker (hothers x hx hxdone)
  rw [handle_ackCall_eq, hreap]
  rcases ackLocked_cases hs later (some (t.id : ℤ)) t.worker with
    ⟨hnone, -⟩ | ⟨pre', u, post', htasks, hid, hcase⟩
  · exact absurd rfl (hnone t (by simp))
  · -- the number finds the task itself
    have hut : u = t := hs.inj (by rw [htasks]; simp) (by simp)
      (by simpa [eq_comm] using hid)
    subst hut
    obtain ⟨rfl, rfl⟩ := hs.split_unique htasks
    rcases hcase with ⟨hbad, -⟩ | ⟨-, -, heq⟩
    · rcases hbad with hbad | hbad
      · rw [hdone] at hbad
        cases hbad
      · exact absurd rfl hbad
    · rw [heq]

/-- No lease is outstanding: every task that is not done is pending. -/
def Broker.Settled (s : Broker) : Prop := ∀ t ∈ s.tasks, t.done = false → t.worker = ""

theorem Broker.Settled.idle {s : Broker} (hs : s.Settled) (now : ℕ) : s.Idle now :=
  fun t ht hdone => .inl (hs t ht hdone)

theorem claim_run (worker : String) {now : ℕ} {h : Served} (hclock : h.clock ≤ now) :
    brokerLts.Run h [(now, claimCall worker)] (serve now (claimCall worker) h) :=
  .single ⟨hclock, rfl⟩

/-- A turn is a run of two calls at most. -/
theorem turn_run (worker : String) (pace : Pace) (h : Served) :
    ∃ as, brokerLts.Run h as (turn worker pace h) := by
  have hclaim := claim_run worker (Nat.le_add_right h.clock pace.pause)
  unfold turn
  dsimp only
  split
  · rename_i t _
    refine ⟨_, hclaim.snoc (a := (h.clock + pace.pause + pace.response +
      (t.duration + pace.oversleep) + pace.request, ackCall t.id worker)) ⟨?_, rfl⟩⟩
    rw [serve_clock]
    show h.clock + pace.pause ≤ h.clock + pace.pause + pace.response +
      (t.duration + pace.oversleep) + pace.request
    omega
  · exact ⟨_, hclaim⟩

theorem turns_run (worker : String) (paces : List Pace) (h : Served) :
    ∃ as, brokerLts.Run h as (turns worker paces h) := by
  induction paces generalizing h with
  | nil => exact ⟨[], .nil h⟩
  | cons p paces ih =>
    obtain ⟨as, hturn⟩ := turn_run worker p h
    obtain ⟨bs, hrest⟩ := ih (turn worker p h)
    exact ⟨as ++ bs, hturn.append hrest⟩

/-- What the claim of a turn comes to, when nobody is at work: the first task that is not done is
granted, or everything is done. -/
theorem claim_cases (hs : h.broker.Numbered) (hworker : worker ≠ "") (hidle : h.broker.Idle now) :
    (∃ pre t post, (reap now h.broker).tasks = pre ++ t :: post ∧ t.done = false ∧
      (∀ x ∈ pre, x.done = true) ∧ (∀ x ∈ pre ++ post, x.done = false → x.worker = "") ∧
      granted (claimCall worker) (handle now (claimCall worker) h.broker).1 =
        some (t.grant now worker) ∧
      (handle now (claimCall worker) h.broker).2 = ⟨pre ++ t.grant now worker :: post,
        (reap now h.broker).events ++ [⟨now, .claim, t.id, worker⟩]⟩) ∨
    ((∀ t ∈ (reap now h.broker).tasks, t.done = true) ∧
      granted (claimCall worker) (handle now (claimCall worker) h.broker).1 = none ∧
      (handle now (claimCall worker) h.broker).2 = reap now h.broker) := by
  have hfree := hidle.free
  rw [handle_claimCall_eq hworker]
  rcases claimLocked_cases now worker (reap now h.broker) with
    ⟨pre, t, post, htasks, hpre, ht, heq⟩ | ⟨hnone, heq⟩
  · have hpos : t.id ≠ 0 := by
      have hmem : t ∈ (reap now h.broker).tasks := by rw [htasks]; simp
      have := ((hs.reap now).mem hmem).1
      omega
    refine .inl ⟨pre, t, post, htasks, (free_iff.1 ht).1, fun x hx => ?_, fun x hx hxdone => ?_,
      ?_, by rw [heq]⟩
    · -- what is passed over is done
      have hxfree := hfree x (by rw [htasks]; exact List.mem_append_left _ hx)
      rw [hpre x hx] at hxfree
      simpa using hxfree.symm
    · have hxmem : x ∈ (reap now h.broker).tasks := by
        rw [htasks]
        simp only [List.mem_append, List.mem_cons] at hx ⊢
        tauto
      exact (free_iff.1 ((hfree x hxmem).trans (by rw [hxdone]; rfl))).2
    · rw [heq]
      exact if_neg hpos
  · refine .inr ⟨fun t ht => ?_, ?_, by rw [heq]⟩
    · have htfree := hfree t ht
      rw [hnone t ht] at htfree
      simpa using htfree.symm
    · rw [heq]
      rfl

/-- **One turn, by cases.** The first task that is not done is completed, or everything is done. -/
theorem turn_cases (hr : brokerLts.Reachable h) (hworker : worker ≠ "")
    (hidle : h.broker.Idle (h.clock + pace.pause)) (hpace : pace.overhead ≤ 20 * second) :
    (∃ pre t post, (reap (h.clock + pace.pause) h.broker).tasks = pre ++ t :: post ∧
      t.done = false ∧ (∀ x ∈ pre, x.done = true) ∧
      (∀ x ∈ pre ++ post, x.done = false → x.worker = "") ∧
      (turn worker pace h).broker.tasks =
        pre ++ { t.grant (h.clock + pace.pause) worker with done := true } :: post) ∨
    ((∀ t ∈ (reap (h.clock + pace.pause) h.broker).tasks, t.done = true) ∧
      (turn worker pace h).broker = reap (h.clock + pace.pause) h.broker) := by
  obtain ⟨now, hnow⟩ : ∃ now, now = h.clock + pace.pause := ⟨_, rfl⟩
  rw [← hnow] at hidle ⊢
  have hnum : h.broker.Numbered := numbered (served_queue hr)
  rcases claim_cases hnum hworker hidle with
    ⟨pre, t, post, htasks, hdone, hpre, hothers, hgranted, hbroker⟩ | ⟨hdone, hgranted, hbroker⟩
  · refine .inl ⟨pre, t, post, htasks, hdone, hpre, hothers, ?_⟩
    have hnumGranted : (Broker.mk (pre ++ t.grant now worker :: post)
        ((reap now h.broker).events ++ [⟨now, .claim, t.id, worker⟩])).Numbered := by
      have hserved := hr.run (claim_run worker (show h.clock ≤ now by omega))
      rw [← hbroker]
      exact numbered (served_queue hserved)
    have htime : now + pace.response + (t.duration + pace.oversleep) + pace.request ≤
        (t.grant now worker).deadline := by
      have hdur : t.duration = t.durationMS * millisecond := rfl
      have hsum : pace.response + pace.oversleep + pace.request ≤ 20 * second := hpace
      show _ ≤ now + (t.durationMS * millisecond + 20 * second)
      omega
    have hturn : turn worker pace h =
        serve (now + pace.response + (t.duration + pace.oversleep) + pace.request)
          (ackCall t.id worker) (serve now (claimCall worker) h) := by
      simp only [turn, ← hnow, hgranted]
      rfl
    have hclaimed : (serve now (claimCall worker) h).broker =
        ⟨pre ++ t.grant now worker :: post,
          (reap now h.broker).events ++ [⟨now, .claim, t.id, worker⟩]⟩ := hbroker
    rw [hturn]
    show (handle _ _ (serve now (claimCall worker) h).broker).2.tasks = _
    rw [hclaimed]
    exact ack_in_time hnumGranted hdone htime hothers
  · refine .inr ⟨hdone, ?_⟩
    have hturn : turn worker pace h = serve now (claimCall worker) h := by
      simp only [turn, ← hnow, hgranted]
    rw [hturn]
    exact hbroker

/-- **One turn** completes the first task that is not done and leaves no lease behind. -/
theorem turn_step (hr : brokerLts.Reachable h) (hworker : worker ≠ "")
    (hidle : h.broker.Idle (h.clock + pace.pause)) (hpace : pace.overhead ≤ 20 * second) :
    (turn worker pace h).broker.Settled ∧
      undone (turn worker pace h).broker = (undone h.broker).tail := by
  rw [← undone_reap (h.clock + pace.pause) h.broker]
  rcases turn_cases hr hworker hidle hpace with
    ⟨pre, t, post, htasks, hdone, hpre, hothers, hafter⟩ | ⟨hall, hafter⟩
  · constructor
    · intro x hx hxdone
      rw [hafter] at hx
      rcases List.mem_append.1 hx with hx | hx
      · exact hothers x (List.mem_append_left _ hx) hxdone
      · rcases List.mem_cons.1 hx with rfl | hx
        · cases hxdone
        · exact hothers x (List.mem_append_right _ hx) hxdone
    · have hpredone : pre.filter (fun x => !x.done) = [] :=
        List.filter_eq_nil_iff.2 fun x hx => by simp [hpre x hx]
      simp [undone, hafter, htasks, List.filter_append, hpredone, hdone]
  · rw [hafter]
    constructor
    · intro x hx hxdone
      rw [hall x hx] at hxdone
      cases hxdone
    · have hnil : undone (reap (h.clock + pace.pause) h.broker) = [] := undone_eq_nil.2 hall
      rw [hnil]
      rfl

/-- A turn adds no task. -/
theorem turn_length (hr : brokerLts.Reachable h) (hworker : worker ≠ "")
    (hidle : h.broker.Idle (h.clock + pace.pause)) (hpace : pace.overhead ≤ 20 * second) :
    (turn worker pace h).broker.tasks.length = h.broker.tasks.length := by
  have hreap : (reap (h.clock + pace.pause) h.broker).tasks.length = h.broker.tasks.length :=
    List.length_map _
  rcases turn_cases hr hworker hidle hpace with ⟨pre, t, post, htasks, -, -, -, hafter⟩ | ⟨-, hafter⟩
  · rw [hafter, ← hreap, htasks]
    simp only [List.length_append, List.length_cons]
  · rw [hafter, hreap]

/-- **A run of turns** completes that many tasks, and adds none. The first may meet leases that
others left behind; after it there are none. -/
theorem turns_undone (hr : brokerLts.Reachable h) (hworker : worker ≠ "") (paces : List Pace)
    (hfirst : h.broker.Idle (h.clock + (paces.head?.map Pace.pause).getD 0))
    (hpaces : ∀ p ∈ paces, p.overhead ≤ 20 * second) :
    undone (turns worker paces h).broker = (undone h.broker).drop paces.length ∧
      (turns worker paces h).broker.tasks.length = h.broker.tasks.length := by
  induction paces generalizing h with
  | nil => exact ⟨rfl, rfl⟩
  | cons p paces ih =>
    obtain ⟨as, hrun⟩ := turn_run worker p h
    have hpace := hpaces p List.mem_cons_self
    obtain ⟨hsettled, hundone⟩ := turn_step hr hworker hfirst hpace
    have hlength := turn_length hr hworker hfirst hpace
    obtain ⟨hrest, hlengths⟩ := ih (hr.run hrun) (hsettled.idle _) fun q hq =>
      hpaces q (List.mem_cons_of_mem p hq)
    refine ⟨?_, hlengths.trans hlength⟩
    calc undone (turns worker (p :: paces) h).broker
        = undone (turns worker paces (turn worker p h)).broker := rfl
      _ = (undone (turn worker p h).broker).drop paces.length := hrest
      _ = (undone h.broker).tail.drop paces.length := by rw [hundone]
      _ = (undone h.broker).drop (paces.length + 1) := by rw [List.drop_tail]

end K8sDev.Queue

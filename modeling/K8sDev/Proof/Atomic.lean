import K8sDev.Spec.Broker
import Mathlib.Data.List.Range

/-!
# Requests as atomic steps

Each handler is a sequence of atomic steps on the queue, each touching one task and
recording one event (`Atomic`): add a task, expire a lease, grant a lease, complete a
task, or reject an acknowledgement. `handle_cases` says what the handlers do, `handle_run`
is the decomposition, and `served_queue` carries it to whole runs. Every invariant of the
broker is then proved over the atomic steps, with one case for each of them.
-/

namespace K8sDev.Queue

/-- An atomic step. `wait` only moves the clock; the others name the task as it was. -/
inductive Act
  | wait
  | add (ms : ℕ)
  | expire (t : Task)
  | claim (t : Task) (w : String)
  | ack (t : Task)
  | reject (id : ℕ) (w : String)

/-- The task an atomic step hands out. -/
def Act.granted (now : ℕ) : Act → List Task
  | .claim t w => [t.grant now w]
  | _ => []

/-- A task is only completed by somebody. -/
def Act.Named : Act → Prop
  | .ack t => t.worker ≠ ""
  | _ => True

/-- The atomic steps at time `now`. A lease is granted, and a task completed, only when no
lease is left to reap. -/
inductive Atomic (now : ℕ) : Broker → Act → Broker → Prop
  | wait (s : Broker) : Atomic now s .wait s
  | add (s : Broker) (ms : ℕ) : Atomic now s (.add ms) (addTask now ms s)
  | expire {pre post : List Task} {t : Task} {es : List Event} (ht : t.expired now = true) :
      Atomic now ⟨pre ++ t :: post, es⟩ (.expire t)
        ⟨pre ++ { t with worker := "" } :: post, es ++ [⟨now, .expired, t.id, t.worker⟩]⟩
  | claim {pre post : List Task} {t : Task} {es : List Event} {w : String}
      (hreap : ∀ x ∈ pre ++ t :: post, x.expired now = false) (hpre : ∀ x ∈ pre, x.free = false)
      (ht : t.free = true) (hw : w ≠ "") :
      Atomic now ⟨pre ++ t :: post, es⟩ (.claim t w)
        ⟨pre ++ t.grant now w :: post, es ++ [⟨now, .claim, t.id, w⟩]⟩
  | ack {pre post : List Task} {t : Task} {es : List Event}
      (hreap : ∀ x ∈ pre ++ t :: post, x.expired now = false) (ht : t.done = false) :
      Atomic now ⟨pre ++ t :: post, es⟩ (.ack t)
        ⟨pre ++ { t with done := true } :: post, es ++ [⟨now, .ack, t.id, t.worker⟩]⟩
  | reject {s : Broker} {t : Task} {w : String} (ht : t ∈ s.tasks)
      (hw : t.done = true ∨ t.worker ≠ w) :
      Atomic now s (.reject t.id w) (record now .rejectedAck t.id w s)

/-- The queue with the clock and the leases granted so far. -/
structure Ghost where
  clock : ℕ := 0
  granted : List Task := []
  broker : Broker := {}

/-- The queue as a system of atomic steps. -/
def queueLts : Lts Ghost (ℕ × Act) where
  init g := g = {}
  step g a g' := g.clock ≤ a.1 ∧ Atomic a.1 g.broker a.2 g'.broker ∧ g'.clock = a.1 ∧
    g'.granted = g.granted ++ a.2.granted a.1

/-- The atomic steps in which a task is only completed by somebody. -/
def namedLts : Lts Ghost (ℕ × Act) := queueLts.restrict fun _ a _ => a.2.Named

/-- Tasks are numbered from 1, in list order. -/
def Broker.Numbered (s : Broker) : Prop := s.tasks.map Task.id = List.range' 1 s.tasks.length

/-! ## Fields of a released and of a granted task -/

section fields

variable (now : ℕ) (w : String) (t : Task)

@[simp] theorem release_id : (t.release now).id = t.id := by unfold Task.release; split <;> rfl

@[simp] theorem release_done : (t.release now).done = t.done := by
  unfold Task.release; split <;> rfl

@[simp] theorem release_durationMS : (t.release now).durationMS = t.durationMS := by
  unfold Task.release; split <;> rfl

@[simp] theorem release_attempts : (t.release now).attempts = t.attempts := by
  unfold Task.release; split <;> rfl

@[simp] theorem release_deadline : (t.release now).deadline = t.deadline := by
  unfold Task.release; split <;> rfl

@[simp] theorem grant_id : (t.grant now w).id = t.id := rfl

@[simp] theorem grant_done : (t.grant now w).done = t.done := rfl

@[simp] theorem grant_worker : (t.grant now w).worker = w := rfl

@[simp] theorem grant_durationMS : (t.grant now w).durationMS = t.durationMS := rfl

@[simp] theorem grant_attempts : (t.grant now w).attempts = t.attempts + 1 := rfl

@[simp] theorem grant_deadline : (t.grant now w).deadline = now + t.lease := rfl

@[simp] theorem grant_lease : (t.grant now w).lease = t.lease := rfl

end fields

theorem expired_iff {now : ℕ} {t : Task} :
    t.expired now = true ↔ t.done = false ∧ t.worker ≠ "" ∧ t.deadline < now := by
  simp [Task.expired, and_assoc]

theorem free_iff {t : Task} : t.free = true ↔ t.done = false ∧ t.worker = "" := by
  simp [Task.free]

theorem release_worker (now : ℕ) (t : Task) :
    (t.release now).worker = if t.expired now then "" else t.worker := by
  unfold Task.release; split <;> rfl

theorem release_of_expired {now : ℕ} {t : Task} (h : t.expired now = true) :
    t.release now = { t with worker := "" } := if_pos h

theorem release_of_not_expired {now : ℕ} {t : Task} (h : t.expired now = false) :
    t.release now = t := by
  simp [Task.release, h]

theorem expired_release (now : ℕ) (t : Task) : (t.release now).expired now = false := by
  unfold Task.release
  split
  · simp [Task.expired]
  · simpa using ‹¬t.expired now = true›

/-- Nothing is left to reap after `reap`. -/
theorem reap_expired (now : ℕ) (s : Broker) :
    ∀ t ∈ (reap now s).tasks, t.expired now = false := by
  intro t ht
  obtain ⟨u, -, rfl⟩ := List.mem_map.1 ht
  exact expired_release now u

theorem Broker.Numbered.reap {s : Broker} (h : s.Numbered) (now : ℕ) :
    (reap now s).Numbered := by
  have hid : Task.id ∘ Task.release now = Task.id := funext fun t => release_id now t
  simpa [Broker.Numbered, Queue.reap, hid] using h

/-- A reap that finds nothing to release changes nothing. -/
theorem reap_of_not_expired {now : ℕ} {s : Broker} (h : ∀ t ∈ s.tasks, t.expired now = false) :
    reap now s = s := by
  have h1 : s.tasks.map (Task.release now) = s.tasks := by
    rw [List.map_congr_left fun t ht => release_of_not_expired (h t ht)]
    simp
  have h2 : s.tasks.flatMap (Task.expiry now) = [] := by
    rw [List.flatMap_eq_nil_iff]
    intro t ht
    simp [Task.expiry, h t ht]
  simp [reap, h1, h2]

/-! ## The handlers, step by step -/

/-- A run of atomic steps at one instant. -/
theorem step_now {now : ℕ} (gr : List Task) {s s' : Broker} {a : Act} (h : Atomic now s a s') :
    queueLts.step ⟨now, gr, s⟩ (now, a) ⟨now, gr ++ a.granted now, s'⟩ :=
  ⟨le_rfl, h, rfl, rfl⟩

/-- Waiting for the next request. -/
theorem step_wait {g : Ghost} {now : ℕ} (h : g.clock ≤ now) :
    queueLts.step g (now, .wait) ⟨now, g.granted, g.broker⟩ :=
  ⟨h, .wait _, rfl, by simp [Act.granted]⟩

/-- The loop of `reap`, over the tasks not visited yet. -/
theorem reap_loop (now : ℕ) (gr : List Task) : ∀ (ts pre : List Task) (es : List Event),
    ∃ as, queueLts.Run ⟨now, gr, ⟨pre ++ ts, es⟩⟩ as
      ⟨now, gr, ⟨pre ++ ts.map (Task.release now), es ++ ts.flatMap (Task.expiry now)⟩⟩ ∧
      ∀ a ∈ as, a.2.Named := by
  intro ts
  induction ts with
  | nil => intro pre es; exact ⟨[], by simpa using .nil _, by simp⟩
  | cons t ts ih =>
    intro pre es
    cases ht : t.expired now with
    | false =>
      obtain ⟨as, hr, hn⟩ := ih (pre ++ [t]) es
      refine ⟨as, ?_, hn⟩
      simpa [release_of_not_expired ht, Task.expiry, ht] using hr
    | true =>
      obtain ⟨as, hr, hn⟩ := ih (pre ++ [{ t with worker := "" }])
        (es ++ [⟨now, .expired, t.id, t.worker⟩])
      have hstep := step_now gr (@Atomic.expire now pre ts t es ht)
      refine ⟨[(now, .expire t)] ++ as, ?_, ?_⟩
      · simp only [Act.granted, List.append_nil] at hstep
        refine (Lts.Run.single hstep).append ?_
        simpa [release_of_expired ht, Task.expiry, ht] using hr
      · simpa [Act.Named] using hn

theorem reap_run {g : Ghost} {now : ℕ} (h : g.clock ≤ now) :
    ∃ as, queueLts.Run g as ⟨now, g.granted, reap now g.broker⟩ ∧ ∀ a ∈ as, a.2.Named := by
  obtain ⟨as, hr, hn⟩ := reap_loop now g.granted g.broker.tasks [] g.broker.events
  refine ⟨[(now, .wait)] ++ as, (Lts.Run.single (step_wait h)).append hr, ?_⟩
  simpa [Act.Named] using hn

/-- A handler that reaps and then takes one atomic step. -/
theorem reap_then {g : Ghost} {now : ℕ} {a : Act} {s' : Broker} (h : g.clock ≤ now)
    (hstep : Atomic now (reap now g.broker) a s') :
    ∃ as, queueLts.Run g as ⟨now, g.granted ++ a.granted now, s'⟩ ∧
      (a.Named → ∀ b ∈ as, b.2.Named) := by
  obtain ⟨as, hr, hn⟩ := reap_run h
  refine ⟨as ++ [(now, a)], hr.append (.single (step_now g.granted hstep)), fun ha b hb => ?_⟩
  rcases List.mem_append.1 hb with hb | hb
  · exact hn b hb
  · obtain rfl := List.mem_singleton.1 hb; exact ha

theorem addTasks_run (now : ℕ) (gr : List Task) (ms : ℕ) : ∀ (n : ℕ) (s : Broker),
    ∃ as, queueLts.Run ⟨now, gr, s⟩ as ⟨now, gr, addTasks now ms n s⟩ ∧ ∀ a ∈ as, a.2.Named := by
  intro n
  induction n with
  | zero => intro s; exact ⟨[], .nil _, by simp⟩
  | succ n ih =>
    intro s
    obtain ⟨as, hr, hn⟩ := ih (addTask now ms s)
    have hstep := step_now gr (@Atomic.add now s ms)
    simp only [Act.granted, List.append_nil] at hstep
    exact ⟨[(now, .add ms)] ++ as, (Lts.Run.single hstep).append hr, by simpa [Act.Named] using hn⟩

/-- The loop of `/claim` grants the first free task and leaves the others alone. -/
theorem grantFirst_some {now : ℕ} {w : String} {g : Task} : ∀ {ts ts' : List Task},
    grantFirst now w ts = some (g, ts') →
      ∃ pre t post, ts = pre ++ t :: post ∧ (∀ x ∈ pre, x.free = false) ∧ t.free = true ∧
        g = t.grant now w ∧ ts' = pre ++ t.grant now w :: post := by
  intro ts
  induction ts with
  | nil => intro ts' h; simp [grantFirst] at h
  | cons t ts ih =>
    intro ts' h
    unfold grantFirst at h
    split at h
    · rename_i hf
      simp only [Option.some.injEq, Prod.mk.injEq] at h
      exact ⟨[], t, ts, rfl, by simp, hf, h.1.symm, h.2.symm⟩
    · rename_i hf
      simp only [Option.map_eq_some_iff, Prod.mk.injEq] at h
      obtain ⟨⟨g', us⟩, hg, rfl, rfl⟩ := h
      obtain ⟨pre, u, post, rfl, hpre, hu, rfl, rfl⟩ := ih hg
      refine ⟨t :: pre, u, post, rfl, ?_, hu, rfl, rfl⟩
      intro x hx
      rcases List.mem_cons.1 hx with rfl | hx
      · simpa using hf
      · exact hpre x hx

theorem grantFirst_none {now : ℕ} {w : String} : ∀ {ts : List Task},
    grantFirst now w ts = none → ∀ t ∈ ts, t.free = false := by
  intro ts
  induction ts with
  | nil => intro _ t ht; simp at ht
  | cons t ts ih =>
    intro h x hx
    unfold grantFirst at h
    split at h
    · cases h
    · rename_i hf
      rcases List.mem_cons.1 hx with rfl | hx
      · simpa using hf
      · exact ih (by simpa using h) x hx

/-- **What `/claim` does** after its checks: the first free task is granted, or none is
free and the empty task is returned. -/
theorem claimLocked_cases (now : ℕ) (w : String) (s : Broker) :
    (∃ pre t post, s.tasks = pre ++ t :: post ∧ (∀ x ∈ pre, x.free = false) ∧ t.free = true ∧
      claimLocked now w s = (⟨200, .task (t.grant now w)⟩,
        ⟨pre ++ t.grant now w :: post, s.events ++ [⟨now, .claim, t.id, w⟩]⟩)) ∨
    ((∀ t ∈ s.tasks, t.free = false) ∧ claimLocked now w s = (⟨200, .task {}⟩, s)) := by
  unfold claimLocked
  cases hg : grantFirst now w s.tasks with
  | none => exact .inr ⟨grantFirst_none hg, rfl⟩
  | some gts =>
    obtain ⟨g, ts'⟩ := gts
    obtain ⟨pre, t, post, hts, hpre, ht, rfl, rfl⟩ := grantFirst_some hg
    exact .inl ⟨pre, t, post, hts, hpre, ht, rfl⟩

theorem Broker.Numbered.get {s : Broker} (h : s.Numbered) {i : ℕ} (hi : i < s.tasks.length) :
    s.tasks[i].id = i + 1 := by
  have := congrArg (·[i]?) h
  simp [hi] at this
  omega

/-- The task with a number is the one at that place. -/
theorem Broker.Numbered.mem {s : Broker} (h : s.Numbered) {t : Task} (ht : t ∈ s.tasks) :
    1 ≤ t.id ∧ t.id ≤ s.tasks.length ∧ s.tasks[t.id - 1]? = some t := by
  obtain ⟨i, hi, rfl⟩ := List.getElem_of_mem ht
  rw [h.get hi]
  exact ⟨by omega, by omega, by simp [hi]⟩

/-- Two tasks with one number are one task. -/
theorem Broker.Numbered.inj {s : Broker} (h : s.Numbered) {t u : Task} (ht : t ∈ s.tasks)
    (hu : u ∈ s.tasks) (htu : t.id = u.id) : t = u := by
  have h1 := (h.mem ht).2.2
  rw [htu, (h.mem hu).2.2] at h1
  exact (Option.some.inj h1).symm

/-- **What `/ack` does** after reaping: refuse an unknown number, reject, or complete the
task with that number. -/
theorem ackLocked_cases {s : Broker} (hs : s.Numbered) (now : ℕ) (id : Option ℤ) (w : String) :
    ((∀ t ∈ s.tasks, id ≠ some (t.id : ℤ)) ∧
      ackLocked now id w s = (httpError "unknown id" 400, s)) ∨
    (∃ pre t post, s.tasks = pre ++ t :: post ∧ id = some (t.id : ℤ) ∧
      ((t.done = true ∨ t.worker ≠ w) ∧
          ackLocked now id w s = (httpError "stale or duplicate ack" 409,
            record now .rejectedAck t.id w s) ∨
        t.done = false ∧ t.worker = w ∧ ackLocked now id w s = (⟨200, .text "ok"⟩,
          ⟨pre ++ { t with done := true } :: post, s.events ++ [⟨now, .ack, t.id, t.worker⟩]⟩))) := by
  cases id with
  | none => exact .inl ⟨by simp, rfl⟩
  | some id =>
    by_cases hid : id < 1 ∨ id > s.tasks.length
    · refine .inl ⟨?_, by simp [ackLocked, hid]⟩
      intro t ht heq
      have := hs.mem ht
      simp only [Option.some.injEq] at heq
      omega
    · right
      -- the task at the index is the one with the number
      have hi : (id - 1).toNat < s.tasks.length := by omega
      set i := (id - 1).toNat with hi_def
      have hsplit : s.tasks = s.tasks.take i ++ s.tasks[i] :: s.tasks.drop (i + 1) := by
        rw [← List.drop_eq_getElem_cons hi, List.take_append_drop]
      have htid : id = (s.tasks[i].id : ℤ) := by rw [hs.get hi]; omega
      have hnat : id.toNat = s.tasks[i].id := by rw [htid]; simp
      refine ⟨_, _, _, hsplit, by rw [← htid], ?_⟩
      by_cases hw : s.tasks[i].done = true ∨ s.tasks[i].worker ≠ w
      · refine .inl ⟨hw, ?_⟩
        simp only [ackLocked, dif_neg hid, ← hi_def, if_pos hw, hnat]
      · refine .inr ?_
        obtain ⟨hd, rfl⟩ : s.tasks[i].done = false ∧ s.tasks[i].worker = w := by simpa using hw
        refine ⟨hd, rfl, ?_⟩
        simp only [ackLocked, dif_neg hid, ← hi_def, if_neg hw, hnat, record,
          List.set_eq_take_append_cons_drop, if_pos hi]

/-- The broker reads an `/ack` as it was sent. -/
theorem ackCall_get (id : ℕ) (worker : String) :
    atoi ((ackCall id worker).req.get "id") = some (id : ℤ) ∧
      (ackCall id worker).req.get "worker" = worker := by
  refine ⟨?_, by simp [ackCall, Request.get]⟩
  have h : (ackCall id worker).req.get "id" = id.repr := by simp [ackCall, Request.get]
  rw [h, atoi_repr]

/-- The `/ack` is about a task that is not done and that nobody holds, or nobody will once
the expired leases are released. -/
def Unheld (now : ℕ) (r : Request) (s : Broker) : Prop :=
  ∃ t ∈ s.tasks, atoi (r.get "id") = some (t.id : ℤ) ∧ t.done = false ∧
    (t.worker = "" ∨ t.deadline < now)

/-- The call is not an `/ack` with an empty worker about a task that nobody holds. -/
def Call.Safe (now : ℕ) (c : Call) (s : Broker) : Prop :=
  c.path = .ack → c.req.get "worker" = "" → ¬Unheld now c.req s

theorem Call.Named.safe {c : Call} (h : c.Named) (now : ℕ) (s : Broker) : c.Safe now s :=
  fun hp hw => absurd hw (h hp)

/-- A task that nobody holds after the reap was not held, or past its deadline. -/
theorem unheld_of_release {now : ℕ} {t : Task} (h : (t.release now).worker = "") :
    t.worker = "" ∨ t.deadline < now := by
  rw [release_worker] at h
  split at h
  · rename_i he; exact .inr (expired_iff.1 he).2.2
  · exact .inl h

/-- A granted claim is the task in the answer of a `/claim`. -/
theorem granted_iff {c : Call} {r : Response} {t : Task} :
    granted c r = some t ↔ c.path = .claim ∧ r.body = .task t ∧ t.id ≠ 0 := by
  unfold granted
  split
  · rename_i u hp hb
    rw [hp, hb]
    by_cases hid : u.id = 0
    · simp only [if_pos hid, true_and, Body.task.injEq]
      refine ⟨nofun, ?_⟩
      rintro ⟨rfl, hne⟩
      exact absurd hid hne
    · simp only [if_neg hid, true_and, Body.task.injEq, Option.some.injEq]
      refine ⟨?_, And.left⟩
      rintro rfl
      exact ⟨rfl, hid⟩
  · rename_i hno
    refine ⟨nofun, ?_⟩
    rintro ⟨hp, hb, -⟩
    exact absurd hb (hno t hp)

theorem granted_eq_none {c : Call} {r : Response} (h : ∀ t, r.body = .task t → t.id = 0) :
    granted c r = none := by
  cases hg : granted c r with
  | none => rfl
  | some t =>
    obtain ⟨-, hb, hid⟩ := granted_iff.1 hg
    exact absurd (h t hb) hid

/-- **What a handler does**: refuse the request, add tasks, claim, acknowledge or report. Only
the first two leave the expired leases alone. -/
theorem handle_cases (now : ℕ) (c : Call) (s : Broker) :
    (∃ text code, 400 ≤ code ∧ handle now c s = (httpError text code, s)) ∨
    (∃ ms n, c.path = .enqueue ∧ handle now c s =
      (⟨200, .length (addTasks now ms n s).tasks.length⟩, addTasks now ms n s)) ∨
    (c.path = .claim ∧ c.req.get "worker" ≠ "" ∧
      handle now c s = claimLocked now (c.req.get "worker") (reap now s)) ∨
    (c.path = .ack ∧ handle now c s =
      ackLocked now (atoi (c.req.get "id")) (c.req.get "worker") (reap now s)) ∨
    (∃ body, (body = statsBody (reap now s) ∨ body = .metrics (counts (reap now s).tasks)) ∧
      handle now c s = (⟨200, body⟩, reap now s)) := by
  obtain ⟨path, r⟩ := c
  cases path with
  | enqueue =>
    simp only [handle]
    unfold enqueue
    split
    · exact .inl ⟨_, 405, by omega, rfl⟩
    · split
      · split
        · exact .inl ⟨_, 400, by omega, rfl⟩
        · exact .inr (.inl ⟨_, _, trivial, rfl⟩)
      · exact .inl ⟨_, 400, by omega, rfl⟩
  | claim =>
    simp only [handle]
    unfold claim
    split
    · exact .inl ⟨_, 405, by omega, rfl⟩
    · by_cases hw : r.get "worker" = ""
      · exact .inl ⟨_, 400, by omega, if_pos hw⟩
      · exact .inr (.inr (.inl ⟨trivial, hw, if_neg hw⟩))
  | ack =>
    simp only [handle]
    unfold ack
    split
    · exact .inl ⟨_, 405, by omega, rfl⟩
    · exact .inr (.inr (.inr (.inl ⟨trivial, rfl⟩)))
  | stats => exact .inr (.inr (.inr (.inr ⟨_, .inl rfl, rfl⟩)))
  | metrics => exact .inr (.inr (.inr (.inr ⟨_, .inr rfl, rfl⟩)))

/-- **Every request is a sequence of atomic steps**, which hands out the task that a
claim returned, and in which tasks are only completed by somebody if the call is safe. -/
theorem handle_run {g : Ghost} {now : ℕ} (hs : g.broker.Numbered) (h : g.clock ≤ now) (c : Call) :
    ∃ as, queueLts.Run g as ⟨now, g.granted ++ (granted c (handle now c g.broker).1).toList,
        (handle now c g.broker).2⟩ ∧ (c.Safe now g.broker → ∀ a ∈ as, a.2.Named) := by
  obtain ⟨as, hr, hn⟩ := reap_run h
  have hwait : queueLts.Run g [(now, .wait)] ⟨now, g.granted, g.broker⟩ := .single (step_wait h)
  rcases handle_cases now c g.broker with
    ⟨text, code, -, heq⟩ | ⟨ms, n, -, heq⟩ | ⟨hp, hw, heq⟩ | ⟨hp, heq⟩ | ⟨body, hbody, heq⟩
  · rw [heq, granted_eq_none (by simp [httpError])]
    exact ⟨_, by simpa using hwait, by simp [Act.Named]⟩
  · obtain ⟨bs, hr', hn'⟩ := addTasks_run now g.granted ms n g.broker
    rw [heq, granted_eq_none (by simp)]
    refine ⟨[(now, .wait)] ++ bs, by simpa using hwait.append hr', fun _ => ?_⟩
    simpa [Act.Named] using hn'
  · rw [heq]
    rcases claimLocked_cases now (c.req.get "worker") (reap now g.broker) with
      ⟨pre, t, post, hts, hpre, ht, heq'⟩ | ⟨-, heq'⟩
    · have hid : t.id ≠ 0 := by
        have := ((hs.reap now).mem (t := t) (by rw [hts]; simp)).1
        omega
      have hgrant : granted c ⟨200, .task (t.grant now (c.req.get "worker"))⟩ =
          some (t.grant now (c.req.get "worker")) := granted_iff.2 ⟨hp, rfl, hid⟩
      have hstep := @Atomic.claim now pre post t (reap now g.broker).events _
        (hts ▸ reap_expired now g.broker) hpre ht hw
      rw [← hts] at hstep
      obtain ⟨bs, hr', hn'⟩ := reap_then h hstep
      rw [heq', hgrant]
      exact ⟨bs, hr', fun _ => hn' trivial⟩
    · rw [heq', granted_eq_none (by simp)]
      exact ⟨as, by simpa using hr, fun _ => hn⟩
  · have hnone : granted c (handle now c g.broker).1 = none := by
      cases hg : granted c (handle now c g.broker).1 with
      | none => rfl
      | some t =>
        have hp' := (granted_iff.1 hg).1
        rw [hp] at hp'
        cases hp'
    rw [hnone, heq]
    rcases ackLocked_cases (hs.reap now) now (atoi (c.req.get "id")) (c.req.get "worker") with
      ⟨-, heq'⟩ | ⟨pre, t, post, hts, hid, ⟨hrej, heq'⟩ | ⟨hd, hw, heq'⟩⟩
    · rw [heq']
      exact ⟨as, by simpa using hr, fun _ => hn⟩
    · have hstep := @Atomic.reject now (reap now g.broker) t _ (by rw [hts]; simp) hrej
      obtain ⟨bs, hr', hn'⟩ := reap_then h hstep
      rw [heq']
      exact ⟨bs, hr', fun _ => hn' trivial⟩
    · have hstep := @Atomic.ack now pre post t (reap now g.broker).events
        (hts ▸ reap_expired now g.broker) hd
      rw [← hts] at hstep
      obtain ⟨bs, hr', hn'⟩ := reap_then h hstep
      rw [heq']
      refine ⟨bs, hr', fun hc => hn' fun hempty => ?_⟩
      -- the task that an empty worker would complete is one that nobody holds
      obtain ⟨u, hu, rfl⟩ := List.mem_map.1 (show t ∈ (reap now g.broker).tasks by rw [hts]; simp)
      rw [release_id] at hid
      rw [release_done] at hd
      exact hc hp (hw ▸ hempty) ⟨u, hu, hid, hd, unheld_of_release hempty⟩
  · have hnone : granted c ⟨200, body⟩ = none := by
      refine granted_eq_none fun t ht => ?_
      rcases hbody with rfl | rfl <;> cases ht
    rw [heq, hnone]
    exact ⟨as, by simpa using hr, fun _ => hn⟩

end K8sDev.Queue

import K8sDev.Proof.Exclusive
import K8sDev.Proof.Conserve

/-!
# Exactly once without faults

When no message is lost, no process is killed, exchanges complete within the timeout and
sleeps overshoot by less than 10 s, every lease is in the hands of one consumer (`Custody`)
that ends it in time: it has the claim in a response under way, it works on it, or its
`/ack` is under way. So no lease ever expires and no `/ack` is rejected, also while consumers
are cancelled.

* `World.Settled`: the invariant.
* `exactly_once`: the result for every run.
-/

namespace K8sDev.Queue

variable {ι : Type} {host : ι → String} {w w' : World ι} {l : Label ι}

/-- The process `p` answers for the lease `t`. -/
inductive Custody (host : ι → String) (w : World ι) (p : ι) (t : Task) : Prop
  /-- The claim is on its way. -/
  | claimed {x sent : ℕ} {c : Call} {r : Response} (hp : w.pc p = .claiming x sent)
      (hx : w.net x = some ⟨p, c, some r⟩) (ht : granted c r = some t)
  | working {since : ℕ} (hp : w.pc p = .working t since)
  /-- The `/ack` is on its way. -/
  | acking {x sent : ℕ} (hp : w.pc p = .acking t x sent)
      (hx : w.net x = some ⟨p, ackCall t.id (host p), none⟩)

/-- A message belongs to the process that waits for its exchange. -/
def World.Awaited (host : ι → String) (w : World ι) : Prop :=
  ∀ x m, w.net x = some m → (∃ sent, w.pc m.proc = .claiming x sent) ∨
    ∃ t sent, w.pc m.proc = .acking t x sent ∧ m.call = ackCall t.id (host m.proc)

/-- Nothing has expired and no `/ack` was rejected; a task nobody holds is new. -/
structure Broker.Smooth (s : Broker) : Prop where
  events : ∀ e ∈ s.events, e.kind ≠ .expired ∧ e.kind ≠ .rejectedAck
  attempts : ∀ t ∈ s.tasks, t.attempts ≤ 1
  free : ∀ t ∈ s.tasks, t.free = true → t.attempts = 0

/-- The leases the broker has out are those somebody answers for. -/
structure World.Books (host : ι → String) (w : World ι) : Prop where
  custody : ∀ p t, Custody host w p t →
    t ∈ w.queue.broker.tasks ∧ t.done = false ∧ t.worker = host p
  held : ∀ t ∈ w.queue.broker.tasks, t.done = false → t.worker ≠ "" → ∃ p, Custody host w p t
  smooth : w.queue.broker.Smooth

/-- **The invariant of prompt runs.** -/
structure World.Settled (host : ι → String) (w : World ι) : Prop where
  base : w.OK host
  prompt : ∀ p, (w.pc p).Prompt w.now
  awaited : w.Awaited host
  /-- An `/ack` is sent 5 s before the deadline. -/
  acking : ∀ p t x sent, w.pc p = .acking t x sent → sent + timeout ≤ t.deadline
  codes : ∀ x p c r t, w.net x = some ⟨p, c, some r⟩ → granted c r = some t → r.code = 200
  books : w.Books host

/-! ## Leases do not expire -/

/-- **A lease in custody runs.** -/
theorem World.Settled.in_time (hw : w.Settled host) {p : ι} {t : Task} (h : Custody host w p t) :
    w.now ≤ t.deadline := by
  have hp := hw.prompt p
  have htimeout : timeout = 5 * second := rfl
  have hlease : t.lease = t.duration + 20 * second := rfl
  cases h with
  | @claimed x sent c r hpc hx ht =>
    have hdl := ((hw.base.claiming p x sent hpc).2.2 _ hx).2 t ht
    rw [hpc] at hp
    simp only [Pc.Prompt] at hp
    omega
  | @working since hpc =>
    have hin := (hw.base.execs _ (hw.base.working p t since hpc)).within
    rw [hpc] at hp
    simp only [Pc.Prompt] at hp
    simp only at hin
    omega
  | @acking x sent hpc hx =>
    have hdl := hw.acking p t x sent hpc
    rw [hpc] at hp
    simp only [Pc.Prompt] at hp
    omega

/-- There is nothing to reap. -/
theorem World.Settled.not_expired (hw : w.Settled host) :
    ∀ t ∈ w.queue.broker.tasks, t.expired w.now = false := by
  intro t ht
  by_contra he
  obtain ⟨hd, hwk, hdl⟩ := expired_iff.1 (by simpa using he)
  obtain ⟨p, hp⟩ := hw.books.held t ht hd hwk
  have := hw.in_time hp
  omega

theorem World.Settled.reap (hw : w.Settled host) :
    reap w.now w.queue.broker = w.queue.broker :=
  reap_of_not_expired hw.not_expired

/-- A process answers for one lease at most. -/
theorem Custody.unique {p : ι} {t u : Task} (h : Custody host w p t) (h' : Custody host w p u) :
    t = u := by
  cases h with
  | claimed hp hx ht =>
    cases h' with
    | claimed hp' hx' ht' =>
      rw [hp] at hp'
      obtain ⟨rfl, rfl⟩ := Pc.claiming.inj hp'
      rw [hx] at hx'
      simp only [Option.some.injEq, Flight.mk.injEq, true_and] at hx'
      obtain ⟨rfl, rfl⟩ := hx'
      rw [ht] at ht'
      exact Option.some.inj ht'
    | working hp' => rw [hp] at hp'; cases hp'
    | acking hp' => rw [hp] at hp'; cases hp'
  | working hp =>
    cases h' with
    | claimed hp' => rw [hp] at hp'; cases hp'
    | working hp' => rw [hp] at hp'; cases hp'; rfl
    | acking hp' => rw [hp] at hp'; cases hp'
  | acking hp =>
    cases h' with
    | claimed hp' => rw [hp] at hp'; cases hp'
    | working hp' => rw [hp] at hp'; cases hp'
    | acking hp' => rw [hp] at hp'; cases hp'; rfl

/-- A process at rest answers for nothing. -/
theorem Custody.not_atRest {p : ι} {t : Task} (h : Custody host w p t) : ¬(w.pc p).AtRest := by
  cases h with
  | claimed hp => rw [hp]; exact id
  | working hp => rw [hp]; exact id
  | acking hp => rw [hp]; exact id

/-- Custody is about the process and its messages only. -/
theorem Custody.congr {p : ι} {t : Task} (h : Custody host w p t) (hpc : w'.pc p = w.pc p)
    (hnet : ∀ x m, w.net x = some m → m.proc = p → w'.net x = some m) : Custody host w' p t := by
  cases h with
  | claimed hp hx ht => exact .claimed (hpc.trans hp) (hnet _ _ hx rfl) ht
  | working hp => exact .working (hpc.trans hp)
  | acking hp hx => exact .acking (hpc.trans hp) (hnet _ _ hx rfl)

/-- A process that does not wait for an exchange has no message in it. -/
theorem World.Settled.proc_ne (hw : w.Settled host) {p : ι} {x : ℕ} {m : Flight ι}
    (hx : w.net x = some m) (hclaim : ∀ sent, w.pc p ≠ .claiming x sent)
    (hack : ∀ t sent, w.pc p ≠ .acking t x sent) : m.proc ≠ p := by
  rintro rfl
  rcases hw.awaited x m hx with ⟨sent, hm⟩ | ⟨t, sent, hm, -⟩
  · exact hclaim sent hm
  · exact hack t sent hm

/-! ## What the broker does when nothing expires -/

/-- Enqueueing adds tasks that nobody has claimed. -/
theorem addTasks_tasks (now ms : ℕ) : ∀ (n : ℕ) (s : Broker), ∃ ts,
    (addTasks now ms n s).tasks = s.tasks ++ ts ∧
      ∀ t ∈ ts, t.done = false ∧ t.worker = "" ∧ t.attempts = 0 := by
  intro n
  induction n with
  | zero => intro s; exact ⟨[], by simp [addTasks], by simp⟩
  | succ n ih =>
    intro s
    obtain ⟨ts, h1, h2⟩ := ih (addTask now ms s)
    refine ⟨{ id := s.tasks.length + 1, durationMS := ms } :: ts, ?_, ?_⟩
    · rw [addTasks, h1]
      simp [addTask, record]
    · intro t ht
      rcases List.mem_cons.1 ht with rfl | ht
      · exact ⟨rfl, rfl, rfl⟩
      · exact h2 t ht

/-- A call that neither claims nor acknowledges adds new tasks at most. -/
theorem handle_other {s : Broker} {now : ℕ} {c : Call} (hs : reap now s = s)
    (hclaim : c.path ≠ .claim) (hack : c.path ≠ .ack) :
    (∃ ts, (handle now c s).2.tasks = s.tasks ++ ts ∧
      ∀ t ∈ ts, t.done = false ∧ t.worker = "" ∧ t.attempts = 0) ∧
      ∀ e ∈ (handle now c s).2.events, e ∈ s.events ∨ e.kind = .enqueue := by
  have same : (∃ ts, s.tasks = s.tasks ++ ts ∧
      ∀ t ∈ ts, t.done = false ∧ t.worker = "" ∧ t.attempts = 0) ∧
      ∀ e ∈ s.events, e ∈ s.events ∨ e.kind = .enqueue := ⟨⟨[], by simp, by simp⟩, fun _ => .inl⟩
  rcases handle_cases now c s with
    ⟨text, code, -, heq⟩ | ⟨ms, n, -, heq⟩ | ⟨hp, -⟩ | ⟨hp, -⟩ | ⟨body, -, heq⟩
  · rw [heq]; exact same
  · rw [heq]; exact ⟨addTasks_tasks _ _ _ _, fun e => mem_events_addTasks⟩
  · exact absurd hp hclaim
  · exact absurd hp hack
  · rw [heq, hs]; exact same

theorem handle_claimCall {s : Broker} {now : ℕ} {worker : String} (hs : reap now s = s)
    (hw : worker ≠ "") : handle now (claimCall worker) s = claimLocked now worker s := by
  simp [handle, claimCall, claim, Request.get, hw, hs]

/-- The `/ack` of the worker who holds the task completes it. -/
theorem handle_ackCall {s : Broker} {now : ℕ} {t : Task} (hn : s.Numbered) (hs : reap now s = s)
    (ht : t ∈ s.tasks) (hd : t.done = false) :
    ∃ pre post, s.tasks = pre ++ t :: post ∧ (handle now (ackCall t.id t.worker) s).2 =
      ⟨pre ++ { t with done := true } :: post, s.events ++ [⟨now, .ack, t.id, t.worker⟩]⟩ := by
  obtain ⟨hid, hwk⟩ := ackCall_get t.id t.worker
  have hm : (ackCall t.id t.worker).req.method = "POST" := rfl
  have heq : handle now (ackCall t.id t.worker) s =
      ackLocked now (some (t.id : ℤ)) t.worker s := by
    show ack now (ackCall t.id t.worker).req s = _
    rw [ack, if_neg (by simp [hm]), hs, hid, hwk]
  rw [heq]
  have huniq : ∀ u ∈ s.tasks, (some (t.id : ℤ)) = some (u.id : ℤ) → u = t := by
    intro u hu huid
    exact hn.inj hu ht (by simpa using huid.symm)
  rcases ackLocked_cases hn now (some (t.id : ℤ)) t.worker with
    ⟨hnone, -⟩ | ⟨pre, u, post, hts, huid, ⟨hrej, -⟩ | ⟨-, -, h⟩⟩
  · exact absurd rfl (hnone t ht)
  · obtain rfl := huniq u (by rw [hts]; simp) huid
    rcases hrej with h | h
    · rw [hd] at h; cases h
    · exact absurd rfl h
  · obtain rfl := huniq u (by rw [hts]; simp) huid
    exact ⟨pre, post, hts, by rw [h]⟩

theorem books_client (hw : w.Settled host) {c : Call} (hclaim : c.path ≠ .claim)
    (hack : c.path ≠ .ack) : World.Books host { w with queue := serve w.now c w.queue } := by
  obtain ⟨⟨ts, hts, hnew⟩, hev⟩ := handle_other hw.reap hclaim hack
  have htasks : (serve w.now c w.queue).broker.tasks = w.queue.broker.tasks ++ ts := hts
  refine ⟨?_, ?_, ?_, ?_, ?_⟩
  · intro p t h
    obtain ⟨h1, h2⟩ := hw.books.custody p t (h.congr rfl fun _ _ hx _ => hx)
    exact ⟨by rw [htasks]; exact List.mem_append_left _ h1, h2⟩
  · intro t ht hd hwk
    rw [htasks] at ht
    rcases List.mem_append.1 ht with ht | ht
    · obtain ⟨p, hp⟩ := hw.books.held t ht hd hwk
      exact ⟨p, hp.congr rfl fun _ _ hx _ => hx⟩
    · exact absurd (hnew t ht).2.1 hwk
  · intro e he
    rcases hev e he with he | he
    · exact hw.books.smooth.events e he
    · rw [he]; simp
  · intro t ht
    rw [htasks] at ht
    rcases List.mem_append.1 ht with ht | ht
    · exact hw.books.smooth.attempts t ht
    · rw [(hnew t ht).2.2]; exact Nat.zero_le 1
  · intro t ht hf
    rw [htasks] at ht
    rcases List.mem_append.1 ht with ht | ht
    · exact hw.books.smooth.free t ht hf
    · exact (hnew t ht).2.2

/-- A process keeps its custody when it stays where it is and its messages stay in the network. -/
theorem custody_congr_iff {p : ι} (hpc : w'.pc p = w.pc p)
    (hnet : ∀ x m, m.proc = p → (w'.net x = some m ↔ w.net x = some m)) (t : Task) :
    Custody host w' p t ↔ Custody host w p t :=
  ⟨fun h => h.congr hpc.symm fun x m hx hp => (hnet x m hp).1 hx,
    fun h => h.congr hpc fun x m hx hp => (hnet x m hp).2 hx⟩

variable [DecidableEq ι]

/-! ## Custody changes hands only at the broker -/

/-- Another process sends. -/
theorem custody_send_iff (hw : w.Settled host) {p p₀ : ι} {c : Call} {q : Pc} (hne : p ≠ p₀)
    (hpc : w'.pc = Function.update w.pc p₀ q)
    (hnet : w'.net = Function.update w.net w.fresh (some ⟨p₀, c, none⟩)) (t : Task) :
    Custody host w' p t ↔ Custody host w p t := by
  refine custody_congr_iff (by rw [hpc, Function.update_of_ne hne]) (fun x m hm => ?_) t
  rw [hnet, Function.update_apply]
  split
  · rename_i hx
    subst hx
    constructor
    · intro h
      obtain rfl := Option.some.inj h
      exact absurd hm.symm hne
    · intro h
      exact absurd (hw.base.exchanges _ _ h).1 (Nat.lt_irrefl _)
  · exact Iff.rfl

/-- A message of another process leaves the network. -/
theorem custody_drop_iff {p p₀ : ι} {x₀ : ℕ} {m₀ : Flight ι} {q : Pc} (hne : p ≠ p₀)
    (hx₀ : w.net x₀ = some m₀) (hm₀ : m₀.proc = p₀) (hpc : w'.pc = Function.update w.pc p₀ q)
    (hnet : w'.net = Function.update w.net x₀ none) (t : Task) :
    Custody host w' p t ↔ Custody host w p t := by
  refine custody_congr_iff (by rw [hpc, Function.update_of_ne hne]) (fun x m hm => ?_) t
  rw [hnet, Function.update_apply]
  split
  · rename_i hx
    subst hx
    constructor
    · intro h
      cases h
    · intro h
      obtain rfl := Option.some.inj (h.symm.trans hx₀)
      exact absurd (hm.symm.trans hm₀) hne
  · exact Iff.rfl

/-- **Custody is kept by every step that the broker has no part in.** -/
theorem custody_iff (hw : w.Settled host) (h : Move host w l w') (hl : ¬l.Faulty)
    (hs : ∀ x, l ≠ .serve x) (p : ι) (t : Task) : Custody host w' p t ↔ Custody host w p t := by
  cases h with
  | tick | client | cancel =>
    refine custody_congr_iff ?_ ?_ t
    · rfl
    · exact fun _ _ _ => Iff.rfl
  | @rest _ p₀ q _ hp hq =>
    by_cases hpp : p = p₀
    · subst hpp
      refine ⟨fun h => absurd ?_ h.not_atRest, fun h => absurd hp h.not_atRest⟩
      rw [goto_pc_self]; exact hq
    · exact custody_congr_iff (goto_pc_of_ne w q hpp) (fun _ _ _ => Iff.rfl) t
  | @claim p₀ hp =>
    by_cases hpp : p = p₀
    · subst hpp
      have hpc : (w.send p (claimCall (host p)) fun x => .claiming x w.now).pc p =
          .claiming w.fresh w.now := send_pc_self _ _ _ _
      refine ⟨fun h => ?_, fun h => absurd (by rw [hp]; trivial) h.not_atRest⟩
      cases h with
      | claimed hp' hx =>
        rw [hpc] at hp'
        obtain ⟨rfl, rfl⟩ := Pc.claiming.inj hp'
        simp at hx
      | working hp' => rw [hpc] at hp'; cases hp'
      | acking hp' => rw [hpc] at hp'; cases hp'
    · exact custody_send_iff hw hpp rfl rfl t
  | @finish p₀ t₀ since hp hd =>
    by_cases hpp : p = p₀
    · subst hpp
      have hnew : Custody host ((w.finish p).send p (ackCall t₀.id (host p))
          fun x => .acking t₀ x w.now) p t₀ :=
        .acking (send_pc_self _ _ _ _) (send_net_self _ _ _ _)
      refine ⟨fun h => ?_, fun h => ?_⟩
      · obtain rfl := h.unique hnew; exact .working hp
      · obtain rfl := h.unique (.working hp); exact hnew
    · exact custody_send_iff hw hpp rfl rfl t
  | @work x₀ sent p₀ c r t₀ hx hp hnow hb hid =>
    by_cases hpp : p = p₀
    · subst hpp
      have hcall := ((hw.base.claiming p x₀ sent hp).2.2 _ hx).1
      simp only at hcall
      have hold : Custody host w p t₀ :=
        .claimed hp hx (by simp [granted, hcall, claimCall, hb, hid])
      refine ⟨fun h => ?_, fun h => ?_⟩
      · obtain rfl := h.unique (.working (Function.update_self _ _ _)); exact hold
      · obtain rfl := h.unique hold; exact .working (Function.update_self _ _ _)
    · exact custody_drop_iff hpp hx rfl rfl rfl t
  | @back x₀ p₀ c r q hx hp hq ht =>
    by_cases hpp : p = p₀
    · subst hpp
      refine ⟨fun h => absurd ?_ h.not_atRest, fun h => ?_⟩
      · rw [goto_pc_self]; exact hq
      · exfalso
        cases h with
        | @claimed x sent _ _ hp' hx' ht' =>
          -- the response brought no task
          rw [hp'] at hp
          obtain rfl := hp.1
          rw [hx] at hx'
          simp only [Option.some.injEq, Flight.mk.injEq, true_and] at hx'
          obtain ⟨rfl, rfl⟩ := hx'
          have hcode := hw.codes _ _ _ _ _ hx ht'
          obtain ⟨-, hb, hid⟩ := granted_iff.1 ht'
          exact hid (ht sent hp' (by omega) t hb)
        | working hp' => rw [hp'] at hp; exact hp
        | acking hp' hx' =>
          rw [hp'] at hp
          obtain rfl := hp.1
          rw [hx] at hx'
          simp at hx'
    · exact custody_drop_iff hpp hx rfl rfl rfl t
  | serve => exact absurd rfl (hs _)
  | lose | abandon | kill => exact absurd trivial hl

/-- When the broker serves a request, its process gets the lease that is granted, if any, and
answers for nothing else; the others keep what they have. -/
theorem custody_serve (hw : w.Settled host) {x : ℕ} {p : ι} {c : Call}
    (hx : w.net x = some ⟨p, c, none⟩) {q : ι} {t : Task} :
    Custody host { w with
        queue := serve w.now c w.queue
        net := Function.update w.net x (some ⟨p, c, some (handle w.now c w.queue.broker).1⟩) } q t ↔
      if q = p then granted c (handle w.now c w.queue.broker).1 = some t
      else Custody host w q t := by
  set r := (handle w.now c w.queue.broker).1 with hr
  by_cases hqp : q = p
  · subst hqp
    rw [if_pos rfl]
    -- the call is the claim or the acknowledgement that `p` waits for
    rcases hw.awaited x _ hx with ⟨sent, hp⟩ | ⟨u, sent, hp, hcall⟩
    · simp only at hp
      constructor
      · intro h
        cases h with
        | claimed hp' hx' ht' =>
          simp only [hp] at hp'
          obtain ⟨rfl, rfl⟩ := Pc.claiming.inj hp'
          simp only [Function.update_self, Option.some.injEq, Flight.mk.injEq, true_and] at hx'
          obtain ⟨rfl, rfl⟩ := hx'
          exact ht'
        | working hp' => simp only [hp] at hp'; cases hp'
        | acking hp' => simp only [hp] at hp'; cases hp'
      · intro h
        exact .claimed hp (Function.update_self _ _ _) h
    · simp only at hp hcall
      constructor
      · intro h
        cases h with
        | claimed hp' => simp only [hp] at hp'; cases hp'
        | working hp' => simp only [hp] at hp'; cases hp'
        | acking hp' hx' =>
          simp only [hp] at hp'
          obtain ⟨rfl, rfl, rfl⟩ := Pc.acking.inj hp'
          simp at hx'
      · intro h
        rw [hcall] at h
        cases h
  · -- the flight of another process is another flight
    rw [if_neg hqp]
    have hne : ∀ {y : ℕ} {m n : Flight ι}, m.proc = q → n.proc = p → w.net x = some n →
        (Function.update w.net x (some ⟨p, c, some r⟩) y = some m ↔ w.net y = some m) := by
      intro y m n hm hn hx
      rw [Function.update_apply]
      split
      · rename_i hy
        subst hy
        constructor
        · intro h
          obtain rfl := Option.some.inj h
          exact absurd hm.symm hqp
        · intro h
          obtain rfl := Option.some.inj (h.symm.trans hx)
          exact absurd (hm.symm.trans hn) hqp
      · exact Iff.rfl
    exact ⟨fun h => h.congr rfl fun y m hy hm => (hne hm rfl hx).1 hy,
      fun h => h.congr rfl fun y m hy hm => (hne hm rfl hx).2 hy⟩

/-! ## Each part is kept -/

theorem awaited_step (hw : w.Settled host) (h : Move host w l w') (hl : ¬l.Faulty) :
    w'.Awaited host := by
  -- a message of a process the step is not about
  have other : ∀ {x : ℕ} {m : Flight ι}, w.net x = some m → w'.pc m.proc = w.pc m.proc →
      (∃ sent, w'.pc m.proc = .claiming x sent) ∨
        ∃ t sent, w'.pc m.proc = .acking t x sent ∧ m.call = ackCall t.id (host m.proc) := by
    intro x m hx hpc
    rw [hpc]
    exact hw.awaited x m hx
  have drop : ∀ {p : ι} {x y : ℕ} {m : Flight ι}, (w.pc p).Waits x w.now →
      Function.update w.net x none y = some m → m.proc ≠ p ∧ w.net y = some m := by
    intro p x y m hp hy
    rw [Function.update_apply] at hy
    split at hy
    · cases hy
    · rename_i hne
      refine ⟨hw.proc_ne hy (fun sent hc => ?_) (fun t sent hc => ?_), hy⟩
      · rw [hc] at hp; exact hne hp.1
      · rw [hc] at hp; exact hne hp.1
  have send : ∀ {p : ι} {y : ℕ} {m n : Flight ι}, (∀ x, w.net x = some m → m.proc ≠ p) →
      Function.update w.net w.fresh (some n) y = some m →
        (y = w.fresh ∧ n = m) ∨ (m.proc ≠ p ∧ w.net y = some m) := by
    intro p y m n hp hy
    rw [Function.update_apply] at hy
    split at hy
    · exact .inl ⟨‹_›, Option.some.inj hy⟩
    · exact .inr ⟨hp y hy, hy⟩
  intro x m hx
  cases h with
  | tick | client | cancel => exact hw.awaited x m hx
  | @rest _ p q _ hp =>
    refine other hx (goto_pc_of_ne w q (hw.proc_ne hx (fun sent hc => ?_) fun t sent hc => ?_))
    · rw [hc] at hp; exact hp
    · rw [hc] at hp; exact hp
  | @claim p hp =>
    rcases send (fun y hy => hw.proc_ne (p := p) hy (by simp [hp]) (by simp [hp])) hx with
      ⟨rfl, rfl⟩ | ⟨hne, hx⟩
    · exact .inl ⟨w.now, send_pc_self _ _ _ _⟩
    · exact other hx (send_pc_of_ne _ _ _ hne)
  | @finish p t since hp =>
    rcases send (fun y hy => hw.proc_ne (p := p) hy (by simp [hp]) (by simp [hp])) hx with
      ⟨rfl, rfl⟩ | ⟨hne, hx⟩
    · exact .inr ⟨t, w.now, send_pc_self _ _ _ _, rfl⟩
    · exact other hx (send_pc_of_ne _ _ _ hne)
  | @serve y p c hy =>
    simp only [Function.update_apply] at hx
    split at hx
    · rename_i hxy
      subst hxy
      obtain rfl := Option.some.inj hx
      exact hw.awaited x ⟨p, c, none⟩ hy
    · exact hw.awaited x m hx
  | @work y sent p c r t hy hp hnow =>
    obtain ⟨hne, hx⟩ := drop (by rw [hp]; exact ⟨rfl, hnow⟩) hx
    exact other hx (goto_pc_of_ne _ _ hne)
  | @back y p c r q hy hp =>
    obtain ⟨hne, hx⟩ := drop hp hx
    exact other hx (goto_pc_of_ne _ _ hne)
  | lose | abandon | kill => exact absurd trivial hl

theorem acking_step (hw : w.Settled host) (h : Move host w l w') :
    ∀ p t x sent, w'.pc p = .acking t x sent → sent + timeout ≤ t.deadline := by
  intro p t x sent hp
  rcases move_pc h hp id with ⟨hp, -⟩ | ⟨heq, -⟩ | ⟨u, since, hp', heq⟩ | ⟨u, heq, -⟩
  · exact hw.acking p t x sent hp
  · cases heq
  · obtain ⟨rfl, rfl, rfl⟩ := Pc.acking.inj heq
    -- the sleep ended 5 s before the margin of the lease
    have hin := (hw.base.execs _ (hw.base.working p t since hp')).within
    have hpr := hw.prompt p
    rw [hp'] at hpr
    simp only [Pc.Prompt] at hpr
    simp only at hin
    have htimeout : timeout = 5 * second := rfl
    omega
  · cases heq

theorem codes_step (hw : w.Settled host) (h : Move host w l w') :
    ∀ x p c r t, w'.net x = some ⟨p, c, some r⟩ → granted c r = some t → r.code = 200 := by
  intro x p c r t hx ht
  rcases move_flight h hx with hx | ⟨-, -, -, hn, -⟩ | ⟨-, -, hr, -⟩
  · exact hw.codes x p c r t hx ht
  · cases hn
  · have hr' : r = (handle w.now c w.queue.broker).1 := Option.some.inj hr
    rw [hr'] at ht ⊢
    exact (handle_granted ht).2.1

/-! ## The books are kept -/

/-- Another task stays where it is when one is replaced. -/
theorem mem_replace {pre post : List Task} {t u x : Task} (hx : x ∈ pre ++ t :: post) (hne : x ≠ t) :
    x ∈ pre ++ u :: post := by
  simp only [List.mem_append, List.mem_cons] at hx ⊢
  rcases hx with hx | rfl | hx
  · exact .inl hx
  · exact absurd rfl hne
  · exact .inr (.inr hx)

/-- One task changes, and one event is recorded. -/
theorem Broker.Smooth.touch {pre post : List Task} {t u : Task} {es : List Event} {ev : Event}
    (h : (Broker.mk (pre ++ t :: post) es).Smooth)
    (hk : ev.kind ≠ .expired ∧ ev.kind ≠ .rejectedAck) (hatt : u.attempts ≤ 1)
    (hfree : u.free = true → u.attempts = 0) :
    (Broker.mk (pre ++ u :: post) (es ++ [ev])).Smooth := by
  have hold : ∀ x ∈ pre ++ u :: post, x = u ∨ x ∈ pre ++ t :: post := by
    intro x hx
    simp only [List.mem_append, List.mem_cons] at hx ⊢
    tauto
  refine ⟨?_, ?_, ?_⟩
  · intro e he
    rcases List.mem_append.1 he with he | he
    · exact h.events e he
    · obtain rfl := List.mem_singleton.1 he
      exact hk
  · intro x hx
    rcases hold x hx with rfl | hx
    · exact hatt
    · exact h.attempts x hx
  · intro x hx hxf
    rcases hold x hx with rfl | hx
    · exact hfree hxf
    · exact h.free x hx hxf

/-- **A served request about one task** keeps the books, if only its process can answer for the
task, and does after exactly if the task is held. -/
theorem books_serve (hw : w.Settled host) {x : ℕ} {p : ι} {c : Call} {pre post : List Task}
    {t u : Task} {ev : Event} (hx : w.net x = some ⟨p, c, none⟩)
    (hts : w.queue.broker.tasks = pre ++ t :: post)
    (hserve : (handle w.now c w.queue.broker).2 =
      ⟨pre ++ u :: post, w.queue.broker.events ++ [ev]⟩)
    (hsmooth : (Broker.mk (pre ++ u :: post) (w.queue.broker.events ++ [ev])).Smooth)
    (hothers : ∀ q, q ≠ p → ¬Custody host w q t) (hself : ∀ v, Custody host w p v → v = t)
    (hgrant : ∀ v, granted c (handle w.now c w.queue.broker).1 = some v ↔
      v = u ∧ u.done = false ∧ u.worker = host p)
    (hheld : u.done = false → u.worker = host p) :
    World.Books host { w with
      queue := serve w.now c w.queue
      net := Function.update w.net x (some ⟨p, c, some (handle w.now c w.queue.broker).1⟩) } := by
  have hbroker : (serve w.now c w.queue).broker =
      ⟨pre ++ u :: post, w.queue.broker.events ++ [ev]⟩ := hserve
  have hnum : (Broker.mk (pre ++ t :: post) []).Numbered := by
    rw [← hts]; exact hw.base.ghost.numbered
  refine ⟨?_, ?_, by rw [hbroker]; exact hsmooth⟩
  · -- what a process has in custody, the broker holds for it
    intro q v hv
    rw [hbroker]
    rw [custody_serve hw hx] at hv
    split at hv
    · rename_i hqp
      subst hqp
      obtain ⟨rfl, hd, hwk⟩ := (hgrant v).1 hv
      exact ⟨by simp, hd, hwk⟩
    · rename_i hqp
      obtain ⟨h1, h2, h3⟩ := hw.books.custody q v hv
      refine ⟨mem_replace (hts ▸ h1) ?_, h2, h3⟩
      rintro rfl
      exact hothers q hqp hv
  · -- what the broker holds, some process has in custody
    intro v hv hd hwk
    rw [hbroker] at hv
    rcases hnum.mem_touch hv with rfl | ⟨hv, hid⟩
    · exact ⟨p, (custody_serve hw hx).2 (by rw [if_pos rfl]; exact (hgrant v).2 ⟨rfl, hd, hheld hd⟩)⟩
    · obtain ⟨q, hq⟩ := hw.books.held v (hts ▸ hv) hd hwk
      have hqp : q ≠ p := by
        rintro rfl
        exact hid (congrArg Task.id (hself v hq))
      exact ⟨q, (custody_serve hw hx).2 (by rw [if_neg hqp]; exact hq)⟩

/-- **A served claim** puts the lease in the custody of the process that asked. -/
theorem books_claim (hw : w.Settled host) (hhost : ∀ p, host p ≠ "") {p : ι} {x sent : ℕ}
    (hp : w.pc p = .claiming x sent) (hx : w.net x = some ⟨p, claimCall (host p), none⟩) :
    World.Books host { w with
      queue := serve w.now (claimCall (host p)) w.queue
      net := Function.update w.net x (some ⟨p, claimCall (host p),
        some (handle w.now (claimCall (host p)) w.queue.broker).1⟩) } := by
  -- a process that waits for its claim answers for no task
  have hnone : ∀ t, ¬Custody host w p t := by
    intro t h
    cases h with
    | claimed hp' hx' =>
      rw [hp] at hp'
      obtain ⟨rfl, rfl⟩ := Pc.claiming.inj hp'
      rw [hx] at hx'
      simp at hx'
    | working hp' => rw [hp] at hp'; cases hp'
    | acking hp' => rw [hp] at hp'; cases hp'
  have hserve := handle_claimCall hw.reap (hhost p)
  rcases claimLocked_cases w.now (host p) w.queue.broker with
    ⟨pre, t, post, hts, -, hfree, heq⟩ | ⟨-, heq⟩
  · rw [heq] at hserve
    have hmem : t ∈ w.queue.broker.tasks := by rw [hts]; simp
    have hid : t.id ≠ 0 := by
      have := (hw.base.ghost.numbered.mem hmem).1
      omega
    obtain ⟨hdone, hwk⟩ := free_iff.1 hfree
    refine books_serve hw hx hts (by rw [hserve]) ?_ ?_ (fun v hv => absurd hv (hnone v)) ?_
      fun _ => rfl
    · -- the task was never leased before
      have hold : (Broker.mk (pre ++ t :: post) w.queue.broker.events).Smooth := by
        rw [← hts]; exact hw.books.smooth
      have hnew := hw.books.smooth.free t hmem hfree
      refine hold.touch (by simp) (by simp [hnew]) fun hf => ?_
      exact absurd (free_iff.1 hf).2 (hhost p)
    · intro q _ hq
      have := (hw.books.custody q t hq).2.2
      exact hhost q (this.symm.trans hwk)
    · intro v
      rw [hserve, granted_iff]
      constructor
      · rintro ⟨-, hv, -⟩
        exact ⟨(Body.task.inj hv).symm, hdone, rfl⟩
      · rintro ⟨rfl, -⟩
        exact ⟨rfl, rfl, hid⟩
  · -- nothing was free: the answer is empty and the broker unchanged
    rw [heq] at hserve
    have hgrant : granted (claimCall (host p)) (handle w.now (claimCall (host p)) w.queue.broker).1 =
        none := by
      rw [hserve]; simp [granted, claimCall]
    have hbroker : (serve w.now (claimCall (host p)) w.queue).broker = w.queue.broker := by
      simp only [serve, hserve]
    refine ⟨?_, ?_, by rw [hbroker]; exact hw.books.smooth⟩
    · intro q u hu
      rw [hbroker]
      rw [custody_serve hw hx] at hu
      split at hu
      · rw [hgrant] at hu; cases hu
      · exact hw.books.custody q u hu
    · intro u hu hd huw
      rw [hbroker] at hu
      obtain ⟨q, hq⟩ := hw.books.held u hu hd huw
      have hqp : q ≠ p := by rintro rfl; exact hnone u hq
      exact ⟨q, (custody_serve hw hx).2 (by rw [if_neg hqp]; exact hq)⟩

/-- **A served acknowledgement** completes the task, and nobody answers for it any more. -/
theorem books_ack (hw : w.Settled host) (hinj : Function.Injective host) {p : ι} {t : Task}
    {x sent : ℕ} (hp : w.pc p = .acking t x sent)
    (hx : w.net x = some ⟨p, ackCall t.id (host p), none⟩) :
    World.Books host { w with
      queue := serve w.now (ackCall t.id (host p)) w.queue
      net := Function.update w.net x (some ⟨p, ackCall t.id (host p),
        some (handle w.now (ackCall t.id (host p)) w.queue.broker).1⟩) } := by
  have hcust : Custody host w p t := .acking hp hx
  obtain ⟨hmem, hdone, hwk⟩ := hw.books.custody p t hcust
  obtain ⟨pre, post, hts, heq⟩ := handle_ackCall hw.base.ghost.numbered hw.reap hmem hdone
  rw [hwk] at heq
  refine books_serve hw hx hts heq ?_ ?_ (fun v hv => hv.unique hcust) ?_ fun hd => by cases hd
  · have hold : (Broker.mk (pre ++ t :: post) w.queue.broker.events).Smooth := by
      rw [← hts]; exact hw.books.smooth
    exact hold.touch (by simp) (hw.books.smooth.attempts t hmem) (by simp [Task.free])
  · intro q hqp hq
    have := (hw.books.custody q t hq).2.2
    exact hqp (hinj (this.symm.trans hwk))
  · intro v
    rw [granted_iff]
    constructor
    · rintro ⟨hpath, -⟩
      cases hpath
    · rintro ⟨-, hd, -⟩
      cases hd

theorem books_step (hw : w.Settled host) (hinj : Function.Injective host) (hhost : ∀ p, host p ≠ "")
    (h : Move host w l w') (hl : ¬l.Faulty) : w'.Books host := by
  -- the broker has no part in the step
  have quiet : w'.queue = w.queue → (∀ x, l ≠ .serve x) → w'.Books host := by
    intro hq hs
    refine ⟨?_, ?_, by rw [hq]; exact hw.books.smooth⟩
    · intro p t ht
      rw [hq]
      exact hw.books.custody p t ((custody_iff hw h hl hs p t).1 ht)
    · intro t ht hd hwk
      rw [hq] at ht
      obtain ⟨p, hp⟩ := hw.books.held t ht hd hwk
      exact ⟨p, (custody_iff hw h hl hs p t).2 hp⟩
  cases h with
  | client hclaim hack => exact books_client hw hclaim hack
  | @serve x p c hx =>
    rcases hw.awaited x _ hx with ⟨sent, hp⟩ | ⟨t, sent, hp, hcall⟩
    · have hcall := ((hw.base.claiming p x sent hp).2.2 _ hx).1
      simp only at hcall
      subst hcall
      exact books_claim hw hhost hp hx
    · simp only at hp hcall
      subst hcall
      exact books_ack hw hinj hp hx
  | tick | cancel | claim | finish | work | back => exact quiet rfl (by simp)
  | rest hl' =>
    refine quiet rfl fun x hx => ?_
    rcases hl' with rfl | rfl <;> cases hx
  | lose | abandon | kill => exact absurd trivial hl

/-- A prompt process sleeps within the margin of the lease. -/
theorem Pc.Prompt.onTime {q : Pc} {now : ℕ} (h : q.Prompt now) : q.OnTime (15 * second) now := by
  cases q with
  | working t since => simp only [Pc.Prompt, Pc.OnTime] at h ⊢; omega
  | check | post | claiming | backoff | idle | acking | exited => trivial

/-- **A step without faults keeps the invariant.** -/
theorem World.Settled.step (hw : w.Settled host) (hinj : Function.Injective host)
    (hhost : ∀ p, host p ≠ "") (h : Move host w l w') (hl : ¬l.Faulty)
    (hp : ∀ p, (w'.pc p).Prompt w'.now) : w'.Settled host where
  base := hw.base.step h fun p => (hp p).onTime
  prompt := hp
  awaited := awaited_step hw h hl
  acking := acking_step hw h
  codes := codes_step hw h
  books := books_step hw hinj hhost h hl

theorem World.Settled.of_reachable (hinj : Function.Injective host) (hhost : ∀ p, host p ≠ "")
    (h : (promptLts host).Reachable w) : w.Settled host := by
  refine Lts.Reachable.invariant (P := World.Settled host) ?_ ?_ h
  · rintro _ rfl
    refine ⟨.of_reachable (.of_init rfl), fun _ => trivial, ?_, ?_, ?_, ⟨?_, ?_, ⟨?_, ?_, ?_⟩⟩⟩
    · intro _ _ h; cases h
    · intro _ _ _ _ h; cases h
    · intro _ _ _ _ _ h; cases h
    · intro p t h
      exact absurd trivial h.not_atRest
    · intro _ h; cases h
    · intro _ h; cases h
    · intro _ h; cases h
    · intro _ h; cases h
  · rintro w l w' - ih ⟨hst, hl, hp⟩
    exact ih.step hinj hhost (step_move hst) hl hp

/-! ## Exactly once -/

/-- **Exactly once in fault-free runs.** With distinct host names, exchanges that complete in time
and sleeps that overshoot by less than 10 s, whoever is cancelled and when: nothing expires,
no `/ack` is rejected, no task is claimed twice, and whenever every consumer is at rest a task
was never claimed, or it is done with one claim and one `/ack`. -/
theorem exactly_once (hinj : Function.Injective host) (hhost : ∀ p, host p ≠ "")
    (hr : (promptLts host).Reachable w) :
    (∀ ev ∈ w.queue.broker.events, ev.kind ≠ .expired ∧ ev.kind ≠ .rejectedAck) ∧
    (counts w.queue.broker.tasks).retries = 0 ∧
    (∀ t ∈ w.queue.broker.tasks, t.attempts ≤ 1) ∧
    ((∀ p, (w.pc p).AtRest) → ∀ t ∈ w.queue.broker.tasks,
      (w.queue.broker.events.countP (fun e => e.kind == .claim && e.id == t.id) = 0 ∨
        t.done = true ∧
          w.queue.broker.events.countP (fun e => e.kind == .claim && e.id == t.id) = 1 ∧
          w.queue.broker.events.countP (fun e => e.kind == .ack && e.id == t.id) = 1)) := by
  have hw := World.Settled.of_reachable hinj hhost hr
  refine ⟨hw.books.smooth.events, ?_, hw.books.smooth.attempts, ?_⟩
  · rw [counts_eq]
    refine List.sum_eq_zero_iff_forall_eq_nat.2 fun n hn => ?_
    obtain ⟨t, ht, rfl⟩ := List.mem_map.1 hn
    have := hw.books.smooth.attempts t ht
    omega
  · intro hrest t ht
    have hn := safe_queue (safe_of_named hw.base.queue)
    have hclaims := attempts_eq hn ht
    have hacks := acks_eq hn.of_restrict ht
    have hle := hw.books.smooth.attempts t ht
    cases hd : t.done with
    | true =>
      have hpos := attempts_pos hn ht hd
      rw [if_pos hd] at hacks
      exact .inr ⟨rfl, hclaims.symm.trans (by omega), hacks⟩
    | false =>
      -- a held task would be in the custody of somebody who is not at rest
      have hwk : t.worker = "" := by
        by_contra hwk
        obtain ⟨p, hp⟩ := hw.books.held t ht hd hwk
        exact hp.not_atRest (hrest p)
      exact .inl (hclaims.symm.trans (hw.books.smooth.free t ht (free_iff.2 ⟨hd, hwk⟩)))

/-- Two tasks and two consumers, one of them cancelled while it works. -/
def drain : List (Label Bool) :=
  [.client (enqueueCall 2 5), .go false, .go true, .go false, .go true, .serve 1, .serve 0,
    .tick (4 * second), .deliver 0, .deliver 1, .cancel false, .tick (6 * second), .go false,
    .go true, .serve 2, .serve 3, .deliver 2, .deliver 3, .go false]

def drained : World Bool :=
  (drain.foldlM (Lts.guard (World.step hosts)
    fun _ l w => ¬l.Faulty ∧ ∀ p, (w.pc p).Prompt w.now) {}).get (by decide)

theorem hosts_injective : Function.Injective hosts := by
  intro p q h
  revert p q
  decide

theorem drained_reachable : (promptLts hosts).Reachable drained :=
  Lts.reachable_of_exec drain (by decide)

theorem exactly_once_drained :
    drained.queue.broker.tasks.map Task.done = [true, true] ∧
      ∀ ev ∈ drained.queue.broker.events, ev.kind ≠ .expired ∧ ev.kind ≠ .rejectedAck :=
  ⟨by decide, (exactly_once hosts_injective (by decide) drained_reachable).1⟩

end K8sDev.Queue

import K8sDev.Proof.Network
import K8sDev.Proof.Audit

/-!
# Work on a task is exclusive

Over a network that loses and delays messages, a lease outlives the work done under it:
a response is taken within 5 s of the claim, the sleep overshoots by at most 15 s, and the
lease is 20 s longer than the task. A later lease of the task is granted after the deadline
of this one, so no two consumers work on a task at the same time; and an `/ack` is only sent
when the work is done.

* `World.OK`: the invariant; its fields are kept one by one (`tokens_step`, ...).
* `at_least_once_exclusive`: both results for every run.
-/

namespace K8sDev.Queue

variable {ι : Type} {host : ι → String} {w w' : World ι} {l : Label ι}

/-- The claim a response in flight hands out. -/
def Flight.token (m : Flight ι) : Option Task := m.resp.bind (granted m.call)

/-- The work went on for the whole duration and was over at `now`. -/
def Exec.Full (now : ℕ) (e : Exec ι) : Prop :=
  ∃ f, e.ended = some f ∧ e.received + e.task.duration ≤ f ∧ f ≤ now

/-! ## The invariant -/

/-- Requests are the claims of their process, and acknowledgements of work that is done. -/
def World.Exchanges (host : ι → String) (w : World ι) : Prop :=
  ∀ x m, w.net x = some m → x < w.fresh ∧
    (m.call = claimCall (host m.proc) ∨
      ∃ e ∈ w.execs, e.proc = m.proc ∧ e.Full w.now ∧ m.call = ackCall e.task.id (host m.proc))

/-- Claims in flight were granted to their process. -/
def World.Tokens (host : ι → String) (w : World ι) : Prop :=
  ∀ x m t, w.net x = some m → m.token = some t →
    t ∈ grants w.queue.log ∧ t.worker = host m.proc

/-- The lease a process waits for starts no earlier than its request. -/
def World.Claiming (host : ι → String) (w : World ι) : Prop :=
  ∀ p x sent, w.pc p = .claiming x sent → x < w.fresh ∧ sent ≤ w.now ∧
    ∀ m, w.net x = some m → m.call = claimCall (host m.proc) ∧
      ∀ t, m.token = some t → sent + t.lease ≤ t.deadline

/-- A process at work has its work on record. -/
def World.Working (w : World ι) : Prop :=
  ∀ p t since, w.pc p = .working t since → ⟨p, t, since, none⟩ ∈ w.execs

/-- The work on a granted claim, and its margins within the lease. -/
structure Exec.OK (host : ι → String) (w : World ι) (e : Exec ι) : Prop where
  granted : e.task ∈ grants w.queue.log
  worker : e.task.worker = host e.proc
  past : e.received ≤ w.now
  after : e.task.deadline ≤ e.received + e.task.lease
  within : e.received + e.task.duration + 15 * second ≤ e.task.deadline
  running : e.ended = none → w.pc e.proc = .working e.task e.received
  lapsed : ∀ f, e.ended = some f → f ≤ e.task.deadline

/-- A claim is in one place only: in one response, or received once. -/
structure World.Once (w : World ι) : Prop where
  flights : ∀ x y m n t, w.net x = some m → w.net y = some n → m.token = some t →
    n.token = some t → x = y
  received : ∀ x m e, w.net x = some m → e ∈ w.execs → m.token ≠ some e.task
  execs : (w.execs.map Exec.task).Nodup

/-- A recorded `ack` comes after full work on the task. -/
def World.Acked (host : ι → String) (w : World ι) : Prop :=
  ∀ ev ∈ w.queue.broker.events, ev.kind = .ack →
    ∃ e ∈ w.execs, e.Full ev.time ∧ host e.proc = ev.worker ∧ e.task.id = ev.id

structure World.OK (host : ι → String) (w : World ι) : Prop where
  queue : namedBrokerLts.Reachable w.queue
  clock : w.queue.clock ≤ w.now
  onTime : ∀ p, (w.pc p).OnTime (15 * second) w.now
  exchanges : w.Exchanges host
  tokens : w.Tokens host
  claiming : w.Claiming host
  working : w.Working
  execs : ∀ e ∈ w.execs, e.OK host w
  once : w.Once
  acked : w.Acked host

/-! ## What the invariant says -/

theorem World.OK.ghost (hw : w.OK host) : w.queue.ghost.OK :=
  .of_reachable (served_queue hw.queue.of_restrict)

/-- The claim a served request hands out is a new one, for the process that asked. -/
theorem served_token (hw : w.OK host) {x : ℕ} {m : Flight ι} {t : Task}
    (hx : w.net x = some ⟨m.proc, m.call, none⟩)
    (ht : granted m.call (handle w.now m.call w.queue.broker).1 = some t) :
    t ∈ grants (serve w.now m.call w.queue).log ∧ t ∉ grants w.queue.log ∧
      t.worker = host m.proc ∧ t.deadline = w.now + t.lease := by
  obtain ⟨hpath, -, hwk, hdl⟩ := handle_granted ht
  have hgr := grants_serve w.now m.call w.queue
  rw [ht] at hgr
  have hr : brokerLts.Reachable (serve w.now m.call w.queue) :=
    (hw.queue.of_restrict).step (a := (w.now, m.call)) ⟨hw.clock, rfl⟩
  have hnd : (grants (serve w.now m.call w.queue).log).Nodup :=
    (Ghost.OK.of_reachable (served_queue hr)).nodup
  rw [hgr] at hnd ⊢
  refine ⟨by simp, fun hmem => ?_, ?_, hdl⟩
  · exact (List.nodup_append.1 hnd).2.2 t hmem t (by simp) rfl
  · rcases (hw.exchanges x _ hx).2 with hc | ⟨e, -, -, -, hc⟩
    · simp only at hc
      rw [hwk, hc]
      simp [claimCall, Request.get]
    · simp only at hc
      rw [hc] at hpath
      cases hpath

/-- An `/ack` is sent for work that is done. -/
theorem ack_flight (hw : w.OK host) {x : ℕ} {p : ι} {c : Call}
    (hx : w.net x = some ⟨p, c, none⟩) (hc : c.path = .ack) :
    ∃ e ∈ w.execs, e.proc = p ∧ e.Full w.now ∧ c = ackCall e.task.id (host p) := by
  rcases (hw.exchanges x _ hx).2 with hcall | h
  · simp only at hcall
    rw [hcall] at hc
    cases hc
  · exact h

/-- The work on one claim ended before the other claim was received. -/
def Exec.Before (e e' : Exec ι) : Prop := ∃ f, e.ended = some f ∧ f < e'.received

/-- The work on a claim ends before a claim granted after its deadline is received. -/
theorem World.OK.before (hw : w.OK host) {e e' : Exec ι} (he : e ∈ w.execs) (he' : e' ∈ w.execs)
    (h : e.task.deadline + e'.task.lease < e'.task.deadline) : e.Before e' := by
  have hok := hw.execs e he
  have hafter := (hw.execs e' he').after
  have hpast := (hw.execs e' he').past
  cases hend : e.ended with
  | some f => exact ⟨f, hend, by have := hok.lapsed f hend; omega⟩
  | none =>
    -- it cannot run still: its sleep is over by the deadline
    have hlate := hw.onTime e.proc
    rw [hok.running hend] at hlate
    have hin := hok.within
    simp only [Pc.OnTime] at hlate
    omega

/-- The work on two claims of one task does not overlap. -/
theorem World.OK.exclusive (hw : w.OK host) {e e' : Exec ι} (he : e ∈ w.execs) (he' : e' ∈ w.execs)
    (hid : e.task.id = e'.task.id) (hne : e ≠ e') : e.Before e' ∨ e'.Before e := by
  have htask : e.task ≠ e'.task := fun h => hne (List.inj_on_of_nodup_map hw.once.execs he he' h)
  exact (hw.ghost.apart (hw.execs e he).granted (hw.execs e' he').granted hid htask).imp
    (hw.before he he') (hw.before he' he)

/-! ## What a step leaves in place -/

theorem Exec.Full.mono {now now' : ℕ} {e : Exec ι} (h : e.Full now) (hle : now ≤ now') :
    e.Full now' := by
  obtain ⟨f, h1, h2, h3⟩ := h
  exact ⟨f, h1, h2, h3.trans hle⟩

variable [DecidableEq ι]

theorem finish_task (p : ι) (now : ℕ) (e : Exec ι) : (e.finish p now).task = e.task := by
  unfold Exec.finish; split <;> rfl

theorem finish_of_ended {p : ι} {now : ℕ} {e : Exec ι} (h : e.ended ≠ none) :
    e.finish p now = e :=
  if_neg fun hc => h hc.2

theorem finish_of_ne {p : ι} {now : ℕ} {e : Exec ι} (h : e.proc ≠ p) : e.finish p now = e :=
  if_neg fun hc => h hc.1

/-- The clock, the numbers of exchanges, the grants and the finished work only grow. -/
structure World.Grows (w w' : World ι) : Prop where
  now : w.now ≤ w'.now
  fresh : w.fresh ≤ w'.fresh
  grants : ∀ t ∈ grants w.queue.log, t ∈ grants w'.queue.log
  execs : ∀ e ∈ w.execs, e.ended ≠ none → e ∈ w'.execs

theorem mem_grants_serve {now : ℕ} {c : Call} {h : Served} {t : Task} (ht : t ∈ grants h.log) :
    t ∈ grants (serve now c h).log := by
  rw [grants_serve]; exact List.mem_append_left _ ht

theorem mem_finish {p : ι} {e : Exec ι} (he : e ∈ w.execs) (hne : e.ended ≠ none) :
    e ∈ (w.finish p).execs :=
  List.mem_map.2 ⟨e, he, finish_of_ended hne⟩

theorem move_grows (h : Move host w l w') : w.Grows w' := by
  cases h with
  | tick d => exact ⟨Nat.le_add_right _ _, le_rfl, fun _ h => h, fun _ h _ => h⟩
  | client => exact ⟨le_rfl, le_rfl, fun _ h => mem_grants_serve h, fun _ h _ => h⟩
  | cancel | rest | back | lose | abandon => exact ⟨le_rfl, le_rfl, fun _ h => h, fun _ h _ => h⟩
  | claim => exact ⟨le_rfl, Nat.le_succ _, fun _ h => h, fun _ h _ => h⟩
  | finish => exact ⟨le_rfl, Nat.le_succ _, fun _ h => h, fun _ h hne => mem_finish h hne⟩
  | serve => exact ⟨le_rfl, le_rfl, fun _ h => mem_grants_serve h, fun _ h _ => h⟩
  | work => exact ⟨le_rfl, le_rfl, fun _ h => h, fun _ h _ => List.mem_append_left _ h⟩
  | kill => exact ⟨le_rfl, le_rfl, fun _ h => h, fun _ h hne => mem_finish h hne⟩

/-- **Where a flight comes from.** It was there, it is a new request, or its request was just
served. -/
theorem move_flight (h : Move host w l w') {x : ℕ} {m : Flight ι} (hx : w'.net x = some m) :
    w.net x = some m ∨
    (x = w.fresh ∧ w'.fresh = w.fresh + 1 ∧ w'.now = w.now ∧ m.resp = none ∧
      (m.call = claimCall (host m.proc) ∨
        ∃ t since, w.pc m.proc = .working t since ∧ since + t.duration ≤ w.now ∧
          m.call = ackCall t.id (host m.proc) ∧ w'.execs = w.execs.map (Exec.finish m.proc w.now))) ∨
    (w.net x = some ⟨m.proc, m.call, none⟩ ∧ w'.queue = serve w.now m.call w.queue ∧
      m.resp = some (handle w.now m.call w.queue.broker).1 ∧ ∀ y, y ≠ x → w'.net y = w.net y) := by
  -- only a send adds a flight, and only under the fresh number
  have send : ∀ {n : Flight ι}, Function.update w.net w.fresh (some n) x = some m →
      w.net x = some m ∨ x = w.fresh ∧ n = m := by
    intro n hx
    rw [Function.update_apply] at hx
    split at hx
    · exact .inr ⟨‹_›, Option.some.inj hx⟩
    · exact .inl hx
  have drop : ∀ {y : ℕ}, Function.update w.net y none x = some m → w.net x = some m := by
    intro y hx
    rw [Function.update_apply] at hx
    split at hx
    · cases hx
    · exact hx
  cases h with
  | tick | client | cancel | rest | abandon | kill => exact .inl hx
  | claim hp =>
    rcases send hx with hx | ⟨rfl, rfl⟩
    · exact .inl hx
    · exact .inr (.inl ⟨rfl, rfl, rfl, rfl, .inl rfl⟩)
  | @finish p t since hp hd =>
    rcases send hx with hx | ⟨rfl, rfl⟩
    · exact .inl hx
    · exact .inr (.inl ⟨rfl, rfl, rfl, rfl, .inr ⟨t, since, hp, hd, rfl, rfl⟩⟩)
  | @serve y p c hy =>
    simp only [Function.update_apply] at hx
    split at hx
    · rename_i hxy
      subst hxy
      obtain rfl := Option.some.inj hx
      exact .inr (.inr ⟨hy, rfl, rfl, fun y hne => Function.update_of_ne hne _ _⟩)
    · exact .inl hx
  | work | back | lose => exact .inl (drop hx)

/-- **Where work comes from.** It was there and still runs if it did, it has just ended, or a
response has just been taken. -/
theorem move_exec (hw : w.OK host) (h : Move host w l w') {e : Exec ι} (he : e ∈ w'.execs) :
    (e ∈ w.execs ∧ (e.ended = none → w'.pc e.proc = w.pc e.proc)) ∨
    (∃ e₀ ∈ w.execs, e₀.ended = none ∧ e = { e₀ with ended := some w.now }) ∨
    (∃ x sent c r, w.net x = some ⟨e.proc, c, some r⟩ ∧ w.pc e.proc = .claiming x sent ∧
      w.now ≤ sent + timeout ∧ granted c r = some e.task ∧ e.received = w.now ∧ e.ended = none ∧
      w'.pc e.proc = .working e.task w.now ∧ w'.net x = none) := by
  have running : e ∈ w.execs → e.ended = none → w.pc e.proc = .working e.task e.received :=
    fun he => (hw.execs e he).running
  -- another process moved
  have other : ∀ {p : ι} {q : Pc}, (∀ t since, w.pc p ≠ .working t since) → e ∈ w.execs →
      e.ended = none → Function.update w.pc p q e.proc = w.pc e.proc := by
    intro p q hp he hn
    refine Function.update_of_ne ?_ _ _
    rintro rfl
    exact hp _ _ (running he hn)
  -- the work of one process ended
  have ends : ∀ {p : ι} {q : Pc}, e ∈ w.execs.map (Exec.finish p w.now) →
      (e ∈ w.execs ∧ (e.ended = none → Function.update w.pc p q e.proc = w.pc e.proc)) ∨
      (∃ e₀ ∈ w.execs, e₀.ended = none ∧ e = { e₀ with ended := some w.now }) := by
    intro p q he
    obtain ⟨e₀, he₀, rfl⟩ := List.mem_map.1 he
    by_cases hp : e₀.proc = p ∧ e₀.ended = none
    · exact .inr ⟨e₀, he₀, hp.2, if_pos hp⟩
    · have heq : e₀.finish p w.now = e₀ := if_neg hp
      rw [heq]
      exact .inl ⟨he₀, fun hn => Function.update_of_ne (fun hc => hp ⟨hc, hn⟩) _ _⟩
  cases h with
  | tick | client | cancel | serve | lose => exact .inl ⟨he, fun _ => rfl⟩
  | @rest _ p q _ hp =>
    refine .inl ⟨he, other (fun t since hc => ?_) he⟩
    rw [hc] at hp; exact hp
  | @claim p hp =>
    refine .inl ⟨he, other (fun t since hc => ?_) he⟩
    rw [hp] at hc; cases hc
  | @finish p t since hp => exact (ends he).imp_right .inl
  | @work x sent p c r t hx hp hnow hb hid =>
    rcases List.mem_append.1 he with he | he
    · refine .inl ⟨he, other (fun t since hc => ?_) he⟩
      rw [hp] at hc; cases hc
    · obtain rfl := List.mem_singleton.1 he
      have hcall := ((hw.claiming p x sent hp).2.2 _ hx).1
      simp only at hcall
      refine .inr (.inr ⟨x, sent, c, r, hx, hp, hnow, ?_, rfl, rfl,
        Function.update_self _ _ _, Function.update_self _ _ _⟩)
      simp [granted, hcall, claimCall, hb, hid]
  | @back x p c r q hx hp =>
    refine .inl ⟨he, other (fun t since hc => ?_) he⟩
    rw [hc] at hp; exact hp
  | abandon hp => exact .inl ⟨he, other hp he⟩
  | kill p => exact (ends he).imp_right .inl

/-- **Where a program counter comes from**, unless the process is at rest: it was there and the
work of the process stays on record, or the process has just claimed, acknowledged or received. -/
theorem move_pc (h : Move host w l w') {p : ι} {q : Pc} (hp : w'.pc p = q) (hq : ¬q.AtRest) :
    (w.pc p = q ∧ ∀ e ∈ w.execs, e.proc = p → e ∈ w'.execs) ∨
    (q = .claiming w.fresh w.now ∧ w'.fresh = w.fresh + 1 ∧ w'.now = w.now ∧
      w'.net w.fresh = some ⟨p, claimCall (host p), none⟩) ∨
    (∃ t since, w.pc p = .working t since ∧ q = .acking t w.fresh w.now) ∨
    ∃ t, q = .working t w.now ∧ ⟨p, t, w.now, none⟩ ∈ w'.execs := by
  -- another process moved, or this one to another place
  have update : ∀ {p' : ι} {r : Pc}, Function.update w.pc p' r p = q → r ≠ q →
      p ≠ p' ∧ w.pc p = q := by
    intro p' r hp hne
    rw [Function.update_apply] at hp
    split at hp
    · exact absurd hp hne
    · exact ⟨‹_›, hp⟩
  have atRest : ∀ {r : Pc}, r.AtRest → r ≠ q := by
    rintro r hr rfl
    exact hq hr
  have ended : ∀ {p' : ι}, p ≠ p' → ∀ e ∈ w.execs, e.proc = p →
      e ∈ w.execs.map (Exec.finish p' w.now) := by
    rintro p' hne e he rfl
    exact List.mem_map.2 ⟨e, he, finish_of_ne hne⟩
  cases h with
  | tick | client | cancel | serve | lose => exact .inl ⟨hp, fun e he _ => he⟩
  | rest _ _ hr | back _ _ hr | abandon _ hr =>
    exact .inl ⟨(update hp (atRest hr)).2, fun e he _ => he⟩
  | @claim p' hp' =>
    by_cases hpp : p = p'
    · subst hpp
      rw [send_pc_self] at hp
      exact .inr (.inl ⟨hp.symm, rfl, rfl, send_net_self _ _ _ _⟩)
    · rw [send_pc_of_ne _ _ _ hpp] at hp
      exact .inl ⟨hp, fun e he _ => he⟩
  | @finish p' t since hp' hd =>
    by_cases hpp : p = p'
    · subst hpp
      rw [send_pc_self] at hp
      exact .inr (.inr (.inl ⟨t, since, hp', hp.symm⟩))
    · rw [send_pc_of_ne _ _ _ hpp] at hp
      exact .inl ⟨hp, ended hpp⟩
  | @work x sent p' c r t hx hp' hnow hb hid =>
    by_cases hpp : p = p'
    · subst hpp
      have hpc : Function.update w.pc p (.working t w.now) p = q := hp
      rw [Function.update_self] at hpc
      exact .inr (.inr (.inr ⟨t, hpc.symm, List.mem_append_right _ (List.mem_singleton_self _)⟩))
    · have hpc : Function.update w.pc p' (.working t w.now) p = q := hp
      rw [Function.update_of_ne hpp] at hpc
      exact .inl ⟨hpc, fun e he _ => List.mem_append_left _ he⟩
  | kill p' =>
    obtain ⟨hne, hp⟩ := update hp (atRest trivial)
    exact .inl ⟨hp, ended hne⟩

/-! ## Each part is kept -/

theorem exchanges_step (hw : w.OK host) (h : Move host w l w') : w'.Exchanges host := by
  have hg := move_grows h
  -- finished work stays on record
  have keep : ∀ {e : Exec ι}, e ∈ w.execs → e.Full w.now → e ∈ w'.execs ∧ e.Full w'.now := by
    intro e he hf
    refine ⟨hg.execs e he ?_, hf.mono hg.now⟩
    obtain ⟨f, hf, -⟩ := hf
    simp [hf]
  have old : ∀ {c : Call} {p : ι}, (c = claimCall (host p) ∨
      ∃ e ∈ w.execs, e.proc = p ∧ e.Full w.now ∧ c = ackCall e.task.id (host p)) →
      (c = claimCall (host p) ∨
        ∃ e ∈ w'.execs, e.proc = p ∧ e.Full w'.now ∧ c = ackCall e.task.id (host p)) := by
    rintro c p (hc | ⟨e, he, hp, hf, hc⟩)
    · exact .inl hc
    · exact .inr ⟨e, (keep he hf).1, hp, (keep he hf).2, hc⟩
  intro x m hx
  rcases move_flight h hx with hx | ⟨rfl, hfr, hnow, -, hc⟩ | ⟨hx, -, -⟩
  · obtain ⟨h1, h2⟩ := hw.exchanges x m hx
    exact ⟨h1.trans_le hg.fresh, old h2⟩
  · refine ⟨by omega, ?_⟩
    rcases hc with hc | ⟨t, since, hp, hd, hc, hex⟩
    · exact .inl hc
    · -- the work that has just ended
      have he := hw.working _ _ _ hp
      refine .inr ⟨⟨m.proc, t, since, some w.now⟩, ?_, rfl, ⟨w.now, rfl, hd, hg.now⟩, hc⟩
      rw [hex]
      exact List.mem_map.2 ⟨_, he, by simp [Exec.finish]⟩
  · obtain ⟨h1, h2⟩ := hw.exchanges x _ hx
    exact ⟨h1.trans_le hg.fresh, old h2⟩

theorem tokens_step (hw : w.OK host) (h : Move host w l w') : w'.Tokens host := by
  intro x m t hx ht
  rcases move_flight h hx with hx | ⟨-, -, -, hn, -⟩ | ⟨hx, hq, hr, -⟩
  · obtain ⟨h1, h2⟩ := hw.tokens x m t hx ht
    exact ⟨(move_grows h).grants t h1, h2⟩
  · simp [Flight.token, hn] at ht
  · have ht' : granted m.call (handle w.now m.call w.queue.broker).1 = some t := by
      simpa [Flight.token, hr] using ht
    obtain ⟨h1, -, h2, -⟩ := served_token hw hx ht'
    exact ⟨hq ▸ h1, h2⟩

theorem claiming_step (hw : w.OK host) (h : Move host w l w') : w'.Claiming host := by
  have hg := move_grows h
  intro p x sent hp
  rcases move_pc h hp id with ⟨hp, -⟩ | ⟨heq, hfr, hnow, hx⟩ | ⟨t, since, -, heq⟩ | ⟨t, heq, -⟩
  · obtain ⟨h1, h2, h3⟩ := hw.claiming p x sent hp
    refine ⟨h1.trans_le hg.fresh, h2.trans hg.now, fun m hx => ?_⟩
    rcases move_flight h hx with hx | ⟨hfresh, -⟩ | ⟨hx, -, hr, -⟩
    · exact h3 m hx
    · omega
    · refine ⟨(h3 _ hx).1, fun t ht => ?_⟩
      have ht' : granted m.call (handle w.now m.call w.queue.broker).1 = some t := by
        simpa [Flight.token, hr] using ht
      obtain ⟨-, -, -, hdl⟩ := served_token hw hx ht'
      omega
  · -- a new request
    obtain ⟨rfl, rfl⟩ := Pc.claiming.inj heq
    refine ⟨by omega, hnow ▸ le_rfl, fun m hm => ?_⟩
    obtain rfl := Option.some.inj (hx.symm.trans hm)
    exact ⟨rfl, by simp [Flight.token]⟩
  · cases heq
  · cases heq

theorem working_step (hw : w.OK host) (h : Move host w l w') : w'.Working := by
  intro p t since hp
  rcases move_pc h hp id with ⟨hp, hkeep⟩ | ⟨heq, -⟩ | ⟨u, since', -, heq⟩ | ⟨u, heq, he⟩
  · exact hkeep _ (hw.working p t since hp) rfl
  · cases heq
  · cases heq
  · obtain ⟨rfl, rfl⟩ := Pc.working.inj heq
    exact he

theorem execs_step (hw : w.OK host) (h : Move host w l w') : ∀ e ∈ w'.execs, e.OK host w' := by
  have hg := move_grows h
  intro e he
  rcases move_exec hw h he with ⟨he, hpc⟩ | ⟨e₀, he₀, hn, rfl⟩ |
    ⟨x, sent, c, r, hx, hp, hnow, ht, hrec, hn, hpc, -⟩
  · have hok := hw.execs e he
    exact ⟨hg.grants _ hok.granted, hok.worker, hok.past.trans hg.now, hok.after, hok.within,
      fun hn => (hpc hn).trans (hok.running hn), hok.lapsed⟩
  · have hok := hw.execs e₀ he₀
    refine ⟨hg.grants _ hok.granted, hok.worker, hok.past.trans hg.now, hok.after, hok.within,
      by simp, ?_⟩
    rintro f hf
    obtain rfl : w.now = f := by simpa using hf
    have hlate := hw.onTime e₀.proc
    rw [hok.running hn] at hlate
    exact hlate.trans hok.within
  · -- the response was taken in time
    obtain ⟨hmem, hwk⟩ := hw.tokens x _ e.task hx ht
    have hdl := ((hw.claiming _ x sent hp).2.2 _ hx).2 e.task ht
    have hpast := hw.ghost.lease_past hmem
    have hclk : w.queue.ghost.clock ≤ w.now := hw.clock
    refine ⟨hg.grants _ hmem, hwk, hrec ▸ hg.now, by omega, ?_, fun _ => by rw [hpc, hrec],
      by simp [hn]⟩
    have hlease : e.task.lease = e.task.duration + 20 * second := rfl
    have htimeout : timeout = 5 * second := rfl
    omega

/-- The claims worked on: one more when a response hands one out. -/
theorem move_tasks (hw : w.OK host) (h : Move host w l w') :
    w'.execs.map Exec.task = w.execs.map Exec.task ∨
      ∃ x m t, w.net x = some m ∧ m.token = some t ∧
        w'.execs.map Exec.task = w.execs.map Exec.task ++ [t] := by
  have ends : ∀ p : ι, (w.execs.map (Exec.finish p w.now)).map Exec.task = w.execs.map Exec.task := by
    intro p
    rw [List.map_map]
    exact List.map_congr_left fun e _ => finish_task p w.now e
  cases h with
  | tick | client | cancel | serve | lose | rest | back | abandon | claim => exact .inl rfl
  | finish => exact .inl (ends _)
  | kill p => exact .inl (ends p)
  | @work x sent p c r t hx hp hnow hb hid =>
    have hcall := ((hw.claiming p x sent hp).2.2 _ hx).1
    simp only at hcall
    exact .inr ⟨x, _, t, hx, by simp [Flight.token, granted, hcall, claimCall, hb, hid], by simp⟩

theorem once_step (hw : w.OK host) (h : Move host w l w') : w'.Once := by
  refine ⟨?_, ?_, ?_⟩
  · intro x y m n t hx hy hm hn
    rcases move_flight h hx with hx' | ⟨-, -, -, hnone, -⟩ | ⟨hx', hq, hr, hother⟩
    · rcases move_flight h hy with hy' | ⟨-, -, -, hnone, -⟩ | ⟨hy', hq, hr, -⟩
      · exact hw.once.flights x y m n t hx' hy' hm hn
      · simp [Flight.token, hnone] at hn
      · exact absurd (hw.tokens x m t hx' hm).1
          (served_token hw hy' (by simpa [Flight.token, hr] using hn)).2.1
    · simp [Flight.token, hnone] at hm
    · by_contra hne
      -- only one request was served, and its claim is new
      have hy' : w.net y = some n := by rw [← hother y (Ne.symm hne)]; exact hy
      exact absurd (hw.tokens y n t hy' hn).1
        (served_token hw hx' (by simpa [Flight.token, hr] using hm)).2.1
  · intro x m e hx he hm
    rcases move_flight h hx with hx' | ⟨-, -, -, hnone, -⟩ | ⟨hx', hq, hr, hother⟩
    · rcases move_exec hw h he with ⟨he, -⟩ | ⟨e₀, he₀, -, rfl⟩ |
        ⟨y, sent, c, r, hy, -, -, ht, -, -, -, hgone⟩
      · exact hw.once.received x m e hx' he hm
      · exact hw.once.received x m e₀ hx' he₀ hm
      · obtain rfl := hw.once.flights x y m _ e.task hx' hy hm ht
        rw [hgone] at hx
        cases hx
    · simp [Flight.token, hnone] at hm
    · refine (served_token hw hx' (by simpa [Flight.token, hr] using hm)).2.1 ?_
      rcases move_exec hw h he with ⟨he, -⟩ | ⟨e₀, he₀, -, rfl⟩ |
        ⟨y, sent, c, r, hy, -, -, ht, -⟩
      · exact (hw.execs e he).granted
      · exact (hw.execs e₀ he₀).granted
      · exact (hw.tokens y _ e.task hy ht).1
  · rcases move_tasks hw h with heq | ⟨x, m, t, hx, ht, heq⟩
    · rw [heq]; exact hw.once.execs
    · rw [heq, List.nodup_append]
      refine ⟨hw.once.execs, List.nodup_singleton t, ?_⟩
      rintro a ha b hb rfl
      obtain rfl := List.mem_singleton.1 hb
      obtain ⟨e, he, rfl⟩ := List.mem_map.1 ha
      exact hw.once.received x m e hx he ht

/-- **What a step does to the broker**: nothing, a call by somebody else, or a request that was
in flight. -/
theorem move_queue (h : Move host w l w') : w'.queue = w.queue ∧ w.now ≤ w'.now ∨
    ∃ c, w'.queue = serve w.now c w.queue ∧ w'.now = w.now ∧
      (c.path ≠ .ack ∨ ∃ x p, w.net x = some ⟨p, c, none⟩) := by
  cases h with
  | tick d => exact .inl ⟨rfl, Nat.le_add_right _ _⟩
  | @client c _ hack => exact .inr ⟨c, rfl, rfl, .inl hack⟩
  | @serve x p c hx => exact .inr ⟨c, rfl, rfl, .inr ⟨x, p, hx⟩⟩
  | cancel | rest | claim | finish | work | back | lose | abandon | kill => exact .inl ⟨rfl, le_rfl⟩

theorem acked_step (hw : w.OK host) (h : Move host w l w') : w'.Acked host := by
  have keep : ∀ {e : Exec ι} {now : ℕ}, e ∈ w.execs → e.Full now → e ∈ w'.execs := by
    rintro e now he ⟨f, hf, -⟩
    exact (move_grows h).execs e he (by simp [hf])
  intro ev hev hk
  have hold : ev ∈ w.queue.broker.events →
      ∃ e ∈ w'.execs, e.Full ev.time ∧ host e.proc = ev.worker ∧ e.task.id = ev.id := by
    intro hev
    obtain ⟨e, he, hf, hp, hid⟩ := hw.acked ev hev hk
    exact ⟨e, keep he hf, hf, hp, hid⟩
  rcases move_queue h with ⟨hq, -⟩ | ⟨c, hq, -, hc⟩
  · exact hold (by rwa [hq] at hev)
  · rw [hq] at hev
    rcases handle_acked hw.ghost.numbered hev hk with hev | ⟨hpath, hid, hwk, htime⟩
    · exact hold hev
    · rcases hc with hc | ⟨x, p, hx⟩
      · exact absurd hpath hc
      · obtain ⟨e, he, rfl, hf, rfl⟩ := ack_flight hw hx hpath
        obtain ⟨h1, h2⟩ := ackCall_get e.task.id (host e.proc)
        rw [h1] at hid
        refine ⟨e, keep he hf, htime ▸ hf, by rw [hwk, h2], ?_⟩
        simpa using hid

theorem queue_step (hw : w.OK host) (h : Move host w l w') :
    namedBrokerLts.Reachable w'.queue ∧ w'.queue.clock ≤ w'.now := by
  rcases move_queue h with ⟨hq, hnow⟩ | ⟨c, hq, hnow, hc⟩
  · rw [hq]; exact ⟨hw.queue, hw.clock.trans hnow⟩
  · rw [hq, hnow]
    refine ⟨hw.queue.step (a := (w.now, c)) ⟨⟨hw.clock, rfl⟩, fun hpath => ?_⟩, ?_⟩
    · rcases hc with hc | ⟨x, p, hx⟩
      · exact absurd hpath hc
      · obtain ⟨e, he, rfl, -, rfl⟩ := ack_flight hw hx hpath
        obtain ⟨t, -, -, hch, hmem⟩ := hw.ghost.lease (hw.execs e he).granted
        rw [(ackCall_get _ _).2, ← (hw.execs e he).worker]
        exact (hch.same _ hmem).2.2.1
    · rw [serve_clock]

/-- **A step keeps the invariant**, if it keeps the sleeps within their margin. -/
theorem World.OK.step (hw : w.OK host) (h : Move host w l w')
    (ht : ∀ p, (w'.pc p).OnTime (15 * second) w'.now) : w'.OK host where
  queue := (queue_step hw h).1
  clock := (queue_step hw h).2
  onTime := ht
  exchanges := exchanges_step hw h
  tokens := tokens_step hw h
  claiming := claiming_step hw h
  working := working_step hw h
  execs := execs_step hw h
  once := once_step hw h
  acked := acked_step hw h

theorem World.OK.of_reachable (h : (lossyLts host).Reachable w) : w.OK host := by
  refine Lts.Reachable.invariant (P := World.OK host) ?_ ?_ h
  · rintro _ rfl
    refine ⟨.of_init rfl, le_rfl, fun _ => trivial, ?_, ?_, ?_, ?_, ?_, ⟨?_, ?_, .nil⟩, ?_⟩
    · intro _ _ h; cases h
    · intro _ _ _ h; cases h
    · intro _ _ _ h; cases h
    · intro _ _ _ h; cases h
    · intro _ h; cases h
    · intro _ _ _ _ _ h; cases h
    · intro _ _ _ h; cases h
    · intro _ h; cases h
  · rintro w l w' - ih ⟨hst, ht⟩
    exact ih.step (step_move hst) ht

/-! ## At least once, never concurrently -/

/-- **At least once, never concurrently.** However messages are lost and delayed, with sleeps that
overshoot by at most 15 s: a done task was completed by an `/ack` of the worker it records, who
had received it in a claim and worked on it for its whole duration before; and the work on two
claims of one task does not overlap, so no two consumers work on one task at a time. -/
theorem at_least_once_exclusive (hr : (lossyLts host).Reachable w) :
    (∀ t ∈ w.queue.broker.tasks, t.done = true →
      (∃ ev ∈ w.queue.broker.events, ev.kind = .ack ∧ ev.id = t.id) ∧
      ∀ ev ∈ w.queue.broker.events, ev.kind = .ack → ev.id = t.id → ev.worker = t.worker ∧
        ∃ e ∈ w.execs, host e.proc = t.worker ∧ e.task.id = t.id ∧
          e.task.durationMS = t.durationMS ∧ e.Full ev.time) ∧
    (w.execs.Pairwise fun e e' => e.task.id = e'.task.id → e.Before e' ∨ e'.Before e) ∧
    ∀ p q t u since since', w.pc p = .working t since → w.pc q = .working u since' →
      t.id = u.id → p = q := by
  have hw := World.OK.of_reachable hr
  refine ⟨?_, ?_, ?_⟩
  · intro t ht hd
    have hn := safe_queue (safe_of_named hw.queue)
    obtain ⟨ev, hev, hk, hid, -⟩ := (acked_iff hn ht t.worker).2 ⟨hd, rfl⟩
    refine ⟨⟨ev, hev, hk, hid⟩, ?_⟩
    intro ev hev hk hid
    obtain ⟨-, hwk⟩ := (acked_iff hn ht ev.worker).1 ⟨ev, hev, hk, hid, rfl⟩
    obtain ⟨e, he, hf, hp, hid'⟩ := hw.acked ev hev hk
    obtain ⟨u, hu, huid, hch, hmem⟩ := hw.ghost.lease (hw.execs e he).granted
    obtain rfl := hw.ghost.numbered.inj ht hu (by omega)
    exact ⟨hwk.symm, e, he, hp.trans hwk.symm, hid'.trans hid, (hch.same _ hmem).2.1, hf⟩
  · exact (List.Nodup.of_map Exec.task hw.once.execs).imp_of_mem
      fun he he' hne hid => hw.exclusive he he' hid hne
  · intro p q t u since since' hp hq hid
    by_contra hpq
    -- two running claims would be work that has ended
    rcases hw.exclusive (hw.working p t since hp) (hw.working q u since' hq) hid
      (fun h => hpq (congrArg Exec.proc h)) with ⟨f, hf, -⟩ | ⟨f, hf, -⟩ <;> cases hf

/-- Two consumers. -/
def hosts (p : Bool) : String := if p then "b" else "a"

/-- The first consumer works on a task, but its `/ack` is lost; once the lease is over the
second one works on it again, and completes it. -/
def redeliver : List (Label Bool) :=
  [.client (enqueueCall 1 5), .go false, .go false, .serve 0, .tick (3 * second), .deliver 0,
    .tick (15 * second), .go false, .lose 1, .tick (6 * second), .abandon false, .go true, .go true,
    .serve 2, .deliver 2, .tick (6 * millisecond), .go true, .serve 3]

def redelivered : World Bool :=
  (redeliver.foldlM (Lts.guard (World.step hosts)
    fun _ _ w => ∀ p, (w.pc p).OnTime (15 * second) w.now) {}).get (by decide)

theorem redelivered_reachable : (lossyLts hosts).Reachable redelivered :=
  Lts.reachable_of_exec redeliver (by decide)

theorem at_least_once_exclusive_redelivered :
    redelivered.queue.broker.tasks.map Task.done = [true] ∧
      redelivered.execs.map Exec.proc = [false, true] ∧
      redelivered.execs.Pairwise fun e e' => e.task.id = e'.task.id → e.Before e' ∨ e'.Before e :=
  ⟨by decide, by decide,
    (at_least_once_exclusive redelivered_reachable).2.1⟩

end K8sDev.Queue

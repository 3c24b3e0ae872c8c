import K8sDev.Spec.Consumer
import K8sDev.Proof.Leases

/-!
# One step of the network

`Move` says once what a step can do, `step_move` that it does nothing else. The rest
says what a call does to the broker, as far as consumers and messages are concerned.
-/

namespace K8sDev.Queue

variable {ι : Type} [DecidableEq ι] {host : ι → String} {w w' : World ι} {l : Label ι}

/-- The consumer waits for this exchange, and its client has not timed out. -/
def Pc.Waits (x now : ℕ) : Pc → Prop
  | .claiming y sent | .acking _ y sent => y = x ∧ now ≤ sent + timeout
  | _ => False

/-- **What a step does.** -/
inductive Move (host : ι → String) : World ι → Label ι → World ι → Prop
  | tick (w : World ι) (d : ℕ) : Move host w (.tick d) { w with now := w.now + d }
  | client (w : World ι) {c : Call} (hclaim : c.path ≠ .claim) (hack : c.path ≠ .ack) :
      Move host w (.client c) { w with queue := serve w.now c w.queue }
  | cancel (w : World ι) (p : ι) :
      Move host w (.cancel p) { w with cancelled := Function.update w.cancelled p true }
  /-- A consumer without an exchange or a task moves on. -/
  | rest {w : World ι} {l : Label ι} {p : ι} {q : Pc} (hl : l = .go p ∨ l = .stop p)
      (hp : (w.pc p).AtRest) (hq : q.AtRest) : Move host w l (w.goto p q)
  | claim {w : World ι} {p : ι} (hp : w.pc p = .post) :
      Move host w (.go p) (w.send p (claimCall (host p)) fun x => .claiming x w.now)
  | finish {w : World ι} {p : ι} {t : Task} {since : ℕ} (hp : w.pc p = .working t since)
      (hd : since + t.duration ≤ w.now) :
      Move host w (.go p)
        ((w.finish p).send p (ackCall t.id (host p)) fun x => .acking t x w.now)
  | serve {w : World ι} {x : ℕ} {p : ι} {c : Call} (hx : w.net x = some ⟨p, c, none⟩) :
      Move host w (.serve x) { w with
        queue := serve w.now c w.queue
        net := Function.update w.net x (some ⟨p, c, some (handle w.now c w.queue.broker).1⟩) }
  /-- A task was received. -/
  | work {w : World ι} {x sent : ℕ} {p : ι} {c : Call} {r : Response} {t : Task}
      (hx : w.net x = some ⟨p, c, some r⟩) (hp : w.pc p = .claiming x sent)
      (hnow : w.now ≤ sent + timeout) (hb : r.body = .task t) (hid : t.id ≠ 0) :
      Move host w (.deliver x) { (w.drop x).goto p (.working t w.now) with
        execs := w.execs ++ [⟨p, t, w.now, none⟩] }
  /-- Any other response: a refused claim, an answer without a task, the outcome of an `/ack`. -/
  | back {w : World ι} {x : ℕ} {p : ι} {c : Call} {r : Response} {q : Pc}
      (hx : w.net x = some ⟨p, c, some r⟩) (hp : (w.pc p).Waits x w.now) (hq : q.AtRest)
      (ht : ∀ sent, w.pc p = .claiming x sent → r.code < 300 → ∀ t, r.body = .task t → t.id = 0) :
      Move host w (.deliver x) ((w.drop x).goto p q)
  | lose (w : World ι) (x : ℕ) : Move host w (.lose x) (w.drop x)
  | abandon {w : World ι} {p : ι} {q : Pc} (hp : ∀ t since, w.pc p ≠ .working t since)
      (hq : q.AtRest) : Move host w (.abandon p) (w.goto p q)
  | kill (w : World ι) (p : ι) : Move host w (.kill p) ((w.finish p).goto p .exited)

@[simp] theorem goto_pc_self (w : World ι) (p : ι) (q : Pc) : (w.goto p q).pc p = q :=
  Function.update_self _ _ _

theorem goto_pc_of_ne (w : World ι) {p p' : ι} (q : Pc) (h : p ≠ p') :
    (w.goto p' q).pc p = w.pc p :=
  Function.update_of_ne h _ _

@[simp] theorem send_pc_self (w : World ι) (p : ι) (c : Call) (q : ℕ → Pc) :
    (w.send p c q).pc p = q w.fresh :=
  Function.update_self _ _ _

theorem send_pc_of_ne (w : World ι) {p p' : ι} (c : Call) (q : ℕ → Pc) (h : p ≠ p') :
    (w.send p' c q).pc p = w.pc p :=
  Function.update_of_ne h _ _

@[simp] theorem send_net_self (w : World ι) (p : ι) (c : Call) (q : ℕ → Pc) :
    (w.send p c q).net w.fresh = some ⟨p, c, none⟩ :=
  Function.update_self _ _ _

theorem go_move {p : ι} (h : w.go host p = some w') : Move host w (.go p) w' := by
  unfold World.go at h
  split at h
  · rename_i hp
    obtain rfl := Option.some.inj h
    refine .rest (.inl rfl) (by rw [hp]; trivial) ?_
    split <;> trivial
  · rename_i hp
    obtain rfl := Option.some.inj h
    exact .claim hp
  · rename_i since hp
    split at h
    · obtain rfl := Option.some.inj h
      exact .rest (.inl rfl) (by rw [hp]; trivial) trivial
    · cases h
  · rename_i since hp
    split at h
    · obtain rfl := Option.some.inj h
      exact .rest (.inl rfl) (by rw [hp]; trivial) trivial
    · cases h
  · rename_i t since hp
    split at h
    · rename_i hd
      obtain rfl := Option.some.inj h
      exact .finish hp hd
    · cases h
  · cases h

/-- What a consumer does with the outcome of a claim: it works on a task, or goes back. -/
theorem claimed_cases (w : World ι) (p : ι) (resp : Option Response) :
    (∃ r t, resp = some r ∧ r.body = .task t ∧ t.id ≠ 0 ∧
      w.claimed p (post resp) =
        { w.goto p (.working t w.now) with execs := w.execs ++ [⟨p, t, w.now, none⟩] }) ∨
    ∃ q : Pc, q.AtRest ∧ w.claimed p (post resp) = w.goto p q ∧
      ∀ r, resp = some r → r.code < 300 → ∀ t, r.body = .task t → t.id = 0 := by
  cases resp with
  | none => exact .inr ⟨.backoff w.now, trivial, rfl, by simp⟩
  | some r =>
    obtain ⟨code, body⟩ := r
    by_cases hcode : code ≥ 300
    · refine .inr ⟨.backoff w.now, trivial, by simp [World.claimed, post, hcode, afterClaim], ?_⟩
      rintro r hr hlt
      obtain rfl := Option.some.inj hr
      exact absurd hcode (by simpa using hlt)
    · have hpost : post (some ⟨code, body⟩) = some body := if_neg hcode
      cases body with
      | task t =>
        by_cases hid : t.id = 0
        · refine .inr ⟨.idle w.now, trivial, by simp [World.claimed, hpost, afterClaim, hid], ?_⟩
          rintro r hr - u hu
          obtain rfl := Option.some.inj hr
          obtain rfl : t = u := by simpa using hu
          exact hid
        · exact .inl ⟨_, t, rfl, rfl, hid, by simp [World.claimed, hpost, afterClaim, hid]⟩
      | text | length | metrics | stats =>
        exact .inr ⟨.idle w.now, trivial, by simp [World.claimed, hpost, afterClaim], by simp⟩

theorem deliver_move {x : ℕ} (h : w.deliver x = some w') : Move host w (.deliver x) w' := by
  unfold World.deliver at h
  split at h
  · rename_i p c r hx
    split at h
    · rename_i y sent hp
      split at h
      · rename_i hy
        obtain ⟨rfl, hnow⟩ := hy
        obtain rfl := Option.some.inj h
        rcases claimed_cases (w.drop y) p (some r) with
          ⟨r', t, hr, hb, hid, heq⟩ | ⟨q, hq, heq, ht⟩
        · obtain rfl := Option.some.inj hr
          rw [heq]
          exact .work hx hp hnow hb hid
        · rw [heq]
          exact .back hx (by rw [hp]; exact ⟨rfl, hnow⟩) hq fun _ _ => ht r rfl
      · cases h
    · rename_i t y sent hp
      split at h
      · rename_i hy
        obtain ⟨rfl, hnow⟩ := hy
        obtain rfl := Option.some.inj h
        exact .back hx (by rw [hp]; exact ⟨rfl, hnow⟩) trivial fun _ hc => by rw [hp] at hc; cases hc
      · cases h
    · cases h
  · cases h

/-- **A step is a move.** -/
theorem step_move (h : w.step host l = some w') : Move host w l w' := by
  cases l with
  | tick d => obtain rfl := Option.some.inj h; exact .tick w d
  | client c =>
    simp only [World.step] at h
    split at h
    · cases h
    · rename_i hc
      obtain rfl := Option.some.inj h
      exact .client w (fun h => hc (.inl h)) fun h => hc (.inr h)
  | cancel p => obtain rfl := Option.some.inj h; exact .cancel w p
  | go p => exact go_move h
  | stop p =>
    simp only [World.step] at h
    split at h
    · rename_i hp _
      obtain rfl := Option.some.inj h
      exact .rest (.inr rfl) (by rw [hp]; trivial) trivial
    · cases h
  | serve x =>
    simp only [World.step] at h
    split at h
    · rename_i hx
      obtain rfl := Option.some.inj h
      exact .serve hx
    · cases h
  | deliver x => exact deliver_move h
  | lose x => obtain rfl := Option.some.inj h; exact .lose w x
  | abandon p =>
    simp only [World.step] at h
    split at h
    · rename_i hp
      obtain rfl := Option.some.inj h
      exact .abandon (fun t since hc => by rw [hp] at hc; cases hc) trivial
    · rename_i hp
      obtain rfl := Option.some.inj h
      exact .abandon (fun t since hc => by rw [hp] at hc; cases hc) trivial
    · cases h
  | kill p => obtain rfl := Option.some.inj h; exact .kill w p

/-! ## What a call does for the network -/

/-- A granted claim names the caller, and its lease starts now. -/
theorem handle_granted {s : Broker} {now : ℕ} {c : Call} {t : Task}
    (h : granted c (handle now c s).1 = some t) :
    c.path = .claim ∧ (handle now c s).1.code = 200 ∧ t.worker = c.req.get "worker" ∧
      t.deadline = now + t.lease := by
  obtain ⟨hpath, hbody, hid⟩ := granted_iff.1 h
  refine ⟨hpath, ?_⟩
  rcases handle_cases now c s with
    ⟨text, code, -, heq⟩ | ⟨ms, n, -, heq⟩ | ⟨-, -, heq⟩ | ⟨hack, -⟩ | ⟨body, hrep, heq⟩
  · rw [heq] at hbody
    cases hbody
  · rw [heq] at hbody
    cases hbody
  · rcases claimLocked_cases now (c.req.get "worker") (reap now s) with
      ⟨pre, u, post, -, -, -, heq'⟩ | ⟨-, heq'⟩
    · rw [heq, heq'] at hbody ⊢
      obtain rfl := Body.task.inj hbody
      exact ⟨rfl, rfl, rfl⟩
    · -- the empty task grants nothing
      rw [heq, heq'] at hbody
      obtain rfl := Body.task.inj hbody
      exact absurd rfl hid
  · rw [hpath] at hack
    cases hack
  · rw [heq] at hbody
    rcases hrep with rfl | rfl <;> cases hbody

theorem mem_events_reap {now : ℕ} {s : Broker} {e : Event} (h : e ∈ (reap now s).events) :
    e ∈ s.events ∨ e.kind = .expired := by
  rcases List.mem_append.1 h with h | h
  · exact .inl h
  · obtain ⟨t, -, ht⟩ := List.mem_flatMap.1 h
    unfold Task.expiry at ht
    split at ht
    · obtain rfl := List.mem_singleton.1 ht
      exact .inr rfl
    · cases ht

theorem mem_events_addTasks {now ms : ℕ} {e : Event} : ∀ {n : ℕ} {s : Broker},
    e ∈ (addTasks now ms n s).events → e ∈ s.events ∨ e.kind = .enqueue := by
  intro n
  induction n with
  | zero => intro s h; exact .inl h
  | succ n ih =>
    intro s h
    rcases ih h with h | h
    · rcases List.mem_append.1 h with h | h
      · exact .inl h
      · obtain rfl := List.mem_singleton.1 h
        exact .inr rfl
    · exact .inr h

/-- **Only `/ack` records an `ack` event**, at its time and with its parameters. -/
theorem handle_acked {s : Broker} (hs : s.Numbered) {now : ℕ} {c : Call} {e : Event}
    (h : e ∈ (handle now c s).2.events) (hk : e.kind = .ack) :
    e ∈ s.events ∨ c.path = .ack ∧ atoi (c.req.get "id") = some (e.id : ℤ) ∧
      e.worker = c.req.get "worker" ∧ e.time = now := by
  have hreap : e ∈ (reap now s).events → e ∈ s.events := by
    intro h
    rcases mem_events_reap h with h | h
    · exact h
    · rw [hk] at h; cases h
  -- one event of another kind
  have hsnoc : ∀ {es : List Event} {ev : Event}, e ∈ es ++ [ev] → ev.kind ≠ .ack → e ∈ es := by
    intro es ev he hne
    rcases List.mem_append.1 he with he | he
    · exact he
    · obtain rfl := List.mem_singleton.1 he
      exact absurd hk hne
  rcases handle_cases now c s with
    ⟨text, code, -, heq⟩ | ⟨ms, n, -, heq⟩ | ⟨-, -, heq⟩ | ⟨hack, heq⟩ | ⟨body, -, heq⟩
  · rw [heq] at h
    exact .inl h
  · rw [heq] at h
    rcases mem_events_addTasks h with h | h
    · exact .inl h
    · rw [hk] at h; cases h
  · rcases claimLocked_cases now (c.req.get "worker") (reap now s) with
      ⟨pre, u, post, -, -, -, heq'⟩ | ⟨-, heq'⟩
    · rw [heq, heq'] at h
      exact .inl (hreap (hsnoc h (by simp)))
    · rw [heq, heq'] at h
      exact .inl (hreap h)
  · rcases ackLocked_cases (hs.reap now) now (atoi (c.req.get "id")) (c.req.get "worker") with
      ⟨-, heq'⟩ | ⟨pre, t, post, -, hid, ⟨-, heq'⟩ | ⟨-, hw, heq'⟩⟩
    · rw [heq, heq'] at h
      exact .inl (hreap h)
    · rw [heq, heq'] at h
      exact .inl (hreap (hsnoc h (by simp)))
    · rw [heq, heq'] at h
      rcases List.mem_append.1 h with h | h
      · exact .inl (hreap h)
      · obtain rfl := List.mem_singleton.1 h
        exact .inr ⟨hack, hid, hw, rfl⟩
  · rw [heq] at h
    exact .inl (hreap h)

end K8sDev.Queue

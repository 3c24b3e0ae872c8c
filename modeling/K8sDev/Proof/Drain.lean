import K8sDev.Spec.Drain
import Mathlib.Data.List.Chain

/-!
# A consumer drains

`SIGTERM` only sets a flag, which `consumer` looks at between two tasks.

* `Beat`, `process_beat`: what a step does.
* `claims_run`: after the cancellation at most one claim is sent, by a consumer that had already
  looked.
* `Process.OK`: what was sent and received comes in order, and `main` waits for the consumer.
* `graceful_drain`: both, for every run.
-/

namespace K8sDev.Queue

variable {s s' : Process} {a : Turn}

/-! ## One step -/

/-- **What a step does.** -/
inductive Beat (s : Process) : Turn → Process → Prop
  | tick (d : ℕ) : Beat s (.tick d) { s with now := s.now + d }
  | cancel : Beat s .cancel { s with cancelled := true }
  /-- The consumer returns, at the top of its loop or in its `select`. -/
  | leave {a : Turn} (hpc : s.pc = .check ∨ ∃ since, s.pc = .idle since)
      (hc : s.cancelled = true) : Beat s a { s with pc := .exited }
  | enter {x : ℕ} (hpc : s.pc = .check) (hc : s.cancelled = false) :
      Beat s (.go x) { s with pc := .post }
  | claim {x : ℕ} (hpc : s.pc = .post) :
      Beat s (.go x) { s with pc := .claiming x s.now, log := s.log ++ [.claim s.now] }
  /-- To the top of the loop, after a wait or with the outcome of an `/ack`. -/
  | again {a : Turn} (hpc : (∃ since, s.pc = .backoff since) ∨ (∃ since, s.pc = .idle since) ∨
      ∃ t x sent, s.pc = .acking t x sent) : Beat s a { s with pc := .check }
  | ack {x since : ℕ} {t : Task} (hpc : s.pc = .working t since)
      (hd : since + t.duration ≤ s.now) :
      Beat s (.go x) { s with pc := .acking t x s.now, log := s.log ++ [.ack t s.now] }
  | receive {x sent : ℕ} {t : Task} {outcome : Option Body} (hpc : s.pc = .claiming x sent) :
      Beat s (.answer outcome)
        { s with pc := .working t s.now, log := s.log ++ [.receive t s.now] }
  /-- No task: the claim failed, or there is nothing to do. -/
  | miss {x sent : ℕ} {outcome : Option Body} {q : Pc} (hpc : s.pc = .claiming x sent)
      (hq : q = .backoff s.now ∨ q = .idle s.now) :
      Beat s (.answer outcome) { s with pc := q }
  | signal (hm : s.main = .serving) (hc : s.cancelled = true) :
      Beat s .main { s with main := .signalled }
  | drain (hm : s.main = .signalled) : Beat s .main { s with main := .waiting, draining := true }
  | drained (hm : s.main = .waiting) (hd : s.pc = .exited) :
      Beat s .main { s with main := .shutdown }
  | exit (hm : s.main = .shutdown) : Beat s .main { s with main := .exited }

theorem afterClaim_cases (now : ℕ) (outcome : Option Body) :
    (∃ t, afterClaim now outcome = .working t now ∧ outcome = some (.task t) ∧ t.id ≠ 0) ∨
      afterClaim now outcome = .backoff now ∨ afterClaim now outcome = .idle now := by
  cases outcome with
  | none => exact .inr (.inl rfl)
  | some body =>
    cases body with
    | task t =>
      by_cases hid : t.id = 0
      · exact .inr (.inr (if_pos hid))
      · exact .inl ⟨t, if_neg hid, rfl, hid⟩
    | text | length | metrics | stats => exact .inr (.inr rfl)

theorem go_beat {x : ℕ} (h : s.go x = some s') : Beat s (.go x) s' := by
  unfold Process.go at h
  split at h
  · rename_i hpc
    by_cases hc : s.cancelled = true
    · rw [if_pos hc] at h
      obtain rfl := Option.some.inj h
      exact .leave (.inl hpc) hc
    · rw [if_neg hc] at h
      obtain rfl := Option.some.inj h
      exact .enter hpc (by simpa using hc)
  · rename_i hpc
    obtain rfl := Option.some.inj h
    exact .claim hpc
  · rename_i since hpc
    split at h
    · obtain rfl := Option.some.inj h
      exact .again (.inl ⟨since, hpc⟩)
    · cases h
  · rename_i since hpc
    split at h
    · obtain rfl := Option.some.inj h
      exact .again (.inr (.inl ⟨since, hpc⟩))
    · cases h
  · rename_i t since hpc
    split at h
    · rename_i hd
      obtain rfl := Option.some.inj h
      exact .ack hpc hd
    · cases h
  · cases h

theorem answer_beat {outcome : Option Body} (h : s.answer outcome = some s') :
    Beat s (.answer outcome) s' := by
  unfold Process.answer at h
  split at h
  · rename_i x sent hpc
    rcases afterClaim_cases s.now outcome with ⟨t, hafter, -⟩ | hafter | hafter
    · rw [hafter] at h
      obtain rfl := Option.some.inj h
      exact .receive hpc
    · rw [hafter] at h
      obtain rfl := Option.some.inj h
      exact .miss hpc (.inl rfl)
    · rw [hafter] at h
      obtain rfl := Option.some.inj h
      exact .miss hpc (.inr rfl)
  · rename_i t x sent hpc
    obtain rfl := Option.some.inj h
    exact .again (.inr (.inr ⟨t, x, sent, hpc⟩))
  · cases h

theorem main_beat (h : s.mainStep = some s') : Beat s .main s' := by
  unfold Process.mainStep at h
  split at h
  · rename_i hm
    split at h
    · rename_i hc
      obtain rfl := Option.some.inj h
      exact .signal hm hc
    · cases h
  · rename_i hm
    obtain rfl := Option.some.inj h
    exact .drain hm
  · rename_i hm
    split at h
    · rename_i hd
      obtain rfl := Option.some.inj h
      exact .drained hm (by simpa [Process.done] using hd)
    · cases h
  · rename_i hm
    obtain rfl := Option.some.inj h
    exact .exit hm
  · cases h

theorem process_beat (h : s.step a = some s') : Beat s a s' := by
  cases a with
  | tick d =>
    obtain rfl := Option.some.inj h
    exact .tick d
  | cancel =>
    obtain rfl := Option.some.inj h
    exact .cancel
  | go x => exact go_beat h
  | stop =>
    simp only [Process.step] at h
    split at h
    · rename_i since hpc hc
      obtain rfl := Option.some.inj h
      exact .leave (.inr ⟨since, hpc⟩) hc
    · cases h
  | answer outcome => exact answer_beat h
  | main => exact main_beat h

/-! ## Claims after the cancellation -/

/-- The consumer has looked at its context and will claim. -/
def Process.ready (s : Process) : ℕ := if s.pc = .post then 1 else 0

theorem claims_concat {d : Deed} (hlog : s'.log = s.log ++ [d]) :
    s'.claims = s.claims + if d.isClaim then 1 else 0 := by
  rw [Process.claims, hlog, List.countP_append, List.countP_singleton, Process.claims]

theorem claims_step (h : Beat s a s') (hc : s.cancelled = true) :
    s'.cancelled = true ∧ s'.claims + s'.ready ≤ s.claims + s.ready := by
  cases h with
  | tick | drain | drained | exit | signal => exact ⟨hc, le_rfl⟩
  | cancel => exact ⟨rfl, le_rfl⟩
  | leave hpc => exact ⟨hc, Nat.le_add_right _ _⟩
  | enter hpc hc' =>
    rw [hc] at hc'
    cases hc'
  | claim hpc =>
    refine ⟨hc, ?_⟩
    have hready : s.ready = 1 := if_pos hpc
    rw [hready, claims_concat rfl]
    exact le_rfl
  | again => exact ⟨hc, Nat.le_add_right _ _⟩
  | ack | receive =>
    refine ⟨hc, ?_⟩
    rw [claims_concat rfl]
    exact Nat.le_add_right _ _
  | miss hpc hq =>
    refine ⟨hc, ?_⟩
    rcases hq with rfl | rfl
    · exact Nat.le_add_right _ _
    · exact Nat.le_add_right _ _

/-- **After the cancellation at most one claim is sent.** -/
theorem claims_run {as : List Turn} (h : processLts.Run s as s') (hc : s.cancelled = true) :
    s'.claims ≤ s.claims + s.ready := by
  have hrel := h.relation (R := fun s s' : Process => s.cancelled = true →
    s'.cancelled = true ∧ s'.claims + s'.ready ≤ s.claims + s.ready) ?_ ?_ ?_ hc
  · omega
  · intro s hc
    exact ⟨hc, le_rfl⟩
  · intro s t u hst htu hc
    obtain ⟨hct, hle⟩ := hst hc
    obtain ⟨hcu, hle'⟩ := htu hct
    exact ⟨hcu, hle'.trans hle⟩
  · intro s a t hst hc
    exact claims_step (process_beat hst) hc

/-! ## What was sent and received -/

/-- What may come next: an answer to a claim, or another claim; and after a task, when its time
is over, the `/ack`. -/
def Deed.Follows : Deed → Deed → Prop
  | .claim _, .claim _ => True
  | .claim _, .receive _ _ => True
  | .receive t r, .ack u time => u = t ∧ r + t.duration ≤ time
  | .ack _ _, .claim _ => True
  | _, _ => False

/-- What was last sent or received, by where the consumer is. -/
def Pc.Last : Pc → Option Deed → Prop
  | .claiming _ _, d => ∃ time, d = some (.claim time)
  | .working t r, d => d = some (.receive t r)
  | _, d => ∀ t r, d ≠ some (.receive t r)

structure Process.OK (s : Process) : Prop where
  chain : s.log.IsChain Deed.Follows
  first : ∀ d ∈ s.log.head?, ∃ time, d = .claim time
  last : s.pc.Last s.log.getLast?
  main : s.main = .shutdown ∨ s.main = .exited → s.pc = .exited
  signal : s.main ≠ .serving → s.cancelled = true

theorem chain_concat {l : List Deed} {d : Deed} (hl : l.IsChain Deed.Follows)
    (hd : ∀ e ∈ l.getLast?, e.Follows d) : (l ++ [d]).IsChain Deed.Follows := by
  refine List.isChain_append.2 ⟨hl, List.isChain_singleton d, ?_⟩
  intro e he f hf
  obtain rfl : d = f := by simpa using hf
  exact hd e he

/-- Only a claim comes first. -/
theorem first_concat {l : List Deed} {d : Deed} (hl : ∀ e ∈ l.head?, ∃ time, e = .claim time)
    (hd : l = [] → ∃ time, d = .claim time) : ∀ e ∈ (l ++ [d]).head?, ∃ time, e = .claim time := by
  intro e he
  cases l with
  | nil =>
    obtain rfl : d = e := by simpa using he
    exact hd rfl
  | cons x l => exact hl e he

/-- What comes after something else is not the first. -/
theorem first_after {l : List Deed} {d last : Deed}
    (hl : ∀ e ∈ l.head?, ∃ time, e = .claim time) (hlast : l.getLast? = some last) :
    ∀ e ∈ (l ++ [d]).head?, ∃ time, e = .claim time := by
  refine first_concat hl fun hnil => ?_
  rw [hnil] at hlast
  cases hlast

theorem Process.OK.step (hs : s.OK) (h : Beat s a s') : s'.OK := by
  obtain ⟨hchain, hfirst, hlast, hmain, hsignal⟩ := hs
  -- `main` has not passed `<-done` while the consumer runs
  have running : ∀ q : Pc, s.pc ≠ .exited → s.main = .shutdown ∨ s.main = .exited → q = .exited :=
    fun q hpc hm => absurd (hmain hm) hpc
  cases h with
  | tick => exact ⟨hchain, hfirst, hlast, hmain, hsignal⟩
  | cancel => exact ⟨hchain, hfirst, hlast, hmain, fun _ => rfl⟩
  | leave hpc =>
    -- neither place has a task in hand
    refine ⟨hchain, hfirst, ?_, fun _ => rfl, hsignal⟩
    rcases hpc with hpc | ⟨since, hpc⟩
    · rw [hpc] at hlast
      exact hlast
    · rw [hpc] at hlast
      exact hlast
  | enter hpc =>
    rw [hpc] at hlast
    exact ⟨hchain, hfirst, hlast, running _ (by simp [hpc]), hsignal⟩
  | claim hpc =>
    rw [hpc] at hlast
    refine ⟨chain_concat hchain ?_, first_concat hfirst fun _ => ⟨s.now, rfl⟩, ⟨s.now, by simp⟩,
      running _ (by simp [hpc]), hsignal⟩
    intro e he
    cases e with
    | claim => trivial
    | receive t r => exact absurd he (hlast t r)
    | ack => trivial
  | again hpc =>
    rcases hpc with ⟨since, hpc⟩ | ⟨since, hpc⟩ | ⟨t, x, sent, hpc⟩ <;> rw [hpc] at hlast
    · exact ⟨hchain, hfirst, hlast, running _ (by simp [hpc]), hsignal⟩
    · exact ⟨hchain, hfirst, hlast, running _ (by simp [hpc]), hsignal⟩
    · exact ⟨hchain, hfirst, hlast, running _ (by simp [hpc]), hsignal⟩
  | @ack x since t hpc hd =>
    rw [hpc] at hlast
    have hrec : s.log.getLast? = some (.receive t since) := hlast
    refine ⟨chain_concat hchain ?_, first_after hfirst hrec, by simp [Pc.Last],
      running _ (by simp [hpc]), hsignal⟩
    intro e he
    obtain rfl : .receive t since = e := by simpa [hrec] using he
    exact ⟨rfl, hd⟩
  | receive hpc =>
    rw [hpc] at hlast
    obtain ⟨time, hclaim⟩ := hlast
    refine ⟨chain_concat hchain ?_, first_after hfirst hclaim, by simp [Pc.Last],
      running _ (by simp [hpc]), hsignal⟩
    intro e he
    obtain rfl : .claim time = e := by simpa [hclaim] using he
    trivial
  | miss hpc hq =>
    rw [hpc] at hlast
    obtain ⟨time, hclaim⟩ := hlast
    refine ⟨hchain, hfirst, ?_, running _ (by simp [hpc]), hsignal⟩
    rcases hq with rfl | rfl <;> simp [Pc.Last, hclaim]
  | signal hm hc => exact ⟨hchain, hfirst, hlast, by simp, fun _ => hc⟩
  | drain hm => exact ⟨hchain, hfirst, hlast, by simp, fun _ => hsignal (by simp [hm])⟩
  | drained hm hd => exact ⟨hchain, hfirst, hlast, fun _ => hd, fun _ => hsignal (by simp [hm])⟩
  | exit hm =>
    exact ⟨hchain, hfirst, hlast, fun _ => hmain (.inl hm), fun _ => hsignal (by simp [hm])⟩

theorem Process.OK.of_reachable (h : processLts.Reachable s) : s.OK := by
  refine Lts.Reachable.invariant (P := Process.OK) ?_ ?_ h
  · rintro _ rfl
    exact ⟨.nil, by simp, by simp [Pc.Last], by simp, by simp⟩
  · rintro s a s' - ih hst
    exact ih.step (process_beat hst)

/-- The one `/ack` of a received task comes next, when its time is over, and then nothing but a
claim. -/
def Acknowledged (t : Task) (r : ℕ) (rest : List Deed) : Prop :=
  ∃ time post, rest = .ack t time :: post ∧ r + t.duration ≤ time ∧
    ∀ d ∈ post.head?, ∃ time', d = .claim time'

theorem working_of_last {q : Pc} {t : Task} {r : ℕ} (h : q.Last (some (.receive t r))) :
    q = .working t r := by
  cases q with
  | working u since =>
    have heq := Deed.receive.inj (Option.some.inj h)
    rw [heq.1, heq.2]
  | claiming =>
    obtain ⟨time, heq⟩ := h
    cases heq
  | check | post | backoff | idle | acking | exited => exact absurd rfl (h t r)

/-- A received task is being worked on, or acknowledged next. -/
theorem Process.OK.received (hs : s.OK) {pre post : List Deed} {t : Task} {r : ℕ}
    (hlog : s.log = pre ++ .receive t r :: post) :
    post = [] ∧ s.pc = .working t r ∨ Acknowledged t r post := by
  cases post with
  | nil =>
    have hlast := hs.last
    rw [hlog, List.getLast?_concat] at hlast
    exact .inl ⟨rfl, working_of_last hlast⟩
  | cons d post =>
    -- only its `/ack` may follow a task, and only a claim an `/ack`
    have hchain := hs.chain
    rw [hlog, List.isChain_append_cons_cons] at hchain
    obtain ⟨-, hnext, hrest⟩ := hchain
    cases d with
    | claim => exact absurd hnext id
    | receive => exact absurd hnext id
    | ack u time =>
      obtain ⟨rfl, hover⟩ := hnext
      refine .inr ⟨time, post, rfl, hover, ?_⟩
      intro e he
      obtain ⟨rest, rfl⟩ := List.head?_eq_some_iff.1 he
      have hfollows := (List.isChain_cons_cons.1 hrest).1
      cases e with
      | claim time' => exact ⟨time', rfl⟩
      | receive => exact absurd hfollows id
      | ack => exact absurd hfollows id

/-- An `/ack` follows the task it is for. -/
theorem Process.OK.acked (hs : s.OK) {pre post : List Deed} {t : Task} {time : ℕ}
    (hlog : s.log = pre ++ .ack t time :: post) : ∃ pre' r, pre = pre' ++ [.receive t r] := by
  rcases List.eq_nil_or_concat pre with rfl | ⟨pre', d, rfl⟩
  · obtain ⟨time', hclaim⟩ := hs.first (.ack t time) (by rw [hlog]; rfl)
    cases hclaim
  · have hchain := hs.chain
    rw [hlog, List.concat_eq_append, List.append_assoc] at hchain
    have hfollows := (List.isChain_append_cons_cons.1 hchain).2.1
    rw [List.concat_eq_append]
    cases d with
    | claim => exact absurd hfollows id
    | receive u r =>
      obtain ⟨rfl, -⟩ := hfollows
      exact ⟨pre', r, rfl⟩
    | ack => exact absurd hfollows id

/-- **A consumer drains.** In every run, after the cancellation at most one claim is sent, by a
consumer that had already looked at its context; every received task is acknowledged once, after
its duration and before the next claim, and no other task is; and `done` is closed, which `main`
waits for, only when that was done for every received task. -/
theorem graceful_drain (hr : processLts.Reachable s) :
    (s.cancelled = true → ∀ as s', processLts.Run s as s' →
      s'.claims ≤ s.claims + if s.pc = .post then 1 else 0) ∧
    (∀ pre post t r, s.log = pre ++ .receive t r :: post →
      post = [] ∧ s.pc = .working t r ∨ Acknowledged t r post) ∧
    (∀ pre post t time, s.log = pre ++ .ack t time :: post →
      ∃ pre' r, pre = pre' ++ [.receive t r]) ∧
    (s.main = .shutdown ∨ s.main = .exited → s.done = true ∧ s.cancelled = true) ∧
    (s.done = true → ∀ pre post t r, s.log = pre ++ .receive t r :: post →
      Acknowledged t r post) := by
  have hs := Process.OK.of_reachable hr
  refine ⟨?_, ?_, ?_, ?_, ?_⟩
  · intro hc as s' hrun
    exact claims_run hrun hc
  · intro pre post t r hlog
    exact hs.received hlog
  · intro pre post t time hlog
    exact hs.acked hlog
  · intro hm
    have hpassed : s.main ≠ .serving := by
      rcases hm with hm | hm <;> simp [hm]
    exact ⟨by simp [Process.done, hs.main hm], hs.signal hpassed⟩
  · intro hd pre post t r hlog
    have hpc : s.pc = .exited := by simpa [Process.done] using hd
    rcases hs.received hlog with ⟨-, hworking⟩ | hack
    · rw [hpc] at hworking
      cases hworking
    · exact hack

/-- A consumer that is cancelled when it waits for the answer to its claim, gets a task of 5 ms
and whose `/ack` fails. -/
def drainTurns : List Turn :=
  [.go 0, .go 0, .cancel, .main, .answer (some (.task ⟨1, 5, "a", 1, 0, false⟩)), .main,
    .tick (5 * millisecond), .go 1, .answer none, .go 2, .main]

theorem graceful_drain_drained :
    ((drainTurns.foldlM Process.step {}).map fun s => (s.main, s.log)) =
        some (.shutdown, [.claim 0, .receive ⟨1, 5, "a", 1, 0, false⟩ 0,
          .ack ⟨1, 5, "a", 1, 0, false⟩ (5 * millisecond)]) ∧
      ∀ s, drainTurns.foldlM Process.step {} = some s → s.done = true := by
  refine ⟨by decide, fun s hs => ?_⟩
  have hrun : processLts.Run {} drainTurns s := Lts.run_of_foldlM ({} : Process) hs
  have hr : processLts.Reachable s := ⟨{}, drainTurns, rfl, hrun⟩
  have hmain : s.main = .shutdown := by
    have heq : (drainTurns.foldlM Process.step {}).map Process.main = some .shutdown := by decide
    rw [hs] at heq
    exact Option.some.inj heq
  exact ((graceful_drain hr).2.2.2.1 (.inl hmain)).1

end K8sDev.Queue

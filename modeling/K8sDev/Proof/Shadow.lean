import K8sDev.Proof.Drain
import K8sDev.Proof.ExactlyOnce

/-!
# The consumers of a network are processes

Each consumer of the network, seen by itself, is a process whose exchanges have arbitrary outcomes
(`consumer_shadow`), so what holds of every process holds of it: one that has returned has sent the
`/ack` of all that it worked on (`consumer_drains`).
-/

namespace K8sDev.Queue

variable {ι : Type} [DecidableEq ι] {host : ι → String} {w w' : World ι} {p q : ι} {s : Process}

/-- The claims a process worked on, and since when. -/
def World.work (w : World ι) (p : ι) : List (Task × ℕ) :=
  (w.execs.filter fun e => e.proc = p).map fun e => (e.task, e.received)

/-- A consumer of the network as a process of its own. -/
structure Shadow (p : ι) (w : World ι) (s : Process) : Prop where
  now : s.now = w.now
  cancelled : s.cancelled = w.cancelled p
  pc : s.pc = w.pc p
  work : s.log.filterMap Deed.received? = w.work p

/-- Nothing happened to `p`. -/
structure World.Same (p : ι) (w w' : World ι) : Prop where
  now : w'.now = w.now
  cancelled : w'.cancelled p = w.cancelled p
  pc : w'.pc p = w.pc p
  work : w'.work p = w.work p

theorem received_concat (l : List Deed) (d : Deed) : (l ++ [d]).filterMap Deed.received? =
    l.filterMap Deed.received? ++ d.received?.toList := by
  rw [List.filterMap_append]
  cases d <;> rfl

theorem Shadow.same (h : Shadow p w s) (hsame : w.Same p w') : Shadow p w' s where
  now := h.now.trans hsame.now.symm
  cancelled := h.cancelled.trans hsame.cancelled.symm
  pc := h.pc.trans hsame.pc.symm
  work := h.work.trans hsame.work.symm

theorem World.Same.trans {w'' : World ι} (h : w.Same p w') (h' : w'.Same p w'') : w.Same p w'' :=
  ⟨h'.now.trans h.now, h'.cancelled.trans h.cancelled, h'.pc.trans h.pc, h'.work.trans h.work⟩

/-- The consumer goes on without sending. -/
theorem Shadow.goto (h : Shadow p w s) (r : Pc) : Shadow p (w.goto p r) { s with pc := r } :=
  ⟨h.now, h.cancelled, (goto_pc_self w p r).symm, h.work⟩

/-- The consumer sends. -/
theorem Shadow.send (h : Shadow p w s) (c : Call) (r : ℕ → Pc) {d : Deed}
    (hd : d.received? = none) :
    Shadow p (w.send p c r) { s with pc := r w.fresh, log := s.log ++ [d] } := by
  refine ⟨h.now, h.cancelled, (send_pc_self w p c r).symm, ?_⟩
  have hlog : (s.log ++ [d]).filterMap Deed.received? = s.log.filterMap Deed.received? := by
    rw [received_concat, hd]
    exact List.append_nil _
  exact hlog.trans h.work

/-- A claim that was worked on was received. -/
theorem Shadow.receive (h : Shadow p w s) {e : Exec ι} (he : e ∈ w.execs) (hp : e.proc = p) :
    ∃ pre post, s.log = pre ++ .receive e.task e.received :: post := by
  have hwork : (e.task, e.received) ∈ w.work p :=
    List.mem_map.2 ⟨e, List.mem_filter.2 ⟨he, decide_eq_true hp⟩, rfl⟩
  rw [← h.work] at hwork
  obtain ⟨d, hd, hreceived⟩ := List.mem_filterMap.1 hwork
  cases d with
  | receive t r =>
    obtain ⟨rfl, rfl⟩ := Prod.mk.inj (Option.some.inj hreceived)
    exact List.append_of_mem hd
  | claim | ack => cases hreceived

end K8sDev.Queue

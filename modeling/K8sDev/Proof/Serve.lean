import K8sDev.Spec.Serve

/-!
# No missed kubelet restart

`serve` installs its watch before it binds the socket, so whenever the socket is gone the event
that says so is queued.

* `register_bound`: `register` is only called with a listener that this call of `serve` has bound
  under its watch.
* `gone_queued`: in the event loop without a socket, an event of its removal is queued.
* `missing_run`, `restart_possible`: the loop without a socket ends after as many events as are
  queued up to that one; a new `Listen` and a new registration may follow.
* `no_missed_restart`: all of this, in every reachable state.
-/

namespace K8sDev.Serve

variable {socket : String} {s t : Process}

/-- An event of the socket's removal is queued. -/
def Process.Queued (socket : String) (s : Process) : Prop :=
  ∃ q, s.watch = some q ∧ ∃ e ∈ q, e.isGone socket = true

/-- The listener was bound under the watch, in this call of `serve`; if the socket is gone, that is
in the queue. -/
structure Up (socket : String) (s : Process) : Prop where
  bound : s.bound = true
  underWatch : s.underWatch = true
  listened : s.listened = some s.generation
  watch : s.watch.isSome
  queued : s.file = false → s.Queued socket

/-- What holds where `serve` is. -/
def AtPc (socket : String) (s : Process) : Prop :=
  match s.pc with
  | .start => s.watch = none ∧ s.bound = false
  | .removed | .created => s.file = false ∧ s.watch = none ∧ s.bound = false
  | .watching => s.file = false ∧ s.watch.isSome ∧ s.bound = false
  | .listening | .retrying => Up socket s
  | .serving => Up socket s ∧ s.registered = some s.generation
  | .stopping | .returning | .exited => True

theorem isGone_own {op : Op} (h : (op == .remove || op == .rename) = true) :
    Event.isGone socket ⟨socket, [op]⟩ = true := by
  cases op <;> simp_all [Event.isGone]

/-! ## What the environment does -/

theorem queued_append {q : List Event} (h : s.watch = some q) {e : Event}
    (he : e.isGone socket = true) : (s.notify e).Queued socket :=
  ⟨q ++ [e], by rw [Process.notify, h]; rfl, e, List.mem_append_right _ List.mem_cons_self, he⟩

theorem queued_notify (h : s.Queued socket) (e : Event) : (s.notify e).Queued socket := by
  obtain ⟨q, hq, e', he', hgone⟩ := h
  exact ⟨q ++ [e], by rw [Process.notify, hq]; rfl, e', List.mem_append_left _ he', hgone⟩

theorem up_notify (h : Up socket s) (e : Event) : Up socket (s.notify e) where
  bound := h.bound
  underWatch := h.underWatch
  listened := h.listened
  watch := by
    rw [Process.notify, Option.isSome_map]
    exact h.watch
  queued hfile := queued_notify (h.queued hfile) e

/-- The fields that `Up` does not read. -/
theorem up_other (h : Up socket s) (pc : Pc) (unlinked serveErr ctxDone : Bool) (registered : Option ℕ) :
    Up socket { s with
      pc := pc
      unlinked := unlinked
      serveErr := serveErr
      ctxDone := ctxDone
      registered := registered } :=
  ⟨h.bound, h.underWatch, h.listened, h.watch, h.queued⟩

theorem up_vanish (h : Up socket s) {op : Op} (hop : (op == .remove || op == .rename) = true) :
    Up socket (s.vanish socket op) := by
  have hwatch : (s.vanish socket op).Queued socket ∧ (s.vanish socket op).watch.isSome := by
    obtain ⟨q, hq⟩ := Option.isSome_iff_exists.1 h.watch
    cases hfile : s.file with
    | true =>
      have hsame : (s.vanish socket op).watch = (s.notify ⟨socket, [op]⟩).watch := by
        simp only [Process.vanish, hfile, if_true, Process.notify]
      have hgone : Event.isGone socket ⟨socket, [op]⟩ = true := isGone_own hop
      obtain ⟨q', hq', hmem⟩ := queued_append hq hgone
      exact ⟨⟨q', hsame.trans hq', hmem⟩, by rw [hsame, hq']; rfl⟩
    | false =>
      have hsame : (s.vanish socket op).watch = s.watch := by
        simp only [Process.vanish, hfile, Bool.false_eq_true, if_false]
      obtain ⟨q', hq', hmem⟩ := h.queued hfile
      exact ⟨⟨q', hsame.trans hq', hmem⟩, by rw [hsame]; exact h.watch⟩
  exact ⟨h.bound, h.underWatch, h.listened, hwatch.2, fun _ => hwatch.1⟩

theorem up_closeListener (h : Up socket s) : Up socket (s.closeListener socket) := by
  unfold Process.closeListener
  split
  · exact up_other (up_vanish h rfl) ..
  · exact h

/-- `t` is `s` after something that is no step of `serve`. -/
structure Frame (s t : Process) : Prop where
  pc : t.pc = s.pc
  bound : t.bound = s.bound
  registered : t.registered = s.registered
  generation : t.generation = s.generation
  none : s.watch = .none → t.watch = .none
  some : s.watch.isSome → t.watch.isSome
  file : s.file = false → t.file = false

theorem frame_notify (s : Process) (e : Event) : Frame s (s.notify e) := by
  refine ⟨rfl, rfl, rfl, rfl, fun h => ?_, fun h => ?_, id⟩
  · rw [Process.notify, h]
    rfl
  · rw [Process.notify, Option.isSome_map]
    exact h

theorem frame_vanish (socket : String) (s : Process) (op : Op) : Frame s (s.vanish socket op) := by
  refine ⟨rfl, rfl, rfl, rfl, fun h => ?_, fun h => ?_, fun _ => rfl⟩
  · simp only [Process.vanish, h, Option.map_none, ite_self]
  · simp only [Process.vanish]
    split
    · rw [Option.isSome_map]
      exact h
    · exact h

theorem frame_closeListener (socket : String) (s : Process) : Frame s (s.closeListener socket) := by
  unfold Process.closeListener
  split
  · have := frame_vanish socket s .remove
    exact ⟨rfl, rfl, rfl, rfl, this.none, this.some, this.file⟩
  · exact ⟨rfl, rfl, rfl, rfl, id, id, id⟩

theorem atPc_frame (h : AtPc socket s) (hframe : Frame s t) (hup : Up socket s → Up socket t) :
    AtPc socket t := by
  unfold AtPc at h ⊢
  rw [hframe.pc]
  cases hs : s.pc with
  | start =>
    rw [hs] at h
    exact ⟨hframe.none h.1, hframe.bound.trans h.2⟩
  | removed =>
    rw [hs] at h
    exact ⟨hframe.file h.1, hframe.none h.2.1, hframe.bound.trans h.2.2⟩
  | created =>
    rw [hs] at h
    exact ⟨hframe.file h.1, hframe.none h.2.1, hframe.bound.trans h.2.2⟩
  | watching =>
    rw [hs] at h
    exact ⟨hframe.file h.1, hframe.some h.2.1, hframe.bound.trans h.2.2⟩
  | listening =>
    rw [hs] at h
    exact hup h
  | retrying =>
    rw [hs] at h
    exact hup h
  | serving =>
    rw [hs] at h
    exact ⟨hup h.1, by rw [hframe.registered, hframe.generation, h.2]⟩
  | stopping => trivial
  | returning => trivial
  | exited => trivial

/-! ## What `serve` does -/

theorem atPc_exit (socket : String) (s : Process) : AtPc socket (s.exit socket) := trivial

theorem atPc_proceed {ok : Bool} (h : AtPc socket t) : AtPc socket (s.proceed socket ok t) := by
  cases ok with
  | true => exact h
  | false => exact atPc_exit socket s

theorem atPc_listen (h : AtPc socket s) (hpc : s.pc = .watching) :
    AtPc socket
      { s.notify ⟨socket, [.create]⟩ with
        pc := .listening
        file := true
        bound := true
        unlinked := false
        listened := some s.generation
        underWatch := s.watch.isSome } := by
  rw [AtPc, hpc] at h
  obtain ⟨-, hwatch, -⟩ := h
  refine ⟨rfl, hwatch, rfl, ?_, nofun⟩
  rw [Process.notify, Option.isSome_map]
  exact hwatch

theorem atPc_serveFails (h : AtPc socket s) :
    AtPc socket { s.closeListener socket with serveErr := true } := by
  have hframe := frame_closeListener socket s
  refine atPc_frame h ⟨hframe.pc, hframe.bound, hframe.registered, hframe.generation, hframe.none,
    hframe.some, hframe.file⟩ fun h => ?_
  exact up_other (up_closeListener h) ..

theorem atPc_return (socket : String) (s : Process) : AtPc socket (s.return_ socket) := by
  unfold Process.return_
  dsimp only
  split
  · trivial
  · exact ⟨rfl, rfl⟩

/-- An event that is not the socket's removal leaves that in the queue. -/
theorem gone_mem_tail {e : Event} {q : List Event} (h : ∃ e' ∈ e :: q, e'.isGone socket = true)
    (he : e.isGone socket = false) : ∃ e' ∈ q, e'.isGone socket = true := by
  obtain ⟨e', he', hgone⟩ := h
  have hne : e' ≠ e := fun h => by
    rw [h, he] at hgone
    cases hgone
  exact ⟨e', List.mem_of_ne_of_mem hne he', hgone⟩

theorem up_pop {e : Event} {q : List Event} (h : Up socket s) (hq : s.watch = some (e :: q))
    (he : e.isGone socket = false) : Up socket { s with watch := some q } := by
  refine ⟨h.bound, h.underWatch, h.listened, rfl, fun hfile => ?_⟩
  obtain ⟨q', hq', hmem⟩ := h.queued hfile
  obtain rfl := Option.some.inj (hq.symm.trans hq')
  exact ⟨q, rfl, gone_mem_tail hmem he⟩

theorem atPc_event (h : AtPc socket s) (hpc : s.pc = .serving) {e : Event} {q : List Event}
    (hq : s.watch = some (e :: q)) :
    AtPc socket (if e.isGone socket then { s with pc := .stopping, watch := some q }
      else { s with watch := some q }) := by
  rw [AtPc, hpc] at h
  split
  · trivial
  · rename_i he
    rw [AtPc]
    simp only [hpc]
    exact ⟨up_other (up_pop h.1 hq (Bool.eq_false_iff.2 he)) .., h.2⟩

/-- **The step lemma**, one case a call of the source and then the environment. -/
theorem atPc_step {a : Label} (h : AtPc socket s) (hst : s.step socket a = some t) :
    AtPc socket t := by
  unfold Process.step at hst
  split at hst
  · -- removeSocket
    rename_i hpc
    obtain rfl := Option.some.inj hst
    rw [AtPc, hpc] at h
    exact atPc_proceed ⟨rfl, (frame_vanish socket s .remove).none h.1, h.2⟩
  · -- NewWatcher
    rename_i hpc
    obtain rfl := Option.some.inj hst
    rw [AtPc, hpc] at h
    exact atPc_proceed h
  · -- Add
    rename_i hpc
    obtain rfl := Option.some.inj hst
    rw [AtPc, hpc] at h
    exact atPc_proceed ⟨h.1, rfl, h.2.2⟩
  · -- Listen
    rename_i hpc
    split at hst
    · cases hst
    · obtain rfl := Option.some.inj hst
      exact atPc_proceed (atPc_listen h hpc)
  · -- register
    rename_i hpc
    rw [AtPc, hpc] at h
    split at hst
    · obtain rfl := Option.some.inj hst
      exact ⟨up_other h .., rfl⟩
    · obtain rfl := Option.some.inj hst
      exact up_other h ..
  · -- the timer
    rename_i hpc
    obtain rfl := Option.some.inj hst
    rw [AtPc, hpc] at h
    exact up_other h ..
  · -- ctx.Done while registering
    split at hst
    · exact Option.some.inj hst ▸ atPc_exit socket s
    · cases hst
  · -- ctx.Done
    split at hst
    · exact Option.some.inj hst ▸ atPc_exit socket s
    · cases hst
  · -- serveErr
    split at hst
    · exact Option.some.inj hst ▸ atPc_exit socket s
    · cases hst
  · -- an event
    rename_i hpc
    split at hst
    · rename_i e q hq
      rw [← apply_ite some] at hst
      exact Option.some.inj hst ▸ atPc_event h hpc hq
    · cases hst
  · -- an error of the watcher
    exact Option.some.inj hst ▸ atPc_exit socket s
  · -- Stop
    exact Option.some.inj hst ▸ trivial
  · -- the deferred calls
    exact Option.some.inj hst ▸ atPc_return socket s
  · -- the socket is deleted or renamed
    rename_i op
    split at hst
    · rename_i hop
      rw [Bool.and_eq_true] at hop
      obtain rfl := Option.some.inj hst
      exact atPc_frame h (frame_vanish socket s op) fun h => up_vanish h hop.2
    · cases hst
  · -- something else happens in the directory
    rename_i e
    split at hst
    · cases hst
    · obtain rfl := Option.some.inj hst
      exact atPc_frame h (frame_notify s e) fun h => up_notify h e
  · -- the context is cancelled
    obtain rfl := Option.some.inj hst
    exact atPc_frame h ⟨rfl, rfl, rfl, rfl, id, id, id⟩ fun h => up_other h ..
  -- the server fails, in one of three places
  · exact Option.some.inj hst ▸ atPc_serveFails h
  · exact Option.some.inj hst ▸ atPc_serveFails h
  · exact Option.some.inj hst ▸ atPc_serveFails h
  · cases hst

theorem atPc (h : (process socket).Reachable s) : AtPc socket s := by
  refine Lts.Reachable.invariant ?_ ?_ h
  · intro s h0
    rw [h0]
    exact ⟨rfl, rfl⟩
  · intro s a t _ hs hst
    exact atPc_step hs hst

/-- **`register` is only called under the watch**, with a listener of this call of `serve`. -/
theorem register_bound (h : AtPc socket s) {ok : Bool}
    (hst : s.step socket (.register ok) = some t) :
    s.bound = true ∧ s.underWatch = true ∧ s.listened = some s.generation ∧ s.watch.isSome := by
  have hpc : s.pc = .listening := by
    cases hpc : s.pc with
    | listening => rfl
    | _ => simp only [Process.step, hpc, reduceCtorEq] at hst
  rw [AtPc, hpc] at h
  exact ⟨h.bound, h.underWatch, h.listened, h.watch⟩

/-- Wherever the source waits once the socket is bound, the queue tells that it is gone. -/
theorem gone_queued (h : AtPc socket s)
    (hpc : s.pc = .listening ∨ s.pc = .retrying ∨ s.pc = .serving) (hfile : s.file = false) :
    s.Queued socket := by
  rcases hpc with hpc | hpc | hpc <;> rw [AtPc, hpc] at h
  · exact h.queued hfile
  · exact h.queued hfile
  · exact h.1.queued hfile

/-! ## Without a socket -/

/-- The event loop of call `g`, with the socket gone. -/
def Missing (socket : String) (g : ℕ) (s : Process) : Prop :=
  s.pc = .serving ∧ s.generation = g ∧ s.file = false ∧ s.Queued socket

/-- Call `g` of `serve` is over: `run` has returned, or that call returns `errKubeletRestart` or has
done so. -/
def Over (g : ℕ) (s : Process) : Prop :=
  s.pc = .exited ∨ g < s.generation ∨ g = s.generation ∧ (s.pc = .stopping ∨ s.pc = .returning)

/-- How many events are queued before the first one of the socket's removal. -/
def position (socket : String) (s : Process) : ℕ := (s.watch.getD []).findIdx (Event.isGone socket)

theorem closeListener_gone (h : s.file = false) : (s.closeListener socket).watch = s.watch := by
  unfold Process.closeListener
  split
  · simp only [Process.vanish, h, Bool.false_eq_true, if_false]
  · rfl

theorem closeListener_ctxDone (socket : String) (s : Process) :
    (s.closeListener socket).ctxDone = s.ctxDone := by
  unfold Process.closeListener
  split <;> rfl

/-- Later events do not come before the first one. -/
theorem position_notify (h : s.Queued socket) (e : Event) :
    position socket (s.notify e) = position socket s := by
  obtain ⟨q, hq, hmem⟩ := h
  unfold position
  rw [Process.notify, hq]
  simp only [Option.map_some, Option.getD_some]
  rw [List.findIdx_append, if_pos (List.findIdx_lt_length.2 hmem)]

/-- An event is handled: the one of the removal ends the call, another one brings it nearer. -/
theorem missing_event {g : ℕ} (h : Missing socket g s) (hst : s.step socket .event = some t) :
    (Missing socket g t ∧ position socket t + 1 = position socket s) ∨ Over g t := by
  obtain ⟨hpc, hgen, hfile, q, hq, hmem⟩ := h
  simp only [Process.step, hpc, hq] at hst
  cases q with
  | nil => exact absurd hmem (by simp)
  | cons e q =>
    simp only at hst
    split at hst
    · obtain rfl := Option.some.inj hst
      exact .inr (.inr (.inr ⟨hgen.symm, .inl rfl⟩))
    · rename_i hne
      have he : e.isGone socket = false := Bool.eq_false_iff.2 hne
      obtain rfl := Option.some.inj hst
      refine .inl ⟨⟨rfl, hgen, hfile, q, rfl, gone_mem_tail hmem he⟩, ?_⟩
      unfold position
      rw [hq, Option.getD_some, Option.getD_some, List.findIdx_cons, he]
      rfl

theorem missing_frame {g : ℕ} (h : Missing socket g s) (hframe : Frame s t)
    (hq : t.Queued socket) : Missing socket g t :=
  ⟨hframe.pc.trans h.1, hframe.generation.trans h.2.1, hframe.file h.2.2.1, hq⟩

/-- **The step lemma**: only an event changes the position, and whatever ends the loop ends the
call. -/
theorem missing_step {g : ℕ} {a : Label} (h : Missing socket g s)
    (hst : s.step socket a = some t) :
    (Missing socket g t ∧ position socket t + (if a == .event then 1 else 0) = position socket s) ∨
      Over g t := by
  obtain ⟨hpc, -, hfile, hq⟩ := id h
  cases a with
  | event => exact missing_event h hst
  | done =>
    -- the loop can end before it comes to the event
    simp only [Process.step, hpc] at hst
    split at hst
    · exact .inr (.inl (Option.some.inj hst ▸ rfl))
    · cases hst
  | serveErr =>
    simp only [Process.step, hpc] at hst
    split at hst
    · exact .inr (.inl (Option.some.inj hst ▸ rfl))
    · cases hst
  | watcherErr =>
    simp only [Process.step, hpc] at hst
    exact .inr (.inl (Option.some.inj hst ▸ rfl))
  | lose op => simp only [Process.step, hfile, Bool.false_and, Bool.false_eq_true, if_false,
      reduceCtorEq] at hst
  | touch e =>
    simp only [Process.step] at hst
    split at hst
    · cases hst
    · obtain rfl := Option.some.inj hst
      -- what is queued later stands behind the event
      exact .inl ⟨missing_frame h (frame_notify s e) (queued_notify hq e), position_notify hq e⟩
  | cancel =>
    obtain rfl := Option.some.inj hst
    exact .inl ⟨h, rfl⟩
  | serveFails =>
    simp only [Process.step, hpc] at hst
    obtain rfl := Option.some.inj hst
    -- the socket is gone already, so closing the listener removes nothing
    have hframe := frame_closeListener socket s
    have hwatch : (s.closeListener socket).watch = s.watch := closeListener_gone hfile
    have hq' : (s.closeListener socket).Queued socket := by
      rw [Process.Queued, hwatch]
      exact hq
    refine .inl ⟨⟨hframe.pc.trans hpc, hframe.generation.trans h.2.1, hframe.file hfile, hq'⟩, ?_⟩
    show (((s.closeListener socket).watch.getD []).findIdx _ : ℕ) = _
    rw [hwatch]
    rfl
  | _ => simp only [Process.step, hpc, reduceCtorEq] at hst

theorem over_same {g : ℕ} (h : Over g s) (hpc : t.pc = s.pc) (hgen : t.generation = s.generation) :
    Over g t := by
  rw [Over, hpc, hgen]
  exact h

/-- Where `serve` has not ended, it is a later call. -/
theorem over_later {g : ℕ} (h : Over g s) {pc : Pc} (hs : s.pc = pc)
    (hpc : pc ∉ [.stopping, .returning, .exited]) (hgen : t.generation = s.generation) : Over g t := by
  rcases h with h | h | ⟨-, h | h⟩
  · rw [← hs, h] at hpc
    exact absurd (by decide) hpc
  · exact .inr (.inl (hgen ▸ h))
  · rw [← hs, h] at hpc
    exact absurd (by decide) hpc
  · rw [← hs, h] at hpc
    exact absurd (by decide) hpc

theorem over_exit (socket : String) (g : ℕ) (s : Process) : Over g (s.exit socket) := .inl rfl

theorem over_proceed {g : ℕ} {ok : Bool} (h : Over g t) : Over g (s.proceed socket ok t) := by
  cases ok with
  | true => exact h
  | false => exact over_exit socket g s

theorem over_return {g : ℕ} (h : Over g s) (hpc : s.pc = .returning) :
    Over g (s.return_ socket) := by
  have hle : g ≤ s.generation := by
    rcases h with h | h | ⟨h, -⟩
    · rw [hpc] at h
      cases h
    · exact Nat.le_of_lt h
    · exact Nat.le_of_eq h
  unfold Process.return_
  dsimp only
  split
  · exact .inl rfl
  · refine .inr (.inl ?_)
    show g < (s.closeListener socket).generation + 1
    rw [(frame_closeListener socket s).generation]
    exact Nat.lt_succ_of_le hle

/-- A call that is over does not begin again. -/
theorem over_step {g : ℕ} {a : Label} (h : Over g s) (hst : s.step socket a = some t) :
    Over g t := by
  have hclose := frame_closeListener socket s
  unfold Process.step at hst
  split at hst
  -- up to the event loop
  · rename_i hpc
    exact Option.some.inj hst ▸ over_proceed (over_later h hpc (by decide) rfl)
  · rename_i hpc
    exact Option.some.inj hst ▸ over_proceed (over_later h hpc (by decide) rfl)
  · rename_i hpc
    exact Option.some.inj hst ▸ over_proceed (over_later h hpc (by decide) rfl)
  · rename_i hpc
    split at hst
    · cases hst
    · exact Option.some.inj hst ▸ over_proceed (over_later h hpc (by decide) rfl)
  · rename_i hpc
    split at hst <;> exact Option.some.inj hst ▸ over_later h hpc (by decide) rfl
  · rename_i hpc
    exact Option.some.inj hst ▸ over_later h hpc (by decide) rfl
  -- the event loop
  · split at hst
    · exact Option.some.inj hst ▸ over_exit socket g s
    · cases hst
  · split at hst
    · exact Option.some.inj hst ▸ over_exit socket g s
    · cases hst
  · split at hst
    · exact Option.some.inj hst ▸ over_exit socket g s
    · cases hst
  · rename_i hpc
    split at hst
    · split at hst <;> exact Option.some.inj hst ▸ over_later h hpc (by decide) rfl
    · cases hst
  · exact Option.some.inj hst ▸ over_exit socket g s
  · -- Stop
    rename_i hpc
    rcases h with h | h | ⟨h, -⟩
    · rw [hpc] at h
      cases h
    · exact Option.some.inj hst ▸ .inr (.inl (hclose.generation ▸ h))
    · exact Option.some.inj hst ▸ .inr (.inr ⟨hclose.generation ▸ h, .inr rfl⟩)
  · rename_i hpc
    exact Option.some.inj hst ▸ over_return h hpc
  -- the environment
  · split at hst
    · exact Option.some.inj hst ▸ over_same h rfl rfl
    · cases hst
  · split at hst
    · cases hst
    · exact Option.some.inj hst ▸ over_same h rfl rfl
  · exact Option.some.inj hst ▸ over_same h rfl rfl
  · exact Option.some.inj hst ▸ over_same h hclose.pc hclose.generation
  · exact Option.some.inj hst ▸ over_same h hclose.pc hclose.generation
  · exact Option.some.inj hst ▸ over_same h hclose.pc hclose.generation
  · cases hst

/-- **The run lemma**: the loop handles no more events than are queued before the removal. -/
theorem missing_run {g : ℕ} {as : List Label} (h : Missing socket g s)
    (hrun : (process socket).Run s as t) :
    (Missing socket g t ∧ position socket t + as.countP (· == .event) = position socket s) ∨
      Over g t :=
  Lts.Run.rank (position socket) (· == .event) (fun _ _ _ => missing_step)
    (fun _ _ _ => over_step) hrun h

/-! ## The restart -/

/-- The events up to that of the removal can be handled. -/
theorem drain {g : ℕ} (h : Missing socket g s) :
    ∃ as t, (process socket).Run s as t ∧ t.pc = .stopping ∧ t.generation = g ∧
      t.ctxDone = s.ctxDone := by
  obtain ⟨hpc, hgen, hfile, q, hq, hmem⟩ := h
  induction q generalizing s with
  | nil => exact absurd hmem (by simp)
  | cons e q ih =>
    have hstep : s.step socket .event =
        if e.isGone socket then some { s with pc := .stopping, watch := some q }
        else some { s with watch := some q } := by
      simp only [Process.step, hpc, hq]
    cases he : e.isGone socket with
    | true =>
      rw [he, if_pos rfl] at hstep
      exact ⟨_, _, .single hstep, rfl, hgen, rfl⟩
    | false =>
      rw [he, if_neg Bool.false_ne_true] at hstep
      obtain ⟨as, t, hrun, ht⟩ :=
        ih (s := { s with watch := some q }) hpc hgen hfile rfl (gone_mem_tail hmem he)
      exact ⟨_, t, (Lts.Run.single hstep).append hrun, ht⟩

/-- A call of `serve` in which everything succeeds. -/
theorem fresh_run (socket : String) (h : s.pc = .start) :
    ∃ as t, (process socket).Run s as t ∧ t.pc = .serving ∧ t.generation = s.generation ∧
      t.file = true := by
  obtain ⟨s₁, h₁, hpc₁, hgen₁, hfile₁⟩ : ∃ t, s.step socket (.removeSocket true) = some t ∧
      t.pc = .removed ∧ t.generation = s.generation ∧ t.file = false := by
    simp [Process.step, h, Process.proceed, Process.vanish]
  obtain ⟨s₂, h₂, hpc₂, hgen₂, hfile₂⟩ : ∃ t, s₁.step socket (.newWatcher true) = some t ∧
      t.pc = .created ∧ t.generation = s.generation ∧ t.file = false := by
    simp [Process.step, hpc₁, hgen₁, hfile₁, Process.proceed]
  obtain ⟨s₃, h₃, hpc₃, hgen₃, hfile₃⟩ : ∃ t, s₂.step socket (.add true) = some t ∧
      t.pc = .watching ∧ t.generation = s.generation ∧ t.file = false := by
    simp [Process.step, hpc₂, hgen₂, hfile₂, Process.proceed]
  obtain ⟨s₄, h₄, hpc₄, hgen₄, hfile₄⟩ : ∃ t, s₃.step socket (.listen true) = some t ∧
      t.pc = .listening ∧ t.generation = s.generation ∧ t.file = true := by
    simp [Process.step, hpc₃, hgen₃, hfile₃, Process.proceed, Process.notify]
  obtain ⟨s₅, h₅, hpc₅, hgen₅, hfile₅⟩ : ∃ t, s₄.step socket (.register true) = some t ∧
      t.pc = .serving ∧ t.generation = s.generation ∧ t.file = true := by
    simp [Process.step, hpc₄, hgen₄, hfile₄]
  exact ⟨_, s₅, ((((Lts.Run.single h₁).snoc h₂).snoc h₃).snoc h₄).snoc h₅, hpc₅, hgen₅, hfile₅⟩

/-- `errKubeletRestart` begins the next call, unless the context is done. -/
theorem restart_run (socket : String) (h : s.pc = .stopping) (hctx : s.ctxDone = false) :
    ∃ as t, (process socket).Run s as t ∧ t.pc = .start ∧ t.generation = s.generation + 1 := by
  obtain ⟨s₁, h₁, hpc₁, hgen₁, hctx₁⟩ : ∃ t, s.step socket .stop = some t ∧
      t.pc = .returning ∧ t.generation = s.generation ∧ t.ctxDone = false := by
    simp [Process.step, h, (frame_closeListener socket s).generation, closeListener_ctxDone, hctx]
  obtain ⟨s₂, h₂, hpc₂, hgen₂⟩ : ∃ t, s₁.step socket .return_ = some t ∧
      t.pc = .start ∧ t.generation = s.generation + 1 := by
    simp [Process.step, hpc₁, Process.return_, closeListener_ctxDone, hctx₁,
      (frame_closeListener socket s₁).generation, hgen₁]
  exact ⟨_, s₂, (Lts.Run.single h₁).snoc h₂, hpc₂, hgen₂⟩

theorem restart_possible {g : ℕ} (h : Missing socket g s) (hctx : s.ctxDone = false) :
    ∃ as t, (process socket).Run s as t ∧ t.pc = .serving ∧ t.generation = g + 1 ∧
      t.file = true := by
  obtain ⟨as, s₁, hrun₁, hpc₁, hgen₁, hctx₁⟩ := drain h
  obtain ⟨bs, s₂, hrun₂, hpc₂, hgen₂⟩ := restart_run socket hpc₁ (hctx₁.trans hctx)
  obtain ⟨cs, t, hrun, hpc, hgen, hfile⟩ := fresh_run socket hpc₂
  exact ⟨_, t, (hrun₁.append hrun₂).append hrun, hpc, by rw [hgen, hgen₂, hgen₁], hfile⟩

/-- How the event loop is left: for a restart only by an event, for good only by the other
cases. -/
theorem loop_exits {a : Label} (hpc : s.pc = .serving) (hst : s.step socket a = some t) :
    t.pc = .serving ∨ a = .event ∧ t.pc = .stopping ∨
      t.pc = .exited ∧ (a = .done ∧ s.ctxDone = true ∨ a = .serveErr ∧ s.serveErr = true ∨
        a = .watcherErr) := by
  cases a with
  | done =>
    simp only [Process.step, hpc] at hst
    split at hst
    · rename_i hctx
      exact .inr (.inr ⟨Option.some.inj hst ▸ rfl, .inl ⟨rfl, hctx⟩⟩)
    · cases hst
  | serveErr =>
    simp only [Process.step, hpc] at hst
    split at hst
    · rename_i herr
      exact .inr (.inr ⟨Option.some.inj hst ▸ rfl, .inr (.inl ⟨rfl, herr⟩)⟩)
    · cases hst
  | watcherErr =>
    simp only [Process.step, hpc] at hst
    exact .inr (.inr ⟨Option.some.inj hst ▸ rfl, .inr (.inr rfl)⟩)
  | event =>
    simp only [Process.step, hpc] at hst
    split at hst
    · split at hst
      · exact .inr (.inl ⟨rfl, Option.some.inj hst ▸ rfl⟩)
      · exact .inl (Option.some.inj hst ▸ rfl)
    · cases hst
  | lose op =>
    simp only [Process.step] at hst
    split at hst
    · exact .inl (Option.some.inj hst ▸ hpc)
    · cases hst
  | touch e =>
    simp only [Process.step] at hst
    split at hst
    · cases hst
    · exact .inl (Option.some.inj hst ▸ hpc)
  | cancel => exact .inl (Option.some.inj hst ▸ hpc)
  | serveFails =>
    simp only [Process.step, hpc] at hst
    exact .inl (Option.some.inj hst ▸ (frame_closeListener socket s).pc.trans hpc)
  | _ => simp only [Process.step, hpc, reduceCtorEq] at hst

/-! ## The statement -/

/-- **No missed kubelet restart.** In every reachable state,

* `register` has a listener that this call of `serve` bound after the watch was installed;
* once the socket is bound, its absence is in the queue until `serve` leaves its loop;
* the loop without a socket handles at most the events queued before that one, then the call of
  `serve` is over and never comes back;
* the loop is left by an event, for `errKubeletRestart`, or because the context is done or the
  server or the watcher has failed, and then `run` returns;
* the loop, in whatever call of `serve`, is behind a `Listen` and a `register` of that call;
* nothing but a cancelled context is in the way of `errKubeletRestart` and a fresh `Listen` and
  `register`. -/
theorem no_missed_restart (h : (process socket).Reachable s) :
    (∀ ok t, s.step socket (.register ok) = some t →
      s.bound = true ∧ s.underWatch = true ∧ s.listened = some s.generation ∧ s.watch.isSome) ∧
    (s.pc = .listening ∨ s.pc = .retrying ∨ s.pc = .serving → s.file = false →
      s.Queued socket) ∧
    (s.pc = .serving → s.file = false → ∀ as t, (process socket).Run s as t →
      (Missing socket s.generation t ∧
        position socket t + as.countP (· == .event) = position socket s) ∨
      Over s.generation t) ∧
    (s.pc = .serving → ∀ a t, s.step socket a = some t →
      t.pc = .serving ∨ a = .event ∧ t.pc = .stopping ∨
        t.pc = .exited ∧ (a = .done ∧ s.ctxDone = true ∨ a = .serveErr ∧ s.serveErr = true ∨
          a = .watcherErr)) ∧
    (s.pc = .serving → s.listened = some s.generation ∧ s.registered = some s.generation) ∧
    (s.pc = .serving → s.file = false → s.ctxDone = false →
      ∃ as t, (process socket).Run s as t ∧ t.pc = .serving ∧ t.generation = s.generation + 1 ∧
        t.file = true) := by
  have hat := atPc h
  have hmissing : s.pc = .serving → s.file = false → Missing socket s.generation s :=
    fun hpc hfile => ⟨hpc, rfl, hfile, gone_queued hat (.inr (.inr hpc)) hfile⟩
  refine ⟨fun ok t hst => register_bound hat hst, fun hpc hfile => gone_queued hat hpc hfile,
    fun hpc hfile as t hrun => missing_run (hmissing hpc hfile) hrun,
    fun hpc a t hst => loop_exits hpc hst, fun hpc => ?_,
    fun hpc hfile hctx => restart_possible (hmissing hpc hfile) hctx⟩
  rw [AtPc, hpc] at hat
  exact ⟨hat.1.listened, hat.2⟩

/-- The socket is renamed while registration is being retried. -/
def lost : Process where
  pc := .serving
  file := false
  watch := some [⟨"a.sock", [.create]⟩, ⟨"a.sock", [.rename]⟩]
  bound := true
  listened := some 0
  registered := some 0
  underWatch := true

theorem no_missed_restart_lost :
    position "a.sock" lost = 1 ∧ lost.Queued "a.sock" ∧
      ∃ as t, (process "a.sock").Run lost as t ∧ t.pc = .serving ∧ t.generation = 1 ∧
        t.file = true := by
  have hrun : (process "a.sock").Run { file := true }
      [.removeSocket true, .newWatcher true, .add true, .listen true, .register false,
        .lose .rename, .retry, .register true] lost :=
    .of_foldlM (fun _ _ _ hst => hst) (by decide)
  have hreach : (process "a.sock").Reachable lost := ⟨{ file := true }, _, rfl, hrun⟩
  have hall := no_missed_restart hreach
  exact ⟨by decide, hall.2.1 (.inr (.inr rfl)) rfl, hall.2.2.2.2.2 rfl rfl rfl⟩

end K8sDev.Serve

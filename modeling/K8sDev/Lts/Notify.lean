import K8sDev.Lts.Run
import Mathlib.Logic.Function.Basic
import Mathlib.Data.List.Pairwise

/-!
# Watching a variable through a one-slot signal

A variable is written by anyone; every write raises a signal that holds at most one
token (raising it twice is raising it once). Watchers send a first snapshot of the
variable, and then one more for every token they take. Taking the token and reading
the variable are two steps.

* `fresh_of_quiet`: if a token is only taken while every *other* watcher is up to
  date, then with no token pending every watcher is up to date. Nothing is lost to
  coalescing: a write after the token was taken raises it again.
* `quiet_of_solo`: a single watcher at a time always meets that condition.
* `sent_ordered`: whatever the schedule, each watcher sends values the variable
  really had, in the order it had them.
-/

namespace Notify

variable {α ι : Type*}

/-- Where a watcher stands: not running, about to take its first snapshot, holding a
snapshot it has not sent, waiting for a token, or holding a token. -/
inductive Pc (α : Type*)
  | closed
  | opened
  | sending (v : α)
  | waiting
  | woken
deriving DecidableEq

/-- A watcher, with what it has sent since it was opened. -/
structure Watcher (α : Type*) where
  pc : Pc α
  sent : List α
deriving DecidableEq

/-- The variable with the values it had before, the signal and the watchers. -/
structure State (α ι : Type*) where
  past : List α
  value : α
  token : Bool
  watcher : ι → Watcher α

/-- Every value the variable has had, the current one last. -/
def State.history (s : State α ι) : List α := s.past ++ [s.value]

inductive Act (α ι : Type*)
  | write (v : α)
  | opens (i : ι)
  | snapshot (i : ι)
  | send (i : ι)
  | take (i : ι)
  | close (i : ι)

variable [DecidableEq ι]

/-- One watcher moves. -/
def State.move (s : State α ι) (i : ι) (w : Watcher α) : State α ι :=
  { s with watcher := Function.update s.watcher i w }

def step (s : State α ι) : Act α ι → Option (State α ι)
  | .write v => some { s with past := s.history, value := v, token := true }
  | .opens i =>
    match (s.watcher i).pc with
    | .closed => some (s.move i ⟨.opened, []⟩)
    | _ => none
  | .snapshot i =>
    match (s.watcher i).pc with
    | .opened | .woken => some (s.move i ⟨.sending s.value, (s.watcher i).sent⟩)
    | _ => none
  | .send i =>
    match (s.watcher i).pc with
    | .sending v => some (s.move i ⟨.waiting, (s.watcher i).sent ++ [v]⟩)
    | _ => none
  | .take i =>
    match (s.watcher i).pc with
    | .waiting =>
      if s.token then some { s.move i ⟨.woken, (s.watcher i).sent⟩ with token := false } else none
    | _ => none
  | .close i => some (s.move i ⟨.closed, (s.watcher i).sent⟩)

/-- Nobody watches and no token is pending. -/
def idle (v : α) : State α ι := ⟨[], v, false, fun _ => ⟨.closed, []⟩⟩

/-- The system that starts idle with value `v`. -/
def lts (v : α) : Lts (State α ι) (Act α ι) := .ofFun (idle v) step

/-! ## What a watcher holds -/

/-- A watcher's last snapshot, sent or about to be sent, is the current value. A watcher
that has yet to take one has nothing to be out of date. -/
def Watcher.Fresh (w : Watcher α) (v : α) : Prop :=
  match w.pc with
  | .sending u => u = v
  | .waiting => w.sent.getLast? = some v
  | _ => True

instance [DecidableEq α] (w : Watcher α) (v : α) : Decidable (w.Fresh v) := by
  obtain ⟨pc, sent⟩ := w
  cases pc <;> unfold Watcher.Fresh <;> infer_instance

/-- The snapshots a watcher has taken: those it sent, and the one in its hands. -/
def Watcher.taken (w : Watcher α) : List α :=
  w.sent ++ match w.pc with
    | .sending v => [v]
    | _ => []

omit [DecidableEq ι] in
theorem Watcher.sent_initial (w : Watcher α) : w.sent <+: w.taken := List.prefix_append _ _

theorem move_self (s : State α ι) (i : ι) (w : Watcher α) : (s.move i w).watcher i = w := by
  simp [State.move]

theorem move_ne (s : State α ι) {i j : ι} (h : j ≠ i) (w : Watcher α) :
    (s.move i w).watcher j = s.watcher j := by
  simp [State.move, h]

@[simp] theorem move_value (s : State α ι) (i : ι) (w : Watcher α) : (s.move i w).value = s.value :=
  rfl

@[simp] theorem move_past (s : State α ι) (i : ι) (w : Watcher α) : (s.move i w).past = s.past := rfl

@[simp] theorem move_token (s : State α ι) (i : ι) (w : Watcher α) : (s.move i w).token = s.token :=
  rfl

@[simp] theorem move_history (s : State α ι) (i : ι) (w : Watcher α) :
    (s.move i w).history = s.history := rfl

/-- **What one step can do**: write the variable and raise the signal, or move a single
watcher `i` along its program, which leaves the variable alone and lowers the signal
only when it takes the token. -/
theorem step_cases {s s' : State α ι} {a : Act α ι} (h : step s a = some s') :
    (∃ v, a = .write v ∧ s' = { s with past := s.history, value := v, token := true }) ∨
    (∃ i w, s' = s.move i w ∧ (a = .opens i ∧ (s.watcher i).pc = .closed ∧ w = ⟨.opened, []⟩ ∨
      a = .snapshot i ∧ w = ⟨.sending s.value, (s.watcher i).sent⟩ ∧
        (s.watcher i).taken = (s.watcher i).sent ∧ (s.watcher i).pc ≠ .closed ∨
      (∃ v, a = .send i ∧ (s.watcher i).pc = .sending v ∧ w = ⟨.waiting, (s.watcher i).sent ++ [v]⟩) ∨
      a = .close i ∧ w = ⟨.closed, (s.watcher i).sent⟩)) ∨
    (∃ i, a = .take i ∧ (s.watcher i).pc = .waiting ∧ s.token = true ∧
      s' = { s.move i ⟨.woken, (s.watcher i).sent⟩ with token := false }) := by
  cases a with
  | write v => exact .inl ⟨v, rfl, by simpa [step] using h.symm⟩
  | opens i =>
    simp only [step] at h
    split at h
    · rename_i hpc
      exact .inr (.inl ⟨i, _, (Option.some.inj h).symm, .inl ⟨rfl, hpc, rfl⟩⟩)
    · cases h
  | snapshot i =>
    simp only [step] at h
    split at h
    · rename_i hpc
      exact .inr (.inl ⟨i, _, (Option.some.inj h).symm,
        .inr (.inl ⟨rfl, rfl, by simp [Watcher.taken, hpc], by simp [hpc]⟩)⟩)
    · rename_i hpc
      exact .inr (.inl ⟨i, _, (Option.some.inj h).symm,
        .inr (.inl ⟨rfl, rfl, by simp [Watcher.taken, hpc], by simp [hpc]⟩)⟩)
    · cases h
  | send i =>
    simp only [step] at h
    split at h
    · rename_i v hpc
      exact .inr (.inl ⟨i, _, (Option.some.inj h).symm, .inr (.inr (.inl ⟨v, rfl, hpc, rfl⟩))⟩)
    · cases h
  | take i =>
    simp only [step] at h
    split at h
    · rename_i hpc
      split at h
      · rename_i ht
        exact .inr (.inr ⟨i, rfl, hpc, ht, (Option.some.inj h).symm⟩)
      · cases h
    · cases h
  | close i =>
    exact .inr (.inl ⟨i, _, (Option.some.inj h).symm, .inr (.inr (.inr ⟨rfl, rfl⟩))⟩)

/-! ## No write is lost -/

/-- The token is only taken while every other watcher is up to date. -/
def Courteous (s : State α ι) (a : Act α ι) (_ : State α ι) : Prop :=
  ∀ i, a = .take i → ∀ j, j ≠ i → (s.watcher j).Fresh s.value

/-- A step keeps every watcher up to date or leaves a token behind. -/
theorem quiet_step {s s' : State α ι} {a : Act α ι} (hc : Courteous s a s')
    (ih : s.token = false → ∀ i, (s.watcher i).Fresh s.value) (h : step s a = some s') :
    s'.token = false → ∀ i, (s'.watcher i).Fresh s'.value := by
  intro ht j
  rcases step_cases h with ⟨v, -, rfl⟩ | ⟨i, w, rfl, hw⟩ | ⟨i, rfl, -, -, rfl⟩
  · simp at ht
  · have hj : ∀ k, (s.watcher k).Fresh s.value := ih ht
    by_cases hji : j = i
    · subst hji
      rw [move_self]
      rcases hw with ⟨-, -, rfl⟩ | ⟨-, rfl, -, -⟩ | ⟨v, -, hpc, rfl⟩ | ⟨-, rfl⟩
      · trivial
      · rfl
      · have hf := hj j
        simp only [Watcher.Fresh, hpc] at hf
        simp [Watcher.Fresh, hf]
      · trivial
    · rw [move_ne s hji]; exact hj j
  · show Watcher.Fresh ((s.move i _).watcher j) s.value
    by_cases hji : j = i
    · subst hji; rw [move_self]; trivial
    · rw [move_ne s hji]; exact hc i rfl j hji

/-- **No write is lost.** In a run whose tokens are only taken while every other watcher
is up to date, with no token pending every watcher is up to date. -/
theorem fresh_of_quiet {v : α} {s : State α ι} (h : ((lts v).restrict Courteous).Reachable s)
    (ht : s.token = false) (i : ι) : (s.watcher i).Fresh s.value := by
  refine Lts.Reachable.invariant (P := fun s : State α ι =>
    s.token = false → ∀ i, (s.watcher i).Fresh s.value) ?_ ?_ h ht i
  · rintro _ rfl _ i; trivial
  · intro s a t _ ih hst
    exact quiet_step hst.2 ih hst.1

/-! ## One watcher at a time -/

/-- A watcher is only opened when all are closed. -/
def Solo (s : State α ι) (a : Act α ι) (_ : State α ι) : Prop :=
  ∀ i, a = .opens i → ∀ j, (s.watcher j).pc = .closed

/-- At most one watcher runs. -/
def AtMostOne (s : State α ι) : Prop :=
  ∀ i j, i ≠ j → (s.watcher i).pc = .closed ∨ (s.watcher j).pc = .closed

theorem atMostOne_move {s : State α ι} (ih : AtMostOne s) {i : ι} {w : Watcher α}
    (h : (∀ j, (s.watcher j).pc = .closed) ∨ (s.watcher i).pc ≠ .closed ∨ w.pc = .closed) :
    AtMostOne (s.move i w) := by
  intro j k hjk
  by_cases hj : j = i
  · subst hj
    rw [move_self, move_ne s (Ne.symm hjk)]
    rcases h with h | h | h
    · exact .inr (h k)
    · exact .inr ((ih j k hjk).resolve_left h)
    · exact .inl h
  · rw [move_ne s hj]
    by_cases hk : k = i
    · subst hk
      rw [move_self]
      rcases h with h | h | h
      · exact .inl (h j)
      · exact .inl ((ih j k hjk).resolve_right h)
      · exact .inr h
    · rw [move_ne s hk]; exact ih j k hjk

theorem solo_atMostOne {v : α} {s : State α ι} (h : ((lts v).restrict Solo).Reachable s) :
    AtMostOne s := by
  refine Lts.Reachable.invariant ?_ ?_ h
  · rintro _ rfl i j _; exact .inl rfl
  · rintro s a t - ih ⟨hst, hg⟩
    rcases step_cases hst with ⟨v, -, rfl⟩ | ⟨i, w, rfl, hw⟩ | ⟨i, -, hpc, -, rfl⟩
    · exact ih
    · refine atMostOne_move ih ?_
      rcases hw with ⟨ha, -, -⟩ | ⟨-, -, -, hne⟩ | ⟨v, -, hpc, -⟩ | ⟨-, rfl⟩
      · exact .inl (hg i ha)
      · exact .inr (.inl hne)
      · exact .inr (.inl (by rw [hpc]; simp))
      · exact .inr (.inr rfl)
    · exact atMostOne_move ih (.inr (.inl (by rw [hpc]; simp)))

/-- A single watcher at a time never takes a token another one needs. -/
theorem quiet_of_solo {v : α} {s : State α ι} (h : ((lts v).restrict Solo).Reachable s) :
    ((lts v).restrict Courteous).Reachable s := by
  refine h.weaken ?_
  rintro s a t hr hst - i rfl j hji
  rcases step_cases hst with ⟨v, ha, -⟩ | ⟨k, w, -, hw⟩ | ⟨k, ha, hpc, -, -⟩
  · cases ha
  · rcases hw with ⟨ha, -⟩ | ⟨ha, -⟩ | ⟨_, ha, -⟩ | ⟨ha, -⟩ <;> cases ha
  · obtain rfl : i = k := by injection ha
    have hj := (solo_atMostOne hr j i hji).resolve_right (by rw [hpc]; simp)
    simp [Watcher.Fresh, hj]

/-! ## What is sent is what was there, in order -/

/-- The values of `sent` stand in `hist`, at places that never go back. -/
def Ordered (hist sent : List α) : Prop :=
  ∃ idx : List ℕ, idx.Pairwise (· ≤ ·) ∧ idx.map (hist[·]?) = sent.map some

omit [DecidableEq ι] in
theorem Ordered.nil (hist : List α) : Ordered hist [] := ⟨[], .nil, rfl⟩

theorem Ordered.lt_length {hist sent : List α} {idx : List ℕ}
    (h : idx.map (hist[·]?) = sent.map some) : ∀ n ∈ idx, n < hist.length := by
  intro n hn
  have hm : hist[n]? ∈ sent.map some := h ▸ List.mem_map_of_mem hn
  obtain ⟨v, -, hv⟩ := List.mem_map.1 hm
  by_contra hle
  rw [List.getElem?_eq_none (by omega)] at hv
  simp at hv

theorem Ordered.grow {hist sent : List α} (h : Ordered hist sent) (l : List α) :
    Ordered (hist ++ l) sent := by
  obtain ⟨idx, hp, hm⟩ := h
  refine ⟨idx, hp, ?_⟩
  rw [← hm]
  exact List.map_congr_left fun n hn => List.getElem?_append_left (Ordered.lt_length hm n hn)

/-- A snapshot of the current value comes after everything taken before. -/
theorem Ordered.snoc {past sent : List α} {v : α} (h : Ordered (past ++ [v]) sent) :
    Ordered (past ++ [v]) (sent ++ [v]) := by
  obtain ⟨idx, hp, hm⟩ := h
  refine ⟨idx ++ [past.length], ?_, ?_⟩
  · rw [List.pairwise_append]
    refine ⟨hp, List.pairwise_singleton _ _, ?_⟩
    intro n hn m hm'
    have := Ordered.lt_length hm n hn
    simp at this hm'
    omega
  · simp [hm]

theorem Ordered.initial {hist l l' : List α} (h : Ordered hist l) (hl : l' <+: l) :
    Ordered hist l' := by
  obtain ⟨idx, hp, hm⟩ := h
  obtain ⟨r, rfl⟩ := hl
  refine ⟨idx.take l'.length, hp.sublist (List.take_sublist _ _), ?_⟩
  rw [List.map_take, hm]
  simp

/-- **Snapshots in order.** What a watcher has sent are values the variable had, in the
order it had them. -/
theorem sent_ordered {v : α} {s : State α ι} (h : (lts v).Reachable s) (i : ι) :
    Ordered s.history (s.watcher i).sent := by
  have key : ∀ i, Ordered s.history (s.watcher i).taken := by
    refine Lts.Reachable.invariant (P := fun s : State α ι =>
      ∀ i, Ordered s.history (s.watcher i).taken) ?_ ?_ h
    · rintro _ rfl i; exact .nil _
    · intro s a t _ ih hst j
      rcases step_cases hst with ⟨v, -, rfl⟩ | ⟨i, w, rfl, hw⟩ | ⟨i, -, hpc, -, rfl⟩
      · exact (ih j).grow [v]
      · by_cases hji : j = i
        · subst hji
          rw [move_self]
          rcases hw with ⟨-, -, rfl⟩ | ⟨-, rfl, htk, -⟩ | ⟨v, -, hpc, rfl⟩ | ⟨-, rfl⟩
          · exact .nil _
          · have hj := ih j
            rw [htk] at hj
            exact hj.snoc
          · have hj := ih j
            simp only [Watcher.taken, hpc] at hj
            simpa [Watcher.taken] using hj
          · simpa [Watcher.taken] using (ih j).initial (s.watcher j).sent_initial
        · rw [move_ne s hji]; exact ih j
      · show Ordered s.history ((s.move i _).watcher j).taken
        by_cases hji : j = i
        · subst hji
          rw [move_self]
          simpa [Watcher.taken, hpc] using ih j
        · rw [move_ne s hji]; exact ih j
  exact (key i).initial (s.watcher i).sent_initial

end Notify

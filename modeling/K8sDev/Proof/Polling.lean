import K8sDev.Spec.Polling

/-!
# Waiting is honest

What a `wait` of the test programs returns was the case while it ran, and what lasts while it runs
is returned (`wait_exact`); replicas that pass the assertions after `hold` were at no time away for
thirty seconds (`hold_sound`).
-/

namespace K8sDev.Polling

open Poll

variable {α : Type}

/-- A check tells what is the case at some instant between its begin and its end. -/
def Honest (holds : ℕ → Prop) (x : Sample α) : Prop :=
  ∃ u, x.began ≤ u ∧ u ≤ x.ended ∧ (x.check.isTruthy = true → holds u) ∧
    (x.check = .falsy → ¬holds u)

/-- **What a `wait` tells.** It ends within `timeout / interval + 1` checks. With a value, the condition
held at an instant of it; timed out, the condition never held throughout a stretch of an interval,
two checks and what a sleep is longer. -/
theorem wait_exact (w : Wait) (start : ℕ) (rounds : List (Round α)) {holds : ℕ → Prop} {d s : ℕ}
    (hrounds : ∀ r ∈ rounds, r.took ≤ d ∧ r.late ≤ s)
    (hhonest : ∀ x ∈ (w.run start rounds).1, Honest holds x) :
    (w.timeout / w.interval < rounds.length → (w.run start rounds).2 ≠ .running) ∧
      (∀ value, (w.run start rounds).2 = .returned value →
        ∃ u, start ≤ u ∧ u < start + w.timeout + d ∧ holds u) ∧
      ((w.run start rounds).2 = .timedOut →
        ∀ t, start ≤ t → t + d + (w.interval + s) < start + w.timeout →
          ∃ u, t ≤ u ∧ u ≤ t + d + (w.interval + s) + d ∧ ¬holds u) := by
  have hturns : ∀ turn ∈ rounds.map w.turn, turn.took ≤ d ∧ turn.slept ≤ w.interval + s := by
    intro turn hturn
    obtain ⟨r, hr, rfl⟩ := List.mem_map.1 hturn
    have hbound := hrounds r hr
    exact ⟨hbound.1, Nat.add_le_add_left hbound.2 _⟩
  have hsamples : ∀ x ∈ (w.run start rounds).1, start ≤ x.began ∧ x.began < start + w.timeout ∧
      x.began ≤ x.ended ∧ x.ended ≤ x.began + d :=
    poll_samples fun turn hturn => (hturns turn hturn).1
  refine ⟨fun henough => ?_, fun value hvalue => ?_, fun htimedOut t hfrom hto => ?_⟩
  · -- each turn sleeps for an interval at least
    have hslept : ∀ turn ∈ rounds.map w.turn, w.interval ≤ turn.slept := by
      intro turn hturn
      obtain ⟨r, -, rfl⟩ := List.mem_map.1 hturn
      exact Nat.le_add_right _ _
    have hfill : w.timeout < w.interval * (w.timeout / w.interval + 1) :=
      Nat.lt_mul_div_succ w.timeout w.interval_pos
    have hrounds : w.interval * (w.timeout / w.interval + 1) ≤ w.interval * rounds.length :=
      Nat.mul_le_mul_left w.interval henough
    apply poll_ends hslept
    rw [List.length_map, Nat.mul_comm]
    omega
  · -- the last check returned something that holds
    obtain ⟨init, last, hrun, hlast, -⟩ := poll_returned hvalue
    have hmem : last ∈ (w.run start rounds).1 := by
      rw [Wait.run, hrun]
      simp
    obtain ⟨u, hbegan, hended, htruthy, -⟩ := hhonest last hmem
    have hwhen := hsamples last hmem
    refine ⟨u, by omega, by omega, htruthy ?_⟩
    rw [hlast]
    rfl
  · -- a stretch as long as a check, a sleep and a check has a whole check in it
    obtain ⟨x, hx, hfromx, htox⟩ := poll_meets hturns htimedOut hfrom hto
    obtain ⟨u, hbegan, hended, -, hfalsy⟩ := hhonest x hx
    have hwhen := hsamples x hx
    exact ⟨u, by omega, by omega, hfalsy (poll_timedOut htimedOut x hx)⟩

/-- `wait(fn, timeout=5)` of `deep-dive-common/lab.py`, for what never comes. -/
theorem wait_exact_never :
    ∃ u, 1000 ≤ u ∧ u ≤ 1000 + 100 + 2010 + 100 ∧ ¬(fun _ : ℕ => False) u := by
  let rounds : List (Round Unit) := List.replicate 3 ⟨100, .falsy, 10⟩
  have hrounds : ∀ r ∈ rounds, r.took ≤ 100 ∧ r.late ≤ 10 := by
    intro r hr
    rw [List.eq_of_mem_replicate hr]
    decide
  have hhonest : ∀ x ∈ ((DeepDiveCommon.wait (some 5000)).run 0 rounds).1,
      Honest (fun _ => False) x := by
    have hrun : ((DeepDiveCommon.wait (some 5000)).run 0 rounds).1 =
        [⟨0, 100, .falsy⟩, ⟨2110, 2210, .falsy⟩, ⟨4220, 4320, .falsy⟩] := rfl
    intro x hx
    rw [hrun] at hx
    simp only [List.mem_cons, List.not_mem_nil, or_false] at hx
    rcases hx with rfl | rfl | rfl
    all_goals exact ⟨_, Nat.le_refl _, by decide, by simp [Check.isTruthy], fun _ h => h⟩
  exact (wait_exact (DeepDiveCommon.wait (some 5000)) 0 rounds hrounds hhonest).2.2 rfl 1000
    (by decide) (by decide)

namespace HpaAdvanced

/-- The rows tell what `world` was: each was read after the one before it was written down and
before it was written down itself. -/
def Reads (world : ℕ → Option ℕ × Option ℕ) : ℕ → List Row → Prop
  | _, [] => True
  | since, row :: rows =>
    (∃ u, since ≤ u ∧ u ≤ row.time ∧ world u = (row.requested, row.readyReplicas)) ∧
      Reads world row.time rows

theorem Reads.left {world : ℕ → Option ℕ × Option ℕ} {since : ℕ} {rows rest : List Row}
    (h : Reads world since (rows ++ rest)) : Reads world since rows := by
  induction rows generalizing since with
  | nil => trivial
  | cons row rows ih => exact ⟨h.1, ih h.2⟩

/-- `hold` keeps the rows in their order, and enough of them to fill its time. -/
theorem holdUntil_rows {deadline now d s : ℕ} {snapshots : List Snapshot} {rows : List Row}
    (hbound : ∀ x ∈ snapshots, x.took ≤ d ∧ x.late ≤ s)
    (h : holdUntil deadline now snapshots = some rows) :
    (∃ rest, snapshots.map Snapshot.row = rows ++ rest) ∧
      deadline ≤ now + rows.length * (5000 + d + s) := by
  induction snapshots generalizing now rows with
  | nil =>
    rw [holdUntil] at h
    split at h
    · cases h
    · obtain rfl := Option.some.inj h
      exact ⟨⟨[], rfl⟩, by simpa using ‹¬now < deadline›⟩
  | cons x snapshots ih =>
    rw [holdUntil] at h
    split at h
    · obtain ⟨later, hlater, rfl⟩ := Option.map_eq_some_iff.1 h
      obtain ⟨⟨rest, hrest⟩, hfill⟩ := ih (fun y hy => hbound y (List.mem_cons_of_mem x hy)) hlater
      have hx := hbound x List.mem_cons_self
      refine ⟨⟨rest, by rw [List.map_cons, hrest, List.cons_append]⟩, ?_⟩
      rw [List.length_cons, Nat.add_mul, Nat.one_mul]
      omega
    · obtain rfl := Option.some.inj h
      exact ⟨⟨_, rfl⟩, by simpa using ‹¬now < deadline›⟩

theorem uninterrupted_cons {a b : Row} {rows : List Row} (h : uninterrupted (a :: b :: rows)) :
    b.time < a.time + 15000 ∧ uninterrupted (b :: rows) = true := by
  have hsplit : decide ((b.time : ℤ) - a.time < 15000) = true ∧
      uninterrupted (b :: rows) = true := by
    simpa [uninterrupted] using h
  have hgap := of_decide_eq_true hsplit.1
  exact ⟨by omega, hsplit.2⟩

theorem atTarget_world {replicas : ℕ} {row : Row} (h : atTarget replicas row = true) :
    (row.requested, row.readyReplicas) = (some replicas, some replicas) := by
  simp only [atTarget, Bool.and_eq_true, beq_iff_eq] at h
  rw [h.1, h.2]

/-- Two gaps of less than fifteen seconds: the read of the second row after `t` is within thirty
seconds of it. -/
theorem Reads.meets {world : ℕ → Option ℕ × Option ℕ} {replicas t : ℕ} {row : Row}
    {rows : List Row} (hreads : Reads world row.time rows)
    (hgaps : uninterrupted (row :: rows) = true)
    (htarget : ∀ x ∈ rows, atTarget replicas x = true) (hfrom : row.time ≤ t)
    (hto : t + 30000 ≤ ((row :: rows).getLast (by simp)).time) :
    ∃ u, t ≤ u ∧ u < t + 30000 ∧ world u = (some replicas, some replicas) := by
  induction rows generalizing row with
  | nil =>
    rw [List.getLast_singleton] at hto
    omega
  | cons b rows ih =>
    obtain ⟨hgap, hgaps'⟩ := uninterrupted_cons hgaps
    obtain ⟨-, hlater⟩ := hreads
    rw [List.getLast_cons (List.cons_ne_nil b rows)] at hto
    by_cases hb : b.time ≤ t
    · exact ih hlater hgaps' (fun x hx => htarget x (List.mem_cons_of_mem b hx)) hb hto
    · -- `t` lies between the rows `row` and `b`
      cases rows with
      | nil =>
        rw [List.getLast_singleton] at hto
        omega
      | cons c rows =>
        obtain ⟨hgap', -⟩ := uninterrupted_cons hgaps'
        obtain ⟨⟨u, hafter, hbefore, hworld⟩, -⟩ := hlater
        have hc : atTarget replicas c = true := htarget c (by simp)
        exact ⟨u, by omega, by omega, hworld.trans (atTarget_world hc)⟩

/-- **Replicas that stay.** After a `hold` of 45 seconds that passes both assertions, no deviation
from the target lasted thirty seconds between the first row and the last. When no snapshot takes
longer than `d` and no sleep is longer than it should by more than `s`, there are rows enough to
fill the 45 seconds. -/
theorem hold_sound {world : ℕ → Option ℕ × Option ℕ} {now since replicas d s : ℕ}
    {snapshots : List Snapshot} {rows : List Row}
    (hbound : ∀ x ∈ snapshots, x.took ≤ d ∧ x.late ≤ s)
    (hreads : Reads world since (snapshots.map Snapshot.row))
    (hhold : hold 45000 now snapshots = some rows) (hstays : staysAt replicas rows = true) :
    45000 ≤ rows.length * (5000 + d + s) ∧
      ∃ first last, rows.head? = some first ∧ rows.getLast? = some last ∧
        ∀ t, first.time ≤ t → t + 30000 ≤ last.time →
          ∃ u, t ≤ u ∧ u < t + 30000 ∧ world u = (some replicas, some replicas) := by
  obtain ⟨⟨rest, hrest⟩, hfill⟩ := holdUntil_rows hbound hhold
  have henough : 45000 ≤ rows.length * (5000 + d + s) := by omega
  simp only [staysAt, Bool.and_eq_true, List.all_eq_true] at hstays
  rw [hrest] at hreads
  cases rows with
  | nil => simp at henough
  | cons first rows =>
    have hlater : Reads world first.time rows := hreads.left.2
    refine ⟨henough, first, _, rfl, List.getLast?_eq_some_getLast (List.cons_ne_nil _ _), ?_⟩
    intro t hfrom hto
    exact hlater.meets hstays.1 (fun x hx => hstays.2 x (List.mem_cons_of_mem first hx)) hfrom hto

/-- A snapshot of two replicas every ten seconds. -/
def fiveRows : List Snapshot :=
  [⟨5000, ⟨5000, some 2, some 2⟩, 0⟩, ⟨5000, ⟨15000, some 2, some 2⟩, 0⟩,
    ⟨5000, ⟨25000, some 2, some 2⟩, 0⟩, ⟨5000, ⟨35000, some 2, some 2⟩, 0⟩,
    ⟨5000, ⟨45000, some 2, some 2⟩, 0⟩]

theorem hold_sound_fiveRows : ∃ u, 10000 ≤ u ∧ u < 40000 ∧
    (fun t : ℕ => if t = 26000 then (some 2, some 1) else (some 2, some 2)) u =
      (some 2, some 2) := by
  have hbound : ∀ x ∈ fiveRows, x.took ≤ 5000 ∧ x.late ≤ 0 := by decide
  have hreads : Reads (fun t => if t = 26000 then (some 2, some 1) else (some 2, some 2)) 0
      (fiveRows.map Snapshot.row) :=
    ⟨⟨4000, by decide⟩, ⟨14000, by decide⟩, ⟨24000, by decide⟩, ⟨34000, by decide⟩,
      ⟨44000, by decide⟩, trivial⟩
  obtain ⟨-, first, last, hfirst, hlast, hmeets⟩ :=
    hold_sound hbound hreads (show hold 45000 0 fiveRows = some _ from rfl)
      (show staysAt 2 _ = true by decide)
  obtain rfl := Option.some.inj hfirst
  obtain rfl := Option.some.inj hlast
  exact hmeets 10000 (by decide) (by decide)

end HpaAdvanced

end K8sDev.Polling

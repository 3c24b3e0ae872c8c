import Mathlib.Data.List.Basic
import Mathlib.Order.Basic
import Mathlib.Tactic.Common

/-!
# Polling

A loop that makes a check, sleeps, and makes it again until a deadline. How long a check takes,
what comes of it and how long a sleep lasts is decided outside, turn by turn. Between two checks a
condition may hold unseen; when no check takes longer than `d` and no sleep longer than `s`, what
lasts for `d + s` is met by the start of a check (`poll_meets`).
-/

namespace Poll

variable {α : Type}

/-- How a check turns out: not yet, a value, or an exception. -/
inductive Check (α : Type)
  | falsy
  | truthy (value : α)
  | raises

/-- Whether a check ends the loop with a value. -/
def Check.isTruthy : Check α → Bool
  | truthy _ => true
  | _ => false

/-- One turn of a loop: how long its check takes, what comes of it, and how long the sleep after it
lasts. -/
structure Turn (α : Type) where
  took : ℕ
  check : Check α
  slept : ℕ

/-- A check that was made. -/
structure Sample (α : Type) where
  began : ℕ
  ended : ℕ
  check : Check α

/-- How a loop ends; it is still running when the turns are over. -/
inductive Outcome (α : Type)
  | returned (value : α)
  | raised
  | timedOut
  | running

/-- `while now < deadline`: the checks that were made, and the end. -/
def poll (deadline : ℕ) : ℕ → List (Turn α) → List (Sample α) × Outcome α
  | now, [] => ([], if now < deadline then .running else .timedOut)
  | now, turn :: turns =>
    if now < deadline then
      match turn.check with
      | .truthy value => ([⟨now, now + turn.took, .truthy value⟩], .returned value)
      | .raises => ([⟨now, now + turn.took, .raises⟩], .raised)
      | .falsy =>
        let rest := poll deadline (now + turn.took + turn.slept) turns
        (⟨now, now + turn.took, .falsy⟩ :: rest.1, rest.2)
    else ([], .timedOut)

variable {deadline now d s : ℕ} {turns : List (Turn α)} {turn : Turn α}

/-- A turn whose check says not yet. -/
theorem poll_cons_falsy (hnow : now < deadline) (hcheck : turn.check = .falsy) :
    poll deadline now (turn :: turns) =
      (⟨now, now + turn.took, .falsy⟩ :: (poll deadline (now + turn.took + turn.slept) turns).1,
        (poll deadline (now + turn.took + turn.slept) turns).2) := by
  rw [poll, if_pos hnow, hcheck]

/-- The last turn of a loop. -/
theorem poll_cons_ends (hnow : now < deadline) (hcheck : turn.check ≠ .falsy) :
    poll deadline now (turn :: turns) = ([⟨now, now + turn.took, turn.check⟩],
      match turn.check with
      | .truthy value => .returned value
      | _ => .raised) := by
  rw [poll, if_pos hnow]
  cases h : turn.check with
  | falsy => exact absurd h hcheck
  | truthy value => rfl
  | raises => rfl

theorem poll_of_over (h : deadline ≤ now) (turns : List (Turn α)) :
    poll deadline now turns = ([], .timedOut) := by
  have hnot : ¬now < deadline := by omega
  cases turns with
  | nil => rw [poll, if_neg hnot]
  | cons turn turns => rw [poll, if_neg hnot]

/-- When the checks take place. -/
theorem poll_samples (hturns : ∀ turn ∈ turns, turn.took ≤ d) :
    ∀ x ∈ (poll deadline now turns).1,
      now ≤ x.began ∧ x.began < deadline ∧ x.began ≤ x.ended ∧ x.ended ≤ x.began + d := by
  induction turns generalizing now with
  | nil =>
    intro x hx
    cases hx
  | cons turn turns ih =>
    intro x hx
    have htook := hturns turn List.mem_cons_self
    by_cases hnow : now < deadline
    · by_cases hcheck : turn.check = .falsy
      · rw [poll_cons_falsy hnow hcheck] at hx
        rcases List.mem_cons.1 hx with rfl | hx
        · exact ⟨Nat.le_refl now, hnow, Nat.le_add_right _ _, Nat.add_le_add_left htook now⟩
        · have hrest := ih (fun t ht => hturns t (List.mem_cons_of_mem turn ht)) x hx
          omega
      · rw [poll_cons_ends hnow hcheck] at hx
        obtain rfl := List.mem_singleton.1 hx
        exact ⟨Nat.le_refl now, hnow, Nat.le_add_right _ _, Nat.add_le_add_left htook now⟩
    · rw [poll_of_over (by omega)] at hx
      cases hx

/-- A value is that of the last check; the loop had gone on after all others. -/
theorem poll_returned {value : α} (h : (poll deadline now turns).2 = .returned value) :
    ∃ init last, (poll deadline now turns).1 = init ++ [last] ∧ last.check = .truthy value ∧
      ∀ x ∈ init, x.check = .falsy := by
  induction turns generalizing now with
  | nil =>
    rw [poll] at h
    dsimp only at h
    split at h <;> cases h
  | cons turn turns ih =>
    by_cases hnow : now < deadline
    · by_cases hcheck : turn.check = .falsy
      · rw [poll_cons_falsy hnow hcheck] at h ⊢
        obtain ⟨init, last, hinit, hlast, hfalsy⟩ := ih h
        exact ⟨_ :: init, last, by rw [hinit, List.cons_append], hlast,
          List.forall_mem_cons.2 ⟨rfl, hfalsy⟩⟩
      · rw [poll_cons_ends hnow hcheck] at h ⊢
        refine ⟨[], _, rfl, ?_, by simp⟩
        cases hc : turn.check with
        | falsy => exact absurd hc hcheck
        | truthy v =>
          rw [hc] at h
          cases h
          rfl
        | raises =>
          rw [hc] at h
          cases h
    · rw [poll_of_over (by omega)] at h
      cases h

/-- No check of a loop that timed out had a value. -/
theorem poll_timedOut (h : (poll deadline now turns).2 = .timedOut) :
    ∀ x ∈ (poll deadline now turns).1, x.check = .falsy := by
  induction turns generalizing now with
  | nil =>
    intro x hx
    cases hx
  | cons turn turns ih =>
    by_cases hnow : now < deadline
    · by_cases hcheck : turn.check = .falsy
      · rw [poll_cons_falsy hnow hcheck] at h ⊢
        exact List.forall_mem_cons.2 ⟨rfl, ih h⟩
      · rw [poll_cons_ends hnow hcheck] at h
        cases hc : turn.check with
        | falsy => exact absurd hc hcheck
        | truthy v => rw [hc] at h; cases h
        | raises => rw [hc] at h; cases h
    · rw [poll_of_over (by omega)]
      simp

/-- **The loop ends**, when every sleep takes its time. -/
theorem poll_ends {interval : ℕ} (hslept : ∀ turn ∈ turns, interval ≤ turn.slept)
    (henough : deadline ≤ now + turns.length * interval) :
    (poll deadline now turns).2 ≠ .running := by
  induction turns generalizing now with
  | nil =>
    have hover : deadline ≤ now := by simpa using henough
    rw [poll_of_over hover]
    simp
  | cons turn turns ih =>
    by_cases hnow : now < deadline
    · by_cases hcheck : turn.check = .falsy
      · rw [poll_cons_falsy hnow hcheck]
        have hsleep := hslept turn List.mem_cons_self
        refine ih (fun t ht => hslept t (List.mem_cons_of_mem turn ht)) ?_
        rw [List.length_cons, Nat.add_mul, Nat.one_mul] at henough
        omega
      · rw [poll_cons_ends hnow hcheck]
        cases turn.check <;> simp
    · rw [poll_of_over (by omega)]
      simp

/-- A loop that times out starts a check when it begins. -/
theorem poll_first (hnow : now < deadline) (h : (poll deadline now turns).2 = .timedOut) :
    ∃ x ∈ (poll deadline now turns).1, x.began = now := by
  cases turns with
  | nil =>
    rw [poll, if_pos hnow] at h
    cases h
  | cons turn turns =>
    by_cases hcheck : turn.check = .falsy
    · rw [poll_cons_falsy hnow hcheck]
      exact ⟨_, List.mem_cons_self, rfl⟩
    · rw [poll_cons_ends hnow hcheck]
      exact ⟨_, List.mem_cons_self, rfl⟩

/-- **What lasts is met.** A loop that times out starts a check in every stretch of `d + s`. -/
theorem poll_meets (hturns : ∀ turn ∈ turns, turn.took ≤ d ∧ turn.slept ≤ s)
    (h : (poll deadline now turns).2 = .timedOut) {t : ℕ} (hfrom : now ≤ t)
    (hto : t + d + s < deadline) :
    ∃ x ∈ (poll deadline now turns).1, t ≤ x.began ∧ x.began ≤ t + d + s := by
  have hnow : now < deadline := by omega
  induction turns generalizing now with
  | nil =>
    rw [poll, if_pos hnow] at h
    cases h
  | cons turn turns ih =>
    rcases Nat.eq_or_lt_of_le hfrom with rfl | hlt
    · obtain ⟨x, hx, hbegan⟩ := poll_first hnow h
      exact ⟨x, hx, by omega, by omega⟩
    · by_cases hcheck : turn.check = .falsy
      · rw [poll_cons_falsy hnow hcheck] at h ⊢
        have hturn := hturns turn List.mem_cons_self
        have hrest : ∀ t ∈ turns, t.took ≤ d ∧ t.slept ≤ s := fun t ht =>
          hturns t (List.mem_cons_of_mem turn ht)
        have hnext : now + turn.took + turn.slept < deadline := by omega
        by_cases hpast : now + turn.took + turn.slept ≤ t
        · obtain ⟨x, hx, hmeets⟩ := ih hrest h hpast hnext
          exact ⟨x, List.mem_cons_of_mem _ hx, hmeets⟩
        · -- the stretch begins between two checks
          obtain ⟨x, hx, hbegan⟩ := poll_first hnext h
          exact ⟨x, List.mem_cons_of_mem _ hx, by omega, by omega⟩
      · rw [poll_cons_ends hnow hcheck] at h
        cases hc : turn.check with
        | falsy => exact absurd hc hcheck
        | truthy v => rw [hc] at h; cases h
        | raises => rw [hc] at h; cases h

end Poll

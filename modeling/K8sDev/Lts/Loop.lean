import Mathlib.Order.Basic

/-!
# Loops

`step` is the body of a loop together with its test: `none` where the test fails.

* `Ends.stopped`: where a loop ends, its test fails.
* `ends_of_variant`: a loop whose body keeps an invariant and lowers a variant ends in a state of
  the invariant where the test fails.
-/

namespace Loop

variable {σ : Type*} {step : σ → Option σ} {s t u : σ}

/-- The loop that starts in the first state ends in the second. -/
inductive Ends (step : σ → Option σ) : σ → σ → Prop
  | exit {s : σ} (h : step s = none) : Ends step s s
  | next {s u t : σ} (h : step s = some u) (ht : Ends step u t) : Ends step s t

theorem Ends.stopped (h : Ends step s t) : step t = none := by
  induction h with
  | exit h => exact h
  | next _ _ ih => exact ih

/-- **The rule of a loop**: an invariant, and a number that every turn lowers. -/
theorem ends_of_variant {Inv : σ → Prop} (variant : σ → ℕ)
    (hstep : ∀ s u, Inv s → step s = some u → Inv u ∧ variant u < variant s) (hs : Inv s) :
    ∃ t, Ends step s t ∧ Inv t ∧ step t = none := by
  have hends : ∀ n s, variant s < n → Inv s → ∃ t, Ends step s t ∧ Inv t := by
    intro n
    induction n with
    | zero =>
      intro s hlt
      exact absurd hlt (Nat.not_lt_zero _)
    | succ n ih =>
      intro s hlt hinv
      cases hnext : step s with
      | none => exact ⟨s, .exit hnext, hinv⟩
      | some u =>
        obtain ⟨hu, hlower⟩ := hstep s u hinv hnext
        obtain ⟨t, ht, hinv'⟩ := ih u (by omega) hu
        exact ⟨t, .next hnext ht, hinv'⟩
  obtain ⟨t, ht, hinv⟩ := hends _ s (Nat.lt_succ_self _) hs
  exact ⟨t, ht, hinv, ht.stopped⟩

end Loop

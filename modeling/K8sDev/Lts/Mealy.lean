import Mathlib.Data.List.Basic

/-!
# Machines that answer every request

A Mealy machine consumes one request at a time and answers each. `map_outputs_eq` is
the simulation rule for two of them: if related states give matching answers and stay
related, on the requests the second machine admits, then the two answer every admitted
sequence alike.
-/

/-- A deterministic machine with an answer for each request. -/
structure Mealy (σ α β : Type*) where
  step : σ → α → β × σ

namespace Mealy

variable {σ τ α β γ δ : Type*}

/-- The answers to a sequence of requests. -/
def outputs (M : Mealy σ α β) : σ → List α → List β
  | _, [] => []
  | s, a :: as => (M.step s a).1 :: M.outputs (M.step s a).2 as

/-- Every request of the sequence is admitted in the state it finds. -/
def Admits (M : Mealy σ α β) (ok : σ → α → Prop) : σ → List α → Prop
  | _, [] => True
  | s, a :: as => ok s a ∧ M.Admits ok (M.step s a).2 as

/-- A request whose key is not below the machine's own is admitted, and moves the
machine's key to its own: nondecreasing sequences are admitted. -/
theorem admits_of_sorted {M : Mealy σ α β} {ok : σ → α → Prop} {key : α → ℕ} (clock : σ → ℕ)
    (hok : ∀ s a, clock s ≤ key a → ok s a)
    (hclock : ∀ s a, clock s ≤ key a → clock (M.step s a).2 = key a) :
    ∀ (as : List α) (s : σ), (∀ a ∈ as, clock s ≤ key a) →
      as.Pairwise (fun a b => key a ≤ key b) → M.Admits ok s as := by
  intro as
  induction as with
  | nil => intro s _ _; trivial
  | cons a as ih =>
    intro s hs hp
    have ha := hs a List.mem_cons_self
    rw [List.pairwise_cons] at hp
    refine ⟨hok s a ha, ih _ ?_ hp.2⟩
    rw [hclock s a ha]
    exact hp.1

/-- **Simulation of answers.** -/
theorem map_outputs_eq {M : Mealy σ α β} {N : Mealy τ α γ} {f : β → δ} {g : γ → δ}
    (R : σ → τ → Prop) (ok : τ → α → Prop)
    (hstep : ∀ s t a, R s t → ok t a →
      f (M.step s a).1 = g (N.step t a).1 ∧ R (M.step s a).2 (N.step t a).2) :
    ∀ {as : List α} {s : σ} {t : τ}, R s t → N.Admits ok t as →
      (M.outputs s as).map f = (N.outputs t as).map g := by
  intro as
  induction as with
  | nil => intro s t _ _; rfl
  | cons a as ih =>
    intro s t hR hok
    obtain ⟨hout, hR'⟩ := hstep s t a hR hok.1
    simp only [outputs, List.map_cons]
    rw [hout, ih hR' hok.2]

end Mealy

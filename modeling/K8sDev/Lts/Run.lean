import Mathlib.Data.List.Basic

/-!
# Labelled transition systems

A system has initial states and a labelled step relation. A run records the
labels of its steps in order; a state is reachable when a run leads to it from an
initial one.

* `Reachable.invariant`: what holds initially and is kept by every step holds of
  every reachable state.
* `restrict`: the runs all of whose steps meet a condition.
* `Run.rank`: marked steps use up a rank.
* `Reachable.simulate`: a simulation, one step answered by a run, carries
  reachable states to reachable states.
* `ofFun`, `reachable_of_exec`: systems given by a partial step function, whose
  runs can be evaluated.
-/

/-- A labelled transition system. -/
structure Lts (σ α : Type*) where
  init : σ → Prop
  step : σ → α → σ → Prop

namespace Lts

variable {σ τ α β : Type*} {M : Lts σ α} {N : Lts τ β}

/-- A run and the labels of its steps, the last step outermost. -/
inductive Run (M : Lts σ α) : σ → List α → σ → Prop
  | nil (s : σ) : Run M s [] s
  | snoc {s t u : σ} {as : List α} {a : α} :
      Run M s as t → M.step t a u → Run M s (as ++ [a]) u

theorem Run.single {s t : σ} {a : α} (h : M.step s a t) : M.Run s [a] t :=
  show M.Run s ([] ++ [a]) t from (Run.nil s).snoc h

theorem Run.append {s t u : σ} {as bs : List α} (h : M.Run s as t) (h' : M.Run t bs u) :
    M.Run s (as ++ bs) u := by
  induction h' with
  | nil => simpa using h
  | snoc _ hst ih => rw [← List.append_assoc]; exact ih.snoc hst

/-- A relation kept by every step holds between the ends of a run. -/
theorem Run.relation {R : σ → σ → Prop} (refl : ∀ s, R s s)
    (trans : ∀ s t u, R s t → R t u → R s u) (step : ∀ s a t, M.step s a t → R s t)
    {s t : σ} {as : List α} (h : M.Run s as t) : R s t := by
  induction h with
  | nil => exact refl _
  | snoc _ hst ih => exact trans _ _ _ ih (step _ _ _ hst)

/-- A state some run from an initial state leads to. -/
def Reachable (M : Lts σ α) (s : σ) : Prop := ∃ s₀ as, M.init s₀ ∧ M.Run s₀ as s

theorem Reachable.of_init {s : σ} (h : M.init s) : M.Reachable s := ⟨s, [], h, .nil s⟩

theorem Reachable.run {s t : σ} {as : List α} (h : M.Reachable s) (h' : M.Run s as t) :
    M.Reachable t := by
  obtain ⟨s₀, bs, h0, hr⟩ := h
  exact ⟨s₀, bs ++ as, h0, hr.append h'⟩

theorem Reachable.step {s t : σ} {a : α} (h : M.Reachable s) (h' : M.step s a t) :
    M.Reachable t :=
  h.run (.single h')

/-- **The invariant rule.** The step case may use that the state before is reachable. -/
theorem Reachable.invariant {P : σ → Prop} (init : ∀ s, M.init s → P s)
    (step : ∀ s a t, M.Reachable s → P s → M.step s a t → P t) {s : σ} (h : M.Reachable s) :
    P s := by
  obtain ⟨s₀, as, h0, hr⟩ := h
  induction hr with
  | nil => exact init _ h0
  | snoc hr hst ih => exact step _ _ _ ⟨_, _, h0, hr⟩ ih hst

/-! ## Runs that meet a condition -/

/-- The system whose steps are those of `M` that meet `G`. -/
def restrict (M : Lts σ α) (G : σ → α → σ → Prop) : Lts σ α where
  init := M.init
  step s a t := M.step s a t ∧ G s a t

theorem Run.of_restrict {G : σ → α → σ → Prop} {s t : σ} {as : List α}
    (h : (M.restrict G).Run s as t) : M.Run s as t := by
  induction h with
  | nil => exact .nil _
  | snoc _ hst ih => exact ih.snoc hst.1

theorem Reachable.of_restrict {G : σ → α → σ → Prop} {s : σ} (h : (M.restrict G).Reachable s) :
    M.Reachable s := by
  obtain ⟨s₀, as, h0, hr⟩ := h
  exact ⟨s₀, as, h0, hr.of_restrict⟩

/-- A run that meets `G` meets `H` when, at its reachable states, `G` implies `H`. -/
theorem Reachable.weaken {G H : σ → α → σ → Prop}
    (hGH : ∀ s a t, (M.restrict G).Reachable s → M.step s a t → G s a t → H s a t) {s : σ}
    (h : (M.restrict G).Reachable s) : (M.restrict H).Reachable s := by
  refine Reachable.invariant (fun s h0 => .of_init h0) ?_ h
  intro s a t hs ih hst
  exact ih.step ⟨hst.1, hGH s a t hs hst.1 hst.2⟩

/-! ## Ranks -/

/-- **The rank rule.** While `P` holds, the marked steps lower the rank by one and the others keep
it, unless `Q` comes about, which lasts. -/
theorem Run.rank {P Q : σ → Prop} (rank : σ → ℕ) (mark : α → Bool)
    (step : ∀ s a t, P s → M.step s a t →
      (P t ∧ rank t + (if mark a then 1 else 0) = rank s) ∨ Q t)
    (last : ∀ s a t, Q s → M.step s a t → Q t) {s t : σ} {as : List α} (h : M.Run s as t)
    (hs : P s) : (P t ∧ rank t + as.countP mark = rank s) ∨ Q t := by
  induction h with
  | nil => exact .inl ⟨hs, rfl⟩
  | snoc _ hst ih =>
    rcases ih with ⟨ht, hrank⟩ | ht
    · refine (step _ _ _ ht hst).imp_left fun ⟨hu, hrank'⟩ => ⟨hu, ?_⟩
      rw [List.countP_append, List.countP_singleton]
      omega
    · exact .inr (last _ _ _ ht hst)

/-! ## Simulation -/

/-- **Simulation.** If every step of `M` is answered by a run of `N`, the reachable
states of `M` are related to reachable states of `N`. -/
theorem Reachable.simulate {R : σ → τ → Prop} (init : ∀ s, M.init s → ∃ t, N.init t ∧ R s t)
    (step : ∀ s t a s', N.Reachable t → R s t → M.step s a s' →
      ∃ bs t', N.Run t bs t' ∧ R s' t') {s : σ} (h : M.Reachable s) :
    ∃ t, N.Reachable t ∧ R s t := by
  refine Reachable.invariant (P := fun s => ∃ t, N.Reachable t ∧ R s t) ?_ ?_ h
  · intro s h0
    obtain ⟨t, ht, hR⟩ := init s h0
    exact ⟨t, .of_init ht, hR⟩
  · rintro s a s' - ⟨t, ht, hR⟩ hst
    obtain ⟨bs, t', hrun, hR'⟩ := step s t a s' ht hR hst
    exact ⟨t', ht.run hrun, hR'⟩

/-! ## Systems given by a function -/

/-- An evaluated run, where the steps of `f` are steps of the system. -/
theorem Run.of_foldlM {f : σ → α → Option σ} (hf : ∀ s a t, f s a = some t → M.step s a t) :
    ∀ {as : List α} {s t : σ}, as.foldlM f s = some t → M.Run s as t := by
  intro as
  induction as with
  | nil => intro s t h; cases h; exact .nil _
  | cons a as ih =>
    intro s t h
    rw [List.foldlM_cons] at h
    cases hs : f s a with
    | none => rw [hs] at h; simp at h
    | some u => rw [hs] at h; exact (Run.single (hf s a u hs)).append (ih h)

/-- The system of a partial step function with one initial state. -/
def ofFun (s₀ : σ) (f : σ → α → Option σ) : Lts σ α where
  init s := s = s₀
  step s a t := f s a = some t

theorem run_of_foldlM (s₀ : σ) {f : σ → α → Option σ} {as : List α} {s t : σ}
    (h : as.foldlM f s = some t) : (ofFun s₀ f).Run s as t :=
  .of_foldlM (fun _ _ _ hst => hst) h

/-- The steps of `f` that meet a decidable condition. -/
def guard (f : σ → α → Option σ) (G : σ → α → σ → Prop) [∀ s a t, Decidable (G s a t)] (s : σ)
    (a : α) : Option σ :=
  (f s a).filter fun t => G s a t

/-- An evaluated run that met the condition at every step ends in a state reachable
under that condition. -/
theorem reachable_of_exec {s₀ : σ} {f : σ → α → Option σ} {G : σ → α → σ → Prop}
    [∀ s a t, Decidable (G s a t)] (as : List α) (h : (as.foldlM (guard f G) s₀).isSome) :
    ((ofFun s₀ f).restrict G).Reachable ((as.foldlM (guard f G) s₀).get h) := by
  refine ⟨s₀, as, rfl, ?_⟩
  have hr := run_of_foldlM s₀ (Option.some_get h).symm
  generalize (as.foldlM (guard f G) s₀).get h = t at hr
  clear h
  induction hr with
  | nil => exact .nil _
  | snoc _ hst ih =>
    refine ih.snoc ?_
    have := Option.filter_eq_some_iff.1 hst
    exact ⟨this.1, by simpa using this.2⟩

end Lts

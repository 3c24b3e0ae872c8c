import K8sDev.Lts.Run
import Mathlib.Logic.Function.Basic

/-!
# A table filled on demand by concurrent clients

A client looks its key up. On a hit it uses the value found; on a miss it draws a value, from
anywhere. Later it stores the value it uses. Lookup, draw and store are steps of their own, so
two clients can miss the same key and go on with different values.

* `one_value`: if no lookup misses while another client of the key has missed and not stored
  yet, all clients of a key use the value in the table.
-/

namespace Memo

variable {ι κ ν : Type*}

/-- Where a client is. -/
inductive Pc (κ ν : Type*)
  | idle
  | missed (k : κ)
  | holds (k : κ) (v : ν)
  | stored (k : κ) (v : ν)
  | failed

/-- The client uses `v` for `k`. -/
def Pc.Uses (k : κ) (v : ν) (pc : Pc κ ν) : Prop := pc = .holds k v ∨ pc = .stored k v

/-- The client is between the lookup of `k` and its store. -/
def Pc.Pending (k : κ) (pc : Pc κ ν) : Prop := pc = .missed k ∨ ∃ v, pc = .holds k v

structure State (ι κ ν : Type*) where
  table : κ → Option ν
  pc : ι → Pc κ ν

inductive Label (ι κ ν : Type*)
  | load (i : ι) (k : κ)
  | draw (i : ι) (v : ν)
  | store (i : ι)
  | fail (i : ι)

/-- Client `i` moves. -/
def State.move [DecidableEq ι] (s : State ι κ ν) (i : ι) (pc : Pc κ ν) : State ι κ ν :=
  { s with pc := Function.update s.pc i pc }

def memo (ι κ ν : Type*) [DecidableEq ι] [DecidableEq κ] : Lts (State ι κ ν) (Label ι κ ν) where
  init s := (∀ k, s.table k = none) ∧ ∀ i, s.pc i = .idle
  step s a t :=
    match a with
    | .load i k =>
      s.pc i = .idle ∧ ((s.table k = none ∧ t = s.move i (.missed k)) ∨
        ∃ v, s.table k = some v ∧ t = s.move i (.holds k v))
    | .draw i v => ∃ k, s.pc i = .missed k ∧ t = s.move i (.holds k v)
    | .store i => ∃ k v, s.pc i = .holds k v ∧
        t = { s.move i (.stored k v) with table := Function.update s.table k (some v) }
    | .fail i => (∃ k, (s.pc i).Pending k) ∧ t = s.move i .failed

/-- No lookup misses while another client of the key is between lookup and store. -/
def Alone (s : State ι κ ν) : Label ι κ ν → State ι κ ν → Prop
  | .load _ k, _ => s.table k = none → ∀ j, ¬ (s.pc j).Pending k
  | _, _ => True

/-- What is used is in the table, and while a key has no value at most one client is after it. -/
structure Coherent (s : State ι κ ν) : Prop where
  missed : ∀ i k, s.pc i = .missed k → s.table k = none
  holds : ∀ i k v, s.pc i = .holds k v → s.table k = some v ∨ s.table k = none
  stored : ∀ i k v, s.pc i = .stored k v → s.table k = some v
  alone : ∀ i j k, s.table k = none → (s.pc i).Pending k → (s.pc j).Pending k → i = j

section Steps

variable [DecidableEq ι]

theorem pc_other {s : State ι κ ν} {i j : ι} (h : j ≠ i) (pc : Pc κ ν) :
    (s.move i pc).pc j = s.pc j :=
  Function.update_of_ne h _ _

@[simp] theorem pc_self (s : State ι κ ν) (i : ι) (pc : Pc κ ν) : (s.move i pc).pc i = pc :=
  Function.update_self _ _ _

/-- A client that fits the table may move there, unless it comes to be after a key that another
client is after. -/
theorem coherent_move {s : State ι κ ν} (hs : Coherent s) {i : ι} {pc : Pc κ ν}
    (hmissed : ∀ k, pc = .missed k → s.table k = none)
    (hholds : ∀ k v, pc = .holds k v → s.table k = some v ∨ s.table k = none)
    (hstored : ∀ k v, pc = .stored k v → s.table k = some v)
    (hpending : ∀ k, s.table k = none → pc.Pending k →
      (s.pc i).Pending k ∨ ∀ j, ¬ (s.pc j).Pending k) : Coherent (s.move i pc) := by
  refine ⟨fun j k hj => ?_, fun j k v hj => ?_, fun j k v hj => ?_, fun j j' k hk hj hj' => ?_⟩
  · by_cases hji : j = i
    · rw [hji, pc_self] at hj
      exact hmissed k hj
    · rw [pc_other hji] at hj
      exact hs.missed j k hj
  · by_cases hji : j = i
    · rw [hji, pc_self] at hj
      exact hholds k v hj
    · rw [pc_other hji] at hj
      exact hs.holds j k v hj
  · by_cases hji : j = i
    · rw [hji, pc_self] at hj
      exact hstored k v hj
    · rw [pc_other hji] at hj
      exact hs.stored j k v hj
  · -- a client after `k` other than `i` was after `k` before
    have hother : ∀ j, j ≠ i → ((s.move i pc).pc i).Pending k → ((s.move i pc).pc j).Pending k →
        False := by
      intro j hji hi hj
      rw [pc_self] at hi
      rw [pc_other hji] at hj
      rcases hpending k hk hi with hi | hnone
      · exact hji (hs.alone j i k hk hj hi)
      · exact hnone j hj
    by_cases hji : j = i
    · by_cases hji' : j' = i
      · rw [hji, hji']
      · exact (hother j' hji' (hji ▸ hj) hj').elim
    · by_cases hji' : j' = i
      · exact (hother j hji (hji' ▸ hj') hj).elim
      · rw [pc_other hji] at hj
        rw [pc_other hji'] at hj'
        exact hs.alone j j' k hk hj hj'

variable [DecidableEq κ]

/-- A store keeps the value that the others use. -/
theorem coherent_store {s : State ι κ ν} (hs : Coherent s) {i : ι} {k : κ} {v : ν}
    (hi : s.pc i = .holds k v) :
    Coherent { s.move i (.stored k v) with table := Function.update s.table k (some v) } := by
  have hv := hs.holds i k v hi
  have hpending : (s.pc i).Pending k := .inr ⟨v, hi⟩
  -- another client that uses `k` uses `v`
  have hsame : ∀ w, s.table k = some w → w = v := by
    intro w hw
    rcases hv with hv | hv <;> rw [hw] at hv
    · exact Option.some.inj hv
    · cases hv
  have hne : ∀ k', k' ≠ k → Function.update s.table k (some v) k' = s.table k' := fun k' h =>
    Function.update_of_ne h _ _
  refine ⟨fun j k' hj => ?_, fun j k' w hj => ?_, fun j k' w hj => ?_, fun j j' k' hk hj hj' => ?_⟩
  · by_cases hji : j = i
    · rw [hji] at hj
      simp only [pc_self, reduceCtorEq] at hj
    · simp only [pc_other hji] at hj
      have hnone := hs.missed j k' hj
      by_cases hk : k' = k
      · subst hk
        exact absurd (hs.alone j i k' hnone (.inl hj) hpending) hji
      · exact (hne k' hk).trans hnone
  · by_cases hji : j = i
    · rw [hji] at hj
      simp only [pc_self, reduceCtorEq] at hj
    · simp only [pc_other hji] at hj
      have hw := hs.holds j k' w hj
      by_cases hk : k' = k
      · subst hk
        rcases hw with hw | hw
        · exact .inl (by rw [hsame w hw]; exact Function.update_self _ _ _)
        · exact absurd (hs.alone j i k' hw (.inr ⟨w, hj⟩) hpending) hji
      · simp only [hne k' hk]
        exact hw
  · by_cases hji : j = i
    · rw [hji] at hj
      simp only [pc_self, Pc.stored.injEq] at hj
      obtain ⟨rfl, rfl⟩ := hj
      exact Function.update_self _ _ _
    · simp only [pc_other hji] at hj
      have hw := hs.stored j k' w hj
      by_cases hk : k' = k
      · subst hk
        rw [hsame w hw]
        exact Function.update_self _ _ _
      · exact (hne k' hk).trans hw
  · have hk' : k' ≠ k := by
      rintro rfl
      simp only [Function.update_self, reduceCtorEq] at hk
    have hback : ∀ j, ((s.move i (.stored k v)).pc j).Pending k' → (s.pc j).Pending k' := by
      intro j hj
      by_cases hji : j = i
      · rw [hji, pc_self] at hj
        rcases hj with hj | ⟨w, hj⟩ <;> cases hj
      · rwa [pc_other hji] at hj
    simp only [hne k' hk'] at hk
    exact hs.alone j j' k' hk (hback j hj) (hback j' hj')

theorem coherent_step {s t : State ι κ ν} {a : Label ι κ ν} (hs : Coherent s)
    (hst : (memo ι κ ν).step s a t) (halone : Alone s a t) : Coherent t := by
  cases a with
  | load i k =>
    obtain ⟨-, ⟨hnone, rfl⟩ | ⟨v, hv, rfl⟩⟩ := hst
    · refine coherent_move hs ?_ nofun nofun ?_
      · rintro k' hk'
        obtain rfl := Pc.missed.inj hk'
        exact hnone
      · -- the miss is alone, so nobody else is after this key
        rintro k' - (hk' | ⟨w, hk'⟩)
        · obtain rfl := Pc.missed.inj hk'
          exact .inr (halone hnone)
        · cases hk'
    · refine coherent_move hs nofun ?_ nofun ?_
      · rintro k' w hk'
        obtain ⟨rfl, rfl⟩ := Pc.holds.inj hk'
        exact .inl hv
      · rintro k' hnone (hk' | ⟨w, hk'⟩)
        · cases hk'
        · obtain ⟨rfl, rfl⟩ := Pc.holds.inj hk'
          rw [hv] at hnone
          cases hnone
  | draw i v =>
    obtain ⟨k, hi, rfl⟩ := hst
    -- the key that was missed is missing still
    refine coherent_move hs nofun ?_ nofun ?_
    · rintro k' w hk'
      obtain ⟨rfl, rfl⟩ := Pc.holds.inj hk'
      exact .inr (hs.missed i k hi)
    · rintro k' - (hk' | ⟨w, hk'⟩)
      · cases hk'
      · obtain ⟨rfl, rfl⟩ := Pc.holds.inj hk'
        exact .inl (.inl hi)
  | store i =>
    obtain ⟨k, v, hi, rfl⟩ := hst
    exact coherent_store hs hi
  | fail i =>
    obtain ⟨-, rfl⟩ := hst
    refine coherent_move hs nofun nofun nofun ?_
    rintro k' - (hk' | ⟨w, hk'⟩) <;> cases hk'

theorem coherent {s : State ι κ ν} (h : ((memo ι κ ν).restrict Alone).Reachable s) : Coherent s := by
  refine Lts.Reachable.invariant ?_ ?_ h
  · rintro s ⟨htable, hpc⟩
    refine ⟨fun i k hi => htable k, fun i k v hi => .inr (htable k), fun i k v hi => ?_,
      fun i j k _ hi => ?_⟩
    · rw [hpc] at hi
      cases hi
    · rw [hpc] at hi
      rcases hi with hi | ⟨v, hi⟩ <;> cases hi
  · rintro s a t - hs ⟨hst, halone⟩
    exact coherent_step hs hst halone

/-- **One value a key.** Clients that use a value for the same key use the same one; once one of
them has stored, it is the one in the table. -/
theorem one_value {s : State ι κ ν} (h : ((memo ι κ ν).restrict Alone).Reachable s) {i j : ι} {k : κ}
    {v w : ν} (hi : (s.pc i).Uses k v) (hj : (s.pc j).Uses k w) :
    v = w ∧ (s.pc i = .stored k v → s.table k = some v) := by
  have hs := coherent h
  refine ⟨?_, hs.stored i k v⟩
  have htable : ∀ i v, (s.pc i).Uses k v →
      s.table k = some v ∨ s.table k = none ∧ s.pc i = .holds k v := by
    rintro i v (hi | hi)
    · exact (hs.holds i k v hi).imp_right fun hnone => ⟨hnone, hi⟩
    · exact .inl (hs.stored i k v hi)
  rcases htable i v hi with hv | ⟨hnone, hi'⟩ <;> rcases htable j w hj with hw | ⟨hnone', hj'⟩
  · rw [hv] at hw
    exact Option.some.inj hw
  · rw [hv] at hnone'
    cases hnone'
  · rw [hw] at hnone
    cases hnone
  · obtain rfl := hs.alone i j k hnone (.inr ⟨v, hi'⟩) (.inr ⟨w, hj'⟩)
    rw [hi'] at hj'
    exact (Pc.holds.inj hj').2

end Steps

end Memo

import Mathlib.Algebra.Order.Floor.Div
import Mathlib.Data.Int.CardIntervalMod
import Mathlib.Data.List.Nodup

/-!
# Reading a list in a circle

`reads l c k` are the `k` elements found from position `c` on, starting over at the end of
`l`. Every part of it is such a reading again (`infix_reads`), and the elements of a list
without repeats occur in it equally often, up to one (`count_reads`).
-/

namespace Cyclic

variable {α : Type*}

def reads (l : List α) (c k : ℕ) : List (Option α) :=
  (List.range k).map fun i => l[(c + i) % l.length]?

@[simp] theorem length_reads (l : List α) (c k : ℕ) : (reads l c k).length = k := by
  simp [reads]

theorem reads_zero (l : List α) (c : ℕ) : reads l c 0 = [] := rfl

theorem reads_succ (l : List α) (c k : ℕ) :
    reads l c (k + 1) = reads l c k ++ [l[(c + k) % l.length]?] := by
  simp [reads, List.range_succ]

theorem reads_add (l : List α) (c a b : ℕ) : reads l c (a + b) = reads l c a ++ reads l (c + a) b := by
  induction b with
  | zero => simp [reads_zero]
  | succ b ih => rw [← Nat.add_assoc, reads_succ, reads_succ, ih, List.append_assoc, Nat.add_assoc]

/-- A window of a reading is a reading. -/
theorem infix_reads {l : List α} {c k : ℕ} {w : List (Option α)} (h : w <:+: reads l c k) :
    ∃ c', w = reads l c' w.length := by
  obtain ⟨before, after, h⟩ := h
  have hlen : k = before.length + w.length + after.length := by
    rw [← length_reads l c k, ← h, List.length_append, List.length_append]
  refine ⟨c + before.length, ?_⟩
  rw [hlen, reads_add, reads_add] at h
  have h1 := List.append_inj_left h (by simp)
  exact List.append_inj_right h1 (by simp)

/-- How often an element is read: once a round, and in the last round if it comes early. -/
theorem count_reads [DecidableEq α] {l : List α} (hl : l.Nodup) {x : α} (hx : x ∈ l) (c k : ℕ) :
    ∃ v, (reads l c k).count (some x) = k / l.length + if v < k % l.length then 1 else 0 := by
  have hpos : 0 < l.length := List.length_pos_of_mem hx
  obtain ⟨j, hj, rfl⟩ := List.mem_iff_getElem.1 hx
  -- the offset at which the position of `x` is reached first
  obtain ⟨v, hv⟩ : ∃ v, c + v ≡ j [MOD l.length] := by
    refine ⟨j + (l.length - 1) * c, ?_⟩
    have hsum : c + (j + (l.length - 1) * c) = j + l.length * c := by
      obtain ⟨m, hm⟩ : ∃ m, l.length = m + 1 := ⟨l.length - 1, by omega⟩
      rw [hm, Nat.add_sub_cancel]
      ring
    rw [hsum]
    simp [Nat.ModEq]
  have hmod : ∀ i, l[(c + i) % l.length]? = some l[j] ↔ i ≡ v [MOD l.length] := by
    intro i
    have hlt := Nat.mod_lt (c + i) hpos
    rw [List.getElem?_eq_getElem hlt, Option.some.injEq, hl.getElem_inj_iff]
    constructor
    · intro h
      refine Nat.ModEq.add_left_cancel' c (Nat.ModEq.trans ?_ hv.symm)
      rw [Nat.ModEq, h, Nat.mod_eq_of_lt hj]
    · intro h
      have := (Nat.ModEq.add_left c h).trans hv
      rwa [Nat.ModEq, Nat.mod_eq_of_lt hj] at this
  have hcount : ∀ k, (reads l c k).count (some l[j]) = k.count (· ≡ v [MOD l.length]) := by
    intro k
    induction k with
    | zero => simp [reads_zero]
    | succ k ih => simp [reads_succ, List.count_append, ih, Nat.count_succ, List.count_singleton, hmod]
  exact ⟨v % l.length, by rw [hcount, Nat.count_modEq_card _ hpos]⟩

/-- **Balance.** Either rounding of `k / l.length`. -/
theorem count_reads_eq [DecidableEq α] {l : List α} (hl : l.Nodup) {x : α} (hx : x ∈ l) (c k : ℕ) :
    (reads l c k).count (some x) = k / l.length ∨ (reads l c k).count (some x) = k ⌈/⌉ l.length := by
  have hpos : 0 < l.length := List.length_pos_of_mem hx
  obtain ⟨v, hv⟩ := count_reads hl hx c k
  rw [hv]
  split
  · rename_i hlt
    right
    rw [Nat.ceilDiv_eq_add_pred_div]
    have hdiv := Nat.div_add_mod k l.length
    have hmod := Nat.mod_lt k hpos
    symm
    rw [Nat.div_eq_iff hpos]
    constructor
    · have : l.length * (k / l.length) + l.length ≤ k + l.length - 1 := by omega
      rw [Nat.add_mul, Nat.one_mul, Nat.mul_comm]
      exact this
    · rw [Nat.add_mul, Nat.one_mul, Nat.mul_comm (k / l.length)]
      omega
  · exact .inl (Nat.add_zero _)

/-- A full round reads every element once. -/
theorem count_reads_round [DecidableEq α] {l : List α} (hl : l.Nodup) {x : α} (hx : x ∈ l) (c : ℕ) :
    (reads l c l.length).count (some x) = 1 := by
  obtain ⟨v, hv⟩ := count_reads hl hx c l.length
  rw [hv, Nat.mod_self, if_neg (Nat.not_lt_zero v), Nat.div_self (List.length_pos_of_mem hx)]

end Cyclic

import Mathlib.Data.List.Sort
import Mathlib.Order.Bounds.Basic

/-!
# Step curves

A curve that keeps the value of a point until the next one. Drawn through sorted values, with a
step of one at each, it counts them.
-/

namespace Steps

variable {α β : Type} [LinearOrder α]

/-- The value at a place: that of the last point up to there. -/
def valueAt (points : List (α × β)) (x : α) : Option β :=
  ((points.filter fun p => p.1 ≤ x).getLast?).map Prod.snd

theorem valueAt_cons {points : List (α × β)} {p : α × β} {x : α} (hp : p.1 ≤ x) :
    valueAt (p :: points) x = some ((valueAt points x).getD p.2) := by
  unfold valueAt
  rw [List.filter_cons_of_pos (by simpa using hp), List.getLast?_cons]
  cases (points.filter fun p => p.1 ≤ x).getLast? <;> rfl

theorem valueAt_eq_none {points : List (α × β)} {x : α} (h : ∀ p ∈ points, x < p.1) :
    valueAt points x = none := by
  have hnil : (points.filter fun p => p.1 ≤ x) = [] :=
    List.filter_eq_nil_iff.2 fun p hp => by simpa using h p hp
  unfold valueAt
  rw [hnil]
  rfl

/-- The last value held up to a later place. -/
theorem valueAt_hold {points : List (α × β)} {p : α × β} (hlast : points.getLast? = some p) {y : α}
    (hle : ∀ q ∈ points, q.1 ≤ y) (x : α) : valueAt (points ++ [(y, p.2)]) x = valueAt points x := by
  unfold valueAt
  rw [List.filter_append]
  by_cases hy : y ≤ x
  · have hall : points.filter (fun q => q.1 ≤ x) = points :=
      List.filter_eq_self.2 fun q hq => by simpa using (hle q hq).trans hy
    rw [hall, hlast, List.filter_cons_of_pos (by simpa using hy), List.filter_nil,
      List.getLast?_concat]
    rfl
  · rw [List.filter_cons_of_neg (by simpa using hy), List.filter_nil, List.append_nil]

/-- The last of a sorted list is the greatest. -/
theorem isGreatest_getLast? {xs : List α} (hsorted : xs.Pairwise (· ≤ ·)) {m : α}
    (hlast : xs.getLast? = some m) : IsGreatest {x | x ∈ xs} m := by
  obtain ⟨ys, rfl⟩ := List.getLast?_eq_some_iff.1 hlast
  refine ⟨List.mem_append_right _ List.mem_cons_self, fun x hx => ?_⟩
  rcases List.mem_append.1 hx with hx | hx
  · exact (List.pairwise_append.1 hsorted).2.2 x hx m List.mem_cons_self
  · exact (List.mem_singleton.1 hx).le

/-- The steps from a value on, one up at each place. -/
theorem valueAt_zip_range' {xs : List α} (hsorted : xs.Pairwise (· ≤ ·)) {x₀ x : α} (hx : x₀ ≤ x)
    (k : ℕ) : valueAt ((x₀ :: xs).zip (List.range' k (xs.length + 1))) x =
      some (k + xs.countP fun y => y ≤ x) := by
  induction xs generalizing x₀ k with
  | nil => exact valueAt_cons hx
  | cons y ys ih =>
    rw [List.pairwise_cons] at hsorted
    have hzip : ((x₀ :: y :: ys).zip (List.range' k ((y :: ys).length + 1))) =
        (x₀, k) :: (y :: ys).zip (List.range' (k + 1) (ys.length + 1)) := rfl
    rw [hzip, valueAt_cons hx]
    by_cases hy : y ≤ x
    · rw [ih hsorted.2 hy (k + 1), Option.getD_some, List.countP_cons_of_pos (by simpa using hy)]
      congr 1
      omega
    · -- every later step is past the place
      have hlate : ∀ z ∈ y :: ys, x < z := by
        intro z hz
        rcases List.mem_cons.1 hz with rfl | hz
        · exact lt_of_not_ge hy
        · exact (lt_of_not_ge hy).trans_le (hsorted.1 z hz)
      have hnone : valueAt ((y :: ys).zip (List.range' (k + 1) (ys.length + 1))) x = none :=
        valueAt_eq_none fun p hp => hlate p.1 (List.of_mem_zip hp).1
      have hzero : (y :: ys).countP (fun z => z ≤ x) = 0 :=
        List.countP_eq_zero.2 fun z hz => by simpa using hlate z hz
      rw [hnone, hzero]
      rfl

/-- **The curve counts.** -/
theorem valueAt_zip_range {xs : List α} (hsorted : xs.Pairwise (· ≤ ·)) {x₀ x : α} (hx : x₀ ≤ x) :
    valueAt ((x₀ :: xs).zip (List.range (xs.length + 1))) x = some (xs.countP fun y => y ≤ x) := by
  rw [List.range_eq_range', valueAt_zip_range' hsorted hx 0, Nat.zero_add]

end Steps

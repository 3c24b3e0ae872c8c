import K8sDev.Spec.Blob
import Mathlib.Order.Bounds.Basic

/-!
# The size of the unused image

The size is rounded to multiples of 64 MiB with 63 MiB in place of 64 MiB less one byte, so what is
less than 1 MiB over a multiple is rounded down.

* `required_cases`: when the size is rounded up, and that it is short otherwise.
* `writes_all`: the loop writes what it is told to.
* `sizing_exact`: both, for every node.
-/

namespace K8sDev.ImageLifecycle

/-- The size is the least multiple of 64 MiB that is enough. -/
def RoundsUp (capacity used : ℤ) : Prop :=
  IsLeast {m : ℤ | 64 * 1024 * 1024 ∣ m ∧ needed capacity used ≤ m} (required capacity used)

/-- An image that is not too large is written with exactly its size. -/
def WritesAll (capacity used : ℤ) : Prop :=
  required capacity used ≤ 6 * 1024 * 1024 * 1024 →
    ∀ chunk : List UInt8, chunk.length = chunkSize → ∃ s t, start capacity used = .ok s ∧
      Loop.Ends (Writer.step chunk) s t ∧ (t.stream.length : ℤ) = required capacity used

/-! ## Rounding -/

theorem dvd_required (capacity used : ℤ) : 64 * 1024 * 1024 ∣ required capacity used := by
  unfold required
  omega

theorem needed_eq (capacity used : ℤ) : needed capacity used =
    if capacity / 100 - used ≤ 256 * 1024 * 1024 then 512 * 1024 * 1024
    else capacity / 100 - used + 256 * 1024 * 1024 := by
  unfold needed
  split
  · exact max_eq_left (by omega)
  · exact max_eq_right (by omega)

/-- What is added before the division is enough for every remainder but the first 1 MiB. -/
theorem rounded_iff (n : ℤ) :
    n ≤ (n + 63 * 1024 * 1024) / (64 * 1024 * 1024) * 64 * 1024 * 1024 ↔
      n % (64 * 1024 * 1024) = 0 ∨ 1024 * 1024 ≤ n % (64 * 1024 * 1024) := by
  omega

/-- It is never too much. -/
theorem rounded_le {n m : ℤ} (hm : 64 * 1024 * 1024 ∣ m) (hn : n ≤ m) :
    (n + 63 * 1024 * 1024) / (64 * 1024 * 1024) * 64 * 1024 * 1024 ≤ m := by
  omega

/-- **When the size is rounded up.** -/
theorem roundsUp_iff (capacity used : ℤ) : RoundsUp capacity used ↔
    needed capacity used % (64 * 1024 * 1024) = 0 ∨
      1024 * 1024 ≤ needed capacity used % (64 * 1024 * 1024) := by
  rw [← rounded_iff]
  constructor
  · intro h
    exact h.1.2
  · intro h
    refine ⟨⟨dvd_required capacity used, h⟩, ?_⟩
    rintro m ⟨hdvd, hm⟩
    exact rounded_le hdvd hm

/-! ## Writing -/

/-- What is written and what is left add up. -/
structure Writer.OK (size : ℤ) (s : Writer) : Prop where
  nonneg : 0 ≤ s.remaining
  total : s.stream.length + s.remaining = size

theorem length_pyPrefix {chunk : List UInt8} {size : ℤ} (hsize : 0 ≤ size)
    (hle : size ≤ chunk.length) : ((pyPrefix chunk size).length : ℤ) = size := by
  unfold pyPrefix
  rw [if_pos hsize, List.length_take]
  omega

/-- A turn of the loop keeps the sum and leaves less to write. -/
theorem Writer.OK.step {chunk : List UInt8} {size : ℤ} {s u : Writer} (hs : s.OK size)
    (hchunk : chunk ≠ []) (h : s.step chunk = some u) :
    u.OK size ∧ u.remaining.toNat < s.remaining.toNat := by
  obtain ⟨hnonneg, htotal⟩ := hs
  have hpos : 0 < chunk.length := List.length_pos_iff.2 hchunk
  unfold Writer.step at h
  split at h
  · cases h
  · rename_i hne
    obtain rfl := Option.some.inj h
    have hlength : ((pyPrefix chunk (min (chunk.length : ℤ) s.remaining)).length : ℤ) =
        min (chunk.length : ℤ) s.remaining :=
      length_pyPrefix (by omega) (min_le_left _ _)
    refine ⟨⟨?_, ?_⟩, ?_⟩
    · simp only
      omega
    · simp only [List.length_append]
      push_cast
      omega
    · simp only
      omega

/-- **The loop writes what it is told to**, whatever the chunk. -/
theorem write_loop {chunk : List UInt8} (hchunk : chunk ≠ []) {size : ℤ} (hsize : 0 ≤ size) :
    ∃ t, Loop.Ends (Writer.step chunk) { remaining := size, stream := [] } t ∧
      (t.stream.length : ℤ) = size := by
  have hstart : Writer.OK size { remaining := size, stream := [] } := ⟨hsize, by simp⟩
  obtain ⟨t, hends, hok, hstop⟩ := Loop.ends_of_variant (fun s => s.remaining.toNat)
    (fun s u hs hstep => hs.step hchunk hstep) hstart
  have hdone : t.remaining = 0 := by
    by_contra hne
    unfold Writer.step at hstop
    rw [if_neg hne] at hstop
    cases hstop
  have htotal := hok.total
  exact ⟨t, hends, by omega⟩

theorem writes_all (capacity used : ℤ) : WritesAll capacity used := by
  intro hle chunk hlength
  have hpos : 0 ≤ required capacity used := by
    have hneeded : 512 * 1024 * 1024 ≤ needed capacity used := le_max_left _ _
    unfold required
    omega
  have hchunk : chunk ≠ [] := by
    rintro rfl
    cases hlength
  obtain ⟨t, hends, ht⟩ := write_loop hchunk hpos
  refine ⟨_, t, ?_, hends, ht⟩
  unfold start
  rw [if_neg (by omega)]

/-- **When the unused image has the size it needs.** It is rounded up unless one percent of the
capacity exceeds what is used by more than 256 MiB, and by less than 1 MiB over a multiple of
64 MiB; and whatever size comes out is written. -/
theorem sizing_exact (capacity used : ℤ) :
    (RoundsUp capacity used ∧ WritesAll capacity used ↔
      capacity / 100 - used ≤ 256 * 1024 * 1024 ∨
        (capacity / 100 - used) % (64 * 1024 * 1024) = 0 ∨
        1024 * 1024 ≤ (capacity / 100 - used) % (64 * 1024 * 1024)) ∧
      WritesAll capacity used := by
  have hwrites := writes_all capacity used
  have hneeded := needed_eq capacity used
  refine ⟨?_, hwrites⟩
  rw [and_iff_left hwrites, roundsUp_iff, hneeded]
  split
  · rename_i hfew
    exact iff_of_true (.inl (by decide)) (.inl hfew)
  · rename_i hmany
    omega

/-- 100 GiB, of which one byte less than 512 MiB is used: the image is one byte short. -/
theorem sizing_short : required 107374182400 536870911 = 805306368 ∧
    needed 107374182400 536870911 = 805306369 ∧
    ¬ (RoundsUp 107374182400 536870911 ∧ WritesAll 107374182400 536870911) := by
  refine ⟨by decide, by decide, fun h => ?_⟩
  have henough := h.1.1.2
  revert henough
  decide

end K8sDev.ImageLifecycle

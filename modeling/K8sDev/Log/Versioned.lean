import Mathlib.Data.List.Infix
import Mathlib.Data.List.Pairwise
import Mathlib.Order.Basic

/-!
# Logs with versions

A log of changes with growing versions. A reader takes the state at some version, and then the
changes after it, over connections that may break at any point; the next one starts from the last
version that was read. What it has read then is what lies between its two versions (`Reads`), and
it has the state at the second one.
-/

structure VersionLog (α : Type) (version : α → ℕ) where
  entries : List α
  sorted : entries.Pairwise fun a b => version a < version b

namespace VersionLog

variable {α σ : Type} {version : α → ℕ} (log : VersionLog α version)

/-- The changes up to a version. -/
def upTo (r : ℕ) : List α := log.entries.filter fun a => version a ≤ r

/-- The changes after a version. -/
def since (r : ℕ) : List α := log.entries.filter fun a => r < version a

/-- The changes after the one version, up to the other. -/
def between (r r' : ℕ) : List α := log.entries.filter fun a => r < version a ∧ version a ≤ r'

variable {log} {r r' : ℕ} {es xs : List α} {e : α}

theorem since_sorted (log : VersionLog α version) (r : ℕ) :
    (log.since r).Pairwise fun a b => version a < version b :=
  log.sorted.filter fun a => r < version a

/-- A sorted list is cut at a version. -/
theorem filter_append_filter (r : ℕ) {l : List α}
    (hl : l.Pairwise fun a b => version a < version b) :
    (l.filter fun a => version a ≤ r) ++ (l.filter fun a => r < version a) = l := by
  induction l with
  | nil => rfl
  | cons a l ih =>
    rw [List.pairwise_cons] at hl
    by_cases ha : version a ≤ r
    · rw [List.filter_cons_of_pos (by simpa using ha), List.filter_cons_of_neg (by simpa using ha),
        List.cons_append, ih hl.2]
    · -- nothing after it is early
      have hlate : ∀ b ∈ l, r < version b := fun b hb => by
        have hab := hl.1 b hb
        omega
      have hnone : (l.filter fun a => version a ≤ r) = [] :=
        List.filter_eq_nil_iff.2 fun b hb => by
          have := hlate b hb
          simpa using this
      have hall : (l.filter fun a => r < version a) = l :=
        List.filter_eq_self.2 fun b hb => by simpa using hlate b hb
      rw [List.filter_cons_of_neg (by simpa using ha),
        List.filter_cons_of_pos (by simpa using ha), hnone, hall, List.nil_append]

theorem between_eq (log : VersionLog α version) (r r' : ℕ) :
    log.between r r' = (log.since r).filter fun a => version a ≤ r' := by
  rw [since, List.filter_filter, between]
  refine List.filter_congr fun a _ => ?_
  simp [and_comm]

theorem between_self (log : VersionLog α version) (r : ℕ) : log.between r r = [] :=
  List.filter_eq_nil_iff.2 fun a _ => by simp

theorem upTo_append_between (h : r ≤ r') : log.upTo r ++ log.between r r' = log.upTo r' := by
  have hupTo : log.upTo r = (log.upTo r').filter fun a => version a ≤ r := by
    rw [upTo, upTo, List.filter_filter]
    refine List.filter_congr fun a _ => ?_
    have hiff : version a ≤ r ↔ version a ≤ r ∧ version a ≤ r' := by omega
    simpa using hiff
  have hbetween : log.between r r' = (log.upTo r').filter fun a => r < version a := by
    rw [upTo, List.filter_filter, between]
    exact List.filter_congr fun a _ => by simp
  rw [hupTo, hbetween]
  exact filter_append_filter r (log.sorted.filter fun a => version a ≤ r')

theorem between_append_between {r'' : ℕ} (h : r ≤ r') (h' : r' ≤ r'') :
    log.between r r' ++ log.between r' r'' = log.between r r'' := by
  have hfirst : log.upTo r ++ log.between r r' = log.upTo r' := upTo_append_between h
  have hsecond : log.upTo r' ++ log.between r' r'' = log.upTo r'' := upTo_append_between h'
  have hboth : log.upTo r ++ log.between r r'' = log.upTo r'' := upTo_append_between (h.trans h')
  rw [← hfirst, List.append_assoc, ← hboth] at hsecond
  exact List.append_cancel_left hsecond

/-- A connection that broke: what it delivered, by the versions. -/
theorem eq_between_of_prefix (h : es <+: log.since r) (he : es.getLast? = some e) :
    es = log.between r (version e) ∧ r < version e := by
  obtain ⟨init, rfl⟩ := List.getLast?_eq_some_iff.1 he
  obtain ⟨rest, hrest⟩ := h
  have hsorted := log.since_sorted r
  rw [← hrest, List.pairwise_append, List.pairwise_append] at hsorted
  obtain ⟨⟨-, -, hinit⟩, -, hlate⟩ := hsorted
  have hmem : e ∈ log.since r := by
    rw [← hrest]
    simp
  refine ⟨?_, by simpa [since] using (List.mem_filter.1 hmem).2⟩
  have hkept : ∀ a ∈ init ++ [e], version a ≤ version e := by
    intro a ha
    rcases List.mem_append.1 ha with ha | ha
    · exact (hinit a ha e List.mem_cons_self).le
    · rw [List.mem_singleton.1 ha]
  have hcut : ∀ a ∈ rest, ¬version a ≤ version e := by
    intro a ha
    have := hlate e (List.mem_append_right init List.mem_cons_self) a ha
    omega
  rw [between_eq, ← hrest, List.filter_append, List.filter_eq_self.2 fun a ha => by
    simpa using hkept a ha, List.filter_eq_nil_iff.2 fun a ha => by simpa using hcut a ha,
    List.append_nil]

/-- What a reader has read, from one version to another: each connection starts from the last
version that was read and delivers some of the changes since. -/
inductive Reads (log : VersionLog α version) : ℕ → List α → ℕ → Prop
  | start (r : ℕ) : Reads log r [] r
  | connect {r r' : ℕ} {xs es : List α} {e : α} : Reads log r xs r' → es <+: log.since r' →
      es.getLast? = some e → Reads log r (xs ++ es) (version e)

/-- **Nothing is lost and nothing comes twice.** -/
theorem Reads.eq_between (h : log.Reads r xs r') : xs = log.between r r' ∧ r ≤ r' := by
  induction h with
  | start => exact ⟨(log.between_self _).symm, le_rfl⟩
  | connect _ hes he ih =>
    obtain ⟨hxs, hle⟩ := ih
    obtain ⟨hdelivered, hlt⟩ := eq_between_of_prefix hes he
    refine ⟨?_, hle.trans hlt.le⟩
    rw [hxs, hdelivered]
    exact between_append_between hle hlt.le

/-! ## States -/

variable (apply : σ → α → σ) (init : σ)

/-- The state at a version. -/
def stateAt (log : VersionLog α version) (r : ℕ) : σ := (log.upTo r).foldl apply init

/-- The changes that were read lead from the one state to the other. -/
theorem Reads.state (h : log.Reads r xs r') :
    xs.foldl apply (log.stateAt apply init r) = log.stateAt apply init r' := by
  obtain ⟨rfl, hle⟩ := h.eq_between
  rw [stateAt, stateAt, ← List.foldl_append, upTo_append_between hle]

end VersionLog

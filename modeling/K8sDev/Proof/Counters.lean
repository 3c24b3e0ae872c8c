import K8sDev.Spec.Counters
import Mathlib.Algebra.Order.BigOperators.Group.Finset

/-!
# The counters are consistent

An upload adds its bytes before its request, and a scrape loads the requests before the bytes: what
a scrape counts, it has the bytes of.

* `Move`, `step_move`: what a step does.
* `State.OK`: the counters are those of the handlers that have added to them.
* `counters_consistent`: scrapes, their order, and the counters when no handler runs.
-/

namespace K8sDev.Counters

open Finset

variable {ι : Type} [DecidableEq ι] {calls : ι → Call} {s t : State ι} {i : ι}

/-! ## One step -/

/-- The handler has added its bytes. -/
def Pc.isAdded : Pc ι → Bool
  | .added _ | .counted (.processed _) | .ended (.processed _) => true
  | _ => false

/-- The handler has added its request. -/
def Pc.isCounted : Pc ι → Bool
  | .counted _ | .ended .ok | .ended (.processed _) => true
  | _ => false

/-- The answer is one to this call. -/
def Reply.Fits (c : Call) : Reply → Prop
  | .error _ _ => c.accepted = none ∧ c ≠ .request ∧ c ≠ .work
  | .ok => c = .request ∨ c = .work
  | .processed n => c.accepted = some n

/-- The handler is at a place of its call. -/
def Pc.Fits (c : Call) : Pc ι → Prop
  | .start => True
  | .reading u => c = .upload u ∧ u.method = "POST"
  | .read n | .added n => c.accepted = some n
  | .counted reply => reply.Fits c ∧ ∀ text code, reply ≠ .error text code
  | .ended reply => reply.Fits c
  | .loaded _ _ | .reported _ _ _ _ => c = .metrics

/-- Neither load of a scrape is done. -/
def Pc.NoScrape : Pc ι → Prop
  | .loaded _ _ | .reported _ _ _ _ => False
  | _ => True

/-- **What a step does.** -/
inductive Move (calls : ι → Call) (s : State ι) (i : ι) : State ι → Prop
  /-- The counters stay. -/
  | quiet {q : Pc ι} (hadded : q.isAdded = (s.pc i).isAdded)
      (hcounted : q.isCounted = (s.pc i).isCounted) (hfits : q.Fits (calls i))
      (hq : q.NoScrape) : Move calls s i (s.goto i q)
  | add {n : ℕ} (hpc : s.pc i = .read n) : Move calls s i (s.addBytes i n)
  | count {reply : Reply} (hpc : (s.pc i).isCounted = false)
      (hadded : (Pc.counted reply : Pc ι).isAdded = (s.pc i).isAdded)
      (hfits : (Pc.counted reply : Pc ι).Fits (calls i)) : Move calls s i (s.count i reply)
  | load (hpc : s.pc i = .start) (hcall : calls i = .metrics) :
      Move calls s i (s.goto i (.loaded s.requests s.counted))
  | report {r : ℕ} {counted : Finset ι} (hpc : s.pc i = .loaded r counted) :
      Move calls s i (s.goto i (.reported r s.processedBytes counted s.added))

theorem accepted_upload {u : Upload} (hm : u.method = "POST") :
    (Call.upload u).accepted = u.copy := by
  simp [Call.accepted, hm]

theorem start_move (hpc : s.pc i = .start) (h : s.step calls i = some t) : Move calls s i t := by
  unfold State.step at h
  rw [hpc] at h
  cases hcall : calls i with
  | request =>
    simp only [hcall] at h
    obtain rfl := Option.some.inj h
    exact .count (by rw [hpc]; rfl) (by rw [hpc]; rfl) ⟨.inl hcall, by simp⟩
  | work =>
    simp only [hcall] at h
    obtain rfl := Option.some.inj h
    exact .count (by rw [hpc]; rfl) (by rw [hpc]; rfl) ⟨.inr hcall, by simp⟩
  | metrics =>
    simp only [hcall] at h
    obtain rfl := Option.some.inj h
    exact .load hpc hcall
  | upload u =>
    simp only [hcall] at h
    split at h
    · rename_i hm
      obtain rfl := Option.some.inj h
      refine .quiet (by rw [hpc]; rfl) (by rw [hpc]; rfl) ?_ trivial
      rw [hcall]
      exact ⟨if_pos hm, by simp, by simp⟩
    · rename_i hm
      obtain rfl := Option.some.inj h
      exact .quiet (by rw [hpc]; rfl) (by rw [hpc]; rfl) ⟨hcall, by simpa using hm⟩ trivial

theorem step_move (hfits : (s.pc i).Fits (calls i)) (h : s.step calls i = some t) :
    Move calls s i t := by
  cases hpc : s.pc i with
  | start => exact start_move hpc h
  | reading u =>
    unfold State.step at h
    rw [hpc] at h hfits
    obtain ⟨hcall, hm⟩ := hfits
    -- `io.Copy` may fail, and then nothing is counted
    cases hcopy : u.copy with
    | none =>
      simp only [hcopy] at h
      obtain rfl := Option.some.inj h
      refine .quiet (by rw [hpc]; rfl) (by rw [hpc]; rfl) ?_ trivial
      rw [hcall]
      exact ⟨(accepted_upload hm).trans hcopy, by simp, by simp⟩
    | some n =>
      simp only [hcopy] at h
      obtain rfl := Option.some.inj h
      refine .quiet (by rw [hpc]; rfl) (by rw [hpc]; rfl) ?_ trivial
      rw [hcall]
      exact (accepted_upload hm).trans hcopy
  | read n =>
    unfold State.step at h
    rw [hpc] at h
    obtain rfl := Option.some.inj h
    exact .add hpc
  | added n =>
    unfold State.step at h
    rw [hpc] at h hfits
    obtain rfl := Option.some.inj h
    exact .count (by rw [hpc]; rfl) (by rw [hpc]; rfl) ⟨hfits, by simp⟩
  | counted reply =>
    unfold State.step at h
    rw [hpc] at h hfits
    obtain rfl := Option.some.inj h
    obtain ⟨hreply, hne⟩ := hfits
    cases reply with
    | error text code => exact absurd rfl (hne text code)
    | ok => exact .quiet (by rw [hpc]; rfl) (by rw [hpc]; rfl) hreply trivial
    | processed n => exact .quiet (by rw [hpc]; rfl) (by rw [hpc]; rfl) hreply trivial
  | loaded r counted =>
    unfold State.step at h
    rw [hpc] at h
    obtain rfl := Option.some.inj h
    exact .report hpc
  | ended | reported =>
    unfold State.step at h
    rw [hpc] at h
    cases h

/-! ## The invariant -/

/-- What a scrape loaded. -/
def Pc.Seen (calls : ι → Call) (s : State ι) : Pc ι → Prop
  | .loaded r C => r = #C ∧ C ⊆ s.counted
  | .reported r b C A => r = #C ∧ b = ∑ j ∈ A, (calls j).size ∧ C ⊆ s.counted ∧ A ⊆ s.added ∧
      ∑ j ∈ C, (calls j).size ≤ b
  | _ => True

structure State.OK (calls : ι → Call) (s : State ι) : Prop where
  requests : s.requests = #s.counted
  bytes : s.processedBytes = ∑ j ∈ s.added, (calls j).size
  fits : ∀ j, (s.pc j).Fits (calls j)
  added : ∀ j, j ∈ s.added ↔ (s.pc j).isAdded = true
  counted : ∀ j, j ∈ s.counted ↔ (s.pc j).isCounted = true
  seen : ∀ j, (s.pc j).Seen calls s

omit [DecidableEq ι] in
/-- A handler that has added its request has added its bytes. -/
theorem State.OK.sum_le (hs : s.OK calls) {counted : Finset ι} (hsub : counted ⊆ s.counted) :
    ∑ j ∈ counted, (calls j).size ≤ ∑ j ∈ s.added, (calls j).size := by
  refine sum_le_sum_of_ne_zero ?_
  intro j hj hsize
  have hcounted := (hs.counted j).1 (hsub hj)
  have hfits := hs.fits j
  have hreply : ∀ reply : Reply, reply.Fits (calls j) → (calls j).size ≠ 0 →
      ∃ n, reply = .processed n := by
    intro reply hreply hsize
    cases reply with
    | error => simp [Call.size, hreply.1] at hsize
    | ok => rcases hreply with hcall | hcall <;> simp [Call.size, Call.accepted, hcall] at hsize
    | processed n => exact ⟨n, rfl⟩
  rw [hs.added]
  -- with a body, only an accepted upload is counted, and its bytes went first
  cases hpc : s.pc j with
  | counted reply =>
    rw [hpc] at hfits
    obtain ⟨n, rfl⟩ := hreply reply hfits.1 hsize
    rfl
  | ended reply =>
    rw [hpc] at hfits
    obtain ⟨n, rfl⟩ := hreply reply hfits hsize
    rfl
  | start | reading | read | added | loaded | reported =>
    rw [hpc] at hcounted
    cases hcounted

omit [DecidableEq ι] in
theorem Pc.Seen.mono {q : Pc ι} (h : q.Seen calls s) (hcounted : s.counted ⊆ t.counted)
    (hadded : s.added ⊆ t.added) : q.Seen calls t := by
  cases q with
  | loaded => exact ⟨h.1, h.2.trans hcounted⟩
  | reported => exact ⟨h.1, h.2.1, h.2.2.1.trans hcounted, h.2.2.2.1.trans hadded, h.2.2.2.2⟩
  | start | reading | read | added | counted | ended => trivial

/-- After a step of `i`, what holds of the new place of `i` and of the others. -/
theorem forall_update {P : ι → Pc ι → Prop} {pc : ι → Pc ι} {q : Pc ι} (hq : P i q)
    (hold : ∀ j, P j (pc j)) : ∀ j, P j (Function.update pc i q j) := by
  intro j
  by_cases hj : j = i
  · subst hj
    rwa [Function.update_self]
  · rw [Function.update_of_ne hj]
    exact hold j

/-- One more handler has added something. -/
theorem mem_insert_update {A : Finset ι} {pc : ι → Pc ι} {q : Pc ι} {f : Pc ι → Bool}
    (hq : f q = true) (hold : ∀ j, j ∈ A ↔ f (pc j) = true) :
    ∀ j, j ∈ insert i A ↔ f (Function.update pc i q j) = true := by
  intro j
  rw [mem_insert]
  by_cases hj : j = i
  · subst hj
    rw [Function.update_self]
    exact ⟨fun _ => hq, fun _ => .inl rfl⟩
  · rw [Function.update_of_ne hj, ← hold j]
    exact ⟨fun h => h.resolve_left hj, .inr⟩

/-- No handler has added anything. -/
theorem mem_update {A : Finset ι} {pc : ι → Pc ι} {q : Pc ι} {f : Pc ι → Bool}
    (hq : f q = f (pc i)) (hold : ∀ j, j ∈ A ↔ f (pc j) = true) :
    ∀ j, j ∈ A ↔ f (Function.update pc i q j) = true := by
  intro j
  by_cases hj : j = i
  · subst hj
    rw [Function.update_self, hq]
    exact hold j
  · rw [Function.update_of_ne hj]
    exact hold j

/-- **A step keeps the invariant.** -/
theorem State.OK.step (hs : s.OK calls) (h : Move calls s i t) : t.OK calls := by
  cases h with
  | @quiet q hadded hcounted hfits hq =>
    have hseen : q.Seen calls (s.goto i q) := by
      cases q with
      | loaded | reported => exact hq.elim
      | start | reading | read | added | counted | ended => trivial
    exact ⟨hs.requests, hs.bytes, forall_update hfits hs.fits, mem_update hadded hs.added,
      mem_update hcounted hs.counted,
      forall_update hseen fun j => (hs.seen j).mono subset_rfl subset_rfl⟩
  | @add n hpc =>
    have hfits : (calls i).accepted = some n := by
      have := hs.fits i
      rwa [hpc] at this
    have hnew : i ∉ s.added := by
      rw [hs.added, hpc]
      simp [Pc.isAdded]
    have hsize : (calls i).size = n := by simp [Call.size, hfits]
    refine ⟨hs.requests, ?_, forall_update hfits hs.fits, mem_insert_update rfl hs.added,
      mem_update (by rw [hpc]; rfl) hs.counted,
      forall_update trivial fun j => (hs.seen j).mono subset_rfl (subset_insert _ _)⟩
    show s.processedBytes + n = ∑ j ∈ insert i s.added, (calls j).size
    rw [sum_insert hnew, hsize, hs.bytes, Nat.add_comm]
  | @count reply hpc hadded hfits =>
    have hnew : i ∉ s.counted := by
      rw [hs.counted, hpc]
      exact Bool.false_ne_true
    refine ⟨?_, hs.bytes, forall_update hfits hs.fits, mem_update hadded hs.added,
      mem_insert_update rfl hs.counted,
      forall_update trivial fun j => (hs.seen j).mono (subset_insert _ _) subset_rfl⟩
    show s.requests + 1 = #(insert i s.counted)
    rw [card_insert_of_notMem hnew, hs.requests]
  | load hpc hcall =>
    exact ⟨hs.requests, hs.bytes, forall_update hcall hs.fits,
      mem_update (by rw [hpc]; rfl) hs.added, mem_update (by rw [hpc]; rfl) hs.counted,
      forall_update ⟨hs.requests, subset_rfl⟩ fun j => (hs.seen j).mono subset_rfl subset_rfl⟩
  | @report r counted hpc =>
    have hcall := hs.fits i
    have hloaded := hs.seen i
    rw [hpc] at hcall hloaded
    -- the handlers counted at the first load are still counted at the second
    have hle : ∑ j ∈ counted, (calls j).size ≤ s.processedBytes := by
      rw [hs.bytes]
      exact hs.sum_le hloaded.2
    exact ⟨hs.requests, hs.bytes, forall_update hcall hs.fits,
      mem_update (by rw [hpc]; rfl) hs.added, mem_update (by rw [hpc]; rfl) hs.counted,
      forall_update ⟨hloaded.1, hs.bytes, hloaded.2, subset_rfl, hle⟩
        fun j => (hs.seen j).mono subset_rfl subset_rfl⟩

theorem State.OK.of_reachable (h : (countersLts calls).Reachable s) : s.OK calls := by
  refine Lts.Reachable.invariant (P := State.OK calls) ?_ ?_ h
  · rintro _ rfl
    exact ⟨rfl, rfl, fun _ => trivial, by simp [Pc.isAdded], by simp [Pc.isCounted],
      fun _ => trivial⟩
  · rintro s i t - ih hst
    exact ih.step (step_move (ih.fits i) hst)

/-! ## Scrapes in order -/

/-- What a scrape loaded is no less than the counters of `s`. -/
def Pc.AtLeast (s : State ι) : Pc ι → Prop
  | .loaded r _ => s.requests ≤ r
  | .reported r b _ _ => s.requests ≤ r ∧ s.processedBytes ≤ b
  | _ => True

/-- The counters of `t`, and the scrape `j`, come after those of `s`. -/
structure State.Since (s : State ι) (j : ι) (t : State ι) : Prop where
  requests : s.requests ≤ t.requests
  bytes : s.processedBytes ≤ t.processedBytes
  scrape : (t.pc j).AtLeast s

theorem since_step {u : State ι} {j : ι} (hsince : s.Since j t) (h : Move calls t i u) :
    s.Since j u := by
  obtain ⟨hrequests, hbytes, hscrape⟩ := hsince
  have others : ∀ k, k = j → (t.pc k).AtLeast s := by
    rintro k rfl
    exact hscrape
  have moved : ∀ {q : Pc ι}, (i = j → q.AtLeast s) → (Function.update t.pc i q j).AtLeast s :=
    fun hq => forall_update (P := fun k q => k = j → q.AtLeast s) hq others j rfl
  cases h with
  | @quiet q hadded hcounted hfits hq =>
    refine ⟨hrequests, hbytes, moved fun _ => ?_⟩
    cases q with
    | loaded | reported => exact hq.elim
    | start | reading | read | added | counted | ended => trivial
  | add => exact ⟨hrequests, hbytes.trans (Nat.le_add_right _ _), moved fun _ => trivial⟩
  | count => exact ⟨hrequests.trans (Nat.le_add_right _ _), hbytes, moved fun _ => trivial⟩
  | load => exact ⟨hrequests, hbytes, moved fun _ => hrequests⟩
  | report hpc =>
    refine ⟨hrequests, hbytes, moved ?_⟩
    rintro rfl
    rw [hpc] at hscrape
    exact ⟨hscrape, hbytes⟩

/-- **A scrape that starts later reports no less.** -/
theorem since_run {as : List ι} {j : ι} (hr : (countersLts calls).Reachable s)
    (hrun : (countersLts calls).Run s as t) (hj : s.pc j = .start) : s.Since j t := by
  induction hrun with
  | nil => exact ⟨le_rfl, le_rfl, by rw [hj]; trivial⟩
  | snoc hrun hst ih =>
    have hok := State.OK.of_reachable (hr.run hrun)
    exact since_step ih (step_move (hok.fits _) hst)

/-! ## When no handler runs -/

omit [DecidableEq ι] in
theorem counted_of_idle {q : Pc ι} (h : q.Idle) : q.isCounted = true ↔ q.Succeeded := by
  cases q with
  | ended reply => cases reply <;> simp [Pc.isCounted, Pc.Succeeded]
  | start | reported => simp [Pc.isCounted, Pc.Succeeded]
  | reading | read | added | counted | loaded => exact h.elim

omit [DecidableEq ι] in
theorem added_of_idle {q : Pc ι} (h : q.Idle) (hadded : q.isAdded = true) :
    q.isCounted = true := by
  cases q with
  | ended reply =>
    cases reply with
    | processed => rfl
    | error | ok => cases hadded
  | start | reported => cases hadded
  | reading | read | added | counted | loaded => exact h.elim

omit [DecidableEq ι] in
theorem State.OK.bytes_of_idle (hs : s.OK calls) (hidle : ∀ j, (s.pc j).Idle) :
    s.processedBytes = ∑ j ∈ s.counted, (calls j).size := by
  have hsub : s.added ⊆ s.counted := by
    intro j hj
    exact (hs.counted j).2 (added_of_idle (hidle j) ((hs.added j).1 hj))
  rw [hs.bytes]
  exact le_antisymm (sum_le_sum_of_subset hsub) (hs.sum_le subset_rfl)

omit [DecidableEq ι] in
/-- A refused upload adds nothing. -/
theorem State.OK.refused (hs : s.OK calls) {u : Upload} (hcall : calls i = .upload u)
    (hbad : u.method ≠ "POST" ∨ maxBytes < u.size ∨ u.complete = false) :
    i ∉ s.counted ∧ i ∉ s.added := by
  have hnone : (calls i).accepted = none := by
    rw [hcall, Call.accepted]
    rcases hbad with hm | hcopy
    · exact if_pos hm
    · have hfail : u.copy = none := if_pos hcopy
      rw [hfail, ite_self]
  have hfits := hs.fits i
  have hreply : ∀ reply : Reply, reply.Fits (calls i) → ∃ text code, reply = .error text code := by
    intro reply hreply
    cases reply with
    | error text code => exact ⟨text, code, rfl⟩
    | ok =>
      rw [hcall] at hreply
      rcases hreply with h | h <;> cases h
    | processed n =>
      have hsome : (calls i).accepted = some n := hreply
      rw [hnone] at hsome
      cases hsome
  rw [hs.counted, hs.added]
  cases hpc : s.pc i with
  | counted reply =>
    rw [hpc] at hfits
    obtain ⟨text, code, rfl⟩ := hreply reply hfits.1
    exact absurd rfl (hfits.2 text code)
  | ended reply =>
    rw [hpc] at hfits
    obtain ⟨text, code, rfl⟩ := hreply reply hfits
    exact ⟨Bool.false_ne_true, Bool.false_ne_true⟩
  | added n =>
    rw [hpc] at hfits
    have hsome : (calls i).accepted = some n := hfits
    rw [hnone] at hsome
    cases hsome
  | start | reading | read | loaded | reported => exact ⟨Bool.false_ne_true, Bool.false_ne_true⟩

omit [DecidableEq ι] in
/-- An upload that counts has the size of its body. -/
theorem State.OK.size_of_counted (hs : s.OK calls) {u : Upload} (hcall : calls i = .upload u)
    (hcounted : i ∈ s.counted) : (calls i).size = u.size := by
  have hgood : ¬ (u.method ≠ "POST" ∨ maxBytes < u.size ∨ u.complete = false) :=
    fun hbad => (hs.refused hcall hbad).1 hcounted
  obtain ⟨hm, hcopy⟩ := not_or.1 hgood
  have hsome : u.copy = some u.size := if_neg hcopy
  rw [hcall, Call.size, Call.accepted, if_neg hm, hsome]
  rfl

/-- **The counters are consistent** in every interleaving: a scrape reports the number of handlers
that had added their request, and at least their bytes, which are those of the uploads added by
then; a scrape that starts after another one has ended reports no less; and when no handler runs,
the counters are the number and the bytes of the calls that succeeded, to which a refused upload
adds nothing. -/
theorem counters_consistent (hr : (countersLts calls).Reachable s) :
    ((∀ j, j ∈ s.counted ↔ (s.pc j).isCounted = true) ∧
      (∀ j, j ∈ s.added ↔ (s.pc j).isAdded = true) ∧
      (∀ j u, calls j = .upload u → j ∈ s.counted → (calls j).size = u.size) ∧
      ∀ i r b C A, s.pc i = .reported r b C A → C ⊆ s.counted ∧ A ⊆ s.added ∧ r = #C ∧
        ∑ j ∈ C, (calls j).size ≤ b ∧ b = ∑ j ∈ A, (calls j).size) ∧
    (∀ as t, (countersLts calls).Run s as t → ∀ i j r b C A r' b' C' A',
      s.pc i = .reported r b C A → s.pc j = .start → t.pc j = .reported r' b' C' A' →
        r ≤ r' ∧ b ≤ b') ∧
    ((∀ j, (s.pc j).Idle) → (∀ j, j ∈ s.counted ↔ (s.pc j).Succeeded) ∧
      s.requests = #s.counted ∧ s.processedBytes = ∑ j ∈ s.counted, (calls j).size) ∧
    ∀ i u, calls i = .upload u → u.method ≠ "POST" ∨ maxBytes < u.size ∨ u.complete = false →
      i ∉ s.counted ∧ i ∉ s.added := by
  have hs := State.OK.of_reachable hr
  refine ⟨⟨hs.counted, hs.added, ?_, ?_⟩, ?_, ?_, ?_⟩
  · intro j u hcall hcounted
    exact hs.size_of_counted hcall hcounted
  · intro i r b C A hpc
    have hseen := hs.seen i
    rw [hpc] at hseen
    obtain ⟨hr, hb, hC, hA, hle⟩ := hseen
    exact ⟨hC, hA, hr, hle, hb⟩
  · intro as t hrun i j r b C A r' b' C' A' hi hj hj'
    -- `s` lies between the end of the first scrape and the start of the second
    have hsince := (since_run hr hrun hj).scrape
    have hseen := hs.seen i
    rw [hj'] at hsince
    rw [hi] at hseen
    obtain ⟨hrequests, hbytes⟩ := hsince
    obtain ⟨hr, hb, hC, hA, -⟩ := hseen
    have hcard := card_le_card hC
    have hsum : b ≤ s.processedBytes := by
      rw [hb, hs.bytes]
      exact sum_le_sum_of_subset hA
    have hnum := hs.requests
    exact ⟨by omega, by omega⟩
  · intro hidle
    refine ⟨?_, hs.requests, hs.bytes_of_idle hidle⟩
    intro j
    rw [hs.counted j]
    exact counted_of_idle (hidle j)
  · intro i u hcall hbad
    exact hs.refused hcall hbad

/-- Two uploads, one of them broken off, a request and two scrapes. -/
def fiveCalls (i : ℕ) : Call :=
  match i with
  | 0 => .upload ⟨"POST", 1048576, true⟩
  | 1 => .upload ⟨"POST", 524288, false⟩
  | 2 => .request
  | _ => .metrics

/-- The first scrape starts when the request is counted, and ends between the two additions of the
upload. -/
def interleaved : List ℕ := [0, 0, 1, 2, 3, 0, 3, 0, 1, 0, 2, 4, 4]

def interleavedState : State ℕ :=
  (interleaved.foldlM (State.step fiveCalls) {}).get (by decide)

theorem interleaved_reachable : (countersLts fiveCalls).Reachable interleavedState :=
  ⟨{}, interleaved, rfl, Lts.run_of_foldlM ({} : State ℕ) (Option.some_get _).symm⟩

theorem counters_consistent_interleaved :
    interleavedState.requests = 2 ∧ interleavedState.processedBytes = 1048576 ∧
      interleavedState.pc 3 = .reported 1 1048576 {2} {0} ∧
      ∑ j ∈ {2}, (fiveCalls j).size ≤ 1048576 := by
  have hscrape : interleavedState.pc 3 = .reported 1 1048576 {2} {0} := by decide
  have hreport := (counters_consistent interleaved_reachable).1.2.2.2 3 1 1048576 {2} {0} hscrape
  exact ⟨by decide, by decide, hscrape, hreport.2.2.2.1⟩

end K8sDev.Counters

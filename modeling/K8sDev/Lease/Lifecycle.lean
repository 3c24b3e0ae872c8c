import Mathlib.Data.List.Basic
import Mathlib.Data.List.Count
import Mathlib.Data.List.Induction

/-!
# The life of a leased item

An item is created, then leased to one worker at a time until a holder completes it.
A lease ends by completion or by expiry. `replay` runs a history of marks through this
automaton.

`replay_eq_some_iff` reads the automaton's language back: a history that replays is
the creation, then leases that were lost, then possibly one that is still held or was
completed, and nothing after a completion.
-/

namespace Lifecycle

variable {ω : Type*}

/-- What can be recorded about an item. -/
inductive Mark (ω : Type*)
  | create
  | claim (w : ω)
  | expire (w : ω)
  | ack (w : ω)
deriving DecidableEq

/-- Where an item stands. -/
inductive Phase (ω : Type*)
  | absent
  | free
  | held (w : ω)
  | done (w : ω)
deriving DecidableEq

/-- The leases that were lost: each claim with the expiry of the same worker. -/
def lost (ws : List ω) : List (Mark ω) := ws.flatMap fun w => [.claim w, .expire w]

/-- The history of an item that lost the leases of `ws`, by the phase it is in. -/
def Phase.story (ws : List ω) : Phase ω → List (Mark ω)
  | .absent => []
  | .free => .create :: lost ws
  | .held w => .create :: (lost ws ++ [.claim w])
  | .done w => .create :: (lost ws ++ [.claim w, .ack w])

/-- Who holds the item, after a history: the last claim, unless it expired since. -/
def holder (ms : List (Mark ω)) : Option ω :=
  ms.foldl (fun h m => match m with
    | .claim w => some w
    | .expire _ => none
    | _ => h) none

def Mark.isClaim : Mark ω → Bool
  | .claim _ => true
  | _ => false

def Mark.isAck : Mark ω → Bool
  | .ack _ => true
  | _ => false

@[simp] theorem lost_cons (w : ω) (ws : List ω) :
    lost (w :: ws) = .claim w :: .expire w :: lost ws := by
  simp [lost]

theorem lost_snoc (ws : List ω) (w : ω) : lost (ws ++ [w]) = lost ws ++ [.claim w, .expire w] := by
  simp [lost]

theorem countP_claim_lost (ws : List ω) : (lost ws).countP Mark.isClaim = ws.length := by
  induction ws with
  | nil => rfl
  | cons w ws ih => simp [List.countP_cons, Mark.isClaim, ih]

/-- The completion in a history is by the worker who completed the item. -/
theorem mem_ack_story (ws : List ω) (p : Phase ω) (w : ω) :
    Mark.ack w ∈ p.story ws ↔ p = .done w := by
  cases p <;> simp [Phase.story, lost, eq_comm]

/-- A completed item was claimed. -/
theorem countP_claim_story_done (ws : List ω) (w : ω) :
    0 < ((Phase.done w).story ws).countP Mark.isClaim := by
  rw [List.countP_pos_iff]
  exact ⟨.claim w, by simp [Phase.story], rfl⟩

/-- The holder is the worker of the last claim that has not expired. -/
theorem holder_story (ws : List ω) (p : Phase ω) :
    holder (p.story ws) = match p with
      | .held w | .done w => some w
      | _ => none := by
  have hlost : ∀ (h : Option ω), (lost ws).foldl (fun h m => match m with
      | .claim w => some w
      | .expire _ => none
      | _ => h) h = if ws = [] then h else none := by
    induction ws with
    | nil => intro h; rfl
    | cons w ws ih =>
      intro h
      rw [lost_cons, List.foldl_cons, List.foldl_cons, ih none]
      simp
  cases p <;> simp [holder, Phase.story, hlost]

variable [DecidableEq ω]

/-- One mark moves an item along its life; a mark out of place is refused. -/
def Phase.next : Phase ω → Mark ω → Option (Phase ω)
  | .absent, .create => some .free
  | .free, .claim w => some (.held w)
  | .held w, .expire v => if v = w then some .free else none
  | .held w, .ack v => if v = w then some (.done w) else none
  | _, _ => none

/-- A history, run from the start. -/
def replay (ms : List (Mark ω)) : Option (Phase ω) := ms.foldlM Phase.next .absent

theorem replay_snoc {ms : List (Mark ω)} {p : Phase ω} (h : replay ms = some p) (m : Mark ω) :
    replay (ms ++ [m]) = p.next m := by
  have h' : List.foldlM Phase.next Phase.absent ms = some p := h
  simp only [replay, List.foldlM_append, h']
  cases hn : p.next m <;> simp [hn]

/-- Every phase is reached by its own story. -/
theorem replay_story (ws : List ω) (p : Phase ω) : replay (p.story ws) = some p := by
  have hfree : ∀ ws : List ω, replay (Phase.free.story ws) = some .free := by
    intro ws
    induction ws using List.reverseRecOn with
    | nil => rfl
    | append_singleton ws w ih =>
      have hs : Phase.free.story (ws ++ [w]) =
          Phase.free.story ws ++ [.claim w] ++ [.expire w] := by
        simp [Phase.story, lost_snoc]
      rw [hs, replay_snoc (p := .held w) (by rw [replay_snoc ih]; rfl)]
      simp [Phase.next]
  have hheld : ∀ w, replay ((Phase.held w).story ws) = some (.held w) := by
    intro w
    have hs : (Phase.held w).story ws = Phase.free.story ws ++ [.claim w] := rfl
    rw [hs, replay_snoc (hfree ws)]; rfl
  cases p with
  | absent => rfl
  | free => exact hfree ws
  | held w => exact hheld w
  | done w =>
    have hs : (Phase.done w).story ws = (Phase.held w).story ws ++ [.ack w] := by
      simp [Phase.story]
    rw [hs, replay_snoc (hheld w)]
    simp [Phase.next]

/-- One more mark turns a story into the story of the next phase. -/
theorem story_next {p q : Phase ω} {m : Mark ω} (ws : List ω) (h : p.next m = some q) :
    ∃ ws', p.story ws ++ [m] = q.story ws' := by
  cases p with
  | absent =>
    cases m <;> simp [Phase.next] at h
    subst h; exact ⟨[], rfl⟩
  | free =>
    cases m <;> simp [Phase.next] at h
    subst h; exact ⟨ws, rfl⟩
  | held w =>
    cases m with
    | create => simp [Phase.next] at h
    | claim v => simp [Phase.next] at h
    | expire v =>
      simp only [Phase.next] at h
      split at h
      · rename_i hv; cases h; subst hv
        exact ⟨ws ++ [v], by simp [Phase.story, lost_snoc]⟩
      · cases h
    | ack v =>
      simp only [Phase.next] at h
      split at h
      · rename_i hv; cases h; subst hv
        exact ⟨ws, by simp [Phase.story]⟩
      · cases h
  | done w => cases m <;> simp [Phase.next] at h

/-- **The language of the automaton.** -/
theorem replay_eq_some_iff {ms : List (Mark ω)} {p : Phase ω} :
    replay ms = some p ↔ ∃ ws, ms = p.story ws := by
  constructor
  · induction ms using List.reverseRecOn generalizing p with
    | nil => intro h; cases h; exact ⟨[], rfl⟩
    | append_singleton ms m ih =>
      intro h
      cases hq : replay ms with
      | none =>
        have hq' : List.foldlM Phase.next Phase.absent ms = none := hq
        simp [replay, List.foldlM_append, hq'] at h
      | some q =>
        rw [replay_snoc hq] at h
        obtain ⟨ws, rfl⟩ := ih hq
        exact story_next ws h
  · rintro ⟨ws, rfl⟩; exact replay_story ws p

end Lifecycle

import Mathlib.Data.List.DropRight
import Mathlib.Data.List.Flatten

/-!
# Lines of a text

A text is cut into lines at the characters of `brk` (`"\r\n"` is one cut), and spaces are stripped
from the ends of lines and of texts. Stripping every line and then the text leaves the lines
themselves, without the empty ones at the end (`splitlines_normalize`), so it is idempotent.
-/

namespace Text

section lines

variable (brk space : Char → Bool)

/-- The lines of `line` and what follows it. `cr`: a `"\r"` has just ended a line. -/
def splitFrom (line : List Char) (cr : Bool) : List Char → List (List Char)
  | [] => if line = [] then [] else [line]
  | c :: cs =>
    if cr && c == '\n' then splitFrom line false cs
    else if brk c then line :: splitFrom [] (c == '\r') cs
    else splitFrom (line ++ [c]) false cs

/-- The lines of a text, without their ends. -/
def splitlines (text : List Char) : List (List Char) := splitFrom brk [] false text

/-- Without the spaces at the end. -/
def rstrip (text : List Char) : List Char := text.rdropWhile space

end lines

/-- The lines with a newline between any two of them. -/
def joinLines (ls : List (List Char)) : List Char := List.intercalate ['\n'] ls

/-- The lines with a newline after each. -/
def unlines (ls : List (List Char)) : List Char := ls.flatMap fun l => l ++ ['\n']

section normalize

variable {brk space : Char → Bool}

/-- Lines that could come from a text. -/
def Broken (brk : Char → Bool) (ls : List (List Char)) : Prop := ∀ l ∈ ls, ∀ c ∈ l, brk c = false

theorem broken_splitFrom (text : List Char) : ∀ (line : List Char) (cr : Bool),
    (∀ c ∈ line, brk c = false) → Broken brk (splitFrom brk line cr text) := by
  induction text with
  | nil =>
    intro line cr hline
    unfold splitFrom
    split
    · exact fun l hl => by cases hl
    · intro l hl
      rw [List.mem_singleton.1 hl]
      exact hline
  | cons c text ih =>
    intro line cr hline
    unfold splitFrom
    split
    · exact ih line false hline
    · split
      · intro l hl
        rcases List.mem_cons.1 hl with rfl | hl
        · exact hline
        · exact ih [] _ (fun c hc => by cases hc) l hl
      · rename_i hc
        refine ih _ false fun d hd => ?_
        rcases List.mem_append.1 hd with hd | hd
        · exact hline d hd
        · rw [List.mem_singleton.1 hd]
          simpa using hc

theorem broken_splitlines (text : List Char) : Broken brk (splitlines brk text) :=
  broken_splitFrom text [] false fun c hc => by cases hc

/-- A stretch without a cut goes to the line. -/
theorem splitFrom_append {xs : List Char} (hxs : ∀ c ∈ xs, brk c = false) (rest : List Char) :
    ∀ line, splitFrom brk line false (xs ++ rest) = splitFrom brk (line ++ xs) false rest := by
  induction xs with
  | nil => intro line; simp
  | cons x xs ih =>
    intro line
    have hx : brk x = false := hxs x List.mem_cons_self
    rw [List.cons_append, splitFrom, Bool.false_and, if_neg Bool.false_ne_true, hx,
      if_neg Bool.false_ne_true, ih fun c hc => hxs c (List.mem_cons_of_mem x hc)]
    simp

/-- **Lines, each ended by a newline, are cut into themselves.** -/
theorem splitlines_unlines (hn : brk '\n' = true) : ∀ {ls : List (List Char)}, Broken brk ls →
    splitlines brk (unlines ls) = ls := by
  intro ls
  induction ls with
  | nil => intro _; rfl
  | cons l ls ih =>
    intro hls
    have hl : ∀ c ∈ l, brk c = false := hls l List.mem_cons_self
    have htext : unlines (l :: ls) = l ++ '\n' :: unlines ls := by simp [unlines]
    rw [splitlines, htext, splitFrom_append hl, List.nil_append, splitFrom, Bool.false_and,
      if_neg Bool.false_ne_true, hn, if_pos rfl]
    exact congrArg (l :: ·) (ih fun l' hl' => hls l' (List.mem_cons_of_mem l hl'))

theorem joinLines_concat (ls : List (List Char)) (l : List Char) :
    joinLines (ls ++ [l]) = if ls = [] then l else joinLines ls ++ '\n' :: l := by
  induction ls with
  | nil => simp [joinLines, List.intercalate]
  | cons k ls ih =>
    cases ls with
    | nil => simp [joinLines, List.intercalate]
    | cons k' ls =>
      have hcons : ∀ ks : List (List Char), ks ≠ [] → joinLines (k :: ks) = k ++ '\n' :: joinLines ks := by
        intro ks hks
        obtain ⟨a, as, rfl⟩ := List.exists_cons_of_ne_nil hks
        simp [joinLines, List.intercalate]
      rw [List.cons_append, hcons _ (by simp), ih, hcons _ (by simp)]
      simp

theorem joinLines_newline {ls : List (List Char)} (h : ls ≠ []) :
    joinLines ls ++ ['\n'] = unlines ls := by
  induction ls using List.reverseRecOn with
  | nil => exact absurd rfl h
  | append_singleton ls l ih =>
    rw [joinLines_concat]
    by_cases hls : ls = []
    · simp [hls, unlines]
    · rw [if_neg hls]
      simp [unlines] at ih ⊢
      rw [← ih hls]
      simp

/-- A text that ends in a stripped line that is not empty. -/
theorem rstrip_append_line {l : List Char} (hl : rstrip space l = l) (hne : l ≠ [])
    (text : List Char) : rstrip space (text ++ l) = text ++ l := by
  unfold rstrip at hl ⊢
  rw [List.rdropWhile_eq_self_iff] at hl ⊢
  intro hnil
  rw [List.getLast_append_of_ne_nil _ hne]
  exact hl hne

/-- **Stripping a text of stripped lines** drops the empty lines at its end. -/
theorem rstrip_joinLines (hn : space '\n' = true) {ls : List (List Char)}
    (hls : ∀ l ∈ ls, rstrip space l = l) :
    rstrip space (joinLines ls) = joinLines (ls.rdropWhile List.isEmpty) := by
  induction ls using List.reverseRecOn with
  | nil => rfl
  | append_singleton ls l ih =>
    have hl : rstrip space l = l := hls l (by simp)
    have hrest : ∀ l ∈ ls, rstrip space l = l := fun l' hl' => hls l' (List.mem_append_left _ hl')
    by_cases hempty : l = []
    · -- the newline before an empty line goes, too
      subst hempty
      rw [List.rdropWhile_concat_pos _ _ _ (by rfl), ← ih hrest, joinLines_concat]
      split
      · rename_i hnil
        rw [hnil]
        rfl
      · unfold rstrip
        exact List.rdropWhile_concat_pos _ _ _ hn
    · rw [List.rdropWhile_concat_neg _ _ _ (by simpa using hempty), joinLines_concat]
      split
      · exact hl
      · rw [← List.singleton_append, ← List.append_assoc]
        exact rstrip_append_line hl hempty _

/-- Strip every line, then the text, and end it with one newline. -/
def normalize (brk space : Char → Bool) (text : List Char) : List Char :=
  rstrip space (joinLines ((splitlines brk text).map (rstrip space))) ++ ['\n']

/-- The stripped lines without the empty ones at the end. -/
def trimmed (brk space : Char → Bool) (text : List Char) : List (List Char) :=
  ((splitlines brk text).map (rstrip space)).rdropWhile List.isEmpty

/-- The lines of the normalized text: a text of spaces becomes one empty line. -/
def canonical (brk space : Char → Bool) (text : List Char) : List (List Char) :=
  if trimmed brk space text = [] then [[]] else trimmed brk space text

theorem mem_trimmed {text l : List Char} (hl : l ∈ trimmed brk space text) :
    rstrip space l = l ∧ ∀ c ∈ l, brk c = false := by
  have hmem := (List.rdropWhile_prefix _ _).subset hl
  obtain ⟨k, hk, rfl⟩ := List.mem_map.1 hmem
  refine ⟨List.rdropWhile_idempotent _ _, fun c hc => ?_⟩
  exact broken_splitlines text k hk c ((List.rdropWhile_prefix _ _).subset hc)

theorem normalize_eq (hn : space '\n' = true) (text : List Char) :
    normalize brk space text = unlines (canonical brk space text) := by
  have hstripped : ∀ l ∈ (splitlines brk text).map (rstrip space), rstrip space l = l := by
    intro l hl
    obtain ⟨k, -, rfl⟩ := List.mem_map.1 hl
    exact List.rdropWhile_idempotent _ _
  rw [normalize, rstrip_joinLines hn hstripped]
  show joinLines (trimmed brk space text) ++ ['\n'] = _
  unfold canonical
  split
  · rename_i hnil
    rw [hnil]
    rfl
  · rename_i hne
    exact joinLines_newline hne

/-- **The lines of a normalized text.** -/
theorem splitlines_normalize (hb : brk '\n' = true) (hn : space '\n' = true) (text : List Char) :
    splitlines brk (normalize brk space text) = canonical brk space text := by
  rw [normalize_eq hn]
  refine splitlines_unlines hb fun l hl => ?_
  unfold canonical at hl
  split at hl
  · rw [List.mem_singleton.1 hl]
    exact fun c hc => by cases hc
  · exact (mem_trimmed hl).2

theorem trimmed_normalize (hb : brk '\n' = true) (hn : space '\n' = true) (text : List Char) :
    trimmed brk space (normalize brk space text) = trimmed brk space text := by
  rw [trimmed, splitlines_normalize hb hn]
  unfold canonical
  split
  · rename_i hnil
    rw [hnil]
    rfl
  · have hfix : (trimmed brk space text).map (rstrip space) = trimmed brk space text := by
      conv_rhs => rw [← List.map_id (trimmed brk space text)]
      exact List.map_congr_left fun l hl => (mem_trimmed hl).1
    rw [hfix]
    exact List.rdropWhile_idempotent _ _

/-- **What normalizing forgets**: two texts become the same exactly when their stripped lines agree
up to empty lines at the end. -/
theorem normalize_inj (hb : brk '\n' = true) (hn : space '\n' = true) (text text' : List Char) :
    normalize brk space text = normalize brk space text' ↔
      trimmed brk space text = trimmed brk space text' := by
  constructor
  · intro h
    rw [← trimmed_normalize hb hn text, h, trimmed_normalize hb hn]
  · intro h
    rw [normalize_eq hn, normalize_eq hn]
    unfold canonical
    rw [h]

/-- **Normalizing twice is normalizing once.** -/
theorem normalize_idem (hb : brk '\n' = true) (hn : space '\n' = true) (text : List Char) :
    normalize brk space (normalize brk space text) = normalize brk space text :=
  (normalize_inj hb hn _ _).2 (trimmed_normalize hb hn text)

end normalize

end Text

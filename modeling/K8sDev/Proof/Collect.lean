import K8sDev.Spec.Collect
import Mathlib.Data.List.Pairwise

/-!
# The last attempt wins

The files are merged in the order of their times, so the last row of a number is one that no later
file supersedes (`report_latest`). The summary shares its items with the attempts: an attempt has
`evidence` exactly when it is in the summary. `Collected.OK` is the invariant of the loops.
-/

namespace K8sDev.Results

open Suite (Row)

variable {files : List ResultFile} {c : Collected} {h h' : List Item} {i : ℕ}

/-- The dicts of `history`, and where `latest` points. -/
structure Collected.OK (c : Collected) : Prop where
  latest : ∀ k i, c.latest.get? k = some i ↔
    ∃ item, c.history[i]? = some item ∧ item.number = k ∧ IsLast c.history i
  keys : c.latest.keys = (c.history.map Item.number).eraseDups
  bare : ∀ item ∈ c.history, item.evidence = none

/-- Which attempt is the last of its number depends on the numbers only. -/
theorem isLast_congr (hnum : h.map Item.number = h'.map Item.number) :
    IsLast h i ↔ IsLast h' i := by
  have hget : ∀ j : ℕ, (h[j]?).map Item.number = (h'[j]?).map Item.number := fun j => by
    rw [← List.getElem?_map, ← List.getElem?_map, hnum]
  have hone : ∀ {h h' : List Item}, (∀ j : ℕ, (h[j]?).map Item.number = (h'[j]?).map Item.number) →
      IsLast h i → IsLast h' i := by
    intro h h' hget hlast j item item' hij hi hj
    have hi' := hget i
    have hj' := hget j
    rw [hi, Option.map_some, Option.map_eq_some_iff] at hi'
    rw [hj, Option.map_some, Option.map_eq_some_iff] at hj'
    obtain ⟨a, ha, hai⟩ := hi'
    obtain ⟨b, hb, hbj⟩ := hj'
    rw [← hai, ← hbj]
    exact hlast j a b hij ha hb
  exact ⟨hone hget, hone fun j => (hget j).symm⟩

theorem eraseDups_concat {α : Type} [DecidableEq α] (xs : List α) (x : α) :
    (xs ++ [x]).eraseDups = if x ∈ xs then xs.eraseDups else xs.eraseDups ++ [x] := by
  rw [List.eraseDups_append]
  by_cases hx : x ∈ xs <;> simp [hx, List.removeAll, List.eraseDups_cons]

/-- **One row** becomes the last attempt of its number. -/
theorem Collected.OK.addRow (hc : c.OK) (directory : String) (row : Row) :
    (Results.addRow directory c row).OK where
  latest k i := by
    obtain ⟨item, hitem⟩ : ∃ item : Item, item = { round := directory, row := row } := ⟨_, rfl⟩
    have hnum : item.number = number row.case := by rw [hitem]; rfl
    have hold : ∀ j, j < c.history.length → (c.history ++ [item])[j]? = c.history[j]? :=
      fun j hj => List.getElem?_append_left hj
    have hnew : (c.history ++ [item])[c.history.length]? = some item := by simp
    have hlen : ∀ j x, (c.history ++ [item])[j]? = some x → j ≤ c.history.length := by
      intro j x hx
      obtain ⟨hj, -⟩ := List.getElem?_eq_some_iff.1 hx
      simp only [List.length_append, List.length_singleton] at hj
      omega
    show (c.latest.set (number row.case) c.history.length).get? k = some i ↔
      ∃ x, (c.history ++ [{ round := directory, row := row }])[i]? = some x ∧ x.number = k ∧
        IsLast (c.history ++ [{ round := directory, row := row }]) i
    rw [← hitem, Table.get?_set, ← hnum]
    by_cases hk : k = item.number
    · rw [if_pos hk, Option.some.injEq]
      constructor
      · rintro rfl
        refine ⟨item, hnew, hk.symm, fun j a b hij _ hb => ?_⟩
        have := hlen j b hb
        omega
      · rintro ⟨x, hx, hxk, hlast⟩
        -- an earlier place would have the new item after it
        by_contra hne
        have hi : i < c.history.length := Nat.lt_of_le_of_ne (hlen i x hx) (Ne.symm hne)
        exact hlast _ x item hi hx hnew (by rw [hxk, hk])
    · rw [if_neg hk, hc.latest]
      constructor
      · rintro ⟨x, hx, hxk, hlast⟩
        have hi : i < c.history.length := (List.getElem?_eq_some_iff.1 hx).1
        refine ⟨x, (hold i hi).trans hx, hxk, fun j a b hij ha hb => ?_⟩
        rw [hold i hi] at ha
        rcases Nat.lt_or_eq_of_le (hlen j b hb) with hj | rfl
        · exact hlast j a b hij ha ((hold j hj).symm.trans hb)
        · obtain rfl := Option.some.inj (hnew.symm.trans hb)
          obtain rfl := Option.some.inj (hx.symm.trans ha)
          rw [hxk]
          exact Ne.symm hk
      · rintro ⟨x, hx, hxk, hlast⟩
        rcases Nat.lt_or_eq_of_le (hlen i x hx) with hi | rfl
        · refine ⟨x, (hold i hi).symm.trans hx, hxk, fun j a b hij ha hb => ?_⟩
          have hj : j < c.history.length := (List.getElem?_eq_some_iff.1 hb).1
          exact hlast j a b hij ((hold i hi).trans ha) ((hold j hj).trans hb)
        · obtain rfl := Option.some.inj (hnew.symm.trans hx)
          exact absurd hxk.symm hk
  keys := by
    have hset : (c.latest.set (number row.case) c.history.length).keys =
        if number row.case ∈ c.latest.keys then c.latest.keys
        else c.latest.keys ++ [number row.case] := Table.keys_setEntry _ _ _
    show (c.latest.set (number row.case) c.history.length).keys = _
    rw [hset, hc.keys]
    simp only [Results.addRow, List.map_append, List.map_singleton, eraseDups_concat,
      List.mem_eraseDups]
    rfl
  bare item hitem := by
    rcases List.mem_append.1 hitem with hitem | hitem
    · exact hc.bare item hitem
    · rw [List.mem_singleton.1 hitem]

/-- The loops, as one loop over the rows with their files. -/
theorem collect_eq (files : List ResultFile) :
    collect files = (timed files).foldl (fun c p => addRow p.1.directory c p.2) {} := by
  unfold collect timed
  rw [List.foldl_flatMap]
  simp only [List.foldl_map]

/-- **The loops keep the invariant**, and `history` has every row. -/
theorem foldl_addRow_ok (ps : List (ResultFile × Row)) : ∀ c : Collected, c.OK →
    (ps.foldl (fun c p => addRow p.1.directory c p.2) c).OK ∧
      (ps.foldl (fun c p => addRow p.1.directory c p.2) c).history.map
          (fun item => (item.round, item.row)) =
        c.history.map (fun item => (item.round, item.row)) ++ ps.map fun p => (p.1.directory, p.2) := by
  induction ps with
  | nil => exact fun c hc => ⟨hc, by simp⟩
  | cons p ps ih =>
    intro c hc
    obtain ⟨hok, hrows⟩ := ih _ (hc.addRow p.1.directory p.2)
    refine ⟨hok, hrows.trans ?_⟩
    simp [addRow]

theorem collect_ok (files : List ResultFile) : (collect files).OK ∧
    (collect files).history.map (fun item => (item.round, item.row)) =
      (timed files).map fun p => (p.1.directory, p.2) := by
  rw [collect_eq]
  refine foldl_addRow_ok (timed files) {} ⟨fun k i => ?_, rfl, fun item hitem => by cases hitem⟩
  constructor
  · intro hget
    cases hget
  · rintro ⟨item, hitem, -⟩
    cases hitem

/-! ## The evidence -/

/-- An item with its evidence. -/
def Item.marked (item : Item) : Item := { item with evidence := some (item.row.case ++ "/") }

theorem getElem?_marks (places : List ℕ) : ∀ (h : List Item) (i : ℕ),
    (places.foldl mark h)[i]? = (h[i]?).map fun item => if i ∈ places then item.marked else item := by
  induction places with
  | nil => intro h i; simp
  | cons place places ih =>
    intro h i
    rw [List.foldl_cons, ih, mark, List.getElem?_modify]
    cases h[i]? with
    | none => rfl
    | some item =>
      by_cases hi : i ∈ places
      · by_cases hp : place = i <;> simp [hi, hp, Item.marked]
      · by_cases hp : place = i
        · simp [hi, hp, Item.marked]
        · simp [hi, hp, Ne.symm hp]

/-- The loop over `sorted(latest.items())` marks the last attempts. -/
theorem Collected.OK.marked_get (hc : c.OK) (i : ℕ) {item : Item} (hi : c.history[i]? = some item) :
    (IsLast c.history i → (marked c)[i]? = some item.marked) ∧
      (¬IsLast c.history i → (marked c)[i]? = some item) := by
  have hplaces : i ∈ (c.latest.entries.mergeSort fun e e' => decide (e.1 ≤ e'.1)).map Prod.snd ↔
      IsLast c.history i := by
    simp only [List.mem_map, List.mem_mergeSort]
    constructor
    · rintro ⟨⟨k, j⟩, he, rfl⟩
      obtain ⟨x, -, -, hlast⟩ := (hc.latest k j).1 (Table.mem_entries.1 he)
      exact hlast
    · intro hlast
      exact ⟨(item.number, i), Table.mem_entries.2 ((hc.latest _ _).2 ⟨item, hi, rfl, hlast⟩), rfl⟩
  unfold marked
  rw [getElem?_marks, hi, Option.map_some]
  constructor
  · intro hlast
    rw [if_pos (hplaces.2 hlast)]
  · intro hnot
    rw [if_neg fun hmem => hnot (hplaces.1 hmem)]

/-- The marks change nothing but the evidence. -/
theorem Collected.OK.marked_map (hc : c.OK) {α : Type} (f : Item → α)
    (hf : ∀ item, f item.marked = f item) : (marked c).map f = c.history.map f := by
  apply List.ext_getElem?
  intro i
  rw [List.getElem?_map, List.getElem?_map]
  cases hi : c.history[i]? with
  | none =>
    have hnone : (marked c)[i]? = none := by
      unfold marked
      rw [getElem?_marks, hi]
      rfl
    rw [hnone]
  | some item =>
    obtain ⟨hlast, hnot⟩ := hc.marked_get i hi
    by_cases h : IsLast c.history i
    · rw [hlast h, Option.map_some, Option.map_some, hf]
    · rw [hnot h]

/-- Where `latest` points there is a marked item of the number. -/
theorem Collected.OK.pointed (hc : c.OK) {e : String × ℕ} (he : e ∈ c.latest.entries) :
    ∃ item : Item, (marked c)[e.2]? = some item.marked ∧ item.number = e.1 ∧
      IsLast (marked c) e.2 := by
  obtain ⟨item, hitem, hnum, hlast⟩ := (hc.latest e.1 e.2).1 (Table.mem_entries.1 he)
  refine ⟨item, (hc.marked_get e.2 hitem).1 hlast, hnum, ?_⟩
  exact (isLast_congr (hc.marked_map Item.number fun _ => rfl)).2 hlast

/-- A `filterMap` that drops nothing. -/
theorem map_filterMap {α β γ : Type} {f : α → Option β} {g : β → γ} {k : α → γ} :
    ∀ {xs : List α}, (∀ x ∈ xs, ∃ y, f x = some y ∧ g y = k x) → (xs.filterMap f).map g = xs.map k := by
  intro xs
  induction xs with
  | nil => intro _; rfl
  | cons x xs ih =>
    intro h
    obtain ⟨y, hy, hg⟩ := h x List.mem_cons_self
    rw [List.filterMap_cons_some hy, List.map_cons, List.map_cons, hg,
      ih fun z hz => h z (List.mem_cons_of_mem x hz)]

/-! ## The report -/

theorem byTime_pairwise (files : List ResultFile) :
    (byTime files).Pairwise fun f g => f.mtime ≤ g.mtime := by
  have hsorted := @List.pairwise_mergeSort ResultFile (fun f g => decide (f.mtime ≤ g.mtime))
    (fun f g k hfg hgk => decide_eq_true (Nat.le_trans (of_decide_eq_true hfg) (of_decide_eq_true hgk)))
    (fun f g => by
      have := Nat.le_total f.mtime g.mtime
      simpa using this) files
  exact hsorted.imp fun h => of_decide_eq_true h

/-- Rows come in the order of the times of their files. -/
theorem timed_pairwise (files : List ResultFile) :
    (timed files).Pairwise fun p q => p.1.mtime ≤ q.1.mtime := by
  unfold timed
  rw [List.pairwise_flatMap]
  refine ⟨fun file _ => ?_, (byTime_pairwise files).imp fun {f g} hfg p hp q hq => ?_⟩
  · rw [List.pairwise_map]
    exact List.pairwise_of_forall fun _ _ => Nat.le_refl _
  · obtain ⟨-, -, rfl⟩ := List.mem_map.1 hp
    obtain ⟨-, -, rfl⟩ := List.mem_map.1 hq
    exact hfg

theorem mem_timed {p : ResultFile × Row} : p ∈ timed files ↔ p.1 ∈ files ∧ p.2 ∈ p.1.rows := by
  obtain ⟨file, row⟩ := p
  simp [timed, byTime]

/-- **The report.** The attempts are the rows of all files in the order of their times. The summary
has one item for each number, in the order in which the numbers first appear; an attempt has its
evidence recorded exactly when no later attempt has its number, and those are the items of the
summary. No file that was written later than an item's has a row of the number. -/
theorem report_latest (files : List ResultFile) :
    (report files).attempts.map (fun item => (item.round, item.row)) =
        (timed files).map (fun p => (p.1.directory, p.2)) ∧
      (report files).summary.map Item.number =
        ((report files).attempts.map Item.number).eraseDups ∧
      (∀ i item, (report files).attempts[i]? = some item →
        (IsLast (report files).attempts i →
          item.evidence = some (item.row.case ++ "/") ∧ item ∈ (report files).summary) ∧
        (¬IsLast (report files).attempts i → item.evidence = none)) ∧
      ∀ item ∈ (report files).summary, ∀ file ∈ files, ∀ row ∈ file.rows,
        number row.case = item.number →
        ∃ file' ∈ files, item.round = file'.directory ∧ item.row ∈ file'.rows ∧
          file.mtime ≤ file'.mtime := by
  obtain ⟨hok, hrows⟩ := collect_ok files
  have hattempts : (report files).attempts = marked (collect files) := rfl
  have hsummary : (report files).summary =
      (collect files).latest.entries.filterMap fun e => (marked (collect files))[e.2]? := rfl
  have hcongr : ∀ i, IsLast (marked (collect files)) i ↔ IsLast (collect files).history i :=
    fun i => isLast_congr (hok.marked_map Item.number fun _ => rfl)
  have hpairs : (marked (collect files)).map (fun item => (item.round, item.row)) =
      (timed files).map fun p => (p.1.directory, p.2) := by
    rw [hok.marked_map _ fun _ => rfl, hrows]
  rw [hattempts, hsummary]
  refine ⟨hpairs, ?_, fun i item hi => ?_, fun item hitem file hfile row hrow hnum => ?_⟩
  · rw [hok.marked_map Item.number fun _ => rfl, ← hok.keys, Table.keys]
    refine map_filterMap fun e he => ?_
    obtain ⟨item, hitem, hnum, -⟩ := hok.pointed he
    exact ⟨item.marked, hitem, hnum⟩
  · have hlen : i < (collect files).history.length := by
      have hlength := congrArg List.length (hok.marked_map (fun _ => ()) fun _ => rfl)
      rw [List.length_map, List.length_map] at hlength
      rw [← hlength]
      exact (List.getElem?_eq_some_iff.1 hi).1
    have hget := List.getElem?_eq_getElem hlen
    obtain ⟨hlast, hnot⟩ := hok.marked_get i hget
    rw [hcongr]
    constructor
    · intro h
      obtain rfl := Option.some.inj ((hlast h).symm.trans hi)
      refine ⟨rfl, List.mem_filterMap.2 ⟨((collect files).history[i].number, i), ?_, hi⟩⟩
      exact Table.mem_entries.2 ((hok.latest _ _).2 ⟨_, hget, rfl, h⟩)
    · intro h
      obtain rfl := Option.some.inj ((hnot h).symm.trans hi)
      exact hok.bare _ (List.mem_of_getElem? hget)
  · -- the item is the last of its number, at place `i`
    obtain ⟨e, he, hget⟩ := List.mem_filterMap.1 hitem
    obtain ⟨item', hitem', hnum', hlast⟩ := hok.pointed he
    obtain rfl := Option.some.inj (hitem'.symm.trans hget)
    have hat : ∀ (j : ℕ) (x : Item), (marked (collect files))[j]? = some x →
        ∃ p, (timed files)[j]? = some p ∧ x.round = p.1.directory ∧ x.row = p.2 := by
      intro j x hx
      have hj := congrArg (fun xs => xs[j]?) hpairs
      simp only [List.getElem?_map, hx, Option.map_some] at hj
      obtain ⟨p, hp, heq⟩ := Option.map_eq_some_iff.1 hj.symm
      exact ⟨p, hp, (congrArg Prod.fst heq).symm, (congrArg Prod.snd heq).symm⟩
    obtain ⟨p, hp, hround, hprow⟩ := hat e.2 _ hget
    have hpmem := mem_timed.1 (List.mem_of_getElem? hp)
    -- the other row is at some place `j`, which cannot be after it
    have hother : (file, row) ∈ timed files := mem_timed.2 ⟨hfile, hrow⟩
    obtain ⟨j, hj⟩ := List.getElem?_of_mem hother
    refine ⟨p.1, hpmem.1, hround, hprow ▸ hpmem.2, ?_⟩
    rcases Nat.lt_trichotomy j e.2 with hlt | heq | hgt
    · obtain ⟨hjlen, hjget⟩ := List.getElem?_eq_some_iff.1 hj
      obtain ⟨hplen, hpget⟩ := List.getElem?_eq_some_iff.1 hp
      have hle := List.pairwise_iff_getElem.1 (timed_pairwise files) j e.2 hjlen hplen hlt
      rwa [hjget, hpget] at hle
    · rw [heq, hp] at hj
      obtain rfl := Option.some.inj hj
      exact Nat.le_refl _
    · exfalso
      have hj' := congrArg (fun xs => xs[j]?) hpairs
      simp only [List.getElem?_map, hj, Option.map_some] at hj'
      obtain ⟨x, hx, hxp⟩ := Option.map_eq_some_iff.1 hj'
      have hxrow : x.row = row := congrArg Prod.snd hxp
      refine hlast j _ x hgt hget hx ?_
      show number x.row.case = _
      rw [hxrow, hnum]

/-! ## The logs -/

theorem isLineBreak_newline : isLineBreak '\n' = true := by decide

theorem isSpace_newline : isSpace '\n' = true := by decide

theorem normalizeFile_log {f : OutputFile} (hlog : f.isLog = true) :
    normalizeFile f = { f with text := normalizeLog f.text } := if_pos hlog

theorem normalizeFile_other {f : OutputFile} (hlog : f.isLog = false) : normalizeFile f = f := by
  unfold normalizeFile
  rw [hlog]
  rfl

theorem normalizeFile_idem (f : OutputFile) : normalizeFile (normalizeFile f) = normalizeFile f := by
  cases hlog : f.isLog with
  | false => rw [normalizeFile_other hlog, normalizeFile_other hlog]
  | true =>
    have hsame : OutputFile.isLog { f with text := normalizeLog f.text } = true := hlog
    rw [normalizeFile_log hlog, normalizeFile_log hsame]
    exact congrArg (OutputFile.mk f.path)
      (Text.normalize_idem isLineBreak_newline isSpace_newline f.text)

/-- **The committed logs.** A log keeps the lines that count, each stripped and ended by a newline
(one empty line if there are none), and two logs become the same only when these agree. Other files
stay as they are, and a second run of the loop changes no file. -/
theorem normalizeLogs_spec (output : List OutputFile) :
    normalizeLogs (normalizeLogs output) = normalizeLogs output ∧
      ∀ f ∈ output, (f.isLog = false → f ∈ normalizeLogs output) ∧
        (f.isLog = true → ∃ g ∈ normalizeLogs output, g.path = f.path ∧
          g.text = Text.unlines (if logLines f.text = [] then [[]] else logLines f.text) ∧
          (∀ l ∈ logLines f.text, Text.rstrip isSpace l = l ∧ ∀ c ∈ l, isLineBreak c = false) ∧
          ∀ f' : OutputFile, f'.isLog = true →
            ((normalizeFile f').text = g.text ↔ logLines f'.text = logLines f.text)) := by
  refine ⟨?_, fun f hf => ⟨fun hlog => ?_, fun hlog => ?_⟩⟩
  · unfold normalizeLogs
    rw [List.map_map]
    exact List.map_congr_left fun f _ => normalizeFile_idem f
  · exact List.mem_map.2 ⟨f, hf, normalizeFile_other hlog⟩
  · refine ⟨normalizeFile f, List.mem_map_of_mem hf, ?_⟩
    rw [normalizeFile_log hlog]
    refine ⟨rfl, Text.normalize_eq isSpace_newline f.text, fun l hl => Text.mem_trimmed hl, ?_⟩
    intro f' hlog'
    rw [normalizeFile_log hlog']
    exact Text.normalize_inj isLineBreak_newline isSpace_newline f'.text f.text

end K8sDev.Results

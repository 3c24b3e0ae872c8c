import Mathlib.Data.List.Basic

/-!
# Slash-separated paths

Lexical processing of paths, as of `path/filepath` on Unix. A path is read as the list of its
elements between slashes; `Clean` runs through them with a stack.

* `clean_absolute`: an absolute path of plain elements is clean.
* `join_absolute`: joining such a path and one more plain element appends it.
-/

namespace Path

/-- One element onto the stack: empty ones and `.` vanish, `..` takes the last one away. -/
def push (rooted : Bool) (stack : List (List Char)) (elem : List Char) : List (List Char) :=
  if elem = [] ∨ elem = ['.'] then stack
  else if elem = ['.', '.'] then
    match stack with
    | [] => if rooted then [] else [elem]
    | top :: rest => if top = ['.', '.'] then elem :: stack else rest
  else elem :: stack

/-- `Clean`, on characters. -/
def cleanList (path : List Char) : List Char :=
  let rooted := path.head? = some '/'
  let elems := ((path.splitOn '/').foldl (push rooted) []).reverse
  if rooted then '/' :: ['/'].intercalate elems
  else if elems = [] then ['.']
  else ['/'].intercalate elems

/-- `Clean`. -/
def clean (path : String) : String := String.ofList (cleanList path.toList)

/-- `Join`. -/
def join (elems : List String) : String :=
  match elems.dropWhile (· = "") with
  | [] => ""
  | elems => clean ("/".intercalate elems)

/-- An element that stands for itself. -/
structure Plain (elem : List Char) : Prop where
  ne_nil : elem ≠ []
  ne_dot : elem ≠ ['.']
  ne_dots : elem ≠ ['.', '.']
  slash : '/' ∉ elem

/-- The absolute path of these elements. -/
def absolute (elems : List (List Char)) : List Char := elems.flatMap ('/' :: ·)

theorem push_plain {elem : List Char} (h : Plain elem) (rooted : Bool)
    (stack : List (List Char)) : push rooted stack elem = elem :: stack := by
  unfold push
  rw [if_neg (not_or.2 ⟨h.ne_nil, h.ne_dot⟩), if_neg h.ne_dots]

theorem foldl_push {elems : List (List Char)} (h : ∀ elem ∈ elems, Plain elem) (rooted : Bool) :
    ∀ stack, elems.foldl (push rooted) stack = elems.reverse ++ stack := by
  induction elems with
  | nil => exact fun stack => rfl
  | cons elem elems ih =>
    intro stack
    rw [List.foldl_cons, push_plain (h elem List.mem_cons_self),
      ih fun e he => h e (List.mem_cons_of_mem _ he), List.reverse_cons, List.append_assoc]
    rfl

theorem absolute_eq {elems : List (List Char)} (hne : elems ≠ []) :
    absolute elems = '/' :: ['/'].intercalate elems := by
  induction elems with
  | nil => exact absurd rfl hne
  | cons elem elems ih =>
    cases elems with
    | nil => simp [absolute]
    | cons e es =>
      rw [absolute] at ih ⊢
      rw [List.flatMap_cons, ih (List.cons_ne_nil _ _), List.intercalate_cons_cons]
      simp

/-- The elements of an absolute path, after the empty one before the first slash. -/
theorem splitOn_absolute {elems : List (List Char)} (h : ∀ elem ∈ elems, '/' ∉ elem)
    (hne : elems ≠ []) : (absolute elems).splitOn '/' = [] :: elems := by
  have hjoin : absolute elems = ['/'].intercalate ([] :: elems) := by
    obtain ⟨e, es, rfl⟩ := List.exists_cons_of_ne_nil hne
    rw [absolute_eq hne, List.intercalate_cons_cons]
    rfl
  rw [hjoin]
  refine List.splitOn_intercalate '/' ?_ (List.cons_ne_nil _ _)
  intro elem helem
  rcases List.mem_cons.1 helem with rfl | helem
  · exact List.not_mem_nil
  · exact h elem helem

/-- **A path of plain elements is clean.** -/
theorem cleanList_absolute {elems : List (List Char)} (h : ∀ elem ∈ elems, Plain elem)
    (hne : elems ≠ []) : cleanList (absolute elems) = absolute elems := by
  have hrooted : (absolute elems).head? = some '/' := by
    rw [absolute_eq hne]
    rfl
  have hstack : ([] :: elems).foldl (push true) [] = elems.reverse := by
    rw [List.foldl_cons]
    have hskip : push true [] [] = [] := rfl
    rw [hskip, foldl_push h, List.append_nil]
  unfold cleanList
  simp only [hrooted, decide_true, if_true]
  rw [splitOn_absolute (fun elem he => (h elem he).slash) hne, hstack, List.reverse_reverse,
    absolute_eq hne]

/-- **Joining a path of plain elements and one more.** -/
theorem join_absolute {elems : List (List Char)} (h : ∀ elem ∈ elems, Plain elem)
    (hne : elems ≠ []) {base : String} (hbase : Plain base.toList) :
    join [String.ofList (absolute elems), base] =
      String.ofList (absolute elems) ++ "/" ++ base := by
  have hdir : String.ofList (absolute elems) ≠ "" := by
    intro heq
    have hlist := congrArg String.toList heq
    rw [String.toList_ofList, absolute_eq hne] at hlist
    cases hlist
  have hjoined : ("/".intercalate [String.ofList (absolute elems), base]).toList =
      absolute (elems ++ [base.toList]) := by
    simp [absolute]
  have hall : ∀ elem ∈ elems ++ [base.toList], Plain elem := by
    intro elem helem
    rcases List.mem_append.1 helem with helem | helem
    · exact h elem helem
    · rw [List.mem_singleton.1 helem]
      exact hbase
  unfold join
  rw [List.dropWhile_cons_of_neg (by simpa using hdir)]
  simp only [clean]
  rw [hjoined, cleanList_absolute hall (by simp)]
  apply String.toList_inj.1
  simp [absolute]

end Path

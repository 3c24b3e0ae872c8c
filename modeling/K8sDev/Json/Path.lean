import K8sDev.Json.Value
import Mathlib.Data.List.Infix

/-!
# Inside a value

A path names a place in a value: in an object it goes on by name, in a list by index. `Everywhere`
says something of every object there is, at any depth.
-/

namespace Json

/-- One step of a path. -/
inductive Step
  | key (name : String)
  | index (i : ℕ)
deriving DecidableEq, Repr

/-- The value one step below. -/
def child? : Json → Step → Option Json
  | obj members, .key name => members.lookup name
  | arr elems, .index i => elems[i]?
  | _, _ => none

/-- The value at the end of a path. -/
def at? (j : Json) (p : List Step) : Option Json := p.foldlM child? j

theorem at?_append (j : Json) (p q : List Step) :
    j.at? (p ++ q) = (j.at? p).bind fun u => u.at? q :=
  List.foldlM_append

theorem at?_concat (j : Json) (p : List Step) (s : Step) :
    j.at? (p ++ [s]) = (j.at? p).bind fun u => u.child? s := by
  rw [at?_append]
  congr 1
  funext u
  exact bind_pure (u.child? s)

/-- Nothing is below it. -/
def isLeaf : Json → Bool
  | arr elems => elems.isEmpty
  | obj members => members.isEmpty
  | _ => true

mutual

/-- How deep a value nests; a value with nothing below has depth one. -/
def depth : Json → ℕ
  | arr elems => elemsDepth elems + 1
  | obj members => membersDepth members + 1
  | null => 1
  | bool _ => 1
  | num _ => 1
  | str _ => 1

def elemsDepth : List Json → ℕ
  | [] => 0
  | j :: js => max j.depth (elemsDepth js)

def membersDepth : List (String × Json) → ℕ
  | [] => 0
  | (_, j) :: ms => max j.depth (membersDepth ms)

end

theorem elemsDepth_le {elems : List Json} {n : ℕ} :
    elemsDepth elems ≤ n ↔ ∀ j ∈ elems, j.depth ≤ n := by
  induction elems with
  | nil => simp [elemsDepth]
  | cons j js ih => rw [elemsDepth, Nat.max_le, ih, List.forall_mem_cons]

theorem membersDepth_le {members : List (String × Json)} {n : ℕ} :
    membersDepth members ≤ n ↔ ∀ m ∈ members, m.2.depth ≤ n := by
  induction members with
  | nil => simp [membersDepth]
  | cons m ms ih => rw [membersDepth, Nat.max_le, ih, List.forall_mem_cons]

theorem depth_obj_le {members : List (String × Json)} {n : ℕ} :
    (obj members).depth ≤ n + 1 ↔ ∀ m ∈ members, m.2.depth ≤ n := by
  rw [depth, Nat.add_le_add_iff_right, membersDepth_le]

/-! ## Every object -/

mutual

/-- The members of every object in the value are such. -/
def Everywhere (P : List (String × Json) → Prop) : Json → Prop
  | arr elems => EverywhereElems P elems
  | obj members => P members ∧ EverywhereMembers P members
  | null => True
  | bool _ => True
  | num _ => True
  | str _ => True

def EverywhereElems (P : List (String × Json) → Prop) : List Json → Prop
  | [] => True
  | j :: js => j.Everywhere P ∧ EverywhereElems P js

def EverywhereMembers (P : List (String × Json) → Prop) : List (String × Json) → Prop
  | [] => True
  | (_, j) :: ms => j.Everywhere P ∧ EverywhereMembers P ms

end

variable {P : List (String × Json) → Prop} {elems : List Json} {members : List (String × Json)}

theorem everywhere_arr : (arr elems).Everywhere P ↔ ∀ j ∈ elems, j.Everywhere P := by
  rw [Everywhere]
  induction elems with
  | nil => simp [EverywhereElems]
  | cons j js ih => rw [EverywhereElems, ih, List.forall_mem_cons]

theorem everywhere_obj :
    (obj members).Everywhere P ↔ P members ∧ ∀ m ∈ members, m.2.Everywhere P := by
  have hmembers : EverywhereMembers P members ↔ ∀ m ∈ members, m.2.Everywhere P := by
    induction members with
    | nil => simp [EverywhereMembers]
    | cons m ms ih => rw [EverywhereMembers, ih, List.forall_mem_cons]
  rw [Everywhere, hmembers]

end Json

import K8sDev.Json.Value
import Mathlib.Data.List.Nodup

/-!
# Merge patches

`mergePatch` is `MergePatch` of RFC 7386: an object patch sets the members it names, removes
those it names with `null`, and leaves the others; any other patch replaces the target.

* `lookup_mergeMembers`: what an object patch makes of each member.
* `lookup_mergeStrings`: a patch of strings only adds and replaces.
-/

namespace Json

mutual

/-- `MergePatch(target, patch)`, the patch first. A target that is no object counts as an empty
one. -/
def mergePatch : Json → Option Json → Json
  | .obj patch, target => .obj (mergeMembers patch (target.elim [] membersOf))
  | .null, _ => .null
  | .bool b, _ => .bool b
  | .num n, _ => .num n
  | .str s, _ => .str s
  | .arr elems, _ => .arr elems

def mergeMembers : List (String × Json) → List (String × Json) → List (String × Json)
  | [], target => target
  | m :: patch, target => mergeMembers patch (mergeMember m target)

def mergeMember : String × Json → List (String × Json) → List (String × Json)
  | (key, value), target =>
    match value with
    | .null => eraseMember key target
    | value => setMember key (mergePatch value (target.lookup key)) target

end

/-- The value of a member that the patch names: `none` if it is removed. -/
def mergeValue (value : Json) (old : Option Json) : Option Json :=
  match value with
  | .null => none
  | value => some (value.mergePatch old)

theorem lookup_mergeMember (key key' : String) (value : Json) (target : List (String × Json)) :
    (mergeMember (key, value) target).lookup key' =
      if key' = key then mergeValue value (target.lookup key) else target.lookup key' := by
  cases value with
  | null => exact lookup_eraseMember key key' target
  | _ => exact lookup_setMember key key' _ target

/-- **What a patch makes of a member.** A member it does not name stays as it is. -/
theorem lookup_mergeMembers {key : String} : ∀ {patch target : List (String × Json)},
    (patch.map Prod.fst).Nodup → (mergeMembers patch target).lookup key =
      match patch.lookup key with
      | some value => mergeValue value (target.lookup key)
      | none => target.lookup key := by
  intro patch
  induction patch with
  | nil => intro target _; rfl
  | cons m patch ih =>
    obtain ⟨k, value⟩ := m
    intro target h
    rw [List.map_cons, List.nodup_cons] at h
    rw [mergeMembers, ih h.2, lookup_mergeMember, lookup_cons]
    by_cases hk : key = k
    · subst hk
      have hnone : patch.lookup key = none := by
        rw [List.lookup_eq_none_iff]
        intro m hm
        rw [bne_iff_ne]
        intro heq
        exact h.1 (List.mem_map.2 ⟨m, hm, heq.symm⟩)
      rw [hnone, if_pos rfl, if_pos rfl]
    · rw [if_neg hk, if_neg hk]

/-- The same, for an object patch and any target. -/
theorem get?_mergePatch {patch : List (String × Json)} (h : (patch.map Prod.fst).Nodup)
    (target : Option Json) (key : String) :
    ((Json.obj patch).mergePatch target).get? key =
      match patch.lookup key with
      | some value => mergeValue value (target.bind (·.get? key))
      | none => target.bind (·.get? key) := by
  have htarget : (target.elim [] membersOf).lookup key = target.bind (·.get? key) := by
    cases target with
    | none => rfl
    | some j => exact (get?_eq j key).symm
  rw [mergePatch, get?_obj, lookup_mergeMembers h, htarget]

/-- A patch of one member. -/
theorem get?_mergePatch_single (name : String) (value : Json) (target : Option Json) (key : String) :
    ((Json.obj [(name, value)]).mergePatch target).get? key =
      if key = name then mergeValue value (target.bind (·.get? key))
      else target.bind (·.get? key) := by
  rw [get?_mergePatch (by simp), lookup_cons]
  by_cases h : key = name <;> simp [h]

/-! ## Maps of strings -/

/-- A map of strings as members. -/
def strings (data : List (String × String)) : List (String × Json) :=
  data.map fun m => (m.1, .str m.2)

theorem strings_nodup {data : List (String × String)} (h : (data.map Prod.fst).Nodup) :
    ((strings data).map Prod.fst).Nodup := by
  rwa [strings, List.map_map]

theorem lookup_strings (data : List (String × String)) (key : String) :
    (strings data).lookup key = (data.lookup key).map .str := by
  induction data with
  | nil => rfl
  | cons m data ih =>
    obtain ⟨k, s⟩ := m
    rw [strings, List.map_cons, lookup_cons, List.lookup_cons]
    by_cases h : key = k
    · simp [h]
    · rw [if_neg h, beq_false_of_ne h]
      exact ih

/-- A patch of strings adds and replaces members, and removes none. -/
theorem lookup_mergeStrings {data : List (String × String)} (h : (data.map Prod.fst).Nodup)
    (target : List (String × Json)) (key : String) :
    (mergeMembers (strings data) target).lookup key =
      ((strings data).lookup key).or (target.lookup key) := by
  rw [lookup_mergeMembers (strings_nodup h), lookup_strings]
  cases data.lookup key <;> rfl

/-- The target has no member that the patch does not name. -/
def keysKept (target patch : List (String × Json)) : Bool :=
  target.all fun m => (patch.lookup m.1).isSome

theorem keysKept_iff {target patch : List (String × Json)} :
    keysKept target patch = true ↔
      ∀ key, (target.lookup key).isSome → (patch.lookup key).isSome := by
  unfold keysKept
  rw [List.all_eq_true]
  constructor
  · intro h key hkey
    obtain ⟨m, hm, heq⟩ := List.lookup_isSome_iff.1 hkey
    rw [beq_iff_eq] at heq
    rw [heq]
    exact h m hm
  · intro h m hm
    exact h m.1 (List.lookup_isSome_iff.2 ⟨m, hm, beq_self_eq_true _⟩)

/-- **When a patch of strings makes the target equal to itself.** -/
theorem same_mergeStrings_iff {data : List (String × String)} (h : (data.map Prod.fst).Nodup)
    (target : List (String × Json)) :
    Same (.obj (mergeMembers (strings data) target)) (.obj (strings data)) ↔
      keysKept target (strings data) = true := by
  rw [keysKept_iff]
  constructor
  · intro hsame key hkey
    have hboth := hsame.isSome_get? key
    simp only [get?_obj, lookup_mergeStrings h] at hboth
    rw [← hboth, Option.isSome_or, hkey, Bool.or_true]
  · intro hkept
    refine .of_lookup fun key => ?_
    rw [lookup_mergeStrings h]
    cases hkey : (strings data).lookup key with
    | some value => rfl
    | none =>
      rw [Option.none_or, ← Option.not_isSome_iff_eq_none]
      intro htarget
      have := hkept key htarget
      rw [hkey] at this
      cases this

end Json

import K8sDev.Json.Value
import Mathlib.Data.List.Infix

/-!
# JSON Patch

`add` of RFC 6902 at the members of objects: it adds the member or replaces its value, and asks
that the object it goes into is there. A path that ends in a member reaches everything below it,
so what an `add` leaves alone is said of paths that neither lead to its place nor start from it.
-/

namespace Json

/-- `add`; `none` if the object to add to is not there. -/
def add (value : Json) : List String → Json → Option Json
  | [], _ => some value
  | [key], obj members => some (obj (setMember key value members))
  | key :: keys, obj members =>
    (members.lookup key).bind fun v =>
      (add value keys v).map fun v' => obj (setMember key v' members)
  | _, _ => none

variable {value j j' : Json} {keys : List String} {key : String}

theorem add_cons (hkeys : keys ≠ []) (value : Json) (key : String) (members : List (String × Json)) :
    add value (key :: keys) (obj members) = (members.lookup key).bind fun v =>
      (add value keys v).map fun v' => obj (setMember key v' members) := by
  cases keys with
  | nil => exact absurd rfl hkeys
  | cons k ks => rfl

/-- An `add` below a member, by cases. -/
theorem add_cons_eq_some (hkeys : keys ≠ []) (h : add value (key :: keys) j = some j') :
    ∃ members v v', j = obj members ∧ members.lookup key = some v ∧ add value keys v = some v' ∧
      j' = obj (setMember key v' members) := by
  cases j with
  | obj members =>
    rw [add_cons hkeys] at h
    obtain ⟨v, hv, h⟩ := Option.bind_eq_some_iff.1 h
    obtain ⟨v', hv', h⟩ := Option.map_eq_some_iff.1 h
    exact ⟨members, v, v', rfl, hv, hv', h.symm⟩
  | null | bool _ | num _ | str _ | arr _ =>
    cases keys with
    | nil => exact absurd rfl hkeys
    | cons k ks => exact absurd h (by simp [add])

theorem add_singleton_eq_some (h : add value [key] j = some j') :
    ∃ members, j = obj members ∧ j' = obj (setMember key value members) := by
  cases j with
  | obj members => exact ⟨members, rfl, (Option.some.inj h).symm⟩
  | null | bool _ | num _ | str _ | arr _ => exact absurd h (by simp [add])

/-- What is there afterwards. -/
theorem path?_add (h : add value keys j = some j') : j'.path? keys = some value := by
  induction keys generalizing j j' with
  | nil => exact h.symm
  | cons key keys ih =>
    cases keys with
    | nil =>
      obtain ⟨members, -, rfl⟩ := add_singleton_eq_some h
      rw [path?_singleton, get?_obj, lookup_setMember, if_pos rfl]
    | cons k ks =>
      obtain ⟨members, v, v', -, -, hv', rfl⟩ := add_cons_eq_some (List.cons_ne_nil k ks) h
      rw [path?_cons, get?_obj, lookup_setMember, if_pos rfl]
      exact ih hv'

/-- **Frame.** Nothing changes but what is at the place, below it and above it. -/
theorem path?_add_of_apart (h : add value keys j = some j') {keys' : List String}
    (hbelow : ¬keys <+: keys') (habove : ¬keys' <+: keys) : j'.path? keys' = j.path? keys' := by
  induction keys generalizing j j' keys' with
  | nil => exact absurd List.nil_prefix hbelow
  | cons key keys ih =>
    cases keys' with
    | nil => exact absurd List.nil_prefix habove
    | cons key' keys' =>
      rw [List.cons_prefix_cons] at hbelow habove
      cases keys with
      | nil =>
        obtain ⟨members, rfl, rfl⟩ := add_singleton_eq_some h
        have hne : key' ≠ key := fun heq => hbelow ⟨heq.symm, List.nil_prefix⟩
        rw [path?_cons, path?_cons, get?_obj, get?_obj, lookup_setMember, if_neg hne]
      | cons k ks =>
        obtain ⟨members, v, v', rfl, hv, hv', rfl⟩ := add_cons_eq_some (List.cons_ne_nil k ks) h
        rw [path?_cons, path?_cons, get?_obj, get?_obj, lookup_setMember]
        by_cases hkey : key' = key
        · subst hkey
          rw [if_pos rfl, hv]
          exact ih hv' (fun hp => hbelow ⟨rfl, hp⟩) fun hp => habove ⟨rfl, hp⟩
        · rw [if_neg hkey]

/-- To add what is there changes nothing. -/
theorem add_self (hkeys : keys ≠ []) (h : j.path? keys = some value) :
    add value keys j = some j := by
  induction keys generalizing j with
  | nil => exact absurd rfl hkeys
  | cons key keys ih =>
    rw [path?_cons] at h
    obtain ⟨v, hv, hrest⟩ := Option.bind_eq_some_iff.1 h
    cases j with
    | obj members =>
      have hlookup : members.lookup key = some v := hv
      cases keys with
      | nil =>
        obtain rfl := Option.some.inj hrest
        exact congrArg (fun ms => some (obj ms)) (setMember_self hlookup)
      | cons k ks =>
        rw [add_cons (List.cons_ne_nil k ks), hlookup, Option.bind_some,
          ih (List.cons_ne_nil k ks) hrest, Option.map_some, setMember_self hlookup]
    | null | bool _ | num _ | str _ | arr _ => exact absurd hv (by simp [get?])

/-! ## Documents -/

/-- `~1` and `~0` of RFC 6901. -/
def unescape : List Char → List Char
  | '~' :: '1' :: cs => '/' :: unescape cs
  | '~' :: '0' :: cs => '~' :: unescape cs
  | c :: cs => c :: unescape cs
  | [] => []

/-- The tokens of a pointer; every token has a slash before it. -/
def pointer (path : String) : Option (List String) :=
  match path.toList with
  | [] => some []
  | '/' :: cs => some ((cs.splitOn '/').map fun token => String.ofList (unescape token))
  | _ => none

/-- One operation; `none` if it fails or is not an `add`. -/
def applyOp (op j : Json) : Option Json :=
  match op.get? "op", op.get? "path", op.get? "value" with
  | some (.str "add"), some (.str path), some value =>
    (pointer path).bind fun keys => add value keys j
  | _, _, _ => none

/-- The operations of a patch, in order. -/
def applyPatch : Json → Json → Option Json
  | .arr ops, j => ops.foldlM (fun j op => applyOp op j) j
  | _, _ => none

end Json

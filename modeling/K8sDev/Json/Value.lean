import Mathlib.Data.List.Forall2
import Mathlib.Data.List.Nodup

/-!
# JSON values

Objects keep their members in order. A reader that goes by name takes the first member of
that name (`lookup`), so what such readers can tell apart is less than equality: `Same`
identifies objects with the same member at every name.
-/

inductive Json
  | null
  | bool (b : Bool)
  | num (n : Rat)
  | str (s : String)
  | arr (elems : List Json)
  | obj (members : List (String × Json))

namespace Json

/-- Induction over a value, through the lists of elements and members inside it. -/
@[elab_as_elim]
theorem induction {motive : Json → Prop} (null : motive .null) (bool : ∀ b, motive (.bool b))
    (num : ∀ n, motive (.num n)) (str : ∀ s, motive (.str s))
    (arr : ∀ elems, (∀ j ∈ elems, motive j) → motive (.arr elems))
    (obj : ∀ members, (∀ m ∈ members, motive m.2) → motive (.obj members)) (j : Json) :
    motive j := by
  refine @Json.rec motive (fun js => ∀ j ∈ js, motive j) (fun ms => ∀ m ∈ ms, motive m.2)
    (fun m => motive m.2) null bool num str arr obj ?_ ?_ ?_ ?_ ?_ j
  · exact fun j hj => absurd hj List.not_mem_nil
  · exact fun j js hj hjs => List.forall_mem_cons.2 ⟨hj, hjs⟩
  · exact fun m hm => absurd hm List.not_mem_nil
  · exact fun m ms hm hms => List.forall_mem_cons.2 ⟨hm, hms⟩
  · exact fun _ _ hv => hv

/-- The member of that name. -/
def get? : Json → String → Option Json
  | obj members, key => members.lookup key
  | _, _ => none

@[simp] theorem get?_obj (members : List (String × Json)) (key : String) :
    (obj members).get? key = members.lookup key := rfl

/-- The members of an object. -/
def membersOf : Json → List (String × Json)
  | obj members => members
  | _ => []

theorem get?_eq (j : Json) (key : String) : j.get? key = j.membersOf.lookup key := by
  cases j <;> rfl

/-- The value at the end of a path of names. -/
def path? (j : Json) (keys : List String) : Option Json := keys.foldlM get? j

theorem path?_cons (j : Json) (key : String) (keys : List String) :
    j.path? (key :: keys) = (j.get? key).bind fun v => v.path? keys := rfl

theorem path?_append (j : Json) (keys keys' : List String) :
    j.path? (keys ++ keys') = (j.path? keys).bind fun v => v.path? keys' :=
  List.foldlM_append

theorem path?_singleton (j : Json) (key : String) : j.path? [key] = j.get? key := by
  rw [path?_cons]
  cases j.get? key <;> rfl

/-- Equal up to the order of the members of objects, at every depth. -/
inductive Same : Json → Json → Prop
  | refl (j : Json) : Same j j
  | arr {xs ys : List Json} : List.Forall₂ Same xs ys → Same (arr xs) (arr ys)
  | obj {ms ns : List (String × Json)} :
      (∀ key, (ms.lookup key).isSome = (ns.lookup key).isSome) →
      (∀ key x y, ms.lookup key = some x → ns.lookup key = some y → Same x y) →
      Same (obj ms) (obj ns)

/-- Objects with the same member at every name. -/
theorem Same.of_lookup {ms ns : List (String × Json)} (h : ∀ key, ms.lookup key = ns.lookup key) :
    Same (.obj ms) (.obj ns) := by
  refine .obj (fun key => by rw [h]) fun key x y hx hy => ?_
  rw [h, hy] at hx
  obtain rfl := Option.some.inj hx
  exact .refl y

theorem Same.isSome_get? {a b : Json} (h : Same a b) (key : String) :
    (a.get? key).isSome = (b.get? key).isSome := by
  cases h with
  | refl => rfl
  | arr => rfl
  | obj h _ => exact h key

theorem Same.get? {a b : Json} (h : Same a b) {key : String} {x y : Json}
    (hx : a.get? key = some x) (hy : b.get? key = some y) : Same x y := by
  cases h with
  | refl =>
    rw [hx] at hy
    obtain rfl := Option.some.inj hy
    exact .refl x
  | arr => cases hx
  | obj _ h => exact h key x y hx hy

/-! ## Setting and removing members -/

/-- The member keeps its place if there is one of that name, and is added at the end otherwise. -/
def setMember (key : String) (value : Json) : List (String × Json) → List (String × Json)
  | [] => [(key, value)]
  | (k, v) :: ms => if k = key then (k, value) :: ms else (k, v) :: setMember key value ms

def eraseMember (key : String) (ms : List (String × Json)) : List (String × Json) :=
  ms.filter fun m => m.1 ≠ key

theorem lookup_cons (key k : String) (v : Json) (ms : List (String × Json)) :
    ((k, v) :: ms).lookup key = if key = k then some v else ms.lookup key := by
  rw [List.lookup_cons]
  by_cases h : key = k
  · simp [h]
  · rw [if_neg h, beq_false_of_ne h]

theorem lookup_setMember (key key' : String) (value : Json) (ms : List (String × Json)) :
    (setMember key value ms).lookup key' = if key' = key then some value else ms.lookup key' := by
  induction ms with
  | nil => exact lookup_cons key' key value []
  | cons m ms ih =>
    obtain ⟨k, v⟩ := m
    unfold setMember
    by_cases hk : k = key
    · subst hk
      rw [if_pos rfl, lookup_cons, lookup_cons]
      by_cases h : key' = k <;> simp [h]
    · rw [if_neg hk, lookup_cons, ih, lookup_cons]
      by_cases h : key' = k
      · subst h
        simp [hk]
      · simp [h]

theorem lookup_eraseMember (key key' : String) (ms : List (String × Json)) :
    (eraseMember key ms).lookup key' = if key' = key then none else ms.lookup key' := by
  induction ms with
  | nil => simp [eraseMember]
  | cons m ms ih =>
    obtain ⟨k, v⟩ := m
    unfold eraseMember at ih ⊢
    by_cases hk : k = key
    · rw [List.filter_cons_of_neg (by simp [hk]), ih, lookup_cons, hk]
      by_cases h : key' = key <;> simp [h]
    · rw [List.filter_cons_of_pos (by simp [hk]), lookup_cons, ih, lookup_cons]
      by_cases h : key' = k
      · subst h
        simp [hk]
      · simp [h]

theorem mem_setMember {key : String} {value : Json} {ms : List (String × Json)}
    {m : String × Json} (h : m ∈ setMember key value ms) : m = (key, value) ∨ m ∈ ms := by
  induction ms with
  | nil => exact .inl (List.mem_singleton.1 h)
  | cons m' ms ih =>
    obtain ⟨k, v⟩ := m'
    unfold setMember at h
    split at h
    · rename_i hk
      subst hk
      rcases List.mem_cons.1 h with h | h
      · exact .inl h
      · exact .inr (List.mem_cons_of_mem _ h)
    · rcases List.mem_cons.1 h with h | h
      · exact .inr (h ▸ List.mem_cons_self)
      · exact (ih h).imp_right (List.mem_cons_of_mem _)

theorem nodup_setMember {key : String} {value : Json} : ∀ {ms : List (String × Json)},
    (ms.map Prod.fst).Nodup → ((setMember key value ms).map Prod.fst).Nodup := by
  intro ms
  induction ms with
  | nil => intro _; exact List.nodup_singleton key
  | cons m ms ih =>
    obtain ⟨k, v⟩ := m
    intro h
    unfold setMember
    split
    · exact h
    · rename_i hk
      rw [List.map_cons, List.nodup_cons] at h ⊢
      refine ⟨fun hmem => ?_, ih h.2⟩
      obtain ⟨m, hm, hkey⟩ := List.mem_map.1 hmem
      rcases mem_setMember hm with rfl | hm
      · exact hk hkey.symm
      · exact h.1 (List.mem_map.2 ⟨m, hm, hkey⟩)

/-- A member that is there stays as it is. -/
def defaultMember (key : String) (value : Json) (ms : List (String × Json)) : List (String × Json) :=
  if (ms.lookup key).isSome then ms else setMember key value ms

theorem lookup_defaultMember (key key' : String) (value : Json) (ms : List (String × Json)) :
    (defaultMember key value ms).lookup key' =
      if key' = key then some ((ms.lookup key).getD value) else ms.lookup key' := by
  unfold defaultMember
  cases h : ms.lookup key with
  | some v =>
    simp only [Option.isSome_some, if_true]
    by_cases hk : key' = key
    · rw [if_pos hk, hk, h]
      rfl
    · rw [if_neg hk]
  | none =>
    simp only [Option.isSome_none, Bool.false_eq_true, if_false]
    exact lookup_setMember key key' value ms

def eraseMembers (keys : List String) (ms : List (String × Json)) : List (String × Json) :=
  keys.foldl (fun ms key => eraseMember key ms) ms

theorem lookup_eraseMembers {keys : List String} {key : String} :
    ∀ ms : List (String × Json),
      (eraseMembers keys ms).lookup key = if key ∈ keys then none else ms.lookup key := by
  induction keys with
  | nil => intro ms; rfl
  | cons k keys ih =>
    intro ms
    have hrest := ih (eraseMember k ms)
    rw [lookup_eraseMember] at hrest
    rw [eraseMembers, List.foldl_cons]
    refine hrest.trans ?_
    by_cases hk : key = k <;> by_cases hmem : key ∈ keys <;> simp [hk, hmem]

/-- The member of that name, if there is one, with its value changed. -/
def mapMember (key : String) (f : Json → Json) (ms : List (String × Json)) : List (String × Json) :=
  match ms.lookup key with
  | some value => setMember key (f value) ms
  | none => ms

theorem lookup_mapMember (key key' : String) (f : Json → Json) (ms : List (String × Json)) :
    (mapMember key f ms).lookup key' =
      (ms.lookup key').map fun v => if key' = key then f v else v := by
  unfold mapMember
  cases h : ms.lookup key with
  | none =>
    by_cases hkey : key' = key
    · simp [hkey, h]
    · simp [hkey]
  | some value =>
    rw [lookup_setMember]
    by_cases hkey : key' = key
    · simp [hkey, h]
    · simp [hkey]

theorem keys_setMember (key : String) (value : Json) {v : Json} {ms : List (String × Json)} :
    ms.lookup key = some v → (setMember key value ms).map Prod.fst = ms.map Prod.fst := by
  induction ms with
  | nil => intro h; cases h
  | cons m ms ih =>
    obtain ⟨k, w⟩ := m
    intro h
    rw [lookup_cons] at h
    rw [setMember]
    by_cases hk : k = key
    · rw [if_pos hk, List.map_cons, List.map_cons]
    · rw [if_neg (Ne.symm hk)] at h
      rw [if_neg hk, List.map_cons, List.map_cons, ih h]

theorem keys_mapMember (key : String) (f : Json → Json) (ms : List (String × Json)) :
    (mapMember key f ms).map Prod.fst = ms.map Prod.fst := by
  unfold mapMember
  cases h : ms.lookup key with
  | none => rfl
  | some v => exact keys_setMember key (f v) h

theorem keys_eraseMembers (keys : List String) : ∀ ms : List (String × Json),
    ((eraseMembers keys ms).map Prod.fst).Sublist (ms.map Prod.fst) := by
  induction keys with
  | nil => exact fun ms => List.Sublist.refl _
  | cons key keys ih =>
    intro ms
    exact (ih (eraseMember key ms)).trans (List.filter_sublist.map Prod.fst)

theorem mem_of_lookup {key : String} {v : Json} {ms : List (String × Json)}
    (h : ms.lookup key = some v) : (key, v) ∈ ms := by
  obtain ⟨pre, post, rfl, -⟩ := List.lookup_eq_some_iff.1 h
  exact List.mem_append_right pre List.mem_cons_self

/-- What holds of every value still does, if the change keeps it. -/
theorem forall_mem_mapMember {P : Json → Prop} {key : String} {f : Json → Json}
    {ms : List (String × Json)} (hms : ∀ m ∈ ms, P m.2) (hf : ∀ v, P v → P (f v)) :
    ∀ m ∈ mapMember key f ms, P m.2 := by
  intro m hm
  unfold mapMember at hm
  cases h : ms.lookup key with
  | none =>
    rw [h] at hm
    exact hms m hm
  | some v =>
    rw [h] at hm
    rcases mem_setMember hm with rfl | hm
    · exact hf v (hms (key, v) (mem_of_lookup h))
    · exact hms m hm

theorem setMember_self {key : String} {v : Json} {ms : List (String × Json)} :
    ms.lookup key = some v → setMember key v ms = ms := by
  induction ms with
  | nil => intro h; cases h
  | cons m ms ih =>
    obtain ⟨k, w⟩ := m
    intro h
    rw [lookup_cons] at h
    rw [setMember]
    by_cases hk : key = k
    · rw [if_pos hk] at h
      rw [if_pos hk.symm, Option.some.inj h]
    · rw [if_neg hk] at h
      rw [if_neg (Ne.symm hk), ih h]

/-- A change that changes nothing. -/
theorem mapMember_eq_self {key : String} {f : Json → Json} {ms : List (String × Json)} :
    mapMember key f ms = ms ↔ ∀ v, ms.lookup key = some v → f v = v := by
  constructor
  · intro h v hv
    have hlookup := lookup_mapMember key key f ms
    rw [h, hv, Option.map_some, if_pos rfl] at hlookup
    exact (Option.some.inj hlookup).symm
  · intro h
    unfold mapMember
    cases hv : ms.lookup key with
    | none => rfl
    | some v =>
      have hset := setMember_self hv
      simpa only [h v hv] using hset

theorem mem_eraseMembers {keys : List String} {m : String × Json} :
    ∀ {ms : List (String × Json)}, m ∈ eraseMembers keys ms ↔ m ∈ ms ∧ m.1 ∉ keys := by
  induction keys with
  | nil => intro ms; simp [eraseMembers]
  | cons key keys ih =>
    intro ms
    have hone : m ∈ eraseMember key ms ↔ m ∈ ms ∧ m.1 ≠ key := by simp [eraseMember]
    rw [eraseMembers, List.foldl_cons]
    refine ih.trans ?_
    rw [hone, List.mem_cons, not_or, and_assoc]

theorem eraseMembers_eq_self {keys : List String} :
    ∀ {ms : List (String × Json)}, (∀ m ∈ ms, m.1 ∉ keys) → eraseMembers keys ms = ms := by
  induction keys with
  | nil => intro ms _; rfl
  | cons key keys ih =>
    intro ms h
    have hone : eraseMember key ms = ms := by
      rw [eraseMember, List.filter_eq_self]
      intro m hm
      have hne : m.1 ≠ key := fun heq => h m hm (List.mem_cons.2 (.inl heq))
      exact decide_eq_true hne
    rw [eraseMembers, List.foldl_cons, hone]
    exact ih fun m hm hmem => h m hm (List.mem_cons_of_mem key hmem)

/-- The value of a member, or a default. -/
def member (ms : List (String × Json)) (key : String) (default : Json) : Json :=
  (ms.lookup key).getD default

end Json

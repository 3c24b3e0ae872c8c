import K8sDev.Spec.Widget

/-!
# Conversions of Widgets compose

Every conversion yields an object in one form (`converted`), with all defaults filled in and the
text under the one name of the version; a conversion of such an object only changes the
version (`convert_converted`).

* `path_independent`: so a chain of conversions is the first one followed by the last.
* `round_trip`: to the other version and back fills in the defaults, and changes nothing else.
-/

namespace K8sDev.Widget

open Json

/-- The name of the text in a `spec` of the version. -/
def Version.field : Version → String
  | .v1alpha1 => "label"
  | .v1beta1 => "displayName"

def Version.other : Version → Version
  | .v1alpha1 => .v1beta1
  | .v1beta1 => .v1alpha1

/-- Conversion to a version. -/
def convertTo (x : Json) (d : Version) : Except AttributeError Json :=
  convertObject x (.str d.apiVersion)

/-- What a conversion yields. -/
def converted (d : Version) (kind metadata text replicas : Json) (status : Option Json) : Json :=
  .obj ([("apiVersion", .str d.apiVersion), ("kind", kind), ("metadata", metadata),
    ("spec", .obj [(d.field, text), ("replicas", replicas)])] ++
    (status.map fun status => ("status", status)).toList)

/-- The object has no `spec`, or one that is an object: these members. -/
def HasSpec (members spec : List (String × Json)) : Prop :=
  member members "spec" (.obj []) = .obj spec

theorem hasSpec_of_lookup {members spec : List (String × Json)}
    (h : members.lookup "spec" = some (.obj spec)) : HasSpec members spec := by
  unfold HasSpec member
  rw [h]
  rfl

theorem hasSpec_of_none {members : List (String × Json)}
    (h : members.lookup "spec" = none) : HasSpec members [] := by
  unfold HasSpec member
  rw [h]
  rfl

theorem endswith_apiVersion (d : Version) :
    pyEndswith (.str d.apiVersion) "/v1beta1" = .ok (decide (d = .v1beta1)) := by
  cases d <;> rfl

/-- **A conversion in closed form.** -/
theorem convert_eq {members spec : List (String × Json)} (h : HasSpec members spec) (d : Version) :
    convertTo (.obj members) d = .ok (converted d (member members "kind" (.str "Widget"))
      (member members "metadata" (.obj []))
      (member spec d.field (member spec d.other.field (.str ""))) (member spec "replicas" (.num 1))
      (members.lookup "status")) := by
  have hspec : pyGet (.obj members) "spec" (.obj []) = .ok (.obj spec) := congrArg Except.ok h
  unfold convertTo convertObject
  rw [hspec, endswith_apiVersion]
  cases d <;> cases hstatus : members.lookup "status" <;>
    simp [convertSpec, pyGet, converted, Version.field, Version.other, hstatus, bind, Except.bind,
      pure, Except.pure]

/-- Converting what is converted changes the version only. -/
theorem convert_converted (d d' : Version) (kind metadata text replicas : Json)
    (status : Option Json) :
    convertTo (converted d kind metadata text replicas status) d' =
      .ok (converted d' kind metadata text replicas status) := by
  unfold converted
  rw [@convert_eq _ [(d.field, text), ("replicas", replicas)]]
  · cases d <;> cases d' <;> cases status <;> rfl
  · rfl

theorem convert_chain (ds : List Version) : ∀ (d d' : Version) (kind metadata text replicas : Json)
    (status : Option Json),
    (ds ++ [d']).foldlM convertTo (converted d kind metadata text replicas status) =
      .ok (converted d' kind metadata text replicas status) := by
  induction ds with
  | nil =>
    intro d d' kind metadata text replicas status
    rw [List.nil_append, List.foldlM_cons, convert_converted]
    rfl
  | cons d₁ ds ih =>
    intro d d' kind metadata text replicas status
    rw [List.cons_append, List.foldlM_cons, convert_converted]
    exact ih d₁ d' kind metadata text replicas status

/-- **Path independence.** Whatever versions an object goes through, only the first and the last
count; back in the first version it is as after the first conversion. -/
theorem path_independent {members : List (String × Json)}
    (hspec : ∀ v, members.lookup "spec" = some v → ∃ spec, v = .obj spec) (d₁ : Version)
    (ds : List Version) (d : Version) :
    ∃ y z, convertTo (.obj members) d₁ = .ok y ∧ convertTo y d = .ok z ∧
      (d₁ :: ds ++ [d]).foldlM convertTo (.obj members) = .ok z ∧
      (d₁ :: ds ++ [d₁]).foldlM convertTo (.obj members) = .ok y := by
  obtain ⟨spec, h⟩ : ∃ spec, HasSpec members spec := by
    cases hlookup : members.lookup "spec" with
    | none => exact ⟨[], hasSpec_of_none hlookup⟩
    | some v =>
      obtain ⟨spec, rfl⟩ := hspec v hlookup
      exact ⟨spec, hasSpec_of_lookup hlookup⟩
  refine ⟨_, _, convert_eq h d₁, convert_converted .., ?_, ?_⟩
  · rw [List.cons_append, List.foldlM_cons, convert_eq h]
    exact convert_chain ds ..
  · rw [List.cons_append, List.foldlM_cons, convert_eq h]
    exact convert_chain ds ..

/-- An object with both texts, through both versions. -/
def ambiguous : List (String × Json) :=
  [("metadata", .obj [("name", .str "w")]),
    ("spec", .obj [("displayName", .str "b"), ("label", .str "a")]), ("status", .obj [])]

theorem path_independent_ambiguous :
    [Version.v1alpha1, .v1beta1, .v1beta1, .v1alpha1].foldlM convertTo (.obj ambiguous) =
      convertTo (.obj ambiguous) .v1alpha1 := by
  obtain ⟨y, z, hy, -, -, h⟩ := @path_independent ambiguous
    (fun v hv => ⟨_, (Option.some.inj hv).symm⟩) .v1alpha1 [.v1beta1, .v1beta1] .v1beta1
  exact h.trans hy.symm

/-! ## Valid objects -/

theorem lookup_eq_none {names : List String} {members : List (String × Json)}
    (h : ∀ m ∈ members, m.1 ∈ names) {key : String} (hkey : key ∉ names) :
    members.lookup key = none := by
  rw [List.lookup_eq_none_iff]
  intro m hm
  rw [bne_iff_ne]
  rintro rfl
  exact hkey (h m hm)

/-- What a valid object holds. -/
structure Fields (d : Version) (members : List (String × Json)) : Prop where
  apiVersion : members.lookup "apiVersion" = some (.str d.apiVersion)
  kind : members.lookup "kind" = some (.str "Widget")
  metadata : (members.lookup "metadata").isSome
  spec : ∀ v, members.lookup "spec" = some v → ∃ spec, v = .obj spec ∧
    (spec.lookup d.field).isSome ∧ ∀ key, key ≠ d.field → key ≠ "replicas" → spec.lookup key = none
  rest : ∀ key, key ∉ ["apiVersion", "kind", "metadata", "spec", "status"] → members.lookup key = none

/-- The two schemas differ in the name of the text. -/
theorem schema_eq (d : Version) : d.schema =
    [("spec", .object [d.field] [(d.field, .string), ("replicas", .integer 1)] false),
      ("status", .any)] := by
  cases d <;> rfl

theorem fields_of_valid {d : Version} {x : Json} (h : d.Valid x) :
    ∃ members, x = .obj members ∧ Fields d members := by
  obtain ⟨hversion, hkind, haccepts⟩ := h
  rw [schema_eq, accepts_object] at haccepts
  obtain ⟨members, rfl, hrequired, hproperties, hknown⟩ := haccepts
  refine ⟨members, rfl, hversion, hkind, hrequired "metadata" (by simp), ?_, fun key hkey => ?_⟩
  · intro v hv
    have hspec := hproperties ("spec", .object [d.field] [(d.field, .string), ("replicas", .integer 1)]
      false) (by simp) v hv
    obtain ⟨spec, rfl, hfield, -, hknown⟩ := accepts_object.1 hspec
    refine ⟨spec, rfl, hfield d.field List.mem_cons_self, fun key hkey hkey' => ?_⟩
    refine lookup_eq_none (hknown.resolve_left Bool.false_ne_true) ?_
    simp [hkey, hkey']
  · exact lookup_eq_none (hknown.resolve_left Bool.false_ne_true) hkey

/-! ## There and back -/

/-- The object with the defaults of `convert_object` filled in. -/
def withDefaults (d : Version) (members : List (String × Json)) : Json :=
  let spec := match members.lookup "spec" with
    | some (.obj spec) => spec
    | _ => []
  .obj (setMember "spec"
    (.obj (defaultMember "replicas" (.num 1) (defaultMember d.field (.str "") spec))) members)

/-- To the other version and back. -/
def backAndForth (x : Json) (d : Version) : Except AttributeError Json := do
  let y ← convertTo x d.other
  convertTo y d

theorem lookup_converted (d : Version) (kind metadata text replicas : Json) (status : Option Json)
    (key : String) : (converted d kind metadata text replicas status).get? key =
      if key = "apiVersion" then some (.str d.apiVersion) else
      if key = "kind" then some kind else
      if key = "metadata" then some metadata else
      if key = "spec" then some (.obj [(d.field, text), ("replicas", replicas)]) else
      if key = "status" then status else none := by
  unfold converted
  cases status <;> simp [lookup_cons]

theorem spec_converted (d : Version) (kind metadata text replicas : Json) (status : Option Json) :
    (converted d kind metadata text replicas status).get? "spec" =
      some (.obj [(d.field, text), ("replicas", replicas)]) := by
  rw [lookup_converted]
  rfl

theorem other_field_ne (d : Version) : d.other.field ≠ d.field ∧ d.other.field ≠ "replicas" := by
  cases d <;> decide

theorem field_ne_replicas (d : Version) : "replicas" ≠ d.field := by
  cases d <;> decide

/-- A converted object and an object with these members, the `spec` member by member. -/
theorem same_converted {d : Version} {kind metadata text replicas : Json} {status : Option Json}
    {ns spec : List (String × Json)}
    (hrest : ∀ key, key ≠ "spec" →
      (converted d kind metadata text replicas status).get? key = ns.lookup key)
    (hspec : ns.lookup "spec" = some (.obj spec))
    (htext : spec.lookup d.field = some text) (hreplicas : spec.lookup "replicas" = some replicas)
    (hknown : ∀ key, key ≠ d.field → key ≠ "replicas" → spec.lookup key = none) :
    Same (converted d kind metadata text replicas status) (.obj ns) := by
  have hz := spec_converted d kind metadata text replicas status
  have hsame : Same (.obj [(d.field, text), ("replicas", replicas)]) (.obj spec) := by
    refine .of_lookup fun key => ?_
    rw [lookup_cons, lookup_cons]
    split
    · rename_i h
      rw [h, htext]
    · split
      · rename_i h
        rw [h, hreplicas]
      · rename_i h h'
        exact (hknown key h h').symm
  refine .obj (fun key => ?_) fun key x y hx hy => ?_
  · by_cases hkey : key = "spec"
    · subst hkey
      rw [hspec]
      exact (congrArg Option.isSome hz).trans rfl
    · exact congrArg Option.isSome (hrest key hkey)
  · by_cases hkey : key = "spec"
    · subst hkey
      obtain rfl := Option.some.inj (hx.symm.trans hz)
      obtain rfl := Option.some.inj (hy.symm.trans hspec)
      exact hsame
    · obtain rfl := Option.some.inj (hx.symm.trans ((hrest key hkey).trans hy))
      exact .refl x

/-- The members of the `spec` that are read. -/
theorem spec_of_fields {d : Version} {members : List (String × Json)} (h : Fields d members) :
    ∃ spec, HasSpec members spec ∧
      withDefaults d members = .obj (setMember "spec" (.obj (defaultMember "replicas" (.num 1)
        (defaultMember d.field (.str "") spec))) members) ∧
      (∀ key, key ≠ d.field → key ≠ "replicas" → spec.lookup key = none) ∧
      (∀ v, members.lookup "spec" = some v → v = .obj spec ∧ (spec.lookup d.field).isSome) := by
  unfold HasSpec member withDefaults
  cases hlookup : members.lookup "spec" with
  | none => exact ⟨[], rfl, rfl, fun _ _ _ => rfl, nofun⟩
  | some v =>
    obtain ⟨spec, rfl, hfield, hknown⟩ := h.spec v hlookup
    refine ⟨spec, rfl, rfl, hknown, fun v hv => ?_⟩
    exact ⟨(Option.some.inj hv).symm, hfield⟩

/-- Conversion carries over the names other than `spec`. -/
theorem get?_carried {d : Version} {members : List (String × Json)} (h : Fields d members)
    (text replicas : Json) {key : String} (hkey : key ≠ "spec") :
    (converted d (member members "kind" (.str "Widget")) (member members "metadata" (.obj []))
      text replicas (members.lookup "status")).get? key = members.lookup key := by
  obtain ⟨metadata, hmetadata⟩ := Option.isSome_iff_exists.1 h.metadata
  rw [lookup_converted, member, member, h.kind, hmetadata]
  split_ifs with h1 h2 h3 h4
  · rw [h1, h.apiVersion]
  · rw [h2, h.kind]
    rfl
  · rw [h3, hmetadata]
    rfl
  · rw [h4]
  · refine (h.rest key ?_).symm
    simp only [List.mem_cons, List.not_mem_nil, or_false, not_or]
    exact ⟨h1, h2, h3, hkey, h4⟩

/-- There and back in closed form. -/
theorem backAndForth_eq {d : Version} {members spec : List (String × Json)}
    (hspec : HasSpec members spec) (hother : spec.lookup d.other.field = none) :
    backAndForth (.obj members) d = .ok (converted d (member members "kind" (.str "Widget"))
      (member members "metadata" (.obj [])) (member spec d.field (.str ""))
      (member spec "replicas" (.num 1)) (members.lookup "status")) := by
  have htext : member spec d.other.field (member spec d.field (.str "")) =
      member spec d.field (.str "") := by
    rw [member, hother]
    rfl
  have htwice : d.other.other = d := by cases d <;> rfl
  unfold backAndForth
  rw [convert_eq hspec, htwice, htext]
  exact convert_converted ..

/-- What comes back has a `spec` with replicas. -/
theorem replicas_of_same {d : Version} {kind metadata text replicas : Json} {status : Option Json}
    {x : Json} (hsame : Same (converted d kind metadata text replicas status) x) :
    ∃ spec, x.get? "spec" = some spec ∧ (spec.get? "replicas").isSome := by
  have hz := spec_converted d kind metadata text replicas status
  have hsome := hsame.isSome_get? "spec"
  rw [hz] at hsome
  obtain ⟨v, hv⟩ := Option.isSome_iff_exists.1 hsome.symm
  have hinner := (hsame.get? hz hv).isSome_get? "replicas"
  refine ⟨v, hv, hinner.symm.trans ?_⟩
  rw [get?_obj, lookup_cons, if_neg (field_ne_replicas d), lookup_cons, if_pos rfl]
  rfl

/-- **The round trip fills in defaults and changes nothing else**, for an object as the API server
stores it (`Version.Valid`); a field that pruning removes need not come back. -/
theorem round_trip {d : Version} {x : Json} (h : d.Valid x) :
    ∃ members z, x = .obj members ∧ backAndForth x d = .ok z ∧ Same z (withDefaults d members) ∧
      (Same z x ↔ ∃ spec, x.get? "spec" = some spec ∧ (spec.get? "replicas").isSome) := by
  obtain ⟨members, rfl, hfields⟩ := fields_of_valid h
  obtain ⟨spec, hspec, hwith, hknown, hpresent⟩ := spec_of_fields hfields
  refine ⟨members, _, rfl, backAndForth_eq hspec
    (hknown d.other.field (other_field_ne d).1 (other_field_ne d).2), ?_, ?_⟩
  · rw [hwith]
    have hset := lookup_setMember "spec" "spec" (.obj (defaultMember "replicas" (.num 1)
      (defaultMember d.field (.str "") spec))) members
    rw [if_pos rfl] at hset
    refine same_converted (fun key hkey => ?_) hset ?_ ?_ ?_
    · rw [lookup_setMember, if_neg hkey]
      exact get?_carried hfields _ _ hkey
    · rw [lookup_defaultMember, if_neg (field_ne_replicas d).symm, lookup_defaultMember, if_pos rfl]
      rfl
    · rw [lookup_defaultMember, if_pos rfl, lookup_defaultMember, if_neg (field_ne_replicas d)]
      rfl
    · intro key hkey hkey'
      rw [lookup_defaultMember, if_neg hkey', lookup_defaultMember, if_neg hkey]
      exact hknown key hkey hkey'
  · constructor
    · exact replicas_of_same
    · rintro ⟨v, hv, hreplicas⟩
      obtain ⟨rfl, hfield⟩ := hpresent v hv
      obtain ⟨text, htext'⟩ := Option.isSome_iff_exists.1 hfield
      obtain ⟨replicas, hreplicas'⟩ := Option.isSome_iff_exists.1 hreplicas
      refine same_converted (fun key hkey => get?_carried hfields _ _ hkey) hv ?_ ?_ hknown
      · rw [member, htext']
        rfl
      · rw [member, show spec.lookup "replicas" = some replicas from hreplicas']
        rfl

/-- A valid object without replicas. -/
def bare : Json :=
  .obj [("apiVersion", .str "example.jimyag.com/v1alpha1"), ("kind", .str "Widget"),
    ("metadata", .obj [("name", .str "w")]), ("spec", .obj [("label", .str "a")])]

/-- It comes back with one. -/
theorem bare_gains_replicas : Version.v1alpha1.Valid bare ∧
    ∃ z, backAndForth bare .v1alpha1 = .ok z ∧ ¬ Same z bare := by
  refine ⟨⟨rfl, rfl, by decide⟩, _, rfl, fun h => ?_⟩
  have hspec := @Same.get? _ _ h "spec" _ _ rfl rfl
  have := hspec.isSome_get? "replicas"
  exact absurd this (by decide)

theorem round_trip_bare : ∃ members z, bare = .obj members ∧ backAndForth bare .v1alpha1 = .ok z ∧
    Same z (withDefaults .v1alpha1 members) := by
  obtain ⟨members, z, hx, hz, hsame, -⟩ := round_trip (d := .v1alpha1) (x := bare) ⟨rfl, rfl, by decide⟩
  exact ⟨members, z, hx, hz, hsame⟩

end K8sDev.Widget

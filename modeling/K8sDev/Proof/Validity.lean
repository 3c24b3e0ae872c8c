import K8sDev.Proof.Conversion

/-!
# Conversions of valid Widgets are valid

`convert_object` takes the text from either name, so a field under the name of the other version,
which the schema does not know and pruning removes, counts more than the text itself.

* `valid_converted`: when what a conversion yields is valid.
* `conversion_valid`: a valid Widget is converted to a valid one with its text and replicas unless
  it has such a field; one that was pruned has none.
-/

namespace K8sDev.Widget

open Json

variable {d : Version} {x y kind metadata text replicas : Json} {status : Option Json}
  {members : List (String × Json)}

/-- **When what a conversion yields is valid.** -/
theorem valid_converted : d.Valid (converted d kind metadata text replicas status) ↔
    kind = .str "Widget" ∧ Schema.any.accepts metadata ∧ Schema.string.accepts text ∧
      (Schema.integer 1).accepts replicas ∧ ∀ v, status = some v → Schema.any.accepts v := by
  have hkey : (converted d kind metadata text replicas status).get? "kind" = some kind := by
    rw [lookup_converted]
    rfl
  by_cases hkind : kind = .str "Widget"
  · subst hkind
    unfold Version.Valid converted
    rw [schema_eq]
    cases d <;> cases status <;>
      simp [Schema.accepts, acceptsProperties, acceptsProperty, lookup_cons, Version.field, and_assoc]
  · constructor
    · rintro ⟨-, hvalid, -⟩
      rw [hkey] at hvalid
      exact absurd (Option.some.inj hvalid) hkind
    · rintro ⟨heq, -⟩
      exact absurd heq hkind

/-! ## What validation says -/

mutual

/-- A value that is valid and has nothing to prune is valid without pruning. -/
theorem preserving_accepts {value : Json} :
    ∀ schema : Schema, schema.accepts value = true → schema.preserving.accepts value = true
  | .string => id
  | .integer _ => id
  | .object required properties preserveUnknown => by
    intro h
    obtain ⟨members, rfl, hrequired, hproperties, -⟩ := accepts_object.1 h
    rw [Schema.preserving]
    refine accepts_object.2 ⟨members, rfl, hrequired, ?_, .inl rfl⟩
    exact preserving_properties properties hproperties

theorem preserving_properties {members : List (String × Json)} :
    ∀ properties : List (String × Schema),
      (∀ p ∈ properties, ∀ v, members.lookup p.1 = some v → p.2.accepts v = true) →
      ∀ p ∈ preservingProperties properties, ∀ v, members.lookup p.1 = some v →
        p.2.accepts v = true
  | [] => by
    intro _ p hp
    cases hp
  | (name, schema) :: properties => by
    intro h p hp v hv
    rcases List.mem_cons.1 hp with rfl | hp
    · exact preserving_accepts schema (h (name, schema) List.mem_cons_self v hv)
    · exact preserving_properties properties (fun q hq => h q (List.mem_cons_of_mem _ hq)) p hp v hv

end

/-- **Valid Widgets pass validation.** -/
theorem validates_of_valid (h : d.Valid x) : d.Validates x :=
  ⟨h.1, h.2.1, preserving_accepts _ h.2.2⟩

/-- What validation says of the members. -/
structure Validated (d : Version) (members : List (String × Json)) : Prop where
  kind : members.lookup "kind" = some (.str "Widget")
  metadata : ∃ metadata, members.lookup "metadata" = some metadata ∧ Schema.any.accepts metadata
  spec : ∀ v, members.lookup "spec" = some v → ∃ spec, v = .obj spec ∧
    (∃ text, spec.lookup d.field = some (.str text)) ∧
    ∀ replicas, spec.lookup "replicas" = some replicas → (Schema.integer 1).accepts replicas
  status : ∀ v, members.lookup "status" = some v → Schema.any.accepts v

theorem validated_of_validates (h : d.Validates x) :
    ∃ members, x = .obj members ∧ Validated d members := by
  obtain ⟨-, hkind, haccepts⟩ := h
  rw [schema_eq, Schema.preserving, accepts_object] at haccepts
  obtain ⟨members, rfl, hrequired, hproperties, -⟩ := haccepts
  have hany : Schema.any.preserving = Schema.any := rfl
  refine ⟨members, rfl, hkind, ?_, ?_, ?_⟩
  · obtain ⟨metadata, hmetadata⟩ := Option.isSome_iff_exists.1 (hrequired "metadata" (by simp))
    refine ⟨metadata, hmetadata, ?_⟩
    exact hproperties ("metadata", .any) (by simp [preservingProperties, preservingProperty, hany])
      metadata hmetadata
  · intro v hv
    have hspec := hproperties ("spec", .object [d.field] [(d.field, .string), ("replicas", .integer 1)]
      true) (by simp [preservingProperties, preservingProperty, Schema.preserving]) v hv
    obtain ⟨spec, rfl, hfield, hparts, -⟩ := accepts_object.1 hspec
    refine ⟨spec, rfl, ?_, fun replicas hreplicas => ?_⟩
    · obtain ⟨text, htext⟩ := Option.isSome_iff_exists.1 (hfield d.field List.mem_cons_self)
      have hstring := hparts (d.field, .string) List.mem_cons_self text htext
      cases text with
      | str s => exact ⟨s, htext⟩
      | null | bool | num | arr | obj => cases hstring
    · exact hparts ("replicas", .integer 1) (by simp) replicas hreplicas
  · intro v hv
    exact hproperties ("status", .any) (by simp [preservingProperties, preservingProperty, hany]) v hv

/-! ## The conversion -/

/-- `y` is a valid object of the other version with the text and the replicas of `x`. -/
structure Preserved (d : Version) (x y : Json) : Prop where
  valid : d.other.Valid y
  text : ∀ text, x.path? ["spec", d.field] = some text →
    y.path? ["spec", d.other.field] = some text
  replicas : ∀ replicas, x.path? ["spec", "replicas"] = some replicas →
    y.path? ["spec", "replicas"] = some replicas

theorem path?_spec {members spec : List (String × Json)}
    (h : members.lookup "spec" = some (.obj spec)) (key : String) :
    (Json.obj members).path? ["spec", key] = spec.lookup key := by
  rw [path?_cons, get?_obj, h, Option.bind_some, path?_singleton, get?_obj]

theorem path?_no_spec (h : members.lookup "spec" = none) (key : String) :
    (Json.obj members).path? ["spec", key] = none := by
  rw [path?_cons, get?_obj, h, Option.bind_none]

theorem path?_converted (key : String) :
    (converted d kind metadata text replicas status).path? ["spec", key] =
      if key = d.field then some text else if key = "replicas" then some replicas else none := by
  rw [path?_cons, spec_converted, Option.bind_some, path?_singleton, get?_obj, lookup_cons, lookup_cons]
  rfl

/-- **The conversion of a validated object**, by the `spec` that is read. -/
theorem preserved_converted {spec : List (String × Json)} (h : Validated d members)
    (hspec : HasSpec members spec)
    (htext : Schema.string.accepts (member spec d.other.field (member spec d.field (.str ""))))
    (hreplicas : ∀ replicas, spec.lookup "replicas" = some replicas →
      (Schema.integer 1).accepts replicas) :
    ∃ y, convertTo (.obj members) d.other = .ok y ∧ d.other.Valid y ∧
      (∀ key, y.path? ["spec", key] = if key = d.other.field then
          some (member spec d.other.field (member spec d.field (.str "")))
        else if key = "replicas" then some (member spec "replicas" (.num 1)) else none) := by
  have hother : d.other.other = d := by cases d <;> rfl
  have heq := convert_eq hspec d.other
  rw [hother] at heq
  refine ⟨_, heq, valid_converted.2 ⟨?_, ?_, htext, ?_, h.status⟩, fun key => path?_converted key⟩
  · rw [member, h.kind]
    rfl
  · obtain ⟨metadata, hmetadata, haccepts⟩ := h.metadata
    rw [member, hmetadata]
    exact haccepts
  · unfold member
    cases hlookup : spec.lookup "replicas" with
    | none => rfl
    | some replicas => exact hreplicas replicas hlookup

theorem replicas_ne_other (d : Version) : "replicas" ≠ d.other.field := by
  cases d <;> decide

/-- Without a `spec` there is nothing to preserve. -/
theorem preserved_no_spec (h : Validated d members) (hlookup : members.lookup "spec" = none) :
    ∃ y, convertTo (.obj members) d.other = .ok y ∧ Preserved d (.obj members) y := by
  have hnothing : ∀ key v, (Json.obj members).path? ["spec", key] ≠ some v := by
    intro key v hv
    rw [path?_no_spec hlookup] at hv
    cases hv
  have hnone : ∀ replicas, List.lookup "replicas" ([] : List (String × Json)) = some replicas →
      (Schema.integer 1).accepts replicas := by
    intro replicas hreplicas
    cases hreplicas
  obtain ⟨y, hy, hvalid, -⟩ := preserved_converted h (hasSpec_of_none hlookup) rfl hnone
  exact ⟨y, hy, hvalid, fun text htext => absurd htext (hnothing _ text),
    fun replicas hreplicas => absurd hreplicas (hnothing _ replicas)⟩

/-- What is under the other name is taken, so it is the text. -/
theorem same_of_preserved {spec : List (String × Json)} {v : Json}
    (hlookup : members.lookup "spec" = some (.obj spec)) (hy : convertTo (.obj members) d.other = .ok y)
    (h : Preserved d (.obj members) y) {text : Json} (htext : spec.lookup d.field = some text)
    (hv : spec.lookup d.other.field = some v) : v = text := by
  have hother : d.other.other = d := by cases d <;> rfl
  have htaken : member spec d.other.field (member spec d.field (.str "")) = v := by
    rw [member, hv]
    rfl
  have heq := convert_eq (hasSpec_of_lookup hlookup) d.other
  rw [hother, htaken] at heq
  obtain rfl := Except.ok.inj (heq.symm.trans hy)
  have hkept := h.text text (by rw [path?_spec hlookup, htext])
  rw [path?_converted, if_pos rfl] at hkept
  exact Option.some.inj hkept

/-- With the same text, or nothing, under the other name the text is preserved. -/
theorem preserved_of_same {spec : List (String × Json)} {s : String} (h : Validated d members)
    (hlookup : members.lookup "spec" = some (.obj spec)) (hs : spec.lookup d.field = some (.str s))
    (hreplicas : ∀ replicas, spec.lookup "replicas" = some replicas →
      (Schema.integer 1).accepts replicas)
    (hsame : ∀ v, spec.lookup d.other.field = some v → v = .str s) :
    ∃ y, convertTo (.obj members) d.other = .ok y ∧ Preserved d (.obj members) y := by
  have htext : member spec d.other.field (member spec d.field (.str "")) = .str s := by
    unfold member
    cases hv : spec.lookup d.other.field with
    | none =>
      rw [hs]
      rfl
    | some v => exact hsame v hv
  have haccepts : Schema.string.accepts
      (member spec d.other.field (member spec d.field (.str ""))) := by
    rw [htext]
    rfl
  obtain ⟨y, hy, hvalid, hpath⟩ :=
    preserved_converted h (hasSpec_of_lookup hlookup) haccepts hreplicas
  refine ⟨y, hy, hvalid, ?_, ?_⟩
  · intro text hfield
    rw [path?_spec hlookup] at hfield
    rw [hpath, if_pos rfl, htext, ← hs, hfield]
  · intro replicas hkey
    rw [path?_spec hlookup] at hkey
    rw [hpath, if_neg (replicas_ne_other d), if_pos rfl, member, hkey]
    rfl

/-- Pruning has left nothing under the other name. -/
theorem no_other_of_valid (h : d.Valid (.obj members)) (v : Json) :
    (Json.obj members).path? ["spec", d.other.field] ≠ some v := by
  obtain ⟨members', heq, hfields⟩ := fields_of_valid h
  obtain rfl : members = members' := by simpa using heq
  intro hv
  cases hlookup : members.lookup "spec" with
  | none =>
    rw [path?_no_spec hlookup] at hv
    cases hv
  | some w =>
    obtain ⟨spec, rfl, -, hknown⟩ := hfields.spec w hlookup
    rw [path?_spec hlookup, hknown _ (other_field_ne d).1 (other_field_ne d).2] at hv
    cases hv

/-- **When a conversion preserves validity and the text**: unless the `spec` has another text under
the name of the other version, which the schema of its own does not name. Validation alone lets such
a field pass (`Version.Validates`); a Widget without fields that pruning would remove
(`Version.Valid`) has none. -/
theorem conversion_valid (h : d.Validates x) :
    ((∃ y, convertTo x d.other = .ok y ∧ Preserved d x y) ↔
      ∀ v, x.path? ["spec", d.other.field] = some v → x.path? ["spec", d.field] = some v) ∧
    (d.Valid x → ∃ y, convertTo x d.other = .ok y ∧ Preserved d x y) := by
  obtain ⟨members, rfl, hvalidated⟩ := validated_of_validates h
  have hiff : (∃ y, convertTo (.obj members) d.other = .ok y ∧ Preserved d (.obj members) y) ↔
      ∀ v, (Json.obj members).path? ["spec", d.other.field] = some v →
        (Json.obj members).path? ["spec", d.field] = some v := by
    cases hlookup : members.lookup "spec" with
    | none =>
      refine iff_of_true (preserved_no_spec hvalidated hlookup) fun v hv => ?_
      rw [path?_no_spec hlookup] at hv
      cases hv
    | some v =>
      obtain ⟨spec, rfl, ⟨s, hs⟩, hreplicas⟩ := hvalidated.spec v hlookup
      simp only [path?_spec hlookup]
      constructor
      · rintro ⟨y, hy, hpreserved⟩ v hv
        rw [same_of_preserved hlookup hy hpreserved hs hv]
        exact hs
      · intro hsame
        refine preserved_of_same hvalidated hlookup hs hreplicas fun v hv => ?_
        exact Option.some.inj ((hsame v hv).symm.trans hs)
  refine ⟨hiff, fun hvalid => hiff.2 fun v hv => ?_⟩
  exact absurd hv (no_other_of_valid hvalid v)

/-- A Widget with a number under the name of the other version. -/
def mislabelled : Json :=
  .obj [("apiVersion", .str "example.jimyag.com/v1alpha1"), ("kind", .str "Widget"),
    ("metadata", .obj []), ("spec", .obj [("label", .str "a"), ("displayName", .num 5)])]

/-- It passes validation, and its conversion does not. -/
theorem mislabelled_invalid : Version.v1alpha1.Validates mislabelled ∧
    ∃ y, convertTo mislabelled .v1beta1 = .ok y ∧ ¬ Version.v1beta1.Validates y := by
  refine ⟨⟨rfl, rfl, by decide⟩, _, rfl, ?_⟩
  rintro ⟨-, -, haccepts⟩
  revert haccepts
  decide

theorem conversion_valid_bare : ∃ y, convertTo bare .v1beta1 = .ok y ∧
    Preserved .v1alpha1 bare y := by
  have hvalid : Version.v1alpha1.Valid bare := ⟨rfl, rfl, by decide⟩
  exact (conversion_valid (validates_of_valid hvalid)).2 hvalid

end K8sDev.Widget

import K8sDev.Json.Value

/-!
# Conversion of Widgets

`convert_object` of the conversion webhook, and the schemas of the two versions of the CRD. A
Python dict is an object, and `d.get` takes the member of the name.
-/

namespace K8sDev.Widget

/-- `GROUP`. -/
def group : String := "example.jimyag.com"

inductive Version
  | v1alpha1
  | v1beta1
deriving DecidableEq, Repr

def Version.apiVersion : Version → String
  | .v1alpha1 => group ++ "/v1alpha1"
  | .v1beta1 => group ++ "/v1beta1"

/-! ## `convert_object` -/

/-- `AttributeError`: the value has no such attribute. -/
structure AttributeError where
  value : Json
  name : String

/-- `d.get(key, default)`. -/
def pyGet (d : Json) (key : String) (default : Json) : Except AttributeError Json :=
  match d with
  | .obj members => .ok (Json.member members key default)
  | _ => .error ⟨d, "get"⟩

/-- `s.endswith(suffix)`. -/
def pyEndswith (s : Json) (suffix : String) : Except AttributeError Bool :=
  match s with
  | .str s => .ok (suffix.toList.isSuffixOf s.toList)
  | _ => .error ⟨s, "endswith"⟩

/-- The `spec` of the converted object: `name` for the text, `other` where it may be found. -/
def convertSpec (spec : Json) (name other : String) : Except AttributeError Json := do
  let found ← pyGet spec other (.str "")
  let text ← pyGet spec name found
  let replicas ← pyGet spec "replicas" (.num 1)
  return .obj [(name, text), ("replicas", replicas)]

/-- `convert_object`. -/
def convertObject (obj desired : Json) : Except AttributeError Json := do
  let kind ← pyGet obj "kind" (.str "Widget")
  let metadata ← pyGet obj "metadata" (.obj [])
  let spec ← pyGet obj "spec" (.obj [])
  let beta ← pyEndswith desired "/v1beta1"
  let convertedSpec ←
    if beta then convertSpec spec "displayName" "label" else convertSpec spec "label" "displayName"
  let converted :=
    [("apiVersion", desired), ("kind", kind), ("metadata", metadata), ("spec", convertedSpec)]
  match obj.get? "status" with
  | some status => return .obj (converted ++ [("status", status)])
  | none => return .obj converted

/-! ## The schemas -/

/-- The part of an OpenAPI schema that the CRD uses. -/
inductive Schema
  | string
  | integer (minimum : Int)
  | object (required : List String) (properties : List (String × Schema)) (preserveUnknown : Bool)

mutual

/-- The value is valid and has no field that pruning would remove. -/
def Schema.accepts : Schema → Json → Bool
  | .string, value =>
    match value with
    | .str _ => true
    | _ => false
  | .integer minimum, value =>
    match value with
    | .num n => n.den = 1 && minimum ≤ n.num
    | _ => false
  | .object required properties preserveUnknown, value =>
    match value with
    | .obj members =>
      required.all (fun key => (members.lookup key).isSome) &&
        acceptsProperties properties members &&
        (preserveUnknown || members.all fun m => (properties.map Prod.fst).contains m.1)
    | _ => false

def acceptsProperties : List (String × Schema) → List (String × Json) → Bool
  | [], _ => true
  | property :: properties, members =>
    acceptsProperty property members && acceptsProperties properties members

def acceptsProperty : String × Schema → List (String × Json) → Bool
  | (name, schema), members =>
    match members.lookup name with
    | some value => schema.accepts value
    | none => true

end

theorem acceptsProperties_iff {members : List (String × Json)} :
    ∀ {properties : List (String × Schema)}, acceptsProperties properties members = true ↔
      ∀ p ∈ properties, ∀ v, members.lookup p.1 = some v → p.2.accepts v = true := by
  intro properties
  induction properties with
  | nil => simp [acceptsProperties]
  | cons p properties ih =>
    rw [acceptsProperties, Bool.and_eq_true, ih, List.forall_mem_cons]
    refine and_congr_left fun _ => ?_
    obtain ⟨name, schema⟩ := p
    rw [acceptsProperty]
    cases members.lookup name with
    | none => simp
    | some v => simp

/-- What an object schema accepts. -/
theorem accepts_object {required : List String} {properties : List (String × Schema)}
    {preserveUnknown : Bool} {value : Json} :
    (Schema.object required properties preserveUnknown).accepts value = true ↔
      ∃ members, value = .obj members ∧ (∀ key ∈ required, (members.lookup key).isSome) ∧
        (∀ p ∈ properties, ∀ v, members.lookup p.1 = some v → p.2.accepts v = true) ∧
        (preserveUnknown = true ∨ ∀ m ∈ members, m.1 ∈ properties.map Prod.fst) := by
  cases value with
  | obj members =>
    simp only [Schema.accepts, Bool.and_eq_true, Bool.or_eq_true, acceptsProperties_iff,
      List.all_eq_true, List.contains_iff_mem, and_assoc, Json.obj.injEq, exists_eq_left']
  | _ => simp [Schema.accepts]

/-- An object of any kind. -/
def Schema.any : Schema := .object [] [] true

/-- `schema_v1alpha1` -/
def schemaV1alpha1 : List (String × Schema) :=
  [("spec", .object ["label"] [("label", .string), ("replicas", .integer 1)] false),
    ("status", .any)]

/-- `schema_v1beta1` -/
def schemaV1beta1 : List (String × Schema) :=
  [("spec", .object ["displayName"] [("displayName", .string), ("replicas", .integer 1)] false),
    ("status", .any)]

def Version.schema : Version → List (String × Schema)
  | .v1alpha1 => schemaV1alpha1
  | .v1beta1 => schemaV1beta1

/-- A Widget of the version: every object has `apiVersion`, `kind` and `metadata`, and the API server
keeps nothing else that the schema does not name. -/
def Version.Valid (version : Version) (x : Json) : Prop :=
  x.get? "apiVersion" = some (.str version.apiVersion) ∧ x.get? "kind" = some (.str "Widget") ∧
    (Schema.object ["apiVersion", "kind", "metadata"]
      ([("apiVersion", .string), ("kind", .string), ("metadata", .any)] ++ version.schema)
      false).accepts x

mutual

/-- The schema without pruning: fields that it does not name stay. -/
def Schema.preserving : Schema → Schema
  | .string => .string
  | .integer minimum => .integer minimum
  | .object required properties _ => .object required (preservingProperties properties) true

def preservingProperties : List (String × Schema) → List (String × Schema)
  | [] => []
  | property :: properties => preservingProperty property :: preservingProperties properties

def preservingProperty : String × Schema → String × Schema
  | (name, schema) => (name, schema.preserving)

end

/-- A Widget of the version that may have fields which pruning would remove: validation does not
look at them. -/
def Version.Validates (version : Version) (x : Json) : Prop :=
  x.get? "apiVersion" = some (.str version.apiVersion) ∧ x.get? "kind" = some (.str "Widget") ∧
    (Schema.object ["apiVersion", "kind", "metadata"]
      ([("apiVersion", .string), ("kind", .string), ("metadata", .any)] ++ version.schema)
      false).preserving.accepts x

end K8sDev.Widget

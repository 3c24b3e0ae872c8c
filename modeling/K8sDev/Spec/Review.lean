import K8sDev.Spec.Widget

/-!
# Conversion reviews

`do_POST` of the conversion webhook: a ConversionReview carries a list of objects and is answered
with one response for all of them.
-/

namespace K8sDev.Widget

/-- What the `try` of `do_POST` may catch. -/
inductive PyError
  /-- `KeyError`. -/
  | key (name : String)
  | attribute (e : AttributeError)
  /-- `TypeError`: the value is not iterable. -/
  | notIterable (value : Json)

/-- `d[key]`. -/
def pyItem (d : List (String × Json)) (key : String) : Except PyError Json :=
  match d.lookup key with
  | some value => .ok value
  | none => .error (.key key)

/-- What `for x in value` runs through. -/
def pyIter : Json → Except PyError (List Json)
  | .arr elems => .ok elems
  | .obj members => .ok (members.map fun m => .str m.1)
  | .str s => .ok (s.toList.map fun c => .str (String.ofList [c]))
  | value => .error (.notIterable value)

/-- `result` of a response. -/
inductive Result
  | success
  /-- `message` is the text of the error. -/
  | failure (error : PyError)

structure ConversionResponse where
  uid : Json
  convertedObjects : Option (List Json) := none
  result : Option Result := none

/-- The list that is built in the `try`. -/
def convertObjects (request : List (String × Json)) : Except PyError (List Json) := do
  let desired ← pyItem request "desiredAPIVersion"
  let objects ← pyIter (Json.member request "objects" (.arr []))
  objects.mapM fun obj => (convertObject obj desired).mapError .attribute

/-- The response. It gets its objects when the whole list is there. -/
def respond (request : List (String × Json)) : ConversionResponse :=
  let response : ConversionResponse := { uid := Json.member request "uid" .null }
  match convertObjects request with
  | .ok converted =>
    let response := { response with convertedObjects := some converted }
    { response with result := some .success }
  | .error e => { response with result := some (.failure e) }

structure ConversionReview where
  apiVersion : String := "apiextensions.k8s.io/v1"
  kind : String := "ConversionReview"
  response : ConversionResponse

/-- What the client gets. -/
inductive Answer
  | sendError (code : ℕ)
  /-- 200 with this body. -/
  | review (body : ConversionReview)
  /-- The handler raises outside the `try`: no answer. -/
  | raised

/-- `do_POST`, for the path of the target and what `json.loads` makes of the body. -/
def doPost (path : String) (loaded : Except String Json) : Answer :=
  if path ≠ "/convert" then .sendError 404
  else
    match loaded with
    | .error _ => .raised
    | .ok review =>
      match pyGet review "request" (.obj []) with
      | .ok (.obj request) => .review { response := respond request }
      | _ => .raised

end K8sDev.Widget

import K8sDev.Json.Patch

/-!
# The admission fixture

`webhook.py` of `article-api-admission`: one handler that annotates ConfigMaps at `/mutate` and
judges them at every other path, and the two policies that `run.py` puts it behind. The API server
that calls it is code of others: what is relied on is `Documented`.
-/

namespace K8sDev.Fixture

open Json

/-- `d[key]`; `none` is an exception, which closes the connection without a response. -/
def item (d : Json) (key : String) : Option Json := d.get? key

/-- `d.get(key, default)`; what is not a `dict` has no `get`. -/
def pyGet : Json → String → Json → Option Json
  | .obj members, key, default => some (member members key default)
  | _, _, _ => none

/-- An element of a list that `dict` takes: whatever iterates to a key and a value. A key that is
no string is not modelled. -/
def pyPair : Json → Option (String × Json)
  | .arr [.str key, value] => some (key, value)
  | .obj [(key, _), (value, _)] => some (key, .str value)
  | .str s =>
    match s.toList with
    | [key, value] => some (String.ofList [key], .str (String.ofList [value]))
    | _ => none
  | _ => none

/-- `dict(value)`. Of two pairs with one key the later one stands. -/
def pyDict : Json → Option (List (String × Json))
  | .obj members => some members
  | .arr elems => (elems.mapM pyPair).map fun pairs =>
    pairs.foldl (fun members m => setMember m.1 m.2 members) []
  | .str s => if s = "" then some [] else none
  | _ => none

/-- `value == text`. -/
def pyEq (text : String) : Json → Bool
  | .str s => s == text
  | _ => false

/-- `text.startswith(start)`. -/
def startsWith (start : String) : Json → Option Bool
  | .str s => some (start.toList.isPrefixOf s.toList)
  | _ => none

/-- `self.path.split("?", 1)[0]`. -/
def pathOf (target : String) : String := String.ofList (target.toList.takeWhile (· ≠ '?'))

/-- `response`. The `patchType` is set with the patch, and is the same for all. -/
structure Response where
  uid : Json
  allowed : Bool := true
  patch : Option Json := none
  status : Option (ℕ × String) := none

/-- A response, and the seconds the handler waits before it sends it. -/
structure Answer where
  response : Response
  wait : ℕ := 0

def mutatedKey : String := "article.example/mutated"

/-- The patch that replaces the annotations. -/
def annotationsPatch (annotations : List (String × Json)) : Json :=
  .arr [.obj [("op", .str "add"), ("path", .str "/metadata/annotations"),
    ("value", .obj annotations)]]

/-- The response to an object that asks for it. -/
def refusal (uid : Json) : Response where
  uid := uid
  allowed := false
  status := some (403, "article policy denied this ConfigMap")

/-- `do_POST`. -/
def doPost (target : String) (review : Json) : Option Answer := do
  let req ← item review "request"
  let obj ← item req "object"
  let metadata ← item obj "metadata"
  -- the log line reads the name and the uid before anything else does
  let name ← item metadata "name"
  let uid ← item req "uid"
  if pathOf target = "/mutate" then
    let annotations ← pyDict (← pyGet metadata "annotations" (.obj []))
    let patch := annotationsPatch (setMember mutatedKey (.str "yes") annotations)
    return { response := { uid, patch := some patch } }
  else
    let data ← pyGet obj "data" (.obj [])
    let deny ← pyGet data "deny" .null
    if pyEq "true" deny then
      return { response := refusal uid }
    else
      let slow ← startsWith "timeout" name
      return { response := { uid }, wait := if slow then 3 else 0 }

/-- The review of an object. -/
def reviewOf (uid : String) (obj : Json) : Json :=
  .obj [("request", .obj [("uid", .str uid), ("object", obj)])]

/-- What the rules of `policy` let through: a ConfigMap, whose annotations and data are maps. -/
structure ConfigMap where
  json : Json
  metadata : List (String × Json)
  name : String
  metadata_eq : json.get? "metadata" = some (.obj metadata)
  name_eq : metadata.lookup "name" = some (.str name)
  annotations : ∀ v, metadata.lookup "annotations" = some v → ∃ members, v = .obj members
  data : ∀ v, json.get? "data" = some v → ∃ members, v = .obj members

/-- Its `data.deny` is `"true"`. -/
def ConfigMap.denied (c : ConfigMap) : Bool :=
  ((c.json.path? ["data", "deny"]).map (pyEq "true")).getD false

/-- Its name starts with `timeout`. -/
def ConfigMap.slow (c : ConfigMap) : Bool := "timeout".toList.isPrefixOf c.name.toList

/-! ## Behind the policies -/

/-- `failurePolicy`. -/
inductive FailurePolicy
  | fail
  | ignore
deriving DecidableEq, Repr

/-- The one webhook of a configuration, with what differs between them. `path` is that of its
`url`. -/
structure Policy where
  path : String
  failurePolicy : FailurePolicy
  timeoutSeconds : ℕ

/-- `policy`. -/
def policy (path : String) (failure : FailurePolicy) : Policy where
  path := "/" ++ path
  failurePolicy := failure
  timeoutSeconds := 1

/-- A webhook: what it answers to a review posted at a target. -/
abbrev Hook := String → Json → Option Answer

/-- The review asks about the object, under the `uid`. -/
def Asks (review : Json) (uid : String) (obj : Json) : Prop :=
  ∃ req, review.get? "request" = some req ∧ req.get? "uid" = some (.str uid) ∧
    req.get? "object" = some obj

/-- A call of a webhook: the API server posts a review of the object under a `uid` of its own, at
the path of the policy with a query. -/
structure Call (policy : Policy) (obj : Json) where
  target : String
  uid : String
  review : Json
  target_eq : ∃ query, target = policy.path ++ "?" ++ query
  asks : Asks review uid obj

/-- The webhook gives no answer before the deadline. -/
def Call.Failed {policy : Policy} {obj : Json} (call : Call policy obj) (hook : Hook) : Prop :=
  ∀ answer, hook call.target call.review = some answer → policy.timeoutSeconds < answer.wait

end K8sDev.Fixture

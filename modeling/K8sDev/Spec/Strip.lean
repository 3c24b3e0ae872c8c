import K8sDev.Heap.Tree
import K8sDev.Json.Path

/-!
# Stripping runtime metadata

`strip_runtime` of `volcano-hami/collect-results.py`, on Python's heap: it builds new lists and
dicts, and then removes members from the new ones in place. `strip` is what it makes of a value.
-/

namespace K8sDev.Results

open Heap

/-- What a run ends with when it does not return. -/
inductive PyError
  | recursionError
  | attributeError
  | typeError
  /-- A reference to no object, which Python does not have. -/
  | dangling
deriving DecidableEq, Repr

def lastApplied : String := "kubectl.kubernetes.io/last-applied-configuration"

/-- The keys that are popped from `metadata`. -/
def runtimeKeys : List String := ["resourceVersion", "creationTimestamp", "uid", "generation"]

/-- `m.get('annotations', {}).pop(…, None)`. The default is a new dict that nobody keeps; `pop` of
a list takes one argument, and other values have none. -/
def popAnnotation (h : Heap) (m : ℕ) : Except PyError Heap :=
  match h[m]? with
  | some (.dict members) =>
    match members.lookup "annotations" with
    | none => .ok h
    | some (.ref addr) =>
      match h[addr]? with
      | some (.dict _) => .ok (h.pop addr lastApplied)
      | some (.list _) => .error .typeError
      | none => .error .dangling
    | some _ => .error .attributeError
  | _ => .error .dangling

/-- What is done to `m = obj.get('metadata')`. -/
def popRuntime (h : Heap) (obj : List (String × Val)) : Except PyError Heap :=
  match obj.lookup "metadata" with
  | some (.ref m) =>
    match h[m]? with
    | some (.dict _) => popAnnotation (h.pops m runtimeKeys) m
    | some (.list _) => .ok h
    | none => .error .dangling
  | _ => .ok h

/-- `strip_runtime`, with `limit` calls that may still be nested. -/
def stripRuntime : ℕ → Heap → Val → Except PyError (Heap × Val)
  | 0, _, _ => .error .recursionError
  | limit + 1, h, .ref addr =>
    match h[addr]? with
    | some (.list elems) => do
      let (h, elems) ← mapThread (stripRuntime limit) h elems
      return h.alloc (.list elems)
    | some (.dict members) => do
      let (h, members) ←
        mapThread (onValue (stripRuntime limit)) h (members.filter fun m => m.1 ≠ "managedFields")
      let (h, obj) := h.alloc (.dict members)
      let h ← popRuntime h members
      return (h, obj)
    | none => .error .dangling
  | _ + 1, h, v => .ok (h, v)

/-! ## What it makes of a value -/

/-- `annotations`, afterwards. -/
def cleanAnnotations : Json → Json
  | .obj members => .obj (Json.eraseMember lastApplied members)
  | j => j

def cleanMetadataMembers (m : List (String × Json)) : List (String × Json) :=
  Json.mapMember "annotations" cleanAnnotations (Json.eraseMembers runtimeKeys m)

/-- `metadata`, afterwards. -/
def cleanMetadata : Json → Json
  | .obj members => .obj (cleanMetadataMembers members)
  | j => j

def cleanMembers (obj : List (String × Json)) : List (String × Json) :=
  Json.mapMember "metadata" cleanMetadata obj

mutual

def strip : Json → Json
  | .arr elems => .arr (stripElems elems)
  | .obj members => .obj (cleanMembers (stripMembers members))
  | .null => .null
  | .bool b => .bool b
  | .num n => .num n
  | .str s => .str s

def stripElems : List Json → List Json
  | [] => []
  | j :: js => strip j :: stripElems js

def stripMembers : List (String × Json) → List (String × Json)
  | [] => []
  | (key, j) :: ms =>
    if key = "managedFields" then stripMembers ms else (key, strip j) :: stripMembers ms

end

/-- The annotations of a metadata object, if it has any, are an object. -/
def AnnotationsObject (obj : List (String × Json)) : Prop :=
  ∀ m, obj.lookup "metadata" = some (.obj m) →
    ∀ v, m.lookup "annotations" = some v → ∃ annotations, v = .obj annotations

/-- A value that can be stripped. -/
def Strippable (j : Json) : Prop := j.Everywhere AnnotationsObject

/-! ## What is to be removed -/

open Json in
/-- A path into the metadata that the server writes. -/
def ServerSide (p : List Step) : Prop :=
  .key "managedFields" ∈ p ∨
    (∃ key ∈ ["resourceVersion", "creationTimestamp", "uid", "generation"],
      [.key "metadata", .key key] <:+: p) ∨
    [.key "metadata", .key "annotations", .key "kubectl.kubernetes.io/last-applied-configuration"]
      <:+: p

/-- What a value may become: a list keeps its length, an object some of its members in their
order, and everything else is the same. -/
inductive Shape : Json → Json → Prop
  | list {xs ys : List Json} : ys.length = xs.length → Shape (.arr xs) (.arr ys)
  | object {ms ns : List (String × Json)} :
      (ns.map Prod.fst).Sublist (ms.map Prod.fst) → Shape (.obj ms) (.obj ns)
  | same (x : Json) : Shape x x

/-- `j'` is `j` without the metadata that the server writes. -/
structure WithoutServerSide (j j' : Json) : Prop where
  /-- A leaf survives with its value unchanged exactly if its path leads elsewhere. -/
  leaf : ∀ p x, j.at? p = some x → x.isLeaf = true → (j'.at? p = some x ↔ ¬ServerSide p)
  /-- Nothing is left where the server writes. -/
  removed : ∀ p, ServerSide p → j'.at? p = none
  /-- Elsewhere nothing moves, and lists keep their length. -/
  kept : ∀ p x, ¬ServerSide p → j.at? p = some x → ∃ y, j'.at? p = some y ∧ Shape x y
  /-- Nothing is added. -/
  old : ∀ p y, j'.at? p = some y → ∃ x, j.at? p = some x ∧ Shape x y

end K8sDev.Results

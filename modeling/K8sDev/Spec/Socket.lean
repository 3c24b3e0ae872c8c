import K8sDev.Path.Clean
import Mathlib.Data.Finset.Basic

/-!
# The socket of a plugin

`pluginSocket` and `removeSocket` of `extended-resource`, and the resource names that kubelet
accepts: a DNS subdomain, a slash and a segment of a qualified name.
-/

namespace K8sDev.Serve

def pluginDir : String := "/var/lib/kubelet/device-plugins"

def kubeletSocket : String := pluginDir ++ "/kubelet.sock"

/-- `strings.ReplaceAll`, for strings of one character. -/
def replaceAll (s : String) (old new : Char) : String :=
  String.ofList (s.toList.map fun c => if c = old then new else c)

def pluginSocket (resourceName : String) : String :=
  Path.join [pluginDir, replaceAll resourceName '/' '-' ++ ".sock"]

inductive RemoveError
  | notExist
  | other (err : String)

/-- `os.Remove` on the files of a node; `denied` is an error that has nothing to do with whether
the file exists. -/
def osRemove (path : String) (denied : Option String) (files : Finset String) :
    Option RemoveError × Finset String :=
  match denied with
  | some err => (some (.other err), files)
  | none => if path ∈ files then (none, files.erase path) else (some .notExist, files)

def removeSocket (path : String) (denied : Option String) (files : Finset String) :
    Option String × Finset String :=
  match osRemove path denied files with
  | (some (.other err), files) => (some ("remove old socket: " ++ err), files)
  | (some .notExist, files) | (none, files) => (none, files)

/-! ## Resource names -/

/-- A lower case letter or a digit. -/
def lowerAlphanum (c : Char) : Bool := c.isLower || c.isDigit

/-- A DNS subdomain: dots separate labels of lower case letters, digits and hyphens that start and
end with a letter or a digit; at most 253 characters. -/
def IsSubdomain (s : String) : Prop :=
  s.toList.length ≤ 253 ∧ s.toList.all (fun c => lowerAlphanum c || c == '-' || c == '.') ∧
    ∀ label ∈ s.toList.splitOn '.', label.head?.any lowerAlphanum ∧
      label.getLast?.any lowerAlphanum

/-- A segment of a qualified name: letters, digits, hyphens, underscores and dots, with a letter or
a digit at both ends; at most 63 characters. -/
def IsSegment (s : String) : Prop :=
  s.toList.length ≤ 63 ∧
    s.toList.all (fun c => c.isAlphanum || c == '-' || c == '_' || c == '.') ∧
    s.toList.head?.any Char.isAlphanum ∧ s.toList.getLast?.any Char.isAlphanum

instance (s : String) : Decidable (IsSubdomain s) := by unfold IsSubdomain; infer_instance

instance (s : String) : Decidable (IsSegment s) := by unfold IsSegment; infer_instance

/-- A valid resource name, `domain/name`. -/
structure ResourceName where
  domain : String
  name : String
  subdomain : IsSubdomain domain
  segment : IsSegment name

def ResourceName.full (r : ResourceName) : String := r.domain ++ "/" ++ r.name

end K8sDev.Serve

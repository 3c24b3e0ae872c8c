import K8sDev.Spec.Socket

/-!
# When the sockets of two plugins collide

`pluginSocket` replaces the slash by a hyphen, which both parts of a resource name may contain.

* `pluginSocket_full`: the path, part by part.
* `same_socket_iff`: two names have one path when the domain of one continues the domain of the
  other with a piece of its name.
* `sockets_apart`: unless that is so, neither plugin removes the other's socket.
-/

namespace K8sDev.Serve

variable {r r' : ResourceName}

/-! ## The path -/

theorem slash_not_mem_domain (r : ResourceName) : '/' ∉ r.domain.toList := by
  intro h
  have hchar := List.all_eq_true.1 r.subdomain.2.1 _ h
  revert hchar
  decide

theorem slash_not_mem_name (r : ResourceName) : '/' ∉ r.name.toList := by
  intro h
  have hchar := List.all_eq_true.1 r.segment.2.1 _ h
  revert hchar
  decide

theorem map_replace_of_not_mem {l : List Char} {old new : Char} (h : old ∉ l) :
    l.map (fun c => if c = old then new else c) = l := by
  have hsame : ∀ c ∈ l, (if c = old then new else c) = c := by
    intro c hc
    rw [if_neg]
    rintro rfl
    exact h hc
  rw [List.map_congr_left hsame, List.map_id']

/-- The file name of the socket. -/
def ResourceName.base (r : ResourceName) : String := r.domain ++ "-" ++ r.name ++ ".sock"

theorem base_eq (r : ResourceName) : replaceAll r.full '/' '-' ++ ".sock" = r.base := by
  apply String.toList_inj.1
  unfold replaceAll ResourceName.full ResourceName.base
  simp only [String.toList_append, String.toList_ofList, List.map_append,
    map_replace_of_not_mem (slash_not_mem_domain r), map_replace_of_not_mem (slash_not_mem_name r)]
  rfl

theorem base_toList (r : ResourceName) :
    r.base.toList = r.domain.toList ++ '-' :: (r.name.toList ++ ".sock".toList) := by
  simp [ResourceName.base]

theorem plain_base (r : ResourceName) : Path.Plain r.base.toList := by
  have hyphen : '-' ∈ r.base.toList := by
    rw [base_toList]
    exact List.mem_append_right _ List.mem_cons_self
  refine ⟨List.ne_nil_of_mem hyphen, fun h => ?_, fun h => ?_, fun h => ?_⟩
  · rw [h] at hyphen
    revert hyphen
    decide
  · rw [h] at hyphen
    revert hyphen
    decide
  · rw [base_toList] at h
    rcases List.mem_append.1 h with h | h
    · exact slash_not_mem_domain r h
    · rcases List.mem_cons.1 h with h | h
      · revert h
        decide
      · rcases List.mem_append.1 h with h | h
        · exact slash_not_mem_name r h
        · revert h
          decide

/-- The elements of `pluginDir`. -/
def pluginDirElems : List (List Char) :=
  ["var".toList, "lib".toList, "kubelet".toList, "device-plugins".toList]

theorem plain_pluginDir : ∀ elem ∈ pluginDirElems, Path.Plain elem := by
  intro elem h
  simp only [pluginDirElems, List.mem_cons, List.not_mem_nil, or_false] at h
  rcases h with rfl | rfl | rfl | rfl <;> exact ⟨by decide, by decide, by decide, by decide⟩

/-- **The path of a plugin's socket** is a file of `pluginDir`. -/
theorem pluginSocket_full (r : ResourceName) :
    pluginSocket r.full = pluginDir ++ "/" ++ r.base := by
  have hdir : String.ofList (Path.absolute pluginDirElems) = pluginDir := by decide
  unfold pluginSocket
  rw [base_eq, ← hdir]
  exact Path.join_absolute plain_pluginDir (by decide) (plain_base r)

theorem pluginSocket_ne_kubelet (r : ResourceName) : pluginSocket r.full ≠ kubeletSocket := by
  intro h
  rw [pluginSocket_full] at h
  have hlist := congrArg String.toList h
  have hkubelet : kubeletSocket.toList = (pluginDir ++ "/").toList ++ "kubelet.sock".toList := by
    decide
  rw [hkubelet, String.toList_append] at hlist
  have hbase := List.append_cancel_left hlist
  have hyphen : '-' ∈ "kubelet.sock".toList := by
    rw [← hbase, base_toList]
    exact List.mem_append_right _ List.mem_cons_self
  revert hyphen
  decide

/-! ## Two paths -/

/-- The domain of `r'` is that of `r`, a hyphen and more, with which the name of `r` begins. -/
def ResourceName.Continues (r r' : ResourceName) : Prop :=
  ∃ x, r'.domain = r.domain ++ "-" ++ x ∧ r.name = x ++ "-" ++ r'.name

/-- One hyphen stands in for two slashes. -/
theorem append_cons_eq_append_cons {α : Type*} {a : α} {xs ys xs' ys' : List α}
    (h : xs ++ a :: ys = xs' ++ a :: ys') :
    xs = xs' ∧ ys = ys' ∨ (∃ zs, xs' = xs ++ a :: zs ∧ ys = zs ++ a :: ys') ∨
      ∃ zs, xs = xs' ++ a :: zs ∧ ys' = zs ++ a :: ys := by
  -- which of the two prefixes is longer, and by what
  rcases List.append_eq_append_iff.1 h with ⟨zs, hxs, hys⟩ | ⟨zs, hxs, hys⟩
  · cases zs with
    | nil =>
      rw [List.append_nil] at hxs
      rw [List.nil_append, List.cons.injEq] at hys
      exact .inl ⟨hxs.symm, hys.2⟩
    | cons z zs =>
      rw [List.cons_append, List.cons.injEq] at hys
      obtain ⟨rfl, hys⟩ := hys
      exact .inr (.inl ⟨zs, hxs, hys⟩)
  · cases zs with
    | nil =>
      rw [List.append_nil] at hxs
      rw [List.nil_append, List.cons.injEq] at hys
      exact .inl ⟨hxs, hys.2.symm⟩
    | cons z zs =>
      rw [List.cons_append, List.cons.injEq] at hys
      obtain ⟨rfl, hys⟩ := hys
      exact .inr (.inr ⟨zs, hxs, hys⟩)

theorem continues_iff : r.Continues r' ↔ ∃ zs, r'.domain.toList = r.domain.toList ++ '-' :: zs ∧
    r.name.toList = zs ++ '-' :: r'.name.toList := by
  constructor
  · rintro ⟨x, hdomain, hname⟩
    refine ⟨x.toList, ?_, ?_⟩
    · rw [hdomain]
      simp
    · rw [hname]
      simp
  · rintro ⟨zs, hdomain, hname⟩
    refine ⟨String.ofList zs, ?_, ?_⟩
    · apply String.toList_inj.1
      rw [hdomain]
      simp
    · apply String.toList_inj.1
      rw [hname]
      simp

theorem pluginSocket_eq_iff : pluginSocket r.full = pluginSocket r'.full ↔
    r.domain.toList ++ '-' :: r.name.toList = r'.domain.toList ++ '-' :: r'.name.toList := by
  have hpath : ∀ r : ResourceName, (pluginSocket r.full).toList = (pluginDir ++ "/").toList ++
      ((r.domain.toList ++ '-' :: r.name.toList) ++ ".sock".toList) := by
    intro r
    rw [pluginSocket_full, String.toList_append, base_toList, List.append_assoc, List.cons_append]
  rw [← String.toList_inj, hpath, hpath, List.append_cancel_left_eq, List.append_cancel_right_eq]

/-- **When two names have one path.** -/
theorem same_socket_iff (hne : r.full ≠ r'.full) :
    pluginSocket r.full = pluginSocket r'.full ↔ r.Continues r' ∨ r'.Continues r := by
  rw [pluginSocket_eq_iff, continues_iff, continues_iff]
  constructor
  · intro h
    rcases append_cons_eq_append_cons h with ⟨hdomain, hname⟩ | h
    · refine absurd ?_ hne
      rw [ResourceName.full, ResourceName.full, String.toList_inj.1 hdomain,
        String.toList_inj.1 hname]
    · exact h
  · rintro (⟨zs, hdomain, hname⟩ | ⟨zs, hdomain, hname⟩)
    · rw [hdomain, hname, List.append_assoc, List.cons_append]
    · rw [hdomain, hname, List.append_assoc, List.cons_append]

/-! ## Removing a socket -/

/-- Whatever happens, other files stay. -/
theorem mem_removeSocket {path file : String} {denied : Option String} {files : Finset String}
    (hne : file ≠ path) (hmem : file ∈ files) : file ∈ (removeSocket path denied files).2 := by
  unfold removeSocket osRemove
  cases denied with
  | some err => exact hmem
  | none =>
    by_cases hpath : path ∈ files
    · simp only [if_pos hpath]
      exact Finset.mem_erase.2 ⟨hne, hmem⟩
    · simp only [if_neg hpath]
      exact hmem

theorem not_mem_removeSocket {path : String} {files : Finset String} (hmem : path ∈ files) :
    path ∉ (removeSocket path none files).2 := by
  unfold removeSocket osRemove
  simp only [if_pos hmem]
  exact Finset.notMem_erase path files

/-- The start of the plugin for `r` leaves the socket of the plugin for `r'` alone. -/
def ResourceName.Spares (r r' : ResourceName) : Prop :=
  ∀ (denied : Option String) (files : Finset String), pluginSocket r'.full ∈ files →
    pluginSocket r'.full ∈ (removeSocket (pluginSocket r.full) denied files).2

theorem spares_iff : r.Spares r' ↔ pluginSocket r.full ≠ pluginSocket r'.full := by
  constructor
  · intro h heq
    unfold ResourceName.Spares at h
    rw [heq] at h
    generalize pluginSocket r'.full = path at h
    have hmem : path ∈ ({path} : Finset String) := Finset.mem_singleton_self path
    exact not_mem_removeSocket hmem (h none {path} hmem)
  · intro hne denied files hmem
    exact mem_removeSocket hne.symm hmem

/-- The path is a file of `pluginDir` other than kubelet's. -/
def OwnFile (path : String) : Prop :=
  (∃ base, Path.Plain base.toList ∧ path = pluginDir ++ "/" ++ base) ∧ path ≠ kubeletSocket

/-- **When the sockets of two plugins are apart.** -/
theorem sockets_apart (hne : r.full ≠ r'.full) :
    (pluginSocket r.full ≠ pluginSocket r'.full ∧
      OwnFile (pluginSocket r.full) ∧ OwnFile (pluginSocket r'.full) ∧
      r.Spares r' ∧ r'.Spares r) ↔ ¬ r.Continues r' ∧ ¬ r'.Continues r := by
  have hown : ∀ r : ResourceName, OwnFile (pluginSocket r.full) := fun r =>
    ⟨⟨r.base, plain_base r, pluginSocket_full r⟩, pluginSocket_ne_kubelet r⟩
  have hapart : ¬ r.Continues r' ∧ ¬ r'.Continues r ↔ pluginSocket r.full ≠ pluginSocket r'.full := by
    rw [← not_or, ← same_socket_iff hne]
  rw [hapart, spares_iff, spares_iff]
  constructor
  · intro h
    exact h.1
  · intro h
    exact ⟨h, hown r, hown r', h, h.symm⟩

/-- Two names that differ in where the slash is. -/
def fpga : ResourceName := ⟨"example.com", "fpga-a", by decide, by decide⟩

def fpga' : ResourceName := ⟨"example.com-fpga", "a", by decide, by decide⟩

theorem sockets_collide : fpga.full ≠ fpga'.full ∧
    pluginSocket fpga.full = pluginSocket fpga'.full ∧ ¬ fpga.Spares fpga' := by
  have hne : fpga.full ≠ fpga'.full := by decide
  have heq : pluginSocket fpga.full = pluginSocket fpga'.full :=
    (same_socket_iff hne).2 (.inl ⟨"fpga", by decide, by decide⟩)
  exact ⟨hne, heq, fun h => spares_iff.1 h heq⟩

/-- Another device of the same domain. -/
def gpu : ResourceName := ⟨"example.com", "gpu", by decide, by decide⟩

theorem sockets_apart_gpu : pluginSocket fpga.full ≠ pluginSocket gpu.full := by
  have hlength : ∀ x : String, "example.com" ≠ "example.com" ++ "-" ++ x := by
    intro x h
    have hlist := congrArg (fun s => s.toList.length) h
    simp only [String.toList_append, List.length_append] at hlist
    have hhyphen : "-".toList.length = 1 := rfl
    omega
  refine ((@sockets_apart fpga gpu (by decide)).2 ⟨?_, ?_⟩).1
  · rintro ⟨x, hdomain, -⟩
    exact hlength x hdomain
  · rintro ⟨x, hdomain, -⟩
    exact hlength x hdomain

end K8sDev.Serve

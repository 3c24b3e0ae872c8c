import K8sDev.Proof.Strip

/-!
# Stripping runtime metadata, on the heap

* `popRuntime_tree`: what is removed in place from an object that is a tree.
* `stripRuntime_tree`: the result is a tree of new objects and stands for the stripped value.
* `strip_exact`: exactly the metadata of the server is removed, and not from the argument.
-/

namespace K8sDev.Results

open Json Heap

variable {h : Heap} {v : Val} {lo hi limit : ℕ} {j : Json}
variable {js m : List (String × Json)} {ms : List (String × Val)}

/-! ## In place -/

/-- `popAnnotation` on metadata that is a tree. -/
theorem popAnnotation_tree {addr : ℕ} (ht : Tree h (.obj m) (.ref addr) lo hi)
    (hann : ∀ v, m.lookup "annotations" = some v → ∃ annotations, v = .obj annotations) :
    ∃ h', popAnnotation h addr = .ok h' ∧ AgreeOutside lo hi h h' ∧
      Tree h' (.obj (mapMember "annotations" cleanAnnotations m)) (.ref addr) lo hi := by
  have htree := ht
  obtain ⟨a, ms, heq, hcell, hle, hlt, hmembers⟩ := ht
  obtain rfl := Val.ref.inj heq
  unfold popAnnotation mapMember
  rw [hcell]
  cases hlook : m.lookup "annotations" with
  | none =>
    refine ⟨h, ?_, .refl lo hi h, htree⟩
    simp only [hmembers.lookup_none hlook]
  | some v =>
    obtain ⟨annotations, rfl⟩ := hann v hlook
    obtain ⟨w, l, r, hw, hl, hr, hsub, hset⟩ := hmembers.focus hlook
    have hpop := hsub
    obtain ⟨b, _, rfl, hdict, -, -, -⟩ := hsub
    obtain ⟨hout, htree'⟩ := hpop.pop lastApplied
    refine ⟨h.pop b lastApplied, ?_, hout.mono hl (by omega), ?_⟩
    · simp only [hw, hdict]
    · -- the annotations lie below the metadata, so its own cell is as it was
      have hcell' : (h.pop b lastApplied)[addr]? = some (.dict ms) :=
        (hout.2 addr (.inr hr)).trans hcell
      exact ⟨addr, ms, rfl, hcell', hle, hlt, hset _ _ hout htree'⟩

/-- `popRuntime` on members that are trees. -/
theorem popRuntime_tree (ht : TreeMembers h js ms lo hi) (hann : AnnotationsObject js) :
    ∃ h', popRuntime h ms = .ok h' ∧ AgreeOutside lo hi h h' ∧
      TreeMembers h' (cleanMembers js) ms lo hi := by
  unfold popRuntime cleanMembers mapMember
  cases hlook : js.lookup "metadata" with
  | none =>
    refine ⟨h, ?_, .refl lo hi h, ht⟩
    simp only [ht.lookup_none hlook]
  | some u =>
    -- the metadata lives in a stretch of the heap of its own
    obtain ⟨w, l, r, hw, hl, hr, hsub, hset⟩ := ht.focus hlook
    rw [hw]
    have hsame : cleanMetadata u = u → TreeMembers h (setMember "metadata" (cleanMetadata u) js)
        ms lo hi := fun heq => hset h _ (.refl l r h) (by rw [heq]; exact hsub)
    cases u with
    | obj m =>
      have hmeta := hsub
      obtain ⟨addr, _, rfl, hdict, -, -, -⟩ := hsub
      obtain ⟨hpops, hbare⟩ := hmeta.pops runtimeKeys
      have hann' : ∀ v, (eraseMembers runtimeKeys m).lookup "annotations" = some v →
          ∃ annotations, v = .obj annotations := by
        intro v hv
        rw [lookup_eraseMembers, if_neg (by decide)] at hv
        exact hann m hlook v hv
      obtain ⟨h', hrun, hout, htree⟩ := popAnnotation_tree hbare hann'
      have hall : AgreeOutside l r h h' := hpops.trans hout
      refine ⟨h', ?_, hall.mono hl hr, hset h' _ hall htree⟩
      simp only [hdict, hrun]
    | arr elems =>
      have hmeta := hsame rfl
      obtain ⟨addr, _, rfl, hlist, -, -, -⟩ := hsub
      refine ⟨h, ?_, .refl lo hi h, hmeta⟩
      simp only [hlist]
    | _ =>
      have hmeta := hsame rfl
      obtain rfl := hsub
      exact ⟨h, rfl, .refl lo hi h, hmeta⟩

/-! ## A whole value -/

/-- With enough calls left, `stripRuntime` makes a tree of new objects that stands for the
stripped value. -/
def Strips (j : Json) : Prop :=
  ∀ limit h v, j.depth ≤ limit → Holds h j v → Strippable j →
    ∃ h' v', stripRuntime limit h v = .ok (h', v') ∧ h <+: h' ∧
      Tree h' (strip j) v' h.length h'.length

theorem mapThread_cons {ε α β : Type} {f : Heap → α → Except ε (Heap × β)} {h₁ h₂ : Heap} {x : α}
    {xs : List α} {y : β} {ys : List β} (hone : f h x = .ok (h₁, y))
    (hrest : mapThread f h₁ xs = .ok (h₂, ys)) : mapThread f h (x :: xs) = .ok (h₂, y :: ys) := by
  rw [mapThread, hone]
  simp only [bind, Except.bind, hrest]
  rfl

theorem strips_elems {elems : List Json} (ih : ∀ j ∈ elems, Strips j) (limit : ℕ) :
    ∀ (h : Heap) (vs : List Val), elemsDepth elems ≤ limit → HoldsElems h elems vs →
      (∀ j ∈ elems, Strippable j) →
      ∃ h' vs', mapThread (stripRuntime limit) h vs = .ok (h', vs') ∧ h <+: h' ∧
        TreeElems h' (stripElems elems) vs' h.length h'.length := by
  induction elems with
  | nil =>
    intro h vs _ hvs _
    obtain rfl := hvs
    exact ⟨h, [], rfl, List.prefix_rfl, rfl⟩
  | cons j js ihjs =>
    intro h vs hdepth hvs hstrip
    obtain ⟨v, rest, rfl, hj, hjs⟩ := hvs
    rw [elemsDepth] at hdepth
    rw [List.forall_mem_cons] at ih hstrip
    obtain ⟨h₁, w, hrun, hpre, htree⟩ := ih.1 limit h v (by omega) hj hstrip.1
    have hjs₁ : HoldsElems h₁ js rest := HoldsElems.mono hpre js hjs
    obtain ⟨h₂, ws, hruns, hpres, htrees⟩ := ihjs ih.2 h₁ rest (by omega) hjs₁ hstrip.2
    -- the later elements only add objects
    have htree₂ : Tree h₂ (strip j) w h.length h₁.length := htree.grow hpres le_rfl
    refine ⟨h₂, w :: ws, mapThread_cons hrun hruns, hpre.trans hpres, ?_⟩
    exact ⟨w, ws, h₁.length, rfl, hpre.length_le, hpres.length_le, htree₂, htrees⟩

theorem strips_members (ih : ∀ m ∈ js, Strips m.2) (limit : ℕ) :
    ∀ (h : Heap) (ms : List (String × Val)), membersDepth js ≤ limit → HoldsMembers h js ms →
      (∀ m ∈ js, Strippable m.2) →
      ∃ h' ms', mapThread (onValue (stripRuntime limit)) h
          (ms.filter fun m => m.1 ≠ "managedFields") = .ok (h', ms') ∧ h <+: h' ∧
        TreeMembers h' (stripMembers js) ms' h.length h'.length := by
  induction js with
  | nil =>
    intro h ms _ hms _
    obtain rfl := hms
    exact ⟨h, [], rfl, List.prefix_rfl, rfl⟩
  | cons m js ihjs =>
    obtain ⟨k, j⟩ := m
    intro h ms hdepth hms hstrip
    obtain ⟨v, rest, rfl, hj, hjs⟩ := hms
    rw [membersDepth] at hdepth
    rw [List.forall_mem_cons] at ih hstrip
    have hdepthj : j.depth ≤ limit := (le_max_left _ _).trans hdepth
    have hdepthjs : membersDepth js ≤ limit := (le_max_right _ _).trans hdepth
    rw [stripMembers]
    by_cases hk : k = "managedFields"
    · rw [if_pos hk, List.filter_cons_of_neg (by simp [hk])]
      exact ihjs ih.2 h rest hdepthjs hjs hstrip.2
    · rw [if_neg hk, List.filter_cons_of_pos (by simp [hk])]
      obtain ⟨h₁, w, hrun, hpre, htree⟩ := ih.1 limit h v hdepthj hj hstrip.1
      have hvalue : onValue (stripRuntime limit) h (k, v) = .ok (h₁, (k, w)) := by
        rw [onValue, hrun]
        rfl
      have hjs₁ : HoldsMembers h₁ js rest := HoldsMembers.mono hpre js hjs
      obtain ⟨h₂, ws, hruns, hpres, htrees⟩ := ihjs ih.2 h₁ rest hdepthjs hjs₁ hstrip.2
      have htree₂ : Tree h₂ (strip j) w h.length h₁.length := htree.grow hpres le_rfl
      refine ⟨h₂, (k, w) :: ws, mapThread_cons hvalue hruns, hpre.trans hpres, ?_⟩
      exact ⟨w, ws, h₁.length, rfl, hpre.length_le, hpres.length_le, htree₂, htrees⟩

/-- A list comes back as a new list. -/
theorem strips_arr {elems : List Json} (ih : ∀ j ∈ elems, Strips j) : Strips (.arr elems) := by
  intro limit h v hdepth hv hstrip
  obtain ⟨addr, vs, rfl, hcell, hvs⟩ := hv
  rw [depth] at hdepth
  obtain ⟨limit, rfl⟩ : ∃ n, limit = n + 1 := ⟨limit - 1, by omega⟩
  obtain ⟨h₁, ws, hrun, hpre, htrees⟩ :=
    strips_elems ih limit h vs (by omega) hvs (everywhere_arr.1 hstrip)
  have hpre₂ : h₁ <+: h₁ ++ [.list ws] := List.prefix_append h₁ _
  have hnew : (h₁ ++ [.list ws])[h₁.length]? = some (.list ws) := by simp
  have htrees₂ : TreeElems (h₁ ++ [.list ws]) (stripElems elems) ws h.length h₁.length :=
    htrees.grow hpre₂ le_rfl
  refine ⟨h₁ ++ [.list ws], .ref h₁.length, ?_, hpre.trans hpre₂, ?_⟩
  · rw [stripRuntime, hcell]
    simp only [bind, Except.bind, hrun]
    rfl
  · exact ⟨h₁.length, ws, rfl, hnew, hpre.length_le, by simp, htrees₂⟩

/-- An object comes back as a new dict, from which members are then removed in place. -/
theorem strips_obj (ih : ∀ m ∈ js, Strips m.2) : Strips (.obj js) := by
  intro limit h v hdepth hv hstrip
  obtain ⟨addr, ms, rfl, hcell, hms⟩ := hv
  obtain ⟨hann, hmembers⟩ := everywhere_obj.1 hstrip
  rw [depth] at hdepth
  obtain ⟨limit, rfl⟩ : ∃ n, limit = n + 1 := ⟨limit - 1, by omega⟩
  obtain ⟨h₁, ws, hrun, hpre, htrees⟩ := strips_members ih limit h ms (by omega) hms hmembers
  have hpre₂ : h₁ <+: h₁ ++ [.dict ws] := List.prefix_append h₁ _
  have hnew : (h₁ ++ [.dict ws])[h₁.length]? = some (.dict ws) := by simp
  have htrees₂ : TreeMembers (h₁ ++ [.dict ws]) (stripMembers js) ws h.length h₁.length :=
    htrees.grow hpre₂ le_rfl
  obtain ⟨h₃, hpop, hout, htrees₃⟩ :=
    popRuntime_tree htrees₂ (annotationsObject_stripMembers hann)
  -- what is removed in place is below the new dict and above the argument
  have hnew₃ : h₃[h₁.length]? = some (.dict ws) := (hout.2 _ (.inr le_rfl)).trans hnew
  have hlen : h₁.length < h₃.length := (List.getElem?_eq_some_iff.1 hnew₃).1
  refine ⟨h₃, .ref h₁.length, ?_, hout.keeps (hpre.trans hpre₂) le_rfl, ?_⟩
  · rw [stripRuntime, hcell]
    simp only [bind, Except.bind, hrun, alloc, hpop]
    rfl
  · exact ⟨h₁.length, ws, rfl, hnew₃, hpre.length_le, hlen, htrees₃⟩

theorem strips_scalar {j : Json} (hscalar : strip j = j) (hdepth : j.depth = 1)
    (hholds : ∀ h v, Holds h j v → (∀ limit, stripRuntime (limit + 1) h v = .ok (h, v)) ∧
      Tree h j v h.length h.length) : Strips j := by
  intro limit h v hle hv _
  obtain ⟨limit, rfl⟩ : ∃ n, limit = n + 1 := ⟨limit - 1, by omega⟩
  obtain ⟨hrun, htree⟩ := hholds h v hv
  exact ⟨h, v, hrun limit, List.prefix_rfl, hscalar.symm ▸ htree⟩

theorem stripRuntime_tree (j : Json) : Strips j := by
  induction j using Json.induction with
  | arr elems ih => exact strips_arr ih
  | obj members ih => exact strips_obj ih
  | _ => exact strips_scalar rfl rfl fun h v hv => ⟨fun limit => by cases hv; rfl, hv⟩

/-- **Stripping is exact.** Of an argument that stands for `j`, the call removes exactly the
metadata of the server, changes no object that was there, and changes nothing when it is applied
to its own result. -/
theorem strip_exact (hv : Holds h j v) (hj : Strippable j) :
    ∃ j', WithoutServerSide j j' ∧ ∀ limit, j.depth ≤ limit →
      ∃ h' v', stripRuntime limit h v = .ok (h', v') ∧ h <+: h' ∧ Holds h' j v ∧ Holds h' j' v' ∧
        ∃ h'' v'', stripRuntime limit h' v' = .ok (h'', v'') ∧ Holds h'' j' v'' := by
  refine ⟨strip j, strip_withoutServerSide j, fun limit hlimit => ?_⟩
  obtain ⟨h', v', hrun, hpre, htree⟩ := stripRuntime_tree j limit h v hlimit hv hj
  have hv' : Holds h' (strip j) v' := Tree.holds _ htree
  have hlimit' : (strip j).depth ≤ limit := (depth_strip j).trans hlimit
  obtain ⟨h'', v'', hrun', -, htree'⟩ :=
    stripRuntime_tree (strip j) limit h' v' hlimit' hv' (strippable_strip hj)
  have hv'' : Holds h'' (strip (strip j)) v'' := Tree.holds _ htree'
  rw [strip_idem] at hv''
  exact ⟨h', v', hrun, hpre, Holds.mono hpre j hv, hv', h'', v'', hrun', hv''⟩

/-- A manifest as it came from the API server. -/
def applied : Json :=
  .obj [("kind", .str "Pod"), ("managedFields", .null),
    ("metadata", .obj [("name", .str "web"), ("uid", .str "7d1c"),
      ("annotations", .obj [("kubectl.kubernetes.io/last-applied-configuration", .str "{}")])])]

def appliedHeap : Heap :=
  [.dict [("kubectl.kubernetes.io/last-applied-configuration", .str "{}")],
    .dict [("name", .str "web"), ("uid", .str "7d1c"), ("annotations", .ref 0)],
    .dict [("kind", .str "Pod"), ("managedFields", .null), ("metadata", .ref 1)]]

theorem strip_exact_applied : ∃ j', WithoutServerSide applied j' ∧
    ∃ h' v', stripRuntime 4 appliedHeap (.ref 2) = .ok (h', v') ∧ Holds h' j' v' ∧
      j'.at? [.key "metadata", .key "name"] = some (.str "web") ∧
      j'.at? [.key "metadata", .key "uid"] = none := by
  have hv : Holds appliedHeap applied (.ref 2) := by
    simp [Holds, HoldsMembers, applied, appliedHeap]
  have hj : Strippable applied := by
    simp [Strippable, Everywhere, EverywhereMembers, AnnotationsObject, lookup_cons, applied]
  obtain ⟨j', hexact, hruns⟩ := strip_exact hv hj
  obtain ⟨h', v', hrun, -, -, hv', -⟩ := hruns 4 (by decide)
  refine ⟨j', hexact, h', v', hrun, hv', ?_, ?_⟩
  · refine (hexact.leaf _ _ rfl rfl).2 ?_
    rintro (hmem | ⟨key, hkey, hinfix⟩ | hinfix)
    · simp at hmem
    · revert hinfix
      revert key
      decide
    · revert hinfix
      decide
  · refine hexact.removed _ (.inr (.inl ⟨"uid", by decide, ?_⟩))
    exact List.infix_rfl

end K8sDev.Results

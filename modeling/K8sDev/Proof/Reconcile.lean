import K8sDev.Spec.Reconcile

/-!
# Reconciliation converges while no key is dropped

Runs of `reconcile` that may die anywhere, with edits of `desired` in between.

* `reconcile_converges`: there is at most one effect; a run that finishes without an edit leaves
  the observed value, and the effect's data equals that of `desired` exactly when the last write
  left no key behind. It leaves none behind if every patch finds only keys that `desired` has.
* `stale_key`: a key removed from `desired` stays in the effect.
-/

namespace K8sDev.Reconcile

open Json

/-! ## The object `desired` -/

/-- An object that `reconcile` can read: its uid, and its data with the key `value`. -/
structure IsDesired (uid : String) (data : List (String × String)) (d : Json) : Prop where
  hasUid : d.path? ["metadata", "uid"] = some (.str uid)
  hasData : d.get? "data" = some (.obj (strings data))
  nodup : (data.map Prod.fst).Nodup
  hasValue : (data.lookup "value").isSome
  unlabelled : isEffect d = false

theorem isEffect_congr {d d' : Json}
    (h : d'.path? ["metadata", "labels"] = d.path? ["metadata", "labels"]) :
    isEffect d' = isEffect d := by
  have hpath : ∀ d : Json, d.path? ["metadata", "labels", "app"] =
      (d.path? ["metadata", "labels"]).bind fun v => v.path? ["app"] :=
    fun d => path?_append d ["metadata", "labels"] ["app"]
  unfold isEffect
  rw [hpath, hpath, h]

variable {uid : String} {data : List (String × String)} {d : Json}

theorem view_desired (h : IsDesired uid data d) : view d = some (uid, .obj (strings data)) := by
  simp only [view, h.hasUid, h.hasData]

theorem dataOf_desired (h : IsDesired uid data d) : dataOf d = strings data := by
  rw [dataOf, h.hasData]
  rfl

theorem value_desired (h : IsDesired uid data d) :
    ∃ s, d.path? ["data", "value"] = some (.str s) := by
  obtain ⟨s, hs⟩ := Option.isSome_iff_exists.1 h.hasValue
  refine ⟨s, ?_⟩
  rw [path?_cons, h.hasData, Option.bind_some, path?_singleton, get?_obj, lookup_strings, hs]
  rfl

/-- An edit replaces the data. -/
theorem edit_desired (h : IsDesired uid data d) {data' : List (String × String)}
    (hnodup : (data'.map Prod.fst).Nodup) (hvalue : (data'.lookup "value").isSome) :
    IsDesired uid data' (.obj (setMember "data" (.obj (strings data')) d.membersOf)) := by
  have hget : ∀ key, key ≠ "data" →
      (Json.obj (setMember "data" (.obj (strings data')) d.membersOf)).get? key = d.get? key := by
    intro key hkey
    rw [get?_obj, lookup_setMember, if_neg hkey, get?_eq]
  refine ⟨?_, ?_, hnodup, hvalue, ?_⟩
  · rw [path?_cons, hget _ (by decide), ← path?_cons]
    exact h.hasUid
  · rw [get?_obj, lookup_setMember, if_pos rfl]
  · rw [isEffect_congr (d := d) ?_, h.unlabelled]
    rw [path?_cons, hget _ (by decide), ← path?_cons]

/-- The annotation of the observed value changes nothing but itself. -/
theorem annotate_desired (h : IsDesired uid data d) (s : String) :
    IsDesired uid data ((observedPatch (.str s)).mergePatch (some d)) ∧
      ((observedPatch (.str s)).mergePatch (some d)).path? ["metadata", "annotations", observed] =
        some (.str s) := by
  set d' := (observedPatch (.str s)).mergePatch (some d)
  have hmetadata : d'.get? "metadata" =
      some ((Json.obj [("annotations", .obj [(observed, .str s)])]).mergePatch (d.get? "metadata")) :=
    get?_mergePatch_single _ _ _ _
  have hother : ∀ key, key ≠ "metadata" → d'.get? key = d.get? key := fun key hkey => by
    rw [show d' = (observedPatch (.str s)).mergePatch (some d) from rfl, observedPatch,
      get?_mergePatch_single, if_neg hkey]
    rfl
  have hinner : ∀ key, key ≠ "annotations" →
      d'.path? ["metadata", key] = d.path? ["metadata", key] := fun key hkey => by
    rw [path?_cons, hmetadata, Option.bind_some, path?_singleton, get?_mergePatch_single,
      if_neg hkey, path?_cons]
    simp only [path?_singleton]
  refine ⟨⟨?_, ?_, h.nodup, h.hasValue, ?_⟩, ?_⟩
  · rw [hinner _ (by decide), h.hasUid]
  · rw [hother _ (by decide), h.hasData]
  · rw [isEffect_congr (hinner _ (by decide)), h.unlabelled]
  · rw [path?_cons, hmetadata, Option.bind_some, path?_cons, get?_mergePatch_single, if_pos rfl]
    simp only [mergeValue, Option.bind_some, path?_singleton]
    rw [get?_mergePatch_single, if_pos rfl]
    rfl

/-! ## The data of the effect -/

/-- The two objects have equal data. -/
def SameData (e d : Json) : Prop := ∃ x y, e.get? "data" = some x ∧ d.get? "data" = some y ∧ Same x y

theorem sameData_congr {e d d' : Json} (h : d'.get? "data" = d.get? "data") :
    SameData e d' ↔ SameData e d := by
  unfold SameData
  rw [h]

theorem sameData_create (h : IsDesired uid data d) (name : String) :
    SameData (effectObject name (.obj (strings data))) d :=
  ⟨_, _, rfl, h.hasData, .refl _⟩

/-- A patch brings the data over exactly when it leaves no key behind. -/
theorem sameData_patch (h : IsDesired uid data d) (e : Json) :
    SameData ((Json.obj [("data", .obj (strings data))]).mergePatch (some e)) d ↔
      keysKept (dataOf e) (dataOf d) = true := by
  have hdata : ((Json.obj [("data", .obj (strings data))]).mergePatch (some e)).get? "data" =
      some (.obj (mergeMembers (strings data) (dataOf e))) :=
    get?_mergePatch_single _ _ _ _
  rw [dataOf_desired h, ← same_mergeStrings_iff h.nodup]
  unfold SameData
  rw [hdata, h.hasData]
  constructor
  · rintro ⟨x, y, hx, hy, hsame⟩
    rw [Option.some.inj hx, Option.some.inj hy]
    exact hsame
  · intro hsame
    exact ⟨_, _, rfl, rfl, hsame⟩

/-! ## The objects of the namespace -/

theorem effectName_ne (uid : String) : effectName uid ≠ "desired" := by
  intro h
  have hlist := congrArg String.toList h
  rw [effectName, String.toList_append] at hlist
  -- the first letters differ
  exact absurd (List.cons.inj hlist).1 (by decide)

/-- One object a name, `desired` among them, and only effects of this uid. -/
structure Holds (uid : String) (objects : Objects) : Prop where
  names : (objects.map Prod.fst).Nodup
  desired : ∃ d data, objects.lookup "desired" = some d ∧ IsDesired uid data d
  labelled : ∀ o ∈ objects, isEffect o.2 = true → o.1 = effectName uid

variable {objects : Objects}

theorem holds_desired (h : Holds uid objects) (hd : IsDesired uid data d) :
    Holds uid (setMember "desired" d objects) := by
  refine ⟨nodup_setMember h.names, ⟨d, data, ?_, hd⟩, fun o ho heffect => ?_⟩
  · rw [lookup_setMember, if_pos rfl]
  · rcases mem_setMember ho with rfl | ho
    · rw [hd.unlabelled] at heffect
      cases heffect
    · exact h.labelled o ho heffect

theorem holds_patch (h : Holds uid objects) (e : Json) :
    Holds uid (setMember (effectName uid) e objects) := by
  obtain ⟨d, data, hlookup, hd⟩ := h.desired
  refine ⟨nodup_setMember h.names, ⟨d, data, ?_, hd⟩, fun o ho heffect => ?_⟩
  · rw [lookup_setMember, if_neg (effectName_ne uid).symm, hlookup]
  · rcases mem_setMember ho with rfl | ho
    · rfl
    · exact h.labelled o ho heffect

theorem holds_create (h : Holds uid objects) (hnone : objects.lookup (effectName uid) = none)
    (e : Json) : Holds uid (objects ++ [(effectName uid, e)]) := by
  obtain ⟨d, data, hlookup, hd⟩ := h.desired
  refine ⟨?_, ⟨d, data, ?_, hd⟩, fun o ho heffect => ?_⟩
  · rw [List.map_append]
    refine List.Nodup.append h.names (List.nodup_singleton _) ?_
    rw [List.map_singleton, List.disjoint_singleton]
    intro hmem
    obtain ⟨o, ho, hname⟩ := List.mem_map.1 hmem
    have hsome : (objects.lookup (effectName uid)).isSome :=
      List.lookup_isSome_iff.2 ⟨o, ho, beq_iff_eq.2 hname.symm⟩
    rw [hnone] at hsome
    cases hsome
  · rw [List.lookup_append, hlookup]
    rfl
  · rcases List.mem_append.1 ho with ho | ho
    · exact h.labelled o ho heffect
    · rw [List.mem_singleton.1 ho]

/-- **At most one effect.** -/
theorem one_effect (h : Holds uid objects) : (objects.filter fun o => isEffect o.2).length ≤ 1 := by
  set effects := objects.filter fun o => isEffect o.2
  have hnodup : (effects.map Prod.fst).Nodup :=
    h.names.sublist (List.filter_sublist.map Prod.fst)
  have hall : ∀ name ∈ effects.map Prod.fst, name = effectName uid := by
    intro name hname
    obtain ⟨o, ho, rfl⟩ := List.mem_map.1 hname
    obtain ⟨hmem, heffect⟩ := List.mem_filter.1 ho
    exact h.labelled o hmem heffect
  rw [List.eq_replicate_of_mem hall, List.nodup_replicate, List.length_map] at hnodup
  exact hnodup

/-! ## The invariant -/

/-- The run has read `d`, and `desired` is still that unless it was edited. -/
structure Snapshot (uid : String) (s : Cluster) (d : Json) : Prop where
  desired : ∃ data, IsDesired uid data d
  current : s.edited = false → s.objects.lookup "desired" = some d

/-- The effect is there, with the data of `d` exactly if no key was left behind. -/
def Wrote (uid : String) (s : Cluster) (d : Json) : Prop :=
  ∃ e, s.objects.lookup (effectName uid) = some e ∧ (SameData e d ↔ s.kept = true)

/-- The annotation of `d` is its value. -/
def Observed (d : Json) : Prop :=
  ∃ s, d.path? ["data", "value"] = some (.str s) ∧
    d.path? ["metadata", "annotations", observed] = some (.str s)

/-- What holds where the run is. -/
def AtPc (uid : String) (s : Cluster) : Prop :=
  match s.pc with
  | .idle => True
  | .read d => Snapshot uid s d
  | .present d => Snapshot uid s d ∧ (s.objects.lookup (effectName uid)).isSome
  | .written d => Snapshot uid s d ∧ Wrote uid s d
  | .finished => s.edited = false →
    ∃ d, s.objects.lookup "desired" = some d ∧ Observed d ∧ Wrote uid s d

structure Inv (uid : String) (s : Cluster) : Prop where
  holds : Holds uid s.objects
  atPc : AtPc uid s

variable {s t : Cluster}

theorem inv_dead (h : Inv uid s) : Inv uid s.dead := ⟨h.holds, trivial⟩

theorem inv_edit (h : Inv uid s) {data : List (String × String)} (hst : s.edit data = some t) :
    Inv uid t := by
  unfold Cluster.edit at hst
  split at hst
  · rename_i hdata
    obtain ⟨d, hlookup, rfl⟩ := Option.map_eq_some_iff.1 hst
    obtain ⟨d', data', hlookup', hd⟩ := h.holds.desired
    obtain rfl := Option.some.inj (hlookup.symm.trans hlookup')
    have heffect : ∀ d', (setMember "desired" d' s.objects).lookup (effectName uid) =
        s.objects.lookup (effectName uid) := fun d' => by
      rw [lookup_setMember, if_neg (effectName_ne uid)]
    refine ⟨holds_desired h.holds (edit_desired hd hdata.1 hdata.2), ?_⟩
    have hat := h.atPc
    unfold AtPc at hat ⊢
    cases hpc : s.pc with
    | idle => trivial
    | read d =>
      rw [hpc] at hat
      exact ⟨hat.desired, nofun⟩
    | present d =>
      rw [hpc] at hat
      refine ⟨⟨hat.1.desired, nofun⟩, ?_⟩
      simp only [heffect]
      exact hat.2
    | written d =>
      rw [hpc] at hat
      obtain ⟨e, he, hsame⟩ := hat.2
      exact ⟨⟨hat.1.desired, nofun⟩, e, (heffect _).trans he, hsame⟩
    | finished => exact nofun
  · cases hst

theorem inv_get (h : Inv uid s) : Inv uid s.get := by
  obtain ⟨d, data, hlookup, hd⟩ := h.holds.desired
  unfold Cluster.get
  rw [hlookup]
  exact ⟨h.holds, ⟨data, hd⟩, fun _ => hlookup⟩

theorem inv_create (h : Inv uid s) (hpc : s.pc = .read d) : Inv uid (s.create d) := by
  have hat := h.atPc
  rw [AtPc, hpc] at hat
  obtain ⟨data, hd⟩ := hat.desired
  simp only [Cluster.create, view_desired hd, create]
  cases hlookup : s.objects.lookup (effectName uid) with
  | some e =>
    simp only [Option.isSome_some, if_true]
    refine ⟨h.holds, ⟨⟨data, hd⟩, hat.current⟩, ?_⟩
    simp only [hlookup, Option.isSome_some]
  | none =>
    simp only [Option.isSome_none, Bool.false_eq_true, if_false]
    refine ⟨holds_create h.holds hlookup _, ⟨⟨data, hd⟩, fun hedited => ?_⟩, ?_⟩
    · rw [List.lookup_append, hat.current hedited]
      rfl
    · refine ⟨effectObject (effectName uid) (.obj (strings data)), ?_, iff_of_true ?_ rfl⟩
      · rw [List.lookup_append, hlookup]
        simp
      · exact sameData_create hd _

theorem inv_patch (h : Inv uid s) (hpc : s.pc = .present d) : Inv uid (s.patch d) := by
  have hat := h.atPc
  rw [AtPc, hpc] at hat
  obtain ⟨⟨⟨data, hd⟩, hcurrent⟩, hsome⟩ := hat
  obtain ⟨e, he⟩ := Option.isSome_iff_exists.1 hsome
  simp only [Cluster.patch, view_desired hd, patch, he, Option.map_some]
  refine ⟨holds_patch h.holds _, ⟨⟨data, hd⟩, fun hedited => ?_⟩, ?_⟩
  · rw [lookup_setMember, if_neg (effectName_ne uid).symm]
    exact hcurrent hedited
  · refine ⟨_, ?_, sameData_patch hd e⟩
    rw [lookup_setMember, if_pos rfl]

theorem inv_annotate (h : Inv uid s) (hpc : s.pc = .written d) : Inv uid (s.annotate d) := by
  have hat := h.atPc
  rw [AtPc, hpc] at hat
  obtain ⟨⟨⟨data, hd⟩, hcurrent⟩, e, he, hsame⟩ := hat
  obtain ⟨value, hvalue⟩ := value_desired hd
  obtain ⟨d', data', hlookup, hd'⟩ := h.holds.desired
  obtain ⟨hdesired, hobserved⟩ := annotate_desired hd' value
  simp only [Cluster.annotate, hvalue, patch, hlookup, Option.map_some]
  refine ⟨holds_desired h.holds hdesired, fun hedited => ?_⟩
  obtain rfl := Option.some.inj ((hcurrent hedited).symm.trans hlookup)
  -- unedited, the object that is annotated is the one that was read
  have hdata : ((observedPatch (.str value)).mergePatch (some d)).get? "data" = d.get? "data" := by
    rw [hdesired.hasData, hd'.hasData]
  refine ⟨_, ?_, ⟨value, ?_, hobserved⟩, e, ?_, ?_⟩
  · rw [lookup_setMember, if_pos rfl]
  · rw [path?_cons, hdata, ← path?_cons, hvalue]
  · rw [lookup_setMember, if_neg (effectName_ne uid)]
    exact he
  · rw [sameData_congr hdata]
    exact hsame

theorem inv_step {a : Action} (h : Inv uid s) (hst : s.step a = some t) : Inv uid t := by
  unfold Cluster.step at hst
  split at hst
  · exact inv_edit h hst
  · exact Option.some.inj hst ▸ inv_get h
  · exact Option.some.inj hst ▸ inv_get h
  · rename_i hpc
    exact Option.some.inj hst ▸ inv_create h hpc
  · rename_i hpc
    exact Option.some.inj hst ▸ inv_patch h hpc
  · rename_i hpc
    exact Option.some.inj hst ▸ inv_annotate h hpc
  · exact Option.some.inj hst ▸ inv_dead h
  · exact Option.some.inj hst ▸ inv_dead h
  · exact Option.some.inj hst ▸ inv_dead h
  · cases hst

/-! ## Runs -/

theorem inv (hstart : Holds uid objects) (h : (cluster objects).Reachable s) : Inv uid s := by
  refine Lts.Reachable.invariant ?_ ?_ h
  · rintro s rfl
    exact ⟨hstart, trivial⟩
  · intro s a t _ hs hst
    exact inv_step hs hst

/-- A patch finds no key in the effect that the data read does not have. -/
def KeepsKeys (s : Cluster) : Action → Cluster → Prop
  | .patch, _ => ∀ d uid data e, s.pc = .present d → view d = some (uid, data) →
      s.objects.lookup (effectName uid) = some e → keysKept (dataOf e) (dataOf d) = true
  | _, _ => True

theorem kept_edit {data : List (String × String)} (hst : s.edit data = some t) : t.kept = s.kept := by
  unfold Cluster.edit at hst
  split at hst
  · obtain ⟨d, -, rfl⟩ := Option.map_eq_some_iff.1 hst
    rfl
  · cases hst

theorem kept_get (s : Cluster) : s.get.kept = s.kept := by
  unfold Cluster.get
  split <;> rfl

theorem kept_create (h : s.kept = true) (d : Json) : (s.create d).kept = true := by
  unfold Cluster.create
  split
  · exact h
  · split
    · rfl
    · exact h

theorem kept_annotate (s : Cluster) (d : Json) : (s.annotate d).kept = s.kept := by
  unfold Cluster.annotate
  split
  · rfl
  · split <;> rfl

theorem kept_patch (h : s.kept = true) (hpc : s.pc = .present d)
    (hkeeps : KeepsKeys s .patch t) : (s.patch d).kept = true := by
  unfold Cluster.patch
  split
  · exact h
  · rename_i uid data hview
    split
    · rename_i e objects he _
      exact hkeeps d uid data e hpc hview he
    · exact h

theorem kept (h : ((cluster objects).restrict KeepsKeys).Reachable s) : s.kept = true := by
  refine Lts.Reachable.invariant (P := fun s => s.kept = true) ?_ ?_ h
  · rintro s rfl
    rfl
  · rintro s a t - hs ⟨hst, hkeeps⟩
    change s.step a = some t at hst
    unfold Cluster.step at hst
    split at hst
    · rw [kept_edit hst, hs]
    · rw [← Option.some.inj hst, kept_get, hs]
    · rw [← Option.some.inj hst, kept_get, hs]
    · exact Option.some.inj hst ▸ kept_create hs _
    · rename_i hpc
      exact Option.some.inj hst ▸ kept_patch hs hpc hkeeps
    · rw [← Option.some.inj hst, kept_annotate, hs]
    · rw [← Option.some.inj hst]; exact hs
    · rw [← Option.some.inj hst]; exact hs
    · rw [← Option.some.inj hst]; exact hs
    · cases hst

/-- A run has finished, and `desired` has not been edited since it was read. -/
def Cluster.Quiet (s : Cluster) : Prop :=
  match s.pc with
  | .finished => s.edited = false
  | _ => False

/-- **Reconciliation.** There is at most one effect. After a run that has finished without an
edit, the observed value is that of `desired`, and the data is equal exactly when the last write
left no key behind; so it is in every run whose patches keep the keys. -/
theorem reconcile_converges (hstart : Holds uid objects) (h : (cluster objects).Reachable s) :
    (s.objects.filter fun o => isEffect o.2).length ≤ 1 ∧
    (s.Quiet → ∃ d e, s.objects.lookup "desired" = some d ∧
      s.objects.lookup (effectName uid) = some e ∧ Observed d ∧ (SameData e d ↔ s.kept = true)) ∧
    (((cluster objects).restrict KeepsKeys).Reachable s → s.Quiet →
      ∃ d e, s.objects.lookup "desired" = some d ∧ s.objects.lookup (effectName uid) = some e ∧
        Observed d ∧ SameData e d) := by
  have hinv := inv hstart h
  have hdone : s.Quiet → ∃ d e, s.objects.lookup "desired" = some d ∧
      s.objects.lookup (effectName uid) = some e ∧ Observed d ∧ (SameData e d ↔ s.kept = true) := by
    intro hquiet
    have hat := hinv.atPc
    unfold Cluster.Quiet at hquiet
    split at hquiet
    · rename_i hpc
      rw [AtPc, hpc] at hat
      obtain ⟨d, hd, hobserved, e, he, hsame⟩ := hat hquiet
      exact ⟨d, e, hd, he, hobserved, hsame⟩
    · cases hquiet
  refine ⟨one_effect hinv.holds, hdone, fun hkeeps hquiet => ?_⟩
  obtain ⟨d, e, hd, he, hobserved, hsame⟩ := hdone hquiet
  exact ⟨d, e, hd, he, hobserved, hsame.2 (kept hkeeps)⟩

/-! ## A key that is removed -/

/-- `desired` with two keys. -/
def twoKeys : Objects :=
  [("desired", .obj [("metadata", .obj [("name", .str "desired"), ("uid", .str "7")]),
    ("data", .obj (strings [("value", "one"), ("extra", "x")]))])]

theorem twoKeys_holds : Holds "7" twoKeys where
  names := by decide
  desired := ⟨_, [("value", "one"), ("extra", "x")], rfl, rfl, rfl, by decide, rfl, rfl⟩
  labelled o ho h := by
    obtain rfl := List.mem_singleton.1 ho
    cases h

/-- A full run, an edit that removes a key, and another full run. -/
def removing : List Action :=
  [.get, .create, .annotate, .edit [("value", "two")], .get, .create, .patch, .annotate]

def removed : Cluster := (removing.foldlM Cluster.step { objects := twoKeys }).get rfl

theorem removed_reachable : (cluster twoKeys).Reachable removed :=
  ⟨_, removing, rfl, Lts.run_of_foldlM _ (Option.some_get _).symm⟩

/-- The key stays in the effect. -/
theorem stale_key : Holds "7" twoKeys ∧ (cluster twoKeys).Reachable removed ∧ removed.Quiet ∧
    ∃ d e, removed.objects.lookup "desired" = some d ∧
      removed.objects.lookup (effectName "7") = some e ∧ ¬ SameData e d := by
  refine ⟨twoKeys_holds, removed_reachable, rfl, _, _, rfl, rfl, ?_⟩
  rintro ⟨x, y, hx, hy, hsame⟩
  obtain rfl := Option.some.inj hx
  obtain rfl := Option.some.inj hy
  exact absurd (hsame.isSome_get? "extra") (by decide)

theorem reconcile_converges_removed :
    ∃ d e, removed.objects.lookup "desired" = some d ∧
      removed.objects.lookup (effectName "7") = some e ∧ Observed d ∧
      (SameData e d ↔ removed.kept = true) :=
  (reconcile_converges twoKeys_holds removed_reachable).2.1 rfl

end K8sDev.Reconcile

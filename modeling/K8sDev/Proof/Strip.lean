import K8sDev.Spec.Strip

/-!
# What stripping makes of a value

* `at?_strip`: what the result has at a path, from what the value has there.
* `strip_withoutServerSide`: exactly the metadata of the server is gone.
* `strip_idem`: stripping again changes nothing.
-/

namespace K8sDev.Results

open Json

variable {p : List Step} {s : Step} {key : String} {j u : Json} {ms : List (String × Json)}

/-! ## One level -/

theorem stripElems_eq_map (js : List Json) : stripElems js = js.map strip := by
  induction js with
  | nil => rfl
  | cons j js ih => rw [stripElems, List.map_cons, ih]

theorem lookup_stripMembers (ms : List (String × Json)) (key : String) :
    (stripMembers ms).lookup key =
      if key = "managedFields" then none else (ms.lookup key).map strip := by
  induction ms with
  | nil => simp [stripMembers]
  | cons m ms ih =>
    obtain ⟨k, v⟩ := m
    rw [stripMembers, lookup_cons]
    by_cases hk : k = "managedFields"
    · rw [if_pos hk, ih]
      by_cases h : key = "managedFields"
      · rw [if_pos h, if_pos h]
      · rw [if_neg h, if_neg h, if_neg (by rw [hk]; exact h)]
    · rw [if_neg hk, lookup_cons, ih]
      by_cases h : key = k
      · subst h
        rw [if_pos rfl, if_neg hk, if_pos rfl]
        rfl
      · rw [if_neg h, if_neg h]

theorem lookup_cleanMetadataMembers (m : List (String × Json)) (key : String) :
    (cleanMetadataMembers m).lookup key =
      if key ∈ runtimeKeys then none
      else (m.lookup key).map fun w => if key = "annotations" then cleanAnnotations w else w := by
  rw [cleanMetadataMembers, lookup_mapMember, lookup_eraseMembers]
  by_cases hkey : key ∈ runtimeKeys <;> simp [hkey]

theorem child?_strip (j : Json) (s : Step) :
    (strip j).child? s =
      if s = .key "managedFields" then none
      else (j.child? s).map fun w =>
        if s = .key "metadata" then cleanMetadata (strip w) else strip w := by
  cases j <;> cases s <;>
    simp only [strip, child?, reduceCtorEq, if_false, Option.map_none, ite_self]
  case arr.index elems i =>
    rw [stripElems_eq_map, List.getElem?_map]
  case obj.key members name =>
    rw [cleanMembers, lookup_mapMember, lookup_stripMembers]
    by_cases hmanaged : name = "managedFields"
    · simp [hmanaged]
    · simp [hmanaged, Function.comp_def]

theorem child?_cleanMetadata (u : Json) (s : Step) :
    (cleanMetadata u).child? s =
      if ∃ key ∈ runtimeKeys, s = .key key then none
      else (u.child? s).map fun w => if s = .key "annotations" then cleanAnnotations w else w := by
  cases u <;> cases s <;> simp [cleanMetadata, child?, lookup_cleanMetadataMembers]

theorem child?_cleanAnnotations (u : Json) (s : Step) :
    (cleanAnnotations u).child? s = if s = .key lastApplied then none else u.child? s := by
  cases u <;> cases s <;> simp [cleanAnnotations, child?, lookup_eraseMember]

/-! ## Paths -/

/-- What is done in place to the value at a path. -/
def settle (p : List Step) (u : Json) : Json :=
  if [.key "metadata"] <:+ p then cleanMetadata u
  else if [.key "metadata", .key "annotations"] <:+ p then cleanAnnotations u
  else u

/-- This step leads to something that is removed. -/
def Enters (p : List Step) (s : Step) : Prop :=
  s = .key "managedFields" ∨
    ((∃ key ∈ runtimeKeys, s = .key key) ∧ [.key "metadata"] <:+ p) ∨
    (s = .key lastApplied ∧ [.key "metadata", .key "annotations"] <:+ p)

theorem suffix_concat {l : List Step} {t : Step} : l ++ [t] <:+ p ++ [s] ↔ l <:+ p ∧ t = s := by
  rw [List.suffix_concat_iff]
  constructor
  · rintro (hnil | ⟨l', heq, hl'⟩)
    · simp at hnil
    · obtain ⟨rfl, ht⟩ := List.append_inj' heq rfl
      exact ⟨hl', List.singleton_inj.1 ht⟩
  · rintro ⟨hl, rfl⟩
    exact .inr ⟨l, rfl, hl⟩

theorem infix_concat {l : List Step} {t : Step} :
    l ++ [t] <:+: p ++ [s] ↔ l ++ [t] <:+: p ∨ (l <:+ p ∧ t = s) := by
  rw [List.infix_concat_iff, suffix_concat, or_comm]

theorem serverSide_concat : ServerSide (p ++ [s]) ↔ ServerSide p ∨ Enters p s := by
  have hpair : ∀ key, [.key "metadata", .key key] <:+: p ++ [s] ↔
      [.key "metadata", .key key] <:+: p ∨ ([.key "metadata"] <:+ p ∧ .key key = s) :=
    fun key => infix_concat (l := [.key "metadata"])
  have htriple : [.key "metadata", .key "annotations", .key lastApplied] <:+: p ++ [s] ↔
      [.key "metadata", .key "annotations", .key lastApplied] <:+: p ∨
        ([.key "metadata", .key "annotations"] <:+ p ∧ .key lastApplied = s) :=
    infix_concat (l := [.key "metadata", .key "annotations"])
  unfold ServerSide Enters
  unfold lastApplied at htriple ⊢
  rw [htriple]
  simp only [hpair, List.mem_append, List.mem_singleton, runtimeKeys]
  constructor
  · rintro ((h | h) | ⟨key, hkey, h | ⟨h, hs⟩⟩ | h | ⟨h, hs⟩)
    · exact .inl (.inl h)
    · exact .inr (.inl h.symm)
    · exact .inl (.inr (.inl ⟨key, hkey, h⟩))
    · exact .inr (.inr (.inl ⟨⟨key, hkey, hs.symm⟩, h⟩))
    · exact .inl (.inr (.inr h))
    · exact .inr (.inr (.inr ⟨hs.symm, h⟩))
  · rintro ((h | ⟨key, hkey, h⟩ | h) | h | ⟨⟨key, hkey, hs⟩, h⟩ | ⟨hs, h⟩)
    · exact .inl (.inl h)
    · exact .inr (.inl ⟨key, hkey, .inl h⟩)
    · exact .inr (.inr (.inl h))
    · exact .inl (.inr h.symm)
    · exact .inr (.inl ⟨key, hkey, .inr ⟨h, hs.symm⟩⟩)
    · exact .inr (.inr (.inr ⟨h, hs.symm⟩))

theorem not_serverSide_nil : ¬ServerSide [] := by
  rintro (h | ⟨_, _, h⟩ | h)
  · cases h
  · simp at h
  · simp at h

theorem settle_concat (p : List Step) (s : Step) (u : Json) :
    settle (p ++ [s]) u =
      if s = .key "metadata" then cleanMetadata u
      else if s = .key "annotations" ∧ [.key "metadata"] <:+ p then cleanAnnotations u
      else u := by
  have hone : [.key "metadata"] <:+ p ++ [s] ↔ s = .key "metadata" := by
    rw [show [Step.key "metadata"] = [] ++ [.key "metadata"] from rfl, suffix_concat]
    exact ⟨fun h => h.2.symm, fun h => ⟨List.nil_suffix, h.symm⟩⟩
  have htwo : [.key "metadata", .key "annotations"] <:+ p ++ [s] ↔
      s = .key "annotations" ∧ [.key "metadata"] <:+ p := by
    rw [show [Step.key "metadata", .key "annotations"] = [.key "metadata"] ++ [.key "annotations"]
      from rfl, suffix_concat]
    exact ⟨fun h => ⟨h.2.symm, h.1⟩, fun h => ⟨h.2, h.1.symm⟩⟩
  unfold settle
  simp only [hone, htwo]

theorem not_metadata_annotations (h : [.key "metadata"] <:+ p) :
    ¬[.key "metadata", .key "annotations"] <:+ p := by
  rintro ⟨q', hq'⟩
  obtain ⟨q, rfl⟩ := h
  have hlast := congrArg List.getLast? hq'
  simp at hlast

theorem child?_settle_of_enters (h : Enters p s) (u : Json) :
    (settle p (strip u)).child? s = none := by
  have hmanaged : s = .key "managedFields" → (strip u).child? s = none :=
    fun hs => by rw [child?_strip, if_pos hs]
  unfold settle
  split
  · rename_i hm
    rw [child?_cleanMetadata]
    rcases h with hs | ⟨hkey, -⟩ | ⟨-, ha⟩
    · rw [hmanaged hs]
      simp
    · rw [if_pos hkey]
    · exact absurd ha (not_metadata_annotations hm)
  · rename_i hm
    split
    · rw [child?_cleanAnnotations]
      rcases h with hs | ⟨-, hm'⟩ | ⟨hs, -⟩
      · rw [hmanaged hs, ite_self]
      · exact absurd hm' hm
      · rw [if_pos hs]
    · rename_i ha
      rcases h with hs | ⟨-, hm'⟩ | ⟨-, ha'⟩
      · exact hmanaged hs
      · exact absurd hm' hm
      · exact absurd ha' ha

theorem child?_settle (h : ¬Enters p s) (u : Json) :
    (settle p (strip u)).child? s =
      (u.child? s).map fun w => settle (p ++ [s]) (strip w) := by
  have hmanaged : s ≠ .key "managedFields" := fun hs => h (.inl hs)
  have hkeys : (∃ key ∈ runtimeKeys, s = .key key) → ¬[.key "metadata"] <:+ p :=
    fun hk hm => h (.inr (.inl ⟨hk, hm⟩))
  have hlast : s = .key lastApplied → ¬[.key "metadata", .key "annotations"] <:+ p :=
    fun hs ha => h (.inr (.inr ⟨hs, ha⟩))
  simp only [settle_concat]
  unfold settle
  split
  · rename_i hm
    have hkey : ¬∃ key ∈ runtimeKeys, s = .key key := fun hk => hkeys hk hm
    rw [child?_cleanMetadata, if_neg hkey, child?_strip, if_neg hmanaged, Option.map_map]
    congr 1
    funext w
    by_cases hs : s = .key "metadata"
    · simp [hs]
    · simp [hs, hm]
  · rename_i hm
    have hstep : (strip u).child? s = (u.child? s).map fun w =>
        if s = .key "metadata" then cleanMetadata (strip w)
        else if s = .key "annotations" ∧ [.key "metadata"] <:+ p then cleanAnnotations (strip w)
        else strip w := by
      rw [child?_strip, if_neg hmanaged]
      simp [hm]
    split
    · rename_i ha
      rw [child?_cleanAnnotations, if_neg fun hs => hlast hs ha, hstep]
    · exact hstep

/-- **What the result has at a path.** Nothing where the server writes; elsewhere what the value
has there, stripped. -/
theorem at?_strip (j : Json) (p : List Step) :
    (ServerSide p → (strip j).at? p = none) ∧
      (¬ServerSide p → (strip j).at? p = (j.at? p).map fun w => settle p (strip w)) := by
  induction p using List.reverseRecOn with
  | nil => exact ⟨fun h => absurd h not_serverSide_nil, fun _ => rfl⟩
  | append_singleton p s ih =>
    rw [serverSide_concat, at?_concat, at?_concat]
    constructor
    · intro h
      by_cases hp : ServerSide p
      · rw [ih.1 hp]
        rfl
      · have hs : Enters p s := h.resolve_left hp
        rw [ih.2 hp]
        cases j.at? p with
        | none => rfl
        | some w => exact child?_settle_of_enters hs w
    · intro h
      have hp : ¬ServerSide p := fun hp => h (.inl hp)
      have hs : ¬Enters p s := fun hs => h (.inr hs)
      rw [ih.2 hp]
      cases j.at? p with
      | none => rfl
      | some w => exact child?_settle hs w

/-! ## What it keeps -/

theorem keys_stripMembers (ms : List (String × Json)) :
    ((stripMembers ms).map Prod.fst).Sublist (ms.map Prod.fst) := by
  induction ms with
  | nil => exact List.Sublist.refl _
  | cons m ms ih =>
    obtain ⟨k, v⟩ := m
    rw [stripMembers]
    split
    · exact ih.cons k
    · exact ih.cons_cons k

theorem keys_cleanMembers (ms : List (String × Json)) :
    (cleanMembers ms).map Prod.fst = ms.map Prod.fst :=
  keys_mapMember "metadata" cleanMetadata ms

theorem keys_cleanMetadataMembers (m : List (String × Json)) :
    ((cleanMetadataMembers m).map Prod.fst).Sublist (m.map Prod.fst) := by
  rw [cleanMetadataMembers, keys_mapMember]
  exact keys_eraseMembers runtimeKeys m

theorem settle_cases (p : List Step) (u : Json) :
    settle p u = cleanMetadata u ∨ settle p u = cleanAnnotations u ∨ settle p u = u := by
  unfold settle
  split
  · exact .inl rfl
  · split
    · exact .inr (.inl rfl)
    · exact .inr (.inr rfl)

theorem settle_leaf {x : Json} (h : x.isLeaf = true) (p : List Step) : settle p (strip x) = x := by
  cases x with
  | arr elems =>
    rw [isLeaf, List.isEmpty_iff] at h
    subst h
    rcases settle_cases p (strip (.arr [])) with heq | heq | heq <;> rw [heq] <;> rfl
  | obj members =>
    rw [isLeaf, List.isEmpty_iff] at h
    subst h
    rcases settle_cases p (strip (.obj [])) with heq | heq | heq <;> rw [heq] <;> rfl
  | _ => rcases settle_cases p (strip _) with heq | heq | heq <;> rw [heq] <;> rfl

theorem shape_settle (p : List Step) (x : Json) : Shape x (settle p (strip x)) := by
  cases x with
  | arr elems =>
    have hlen : (stripElems elems).length = elems.length := by
      rw [stripElems_eq_map, List.length_map]
    have hsame : settle p (strip (.arr elems)) = .arr (stripElems elems) := by
      rcases settle_cases p (strip (.arr elems)) with heq | heq | heq <;> rw [heq] <;> rfl
    rw [hsame]
    exact .list hlen
  | obj members =>
    have hkeys : ((cleanMembers (stripMembers members)).map Prod.fst).Sublist
        (members.map Prod.fst) := by
      rw [keys_cleanMembers]
      exact keys_stripMembers members
    rcases settle_cases p (strip (.obj members)) with heq | heq | heq
    · rw [heq]
      exact .object ((keys_cleanMetadataMembers _).trans hkeys)
    · rw [heq]
      exact .object ((List.filter_sublist.map Prod.fst).trans hkeys)
    · rw [heq]
      exact .object hkeys
  | _ =>
    rw [settle_leaf rfl]
    exact .same _

/-- **Exactly the metadata of the server is gone.** -/
theorem strip_withoutServerSide (j : Json) : WithoutServerSide j (strip j) where
  leaf p x hx hleaf := by
    constructor
    · intro hstrip hp
      rw [(at?_strip j p).1 hp] at hstrip
      cases hstrip
    · intro hp
      rw [(at?_strip j p).2 hp, hx, Option.map_some, settle_leaf hleaf]
  removed p hp := (at?_strip j p).1 hp
  kept p x hp hx := by
    refine ⟨settle p (strip x), ?_, shape_settle p x⟩
    rw [(at?_strip j p).2 hp, hx, Option.map_some]
  old p y hy := by
    by_cases hp : ServerSide p
    · rw [(at?_strip j p).1 hp] at hy
      cases hy
    · rw [(at?_strip j p).2 hp] at hy
      obtain ⟨x, hx, rfl⟩ := Option.map_eq_some_iff.1 hy
      exact ⟨x, hx, shape_settle p x⟩

/-! ## Stripped values -/

theorem mem_stripMembers {m : String × Json} {ms : List (String × Json)} :
    m ∈ stripMembers ms ↔ m.1 ≠ "managedFields" ∧ ∃ v, (m.1, v) ∈ ms ∧ m.2 = strip v := by
  induction ms with
  | nil => simp [stripMembers]
  | cons w ms ih =>
    obtain ⟨k, w⟩ := w
    obtain ⟨key, v⟩ := m
    rw [stripMembers]
    by_cases hk : k = "managedFields"
    · rw [if_pos hk, ih]
      refine and_congr_right fun hkey => exists_congr fun v => and_congr_left fun _ => ?_
      have hne : (key, v) ≠ (k, w) := fun heq => hkey ((Prod.mk.inj heq).1.trans hk)
      exact ⟨List.mem_cons_of_mem _, fun hmem => (List.mem_cons.1 hmem).resolve_left hne⟩
    · rw [if_neg hk, List.mem_cons, ih]
      constructor
      · rintro (heq | ⟨hkey, v', hmem, hv⟩)
        · obtain ⟨rfl, rfl⟩ := Prod.mk.inj heq
          exact ⟨hk, w, List.mem_cons_self, rfl⟩
        · exact ⟨hkey, v', List.mem_cons_of_mem _ hmem, hv⟩
      · rintro ⟨hkey, v', hmem, hv⟩
        rcases List.mem_cons.1 hmem with heq | hmem
        · obtain ⟨rfl, rfl⟩ := Prod.mk.inj heq
          exact .inl (Prod.ext rfl hv)
        · exact .inr ⟨hkey, v', hmem, hv⟩

/-- What holds of every object before, and is kept by what is done to metadata, holds of every
object afterwards. -/
theorem everywhere_strip {P Q : List (String × Json) → Prop}
    (hmetadata : ∀ m, Q m → Q (cleanMetadataMembers m))
    (hannotations : ∀ m, Q m → Q (eraseMember lastApplied m))
    (hobj : ∀ ms, P ms → Q (cleanMembers (stripMembers ms))) (j : Json) (hj : j.Everywhere P) :
    (strip j).Everywhere Q := by
  have hclean : ∀ u, u.Everywhere Q → (cleanAnnotations u).Everywhere Q := by
    intro u hu
    cases u with
    | obj members =>
      obtain ⟨hQ, hmembers⟩ := everywhere_obj.1 hu
      exact everywhere_obj.2 ⟨hannotations members hQ,
        fun m hm => hmembers m (List.mem_of_mem_filter hm)⟩
    | _ => exact hu
  have hmeta : ∀ u, u.Everywhere Q → (cleanMetadata u).Everywhere Q := by
    intro u hu
    cases u with
    | obj members =>
      obtain ⟨hQ, hmembers⟩ := everywhere_obj.1 hu
      refine everywhere_obj.2 ⟨hmetadata members hQ, forall_mem_mapMember ?_ hclean⟩
      exact fun m hm => hmembers m (mem_eraseMembers.1 hm).1
    | _ => exact hu
  induction j using Json.induction with
  | arr elems ih =>
    rw [strip, stripElems_eq_map]
    refine everywhere_arr.2 fun y hy => ?_
    obtain ⟨x, hx, rfl⟩ := List.mem_map.1 hy
    exact ih x hx (everywhere_arr.1 hj x hx)
  | obj members ih =>
    obtain ⟨hP, hmembers⟩ := everywhere_obj.1 hj
    rw [strip]
    refine everywhere_obj.2 ⟨hobj members hP, forall_mem_mapMember (fun m hm => ?_) hmeta⟩
    obtain ⟨-, v, hv, heq⟩ := mem_stripMembers.1 hm
    rw [heq]
    exact ih (m.1, v) hv (hmembers (m.1, v) hv)
  | _ => trivial

/-- There is nothing to remove from the members themselves, nor from their metadata. -/
structure Bare (ms : List (String × Json)) : Prop where
  managed : ∀ m ∈ ms, m.1 ≠ "managedFields"
  metadata : ∀ u, ms.lookup "metadata" = some u → cleanMetadata u = u

theorem cleanAnnotations_idem (u : Json) :
    cleanAnnotations (cleanAnnotations u) = cleanAnnotations u := by
  cases u with
  | obj members => simp [cleanAnnotations, eraseMember, List.filter_filter]
  | _ => rfl

theorem cleanMetadata_idem (u : Json) : cleanMetadata (cleanMetadata u) = cleanMetadata u := by
  cases u with
  | obj members =>
    have hkeys : eraseMembers runtimeKeys (cleanMetadataMembers members) =
        cleanMetadataMembers members := by
      refine eraseMembers_eq_self fun m hm hkey => ?_
      have hmem : m.1 ∈ (eraseMembers runtimeKeys members).map Prod.fst := by
        rw [← keys_mapMember "annotations" cleanAnnotations]
        exact List.mem_map_of_mem hm
      obtain ⟨m', hm', heq⟩ := List.mem_map.1 hmem
      exact (mem_eraseMembers.1 hm').2 (heq ▸ hkey)
    have hannotations : ∀ v, (cleanMetadataMembers members).lookup "annotations" = some v →
        cleanAnnotations v = v := by
      intro v hv
      rw [cleanMetadataMembers, lookup_mapMember] at hv
      obtain ⟨w, -, rfl⟩ := Option.map_eq_some_iff.1 hv
      rw [if_pos rfl]
      exact cleanAnnotations_idem w
    have hfix : cleanMetadataMembers (cleanMetadataMembers members) =
        cleanMetadataMembers members := by
      conv_lhs => rw [cleanMetadataMembers, hkeys]
      exact mapMember_eq_self.2 hannotations
    rw [cleanMetadata, cleanMetadata, hfix]
  | _ => rfl

theorem bare_cleanMetadataMembers {m : List (String × Json)} (h : Bare m) :
    Bare (cleanMetadataMembers m) where
  managed w hw := by
    have hmem : w.1 ∈ m.map Prod.fst :=
      (keys_cleanMetadataMembers m).subset (List.mem_map_of_mem hw)
    obtain ⟨w', hw', heq⟩ := List.mem_map.1 hmem
    exact heq ▸ h.managed w' hw'
  metadata u hu := by
    have hkey : "metadata" ∉ runtimeKeys := by decide
    rw [lookup_cleanMetadataMembers, if_neg hkey] at hu
    simp only [String.reduceEq, if_false, Option.map_id'] at hu
    exact h.metadata u hu

theorem bare_eraseMember {m : List (String × Json)} (h : Bare m) :
    Bare (eraseMember lastApplied m) where
  managed w hw := h.managed w (List.mem_of_mem_filter hw)
  metadata u hu := by
    have hkey : "metadata" ≠ lastApplied := by decide
    rw [lookup_eraseMember, if_neg hkey] at hu
    exact h.metadata u hu

theorem bare_cleanMembers (ms : List (String × Json)) : Bare (cleanMembers (stripMembers ms)) where
  managed w hw := by
    have hmem : w.1 ∈ (stripMembers ms).map Prod.fst := by
      rw [← keys_cleanMembers]
      exact List.mem_map_of_mem hw
    obtain ⟨w', hw', heq⟩ := List.mem_map.1 hmem
    exact heq ▸ (mem_stripMembers.1 hw').1
  metadata u hu := by
    rw [cleanMembers, lookup_mapMember] at hu
    obtain ⟨w, -, rfl⟩ := Option.map_eq_some_iff.1 hu
    rw [if_pos rfl]
    exact cleanMetadata_idem w

theorem bare_strip (j : Json) : (strip j).Everywhere Bare := by
  have htrue : j.Everywhere fun _ => True := by
    induction j using Json.induction with
    | arr elems ih => exact everywhere_arr.2 ih
    | obj members ih => exact everywhere_obj.2 ⟨trivial, ih⟩
    | _ => trivial
  exact everywhere_strip (Q := Bare) (fun _ => bare_cleanMetadataMembers)
    (fun _ => bare_eraseMember) (fun ms _ => bare_cleanMembers ms) j htrue

theorem stripMembers_of_bare {ms : List (String × Json)} (hbare : Bare ms)
    (h : ∀ m ∈ ms, strip m.2 = m.2) : stripMembers ms = ms := by
  have hmanaged := hbare.managed
  clear hbare
  induction ms with
  | nil => rfl
  | cons m ms ih =>
    obtain ⟨k, v⟩ := m
    rw [List.forall_mem_cons] at h hmanaged
    rw [stripMembers, if_neg hmanaged.1, ih h.2 hmanaged.2, h.1]

/-- A value with nothing to remove stays as it is. -/
theorem strip_of_bare (j : Json) (h : j.Everywhere Bare) : strip j = j := by
  induction j using Json.induction with
  | arr elems ih =>
    have hsame : elems.map strip = elems.map id :=
      List.map_congr_left fun x hx => ih x hx (everywhere_arr.1 h x hx)
    rw [strip, stripElems_eq_map, hsame, List.map_id]
  | obj members ih =>
    obtain ⟨hbare, hmembers⟩ := everywhere_obj.1 h
    have hsame := stripMembers_of_bare hbare fun m hm => ih m hm (hmembers m hm)
    rw [strip, hsame, cleanMembers, mapMember_eq_self.2 hbare.metadata]
  | _ => rfl

/-- **Stripping again changes nothing.** -/
theorem strip_idem (j : Json) : strip (strip j) = strip j :=
  strip_of_bare (strip j) (bare_strip j)

/-! ## The result can be stripped -/

theorem annotationsObject_congr {ms ns : List (String × Json)}
    (h : ns.lookup "metadata" = ms.lookup "metadata") (hms : AnnotationsObject ms) :
    AnnotationsObject ns := by
  unfold AnnotationsObject
  rw [h]
  exact hms

theorem annotationsObject_stripMembers {ms : List (String × Json)} (h : AnnotationsObject ms) :
    AnnotationsObject (stripMembers ms) := by
  intro m hm v hv
  rw [lookup_stripMembers, if_neg (by decide)] at hm
  obtain ⟨u, hu, heq⟩ := Option.map_eq_some_iff.1 hm
  cases u with
  | obj members =>
    obtain rfl := Json.obj.inj heq
    rw [cleanMembers, lookup_mapMember, lookup_stripMembers, if_neg (by decide),
      Option.map_map] at hv
    obtain ⟨w, hw, rfl⟩ := Option.map_eq_some_iff.1 hv
    obtain ⟨annotations, rfl⟩ := h members hu w hw
    exact ⟨_, rfl⟩
  | _ => cases heq

theorem annotationsObject_cleanMembers {ms : List (String × Json)} (h : AnnotationsObject ms) :
    AnnotationsObject (cleanMembers ms) := by
  intro m hm v hv
  rw [cleanMembers, lookup_mapMember] at hm
  obtain ⟨u, hu, heq⟩ := Option.map_eq_some_iff.1 hm
  cases u with
  | obj members =>
    obtain rfl := Json.obj.inj heq
    have hkey : "annotations" ∉ runtimeKeys := by decide
    rw [lookup_cleanMetadataMembers, if_neg hkey] at hv
    obtain ⟨w, hw, rfl⟩ := Option.map_eq_some_iff.1 hv
    obtain ⟨annotations, rfl⟩ := h members hu w hw
    exact ⟨_, rfl⟩
  | _ => cases heq

theorem strippable_strip {j : Json} (h : Strippable j) : Strippable (strip j) := by
  refine everywhere_strip (fun m hm => annotationsObject_congr ?_ hm)
    (fun m hm => annotationsObject_congr ?_ hm)
    (fun ms hms => annotationsObject_cleanMembers (annotationsObject_stripMembers hms)) j h
  · have hkey : "metadata" ∉ runtimeKeys := by decide
    rw [lookup_cleanMetadataMembers, if_neg hkey]
    simp
  · exact (lookup_eraseMember lastApplied "metadata" m).trans (if_neg (by decide))

/-! ## The result is no deeper -/

theorem depth_cleanAnnotations (u : Json) : (cleanAnnotations u).depth ≤ u.depth := by
  cases u with
  | obj members =>
    refine depth_obj_le.2 fun m hm => ?_
    exact membersDepth_le.1 le_rfl m (List.mem_of_mem_filter hm)
  | _ => exact le_rfl

theorem depth_cleanMetadata (u : Json) : (cleanMetadata u).depth ≤ u.depth := by
  cases u with
  | obj members =>
    refine depth_obj_le.2 (forall_mem_mapMember ?_ fun v => (depth_cleanAnnotations v).trans)
    exact fun m hm => membersDepth_le.1 le_rfl m (mem_eraseMembers.1 hm).1
  | _ => exact le_rfl

theorem depth_strip (j : Json) : (strip j).depth ≤ j.depth := by
  induction j using Json.induction with
  | arr elems ih =>
    rw [strip, stripElems_eq_map, depth, depth]
    refine Nat.succ_le_succ (elemsDepth_le.2 fun y hy => ?_)
    obtain ⟨x, hx, rfl⟩ := List.mem_map.1 hy
    exact (ih x hx).trans (elemsDepth_le.1 le_rfl x hx)
  | obj members ih =>
    rw [strip, depth]
    refine depth_obj_le.2 (forall_mem_mapMember ?_ fun u => (depth_cleanMetadata u).trans)
    intro m hm
    obtain ⟨-, v, hv, heq⟩ := mem_stripMembers.1 hm
    rw [heq]
    exact (ih (m.1, v) hv).trans (membersDepth_le.1 le_rfl (m.1, v) hv)
  | _ => exact le_rfl

end K8sDev.Results

import K8sDev.Spec.ListWatch

/-!
# Nothing is lost over a reconnect

When the script passes, the events of the two watches are the changes between the list and the
deletion, each once and in order, so that the list followed by the events is the state of the
server then.
-/

namespace K8sDev.ListWatch

variable {history : History} {done : Event → Bool} {lastRv r r' : ℕ} {lines events : List Event}

/-- What the loop returns: the lines up to the first that is asked for. -/
theorem readUntil_some (h : readUntil done lastRv lines = some (events, r)) :
    ∃ init event rest, lines = init ++ event :: rest ∧ events = init ++ [event] ∧
      done event = true ∧ ∀ v, event.resourceVersion = some v → r = v := by
  induction lines generalizing lastRv events with
  | nil => cases h
  | cons line lines ih =>
    unfold readUntil at h
    dsimp only at h
    split at h
    · rename_i hdone
      obtain ⟨rfl, rfl⟩ := Prod.mk.inj (Option.some.inj h)
      exact ⟨[], line, lines, rfl, rfl, hdone, fun v hv => by rw [hv, Option.getD_some]⟩
    · obtain ⟨⟨events', r'⟩, hrest, heq⟩ := Option.map_eq_some_iff.1 h
      obtain ⟨rfl, rfl⟩ := Prod.mk.inj heq
      obtain ⟨init, event, rest, rfl, rfl, hevent, hr⟩ := ih hrest
      exact ⟨line :: init, event, rest, rfl, rfl, hevent, hr⟩

/-- A loop that ends with a Pod has read changes only, and is at the revision of the last. -/
theorem readUntil_served {type : EventType} (htype : type ≠ .error) (hserved : Served history r lines)
    (h : readUntil (isAfter type) r lines = some (events, r')) :
    ∃ init last, init ++ [last] <+: history.since r ∧
      events = (init ++ [last]).map Change.event ∧ last.kind = type ∧ last.name = "after" ∧
      r' = last.revision := by
  obtain ⟨changes, error, rfl, hprefix, herror⟩ := hserved
  obtain ⟨init, event, rest, hlines, rfl, hevent, hr⟩ := readUntil_some h
  have htyped : event.type = type ∧ event.name = some "after" := by
    simpa [isAfter] using hevent
  -- the line that ended the loop is no error, so it is one of the changes
  have hlen : init.length < changes.length := by
    by_contra hge
    have hmem : event ∈ error := by
      have hget : (changes.map Change.event ++ error)[init.length]? = some event := by
        rw [hlines, List.getElem?_append_right le_rfl, Nat.sub_self, List.getElem?_cons_zero]
      rw [List.getElem?_append_right (by simpa using hge)] at hget
      exact List.mem_of_getElem? hget
    rcases herror with rfl | rfl
    · cases hmem
    · rw [List.mem_singleton.1 hmem] at htyped
      exact htype htyped.1.symm
  have htake : (changes.take (init.length + 1)).map Change.event = init ++ [event] := by
    have hcut := congrArg (List.take (init.length + 1)) hlines
    rw [List.take_append_of_le_length (by rw [List.length_map]; omega), ← List.map_take] at hcut
    rw [hcut]
    simp [List.take_append]
  obtain ⟨cs, c, hcs⟩ : ∃ cs c, changes.take (init.length + 1) = cs ++ [c] := by
    have hne : changes.take (init.length + 1) ≠ [] := by
      intro hnil
      rw [hnil] at htake
      simp at htake
    exact ⟨_, _, (List.dropLast_append_getLast hne).symm⟩
  rw [hcs] at htake
  have hlast : c.event = event := by
    rw [List.map_append, List.map_singleton] at htake
    exact List.singleton_inj.1 (List.append_inj_right' htake rfl)
  subst hlast
  refine ⟨cs, c, ?_, htake.symm, htyped.1, Option.some.inj htyped.2, hr _ rfl⟩
  rw [← hcs]
  exact (List.take_prefix _ _).trans hprefix

theorem foldl_event (changes : List Change) (pods : Pods) :
    (changes.map Change.event).foldl applyEvent pods = changes.foldl applyChange pods :=
  List.foldl_map

/-- **Nothing is lost over a reconnect.** Of a script that passes, against a server whose watches
may break at any point: the two watches together have delivered the changes after the list up to
a deletion of the Pod, every one once and in the order of the server, and nothing else. Replayed
on the list they give the Pods of the server at that revision; the Pod was created on the way and
is gone. -/
theorem reconnect_exact {listRv : ℕ} {pods : List (String × ℕ)} {first second : ℕ → List Event}
    {evidence : Evidence} (hlist : Listed history listRv pods)
    (hfirst : ∀ r, Served history r (first r)) (hsecond : ∀ r, Served history r (second r))
    (h : listWatch listRv pods first second = some evidence) :
    ∃ last, evidence.created ++ evidence.reconnected =
        (history.between listRv last).map Change.event ∧
      (evidence.created ++ evidence.reconnected).foldl applyEvent
        (fun name => evidence.pods.lookup name) = podsAt history last ∧
      (∃ c ∈ history.between listRv evidence.lastResourceVersion,
        c.kind = .added ∧ c.name = "after") ∧
      podsAt history last "after" = none := by
  unfold listWatch at h
  obtain ⟨⟨created, lastRv⟩, hcreated, h⟩ := Option.bind_eq_some_iff.1 h
  obtain ⟨⟨reconnected, r⟩, hreconnected, h⟩ := Option.map_eq_some_iff.1 h
  subst h
  -- each connection ends with the change that the script waits for
  obtain ⟨init, c, hprefix, rfl, hkind, hname, rfl⟩ :=
    readUntil_served (by decide) (hfirst listRv) hcreated
  obtain ⟨init', d, hprefix', rfl, hkind', hname', rfl⟩ :=
    readUntil_served (by decide) (hsecond c.revision) hreconnected
  -- the second starts where the first ended, so together they read one stretch
  have hread : history.Reads listRv ([] ++ (init ++ [c])) c.revision :=
    .connect (.start listRv) hprefix (by simp)
  rw [List.nil_append] at hread
  have hreads : history.Reads listRv (init ++ [c] ++ (init' ++ [d])) d.revision :=
    .connect hread hprefix' (by simp)
  have hpods : (fun name => pods.lookup name) = podsAt history listRv := funext hlist
  have hstate : (init ++ [c] ++ (init' ++ [d])).foldl applyChange (podsAt history listRv) =
      podsAt history d.revision := hreads.state applyChange fun _ => none
  refine ⟨d.revision, ?_, ?_, ⟨c, ?_, hkind, hname⟩, ?_⟩
  · rw [← hreads.eq_between.1]
    exact List.map_append.symm
  · dsimp only
    rw [hpods, ← List.map_append, foldl_event, hstate]
  · rw [← hread.eq_between.1]
    simp
  · -- the deletion is the last change
    rw [← hstate, ← List.append_assoc, List.foldl_append]
    simp [applyChange, applyEvent, Change.event, hkind', hname']

/-- A history in which another Pod is created between the two watches. -/
def replaced : History where
  entries := [⟨.added, "before", 3, by decide⟩, ⟨.added, "after", 5, by decide⟩,
    ⟨.added, "other", 6, by decide⟩, ⟨.deleted, "after", 8, by decide⟩]
  sorted := by decide

/-- A server whose connections do not break. -/
def unbroken (history : History) (revision : ℕ) : List Event :=
  (history.since revision).map Change.event

theorem unbroken_served (history : History) (revision : ℕ) :
    Served history revision (unbroken history revision) :=
  ⟨history.since revision, [], (List.append_nil _).symm, List.prefix_rfl, .inl rfl⟩

theorem reconnect_exact_replaced : ∃ evidence,
    listWatch 3 [("before", 3)] (unbroken replaced) (unbroken replaced) = some evidence ∧
      ∃ last, evidence.created ++ evidence.reconnected =
        (replaced.between 3 last).map Change.event := by
  have hpods : podsAt replaced 3 = Function.update (fun _ => none) "before" (some 3) := rfl
  have hlist : Listed replaced 3 [("before", 3)] := fun name => by
    rw [hpods, Function.update_apply, List.lookup_cons]
    by_cases hname : name = "before"
    · simp [hname]
    · rw [if_neg hname, beq_false_of_ne hname]
      rfl
  obtain ⟨last, hevents, -⟩ := reconnect_exact hlist (unbroken_served replaced)
    (unbroken_served replaced) rfl
  exact ⟨_, rfl, last, hevents⟩

end K8sDev.ListWatch

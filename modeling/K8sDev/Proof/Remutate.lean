import K8sDev.Spec.Session
import K8sDev.Proof.Assignments

/-!
# Mutating a mutated pod

A name that was assigned a node keeps it, whatever comes in between, so a second call for the pod
that a first one produced finds everything in place.

* `visits_keep`: a cached name keeps its node along every session.
* `remutate`: what the first call changes, and that the second changes nothing.
-/

namespace K8sDev.Webhook

variable {ρ : Type} {c : Codec ρ} {p : Service} {name host : String}

/-! ## The cache is sticky -/

theorem assign_keeps (pod : Pod ρ) (h : p.cache name = some host) :
    (p.assign c pod).2.cache name = some host := by
  rcases assign_cases c p pod with ⟨pod', nodeName, data, heq, hchosen, -, -⟩ | ⟨hsvc, -⟩
  · rw [heq]
    by_cases hname : name = pod.name
    · subst hname
      rw [store_cache_self, chosen_cached hchosen h]
    · simp only [Service.store, drawn_cache]
      rw [Function.update_of_ne hname, h]
  · rcases hsvc with heq | heq
    · rw [heq, h]
    · rw [heq, drawn_cache, h]

theorem serve_svc (c : Codec ρ) (p : Service) (req : AdmissionRequest) :
    (p.serve c req).svc = p ∨ ∃ pod, (p.serve c req).svc = (p.assign c pod).2 := by
  unfold Service.serve
  cases c.unmarshal req.object with
  | error err => exact .inl rfl
  | ok pod =>
    dsimp only
    refine .inr ⟨pod, ?_⟩
    generalize p.assign c pod = r
    obtain ⟨r, q⟩ := r
    cases r with
    | panic => rfl
    | marshalError err => rfl
    | done pod' nodeName data =>
      dsimp only
      split <;> rfl

theorem mutate_svc [DecidableEq ρ] (c : Codec ρ) (p : Service) (req : AdmissionRequest) :
    (p.mutate c req).svc = p ∨ ∃ pod, (p.mutate c req).svc = (p.assign c pod).2 := by
  unfold Service.mutate
  cases c.unmarshal req.object with
  | error err => exact .inl rfl
  | ok pod =>
    by_cases himporter : pod.importer = false
    · refine .inl ?_
      simp only [if_pos himporter]
    · simp only [if_neg himporter]
      refine .inr ⟨pod, ?_⟩
      generalize p.assign c pod = r
      obtain ⟨r, q⟩ := r
      cases r with
      | panic => rfl
      | marshalError err => rfl
      | done pod' nodeName data => rfl

/-- No visit takes a name's node away. -/
theorem visit_keeps [DecidableEq ρ] (v : Visit) (h : p.cache name = some host) :
    (v.run c p).2.cache name = some host := by
  have assigned : ∀ q : Service, (q = p ∨ ∃ pod, q = (p.assign c pod).2) →
      q.cache name = some host := by
    rintro q (rfl | ⟨pod, rfl⟩)
    · exact h
    · exact assign_keeps pod h
  cases v with
  | reload listed => cases listed <;> exact h
  | mutate req => exact assigned _ (mutate_svc c p req)
  | post body =>
    cases body with
    | malformed err => exact h
    | json value =>
      simp only [Visit.run, Service.handle]
      cases decodeRequest value with
      | error err => exact h
      | ok req => exact assigned _ (serve_svc c p req)

theorem visits_keep [DecidableEq ρ] {s t : Session} {visits : List Visit}
    (hrun : (sessions c).Run s visits t) (h : s.svc.cache name = some host) :
    t.svc.cache name = some host := by
  refine hrun.relation (R := fun s t : Session => s.svc.cache name = some host →
    t.svc.cache name = some host) ?_ ?_ ?_ h
  · exact fun _ h => h
  · exact fun _ _ _ hst htu h => htu (hst h)
  · rintro s v _ rfl h
    exact visit_keeps v h

/-! ## The second call -/

/-- The encoding is stable on what `Mutate` encodes: decoded again, it has the name and the
selector it was given, and it is encoded as the same bytes. -/
structure Codec.Stable (c : Codec ρ) : Prop where
  decoded : ∀ object pod nodeName mutated data, c.unmarshal object = .ok pod →
    pod.select nodeName = some mutated → c.marshal mutated = .ok data →
    ∃ again, c.unmarshal (some data) = .ok again ∧ again.name = mutated.name ∧
      again.nodeSelector = mutated.nodeSelector ∧ c.marshal again = .ok data

/-- A pod that names its node already is mutated into itself. -/
theorem mutate_settled [DecidableEq ρ] {req : AdmissionRequest} {pod : Pod ρ}
    {selector : Finmap fun _ : String => String} {data : Json}
    (hpod : c.unmarshal req.object = .ok pod) (himporter : pod.importer = true)
    (hselector : pod.nodeSelector = some selector) (hhost : selector.lookup hostname = some host)
    (hcached : p.cache pod.name = some host) (hmarshal : c.marshal pod = .ok data) :
    p.mutate c req = ⟨.returned (some data) false, some ⟨req.namespace_, req.name, host⟩, p⟩ := by
  have hchosen : p.chosen pod.name = some host := by
    rw [Service.chosen, hcached]
    rfl
  have hselect : pod.select host = some pod := by
    rw [Pod.select, hselector, Option.map_some, insert_eq_self.2 hhost, ← hselector]
  rw [mutate_importer hpod hchosen hselect hmarshal himporter, store_cached hcached]
  simp

/-- **Mutating again changes nothing.** A call that succeeds sets the host in the selector of the
pod and nothing else, and reports a change when it was another one or none. After any session, a
call for the pod it produced returns the same bytes, reports no change and leaves the service as it
is. -/
theorem remutate [DecidableEq ρ] (hc : c.Stable) {req : AdmissionRequest} {data : Json} {b : Bool}
    (hcall : (p.mutate c req).answer = .returned (some data) b) :
    (∃ pod selector nodeName, c.unmarshal req.object = .ok pod ∧ pod.importer = true ∧
      pod.nodeSelector = some selector ∧
      c.marshal { pod with nodeSelector := some (selector.insert hostname nodeName) } = .ok data ∧
      (b = true ↔ selector.lookup hostname ≠ some nodeName)) ∧
    ∀ panicked visits s, (sessions c).Run ⟨(p.mutate c req).svc, panicked⟩ visits s →
      ∀ req', req'.object = some data →
        ∃ log, s.svc.mutate c req' = ⟨.returned (some data) false, log, s.svc⟩ := by
  rcases mutate_cases c p req with
    ⟨pod, pod', nodeName, data', hpod, himporter, hchosen, hselect, hmarshal, hm⟩ | ⟨-, hnone, -⟩
  swap
  · exact absurd hcall (hnone data b)
  obtain ⟨selector, hselector, hpod'⟩ := select_eq_some hselect
  rw [hm] at hcall
  obtain ⟨hdata, hb⟩ : data' = data ∧ decide (pod ≠ pod') = b := by
    simpa only [Mutated.returned.injEq, Option.some.injEq] using hcall
  subst hdata
  refine ⟨⟨pod, selector, nodeName, hpod, himporter, hselector, hpod' ▸ hmarshal, ?_⟩, ?_⟩
  · rw [← hb, decide_eq_true_iff, ne_eq, select_eq_self hselector hselect]
  · intro panicked visits s hrun req' hobject
    obtain ⟨again, hagain, hname, hsame, hbytes⟩ :=
      hc.decoded req.object pod nodeName pod' data' hpod hselect hmarshal
    have hnames : again.name = pod.name := hname.trans (select_name hselect)
    -- the first call stored the name, and no visit took it away
    have hcached : s.svc.cache again.name = some nodeName := by
      refine visits_keep hrun ?_
      rw [hm, hnames]
      exact store_cache_self _ _ _
    have hagain' : c.unmarshal req'.object = .ok again := by
      rw [hobject, hagain]
    have himporter' : again.importer = true := by
      rw [Pod.importer, hnames]
      exact himporter
    have hselector' : again.nodeSelector = some (selector.insert hostname nodeName) := by
      rw [hsame, hpod']
    exact ⟨_, mutate_settled hagain' himporter' hselector' (Finmap.lookup_insert _) hcached hbytes⟩

/-! ## The codec to run with is stable -/

/-- The selectors it decodes name a host or nothing. -/
theorem hostCodec_selector {object : Option Json} {pod : Pod Unit}
    (h : hostCodec.unmarshal object = .ok pod) : pod.nodeSelector = none ∨
      pod.nodeSelector = some ∅ ∨ ∃ host, pod.nodeSelector = some (Finmap.singleton hostname host) := by
  cases object with
  | none => cases h
  | some raw =>
    simp only [hostCodec] at h
    split at h
    · obtain rfl := Except.ok.inj h
      exact .inl rfl
    · split at h
      · rename_i host _
        obtain rfl := Except.ok.inj h
        exact .inr (.inr ⟨host, rfl⟩)
      · obtain rfl := Except.ok.inj h
        exact .inr (.inl rfl)

theorem hostCodec_stable : hostCodec.Stable where
  decoded := by
    intro object pod nodeName mutated data hpod hselect hmarshal
    obtain ⟨selector, hselector, rfl⟩ := select_eq_some hselect
    have hsingle : selector.insert hostname nodeName = Finmap.singleton hostname nodeName := by
      rcases hostCodec_selector hpod with h | h | ⟨host, h⟩
      · rw [h] at hselector
        cases hselector
      · rw [h] at hselector
        obtain rfl := Option.some.inj hselector
        rfl
      · rw [h] at hselector
        obtain rfl := Option.some.inj hselector
        exact Finmap.insert_singleton_eq
    rw [hsingle] at hmarshal ⊢
    obtain rfl := Except.ok.inj hmarshal
    exact ⟨⟨pod.name, some (Finmap.singleton hostname nodeName), ()⟩, rfl, rfl, rfl, rfl⟩

/-- The pod of `create` goes to `b`, and then `b` leaves. -/
def bereft : Service := (twoNodes.mutate hostCodec create).svc.reload (.ok [⟨"a"⟩])

/-- Another pod takes a turn. -/
def moved : Service :=
  (bereft.mutate hostCodec (podRequest (podJson "importer-vm-2" (some none)))).svc

theorem remutate_moved : moved.nodeList = [⟨"a"⟩] ∧
    ∃ log, moved.mutate hostCodec (podRequest (podJson "importer-vm-1" (some (some "b")))) =
      ⟨.returned (some (podJson "importer-vm-1" (some (some "b")))) false, log, moved⟩ := by
  have hcall : (twoNodes.mutate hostCodec create).answer =
      .returned (some (podJson "importer-vm-1" (some (some "b")))) true := rfl
  have hbereft : (sessions hostCodec).step ⟨(twoNodes.mutate hostCodec create).svc, false⟩
      (.reload (.ok [⟨"a"⟩])) ⟨bereft, false⟩ := rfl
  have hmoved : (sessions hostCodec).step ⟨bereft, false⟩
      (.mutate (podRequest (podJson "importer-vm-2" (some none)))) ⟨moved, false⟩ := rfl
  have hrun := (Lts.Run.single hbereft).snoc hmoved
  exact ⟨rfl, (remutate hostCodec_stable hcall).2 false _ _ hrun _ rfl⟩

end K8sDev.Webhook

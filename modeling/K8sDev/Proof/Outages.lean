import K8sDev.Spec.Outages

/-!
# What the outages leave behind

A run of `failures` or `multi` that ends normally leaves the cluster as it was. One that raises may
leave a deployment stopped, or the load running; `Stranded` and `LoadLeft` tell from the log when
(`restored_exact`).
-/

namespace K8sDev.Outages

open Script

variable {c : Component} {down : Option Component} {load : Bool} {r : Run Cluster Cmd}
  {w : Cluster} {cmd : Cmd} {f : Fate}

/-- At most `down` is stopped, and nothing has gone wrong yet that would leave it stopped. -/
structure Calm (down : Option Component) (load : Bool) (r : Run Cluster Cmd) : Prop where
  replicas : ∀ c, r.world.replicas c = if down = some c then 0 else 1
  load : r.world.load = load
  lost : ∀ c, ¬Saw r.log (.scale c 0) .lost
  refused : ∀ c, ¬Saw r.log (.scale c 1) .refused
  seen : ∀ e ∈ r.log, e.after.OneDown

/-- Between two outages. -/
structure Settled (r : Run Cluster Cmd) : Prop where
  calm : Calm none false r
  deleted : ∀ f, Ends r.log .deleteLoad f → f = .done
  applied : ¬Ends r.log .applyLoad .lost

/-- What the log says about the cluster. -/
structure Explained (r : Run Cluster Cmd) : Prop where
  stopped : ∀ c, r.world.replicas c = 0 ↔ Stranded r.log c
  load : r.world.load = true ↔ LoadLeft r.log
  seen : ∀ e ∈ r.log, e.after.OneDown

/-! ## One command -/

theorem oneDown_of_replicas (h : ∀ c, w.replicas c = if down = some c then 0 else 1) :
    w.OneDown := by
  have hdown : ∀ c, w.replicas c = 0 → down = some c := by
    intro c hc
    rw [h] at hc
    by_contra hne
    rw [if_neg hne] at hc
    cases hc
  intro c c' hc hc'
  exact Option.some.inj ((hdown c hc).symm.trans (hdown c' hc'))

/-- A command that strands nothing. -/
theorem Calm.record {down' : Option Component} {load' : Bool} (h : Calm down load r)
    (hreplicas : ∀ c, w.replicas c = if down' = some c then 0 else 1) (hload : w.load = load')
    (hlost : ∀ c, cmd = .scale c 0 → f ≠ .lost) (hrefused : ∀ c, cmd = .scale c 1 → f ≠ .refused) :
    Calm down' load' (r.record cmd f w) where
  replicas := hreplicas
  load := hload
  lost c hsaw := (saw_record.1 hsaw).elim (h.lost c) fun hnew => hlost c hnew.1 hnew.2
  refused c hsaw := (saw_record.1 hsaw).elim (h.refused c) fun hnew => hrefused c hnew.1 hnew.2
  seen := seen_record h.seen (oneDown_of_replicas hreplicas)

/-- A command that scales nothing, and has or had no effect. -/
theorem Calm.idle (h : Calm down load r) (hcmd : ∀ c n, cmd ≠ .scale c n) :
    Calm down load (r.record cmd f r.world) :=
  h.record h.replicas h.load (fun c hc => absurd hc (hcmd c 0)) fun c hc => absurd hc (hcmd c 1)

theorem Calm.step (h : Calm down load r) (text : String) (f : Fate) :
    Calm down load (r.record (.step text) f r.world) :=
  h.idle fun c n hcmd => by cases hcmd

/-- A command on the load that had its effect. -/
theorem Calm.loaded {load' : Bool} (h : Calm down load r) (hcmd : ∀ c n, cmd ≠ .scale c n) :
    Calm down load' (r.record cmd f { r.world with load := load' }) :=
  h.record h.replicas rfl (fun c hc => absurd hc (hcmd c 0)) fun c hc => absurd hc (hcmd c 1)

theorem Settled.of_calm (h : Calm none false (r.record cmd f w))
    (hdelete : cmd = .deleteLoad → f = .done) (happly : cmd = .applyLoad → f ≠ .lost) :
    Settled (r.record cmd f w) where
  calm := h
  deleted f' hends := by
    obtain ⟨hcmd, rfl⟩ := ends_record.1 hends
    exact hdelete hcmd
  applied hends := by
    obtain ⟨hcmd, hf⟩ := ends_record.1 hends
    exact happly hcmd hf

theorem Settled.step (h : Settled r) (text : String) (f : Fate) :
    Settled (r.record (.step text) f r.world) :=
  .of_calm (h.calm.step text f) (fun hcmd => by cases hcmd) fun hcmd => by cases hcmd

/-- The log has no command that strands. -/
theorem Calm.not_stranded (h : Calm down load r)
    (hdelete : (∃ f, f ≠ .done ∧ Ends r.log .deleteLoad f) → Saw r.log (.step allLow) .done) :
    ¬Stranded r.log c := by
  rintro (hlost | hrefused | ⟨-, hends, hlow⟩)
  · exact h.lost c hlost
  · exact h.refused c hrefused
  · exact hlow (hdelete hends)

theorem Calm.replicas_ne (h : Calm none load r) : r.world.replicas c ≠ 0 := by
  rw [h.replicas]
  simp

theorem Settled.explained (h : Settled r) : Explained r where
  stopped c := by
    refine iff_of_false h.calm.replicas_ne (h.calm.not_stranded ?_)
    rintro ⟨f, hf, hends⟩
    exact absurd (h.deleted f hends) hf
  load := by
    refine iff_of_false (by rw [h.calm.load]; decide) ?_
    rintro (hends | ⟨hends, -⟩)
    · exact h.applied hends
    · cases h.deleted _ hends
  seen := h.calm.seen

/-! ## The parts of the scripts -/

theorem effect_step {w' : Cluster} {text : String} (h : effect (.step text) w = some w') : w' = w :=
  (Option.some.inj h).symm

/-- What `steps` keeps. -/
theorem steps_triple {P E : Run Cluster Cmd → Prop} {texts : List String}
    (hkeep : ∀ r, ∀ text ∈ texts, ∀ f, P r → P (r.record (.step text) f r.world))
    (hexc : ∀ r, P r → E r) : Triple P (steps texts) (fun _ => P) E :=
  .steps (fun _ _ _ => effect_step) (fun r text htext hr => hkeep r text htext .done hr)
    fun r text htext f _ hr => hexc _ (hkeep r text htext f hr)

theorem Settled.steps_triple {texts : List String} :
    Triple Settled (steps texts) (fun _ => Settled) Explained :=
  Outages.steps_triple (fun _ text _ f hr => hr.step text f) fun _ hr => hr.explained

theorem Settled.step_triple {text : String} :
    Triple Settled (run (.step text)) (fun _ => Settled) Explained :=
  .idle (fun _ _ => effect_step) (fun _ hr _ => hr.step text _)
    fun _ f _ hr => (hr.step text f).explained

/-- The replicas after `c` was scaled to `n`, when nothing else is stopped. -/
theorem replicas_scale {n : ℕ} (h : ∀ c', w.replicas c' = if down = some c' then 0 else 1)
    (hdown : ∀ c', down = some c' → c' = c) {w' : Cluster}
    (hw : effect (.scale c n) w = some w') :
    (∀ c', w'.replicas c' = if c' = c then n else 1) ∧ w'.load = w.load := by
  obtain rfl := Option.some.inj hw
  refine ⟨fun c' => ?_, rfl⟩
  have hbefore := h c'
  by_cases hc : c' = c
  · simp [hc]
  · have hne : down ≠ some c' := fun hsome => hc (hdown c' hsome)
    simpa [hc, hne] using hbefore

/-- A scaling that strands: down, with its effect but not known to have had it, or up, refused. -/
theorem Calm.stranded {n : ℕ} (h : Calm down load r) (hn : n = 0 ∧ f = .lost ∨ n = 1 ∧ f = .refused)
    (hreplicas : ∀ c', w.replicas c' = if c' = c then 0 else 1) (hload : w.load = false) :
    Explained (r.record (.scale c n) f w) where
  stopped c' := by
    have hwhy : Stranded (r.record (.scale c n) f w).log c' ↔ c = c' := by
      have hends : ∀ f', ¬Ends (r.record (.scale c n) f w).log .deleteLoad f' := fun f' hends => by
        cases (ends_record.1 hends).1
      rcases hn with ⟨rfl, rfl⟩ | ⟨rfl, rfl⟩
      · simp [Stranded, saw_record, h.lost, h.refused, hends]
      · simp [Stranded, saw_record, h.lost, h.refused, hends]
    rw [hwhy]
    show w.replicas c' = 0 ↔ c = c'
    rw [hreplicas]
    simp [eq_comm]
  load := by
    have hnot : ¬LoadLeft (r.record (.scale c n) f w).log := by
      rintro (hends | ⟨hends, -⟩)
      · cases (ends_record.1 hends).1
      · cases (ends_record.1 hends).1
    refine iff_of_false ?_ hnot
    show w.load ≠ true
    rw [hload]
    decide
  seen := by
    have hone : w.OneDown := @oneDown_of_replicas (some c) w (by simpa [eq_comm] using hreplicas)
    exact seen_record h.seen hone

/-- The end of a `finally`: it scales the deployment up, or strands it. -/
theorem recover_triple : Triple (Calm (some c) false)
    (do run (.scale c 1); ready c) (fun _ => Settled) Explained := by
  have hup : ∀ r w f, Calm (some c) false r → effect (.scale c 1) r.world = some w →
      f ≠ .refused → Settled (r.record (.scale c 1) f w) := by
    intro r w f hr hw hf
    obtain ⟨hreplicas, hload⟩ := replicas_scale hr.replicas (by simp [eq_comm]) hw
    have hcalm : Calm none false (r.record (.scale c 1) f w) :=
      hr.record (fun c' => by simp [hreplicas c']) (hload.trans hr.load)
        (fun c' hc => by cases hc) fun c' _ => hf
    exact .of_calm hcalm (fun hcmd => by cases hcmd) fun hcmd => by cases hcmd
  refine Triple.bind (Triple.exec (fun r w hr hw => hup r w _ hr hw (by decide)) (fun r hr => ?_)
    fun r w hr hw => (hup r w _ hr hw (by decide)).explained) fun _ => Settled.step_triple
  exact hr.stranded (.inr ⟨rfl, rfl⟩) (by simpa [eq_comm] using hr.replicas) hr.load

/-- **One outage.** `M` is what holds while the deployment is stopped, however the body ends. -/
theorem outage_triple {P M : Run Cluster Cmd → Prop} {body first : ClusterScript Unit}
    (hsettled : ∀ r, P r → Settled r)
    (hdown : ∀ r w, P r → Calm (some c) false (r.record (.scale c 0) .done w) →
      M (r.record (.scale c 0) .done w))
    (hbody : Triple M body (fun _ => M) M)
    (hfirst : Triple M first (fun _ => Calm (some c) false) Explained) :
    Triple P (outage c body first) (fun _ => Settled) Explained := by
  have hscaled : ∀ r w, P r → effect (.scale c 0) r.world = some w →
      (∀ c', w.replicas c' = if c' = c then 0 else 1) ∧ w.load = false := by
    intro r w hr hw
    have hcalm := (hsettled r hr).calm
    obtain ⟨hreplicas, hload⟩ := replicas_scale hcalm.replicas (by simp) hw
    exact ⟨hreplicas, hload.trans hcalm.load⟩
  refine Triple.bind (Q := fun _ => M) (Triple.exec (fun r w hr hw => ?_) (fun r hr => ?_)
    fun r w hr hw => ?_) fun _ => ?_
  · obtain ⟨hreplicas, hload⟩ := hscaled r w hr hw
    refine hdown r w hr ((hsettled r hr).calm.record (fun c' => ?_) hload
      (fun c' _ => by decide) fun c' _ => by decide)
    simp [hreplicas, eq_comm]
  · have hcalm := (hsettled r hr).calm
    have hkept : Calm none false (r.record (.scale c 0) .refused r.world) :=
      hcalm.record hcalm.replicas hcalm.load (fun c' _ => by decide) fun c' hc => by cases hc
    exact (Settled.of_calm hkept (fun hcmd => by cases hcmd) fun hcmd => by cases hcmd).explained
  · -- it is scaled down by a command that fails, and the `try` is never entered
    obtain ⟨hreplicas, hload⟩ := hscaled r w hr hw
    exact (hsettled r hr).calm.stranded (.inl ⟨rfl, rfl⟩) hreplicas hload
  · have hfinally := Triple.bind hfirst fun _ => @recover_triple c
    exact Triple.tryFinally hbody (fun _ => hfinally) (hfinally.conseq (fun r hr => hr)
      (fun _ r hr => hr.explained) fun r hr => hr)

/-- An outage that only looks. -/
theorem observe_triple {P : Run Cluster Cmd → Prop} {texts : List String}
    (hsettled : ∀ r, P r → Settled r) :
    Triple P (outage c (steps texts) (Pure.pure ())) (fun _ => Settled) Explained :=
  outage_triple (M := Calm (some c) false) hsettled (fun _ _ _ hr => hr)
    (steps_triple (fun _ text _ f hr => hr.step text f) fun _ hr => hr) (.pure fun _ hr => hr)

theorem failures_triple : Triple Settled failures (fun _ => Settled) Explained := by
  refine Triple.bind Settled.steps_triple fun _ => Triple.bind ?_ fun _ => Settled.steps_triple
  refine Triple.forEach (I := fun _ => Settled) fun _ c _ _ => ?_
  exact .bind Settled.step_triple fun _ => .bind (observe_triple fun _ hr => hr) fun _ =>
    Settled.steps_triple

/-! ## The second outage of `multi` -/

theorem applied_record : Applied (r.record cmd f w).log ↔
    Applied r.log ∨ cmd = .applyLoad ∧ f ≠ .refused := by
  simp only [Applied, saw_record]
  constructor
  · rintro ⟨f', hf', hsaw | ⟨hcmd, rfl⟩⟩
    · exact .inl ⟨f', hf', hsaw⟩
    · exact .inr ⟨hcmd, hf'⟩
  · rintro (⟨f', hf', hsaw⟩ | ⟨hcmd, hf⟩)
    · exact ⟨f', hf', .inl hsaw⟩
    · exact ⟨f, hf, .inr ⟨hcmd, rfl⟩⟩

/-- The second outage is not over, and the load has not been there. -/
structure Fresh (r : Run Cluster Cmd) : Prop where
  low : ¬Saw r.log (.step allLow) .done
  fresh : ¬Applied r.log

/-- During the second outage the load is there if it was created. -/
structure Loading (r : Run Cluster Cmd) : Prop where
  calm : Calm (some .adapter) r.world.load r
  low : ¬Saw r.log (.step allLow) .done
  load : r.world.load = true ↔ Applied r.log

/-- After the second outage, while the load is there. -/
structure Loaded (r : Run Cluster Cmd) : Prop where
  calm : Calm none true r
  low : Saw r.log (.step allLow) .done
  applied : Applied r.log

theorem Fresh.record (h : Fresh r) (hlow : cmd ≠ .step allLow) (happly : cmd ≠ .applyLoad) :
    Fresh (r.record cmd f w) where
  low hsaw := (saw_record.1 hsaw).elim h.low fun hnew => hlow hnew.1
  fresh happlied := (applied_record.1 happlied).elim h.fresh fun hnew => happly hnew.1

theorem Loading.step (h : Loading r) {text : String} (htext : text ≠ allLow) :
    Loading (r.record (.step text) f r.world) where
  calm := h.calm.step text f
  low hsaw := (saw_record.1 hsaw).elim h.low fun hnew => htext (Cmd.step.inj hnew.1)
  load := by
    rw [applied_record]
    show r.world.load = true ↔ _
    simp [h.load]

theorem Loading.apply (h : Loading r) (hw : w.load = if f = .refused then r.world.load else true)
    (hreplicas : w.replicas = r.world.replicas) : Loading (r.record .applyLoad f w) where
  calm := h.calm.record (fun c => by rw [hreplicas]; exact h.calm.replicas c) rfl
    (fun c hc => by cases hc) fun c hc => by cases hc
  low hsaw := (saw_record.1 hsaw).elim h.low fun hnew => by cases hnew.1
  load := by
    rw [applied_record]
    show w.load = true ↔ _
    rw [hw]
    by_cases hf : f = .refused
    · simp [hf, h.load]
    · simp [hf]

/-- The load cannot be deleted, and the adapter stays stopped. -/
theorem Loading.stranded (h : Loading r) (hf : f ≠ .done)
    (hload : w.load = if f = .refused then r.world.load else false)
    (hreplicas : w.replicas = r.world.replicas) : Explained (r.record .deleteLoad f w) where
  stopped c := by
    have hends : ∃ f', f' ≠ .done ∧ Ends (r.record .deleteLoad f w).log .deleteLoad f' :=
      ⟨f, hf, ends_record.2 ⟨rfl, rfl⟩⟩
    have hwhy : Stranded (r.record .deleteLoad f w).log c ↔ c = .adapter := by
      simp [Stranded, saw_record, h.calm.lost, h.calm.refused, hends, h.low]
    rw [hwhy]
    show w.replicas c = 0 ↔ c = .adapter
    rw [hreplicas, h.calm.replicas]
    simp [eq_comm]
  load := by
    have hwhy : LoadLeft (r.record .deleteLoad f w).log ↔ f = .refused ∧ Applied r.log := by
      simp [LoadLeft, ends_record, applied_record]
    rw [hwhy, ← h.load]
    show w.load = true ↔ _
    rw [hload]
    by_cases hr : f = .refused <;> simp [hr]
  seen := by
    have hone : w.OneDown := @oneDown_of_replicas (some .adapter) w fun c => by
      rw [hreplicas]
      exact h.calm.replicas c
    exact seen_record h.calm.seen hone

/-- The load cannot be deleted, but nothing is stopped. -/
theorem Loaded.left (h : Loaded r) (hload : w.load = if f = .refused then true else false)
    (hreplicas : w.replicas = r.world.replicas) : Explained (r.record .deleteLoad f w) where
  stopped c := by
    have hcalm : Calm none w.load (r.record .deleteLoad f w) :=
      h.calm.record (fun c => by rw [hreplicas]; exact h.calm.replicas c) rfl
        (fun c hc => by cases hc) fun c hc => by cases hc
    refine iff_of_false hcalm.replicas_ne (hcalm.not_stranded fun _ => ?_)
    exact saw_record.2 (.inl h.low)
  load := by
    have hwhy : LoadLeft (r.record .deleteLoad f w).log ↔ f = .refused := by
      simp [LoadLeft, ends_record, applied_record, h.applied]
    rw [hwhy]
    show w.load = true ↔ _
    rw [hload]
    by_cases hr : f = .refused <;> simp [hr]
  seen := by
    have hone : w.OneDown := @oneDown_of_replicas none w fun c => by
      rw [hreplicas]
      exact h.calm.replicas c
    exact seen_record h.calm.seen hone

/-- The load is created by a command that fails, outside the `try`. -/
theorem Settled.left (h : Settled r) :
    Explained (r.record .applyLoad .lost { r.world with load := true }) where
  stopped c := by
    have hcalm : Calm none true (r.record .applyLoad .lost { r.world with load := true }) :=
      h.calm.loaded fun c n hcmd => by cases hcmd
    refine iff_of_false hcalm.replicas_ne (hcalm.not_stranded ?_)
    rintro ⟨f, -, hends⟩
    cases (ends_record.1 hends).1
  load := iff_of_true rfl (.inl (ends_record.2 ⟨rfl, rfl⟩))
  seen := seen_record h.calm.seen (oneDown_of_replicas h.calm.replicas)

theorem secondOutage_triple : Triple (fun r => Settled r ∧ Fresh r)
    (outage .adapter
      (do
        steps ["stage multi-cpu-high-metric-failed", "emit metric"]
        run .applyLoad
        steps ["steady 4", "metric", "emit unavailable", "assert error"])
      (run .deleteLoad)) (fun _ => Settled) Explained := by
  have hsteps : ∀ texts : List String, allLow ∉ texts →
      Triple Loading (steps texts) (fun _ => Loading) Loading := fun texts htexts =>
    steps_triple (fun r text hmem f hr => hr.step fun heq => htexts (heq ▸ hmem)) fun _ hr => hr
  refine outage_triple (M := Loading) (fun _ hr => hr.1) (fun r w hr hcalm => ?_) ?_ ?_
  · have hload : w.load = false := hcalm.load
    refine ⟨?_, ?_, ?_⟩
    · show Calm _ w.load _
      rw [hload]
      exact hcalm
    · exact fun hsaw => hr.2.low (by simpa [saw_record] using hsaw)
    · refine iff_of_false (by show w.load ≠ true; simp [hload]) fun happlied => hr.2.fresh ?_
      simpa [applied_record] using happlied
  · refine Triple.bind (hsteps _ (by decide)) fun _ => Triple.bind ?_ fun _ => hsteps _ (by decide)
    refine Triple.exec (fun r w hr hw => ?_) (fun r hr => hr.apply rfl rfl) fun r w hr hw => ?_
    · obtain rfl := Option.some.inj hw
      exact hr.apply rfl rfl
    · obtain rfl := Option.some.inj hw
      exact hr.apply rfl rfl
  · refine Triple.exec (fun r w hr hw => ?_) (fun r hr => hr.stranded (by decide) rfl rfl)
      fun r w hr hw => ?_
    · obtain rfl := Option.some.inj hw
      exact hr.calm.loaded fun c n hcmd => by cases hcmd
    · obtain rfl := Option.some.inj hw
      exact hr.stranded (by decide) rfl rfl

/-- After the outages the load is created once more, before the `try`. -/
theorem applyLoad_triple : Triple (fun r => Settled r ∧ Saw r.log (.step allLow) .done)
    (run .applyLoad) (fun _ => Loaded) Explained := by
  refine Triple.exec (fun r w hr hw => ?_) (fun r hr => ?_) fun r w hr hw => ?_
  · obtain rfl := Option.some.inj hw
    refine ⟨hr.1.calm.loaded fun c n hcmd => (by cases hcmd), saw_record.2 (.inl hr.2), ?_⟩
    exact applied_record.2 (.inr ⟨rfl, by decide⟩)
  · have hcalm : Calm none false (r.record .applyLoad .refused r.world) :=
      hr.1.calm.idle fun c n hcmd => by cases hcmd
    exact (Settled.of_calm hcalm (fun hcmd => by cases hcmd) fun _ => by decide).explained
  · obtain rfl := Option.some.inj hw
    exact hr.1.left

/-- The last part of `multi`, with the load and without an outage. -/
theorem highLoad_triple {texts : List String} :
    Triple Loaded (Script.tryFinally (steps texts) (run .deleteLoad)) (fun _ => Settled) Explained := by
  have hdelete : Triple Loaded (run .deleteLoad) (fun _ => Settled) Explained := by
    refine Triple.exec (fun r w hr hw => ?_) (fun r hr => hr.left hr.calm.load rfl)
      fun r w hr hw => ?_
    · obtain rfl := Option.some.inj hw
      have hcalm : Calm none false (r.record .deleteLoad .done { r.world with load := false }) :=
        hr.calm.loaded fun c n hcmd => by cases hcmd
      exact .of_calm hcalm (fun _ => rfl) fun hcmd => by cases hcmd
    · obtain rfl := Option.some.inj hw
      exact hr.left rfl rfl
  refine Triple.tryFinally (Q := fun _ => Loaded) (E := Loaded) ?_ (fun _ => hdelete) ?_
  · refine steps_triple (fun r text _ f hr => ?_) fun _ hr => hr
    exact ⟨hr.calm.step text f, saw_record.2 (.inl hr.low), applied_record.2 (.inl hr.applied)⟩
  · exact hdelete.conseq (fun r hr => hr) (fun _ r hr => hr.explained) fun r hr => hr

theorem Fresh.exec_triple (hlow : cmd ≠ .step allLow) (happly : cmd ≠ .applyLoad) :
    Triple Fresh (run cmd) (fun _ => Fresh) Fresh :=
  .exec (fun _ _ hr _ => hr.record hlow happly) (fun _ hr => hr.record hlow happly)
    fun _ _ hr _ => hr.record hlow happly

theorem Fresh.steps_triple {texts : List String} (htexts : allLow ∉ texts) :
    Triple Fresh (steps texts) (fun _ => Fresh) Fresh := by
  refine Outages.steps_triple (fun r text hmem f hr => ?_) fun _ hr => hr
  refine hr.record (fun hcmd => htexts ?_) fun hcmd => by cases hcmd
  rwa [← Cmd.step.inj hcmd]

/-- The first outage of `multi` is not the second. -/
theorem firstOutage_triple {texts : List String} (htexts : allLow ∉ texts) :
    Triple (fun r => Settled r ∧ Fresh r) (outage .adapter (steps texts) (Pure.pure ()))
      (fun _ r => Settled r ∧ Fresh r) Explained := by
  have hrecover : Triple Fresh (do run (.scale .adapter 1); ready .adapter) (fun _ => Fresh) Fresh :=
    Triple.bind (Fresh.exec_triple (by decide) (by decide)) fun _ =>
      Fresh.exec_triple (by decide) (by decide)
  have hfresh : Triple Fresh (outage .adapter (steps texts) (Pure.pure ())) (fun _ => Fresh) Fresh := by
    refine Triple.bind (Fresh.exec_triple (by decide) (by decide)) fun _ => ?_
    refine Triple.tryFinally (Fresh.steps_triple htexts) (fun _ => ?_) ?_
    · exact .bind (.pure fun _ hr => hr) fun _ => hrecover
    · exact .bind (.pure fun _ hr => hr) fun _ => hrecover
  exact ((observe_triple fun _ hr => hr).and hfresh).conseq (fun _ hr => hr) (fun _ _ hr => hr)
    fun _ hr => hr.1

theorem multi_triple : Triple (fun r => Settled r ∧ Fresh r) multi (fun _ => Settled) Explained := by
  have hbefore : ∀ texts : List String, allLow ∉ texts →
      Triple (fun r => Settled r ∧ Fresh r) (steps texts) (fun _ r => Settled r ∧ Fresh r)
        Explained := fun texts htexts =>
    (Settled.steps_triple.and (Fresh.steps_triple htexts)).conseq (fun _ hr => hr)
      (fun _ _ hr => hr) fun _ hr => hr.1
  refine Triple.bind (hbefore _ (by decide)) fun _ => ?_
  refine Triple.bind (firstOutage_triple (by decide)) fun _ => ?_
  refine Triple.bind (hbefore _ (by decide)) fun _ => ?_
  refine Triple.bind secondOutage_triple fun _ => ?_
  -- from here on `allLow` is in the log
  refine Triple.bind (Q := fun _ r => Settled r ∧ Saw r.log (.step allLow) .done)
    (.idle (fun _ _ => effect_step) (fun r hr _ => ?_)
      fun r f _ hr => (hr.step allLow f).explained) fun _ => ?_
  · exact ⟨hr.step allLow _, saw_record.2 (.inr ⟨rfl, rfl⟩)⟩
  refine Triple.bind (Q := fun _ r => Settled r ∧ Saw r.log (.step allLow) .done) ?_ fun _ => ?_
  · exact steps_triple (fun r text _ f hr => ⟨hr.1.step text f, saw_record.2 (.inl hr.2)⟩)
      fun _ hr => hr.1.explained
  exact Triple.bind applyLoad_triple fun _ => Triple.bind highLoad_triple fun _ =>
    Settled.steps_triple

theorem Settled.start (fates : List Fate) : Settled ⟨up, [], fates⟩ where
  calm := ⟨fun _ => rfl, rfl, fun _ => not_saw_nil, fun _ => not_saw_nil, fun _ he => by cases he⟩
  deleted _ hends := absurd hends.saw not_saw_nil
  applied hends := not_saw_nil hends.saw

theorem Fresh.start (fates : List Fate) : Fresh ⟨up, [], fates⟩ where
  low := not_saw_nil
  fresh happlied := by
    obtain ⟨f, -, hsaw⟩ := happlied
    exact not_saw_nil hsaw

/-- **What the outages leave behind.** Whichever commands of `failures` or `multi` fail, and however:
a run that ends normally leaves the cluster as it was; one that raises leaves a deployment stopped
exactly when `Stranded`, and the load running exactly when `LoadLeft`. At no point of a run are two
of the deployments stopped. -/
theorem restored_exact (fates : List Fate) {x : ClusterScript Unit}
    (hx : x = failures ∨ x = multi) :
    ((x ⟨up, [], fates⟩).1.isSome → (x ⟨up, [], fates⟩).2.world = up) ∧
      ((x ⟨up, [], fates⟩).1 = none →
        (∀ c, (x ⟨up, [], fates⟩).2.world.replicas c = 0 ↔
          Stranded (x ⟨up, [], fates⟩).2.log c) ∧
        ((x ⟨up, [], fates⟩).2.world.load = true ↔ LoadLeft (x ⟨up, [], fates⟩).2.log)) ∧
      ∀ e ∈ (x ⟨up, [], fates⟩).2.log, e.after.OneDown := by
  have htriple : Triple (fun r => Settled r ∧ Fresh r) x (fun _ => Settled) Explained := by
    rcases hx with rfl | rfl
    · exact failures_triple.conseq (fun _ hr => hr.1) (fun _ _ hr => hr) fun _ hr => hr
    · exact multi_triple
  have hafter := htriple _ ⟨Settled.start fates, Fresh.start fates⟩
  generalize x ⟨up, [], fates⟩ = o at hafter ⊢
  obtain ⟨a, r⟩ := o
  cases a with
  | none =>
    have hexplained : Explained r := hafter
    exact ⟨fun h => (by cases h), fun _ => ⟨hexplained.stopped, hexplained.load⟩, hexplained.seen⟩
  | some u =>
    have hsettled : Settled r := hafter
    refine ⟨fun _ => ?_, fun h => (by cases h), hsettled.calm.seen⟩
    have hreplicas : r.world.replicas = up.replicas := funext fun c => hsettled.calm.replicas c
    have hload : r.world.load = up.load := hsettled.calm.load
    show r.world = up
    cases hw : r.world
    simp_all [up]

/-- The load of the second outage of `multi` is not deleted: the adapter stays stopped, and the load
is there. -/
theorem restored_exact_multi :
    Stranded (multi ⟨up, [], List.replicate 26 .done ++ [.refused]⟩).2.log .adapter ∧
      LoadLeft (multi ⟨up, [], List.replicate 26 .done ++ [.refused]⟩).2.log := by
  obtain ⟨-, hraised, -⟩ :=
    restored_exact (List.replicate 26 .done ++ [.refused]) (Or.inr rfl : multi = failures ∨ multi = multi)
  obtain ⟨hstopped, hload⟩ := hraised (by decide +kernel)
  exact ⟨(hstopped .adapter).1 (by decide +kernel), hload.1 (by decide +kernel)⟩

end K8sDev.Outages

import K8sDev.Spec.StaticPods

/-!
# What the control plane experiments leave behind

Both scripts restore in a `finally`, so whichever command fails, a manifest that is missing at the
end is missing for one of two reasons: the `mv` that took it away had its effect although it failed
(the node is then not in `stopped`), or a restoring `mv` failed, which ends the `finally` on the
spot. `restores` says which nodes that leaves, and `Away` is the invariant behind it.
-/

namespace K8sDev.StaticPods

open Script

variable {c c' : Component} {n m : Node} {pre out : List Node} {l : Option Node}
  {gone : List Component} {r : Run Lab Cmd} {w w' : Lab}

/-- The `mv` that took the manifest away worked. -/
def Taken (log : List (Entry Lab Cmd)) (n : Node) (c : Component) : Prop :=
  Saw log (.disable n c) .done

/-- It failed, and took the manifest away. -/
def Lost (log : List (Entry Lab Cmd)) (n : Node) (c : Component) : Prop :=
  Saw log (.disable n c) .lost

/-- The order of `NODES`. -/
def Node.Before (m n : Node) : Prop := nodes.idxOf m < nodes.idxOf n

/-- The run ended with a restoring `mv` that failed: at the node itself without an effect, or at a
node before it. -/
def Stuck (log : List (Entry Lab Cmd)) (n : Node) (c : Component) : Prop :=
  Ends log (.enable n c) .refused ∨
    ∃ m f, Ends log (.enable m c) f ∧ f ≠ .done ∧ m.Before n

/-- No restoring `mv` has failed. -/
def Restoring (log : List (Entry Lab Cmd)) : Prop :=
  ∀ n c f, Saw log (.enable n c) f → f = .done

/-- Between the start of the `try` and the end of the `finally`: `pre` was taken away, `out` of it
is still away, and so is `l`, whose `mv` failed with its effect. -/
structure Away (gone : List Component) (c : Component) (pre out : List Node) (l : Option Node)
    (r : Run Lab Cmd) : Prop where
  missing : ∀ n c', r.world.inPlace n c' = false ↔ c' = c ∧ (n ∈ out ∨ l = some n)
  taken : ∀ n, Taken r.log n c ↔ n ∈ pre
  before : ∀ n c', Taken r.log n c' → c' = c ∨ c' ∈ gone
  lost : ∀ n c', Lost r.log n c' ↔ c' = c ∧ l = some n
  fresh : ∀ n, l = some n → n ∉ out
  restoring : Restoring r.log
  seen : ∀ e ∈ r.log, e.after.OneAway

/-- Between two components: everything is in place, and the components of `gone` are over. -/
structure Clean (gone : List Component) (r : Run Lab Cmd) : Prop where
  intact : r.world.Intact
  before : ∀ n c', Taken r.log n c' → c' ∈ gone
  lost : ∀ n c', ¬Lost r.log n c'
  restoring : Restoring r.log
  seen : ∀ e ∈ r.log, e.after.OneAway

/-- What the log says about the manifests that are missing. -/
structure Explained (r : Run Lab Cmd) : Prop where
  missing : ∀ n c, r.world.inPlace n c = false ↔
    Lost r.log n c ∨ (Taken r.log n c ∧ Stuck r.log n c)
  seen : ∀ e ∈ r.log, e.after.OneAway

/-! ## The log after one more command -/

section record

variable {cmd : Cmd} {f : Fate}

theorem taken_record : Taken (r.record cmd f w).log n c ↔
    Taken r.log n c ∨ cmd = .disable n c ∧ f = .done := saw_record

theorem lost_record : Lost (r.record cmd f w).log n c ↔
    Lost r.log n c ∨ cmd = .disable n c ∧ f = .lost := saw_record

theorem restoring_record (h : Restoring r.log) (hf : ∀ n c, cmd = .enable n c → f = .done) :
    Restoring (r.record cmd f w).log := by
  intro n c f' hsaw
  rcases saw_record.1 hsaw with hsaw | ⟨hcmd, rfl⟩
  · exact h n c f' hsaw
  · exact hf n c hcmd

/-- Nothing is stuck as long as no restoring `mv` has failed. -/
theorem not_stuck (h : Restoring r.log) : ¬Stuck r.log n c := by
  rintro (hends | ⟨m, f, hends, hf, -⟩)
  · cases h n c .refused hends.saw
  · exact hf (h m c f hends.saw)

end record

/-! ## The invariant, command by command -/

/-- Whatever is away is of one component. -/
theorem oneAway_of_missing {out : List Node} {l : Option Node}
    (h : ∀ n c', w.inPlace n c' = false ↔ c' = c ∧ (n ∈ out ∨ l = some n)) : w.OneAway := by
  intro n n' c₁ c₂ h₁ h₂
  exact ((h n c₁).1 h₁).1.trans ((h n' c₂).1 h₂).1.symm

theorem Away.oneAway (h : Away gone c pre out l r) : r.world.OneAway :=
  oneAway_of_missing h.missing

/-- A command that moves no manifest, however it ends. -/
theorem Away.neutral (h : Away gone c pre out l r) {cmd : Cmd} {f : Fate}
    (hd : ∀ n c, cmd ≠ .disable n c) (he : ∀ n c, cmd ≠ .enable n c)
    (hw : w.inPlace = r.world.inPlace) : Away gone c pre out l (r.record cmd f w) where
  missing n c' := by
    show w.inPlace n c' = false ↔ _
    rw [hw]
    exact h.missing n c'
  taken n := by simp [taken_record, hd, h.taken]
  before n c' ht := h.before n c' (by simpa [taken_record, hd] using ht)
  lost n c' := by simp [lost_record, hd, h.lost]
  fresh := h.fresh
  restoring := restoring_record h.restoring fun n c hcmd => absurd hcmd (he n c)
  seen := seen_record h.seen (by
    have hone := h.oneAway
    unfold Lab.OneAway at hone ⊢
    rwa [hw])

/-- The `mv` of a node that is refused. -/
theorem Away.disable_refused (h : Away gone c pre pre none r) :
    Away gone c pre pre none (r.record (.disable n c) .refused r.world) where
  missing := h.missing
  taken n := by simp [taken_record, h.taken]
  before n c' ht := h.before n c' (by simpa [taken_record] using ht)
  lost n c' := by simp [lost_record, h.lost]
  fresh := h.fresh
  restoring := restoring_record h.restoring fun _ _ hcmd => by cases hcmd
  seen := seen_record h.seen h.oneAway

theorem disable_effect (h : effect (.disable n c) w = some w') :
    w.inPlace n c = true ∧ w' = w.place n c false := by
  simp only [effect] at h
  split at h
  · rename_i hboth
    exact ⟨hboth.1, (Option.some.inj h).symm⟩
  · cases h

theorem enable_effect (h : effect (.enable n c) w = some w') : w' = w.place n c true := by
  simp only [effect] at h
  split at h
  · cases h
  · exact (Option.some.inj h).symm

/-- The `mv` of a node takes its manifest away: it is then `out`, or `l` if the `mv` failed. -/
theorem Away.place_false (h : Away gone c pre pre none r) (n₀ : Node) {pre' : List Node}
    {l : Option Node} (hpre : ∀ n, (n ∈ pre' ∨ l = some n) ↔ n ∈ pre ∨ n = n₀) :
    ∀ n c', (r.world.place n₀ c false).inPlace n c' = false ↔ c' = c ∧ (n ∈ pre' ∨ l = some n) := by
  intro n c'
  have hmissing := h.missing n c'
  simp only [Lab.place, hpre]
  split
  · rename_i hboth
    simp [hboth.1, hboth.2]
  · rename_i hneither
    rw [hmissing]
    constructor
    · rintro ⟨hc, hn | hn⟩
      · exact ⟨hc, .inl hn⟩
      · cases hn
    · rintro ⟨hc, hn | hn⟩
      · exact ⟨hc, .inl hn⟩
      · exact absurd ⟨hn, hc⟩ hneither

theorem Away.disable_done (h : Away gone c pre pre none r)
    (hw : effect (.disable n c) r.world = some w) :
    Away gone c (pre ++ [n]) (pre ++ [n]) none (r.record (.disable n c) .done w) := by
  obtain ⟨-, rfl⟩ := disable_effect hw
  have hmissing := @Away.place_false _ _ _ _ h n (pre ++ [n]) none fun m => by simp
  refine ⟨hmissing, ?_, ?_, ?_, fun m hm => (by cases hm), ?_, ?_⟩
  · intro m
    rw [taken_record, h.taken, List.mem_append, List.mem_singleton]
    simp [eq_comm]
  · intro m c' ht
    rcases taken_record.1 ht with ht | ⟨hcmd, -⟩
    · exact h.before m c' ht
    · cases hcmd
      exact .inl rfl
  · intro m c'
    simp [lost_record, h.lost]
  · exact restoring_record h.restoring fun _ _ hcmd => by cases hcmd
  · exact seen_record h.seen (oneAway_of_missing hmissing)

theorem Away.disable_lost (h : Away gone c pre pre none r)
    (hw : effect (.disable n c) r.world = some w) :
    Away gone c pre pre (some n) (r.record (.disable n c) .lost w) := by
  obtain ⟨hplace, rfl⟩ := disable_effect hw
  have hmissing := @Away.place_false _ _ _ _ h n pre (some n) fun m => by simp [eq_comm]
  have hnew : n ∉ pre := by
    intro hn
    have hfalse := (h.missing n c).2 ⟨rfl, .inl hn⟩
    rw [hplace] at hfalse
    cases hfalse
  refine ⟨hmissing, ?_, ?_, ?_, ?_, ?_, ?_⟩
  · intro m
    simp [taken_record, h.taken]
  · exact fun m c' ht => h.before m c' (by simpa [taken_record] using ht)
  · intro m c'
    simp only [lost_record, h.lost]
    constructor
    · rintro (⟨-, hm⟩ | ⟨hcmd, -⟩)
      · cases hm
      · cases hcmd
        exact ⟨rfl, rfl⟩
    · rintro ⟨rfl, hm⟩
      cases hm
      exact .inr ⟨rfl, trivial⟩
  · intro m hm
    cases hm
    exact hnew
  · exact restoring_record h.restoring fun _ _ hcmd => by cases hcmd
  · exact seen_record h.seen (oneAway_of_missing hmissing)

/-- A restoring `mv` that had its effect puts the first of the nodes back. -/
theorem Away.place_true {out : List Node} (h : Away gone c pre (m :: out) l r) (hm : m ∉ out) :
    ∀ n c', (r.world.place m c true).inPlace n c' = false ↔ c' = c ∧ (n ∈ out ∨ l = some n) := by
  intro n c'
  have hmissing := h.missing n c'
  simp only [Lab.place]
  split
  · rename_i hboth
    obtain ⟨rfl, rfl⟩ := hboth
    have hl : l ≠ some n := fun hl => h.fresh n hl List.mem_cons_self
    simp [hm, hl]
  · rename_i hneither
    rw [hmissing, List.mem_cons]
    constructor
    · rintro ⟨hc, (hn | hn) | hn⟩
      · exact absurd ⟨hn, hc⟩ hneither
      · exact ⟨hc, .inl hn⟩
      · exact ⟨hc, .inr hn⟩
    · rintro ⟨hc, hn | hn⟩
      · exact ⟨hc, .inl (.inr hn)⟩
      · exact ⟨hc, .inr hn⟩

theorem Away.enable_done {out : List Node} (h : Away gone c pre (m :: out) l r) (hm : m ∉ out)
    (hw : effect (.enable m c) r.world = some w) :
    Away gone c pre out l (r.record (.enable m c) .done w) := by
  obtain rfl := enable_effect hw
  have hmissing := h.place_true hm
  refine ⟨hmissing, ?_, ?_, ?_, ?_, ?_, ?_⟩
  · intro n
    simp [taken_record, h.taken]
  · exact fun n c' ht => h.before n c' (by simpa [taken_record] using ht)
  · intro n c'
    simp [lost_record, h.lost]
  · exact fun n hl hn => h.fresh n hl (List.mem_cons_of_mem m hn)
  · exact restoring_record h.restoring fun _ _ _ => rfl
  · exact seen_record h.seen (oneAway_of_missing hmissing)

/-- The end of a run whose restoring `mv` failed at `m`. -/
theorem stuck_record {f : Fate} (hf : f ≠ .done) : Stuck (r.record (.enable m c) f w).log n c' ↔
    c' = c ∧ ((n = m ∧ f = .refused) ∨ m.Before n) := by
  simp only [Stuck, ends_record, Cmd.enable.injEq]
  constructor
  · rintro (⟨⟨rfl, rfl⟩, hr⟩ | ⟨k, f', ⟨⟨rfl, rfl⟩, -⟩, -, hk⟩)
    · exact ⟨rfl, .inl ⟨rfl, hr⟩⟩
    · exact ⟨rfl, .inr hk⟩
  · rintro ⟨rfl, ⟨rfl, hr⟩ | hk⟩
    · exact .inl ⟨⟨rfl, rfl⟩, hr⟩
    · exact .inr ⟨m, f, ⟨⟨rfl, rfl⟩, rfl⟩, hf, hk⟩

/-- **A restoring `mv` fails.** `out` was still to be restored, starting at `m`. -/
theorem Away.enable_failed {out : List Node} (h : Away gone c pre (m :: out) l r) (hm : m ∉ out)
    (hpre : m ∈ pre) (hafter : ∀ n, n ∈ out ↔ n ∈ pre ∧ m.Before n) :
    Explained (r.record (.enable m c) .refused r.world) ∧
      ∀ w, effect (.enable m c) r.world = some w → Explained (r.record (.enable m c) .lost w) := by
  have hlog : ∀ (f : Fate) (w : Lab) (n : Node) (c' : Component), f ≠ .done →
      (Lost (r.record (.enable m c) f w).log n c' ∨
        (Taken (r.record (.enable m c) f w).log n c' ∧
          Stuck (r.record (.enable m c) f w).log n c') ↔
      c' = c ∧ (l = some n ∨ n ∈ out ∨ (n = m ∧ f = .refused))) := by
    intro f w n c' hf
    -- the restoring `mv` is the last entry, so it explains the nodes from `m` on
    rw [lost_record, taken_record, stuck_record hf, h.lost]
    constructor
    · rintro ((⟨hc, hl⟩ | ⟨hcmd, -⟩) | ⟨htaken, hc, hstuck⟩)
      · exact ⟨hc, .inl hl⟩
      · cases hcmd
      · subst hc
        have hn : n ∈ pre := by
          rcases htaken with htaken | ⟨hcmd, -⟩
          · exact (h.taken n).1 htaken
          · cases hcmd
        rcases hstuck with hstuck | hstuck
        · exact ⟨rfl, .inr (.inr hstuck)⟩
        · exact ⟨rfl, .inr (.inl ((hafter n).2 ⟨hn, hstuck⟩))⟩
    · rintro ⟨rfl, hl | hn | ⟨rfl, hr⟩⟩
      · exact .inl (.inl ⟨rfl, hl⟩)
      · obtain ⟨hn, hk⟩ := (hafter n).1 hn
        exact .inr ⟨.inl ((h.taken n).2 hn), rfl, .inr hk⟩
      · exact .inr ⟨.inl ((h.taken n).2 hpre), rfl, .inl ⟨rfl, hr⟩⟩
  -- refused: `m` stays away with the nodes after it; lost: only those after it do
  refine ⟨⟨fun n c' => ?_, seen_record h.seen h.oneAway⟩, fun w hw => ?_⟩
  · rw [hlog .refused r.world n c' (by decide)]
    show r.world.inPlace n c' = false ↔ _
    rw [h.missing, List.mem_cons]
    tauto
  · obtain rfl := enable_effect hw
    have hmissing := h.place_true hm
    refine ⟨fun n c' => ?_, seen_record h.seen (oneAway_of_missing hmissing)⟩
    rw [hlog .lost _ n c' (by decide)]
    show (r.world.place m c true).inPlace n c' = false ↔ _
    rw [hmissing]
    have hneq : Fate.lost ≠ .refused := by decide
    tauto

/-- When everything that was taken away is back, what is missing is what was lost. -/
theorem Away.explained (h : Away gone c pre [] l r) : Explained r where
  missing n c' := by
    rw [h.missing, h.lost]
    have hstuck : ¬Stuck r.log n c' := not_stuck h.restoring
    simp [hstuck]
  seen := h.seen

theorem Away.clean (h : Away gone c pre [] none r) : Clean (gone ++ [c]) r where
  intact n c' := by
    rw [← Bool.not_eq_false, h.missing]
    simp
  before n c' ht := by
    have := h.before n c' ht
    simp only [List.mem_append, List.mem_singleton]
    tauto
  lost n c' := by simp [h.lost]
  restoring := h.restoring
  seen := h.seen

theorem Clean.explained (h : Clean gone r) : Explained r where
  missing n c := by
    have hplace : r.world.inPlace n c = true := h.intact n c
    have hstuck : ¬Stuck r.log n c := not_stuck h.restoring
    simp [hplace, hstuck, h.lost]
  seen := h.seen

/-- The start of a component. -/
theorem Clean.away (h : Clean gone r) (hc : c ∉ gone) (ns : List Node) :
    Away gone c [] [] none { r with world := { r.world with stopped := ns } } where
  missing n c' := by
    have hplace : r.world.inPlace n c' = true := h.intact n c'
    simp [hplace]
  taken n := by
    have hnot : ¬Taken r.log n c := fun ht => hc (h.before n c ht)
    simpa using hnot
  before n c' ht := .inr (h.before n c' ht)
  lost n c' := by simpa using h.lost n c'
  fresh n hl := by cases hl
  restoring := h.restoring
  seen := h.seen

/-! ## The scripts -/

/-- What `steps` keeps. -/
theorem steps_triple {P : Run Lab Cmd → Prop} {E : Run Lab Cmd → Prop} {texts : List String}
    (hkeep : ∀ r text f, P r → P (r.record (.step text) f r.world)) (hexc : ∀ r, P r → E r) :
    Triple P (steps texts) (fun _ => P) E :=
  .steps (fun _ _ _ hw => (Option.some.inj hw).symm) (fun r text _ hr => hkeep r text _ hr)
    fun r text _ f _ hr => hexc _ (hkeep r text f hr)

theorem Clean.step (h : Clean gone r) (text : String) (f : Fate) :
    Clean gone (r.record (.step text) f r.world) where
  intact := h.intact
  before n c ht := h.before n c (by simpa [taken_record] using ht)
  lost n c := by simp [lost_record, h.lost]
  restoring := restoring_record h.restoring fun _ _ hcmd => by cases hcmd
  seen := seen_record h.seen fun n n' c c' hn => by
    have hplace : r.world.inPlace n c = true := h.intact n c
    rw [hplace] at hn
    cases hn

theorem nodes_pairwise : nodes.Pairwise Node.Before := by
  unfold Node.Before
  decide

/-- What comes after `m` in `NODES`, of the first nodes. -/
theorem mem_after {q rest post : List Node} (hns : nodes = (q ++ m :: rest) ++ post) :
    m ∉ rest ∧ ∀ n, n ∈ rest ↔ n ∈ q ++ m :: rest ∧ m.Before n := by
  have hpair := nodes_pairwise
  rw [hns] at hpair
  have hpre := (List.pairwise_append.1 hpair).1
  obtain ⟨-, hcons, hq⟩ := List.pairwise_append.1 hpre
  have hm : ∀ n ∈ rest, m.Before n := (List.pairwise_cons.1 hcons).1
  have hirrefl : ∀ n : Node, ¬n.Before n := fun n => Nat.lt_irrefl _
  refine ⟨fun hmem => hirrefl m (hm m hmem), fun n => ⟨fun hn => ⟨by simp [hn], hm n hn⟩, ?_⟩⟩
  rintro ⟨hn, hbefore⟩
  rcases List.mem_append.1 hn with hn | hn
  · exact absurd hbefore (Nat.lt_asymm (hq n hn m List.mem_cons_self))
  · rcases List.mem_cons.1 hn with rfl | hn
    · exact absurd hbefore (hirrefl n)
    · exact hn

/-- **The `finally`** puts back what is in `stopped`, or ends with a `mv` that failed. -/
theorem restore_triple {post : List Node} (hns : nodes = pre ++ post) :
    Triple (fun r => Away gone c pre pre l r ∧ r.world.stopped = pre) (restore c)
      (fun _ r => Away gone c pre [] l r) Explained := by
  refine Triple.bind (Q := fun w r => w.stopped = pre ∧ Away gone c pre pre l r)
    (.read fun r hr => ⟨hr.2, hr.1⟩) fun w => .assuming fun hstopped => ?_
  rw [hstopped]
  refine Triple.conseq (Triple.forEach
    (I := fun q r => ∃ out, pre = q ++ out ∧ Away gone c pre out l r) ?_)
    (fun r hr => ⟨pre, rfl, hr⟩) ?_ fun r hr => hr
  · intro q m rest hpre
    -- the nodes of `q` are back, `m` is next
    have hstart : ∀ r, (∃ out, pre = q ++ out ∧ Away gone c pre out l r) →
        Away gone c pre (m :: rest) l r := by
      rintro r ⟨out, hout, hr⟩
      obtain rfl := List.append_cancel_left (hpre.symm.trans hout)
      exact hr
    rw [hpre] at hns
    obtain ⟨hm, hafter⟩ := mem_after hns
    rw [← hpre] at hafter
    have hmem : m ∈ pre := by rw [hpre]; simp
    refine Triple.exec (fun r w hr hw => ?_) (fun r hr => ?_) fun r w hr hw => ?_
    · exact ⟨rest, by simpa using hpre, (hstart r hr).enable_done hm hw⟩
    · exact ((hstart r hr).enable_failed hm hmem hafter).1
    · exact ((hstart r hr).enable_failed hm hmem hafter).2 w hw
  · rintro - r ⟨out, hout, hr⟩
    obtain rfl : out = [] := by simpa using hout
    exact hr

/-- **One component**: it ends with everything in place, or with what the log explains. -/
theorem outage_triple (hc : c ∉ gone) {before : Node → LabScript Unit} {body : List String}
    (hbefore : ∀ n pre, Triple (fun r => Away gone c pre pre none r ∧ r.world.stopped = pre)
      (before n) (fun _ r => Away gone c pre pre none r ∧ r.world.stopped = pre)
      fun r => Away gone c pre pre none r ∧ r.world.stopped = pre) :
    Triple (Clean gone) (outage c before body) (fun _ => Clean (gone ++ [c])) Explained := by
  refine Triple.bind (Q := fun _ r => Away gone c [] [] none r ∧ r.world.stopped = [])
    (.assign fun r hr => ⟨hr.away hc [], rfl⟩) fun _ => ?_
  refine Triple.tryFinally
    (Q := fun _ r => Away gone c nodes nodes none r ∧ r.world.stopped = nodes)
    (E := fun r => ∃ pre, ∃ l, (∃ post, nodes = pre ++ post) ∧
      Away gone c pre pre l r ∧ r.world.stopped = pre) ?_ (fun _ => ?_) ?_
  · -- the body of the `try`
    refine Triple.bind (Q := fun _ r => Away gone c nodes nodes none r ∧ r.world.stopped = nodes)
      ?_ fun _ => ?_
    · -- one node after the other: `pre` are the nodes that were taken away
      refine Triple.forEach
        (I := fun pre r => Away gone c pre pre none r ∧ r.world.stopped = pre) ?_
      intro pre n post hns
      refine Triple.bind ((hbefore n pre).conseq (fun r hr => hr) (fun _ r hr => hr)
        fun r hr => ⟨pre, none, ⟨n :: post, hns⟩, hr⟩) fun _ => ?_
      refine Triple.bind
        (Q := fun _ r => Away gone c (pre ++ [n]) (pre ++ [n]) none r ∧ r.world.stopped = pre)
        (Triple.exec ?_ ?_ ?_) fun _ => .assign fun r hr => ?_
      · intro r w hr hw
        refine ⟨hr.1.disable_done hw, ?_⟩
        obtain ⟨-, rfl⟩ := disable_effect hw
        exact hr.2
      · intro r hr
        exact ⟨pre, none, ⟨n :: post, hns⟩, hr.1.disable_refused, hr.2⟩
      · intro r w hr hw
        refine ⟨pre, some n, ⟨n :: post, hns⟩, hr.1.disable_lost hw, ?_⟩
        obtain ⟨-, rfl⟩ := disable_effect hw
        exact hr.2
      · refine ⟨?_, congrArg (· ++ [n]) hr.2⟩
        exact ⟨hr.1.missing, hr.1.taken, hr.1.before, hr.1.lost, hr.1.fresh, hr.1.restoring, hr.1.seen⟩
    · refine steps_triple (fun r text f hr => ⟨?_, hr.2⟩) fun r hr => ?_
      · exact hr.1.neutral (fun n c hcmd => by cases hcmd) (fun n c hcmd => by cases hcmd) rfl
      · exact ⟨nodes, none, ⟨[], (List.append_nil _).symm⟩, hr⟩
  · -- after the normal end every node is restored
    refine (restore_triple (List.append_nil nodes).symm).conseq (fun r hr => hr) (fun _ r hr => ?_)
      fun r hr => hr
    exact hr.clean
  · -- after an exception, the nodes in `stopped`
    refine .exists fun pre => .exists fun l => .assuming fun hpost => ?_
    obtain ⟨post, hns⟩ := hpost
    exact (restore_triple hns).conseq (fun r hr => hr) (fun _ r hr => hr.explained) fun r hr => hr

theorem Clean.steps_triple {texts : List String} :
    Triple (Clean gone) (steps texts) (fun _ => Clean gone) Explained :=
  StaticPods.steps_triple (fun _ text f hr => hr.step text f) fun _ hr => hr.explained

theorem components_triple :
    Triple (Clean []) components (fun _ => Clean [.scheduler, .controllerManager]) Explained := by
  refine Triple.forEach (I := Clean) fun gone c post hcs => ?_
  have hnd : ([.scheduler, .controllerManager] : List Component).Nodup := by decide
  have hc : c ∉ gone := by
    rw [hcs, List.nodup_append] at hnd
    exact fun hmem => hnd.2.2 c hmem c List.mem_cons_self rfl
  refine Triple.bind (outage_triple hc fun n pre => ?_) fun _ => Clean.steps_triple
  -- `mkdir` moves nothing
  have hkeep : ∀ r w f, Away gone c pre pre none r ∧ r.world.stopped = pre →
      w.inPlace = r.world.inPlace → w.stopped = r.world.stopped →
      Away gone c pre pre none (r.record (.mkdir n) f w) ∧
        (r.record (.mkdir n) f w).world.stopped = pre := by
    intro r w f hr hplace hstopped
    refine ⟨hr.1.neutral (fun n c hcmd => ?_) (fun n c hcmd => ?_) hplace, hstopped.trans hr.2⟩
    · cases hcmd
    · cases hcmd
  refine Triple.exec (fun r w hr hw => ?_) (fun r hr => hkeep r _ _ hr rfl rfl) fun r w hr hw => ?_
  · obtain rfl := Option.some.inj hw
    exact hkeep r _ _ hr rfl rfl
  · obtain rfl := Option.some.inj hw
    exact hkeep r _ _ hr rfl rfl

theorem apiOutage_triple :
    Triple (Clean []) apiOutage (fun _ => Clean [.apiserver]) Explained := by
  refine Triple.bind Clean.steps_triple fun _ => ?_
  refine Triple.bind (outage_triple List.not_mem_nil fun n pre => ?_) fun _ => Clean.steps_triple
  exact .pure fun r hr => hr

theorem Clean.start (hw : w.Intact) (fates : List Fate) : Clean [] ⟨w, [], fates⟩ where
  intact := hw
  before _ _ ht := absurd ht not_saw_nil
  lost _ _ := not_saw_nil
  restoring _ _ _ hsaw := absurd hsaw not_saw_nil
  seen _ he := by cases he

/-- **Both scripts restore what they stop.** Whichever of their commands fail, and however: a run
that ends normally leaves every manifest in its place. Of any other run, the log says which are
missing: those whose `mv` failed after it had moved them, and, if the run ended with a restoring
`mv` that failed, those that were taken away and come after it in `NODES` (the node itself too, if
that `mv` had no effect). At no point of a run are two components away. -/
theorem restores (hw : w.Intact) (fates : List Fate) {x : LabScript Unit}
    (hx : x = components ∨ x = apiOutage) :
    ((x ⟨w, [], fates⟩).1.isSome → (x ⟨w, [], fates⟩).2.world.Intact) ∧
      (∀ n c, (x ⟨w, [], fates⟩).2.world.inPlace n c = false ↔
        Lost (x ⟨w, [], fates⟩).2.log n c ∨
          (Taken (x ⟨w, [], fates⟩).2.log n c ∧ Stuck (x ⟨w, [], fates⟩).2.log n c)) ∧
      ∀ e ∈ (x ⟨w, [], fates⟩).2.log, e.after.OneAway := by
  obtain ⟨gone, htriple⟩ : ∃ gone, Triple (Clean []) x (fun _ => Clean gone) Explained := by
    rcases hx with rfl | rfl
    · exact ⟨_, components_triple⟩
    · exact ⟨_, apiOutage_triple⟩
  have hafter := htriple _ (Clean.start hw fates)
  generalize x ⟨w, [], fates⟩ = o at hafter ⊢
  obtain ⟨a, r⟩ := o
  cases a with
  | none => exact ⟨fun h => (by cases h), Explained.missing hafter, Explained.seen hafter⟩
  | some u =>
    have hclean : Clean gone r := hafter
    exact ⟨fun _ => hclean.intact, hclean.explained.missing, hclean.explained.seen⟩

/-- A cluster as `setup.sh` and `run.sh` leave it. -/
def ready : Lab := ⟨fun _ _ => true, fun _ => false, []⟩

/-- The first `mv` moves the manifest and fails: the node is not in `stopped`. -/
theorem restores_lost :
    Lost (components ⟨ready, [], [.done, .lost]⟩).2.log .first .scheduler ∨
      (Taken (components ⟨ready, [], [.done, .lost]⟩).2.log .first .scheduler ∧
        Stuck (components ⟨ready, [], [.done, .lost]⟩).2.log .first .scheduler) :=
  ((restores (fun _ _ => rfl) [.done, .lost] (.inl rfl)).2.1 .first .scheduler).1 (by decide)

end K8sDev.StaticPods

import K8sDev.Spec.Upgrade

/-!
# The upgrade is rolling

At every point of every run of the script the cluster is `Safe`; a run that ends normally has
upgraded every node, and one that raises has stopped at one node, with the nodes before it upgraded
and the kubelets after it as they were (`upgrade_exact`).
-/

namespace K8sDev.Upgrade

open Script Function

variable {w₀ w : Cluster} {r : Run Cluster Cmd} {cmd : Cmd} {f : Fate} {n node : Node}
  {done : List Node} {c c' : Bool} {k k' : Option Version} {b b' : Version}

/-- A run that raised: where it has come to, and that it was safe all the way. -/
structure Stopped (w₀ : Cluster) (r : Run Cluster Cmd) : Prop where
  halted : w₀.Halted r.world
  seen : ∀ e ∈ r.log, e.after.Safe

theorem effect_step {w' : Cluster} {text : String} (h : effect (.step text) w = some w') : w' = w :=
  (Option.some.inj h).symm

/-! ## One node at a time -/

/-- The upgrade is at node `n`, which has `c`, `k` and `b`; the nodes of `done` are over. -/
structure On (w₀ : Cluster) (done : List Node) (n : Node) (c : Bool) (k : Option Version)
    (b : Version) (r : Run Cluster Cmd) : Prop where
  server : r.world.apiserver = .new
  upgraded : ∀ m ∈ done, r.world.kubelet m = some .new ∧ r.world.cordoned m = false
  untouched : ∀ m, m ∉ done → m ≠ n → r.world.kubelet m = w₀.kubelet m ∧
    r.world.binary m = w₀.binary m ∧ r.world.cordoned m = false
  cordoned : r.world.cordoned n = c
  kubelet : r.world.kubelet n = k
  binary : r.world.binary n = b
  stopped : k = none → c = true
  seen : ∀ e ∈ r.log, e.after.Safe

/-- What a command can change of a node. -/
def Cluster.set (w : Cluster) (n : Node) (c : Bool) (k : Option Version) (b : Version) : Cluster :=
  { w with
    cordoned := update w.cordoned n c
    kubelet := update w.kubelet n k
    binary := update w.binary n b }

theorem On.safe (hw : w₀.Ready) (h : On w₀ done n c k b r) : r.world.Safe where
  one := by
    have hcordoned : ∀ a, r.world.cordoned a = true → a = n := by
      intro a ha
      by_contra hne
      by_cases hmem : a ∈ done
      · rw [(h.upgraded a hmem).2] at ha
        cases ha
      · rw [(h.untouched a hmem hne).2.2] at ha
        cases ha
    exact fun a a' ha ha' => (hcordoned a ha).trans (hcordoned a' ha').symm
  drained a ha := by
    by_cases hn : a = n
    · subst hn
      exact h.cordoned.trans (h.stopped (h.kubelet.symm.trans ha))
    · by_cases hmem : a ∈ done
      · rw [(h.upgraded a hmem).1] at ha
        cases ha
      · have hrunning := hw.running a
        rw [← (h.untouched a hmem hn).1, ha] at hrunning
        cases hrunning
  skew _ _ := h.server

/-- A command that changes nothing but the node. -/
theorem On.record (hw : w₀.Ready) (h : On w₀ done n c k b r) (hn : n ∉ done)
    (hstopped : k' = none → c' = true) :
    On w₀ done n c' k' b' (r.record cmd f (r.world.set n c' k' b')) := by
  have hother : ∀ m, m ≠ n → (r.world.set n c' k' b').kubelet m = r.world.kubelet m ∧
      (r.world.set n c' k' b').binary m = r.world.binary m ∧
      (r.world.set n c' k' b').cordoned m = r.world.cordoned m := fun m hm => by
    simp [Cluster.set, hm]
  have hset : On w₀ done n c' k' b' ⟨r.world.set n c' k' b', r.log, r.fates⟩ := by
    refine ⟨h.server, fun m hm => ?_, fun m hm hmn => ?_, ?_, ?_, ?_, hstopped, h.seen⟩
    · obtain ⟨hkubelet, -, hcordoned⟩ := hother m fun heq => hn (heq ▸ hm)
      exact ⟨hkubelet.trans (h.upgraded m hm).1, hcordoned.trans (h.upgraded m hm).2⟩
    · obtain ⟨hkubelet, hbinary, hcordoned⟩ := hother m hmn
      have hbefore := h.untouched m hm hmn
      exact ⟨hkubelet.trans hbefore.1, hbinary.trans hbefore.2.1, hcordoned.trans hbefore.2.2⟩
    · exact update_self ..
    · exact update_self ..
    · exact update_self ..
  exact ⟨hset.server, hset.upgraded, hset.untouched, hset.cordoned, hset.kubelet, hset.binary,
    hstopped, seen_record h.seen (hset.safe hw)⟩

theorem On.set_self (h : On w₀ done n c k b r) : r.world.set n c k b = r.world := by
  rw [← h.cordoned, ← h.kubelet, ← h.binary]
  simp [Cluster.set]

/-- A run that raises at the node. -/
theorem On.halted {rest : List Node} (hnodes : nodes = done ++ n :: rest)
    (h : On w₀ done n c k b r) : Stopped w₀ r where
  halted := by
    refine ⟨done, n :: rest, hnodes, h.upgraded, fun m hm => ?_⟩
    have hnd : (done ++ n :: rest).Nodup := hnodes ▸ by decide
    have hm' : m ∈ rest := hm
    have hdone : m ∉ done := fun hmem =>
      (List.nodup_append.1 hnd).2.2 m hmem m (List.mem_cons_of_mem n hm') rfl
    have hne : m ≠ n := fun heq =>
      (List.nodup_cons.1 (List.nodup_append.1 hnd).2.1).1 (heq ▸ hm')
    obtain ⟨hkubelet, hbinary, -⟩ := h.untouched m hdone hne
    exact ⟨hkubelet, hbinary⟩
  seen := h.seen

theorem not_mem_of_nodes {rest : List Node} (hnodes : nodes = done ++ n :: rest) : n ∉ done := by
  have hnd : (done ++ n :: rest).Nodup := hnodes ▸ by decide
  exact fun hmem => (List.nodup_append.1 hnd).2.2 n hmem n List.mem_cons_self rfl

/-- **One command at a node.** -/
theorem On.exec_triple {rest : List Node} (hw : w₀.Ready) (hnodes : nodes = done ++ n :: rest)
    (heffect : ∀ r w, On w₀ done n c k b r → effect cmd r.world = some w →
      w = r.world.set n c' k' b')
    (hstopped : k' = none → c' = true) :
    Triple (On w₀ done n c k b) (run cmd) (fun _ => On w₀ done n c' k' b') (Stopped w₀) := by
  have hn := not_mem_of_nodes hnodes
  refine Triple.exec (fun r w hr hrun => ?_) (fun r hr => ?_) fun r w hr hrun => ?_
  · obtain rfl := heffect r w hr hrun
    exact hr.record hw hn hstopped
  · have hsame : On w₀ done n c k b (r.record cmd .refused (r.world.set n c k b)) :=
      hr.record hw hn hr.stopped
    rw [hr.set_self] at hsame
    exact hsame.halted hnodes
  · obtain rfl := heffect r w hr hrun
    exact (hr.record hw hn hstopped).halted hnodes

/-- Commands that change nothing. -/
theorem On.idle_triple {rest : List Node} (hw : w₀.Ready) (hnodes : nodes = done ++ n :: rest)
    (hidle : ∀ w w', effect cmd w = some w' → w' = w) (hstopped : k = none → c = true) :
    Triple (On w₀ done n c k b) (run cmd) (fun _ => On w₀ done n c k b) (Stopped w₀) :=
  On.exec_triple hw hnodes (fun _ _ hr hrun => (hidle _ _ hrun).trans hr.set_self.symm)
    hstopped

/-- Between two nodes. -/
structure Between (w₀ : Cluster) (done : List Node) (r : Run Cluster Cmd) : Prop where
  server : r.world.apiserver = .new
  upgraded : ∀ m ∈ done, r.world.kubelet m = some .new ∧ r.world.cordoned m = false
  untouched : ∀ m, m ∉ done → r.world.kubelet m = w₀.kubelet m ∧
    r.world.binary m = w₀.binary m ∧ r.world.cordoned m = false
  seen : ∀ e ∈ r.log, e.after.Safe

theorem Between.on (hw : w₀.Ready) (h : Between w₀ done r) (hn : n ∉ done) :
    On w₀ done n false (w₀.kubelet n) (w₀.binary n) r where
  server := h.server
  upgraded := h.upgraded
  untouched m hm _ := h.untouched m hm
  cordoned := (h.untouched n hn).2.2
  kubelet := (h.untouched n hn).1
  binary := (h.untouched n hn).2.1
  stopped hnone := by
    have hrunning := hw.running n
    rw [hnone] at hrunning
    cases hrunning
  seen := h.seen

theorem On.between (h : On w₀ done n false (some .new) b r) : Between w₀ (done ++ [n]) r where
  server := h.server
  upgraded m hm := by
    rcases List.mem_append.1 hm with hm | hm
    · exact h.upgraded m hm
    · rw [List.mem_singleton.1 hm]
      exact ⟨h.kubelet, h.cordoned⟩
  untouched m hm := by
    rw [List.mem_append, List.mem_singleton, not_or] at hm
    exact h.untouched m hm.1 hm.2
  seen := h.seen

theorem Between.safe (hw : w₀.Ready) (h : Between w₀ done r) : r.world.Safe where
  one a a' ha := by
    by_cases hmem : a ∈ done
    · rw [(h.upgraded a hmem).2] at ha
      cases ha
    · rw [(h.untouched a hmem).2.2] at ha
      cases ha
  drained a ha := by
    by_cases hmem : a ∈ done
    · rw [(h.upgraded a hmem).1] at ha
      cases ha
    · have hrunning := hw.running a
      rw [← (h.untouched a hmem).1, ha] at hrunning
      cases hrunning
  skew _ _ := h.server

/-- A step that changes nothing, between two nodes. -/
theorem Between.record (hw : w₀.Ready) (h : Between w₀ done r) :
    Between w₀ done (r.record cmd f r.world) :=
  ⟨h.server, h.upgraded, h.untouched, seen_record h.seen (h.safe hw)⟩

theorem Between.stopped {rest : List Node} (hnodes : nodes = done ++ rest)
    (h : Between w₀ done r) : Stopped w₀ r where
  halted := by
    refine ⟨done, rest, hnodes, h.upgraded, fun m hm => ?_⟩
    have hnd : (done ++ rest).Nodup := hnodes ▸ by decide
    have hdone : m ∉ done := fun hmem =>
      (List.nodup_append.1 hnd).2.2 m hmem m (List.mem_of_mem_tail hm) rfl
    obtain ⟨hkubelet, hbinary, -⟩ := h.untouched m hdone
    exact ⟨hkubelet, hbinary⟩
  seen := h.seen

theorem Between.steps_triple {rest : List Node} {texts : List String} (hw : w₀.Ready)
    (hnodes : nodes = done ++ rest) :
    Triple (Between w₀ done) (steps texts) (fun _ => Between w₀ done) (Stopped w₀) :=
  .steps (fun _ _ _ => effect_step) (fun _ _ _ hr => hr.record hw) fun _ _ _ _ _ hr =>
    (hr.record hw).stopped hnodes

/-! What each command does to the node it is run on. -/

theorem On.drain (h : On w₀ done n c k b r) (hrun : effect (.drain n) r.world = some w) :
    w = r.world.set n true k b := by
  obtain rfl := Option.some.inj hrun
  rw [← h.kubelet, ← h.binary]
  simp [Cluster.set]

theorem On.uncordon (h : On w₀ done n c k b r) (hrun : effect (.uncordon n) r.world = some w) :
    w = r.world.set n false k b := by
  obtain rfl := Option.some.inj hrun
  rw [← h.kubelet, ← h.binary]
  simp [Cluster.set]

theorem On.stopKubelet (h : On w₀ done n c k b r)
    (hrun : effect (.stopKubelet n) r.world = some w) : w = r.world.set n c none b := by
  obtain rfl := Option.some.inj hrun
  rw [← h.cordoned, ← h.binary]
  simp [Cluster.set]

theorem On.installKubelet (h : On w₀ done n c k b r)
    (hrun : effect (.installKubelet n) r.world = some w) : w = r.world.set n c k .new := by
  obtain rfl := Option.some.inj hrun
  rw [← h.cordoned, ← h.kubelet]
  simp [Cluster.set]

/-- A kubelet that was stopped comes back with the binary that is installed. -/
theorem On.startKubelet (h : On w₀ done n c none b r)
    (hrun : effect (.startKubelet n) r.world = some w) : w = r.world.set n c (some b) b := by
  obtain rfl := Option.some.inj hrun
  have hcordoned : update r.world.cordoned n c = r.world.cordoned := by
    rw [← h.cordoned, update_eq_self]
  have hbinary : update r.world.binary n b = r.world.binary := by
    rw [← h.binary, update_eq_self]
  rw [h.kubelet, h.binary, Option.none_or]
  simp [Cluster.set, hcordoned, hbinary]

theorem effect_waitKubelet {w' : Cluster} (hrun : effect (.waitKubelet n) w = some w') :
    w' = w := by
  simp only [effect] at hrun
  split at hrun
  · exact (Option.some.inj hrun).symm
  · cases hrun

/-- **One node.** Its kubelet is stopped, replaced and started while it is drained. -/
theorem upgradeNode_triple {rest : List Node} (hw : w₀.Ready)
    (hnodes : nodes = done ++ n :: rest) :
    Triple (Between w₀ done) (upgradeNode n) (fun _ => Between w₀ (done ++ [n])) (Stopped w₀) := by
  have hn := not_mem_of_nodes hnodes
  have hstep : ∀ {k : Option Version} {b : Version} {text : String},
      Triple (On w₀ done n true k b) (run (.step text)) (fun _ => On w₀ done n true k b)
        (Stopped w₀) :=
    On.idle_triple hw hnodes (fun _ _ => effect_step) fun _ => rfl
  have hprepare : Triple (On w₀ done n true (w₀.kubelet n) (w₀.binary n)) (prepareNode n)
      (fun _ => On w₀ done n true (w₀.kubelet n) (w₀.binary n)) (Stopped w₀) := by
    unfold prepareNode
    split
    · exact .pure fun _ hr => hr
    · exact Triple.forEach (I := fun _ => On w₀ done n true (w₀.kubelet n) (w₀.binary n))
        fun _ _ _ _ => hstep
  have hnode : Triple (On w₀ done n false (w₀.kubelet n) (w₀.binary n)) (upgradeNode n)
      (fun _ => On w₀ done n false (some .new) .new) (Stopped w₀) := by
    refine Triple.bind (On.exec_triple hw hnodes (fun _ _ => On.drain) fun _ => rfl) fun _ => ?_
    refine Triple.bind hprepare fun _ => ?_
    refine Triple.bind (On.exec_triple hw hnodes (fun _ _ => On.stopKubelet) fun _ => rfl)
      fun _ => ?_
    refine Triple.bind (On.exec_triple hw hnodes (fun _ _ => On.installKubelet) fun _ => rfl)
      fun _ => ?_
    refine Triple.bind hstep fun _ => ?_
    refine Triple.bind (On.exec_triple hw hnodes (fun _ _ => On.startKubelet) fun _ => rfl)
      fun _ => ?_
    refine Triple.bind (On.idle_triple hw hnodes (fun _ _ => effect_waitKubelet) fun _ => rfl)
      fun _ => ?_
    exact On.exec_triple hw hnodes (fun _ _ => On.uncordon) fun hnone => by cases hnone
  exact hnode.conseq (fun _ hr => hr.on hw hn) (fun _ _ hr => hr.between) fun _ hr => hr

/-! ## Before the kubelets are upgraded -/

/-- The kubelets are as they were, and at most `out` is out of service. -/
structure Before (w₀ : Cluster) (out : Option Node) (r : Run Cluster Cmd) : Prop where
  kubelet : r.world.kubelet = w₀.kubelet
  binary : r.world.binary = w₀.binary
  skew : ∀ n, w₀.kubelet n = some .new → r.world.apiserver = .new
  cordoned : ∀ n, r.world.cordoned n = true → out = some n
  seen : ∀ e ∈ r.log, e.after.Safe

variable {out out' : Option Node}

theorem Before.safe (hw : w₀.Ready) (h : Before w₀ out r) : r.world.Safe where
  one a a' ha ha' := Option.some.inj ((h.cordoned a ha).symm.trans (h.cordoned a' ha'))
  drained a ha := by
    have hrunning := hw.running a
    rw [← h.kubelet, ha] at hrunning
    cases hrunning
  skew a ha := h.skew a (by rwa [← h.kubelet])

theorem Before.stopped (h : Before w₀ out r) : Stopped w₀ r where
  halted := by
    refine ⟨[], nodes, rfl, by simp, fun m _ => ?_⟩
    rw [h.kubelet, h.binary]
    exact ⟨rfl, rfl⟩
  seen := h.seen

/-- A command that touches no kubelet. -/
theorem Before.record (hw : w₀.Ready) (h : Before w₀ out r) (hkubelet : w.kubelet = r.world.kubelet)
    (hbinary : w.binary = r.world.binary)
    (hserver : r.world.apiserver = .new → w.apiserver = .new)
    (hcordoned : ∀ n, w.cordoned n = true → out' = some n) :
    Before w₀ out' (r.record cmd f w) := by
  have hbefore : Before w₀ out' ⟨w, r.log, r.fates⟩ :=
    ⟨hkubelet.trans h.kubelet, hbinary.trans h.binary, fun n hn => hserver (h.skew n hn), hcordoned,
      h.seen⟩
  exact ⟨hbefore.kubelet, hbefore.binary, hbefore.skew, hcordoned,
    seen_record h.seen (hbefore.safe hw)⟩

theorem Before.same (hw : w₀.Ready) (h : Before w₀ out r) : Before w₀ out (r.record cmd f r.world) :=
  h.record hw rfl rfl id h.cordoned

theorem Before.steps_triple {texts : List String} (hw : w₀.Ready) :
    Triple (Before w₀ out) (steps texts) (fun _ => Before w₀ out) (Stopped w₀) :=
  .steps (fun _ _ _ => effect_step) (fun _ _ _ hr => hr.same hw) fun _ _ _ _ _ hr => (hr.same hw).stopped

theorem Before.step_triple {text : String} (hw : w₀.Ready) :
    Triple (Before w₀ out) (run (.step text)) (fun _ => Before w₀ out) (Stopped w₀) :=
  .idle (fun _ _ => effect_step) (fun _ hr _ => hr.same hw)
    fun _ _ _ hr => (hr.same hw).stopped

theorem drain_triple (hw : w₀.Ready) :
    Triple (Before w₀ (some node)) (run (.drain node)) (fun _ => Before w₀ (some node))
      (Before w₀ (some node)) := by
  have hdrained : ∀ r f, Before w₀ (some node) r → Before w₀ (some node) (r.record (.drain node) f
      { r.world with cordoned := update r.world.cordoned node true }) := by
    intro r f hr
    refine hr.record hw rfl rfl id fun m hm => ?_
    by_cases hne : m = node
    · rw [hne]
    · exact hr.cordoned m (by simpa [hne] using hm)
  refine Triple.exec (fun r w hr hrun => ?_) (fun r hr => hr.same hw) fun r w hr hrun => ?_
  · obtain rfl := Option.some.inj hrun
    exact hdrained r _ hr
  · obtain rfl := Option.some.inj hrun
    exact hdrained r _ hr

theorem uncordon_triple (hw : w₀.Ready) :
    Triple (Before w₀ (some node)) (run (.uncordon node)) (fun _ => Before w₀ none) (Stopped w₀) := by
  have hfree : ∀ r f, Before w₀ (some node) r → Before w₀ none (r.record (.uncordon node) f
      { r.world with cordoned := update r.world.cordoned node false }) := by
    intro r f hr
    refine hr.record hw rfl rfl id fun m hm => ?_
    by_cases hne : m = node
    · simp [hne] at hm
    · have hnode := hr.cordoned m (by simpa [hne] using hm)
      exact absurd (Option.some.inj hnode).symm hne
  refine Triple.exec (fun r w hr hrun => ?_) (fun r hr => (hr.same hw).stopped) fun r w hr hrun => ?_
  · obtain rfl := Option.some.inj hrun
    exact hfree r _ hr
  · obtain rfl := Option.some.inj hrun
    exact (hfree r _ hr).stopped

theorem Before.weaken (h : Before w₀ none r) : Before w₀ (some node) r :=
  ⟨h.kubelet, h.binary, h.skew, fun m hm => (by cases h.cordoned m hm), h.seen⟩

/-- The drill takes one node out of service, twice, and puts it back. -/
theorem drill_triple (hw : w₀.Ready) :
    Triple (Before w₀ none) (drill node) (fun _ => Before w₀ none) (Stopped w₀) := by
  have hstopped : ∀ (out : Option Node) r, Before w₀ out r → Stopped w₀ r := fun _ _ hr => hr.stopped
  refine Triple.bind (Before.steps_triple hw) fun _ => ?_
  refine Triple.bind (Q := fun _ => Before w₀ none)
    (Triple.check (fun _ _ hr => hr) (hstopped none)) fun _ => ?_
  -- the first `drain` is expected to fail, and may have cordoned the node
  refine Triple.bind (Q := fun _ => Before w₀ (some node)) ?_ fun blocked => ?_
  · exact ((drain_triple hw).conseq (fun _ hr => hr.weaken) (fun _ _ hr => hr) fun _ hr => hr).raised
      (fun _ hr => hr) fun _ hr => hr
  refine Triple.bind (Before.step_triple hw) fun _ => ?_
  refine Triple.bind (Q := fun _ => Before w₀ (some node))
    (Triple.check (fun _ _ hr => hr) (hstopped _)) fun _ => ?_
  refine Triple.bind (Before.steps_triple hw) fun _ => ?_
  refine Triple.bind (uncordon_triple hw) fun _ => ?_
  refine Triple.bind (Before.steps_triple hw) fun _ => ?_
  refine Triple.bind ((drain_triple hw).conseq (fun _ hr => hr.weaken) (fun _ _ hr => hr)
    (hstopped _)) fun _ => ?_
  exact Triple.bind (Before.steps_triple hw) fun _ => uncordon_triple hw

theorem server_triple (hw : w₀.Ready) :
    Triple (Before w₀ none) upgradeServer (fun _ => Between w₀ []) (Stopped w₀) := by
  have happly : ∀ r f, Before w₀ none r →
      Before w₀ none (r.record .upgradeApply f { r.world with apiserver := .new }) :=
    fun r f hr => hr.record hw rfl rfl (fun _ => rfl) hr.cordoned
  refine Triple.bind (Q := fun _ => Before w₀ none) (Triple.exec (fun r w hr hrun => ?_)
    (fun r hr => (hr.same hw).stopped) fun r w hr hrun => ?_) fun _ => ?_
  · obtain rfl := Option.some.inj hrun
    exact happly r _ hr
  · obtain rfl := Option.some.inj hrun
    exact (happly r _ hr).stopped
  refine Triple.bind (Before.step_triple hw) fun _ => ?_
  have hidle : ∀ w w', effect .waitServer w = some w' → w' = w ∧ w.apiserver = .new := by
    intro w w' hrun
    simp only [effect] at hrun
    split at hrun
    · exact ⟨(Option.some.inj hrun).symm, ‹_›⟩
    · cases hrun
  refine Triple.idle (fun w w' hrun => (hidle w w' hrun).1) (fun r hr hrun => ?_)
    fun r _ _ hr => (hr.same hw).stopped
  have hnew := (hidle _ _ hrun).2
  have hsame : Before w₀ none (r.record .waitServer .done r.world) := hr.same hw
  refine ⟨hnew, by simp, fun m _ => ⟨?_, ?_, ?_⟩, hsame.seen⟩
  · exact congrFun hsame.kubelet m
  · exact congrFun hsame.binary m
  · by_contra hne
    cases hr.cordoned m (Bool.not_eq_false _ ▸ hne)

theorem upgrade_triple (hw : w₀.Ready) :
    Triple (Before w₀ none) (upgrade node) (fun _ => Between w₀ nodes) (Stopped w₀) := by
  refine Triple.bind (Before.steps_triple hw) fun _ => ?_
  refine Triple.bind (Q := fun _ => Before w₀ none) (.read fun _ hr => hr) fun _ => ?_
  refine Triple.bind (Q := fun _ => Before w₀ none)
    (.check (fun _ _ hr => hr) fun _ hr => hr.stopped) fun _ => ?_
  refine Triple.bind (Before.steps_triple hw) fun _ => ?_
  refine Triple.bind (drill_triple hw) fun _ => ?_
  refine Triple.bind (Before.steps_triple hw) fun _ => ?_
  refine Triple.bind (server_triple hw) fun _ => ?_
  refine Triple.bind (Q := fun _ => Between w₀ []) ?_ fun _ => ?_
  · exact .idle (fun _ _ => effect_step) (fun _ hr _ => hr.record hw)
      fun _ _ _ hr => (hr.record hw).stopped rfl
  refine Triple.bind (Triple.forEach (I := Between w₀) fun pre n post hnodes =>
    upgradeNode_triple hw hnodes) fun _ => ?_
  exact Between.steps_triple hw (List.append_nil nodes).symm

theorem mem_nodes (n : Node) : n ∈ nodes := by
  cases n <;> decide

/-- **The upgrade is rolling.** Whichever commands of the script fail, and however: at every point
at most one node is out of service, a kubelet is stopped only on that node, and no kubelet is newer
than the API server. A run that ends normally has upgraded the API server and every kubelet, and
every node is in service; one that raises has upgraded the nodes up to some point of the list and
has not touched the kubelets after the node at that point. -/
theorem upgrade_exact (hw : w.Ready) (node : Node) (fates : List Fate) :
    ((upgrade node ⟨w, [], fates⟩).1.isSome →
      (upgrade node ⟨w, [], fates⟩).2.world.apiserver = .new ∧
      ∀ n, (upgrade node ⟨w, [], fates⟩).2.world.kubelet n = some .new ∧
        (upgrade node ⟨w, [], fates⟩).2.world.cordoned n = false) ∧
    ((upgrade node ⟨w, [], fates⟩).1 = none →
      w.Halted (upgrade node ⟨w, [], fates⟩).2.world) ∧
    ∀ e ∈ (upgrade node ⟨w, [], fates⟩).2.log, e.after.Safe := by
  have hstart : Before w none (⟨w, [], fates⟩ : Run Cluster Cmd) :=
    ⟨rfl, rfl, hw.skew, fun n hn => (by rw [hw.schedulable n] at hn; cases hn), fun _ he => by cases he⟩
  have hafter := @upgrade_triple w node hw _ hstart
  generalize upgrade node ⟨w, [], fates⟩ = o at hafter ⊢
  obtain ⟨a, r⟩ := o
  cases a with
  | none =>
    have hstopped : Stopped w r := hafter
    exact ⟨fun h => (by cases h), fun _ => hstopped.halted, hstopped.seen⟩
  | some u =>
    have hdone : Between w nodes r := hafter
    exact ⟨fun _ => ⟨hdone.server, fun n => hdone.upgraded n (mem_nodes n)⟩, fun h => (by cases h),
      hdone.seen⟩

/-- A cluster as `kind` makes it. -/
def fresh : Cluster := ⟨.old, fun _ => .old, fun _ => some .old, fun _ => false⟩

theorem fresh_ready : fresh.Ready :=
  ⟨fun _ => rfl, fun _ => rfl, fun _ h => by cases h⟩

/-- The disruption budget blocks the first `drain`, and nothing fails: every node is upgraded. -/
theorem upgrade_exact_fresh :
    (upgrade .worker ⟨fresh, [], List.replicate 7 .done ++ [.lost]⟩).2.world.apiserver = .new ∧
      ∀ n, (upgrade .worker ⟨fresh, [], List.replicate 7 .done ++ [.lost]⟩).2.world.kubelet n =
          some .new ∧
        (upgrade .worker ⟨fresh, [], List.replicate 7 .done ++ [.lost]⟩).2.world.cordoned n = false :=
  (upgrade_exact fresh_ready .worker _).1 (by decide +kernel)

end K8sDev.Upgrade

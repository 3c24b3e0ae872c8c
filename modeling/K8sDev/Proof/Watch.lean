import K8sDev.Spec.Devices
import Mathlib.Data.Fintype.Basic

/-!
# Health updates reach the streams

The plugin is an instance of a variable watched through a one-slot signal (`Notify`): the
variable is the device list, the signal the channel of updates (`view_step`).

* `no_lost_update`: with one stream at a time no update is lost.
* `informed_of_courteous`: with several streams this needs that no stream takes the token
  while another one is out of date; `missed_update` is a run in which one does.
-/

namespace K8sDev.DevicePlugin

open Notify (Watcher Ordered)

variable {ι : Type} {n : ℕ} {p p' : Plugin ι} {l : Label ι}

/-- The plugin as a watched variable. -/
def Plugin.view (p : Plugin ι) : Notify.State (List Device) ι where
  past := p.past
  value := p.manager.listDevices
  token := p.manager.updates
  watcher := p.stream

theorem view_history (p : Plugin ι) : p.view.history = p.history := rfl

/-- **What `UpdateHealth` does**: nothing, or a change of one device's health and a signal. -/
theorem updateHealth_cases (m : Manager) (id health : String) :
    (m.updateHealth id health).2 = m ∨
      ((m.updateHealth id health).2 = { m.setHealth id health with updates := true } ∧
        (m.setHealth id health).listDevices ≠ m.listDevices) := by
  unfold Manager.updateHealth
  split
  · exact .inl rfl
  · split
    · exact .inl rfl
    · rename_i d hd
      split
      · exact .inl rfl
      · rename_i hne
        refine .inr ⟨rfl, fun heq => ?_⟩
        -- the device that was found has a new health
        obtain ⟨hmem, hid⟩ : d ∈ m.devices ∧ d.id = id := by
          refine ⟨List.mem_of_find?_eq_some hd, ?_⟩
          simpa using List.find?_some hd
        have hmap : m.devices.map (fun d => if d.id = id then { d with health := health } else d) =
            m.devices.map fun d => d := by
          simpa [Manager.listDevices, Manager.setHealth] using heq
        have hd' := List.map_inj_left.1 hmap d hmem
        rw [if_pos hid] at hd'
        exact hne (congrArg Device.health hd').symm

theorem setHealth_ids (m : Manager) (id health : String) :
    (m.setHealth id health).listDevices.map Device.id = m.listDevices.map Device.id := by
  simp only [Manager.listDevices, Manager.setHealth, List.map_map]
  refine List.map_congr_left fun d _ => ?_
  simp only [Function.comp]
  split <;> rfl

variable [DecidableEq ι]

/-- **A step of the plugin** is a step of the watched variable, or changes nothing in it. A stream
is opened, and a token taken, by the step of that name; a write keeps the names of the devices. -/
theorem view_step (h : p.step l = some p') :
    p'.view = p.view ∨ ∃ a, Notify.step p.view a = some p'.view ∧
      (∀ i, a = .opens i → l = .opens i) ∧ (∀ i, a = .take i → l = .take i) ∧
      ∀ ds, a = .write ds → ds.map Device.id = p.manager.listDevices.map Device.id := by
  cases l with
  | updateHealth id health =>
    obtain rfl := Option.some.inj h
    rcases updateHealth_cases p.manager id health with heq | ⟨heq, hne⟩
    · -- the state was that one already: no write, and no token
      rw [heq]
      exact .inl (by simp [Plugin.view])
    · rw [heq]
      -- a change is a write, with a signal
      refine .inr ⟨.write (p.manager.setHealth id health).listDevices, ?_, by simp, by simp, ?_⟩
      · have hdev : ({ p.manager.setHealth id health with updates := true } : Manager).listDevices =
            (p.manager.setHealth id health).listDevices := rfl
        simp only [hdev, if_neg hne]
        rfl
      · rintro ds hds
        obtain rfl := Notify.Act.write.inj hds
        exact setHealth_ids p.manager id health
  | opens i =>
    simp only [Plugin.step] at h
    split at h
    · rename_i hpc
      obtain rfl := Option.some.inj h
      refine .inr ⟨.opens i, ?_, by simp, by simp, by simp⟩
      simp only [Notify.step, Plugin.view, hpc]
      rfl
    · cases h
  | devices i =>
    simp only [Plugin.step] at h
    split at h
    · -- the first list of a stream; below, the list after a token
      rename_i hpc
      obtain rfl := Option.some.inj h
      refine .inr ⟨.snapshot i, ?_, by simp, by simp, by simp⟩
      simp only [Notify.step, Plugin.view, hpc]
      rfl
    · rename_i hpc
      obtain rfl := Option.some.inj h
      refine .inr ⟨.snapshot i, ?_, by simp, by simp, by simp⟩
      simp only [Notify.step, Plugin.view, hpc]
      rfl
    · cases h
  | send i =>
    simp only [Plugin.step] at h
    split at h
    · rename_i ds hpc
      obtain rfl := Option.some.inj h
      refine .inr ⟨.send i, ?_, by simp, by simp, by simp⟩
      simp only [Notify.step, Plugin.view, hpc]
      rfl
    · cases h
  | sendError i =>
    simp only [Plugin.step] at h
    split at h
    · obtain rfl := Option.some.inj h
      exact .inr ⟨.close i, rfl, by simp, by simp, by simp⟩
    · cases h
  | take i =>
    simp only [Plugin.step] at h
    split at h
    · rename_i hpc
      split at h
      · rename_i htok
        obtain rfl := Option.some.inj h
        refine .inr ⟨.take i, ?_, by simp, by simp, by simp⟩
        simp only [Notify.step, Plugin.view, hpc, htok]
        rfl
      · cases h
    · cases h
  | done i =>
    simp only [Plugin.step] at h
    split at h
    · obtain rfl := Option.some.inj h
      exact .inr ⟨.close i, rfl, by simp, by simp, by simp⟩
    · cases h

/-- **Runs of the plugin are runs of the watched variable**, and conditions on opening and taking
carry over. -/
theorem view_reachable {G : Plugin ι → Label ι → Plugin ι → Prop}
    {H : Notify.State (List Device) ι → Notify.Act (List Device) ι → Notify.State (List Device) ι → Prop}
    (hGH : ∀ p l p' a, G p l p' → (∀ i, a = .opens i → l = .opens i) →
      (∀ i, a = .take i → l = .take i) → H p.view a p'.view)
    (h : ((pluginLts n).restrict G).Reachable p) :
    ((Notify.lts (newFakeResourceManager n).listDevices).restrict H).Reachable p.view := by
  obtain ⟨s, hs, rfl⟩ := h.simulate (R := fun p s => p.view = s)
    (N := (Notify.lts (newFakeResourceManager n).listDevices).restrict H)
    (by rintro _ rfl; exact ⟨_, rfl, rfl⟩) (by
      rintro p _ l p' - rfl ⟨hst, hg⟩
      rcases view_step hst with heq | ⟨a, ha, hopens, htake, -⟩
      · exact ⟨[], _, .nil _, heq⟩
      · exact ⟨_, _, .single ⟨ha, hGH p l p' a hg hopens htake⟩, rfl⟩)
  exact hs

/-- The devices keep their names and their order. -/
theorem history_ids (h : (pluginLts n).Reachable p) :
    ∀ ds ∈ p.history, ds.map Device.id = (List.range n).map deviceID := by
  refine Lts.Reachable.invariant (P := fun p : Plugin ι =>
    ∀ ds ∈ p.history, ds.map Device.id = (List.range n).map deviceID) ?_ ?_ h
  · rintro _ rfl ds hds
    obtain rfl : ds = (newFakeResourceManager n).listDevices := by
      simpa [Plugin.history, newDevicePlugin] using hds
    simp [Manager.listDevices, newFakeResourceManager, Function.comp_def]
  · intro p l p' _ ih hst ds hds
    rw [← view_history] at hds
    rcases view_step hst with heq | ⟨a, ha, -, -, hwrite⟩
    · rw [heq] at hds; exact ih ds hds
    · rcases Notify.step_cases ha with ⟨v, rfl, heq⟩ | ⟨i, w, heq, -⟩ | ⟨i, -, -, -, heq⟩
      · rw [heq] at hds
        rcases List.mem_append.1 hds with hds | hds
        · exact ih ds hds
        · obtain rfl := List.mem_singleton.1 hds
          rw [hwrite _ rfl]
          exact ih _ (List.mem_append_right _ (List.mem_singleton_self _))
      · rw [heq] at hds; exact ih ds hds
      · rw [heq] at hds; exact ih ds hds

/-! ## One stream at a time -/

/-- **No update is lost.** While streams do not overlap, a stream in its `select` has sent the
current devices or there is a token for it; and what it sent are lists the manager really had,
in that order, all with the devices in creation order. -/
theorem no_lost_update (h : ((pluginLts n).restrict Solo).Reachable p) :
    (∀ i, (p.stream i).pc = .waiting →
      (p.stream i).sent.getLast? = some p.manager.listDevices ∨ p.manager.updates = true) ∧
    (∀ i, Ordered p.history (p.stream i).sent) ∧
    ∀ ds ∈ p.history, ds.map Device.id = (List.range n).map deviceID := by
  have hsolo : ((Notify.lts (newFakeResourceManager n).listDevices).restrict Notify.Solo).Reachable
      p.view := by
    refine view_reachable (fun p l p' a hg hopens _ i ha => ?_) h
    exact hg i (hopens i ha)
  refine ⟨?_, ?_, history_ids h.of_restrict⟩
  · intro i hpc
    cases htok : p.manager.updates with
    | true => exact .inr rfl
    | false =>
      have hfresh := Notify.fresh_of_quiet (Notify.quiet_of_solo hsolo) htok i
      simp only [Watcher.Fresh, Plugin.view, hpc] at hfresh
      exact .inl hfresh
  · intro i
    exact Notify.sent_ordered hsolo.of_restrict i

/-- One stream; two updates while it holds the token for the first one. -/
def flapping : List (Label Bool) :=
  [.opens false, .devices false, .send false, .updateHealth "fpga-1" unhealthy, .take false,
    .updateHealth "fpga-0" unhealthy, .updateHealth "fpga-0" "Ailing", .devices false, .send false]

def flapped : Plugin Bool :=
  (flapping.foldlM (Lts.guard Plugin.step Solo) (newDevicePlugin 2)).get (by decide)

theorem no_lost_update_flapped :
    (flapped.stream false).sent.getLast? = some flapped.manager.listDevices ∨
      flapped.manager.updates = true :=
  (no_lost_update (n := 2) (p := flapped) (Lts.reachable_of_exec flapping (by decide))).1 false
    (by decide)

/-! ## Several streams -/

/-- **The final health reaches every stream** of a run in which tokens are only taken while the
other streams are up to date. -/
theorem informed_of_courteous (h : ((pluginLts n).restrict Courteous).Reachable p) : p.Informed := by
  have hcourteous : ((Notify.lts (newFakeResourceManager n).listDevices).restrict
      Notify.Courteous).Reachable p.view := by
    refine view_reachable (fun p l p' a hg _ htake i ha => ?_) h
    exact hg i (htake i ha)
  intro htok _ i hpc
  have hfresh := Notify.fresh_of_quiet hcourteous htok i
  simp only [Watcher.Fresh, Plugin.view, hpc] at hfresh
  exact hfresh

/-- Two open streams, one update: the first stream takes the only token. -/
def missed : List (Label Bool) :=
  [.opens false, .devices false, .send false, .opens true, .devices true, .send true,
    .updateHealth "fpga-0" unhealthy, .take false, .devices false, .send false]

/-- **The second stream never learns of the update.** -/
theorem missed_update : ¬∀ p : Plugin Bool, (pluginLts 1).Reachable p → p.Informed := by
  intro hall
  have hrun : ((pluginLts 1).restrict fun _ _ _ => True).Reachable
      ((missed.foldlM (Lts.guard Plugin.step fun _ _ _ => True) (newDevicePlugin 1)).get (by decide)) :=
    Lts.reachable_of_exec missed (by decide)
  have hinformed := hall _ hrun.of_restrict (by decide) (by decide) true (by decide)
  revert hinformed
  decide

/-- Two open streams, one update for each of them. -/
def relayed : List (Label Bool) :=
  [.opens false, .devices false, .send false, .updateHealth "fpga-0" unhealthy, .opens true,
    .take false, .devices false, .devices true, .send true, .send false]

def relayedPlugin : Plugin Bool :=
  (relayed.foldlM (Lts.guard Plugin.step Courteous) (newDevicePlugin 1)).get (by decide)

theorem informed_of_courteous_relayed : relayedPlugin.Informed :=
  informed_of_courteous (n := 1) (Lts.reachable_of_exec relayed (by decide))

end K8sDev.DevicePlugin

import K8sDev.Proof.Leases

/-!
# Who may acknowledge a task

`/ack` compares the worker it is given with the one the task records, and an empty
string also records that nobody holds the task.

* `ack_authority`: an `/ack` obeys the rule "accepted iff it comes from the last
  claimant, in time, and the task is not done" exactly when it is not an empty-worker
  `/ack` about a task that nobody holds; `ack_unclaimed` is such a call.
-/

namespace K8sDev.Queue

/-- The `/ack` is accepted: 200, the task becomes done, and the event is recorded. -/
def Accepts (now : ℕ) (r : Request) (s : Broker) : Prop :=
  ∃ t ∈ s.tasks, atoi (r.get "id") = some (t.id : ℤ) ∧ t.done = false ∧
    (handle now ⟨.ack, r⟩ s).1.code = 200 ∧
    (∃ u ∈ (handle now ⟨.ack, r⟩ s).2.tasks, u.id = t.id ∧ u.done = true) ∧
    (handle now ⟨.ack, r⟩ s).2.events =
      (reap now s).events ++ [⟨now, .ack, t.id, r.get "worker"⟩]

/-- The `/ack` is rejected as stale: 409, the tasks as `reap` left them, and one event. -/
def Rejects (now : ℕ) (r : Request) (s : Broker) : Prop :=
  ∃ t ∈ s.tasks, atoi (r.get "id") = some (t.id : ℤ) ∧
    (handle now ⟨.ack, r⟩ s).1.code = 409 ∧
    (handle now ⟨.ack, r⟩ s).2.tasks = (reap now s).tasks ∧
    (handle now ⟨.ack, r⟩ s).2.events =
      (reap now s).events ++ [⟨now, .rejectedAck, t.id, r.get "worker"⟩]

/-- The `/ack` is from the worker of the task's last claim, whose deadline is not before
`now`, and the task is not done. -/
def Entitled (now : ℕ) (r : Request) (h : Served) : Prop :=
  ∃ t ∈ h.broker.tasks, atoi (r.get "id") = some (t.id : ℤ) ∧ t.done = false ∧
    ∃ g, lastGrant h.log t.id = some g ∧ g.worker = r.get "worker" ∧ now ≤ g.deadline

/-! ## What the handler compares -/

/-- **The outcomes of a `POST /ack`**, by the task as it is before the reap. -/
theorem ack_cases {s : Broker} (hs : s.Numbered) (now : ℕ) {r : Request} (hm : r.method = "POST") :
    ((∀ t ∈ s.tasks, atoi (r.get "id") ≠ some (t.id : ℤ)) ∧
      handle now ⟨.ack, r⟩ s = (httpError "unknown id" 400, reap now s)) ∨
    (∃ t ∈ s.tasks, atoi (r.get "id") = some (t.id : ℤ) ∧
      ((t.done = true ∨ (t.release now).worker ≠ r.get "worker") ∧ Rejects now r s ∨
        t.done = false ∧ (t.release now).worker = r.get "worker" ∧ Accepts now r s)) := by
  have hack : handle now ⟨.ack, r⟩ s =
      ackLocked now (atoi (r.get "id")) (r.get "worker") (reap now s) := by
    simp [handle, ack, hm]
  rcases ackLocked_cases (hs.reap now) now (atoi (r.get "id")) (r.get "worker") with
    ⟨hno, heq⟩ | ⟨pre, u, post, hts, hid, hout⟩
  · refine .inl ⟨fun t ht => ?_, by rw [hack, heq]⟩
    simpa using hno _ (List.mem_map_of_mem (f := Task.release now) ht)
  · obtain ⟨t, ht, rfl⟩ := List.mem_map.1 (show u ∈ (reap now s).tasks by rw [hts]; simp)
    simp only [release_id, release_done] at hid hout
    refine .inr ⟨t, ht, hid, ?_⟩
    rcases hout with ⟨hrej, heq⟩ | ⟨hd, hw, heq⟩
    · refine .inl ⟨hrej, t, ht, hid, ?_⟩
      rw [hack, heq]
      exact ⟨rfl, rfl, rfl⟩
    · refine .inr ⟨hd, hw, t, ht, hid, hd, ?_⟩
      rw [hack, heq]
      exact ⟨rfl, ⟨{ t.release now with done := true }, by simp, release_id now t, rfl⟩, by rw [hw]⟩

/-- An `/ack` is not both accepted and rejected. -/
theorem Accepts.not_rejects {now : ℕ} {r : Request} {s : Broker} (h : Accepts now r s) :
    ¬Rejects now r s := by
  obtain ⟨t, -, -, -, h200, -⟩ := h
  rintro ⟨u, -, -, h409, -⟩
  rw [h200] at h409
  cases h409

/-- A request asks for one task at most. -/
theorem asked_eq {s : Broker} (hs : s.Numbered) {r : Request} {t u : Task} (ht : t ∈ s.tasks)
    (hu : u ∈ s.tasks) (hid : atoi (r.get "id") = some (t.id : ℤ))
    (huid : atoi (r.get "id") = some (u.id : ℤ)) : u = t := by
  have hsame : u.id = t.id := by
    rw [hid] at huid
    simpa using huid.symm
  exact hs.inj hu ht hsame

/-- When a known task is asked for, the `/ack` is accepted exactly when the task is not done
and its worker after the reap is the one of the `/ack`. -/
theorem accepts_iff {s : Broker} (hs : s.Numbered) {now : ℕ} {r : Request} (hm : r.method = "POST")
    {t : Task} (ht : t ∈ s.tasks) (hid : atoi (r.get "id") = some (t.id : ℤ)) :
    Accepts now r s ↔ t.done = false ∧ (t.release now).worker = r.get "worker" := by
  rcases ack_cases hs now hm with ⟨hno, -⟩ | ⟨u, hu, huid, hout⟩
  · exact absurd hid (hno t ht)
  · obtain rfl := asked_eq hs ht hu hid huid
    rcases hout with ⟨hne, hrej⟩ | ⟨hd, hw, hacc⟩
    · refine ⟨fun hacc => absurd hrej hacc.not_rejects, fun h => ?_⟩
      rcases hne with hne | hne
      · rw [h.1] at hne; cases hne
      · exact absurd h.2 hne
    · exact ⟨fun _ => ⟨hd, hw⟩, fun _ => hacc⟩

/-- A stale or duplicate `/ack` of a known task is rejected. -/
theorem rejects_iff {s : Broker} (hs : s.Numbered) {now : ℕ} {r : Request} (hm : r.method = "POST")
    {t : Task} (ht : t ∈ s.tasks) (hid : atoi (r.get "id") = some (t.id : ℤ)) :
    Rejects now r s ↔ ¬Accepts now r s := by
  refine ⟨fun h hacc => hacc.not_rejects h, fun hna => ?_⟩
  rcases ack_cases hs now hm with ⟨hno, -⟩ | ⟨u, -, -, ⟨-, hrej⟩ | ⟨-, -, hacc⟩⟩
  · exact absurd hid (hno t ht)
  · exact hrej
  · exact absurd hacc hna

/-- Nobody holds the task that is asked for: no worker is recorded, or its lease is over. -/
theorem unheld_iff {s : Broker} (hs : s.Numbered) {now : ℕ} {r : Request} {t : Task}
    (ht : t ∈ s.tasks) (hid : atoi (r.get "id") = some (t.id : ℤ)) :
    Unheld now r s ↔ t.done = false ∧ (t.release now).worker = "" := by
  have hrel : t.done = false → ((t.release now).worker = "" ↔ t.worker = "" ∨ t.deadline < now) := by
    intro hd
    refine ⟨unheld_of_release, fun hor => ?_⟩
    by_cases hwk : t.worker = ""
    · rw [release_worker, hwk, ite_self]
    · have hexp := expired_iff.2 ⟨hd, hwk, hor.resolve_left hwk⟩
      rw [release_worker, if_pos hexp]
  constructor
  · rintro ⟨u, hu, huid, hd, hor⟩
    obtain rfl := asked_eq hs ht hu hid huid
    exact ⟨hd, (hrel hd).2 hor⟩
  · rintro ⟨hd, hw⟩
    exact ⟨t, ht, hid, hd, (hrel hd).1 hw⟩

/-- The rule of `/ack`, for the task that is asked for. -/
theorem entitled_iff {h : Served} (hs : h.broker.Numbered) {now : ℕ} {r : Request} {t : Task}
    (ht : t ∈ h.broker.tasks) (hid : atoi (r.get "id") = some (t.id : ℤ)) :
    Entitled now r h ↔ t.done = false ∧
      ∃ g, lastGrant h.log t.id = some g ∧ g.worker = r.get "worker" ∧ now ≤ g.deadline := by
  constructor
  · rintro ⟨u, hu, huid, hrest⟩
    obtain rfl := asked_eq hs ht hu hid huid
    exact hrest
  · exact fun hrest => ⟨t, ht, hid, hrest⟩

/-! ## The lease behind a worker name -/

theorem lastGrant_eq (h : Served) (id : ℕ) :
    lastGrant h.log id = (h.ghost.leases id).getLast? := rfl

/-- A task that a worker holds at `now`, once the expired leases are released, is under the
last lease granted of it. -/
theorem lastGrant_of_held {h : Served} (hg : h.ghost.OK) {t : Task} {now : ℕ}
    (ht : t ∈ h.broker.tasks) (hd : t.done = false) (hw : (t.release now).worker ≠ "") :
    ∃ g, lastGrant h.log t.id = some g ∧ g.worker = (t.release now).worker ∧ now ≤ g.deadline := by
  rw [release_worker] at hw ⊢
  split at hw
  · exact absurd rfl hw
  rename_i hexp
  rw [if_neg hexp]
  have hch := hg.chain t ht
  have hatt : t.attempts ≠ 0 := fun h0 => hw ((hg.task t ht).fresh h0).1
  have hne : h.ghost.leases t.id ≠ [] := fun h0 => hatt (hch.nil_iff.1 h0)
  obtain ⟨g, hlast⟩ := Option.isSome_iff_exists.1 (List.getLast?_isSome.2 hne)
  obtain ⟨hdl, hwk⟩ := hch.last g hlast
  refine ⟨g, hlast, (hwk.resolve_right hw).symm, ?_⟩
  by_contra hlt
  exact hexp (expired_iff.2 ⟨hd, hw, by omega⟩)

/-- The last lease granted of a task, while it runs, is what holds the task. -/
theorem release_worker_of_lastGrant {h : Served} (hg : h.ghost.OK) {t g : Task} {now : ℕ}
    (hnow : h.clock ≤ now) (ht : t ∈ h.broker.tasks) (hd : t.done = false)
    (hlast : lastGrant h.log t.id = some g) (hdl : now ≤ g.deadline) :
    (t.release now).worker = g.worker := by
  have hch := hg.chain t ht
  obtain ⟨hdl', hwk⟩ := hch.last g hlast
  have hpos : 0 < t.attempts := by
    rcases Nat.eq_zero_or_pos t.attempts with h0 | hpos
    · rw [lastGrant_eq, hch.nil_iff.2 h0] at hlast; cases hlast
    · exact hpos
  have hclk : h.ghost.clock = h.clock := rfl
  have hheld : t.worker ≠ "" := fun h0 => by
    have := (hg.task t ht).lapsed h0 hd hpos
    omega
  rw [release_worker, if_neg, hwk.resolve_right hheld]
  intro hexp
  have := (expired_iff.1 hexp).2.2
  omega

/-- **The holder of a task** that is not done, once the expired leases are released: the worker
of the last lease granted of it, while that lease runs. -/
theorem holder_iff {h : Served} (hg : h.ghost.OK) {t : Task} {now : ℕ} (hnow : h.clock ≤ now)
    (ht : t ∈ h.broker.tasks) (hd : t.done = false) {x : String} (hx : x ≠ "") :
    (t.release now).worker = x ↔
      ∃ g, lastGrant h.log t.id = some g ∧ g.worker = x ∧ now ≤ g.deadline := by
  constructor
  · intro hrel
    obtain ⟨g, hlast, hgw, hdl⟩ := lastGrant_of_held hg ht hd (hrel ▸ hx)
    exact ⟨g, hlast, hgw.trans hrel, hdl⟩
  · rintro ⟨g, hlast, hgw, hdl⟩
    rw [release_worker_of_lastGrant hg hnow ht hd hlast hdl, hgw]

/-- Every lease handed out went to somebody. -/
theorem worker_of_lastGrant {h : Served} (hg : h.ghost.OK) {t g : Task}
    (ht : t ∈ h.broker.tasks) (hlast : lastGrant h.log t.id = some g) : g.worker ≠ "" :=
  ((hg.chain t ht).same g (List.mem_of_getLast? hlast)).2.2.1

/-! ## The rule of `/ack` -/

/-- One `/ack`: it obeys the rule iff it does not claim an empty name for a task nobody holds. -/
theorem rule_iff {h : Served} (hg : h.ghost.OK) {now : ℕ} {r : Request} (hnow : h.clock ≤ now)
    (hm : r.method = "POST") :
    (Accepts now r h.broker ↔ Entitled now r h) ↔
      ¬(r.get "worker" = "" ∧ Unheld now r h.broker) := by
  have hs : h.broker.Numbered := hg.numbered
  rcases ack_cases hs now hm with ⟨hno, -⟩ | ⟨t, ht, hid, -⟩
  · -- an unknown number: neither accepted nor entitled
    have h1 : ¬Accepts now r h.broker := fun ⟨t, ht, hid, _⟩ => hno t ht hid
    have h2 : ¬Entitled now r h := fun ⟨t, ht, hid, _⟩ => hno t ht hid
    have h3 : ¬Unheld now r h.broker := fun ⟨t, ht, hid, _⟩ => hno t ht hid
    simp [h1, h2, h3]
  rw [accepts_iff hs hm ht hid, entitled_iff hs ht hid, unheld_iff hs ht hid]
  cases hd : t.done with
  | true => simp
  | false =>
    by_cases hw : r.get "worker" = ""
    · -- nobody is entitled under an empty name, and a task without holder accepts it
      have hno : ¬∃ g, lastGrant h.log t.id = some g ∧ g.worker = "" ∧ now ≤ g.deadline := by
        rintro ⟨g, hlast, hgw, -⟩
        exact worker_of_lastGrant hg ht hlast hgw
      simp only [hw, true_and]
      rw [iff_false_intro hno, iff_false]
    · rw [holder_iff hg hnow ht hd hw]
      simp [hw]

/-- In a run without an empty-worker `/ack` about a task nobody holds, a done task was claimed. -/
theorem claimed_of_done {h : Served} (hr : safeLts.Reachable h) {t : Task}
    (ht : t ∈ h.broker.tasks) (hd : t.done = true) : ∃ g ∈ grants h.log, g.id = t.id := by
  have hn := safe_queue hr
  have hg : h.ghost.OK := .of_reachable hn.of_restrict
  have hatt : t.attempts ≠ 0 := fun h0 =>
    worker_of_done hn t ht hd ((hg.task t ht).fresh h0).1
  have hne : h.ghost.leases t.id ≠ [] := fun h0 => hatt ((hg.chain t ht).nil_iff.1 h0)
  obtain ⟨g, hmem⟩ := List.exists_mem_of_ne_nil _ hne
  obtain ⟨hgrant, hid⟩ := List.mem_filter.1 hmem
  exact ⟨g, hgrant, by simpa using hid⟩

/-- **The rule of `/ack` and its exact condition.** In every reachable state, a `POST /ack` is
accepted iff the rule entitles it, exactly when it is not an empty-worker `/ack` about a task
that nobody holds. In a run without such calls every done task was claimed. -/
theorem ack_authority {h : Served} (hr : brokerLts.Reachable h) :
    (∀ (now : ℕ) (r : Request), h.clock ≤ now → r.method = "POST" →
      ((Accepts now r h.broker ↔ Entitled now r h) ↔
        ¬(r.get "worker" = "" ∧ Unheld now r h.broker))) ∧
    (safeLts.Reachable h → ∀ t ∈ h.broker.tasks, t.done = true → ∃ g ∈ grants h.log, g.id = t.id) := by
  have hg : h.ghost.OK := .of_reachable (served_queue hr)
  constructor
  · intro now r hnow hm
    exact rule_iff hg hnow hm
  · intro hsafe t ht hd
    exact claimed_of_done hsafe ht hd

/-- One task of 1 ms, never claimed. -/
def unclaimed : Served := serveAll [(0, enqueueCall 1 1)] {}

theorem unclaimed_reachable : brokerLts.Reachable unclaimed :=
  reachable_calls (by decide)

/-- **An empty worker completes a task nobody claimed.** The rule of `/ack` fails in the first
state in which there is a task. -/
theorem ack_unclaimed : ¬∀ (h : Served) (now : ℕ) (r : Request), brokerLts.Reachable h →
    h.clock ≤ now → r.method = "POST" → (Accepts now r h.broker ↔ Entitled now r h) := by
  intro hall
  have hrule := hall unclaimed 1 (ackCall 1 "").req unclaimed_reachable (by decide) rfl
  have hacc : Accepts 1 (ackCall 1 "").req unclaimed.broker :=
    ⟨{ id := 1, durationMS := 1 }, by decide, by decide, rfl, by decide,
      ⟨{ id := 1, durationMS := 1, done := true }, by decide, rfl, rfl⟩, by decide⟩
  obtain ⟨t, ht, -, -, g, hg, -⟩ := hrule.1 hacc
  have hnone : ∀ t ∈ unclaimed.broker.tasks, lastGrant unclaimed.log t.id = none := by decide
  rw [hnone t ht] at hg
  cases hg

/-- A claimed task, acknowledged by the worker that claimed it. -/
def claimed : Served := serveAll [(0, enqueueCall 1 1), (5, claimCall "a")] {}

theorem ack_authority_claimed :
    (Accepts 9 (ackCall 1 "a").req claimed.broker ↔ Entitled 9 (ackCall 1 "a").req claimed) ↔
      ¬((ackCall 1 "a").req.get "worker" = "" ∧ Unheld 9 (ackCall 1 "a").req claimed.broker) :=
  (ack_authority (h := claimed) (reachable_calls (by decide))).1 9 (ackCall 1 "a").req (by decide) rfl

end K8sDev.Queue

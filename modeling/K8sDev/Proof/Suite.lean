import K8sDev.Spec.Cases

/-!
# What the exit status of a suite says

A case catches every exception of its function, so the suite always runs to its end unless
something outside the cases fails. `main_exit`: the exit status of any of the three files is 0
exactly when nothing went badly in the cases or around them (`Bad`), and then there is one row for
each selected case. That rests on what the functions of the 38 cases have in common (`OK`): they
swallow no failure, and leave the results to `case`. `stranded_iff`: the two cases that stop the
scheduler leave it stopped when the wait before their `try` fails.
-/

namespace K8sDev.Suite

open Script

/-- A command went badly: one that admission has to refuse succeeded, or another failed whose
failure is looked at. -/
def Bad : Cmd → Fate → Prop
  | .unchecked _, _ => False
  | .rejected _, f => f = .done
  | .scale _, f | .write, f | .step _, f => f ≠ .done

/-- `RESULTS` and the file. -/
def Lab.books (w : Lab) : List Row × Option (List Row) := (w.results, w.file)

/-- What the suite relies on: a function of `tests` raises exactly when one of its commands goes
badly, and does not write the results. -/
structure OK (x : LabScript Unit) : Prop where
  strict : Strict Bad x
  keeps : Keeps Lab.books x

/-! ## The pieces of a case -/

section pieces

variable {c : Cmd} {texts : List String} {text name : String} {x y : LabScript Unit}

theorem run_keeps (hc : c ≠ .write) : Keeps Lab.books (run c) := by
  refine Keeps.exec fun w w' hw => ?_
  cases c with
  | scale n =>
    obtain rfl := Option.some.inj hw
    rfl
  | write => exact absurd rfl hc
  | unchecked text =>
    obtain rfl := Option.some.inj hw
    rfl
  | rejected text =>
    obtain rfl := Option.some.inj hw
    rfl
  | step text =>
    obtain rfl := Option.some.inj hw
    rfl

theorem OK.bind (hx : OK x) (hy : OK y) : OK (x >>= fun _ => y) where
  strict := .bind hx.strict fun _ => hy.strict
  keeps := .bind hx.keeps fun _ => hy.keeps

theorem OK.tryFinally (hx : OK x) (hy : OK y) : OK (Script.tryFinally x y) where
  strict := .tryFinally hx.strict hy.strict
  keeps := .tryFinally hx.keeps hy.keeps

theorem step_ok : OK (run (.step text)) where
  strict := .exec fun _ => Iff.rfl
  keeps := run_keeps (by simp)

theorem scale_ok (n : ℕ) : OK (run (.scale n)) where
  strict := .exec fun _ => Iff.rfl
  keeps := run_keeps (by simp)

theorem steps_ok : OK (steps texts) where
  strict := .forEach (fun _ => step_ok.strict) _
  keeps := .forEach (fun _ => step_ok.keeps) _

theorem kUnchecked_ok : OK (kUnchecked text) where
  strict := .bind (.tolerate fun _ h => h) fun _ => step_ok.strict
  keeps := .bind (.tolerate (run_keeps (by simp))) fun _ => step_ok.keeps

theorem expectRejected_ok : OK (expectRejected text) where
  strict := .expect (fun _ => Iff.rfl) steps_ok.strict step_ok.strict
  keeps := .bind (Keeps.raised (run_keeps (by simp))) fun p => .bind steps_ok.keeps fun _ =>
    .bind (.check p) fun _ => step_ok.keeps

theorem clean_ok : OK clean := kUnchecked_ok.bind (step_ok.bind kUnchecked_ok)

theorem snapshot_ok : OK snapshot := steps_ok.bind kUnchecked_ok

theorem configIf_ok (mode : Bool) : OK (configIf mode) := by
  cases mode with
  | false => exact ⟨.pure (), .pure ()⟩
  | true => exact steps_ok

theorem OK.attempt (hx : OK x) (mode : Bool) : OK (attempt x mode) :=
  clean_ok.bind ((configIf_ok mode).bind (step_ok.bind hx))

theorem pending_ok {count : ℕ} : OK (pending name count) := step_ok.bind steps_ok

theorem deleteJob_ok : OK (deleteJob name) := steps_ok

theorem blockedJob_ok : OK (blockedJob name) := step_ok.bind steps_ok

theorem queueCommand_ok {action : String} : OK (queueCommand name action) := steps_ok

end pieces

/-! ## The cases -/

theorem gang_ok : OK gang :=
  steps_ok.bind (pending_ok.bind (snapshot_ok.bind (deleteJob_ok.bind step_ok)))

theorem quota_ok : OK quota :=
  steps_ok.bind (blockedJob_ok.bind (snapshot_ok.bind (deleteJob_ok.bind step_ok)))

theorem closed_ok : OK closed :=
  step_ok.bind (queueCommand_ok.bind (step_ok.bind (expectRejected_ok.bind
    (queueCommand_ok.bind steps_ok))))

theorem gpuReject_ok (which : String) : OK (gpuReject which) := step_ok.bind pending_ok

theorem gpuFull_ok : OK gpuFull := steps_ok.bind (pending_ok.bind (deleteJob_ok.bind step_ok))

theorem basicTests_ok : ∀ test ∈ basicTests, OK test.fn := by
  simp only [basicTests, List.forall_mem_cons]
  exact ⟨steps_ok, gang_ok, steps_ok, quota_ok, closed_ok, steps_ok, steps_ok, steps_ok, steps_ok,
    steps_ok, steps_ok, steps_ok, steps_ok, steps_ok, steps_ok, gpuReject_ok _, gpuReject_ok _,
    gpuReject_ok _, gpuFull_ok, List.forall_mem_nil _⟩

theorem hypernode_ok : OK hypernode :=
  steps_ok.bind (steps_ok.bind (pending_ok.bind (snapshot_ok.bind (deleteJob_ok.bind steps_ok))))

theorem native_ok : OK native :=
  steps_ok.bind (step_ok.bind (.tryFinally (steps_ok.bind snapshot_ok) step_ok))

theorem unscheduled_ok {wait : String} {jobs : List String} : OK (unscheduled wait jobs) :=
  (scale_ok 0).bind (step_ok.bind (.tryFinally steps_ok (scale_ok 1)))

theorem drf_ok : OK drf := steps_ok.bind (unscheduled_ok.bind steps_ok)

theorem advancedTests_ok : ∀ test ∈ advancedTests, OK test.fn := by
  have hconfig : ∀ texts, OK (config >>= fun _ => steps texts) := fun _ => steps_ok.bind steps_ok
  simp only [advancedTests, List.forall_mem_cons]
  exact ⟨hconfig _, hypernode_ok, hconfig _, native_ok, steps_ok, steps_ok,
    step_ok.bind (.tryFinally steps_ok step_ok), steps_ok.bind (.tryFinally steps_ok step_ok), drf_ok,
    steps_ok, hconfig _, List.forall_mem_nil _⟩

theorem weighted_ok : OK weighted :=
  steps_ok.bind (steps_ok.bind (unscheduled_ok.bind steps_ok))

theorem namespaceQuota_ok : OK namespaceQuota :=
  steps_ok.bind (step_ok.bind (.bind (.tryFinally
    (step_ok.bind (blockedJob_ok.bind (step_ok.bind snapshot_ok))) step_ok) step_ok))

theorem hierarchy_ok : OK hierarchy :=
  steps_ok.bind (steps_ok.bind (blockedJob_ok.bind (deleteJob_ok.bind step_ok)))

theorem backfill_ok : OK backfill := steps_ok.bind (step_ok.bind (pending_ok.bind steps_ok))

theorem taints_ok : OK taints :=
  step_ok.bind (.tryFinally (step_ok.bind (pending_ok.bind (snapshot_ok.bind
    (deleteJob_ok.bind steps_ok)))) step_ok)

theorem boundaryTests_ok : ∀ test ∈ boundaryTests, OK test.fn := by
  simp only [boundaryTests, List.forall_mem_cons]
  exact ⟨weighted_ok, namespaceQuota_ok, hierarchy_ok, steps_ok.bind steps_ok, backfill_ok,
    expectRejected_ok, taints_ok, steps_ok, List.forall_mem_nil _⟩

/-! ## The books of a suite -/

/-- Whether something in the log went badly, and what `RESULTS` and the file hold. -/
structure Note (p : Prop) (results : List Row) (file : Option (List Row)) (r : Run Lab Cmd) :
    Prop where
  failed : Failed Bad r.log ↔ p
  results : r.world.results = results
  file : r.world.file = file

/-- An exception outside the cases: it is in the log, and `names` has a row for each case so far. -/
structure Crashed (names : List String) (r : Run Lab Cmd) : Prop where
  failed : Failed Bad r.log
  rows : r.world.results.map Row.case <+: names

section triples

variable {p : Prop} {R : List Row} {F : Option (List Row)} {names : List String}

theorem note_triple {x : LabScript Unit} (hx : OK x) (hrows : R.map Row.case <+: names) :
    Triple (Note p R F) x (fun _ => Note p R F) (Crashed names) := by
  intro r hr
  obtain ⟨es, hlog, hnone⟩ := hx.strict r
  have hbooks := hx.keeps r
  generalize x r = o at hlog hnone hbooks ⊢
  obtain ⟨a, r'⟩ := o
  have hlog' : r'.log = r.log ++ es := hlog
  have hresults : r'.world.results = R := (congrArg Prod.fst hbooks).trans hr.results
  have hfile : r'.world.file = F := (congrArg Prod.snd hbooks).trans hr.file
  cases a with
  | none =>
    refine ⟨?_, by rwa [hresults]⟩
    rw [hlog', failed_append]
    exact .inr (hnone.1 rfl)
  | some a =>
    have hquiet : ¬Failed Bad es := fun h => by cases hnone.2 h
    refine ⟨?_, hresults, hfile⟩
    rw [hlog', failed_append, or_iff_left hquiet]
    exact hr.failed

theorem raised_triple {x : LabScript Unit} (hx : OK x) :
    Triple (Note p R F) (raised x) (fun b => Note (p ∨ b = true) R F) (Crashed names) := by
  intro r hr
  obtain ⟨es, b, hlog, hret, hb⟩ := hx.strict.raised_log r
  have hbooks := hx.keeps.raised r
  generalize raised x r = o at hlog hret hbooks ⊢
  obtain ⟨a, r'⟩ := o
  have hlog' : r'.log = r.log ++ es := hlog
  obtain rfl : a = some b := hret
  refine ⟨?_, (congrArg Prod.fst hbooks).trans hr.results, (congrArg Prod.snd hbooks).trans hr.file⟩
  rw [hlog', failed_append, hr.failed, hb]

/-- **One case** adds its row: it fails exactly when one of its commands did. -/
theorem case_triple {test : Test} (h : OK test.fn)
    (hp : p ↔ ∃ row ∈ R, row.status = .fail)
    (hrows : R.map Row.case ++ [test.name] <+: names) :
    Triple (Note p R F) (case test.name test.fn test.mode)
      (fun _ r => ∃ status, Note (∃ row ∈ R ++ [⟨test.name, status⟩], row.status = .fail)
        (R ++ [⟨test.name, status⟩]) (some (R ++ [⟨test.name, status⟩])) r) (Crashed names) := by
  refine Triple.bind (raised_triple (h.attempt test.mode)) fun error => ?_
  refine Triple.bind (raised_triple snapshot_ok) fun error' => ?_
  obtain ⟨status, hstatus⟩ : ∃ status, status = if error || error' then Status.fail else .pass :=
    ⟨_, rfl⟩
  have hfail : (p ∨ error = true) ∨ error' = true ↔
      ∃ row ∈ R ++ [⟨test.name, status⟩], row.status = .fail := by
    have hlast : status = .fail ↔ error = true ∨ error' = true := by
      rw [hstatus]
      cases error <;> cases error' <;> decide
    simp only [List.mem_append, List.mem_singleton, or_and_right, exists_or, exists_eq_left, hlast,
      ← hp]
    tauto
  rw [← hstatus]
  refine Triple.bind (Q := fun _ => Note (∃ row ∈ R ++ [⟨test.name, status⟩], row.status = .fail)
    (R ++ [⟨test.name, status⟩]) F) (.assign fun r hr => ?_) fun _ => ?_
  · exact ⟨hr.failed.trans hfail, congrArg (· ++ [_]) hr.results, hr.file⟩
  · -- `results.json`: an exception here ends the suite
    have hcrash : ∀ r f w, Note (∃ row ∈ R ++ [⟨test.name, status⟩], row.status = .fail)
        (R ++ [⟨test.name, status⟩]) F r → w.results = r.world.results → f ≠ .done →
        Crashed names (r.record .write f w) := by
      intro r f w hr hw hf
      refine ⟨?_, ?_⟩
      · show Failed Bad (r.log ++ [_])
        rw [failed_append, failed_singleton]
        exact .inr hf
      · show w.results.map Row.case <+: names
        rw [hw, hr.results, List.map_append]
        exact hrows
    refine Triple.exec (fun r w hr hw => ?_) (fun r hr => hcrash r _ _ hr rfl (by decide))
      fun r w hr hw => ?_
    · obtain rfl := Option.some.inj hw
      refine ⟨status, ?_, hr.results, congrArg some hr.results⟩
      show Failed Bad (r.log ++ [_]) ↔ _
      rw [failed_append, failed_singleton, hr.failed]
      exact or_iff_left fun hbad => hbad rfl
    · obtain rfl := Option.some.inj hw
      exact hcrash r _ _ hr rfl (by decide)

end triples

/-! ## The suite -/

variable {only : String} {tests : List Test}

/-- What is in `results.json` after some cases: what was there before, as long as there was none. -/
def savedAfter (saved : Option (List Row)) (R : List Row) : Option (List Row) :=
  if R = [] then saved else some R

/-- A suite after the cases of these names: what went badly is in their rows. -/
def Booked (saved : Option (List Row)) (names : List String) (r : Run Lab Cmd) : Prop :=
  ∃ R, Note (∃ row ∈ R, row.status = .fail) R (savedAfter saved R) r ∧ R.map Row.case = names

theorem Booked.start {saved : Option (List Row)} {r : Run Lab Cmd} (h : Note False [] saved r) :
    Booked saved [] r :=
  ⟨[], ⟨h.failed.trans (by simp), h.results, h.file⟩, rfl⟩

theorem Booked.case_triple {test : Test} {saved : Option (List Row)} {pre names : List String}
    (h : OK test.fn) (hpre : pre ++ [test.name] <+: names) :
    Triple (Booked saved pre) (case test.name test.fn test.mode)
      (fun _ => Booked saved (pre ++ [test.name])) (Crashed names) := by
  refine .exists fun R r hr => ?_
  have hrows : R.map Row.case ++ [test.name] <+: names := by rwa [hr.2]
  refine (Suite.case_triple h Iff.rfl hrows r hr.1).conseq ?_ fun r hr => hr
  rintro - r' ⟨status, hnote⟩
  have hsaved : savedAfter saved (R ++ [⟨test.name, status⟩]) =
      some (R ++ [⟨test.name, status⟩]) := if_neg (by simp)
  refine ⟨R ++ [⟨test.name, status⟩], hsaved ▸ hnote, ?_⟩
  rw [List.map_append, hr.2]
  rfl

theorem runSelected_triple (htests : ∀ test ∈ tests, OK test.fn) (saved : Option (List Row)) :
    Triple (Note False [] saved) (runSelected only tests)
      (fun b r => ∃ R, Note (b = true) R (savedAfter saved R) r ∧
        R.map Row.case = selected only tests) (Crashed (selected only tests)) := by
  have hcases : Triple (Booked saved [])
      (Script.forEach (tests.filter fun test => selects only test.name) fun test =>
        case test.name test.fn test.mode)
      (fun _ => Booked saved (selected only tests)) (Crashed (selected only tests)) := by
    refine Triple.forEach (I := fun pre => Booked saved (pre.map Test.name)) ?_
    intro pre test post hsplit
    have hmem : test ∈ tests.filter fun test => selects only test.name := by
      rw [hsplit]
      simp
    have hok : OK test.fn := htests test (List.mem_filter.1 hmem).1
    have hpre : pre.map Test.name ++ [test.name] <+: selected only tests := by
      refine ⟨post.map Test.name, ?_⟩
      rw [selected, hsplit]
      simp
    rw [List.map_append]
    exact Booked.case_triple hok hpre
  refine Triple.bind (hcases.conseq (fun _ => Booked.start) (fun _ _ h => h) fun _ h => h) fun _ => ?_
  refine .exists fun R r hr => ?_
  have hprefix : R.map Row.case <+: selected only tests := hr.2 ▸ List.prefix_rfl
  refine Triple.bind (note_triple clean_ok hprefix) (fun _ => ?_) r hr.1
  refine Triple.bind (Q := fun w r => w.results = R ∧
      Note (∃ row ∈ R, row.status = .fail) R (savedAfter saved R) r)
    (.read fun r hr => ⟨hr.results, hr⟩) fun w => .assuming fun hw => .pure fun r' hnote => ?_
  refine ⟨R, ⟨hnote.failed.trans ?_, hnote.results, hnote.file⟩, hr.2⟩
  simp [hw]

theorem main_triple (file : File) (only : String) (saved : Option (List Row)) :
    Triple (Note False [] saved) (file.main only)
      (fun b r => ∃ R, Note (b = true) R (savedAfter saved R) r ∧
        R.map Row.case = selected only file.tests) (Crashed (selected only file.tests)) := by
  cases file with
  | runTests =>
    have hnone : ([] : List Row).map Row.case <+: selected only basicTests := List.nil_prefix
    exact Triple.bind (note_triple kUnchecked_ok hnone) fun _ =>
      runSelected_triple basicTests_ok saved
  | runAdvanced => exact runSelected_triple advancedTests_ok saved
  | runBoundaries => exact runSelected_triple boundaryTests_ok saved

/-- **What the exit status says.** A suite exits with 0 exactly when nothing went badly, in a case
or around it: no command failed but for those whose failure is not looked at, and none succeeded
that has to be refused. A suite that runs to its end has a row for each selected case, in their
order, and has them all in `results.json`, unless no case was selected; one that does not has rows
for the first of them. -/
theorem main_exit (file : File) (only : String) (replicas : ℕ) (saved : Option (List Row))
    (fates : List Fate) :
    (exitsZero (file.main only ⟨⟨replicas, [], saved⟩, [], fates⟩).1 = true ↔
      ¬Failed Bad (file.main only ⟨⟨replicas, [], saved⟩, [], fates⟩).2.log) ∧
    (file.main only ⟨⟨replicas, [], saved⟩, [], fates⟩).2.world.results.map Row.case <+:
      selected only file.tests ∧
    ((file.main only ⟨⟨replicas, [], saved⟩, [], fates⟩).1.isSome →
      (file.main only ⟨⟨replicas, [], saved⟩, [], fates⟩).2.world.results.map Row.case =
        selected only file.tests ∧
      (file.main only ⟨⟨replicas, [], saved⟩, [], fates⟩).2.world.file =
        if selected only file.tests = [] then saved
        else some (file.main only ⟨⟨replicas, [], saved⟩, [], fates⟩).2.world.results) := by
  have hstart : Note False [] saved ⟨⟨replicas, [], saved⟩, [], fates⟩ :=
    ⟨iff_of_false not_failed_nil not_false, rfl, rfl⟩
  have hafter := main_triple file only saved _ hstart
  generalize file.main only ⟨⟨replicas, [], saved⟩, [], fates⟩ = o at hafter ⊢
  obtain ⟨a, r⟩ := o
  cases a with
  | none =>
    have hcrash : Crashed (selected only file.tests) r := hafter
    refine ⟨?_, hcrash.rows, fun h => by cases h⟩
    exact iff_of_false (fun h => by cases h) fun h => h hcrash.failed
  | some b =>
    obtain ⟨R, hnote, hnames⟩ := hafter
    have hrows : r.world.results.map Row.case = selected only file.tests := by
      rw [hnote.results, hnames]
    have hempty : R = [] ↔ selected only file.tests = [] := by
      rw [← hnames, List.map_eq_nil_iff]
    refine ⟨?_, hrows ▸ List.prefix_rfl, fun _ => ⟨hrows, ?_⟩⟩
    · show exitsZero (some b) = true ↔ ¬Failed Bad r.log
      rw [hnote.failed]
      cases b <;> decide
    · show r.world.file = _
      rw [hnote.file, hnote.results, savedAfter]
      simp only [hempty]

/-- An invalid job that is admitted: its case fails, and with it the suite. -/
example : exitsZero (File.runBoundaries.main "36" ⟨{}, [], []⟩).1 = false := by decide +kernel

/-! ## The scheduler after a case -/

section stranded

variable {wait : String}

/-- Why the scheduler is stopped at the end of a case. -/
structure Stranded (wait : String) (r : Run Lab Cmd) : Prop where
  iff : r.world.scheduler = 0 ↔ Saw r.log (.scale 0) .lost ∨ Saw r.log (.scale 1) .refused ∨
    ∃ f, f ≠ .done ∧ Ends r.log (.step wait) f

/-- Neither scaling has gone wrong. -/
structure Calm (replicas : ℕ) (r : Run Lab Cmd) : Prop where
  scheduler : r.world.scheduler = replicas
  lost : ¬Saw r.log (.scale 0) .lost
  refused : ¬Saw r.log (.scale 1) .refused

theorem Calm.record {replicas : ℕ} {r : Run Lab Cmd} (h : Calm replicas r) {c : Cmd} {f : Fate}
    {w : Lab} {n : ℕ} (hw : w.scheduler = n) (hlost : ¬(c = .scale 0 ∧ f = .lost))
    (hrefused : ¬(c = .scale 1 ∧ f = .refused)) : Calm n (r.record c f w) where
  scheduler := hw
  lost hsaw := (saw_record.1 hsaw).elim h.lost hlost
  refused hsaw := (saw_record.1 hsaw).elim h.refused hrefused

/-- While the scheduler is up, only the wait can end the log in a way that matters. -/
theorem Calm.stranded {r : Run Lab Cmd} (h : Calm 1 r)
    (hends : ∀ f, Ends r.log (.step wait) f → f = .done) : Stranded wait r where
  iff := by
    refine iff_of_false (by rw [h.scheduler]; decide) ?_
    rintro (hlost | hrefused | ⟨f, hf, hend⟩)
    · exact h.lost hlost
    · exact h.refused hrefused
    · exact hf (hends f hend)

theorem Calm.steps_triple {n : ℕ} {texts : List String} {E : Run Lab Cmd → Prop}
    (hexc : ∀ r text f, Calm n r → text ∈ texts → E (r.record (.step text) f r.world)) :
    Triple (Calm n) (steps texts) (fun _ => Calm n) E :=
  .steps (fun _ _ _ hw => (Option.some.inj hw).symm)
    (fun _ _ _ hr => hr.record hr.scheduler (by simp) (by simp))
    fun r text hmem f _ hr => hexc r text f hr hmem

/-- Steps with the scheduler up. -/
theorem Calm.up_triple {texts : List String} (hwait : wait ∉ texts) :
    Triple (Calm 1) (steps texts) (fun _ => Calm 1) (Stranded wait) := by
  refine Calm.steps_triple fun r text f hr hmem => ?_
  refine (hr.record hr.scheduler (by simp) (by simp)).stranded fun f' hends => ?_
  have hcmd := (ends_record.1 hends).1
  cases hcmd
  exact absurd hmem hwait

theorem unscheduled_triple {jobs : List String} :
    Triple (Calm 1) (unscheduled wait jobs) (fun _ => Calm 1) (Stranded wait) := by
  have hother : ∀ (r : Run Lab Cmd) (n : ℕ) (f : Fate) (w : Lab) (f' : Fate),
      Ends (r.record (.scale n) f w).log (.step wait) f' → f' = .done := by
    intro r n f w f' hends
    cases (ends_record.1 hends).1
  -- scaling down
  refine Triple.bind (Q := fun _ => Calm 0) (Triple.exec (fun r w hr hw => ?_) (fun r hr => ?_)
    fun r w hr hw => ?_) fun _ => ?_
  · obtain rfl := Option.some.inj hw
    exact hr.record rfl (by simp) (by simp)
  · exact (hr.record hr.scheduler (by simp) (by simp)).stranded (hother r 0 _ _)
  · obtain rfl := Option.some.inj hw
    exact ⟨iff_of_true rfl (.inl (saw_record.2 (.inr ⟨rfl, rfl⟩)))⟩
  -- the wait
  have hwait : ∀ r f, Calm 0 r → f ≠ .done → Stranded wait (r.record (.step wait) f r.world) :=
    fun r f hr hf => ⟨iff_of_true hr.scheduler (.inr (.inr ⟨f, hf, ends_record.2 ⟨rfl, rfl⟩⟩))⟩
  refine Triple.bind (Q := fun _ => Calm 0) (.idle (fun _ _ hw => (Option.some.inj hw).symm)
    (fun r hr _ => hr.record hr.scheduler (by simp) (by simp))
    fun r f hf hr => hwait r f hr hf) fun _ => ?_
  -- the `try`: whatever happens in it, the scheduler is to be scaled up
  have hup : ∀ r w, Calm 0 r → effect (.scale 1) r.world = some w → ∀ f, f ≠ .refused →
      Calm 1 (r.record (.scale 1) f w) := by
    intro r w hr hw f hf
    obtain rfl := Option.some.inj hw
    exact hr.record rfl (by simp) fun hboth => hf hboth.2
  have hdown : ∀ r, Calm 0 r → Stranded wait (r.record (.scale 1) .refused r.world) := fun r hr =>
    ⟨iff_of_true hr.scheduler (.inr (.inl (saw_record.2 (.inr ⟨rfl, rfl⟩))))⟩
  refine Triple.tryFinally (Q := fun _ => Calm 0) (E := Calm 0)
    (Calm.steps_triple fun r text f hr _ => hr.record hr.scheduler (by simp) (by simp))
    (fun _ => ?_) ?_
  · exact Triple.exec (fun r w hr hw => hup r w hr hw _ (by decide)) hdown fun r w hr hw =>
      (hup r w hr hw _ (by decide)).stranded (hother r 1 _ _)
  · exact Triple.exec (fun r w hr hw => (hup r w hr hw _ (by decide)).stranded (hother r 1 _ _))
      hdown fun r w hr hw => (hup r w hr hw _ (by decide)).stranded (hother r 1 _ _)

theorem drf_triple : Triple (Calm 1) drf (fun _ => Calm 1) (Stranded drfWait) :=
  .bind (Calm.up_triple (by decide)) fun _ => .bind unscheduled_triple fun _ =>
    Calm.up_triple (by decide)

theorem weighted_triple : Triple (Calm 1) weighted (fun _ => Calm 1) (Stranded weightedWait) :=
  .bind (Calm.up_triple (by decide)) fun _ => .bind (Calm.up_triple (by decide)) fun _ =>
    .bind unscheduled_triple fun _ => Calm.up_triple (by decide)

/-- **When a case leaves the scheduler stopped.** A case that returns has scaled it up again. One
that raises has not in three cases only: the scaling down failed after it had its effect, the
scaling up was refused, or it ended with the wait that comes before the `try`. -/
theorem stranded_iff {fn : LabScript Unit}
    (hfn : fn = drf ∧ wait = drfWait ∨ fn = weighted ∧ wait = weightedWait) (fates : List Fate) :
    ((fn ⟨{}, [], fates⟩).1.isSome → (fn ⟨{}, [], fates⟩).2.world.scheduler = 1) ∧
    ((fn ⟨{}, [], fates⟩).2.world.scheduler = 0 ↔
      Saw (fn ⟨{}, [], fates⟩).2.log (.scale 0) .lost ∨
      Saw (fn ⟨{}, [], fates⟩).2.log (.scale 1) .refused ∨
      ∃ f, f ≠ .done ∧ Ends (fn ⟨{}, [], fates⟩).2.log (.step wait) f) := by
  obtain ⟨htriple, hstrict⟩ : Triple (Calm 1) fn (fun _ => Calm 1) (Stranded wait) ∧
      Strict Bad fn := by
    rcases hfn with ⟨rfl, rfl⟩ | ⟨rfl, rfl⟩
    · exact ⟨drf_triple, drf_ok.strict⟩
    · exact ⟨weighted_triple, weighted_ok.strict⟩
  have hafter := htriple ⟨{}, [], fates⟩ ⟨rfl, not_saw_nil, not_saw_nil⟩
  obtain ⟨es, hlog, hnone⟩ := hstrict ⟨{}, [], fates⟩
  generalize fn ⟨{}, [], fates⟩ = o at hafter hlog hnone ⊢
  obtain ⟨a, r⟩ := o
  cases a with
  | none =>
    have hstranded : Stranded wait r := hafter
    exact ⟨fun h => (by cases h), hstranded.iff⟩
  | some u =>
    have hcalm : Calm 1 r := hafter
    have hes : r.log = es := by simpa using hlog
    -- nothing failed in a case that returned
    have hquiet : ¬Failed Bad r.log := fun h => by cases hnone.2 (hes ▸ h)
    refine ⟨fun _ => hcalm.scheduler, (hcalm.stranded fun f hends => ?_).iff⟩
    obtain ⟨e, he, hcmd, hfate⟩ := hends.saw
    by_contra hf
    refine hquiet ⟨e, he, ?_⟩
    rw [hcmd, hfate]
    exact hf

/-- Pods of the scheduler that stay for 70 s: the wait of `drf` fails, and nobody scales up. -/
theorem stranded_iff_drf : (drf ⟨{}, [], List.replicate 5 .done ++ [.refused]⟩).2.world.scheduler = 0 := by
  have hends : ∃ f, f ≠ .done ∧
      Ends (drf ⟨{}, [], List.replicate 5 .done ++ [.refused]⟩).2.log (.step drfWait) f :=
    ⟨.refused, by decide, ⟨0, [], none⟩, rfl⟩
  exact ((stranded_iff (.inl ⟨rfl, rfl⟩) _).2).2 (.inr (.inr hends))

end stranded

end K8sDev.Suite

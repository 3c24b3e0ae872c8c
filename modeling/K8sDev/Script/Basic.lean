import Mathlib.Data.List.Basic
import Mathlib.Tactic.Common

/-!
# Scripts that may fail

A script issues commands to a world outside it, one after the other, and a command that reports a
failure raises. Commands fail in two ways: without an effect, or with their effect but without a
report of success. Which command fails how is decided outside, so a statement about every run is a
statement about every list of fates.

* `Triple`: a triple with a postcondition for the normal end and one for an exception, and its
  rules. The rule of `tryFinally` runs the cleanup in both cases.
* `Strict`: a script that raises exactly when one of its commands went badly. What is bad is a
  parameter: of most commands a failure, of one that must be refused its success
  (`Strict.expect`). `try … finally` keeps that (`Strict.tryFinally`).
* `Keeps`: a script that does not touch a part of the world.
-/

/-- How a command turns out. -/
inductive Fate
  | done
  /-- It reports a failure and had no effect. -/
  | refused
  /-- It reports a failure and had its effect. -/
  | lost
deriving DecidableEq, Repr

/-- A command as it went, and the world after it. -/
structure Entry (σ κ : Type) where
  cmd : κ
  fate : Fate
  after : σ
deriving DecidableEq, Repr

/-- A script at work: the world with the variables of the script, what it has issued, and what
will become of the commands to come. When the list of fates is over the rest succeed. -/
structure Run (σ κ : Type) where
  world : σ
  log : List (Entry σ κ) := []
  fates : List Fate := []
deriving DecidableEq, Repr

/-- The run after a command. -/
def Run.record {σ κ : Type} (r : Run σ κ) (c : κ) (f : Fate) (w : σ) : Run σ κ :=
  ⟨w, r.log ++ [⟨c, f, w⟩], r.fates.tail⟩

/-- What holds of the world after each command, after one more. -/
theorem seen_record {σ κ : Type} {p : σ → Prop} {r : Run σ κ} {c : κ} {f : Fate} {w : σ}
    (h : ∀ e ∈ r.log, p e.after) (hw : p w) : ∀ e ∈ (r.record c f w).log, p e.after := by
  intro e he
  rcases List.mem_append.1 he with he | he
  · exact h e he
  · rw [List.mem_singleton.1 he]
    exact hw

/-- The log has this command with this fate. -/
def Saw {σ κ : Type} (log : List (Entry σ κ)) (c : κ) (f : Fate) : Prop :=
  ∃ e ∈ log, e.cmd = c ∧ e.fate = f

theorem saw_record {σ κ : Type} {r : Run σ κ} {c c' : κ} {f f' : Fate} {w : σ} :
    Saw (r.record c f w).log c' f' ↔ Saw r.log c' f' ∨ c = c' ∧ f = f' := by
  simp [Saw, Run.record, or_and_right, exists_or]

theorem not_saw_nil {σ κ : Type} {c : κ} {f : Fate} : ¬Saw ([] : List (Entry σ κ)) c f := by
  rintro ⟨e, he, -⟩
  cases he

/-- The log ends with this command and this fate. -/
def Ends {σ κ : Type} (log : List (Entry σ κ)) (c : κ) (f : Fate) : Prop :=
  ∃ w, log.getLast? = some ⟨c, f, w⟩

theorem ends_record {σ κ : Type} {r : Run σ κ} {c c' : κ} {f f' : Fate} {w : σ} :
    Ends (r.record c f w).log c' f' ↔ c = c' ∧ f = f' := by
  simp [Ends, Run.record]

theorem Ends.saw {σ κ : Type} {log : List (Entry σ κ)} {c : κ} {f : Fate} (h : Ends log c f) :
    Saw log c f := by
  obtain ⟨w, hw⟩ := h
  exact ⟨_, List.mem_of_getLast? hw, rfl, rfl⟩

/-- A script: `none` is an exception. -/
def Script (σ κ α : Type) := Run σ κ → Option α × Run σ κ

namespace Script

variable {σ κ α β τ : Type}

def pure (a : α) : Script σ κ α := fun r => (some a, r)

def bind (x : Script σ κ α) (f : α → Script σ κ β) : Script σ κ β := fun r =>
  match x r with
  | (some a, r') => f a r'
  | (none, r') => (none, r')

instance : Monad (Script σ κ) where
  pure := Script.pure
  bind := Script.bind

/-- Assign variables of the script. -/
def assign (f : σ → σ) : Script σ κ Unit := fun r => (some (), { r with world := f r.world })

/-- Read variables of the script. -/
def read : Script σ κ σ := fun r => (some r.world, r)

/-- `assert b`. -/
def check (b : Bool) : Script σ κ Unit := fun r => (if b then some () else none, r)

/-- Issue a command. `effect` is what it does to the world: `none` where it cannot succeed. -/
def exec (effect : κ → σ → Option σ) (c : κ) : Script σ κ Unit := fun r =>
  match effect c r.world, r.fates.headD .done with
  | some w, .done => (some (), r.record c .done w)
  | some w, .lost => (none, r.record c .lost w)
  | _, _ => (none, r.record c .refused r.world)

/-- `for x in xs`. -/
def forEach : List τ → (τ → Script σ κ Unit) → Script σ κ Unit
  | [], _ => pure ()
  | x :: xs, body => (body x).bind fun _ => forEach xs body

/-- `try: x finally: y`. An exception of `y` replaces the outcome of `x`. -/
def tryFinally (x : Script σ κ α) (y : Script σ κ Unit) : Script σ κ α := fun r =>
  match x r with
  | (a, r') =>
    match y r' with
    | (some _, r'') => (a, r'')
    | (none, r'') => (none, r'')

/-- `try: x except Exception`: whether `x` raised. -/
def raised (x : Script σ κ Unit) : Script σ κ Bool := fun r =>
  match x r with
  | (a, r') => (some a.isNone, r')

/-- The outcome is not looked at. -/
def tolerate (x : Script σ κ Unit) : Script σ κ Unit := (raised x).bind fun _ => pure ()

/-! ## Triples -/

/-- What holds of an outcome: `Q` after a normal end, `E` after an exception. -/
def After (Q : α → Run σ κ → Prop) (E : Run σ κ → Prop) : Option α × Run σ κ → Prop
  | (some a, r) => Q a r
  | (none, r) => E r

/-- If `P` holds before `x`, then `Q` holds when `x` returns, and `E` when it raises. -/
def Triple (P : Run σ κ → Prop) (x : Script σ κ α) (Q : α → Run σ κ → Prop)
    (E : Run σ κ → Prop) : Prop :=
  ∀ r, P r → After Q E (x r)

variable {P : Run σ κ → Prop} {Q : α → Run σ κ → Prop} {E : Run σ κ → Prop}

theorem After.conseq {Q' : α → Run σ κ → Prop} {E' : Run σ κ → Prop} {o : Option α × Run σ κ}
    (h : After Q E o) (hQ : ∀ a r, Q a r → Q' a r) (hE : ∀ r, E r → E' r) : After Q' E' o := by
  obtain ⟨a, r⟩ := o
  cases a with
  | none => exact hE r h
  | some a => exact hQ a r h

theorem Triple.conseq {x : Script σ κ α} {P' : Run σ κ → Prop} {Q' : α → Run σ κ → Prop}
    {E' : Run σ κ → Prop} (h : Triple P x Q E) (hP : ∀ r, P' r → P r)
    (hQ : ∀ a r, Q a r → Q' a r) (hE : ∀ r, E r → E' r) : Triple P' x Q' E' := fun r hr =>
  (h r (hP r hr)).conseq hQ hE

/-- A fact that the precondition holds of the run. -/
theorem Triple.assuming {x : Script σ κ α} {p : Prop} (h : p → Triple P x Q E) :
    Triple (fun r => p ∧ P r) x Q E := fun r hr => h hr.1 r hr.2

/-- A witness that the precondition holds of the run. -/
theorem Triple.exists {x : Script σ κ α} {P : τ → Run σ κ → Prop} (h : ∀ t, Triple (P t) x Q E) :
    Triple (fun r => ∃ t, P t r) x Q E := by
  rintro r ⟨t, hr⟩
  exact h t r hr

/-- Two triples of one script. -/
theorem Triple.and {x : Script σ κ α} {P' : Run σ κ → Prop} {Q' : α → Run σ κ → Prop}
    {E' : Run σ κ → Prop} (h : Triple P x Q E) (h' : Triple P' x Q' E') :
    Triple (fun r => P r ∧ P' r) x (fun a r => Q a r ∧ Q' a r) (fun r => E r ∧ E' r) := by
  intro r hr
  have hfirst := h r hr.1
  have hsecond := h' r hr.2
  generalize x r = o at hfirst hsecond ⊢
  obtain ⟨a, r'⟩ := o
  cases a with
  | none => exact ⟨hfirst, hsecond⟩
  | some a => exact ⟨hfirst, hsecond⟩

theorem Triple.pure {a : α} (h : ∀ r, P r → Q a r) : Triple P (Pure.pure a) Q E := h

theorem Triple.bind {x : Script σ κ α} {f : α → Script σ κ β} {R : β → Run σ κ → Prop}
    (hx : Triple P x Q E) (hf : ∀ a, Triple (Q a) (f a) R E) : Triple P (x >>= f) R E := by
  intro r hr
  have hafter := hx r hr
  show After R E (x.bind f r)
  unfold Script.bind
  generalize x r = o at hafter ⊢
  obtain ⟨a, r'⟩ := o
  cases a with
  | none => exact hafter
  | some a => exact hf a r' hafter

theorem Triple.assign {f : σ → σ} {Q : Unit → Run σ κ → Prop}
    (h : ∀ r, P r → Q () { r with world := f r.world }) : Triple P (Script.assign f) Q E := h

theorem Triple.read {Q : σ → Run σ κ → Prop} (h : ∀ r, P r → Q r.world r) :
    Triple P Script.read Q E := h

theorem Triple.check {b : Bool} {Q : Unit → Run σ κ → Prop} (hpass : ∀ r, b = true → P r → Q () r)
    (hfail : ∀ r, P r → E r) : Triple P (Script.check b) Q E := by
  intro r hr
  unfold Script.check
  cases b with
  | false => exact hfail r hr
  | true => exact hpass r rfl hr

/-- **The rule of a command**: it succeeds, or it fails in one of the two ways. -/
theorem Triple.exec {effect : κ → σ → Option σ} {c : κ} {Q : Unit → Run σ κ → Prop}
    (hdone : ∀ r w, P r → effect c r.world = some w → Q () (r.record c .done w))
    (hrefused : ∀ r, P r → E (r.record c .refused r.world))
    (hlost : ∀ r w, P r → effect c r.world = some w → E (r.record c .lost w)) :
    Triple P (Script.exec effect c) Q E := by
  intro r hr
  unfold Script.exec
  split
  · rename_i w hw _
    exact hdone r w hr hw
  · rename_i w hw _
    exact hlost r w hr hw
  · exact hrefused r hr

/-- **The rule of `for`**: the invariant speaks of the members that were passed. -/
theorem Triple.forEach {I : List τ → Run σ κ → Prop} {body : τ → Script σ κ Unit} {xs : List τ}
    (h : ∀ pre x post, xs = pre ++ x :: post →
      Triple (I pre) (body x) (fun _ => I (pre ++ [x])) E) :
    Triple (I []) (Script.forEach xs body) (fun _ => I xs) E := by
  have hfrom : ∀ post pre, xs = pre ++ post →
      Triple (I pre) (Script.forEach post body) (fun _ => I xs) E := by
    intro post
    induction post with
    | nil =>
      intro pre hxs
      rw [List.append_nil] at hxs
      exact .pure fun r hr => hxs ▸ hr
    | cons x post ih =>
      intro pre hxs
      exact .bind (h pre x post hxs) fun _ => ih (pre ++ [x]) (by simpa using hxs)
  exact hfrom xs [] rfl

/-- A command that leaves the world as it is. -/
theorem Triple.idle {effect : κ → σ → Option σ} {c : κ} {Q : Unit → Run σ κ → Prop}
    (hidle : ∀ w w', effect c w = some w' → w' = w)
    (hdone : ∀ r, P r → effect c r.world = some r.world → Q () (r.record c .done r.world))
    (hexc : ∀ r f, f ≠ .done → P r → E (r.record c f r.world)) :
    Triple P (Script.exec effect c) Q E := by
  refine Triple.exec (fun r w hr hw => ?_) (fun r hr => hexc r _ (by decide) hr)
    fun r w hr hw => ?_
  · obtain rfl := hidle r.world w hw
    exact hdone r hr hw
  · obtain rfl := hidle r.world w hw
    exact hexc r _ (by decide) hr

/-- Such commands, one after the other. -/
theorem Triple.steps {effect : κ → σ → Option σ} {cmd : τ → κ}
    (hidle : ∀ x w w', effect (cmd x) w = some w' → w' = w) {xs : List τ}
    (hdone : ∀ r, ∀ x ∈ xs, P r → P (r.record (cmd x) .done r.world))
    (hexc : ∀ r, ∀ x ∈ xs, ∀ f, f ≠ .done → P r → E (r.record (cmd x) f r.world)) :
    Triple P (Script.forEach xs fun x => Script.exec effect (cmd x)) (fun _ => P) E := by
  refine Triple.forEach (I := fun _ => P) fun pre x post hxs => ?_
  have hx : x ∈ xs := by
    rw [hxs]
    simp
  exact .idle (hidle x) (fun r hr _ => hdone r x hx hr) fun r f hf hr => hexc r x hx f hf hr

/-- **The rule of `try … finally`**: the cleanup runs after the normal end and after an
exception. -/
theorem Triple.tryFinally {x : Script σ κ α} {y : Script σ κ Unit} {R : α → Run σ κ → Prop}
    {F : Run σ κ → Prop} (hx : Triple P x Q E) (hy : ∀ a, Triple (Q a) y (fun _ => R a) F)
    (hexc : Triple E y (fun _ => F) F) : Triple P (Script.tryFinally x y) R F := by
  intro r hr
  have hbody := hx r hr
  unfold Script.tryFinally
  generalize x r = o at hbody ⊢
  obtain ⟨a, r'⟩ := o
  cases a with
  | none =>
    have hcleanup := hexc r' hbody
    dsimp only
    generalize y r' = o at hcleanup ⊢
    obtain ⟨b, r''⟩ := o
    cases b with
    | none => exact hcleanup
    | some u => exact hcleanup
  | some a =>
    have hcleanup := hy a r' hbody
    dsimp only
    generalize y r' = o at hcleanup ⊢
    obtain ⟨b, r''⟩ := o
    cases b with
    | none => exact hcleanup
    | some u => exact hcleanup

theorem Triple.raised {x : Script σ κ Unit} {Q : Unit → Run σ κ → Prop} {R : Bool → Run σ κ → Prop}
    {F : Run σ κ → Prop} (hx : Triple P x Q E) (hok : ∀ r, Q () r → R false r)
    (hexc : ∀ r, E r → R true r) : Triple P (Script.raised x) R F := by
  intro r hr
  have hafter := hx r hr
  unfold Script.raised
  generalize x r = o at hafter ⊢
  obtain ⟨a, r'⟩ := o
  cases a with
  | none => exact hexc r' hafter
  | some u => exact hok r' hafter

/-! ## Scripts that swallow no failure -/

/-- The log holds a command that went badly. -/
def Failed (bad : κ → Fate → Prop) (es : List (Entry σ κ)) : Prop :=
  ∃ e ∈ es, bad e.cmd e.fate

/-- `x` raises exactly when one of its commands goes badly. -/
def Strict (bad : κ → Fate → Prop) (x : Script σ κ α) : Prop :=
  ∀ r, ∃ es, (x r).2.log = r.log ++ es ∧ ((x r).1 = none ↔ Failed bad es)

section strict

variable {bad : κ → Fate → Prop}

theorem failed_append {es es' : List (Entry σ κ)} :
    Failed bad (es ++ es') ↔ Failed bad es ∨ Failed bad es' := by
  simp only [Failed, List.mem_append, or_and_right, exists_or]

theorem not_failed_nil : ¬Failed bad ([] : List (Entry σ κ)) := by
  rintro ⟨e, he, -⟩
  cases he

theorem failed_singleton {e : Entry σ κ} : Failed bad [e] ↔ bad e.cmd e.fate := by
  simp [Failed]

theorem Strict.of_quiet {x : Script σ κ α} (hlog : ∀ r, (x r).2.log = r.log)
    (hret : ∀ r, (x r).1.isSome) : Strict bad x := by
  intro r
  refine ⟨[], by rw [hlog, List.append_nil], ?_⟩
  have hsome := hret r
  constructor
  · intro hnone
    rw [hnone] at hsome
    cases hsome
  · exact fun hfail => absurd hfail not_failed_nil

theorem Strict.pure (a : α) : Strict bad (Pure.pure a : Script σ κ α) :=
  .of_quiet (fun _ => rfl) fun _ => rfl

/-- A command adds one entry, with the fate that its outcome tells. -/
theorem exec_log (effect : κ → σ → Option σ) (c : κ) (r : Run σ κ) :
    ∃ f w, (Script.exec effect c r).2.log = r.log ++ [⟨c, f, w⟩] ∧
      ((Script.exec effect c r).1 = none ↔ f ≠ .done) := by
  unfold Script.exec
  split
  · exact ⟨.done, _, rfl, by simp⟩
  · exact ⟨.lost, _, rfl, by simp⟩
  · exact ⟨.refused, _, rfl, by simp⟩

theorem Strict.exec {effect : κ → σ → Option σ} {c : κ} (hc : ∀ f, bad c f ↔ f ≠ .done) :
    Strict bad (Script.exec effect c) := by
  intro r
  obtain ⟨f, w, hlog, hnone⟩ := exec_log effect c r
  refine ⟨[⟨c, f, w⟩], hlog, ?_⟩
  rw [hnone, failed_singleton]
  exact (hc f).symm

theorem Strict.bind {x : Script σ κ α} {f : α → Script σ κ β} (hx : Strict bad x)
    (hf : ∀ a, Strict bad (f a)) : Strict bad (x >>= f) := by
  intro r
  obtain ⟨es, hlog, hnone⟩ := hx r
  show ∃ es, (x.bind f r).2.log = r.log ++ es ∧ ((x.bind f r).1 = none ↔ Failed bad es)
  unfold Script.bind
  generalize x r = o at hlog hnone ⊢
  obtain ⟨a, r'⟩ := o
  cases a with
  | none => exact ⟨es, hlog, iff_of_true rfl (hnone.1 rfl)⟩
  | some a =>
    obtain ⟨es', hlog', hnone'⟩ := hf a r'
    have hquiet : ¬Failed bad es := fun h => by cases hnone.2 h
    have hlog'' : r'.log = r.log ++ es := hlog
    refine ⟨es ++ es', by rw [hlog', hlog'', List.append_assoc], ?_⟩
    rw [hnone', failed_append]
    exact (or_iff_right hquiet).symm

theorem Strict.forEach {body : τ → Script σ κ Unit} (h : ∀ x, Strict bad (body x)) :
    ∀ xs, Strict bad (Script.forEach xs body) := by
  intro xs
  induction xs with
  | nil => exact .pure ()
  | cons x xs ih => exact .bind (h x) fun _ => ih

/-- **`try … finally` swallows nothing.** -/
theorem Strict.tryFinally {x : Script σ κ α} {y : Script σ κ Unit} (hx : Strict bad x)
    (hy : Strict bad y) : Strict bad (Script.tryFinally x y) := by
  intro r
  obtain ⟨es, hlog, hnone⟩ := hx r
  unfold Script.tryFinally
  generalize x r = o at hlog hnone ⊢
  obtain ⟨a, r'⟩ := o
  obtain ⟨es', hlog', hnone'⟩ := hy r'
  dsimp only
  generalize y r' = o' at hlog' hnone' ⊢
  obtain ⟨b, r''⟩ := o'
  have hlog₁ : r'.log = r.log ++ es := hlog
  have hlog₂ : r''.log = r'.log ++ es' := hlog'
  have hboth : r''.log = r.log ++ (es ++ es') := by
    rw [hlog₂, hlog₁, List.append_assoc]
  cases b with
  | none => exact ⟨es ++ es', hboth, by simp [failed_append, ← hnone']⟩
  | some u =>
    have hquiet : ¬Failed bad es' := fun h => by cases hnone'.2 h
    refine ⟨es ++ es', hboth, ?_⟩
    rw [failed_append, or_iff_left hquiet]
    exact hnone

/-- `try … except`: the failure is in the result. -/
theorem Strict.raised_log {x : Script σ κ Unit} (hx : Strict bad x) (r : Run σ κ) :
    ∃ es b, (Script.raised x r).2.log = r.log ++ es ∧ (Script.raised x r).1 = some b ∧
      (b = true ↔ Failed bad es) := by
  obtain ⟨es, hlog, hnone⟩ := hx r
  unfold Script.raised
  generalize x r = o at hlog hnone ⊢
  obtain ⟨a, r'⟩ := o
  exact ⟨es, a.isNone, hlog, rfl, Option.isNone_iff_eq_none.trans hnone⟩

theorem Strict.tolerate {effect : κ → σ → Option σ} {c : κ} (hc : ∀ f, ¬bad c f) :
    Strict bad (Script.tolerate (Script.exec effect c)) := by
  intro r
  obtain ⟨f, w, hlog, -⟩ := exec_log effect c r
  refine ⟨[⟨c, f, w⟩], hlog, ?_⟩
  rw [failed_singleton]
  constructor
  · intro hnone
    cases hnone
  · exact fun h => absurd h (hc f)

/-- **A command that must be refused**: its success goes badly, once the script looks at it. -/
theorem Strict.expect {effect : κ → σ → Option σ} {c : κ} (hc : ∀ f, bad c f ↔ f = .done)
    {x : Script σ κ Unit} {y : Script σ κ α} (hx : Strict bad x) (hy : Strict bad y) :
    Strict bad (Script.raised (Script.exec effect c) >>= fun failed =>
      x >>= fun _ => Script.check failed >>= fun _ => y) := by
  intro r
  obtain ⟨f, w, hlog, hnone⟩ := exec_log effect c r
  show ∃ es, ((Script.raised (Script.exec effect c)).bind _ r).2.log = r.log ++ es ∧
    (((Script.raised (Script.exec effect c)).bind _ r).1 = none ↔ Failed bad es)
  unfold Script.bind Script.raised
  generalize Script.exec effect c r = o at hlog hnone ⊢
  obtain ⟨a, r'⟩ := o
  have hlog' : r'.log = r.log ++ [⟨c, f, w⟩] := hlog
  cases a with
  | none =>
    -- it was refused, as it must be: the rest decides
    have hquiet : ¬bad c f := fun hbad => hnone.1 rfl ((hc f).1 hbad)
    have hcheck : Strict bad (Script.check true : Script σ κ Unit) :=
      .of_quiet (fun _ => rfl) fun _ => rfl
    obtain ⟨es, hrest, hfailed⟩ := Strict.bind hx (fun _ => Strict.bind hcheck fun _ => hy) r'
    refine ⟨⟨c, f, w⟩ :: es, ?_, hfailed.trans ?_⟩
    · exact hrest.trans (by rw [hlog', List.append_assoc]; rfl)
    · have hcons := @failed_append σ κ bad [⟨c, f, w⟩] es
      rw [failed_singleton, or_iff_right hquiet] at hcons
      exact hcons.symm
  | some u =>
    have hdone : f = .done := by
      by_contra hf
      cases hnone.2 hf
    obtain ⟨es, hrest, -⟩ := hx r'
    have hbad : Failed bad (⟨c, f, w⟩ :: es) := ⟨_, List.mem_cons_self, (hc f).2 hdone⟩
    refine ⟨⟨c, f, w⟩ :: es, ?_⟩
    show ((x.bind fun _ => (Script.check false).bind fun _ => y) r').2.log = _ ∧
      (((x.bind fun _ => (Script.check false).bind fun _ => y) r').1 = none ↔ _)
    unfold Script.bind Script.check
    generalize x r' = o at hrest ⊢
    obtain ⟨b, r''⟩ := o
    have hrest' : r''.log = r'.log ++ es := hrest
    have hboth : r''.log = r.log ++ ⟨c, f, w⟩ :: es := by
      rw [hrest', hlog', List.append_assoc]
      rfl
    cases b with
    | none => exact ⟨hboth, iff_of_true rfl hbad⟩
    | some u => exact ⟨hboth, iff_of_true rfl hbad⟩

end strict

/-! ## What a script does not touch -/

/-- `x` leaves `f` of the world as it is, however it ends. -/
def Keeps (f : σ → τ) (x : Script σ κ α) : Prop := ∀ r, f (x r).2.world = f r.world

section keeps

variable {f : σ → τ} {effect : κ → σ → Option σ}

theorem Keeps.pure (a : α) : Keeps f (Pure.pure a : Script σ κ α) := fun _ => rfl

theorem Keeps.check (b : Bool) : Keeps f (Script.check b : Script σ κ Unit) := fun _ => rfl

theorem Keeps.exec {c : κ} (h : ∀ w w', effect c w = some w' → f w' = f w) :
    Keeps f (Script.exec effect c) := by
  intro r
  unfold Script.exec
  split
  · rename_i w hw _
    exact h _ w hw
  · rename_i w hw _
    exact h _ w hw
  · rfl

theorem Keeps.bind {x : Script σ κ α} {g : α → Script σ κ β} (hx : Keeps f x)
    (hg : ∀ a, Keeps f (g a)) : Keeps f (x >>= g) := by
  intro r
  have hfirst := hx r
  show f (x.bind g r).2.world = f r.world
  unfold Script.bind
  generalize x r = o at hfirst ⊢
  obtain ⟨a, r'⟩ := o
  cases a with
  | none => exact hfirst
  | some a => exact (hg a r').trans hfirst

theorem Keeps.forEach {υ : Type} {body : υ → Script σ κ Unit} (h : ∀ x, Keeps f (body x)) :
    ∀ xs, Keeps f (Script.forEach xs body) := by
  intro xs
  induction xs with
  | nil => exact .pure ()
  | cons x xs ih => exact .bind (h x) fun _ => ih

theorem Keeps.tryFinally {x : Script σ κ α} {y : Script σ κ Unit} (hx : Keeps f x)
    (hy : Keeps f y) : Keeps f (Script.tryFinally x y) := by
  intro r
  have hbody := hx r
  unfold Script.tryFinally
  generalize x r = o at hbody ⊢
  obtain ⟨a, r'⟩ := o
  have hcleanup := hy r'
  dsimp only
  generalize y r' = o' at hcleanup ⊢
  obtain ⟨b, r''⟩ := o'
  cases b with
  | none => exact hcleanup.trans hbody
  | some u => exact hcleanup.trans hbody

theorem Keeps.raised {x : Script σ κ Unit} (hx : Keeps f x) : Keeps f (Script.raised x) := hx

theorem Keeps.tolerate {x : Script σ κ Unit} (hx : Keeps f x) : Keeps f (Script.tolerate x) :=
  .bind hx.raised fun _ => .pure ()

end keeps

end Script

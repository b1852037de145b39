import ShipmentImport.Refinement.Creator
import ShipmentImport.Refinement.Publisher
import ShipmentImport.Refinement.WorkerRun

/-!
# All runs of the service

The specifications of the five tasks make an outline of the service (`Setting.outline`), so that
along every run a setting admits the invariant holds and every step is a step of the protocol.
-/

namespace ShipmentImport

namespace Setting

variable (C : Setting)

/-- The steps of the runs a setting is about. -/
def Admits (c : State) : Event → Prop
  | .step p ch => ∀ t s k r w', c.proc p = some (t, .stmt s k) →
      World.exec C.env p t s ch c.world = some (r, w') → C.Allows p t c.world s ch w'
  | _ => True

/-- Process `p` has left no trace yet. -/
structure Fresh (p : Nat) (x : World × Ghost) : Prop where
  idle : x.1.db.Idle p
  responsible : x.2.responsible p = none
  token : ∀ i, ¬ (x.1.db.slice i).HasToken p
  completed : ∀ i r, (x.1.db.slice i).job = some r → r.val.status = .completed → r.writer ≠ p

/-- Process `p` is only responsible for the import of its message. -/
def Alive (p : Nat) (t : Task) (x : World × Ghost) : Prop :=
  ∀ i, x.2.responsible p = some i → t.subject = some i

/-- Process `p` has no open transaction and is responsible for nothing. -/
def Done (p : Nat) (x : World × Ghost) : Prop :=
  x.1.db.Idle p ∧ (C.track → x.2.responsible p = none)

end Setting

section
variable {C : Setting} {p : Nat} {t : Task}

/-- A completed import was completed by the process that takes the step, or is as before. -/
theorem Slice.Step.completed_writer {env : Env} {role : Role} {s : Nat} {now : Time} {x y : Slice}
    (h : Slice.Step env role s now x y) {r : Version ImportJob} (hr : y.job = some r)
    (hc : r.val.status = .completed) : x = y ∨ r.writer = s := by
  cases h with
  | stay => exact .inl rfl
  | create r' history pending =>
    cases hr
    rw [pending] at hc
    cases hc
  | claim | reset | chunk | complete | fail | requeue | recoverFailed | recoverRequeued
  | dispatchExhausted =>
    cases hr
    exact .inr rfl

theorem stable_fresh : C.Stable p (Setting.Fresh p) := by
  intro x y ho h
  obtain ⟨-, -, hk, role, u, now, subject, hu, hs, -, hg⟩ := other_cases ho
  exact
    { idle := hk.idle h.idle
      responsible := (hg.responsible p (Ne.symm hu)).trans h.responsible
      token := fun i ht => h.token i (by rwa [(hs i).foreign (Ne.symm hu) ht])
      completed := fun i r hr hc => by
        rcases (hs i).completed_writer hr hc with e | e
        · exact h.completed i r (by rwa [e]) hc
        · rw [e]
          exact hu }

theorem stable_done : C.Stable p (C.Done p) :=
  stable_idle.and (.imp fun _ => stable_responsible (· = none))

/-! ## The tasks -/

/-- A process of task `t` starts. -/
def Start (p : Nat) (t : Task) : Assertion := fun x =>
  x.1.db.Idle p ∧ (∀ i, ¬ (x.1.db.slice i).HasToken p) ∧ x.2.responsible p = t.subject

theorem stable_start : C.Stable p (Start p t) := by
  intro x y ho ⟨h1, h2, h3⟩
  obtain ⟨-, -, hk, role, u, now, subject, hu, hs, -, hg⟩ := other_cases ho
  exact ⟨hk.idle h1, fun i ht => h2 i (by rwa [(hs i).foreign (Ne.symm hu) ht]),
    (hg.responsible p (Ne.symm hu)).trans h3⟩

open Setting.Spec

/-- A task without a message ends with no open transaction. -/
theorem task_of_idle {α : Type} {x : Py α} {f : α → TaskResult}
    (h : C.Spec p t (IdleAt p) x (Outcome (fun _ => IdleAt p) fun _ => IdleAt p)) :
    C.Spec p t (IdleAt p) (do
      let a ← x
      return f a) fun _ => IdleAt p := by
  refine Protocol.Triple.post (Q := Outcome (fun _ => IdleAt p) fun _ => IdleAt p)
    (seq h fun a => ret fun _ h => h) fun r x h => ?_
  cases r <;> exact h

/-- Every task keeps the protocol. -/
theorem taskProgram_spec (p : Nat) (t : Task) :
    C.Spec p t (Start p t) (taskProgram C.env p t) fun _ x => IdleAt p x ∧ (C.track →
      ∀ i, t.subject = some i → x.2.responsible p = none) := by
  cases t with
  | createImport request =>
    exact ((task_of_idle (createImport_spec rfl request)).pre fun x h => h.1).post
      fun r x h => ⟨h, fun _ i e => by cases e⟩
  | publishDueEvents =>
    exact ((task_of_idle (publishDueEvents_spec rfl)).pre fun x h => h.1).post
      fun r x h => ⟨h, fun _ i e => by cases e⟩
  | recoverStaleClaims =>
    exact ((task_of_idle (recoverStaleClaims_spec rfl)).pre fun x h => h.1).post
      fun r x h => ⟨h, fun _ i e => by cases e⟩
  | recoverStaleImports caller =>
    exact ((task_of_idle (Setting.Spec.recoverStaleImports rfl _)).pre fun x h => h.1).post
      fun r x h => ⟨h, fun _ i e => by cases e⟩
  | processImport message hostname =>
    have h : C.Spec p (.processImport message hostname)
        (Unclaimed C p message.importId (fun d => d.Idle p) (· = some message.importId))
        (taskProgram C.env p (.processImport message hostname))
        (Outcome (fun _ : TaskResult => Ended C p message.importId (· = none))
          fun _ => Ended C p message.importId (· = none)) :=
      seq (processImportTask_spec message hostname) fun _ => ret fun _ h => h
    refine (h.pre fun x h => ?_).post fun r x h => ?_
    · exact ⟨fun ht => h.2.1 _ ht, h.1, fun _ => h.2.2⟩
    · cases r <;> exact ⟨h.2.1, fun htr _ _ => h.2.2 htr⟩

end

/-! ## The outline -/

section
variable {C : Setting} {p : Nat} {t : Task} {w : World} {g : Ghost}

/-- A step that leaves the world and the auxiliary data. -/
theorem idle_step {l : Deed Stmt Stmt.Reply Exc} (hi : C.Inv (w, g)) (hl : l = none) :
    C.Inv (w, g) ∧ C.Guar p t l (w, g) (w, g) :=
  quiet_step _ _ hi (Database.own_refl hi.wf) (ghostStep_refl _ _ _) (fun _ _ => .inl) hi.dispatched
    (fun _ => .inl) fun s r e => by rw [hl] at e; cases e

/-- A worker takes its message. -/
theorem Dispatched.take {message : Message} (h : Dispatched w g)
    (hidle : w.db.Idle p) (hr : g.responsible p = none) :
    Dispatched { w with queue := w.queue.erase message } (g.assume p message.importId) where
  carried r hrow hp := by
    rcases h.carried r hrow hp with ⟨m, hq, e⟩ | ⟨u, hu⟩ | ⟨o, ho, hc⟩
    · by_cases hmm : m = message
      · exact .inr (.inl ⟨p, by rw [assume_responsible, ← hmm, e]⟩)
      · exact .inl ⟨m, (List.mem_erase_of_ne hmm).2 hq, e⟩
    · have : u ≠ p := by
        rintro rfl
        rw [hr] at hu
        cases hu
      exact .inr (.inl ⟨u, by rwa [assume_responsible_ne this]⟩)
    · exact .inr (.inr ⟨o, ho, hc⟩)
  covered r hrow hp s hs := by
    have : s ≠ p := by
      rintro rfl
      exact hidle.jobs.lock r.id hs
    rcases h.covered r hrow hp s hs with hc | hc
    · exact .inl (by rwa [assume_responsible_ne this])
    · exact .inr hc

/-- A process without a message starts. -/
theorem launch_idle (hs : t.subject = none) (hi : C.Inv (w, g)) (hf : Setting.Fresh p (w, g)) :
    ∃ g', C.Inv (w, g') ∧ C.Guar p t none (w, g) (w, g') ∧ Start p t (w, g') :=
  have ⟨h1, h2⟩ := idle_step hi rfl
  ⟨g, h1, h2, hf.idle, hf.token, hf.responsible.trans hs.symm⟩

/-- A process starts. -/
theorem launch_step {w' : World} (hl : w.launch t = some w') (hi : C.Inv (w, g))
    (hf : Setting.Fresh p (w, g)) :
    ∃ g', C.Inv (w', g') ∧ C.Guar p t none (w, g) (w', g') ∧ Start p t (w', g') := by
  cases t with
  | processImport message hostname =>
    simp only [World.launch, Option.ite_none_right_eq_some, Option.some.injEq] at hl
    obtain ⟨-, rfl⟩ := hl
    have hs := quiet_step (C := C) (p := p) (t := .processImport message hostname) (l := none)
      { w with queue := w.queue.erase message } (g.assume p message.importId) hi
      (Database.own_refl hi.wf) ⟨fun u hu => assume_responsible_ne hu, fun i hr => .inr (by
        rw [assume_responsible] at hr; exact hr), fun _ h => h, fun _ h => .inl h, fun _ _ h => h,
        fun _ h => h⟩ (fun _ _ => .inl) (fun htr => (hi.dispatched htr).take hf.idle hf.responsible)
      (fun _ => .inl) fun s r e => by cases e
    exact ⟨_, hs.1, hs.2, hf.idle, hf.token, assume_responsible⟩
  | createImport request | publishDueEvents | recoverStaleClaims | recoverStaleImports n =>
    cases hl
    exact launch_idle rfl hi hf

/-- A process is killed. -/
theorem abort_step (hi : C.Inv (w, g)) (ha : Setting.Alive p t (w, g)) :
    C.Inv (w.abort p t, g.release p) ∧ C.Guar p t none (w, g) (w.abort p t, g.release p) ∧
      C.Done p (w.abort p t, g.release p) := by
  have hidle := Database.idle_rollback w.db p
  have hdb : (w.abort p t).db = w.db.rollback p := by cases t <;> rfl
  have hs := quiet_step (C := C) (p := p) (t := t) (l := none) (w.abort p t) (g.release p) hi
    (hdb ▸ Database.own_rollback hi.wf) ghostStep_release (fun _ _ => .inl)
    (fun htr => ?_) (fun _ => .inl) fun s r e => by cases e
  · exact ⟨hs.1, hs.2, hdb ▸ hidle, fun _ => release_responsible⟩
  · -- the message goes back to the queue
    have hd := (hi.dispatched htr).rollback (p := p) hi.wf
    cases t with
    | processImport message hostname =>
      refine (hd.push message).release hidle.jobs.lock fun r hr hp hresp => .inl ?_
      exact ⟨message, List.mem_append_right _ List.mem_cons_self, Option.some.inj (ha _ hresp)⟩
    | createImport _ | publishDueEvents | recoverStaleClaims | recoverStaleImports _ =>
      exact hd.release hidle.jobs.lock fun r hr hp hresp => nomatch (ha _ hresp)

/-- The environment moves. -/
theorem tick_step {a : EnvAction} {w' : World} (ht : w.tick a = some w') (hi : C.Inv (w, g)) :
    C.Inv (w', g) ∧ w'.db = w.db := by
  have hown := Database.own_refl (s := 0) hi.wf
  cases a with
  | advance microseconds =>
    obtain ⟨time, -, rfl⟩ := World.tick_advance.1 ht
    exact ⟨(quiet_step (C := C) (p := 0) (t := .publishDueEvents) (l := none)
      { w with time } g hi hown (ghostStep_refl _ _ _) (fun _ _ => .inl)
      (fun htr => ⟨(hi.dispatched htr).carried, (hi.dispatched htr).covered⟩) (fun _ => .inl)
      fun s r e => by cases e).1, rfl⟩
  | duplicate message =>
    simp only [World.tick, Option.ite_none_right_eq_some, Option.some.injEq] at ht
    obtain ⟨-, rfl⟩ := ht
    exact ⟨(quiet_step (C := C) (p := 0) (t := .publishDueEvents) (l := none) (w.push message) g hi
      hown (ghostStep_refl _ _ _) (fun _ _ => .inl) (fun htr => (hi.dispatched htr).push message)
      (fun _ => .inl) fun s r e => by cases e).1, rfl⟩

end

/-- The outline of the service. -/
def Setting.outline (C : Setting) : Outline (service C.env) C.protocol C.Admits where
  fresh := Setting.Fresh
  local_ := Setting.Alive
  post p t _ := fun x => IdleAt p x ∧ (C.track → ∀ i, t.subject = some i →
    x.2.responsible p = none)
  gone := C.Done
  exec hok hp he := ⟨_, he, hok _ _ _ _ _ hp he⟩
  fresh_other h ho := stable_fresh _ _ ho h
  gone_other h ho := stable_done _ _ ho h
  local_other {p t x y} h ho i hr := by
    obtain ⟨-, -, -, role, u, now, subject, hu, -, -, hg⟩ := other_cases ho
    exact h i ((hg.responsible p (Ne.symm hu)).symm.trans hr)
  local_guar h _ _ hg i hr := (hg.ghost.own i hr).elim (h i) id
  spawn _ hl hi hf :=
    have ⟨g', h1, h2, h3⟩ := launch_step hl hi hf
    ⟨g', h1, h2, fun i hr => h3.2.2.symm.trans hr, fun _ hy =>
      taskProgram_spec _ _ _ (stable_start.rely hy h3)⟩
  finish {c p t r g} _ hi ha hp :=
    have ⟨h1, h2⟩ := idle_step hi rfl
    ⟨g, h1, h2, hp.1, fun htr => by
      cases hr : g.responsible p with
      | none => rfl
      | some i => exact hr.symm.trans (hp.2 htr i (ha i hr))⟩
  crash _ hi ha := ⟨_, abort_step hi ha⟩
  env _ ht hi :=
    have ⟨h1, h2⟩ := tick_step ht hi
    ⟨_, h1, h2, rfl⟩

end ShipmentImport

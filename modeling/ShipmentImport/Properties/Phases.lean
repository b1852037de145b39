import ShipmentImport.Properties.Dispatch
import ShipmentImport.Properties.Passes

/-!
# Phases

Runs in which processes are killed, until none is left, and runs in which one process runs at a
time, to its end. Between them no process runs, so what a task returns when it is alone says what
the next state is.
-/

namespace ShipmentImport

/-- No process runs. -/
def State.Quiet (c : State) : Prop := ∀ p, c.proc p = none

/-- Processes are killed. -/
def Kills (_ : State) : Event → Prop
  | .crash _ => True
  | _ => False

/-- What is committed. -/
def World.committed (w : World) : Seen :=
  ⟨w.db.importJobs.rows, w.db.importDispatchOutbox.rows, w.queue, w.time⟩

theorem World.seen_eq {w : World} {p : Nat} (h : w.db.Idle p) : w.seen p = w.committed := by
  rw [World.seen, Database.seen, Table.view_eq _ _ h.jobs.staged, Table.view_eq _ _ h.outbox.staged]
  rfl

section
variable {env : Env} {c c₁ c₂ : State} {ok : State → Event → Prop} {down : Bool} {t : Task}

/-- Where no process runs, no session has an open transaction. -/
theorem Reachable.idle (h : Reachable env c) {p : Nat} (hp : c.proc p = none) :
    c.world.db.Idle p := by
  obtain ⟨g, hg⟩ := h.holds
  by_cases hlt : p < c.procs.length
  · exact (hg.gone p hlt hp).1
  · exact (hg.fresh p (Nat.le_of_not_lt hlt)).idle

theorem Reachable.alone (h : Reachable env c) {p : Nat} (hp : ∀ q, q ≠ p → c.proc q = none) :
    c.world.Alone p := by
  obtain ⟨g, hg⟩ := h.inv
  exact ⟨⟨hg.wf, fun u hu => h.idle (hp u hu)⟩, h.now_le p⟩

/-- A run to a state with no process. -/
structure State.LeadsTo (env : Env) (ok : State → Event → Prop) (c c' : State) : Prop where
  run : (service env).Run ok c c'
  quiet : c'.Quiet

theorem State.LeadsTo.refl (hq : c.Quiet) : c.LeadsTo env ok c := ⟨.refl, hq⟩

theorem State.LeadsTo.trans (h : c.LeadsTo env ok c₁) (h' : c₁.LeadsTo env ok c₂) :
    c.LeadsTo env ok c₂ :=
  ⟨h.run.trans h'.run, h'.quiet⟩

theorem State.LeadsTo.reachable (h : c.LeadsTo env ok c₁) (hc : Reachable env c) :
    Reachable env c₁ :=
  hc.trans (h.run.mono fun _ _ _ => trivial)

/-- Time passes. -/
theorem State.Quiet.advance (env : Env) (hq : c.Quiet) (hok : ∀ c n, ok c (.env (.advance n)))
    {now : Time} (hle : c.world.time ≤ now) :
    ∃ c', c.LeadsTo env ok c' ∧ c'.world = { c.world with time := now } := by
  have hn : (service env).next c (.env (.advance (now.1 - c.world.time.1))) =
      some { c with world := { c.world with time := now } } := by
    have htick : c.world.tick (.advance (now.1 - c.world.time.1)) =
        some { c.world with time := now } :=
      World.tick_advance.2 ⟨now, (Nat.add_sub_cancel' hle).symm, rfl⟩
    simp only [Machine.next, service, htick, Option.map_some]
  exact ⟨_, ⟨.single ⟨_, hok _ _, hn⟩, hq⟩, rfl⟩

/-- Task `t` may start when no process runs, and goes on then. -/
structure State.Permits (ok : State → Event → Prop) (down : Bool) (t : Task) : Prop where
  spawn : ∀ c, c.Quiet → ok c (.spawn t)
  step : ∀ c p s, ok c (.step p (Stmt.choice down s))
  finish : ∀ c p, ok c (.finish p)

/-- The first process after a quiet state. -/
theorem State.Quiet.spawns (env : Env) (hq : c.Quiet)
    (hl : c.world.launch t = some c.world) :
    ∃ d : State, (service env).next c (.spawn t) = some d ∧ d.world = c.world ∧
      ∀ q, d.proc q = if q = c.procs.length then some (t, taskProgram env c.procs.length t)
        else none := by
  refine ⟨{ c with procs := c.procs ++ [some (t, taskProgram env c.procs.length t)] }, ?_, rfl,
    fun q => ?_⟩
  · simp only [Machine.next, service, hl, Option.map_some]
  · exact Eq.trans (Machine.proc_append q) (by rw [hq q])

/-- What a task does first when it is alone. -/
theorem Reachable.starts (h : Reachable env c) (hq : c.Quiet) (hok : State.Permits ok down t)
    (hl : c.world.launch t = some c.world) {α : Type} {x : Py α} {f : α → Py TaskResult}
    (hbody : taskProgram env c.procs.length t = Prog.bind x f) {N : α → World → Prop}
    (hx : Py.Returns env down c.procs.length t
      (fun w => w.seen c.procs.length = c.world.committed) x N) :
    ∃ c' a, (service env).Run ok c c' ∧ N a c'.world ∧
      ∀ q, c'.proc q = if q = c.procs.length then some (t, f a) else none := by
  obtain ⟨d, hn, hw, hproc⟩ := hq.spawns env hl
  have halone := h.alone (p := c.procs.length) fun q _ => hq q
  have hseen := World.seen_eq (h.idle (hq c.procs.length))
  rw [← hw] at halone hseen
  obtain ⟨τ, a, w', he, -, hN⟩ := hx d.world halone (hw ▸ hseen)
  obtain ⟨c', hr, hw', hp, hothers⟩ := Machine.run_of_ends (M := service env) ok (hok.step · _) he
    (c := d) (f := f) (by rw [hproc, if_pos rfl, hbody]) rfl
  refine ⟨c', a, .head ⟨_, hok.spawn c hq, hn⟩ hr, hw' ▸ hN, fun q => ?_⟩
  split
  · next hq => rw [hq, hp]
  · next hne => rw [hothers q hne, hproc, if_neg hne]

/-- A pass of a task that takes no message. -/
theorem Reachable.pass (h : Reachable env c) (hq : c.Quiet) (hok : State.Permits ok down t)
    (hl : c.world.launch t = some c.world) {N : Seen → Prop} (hpass : ∀ p, Py.Returns env down p t
      (fun w => w.seen p = c.world.committed) (taskProgram env p t) fun _ w => N (w.seen p)) :
    ∃ c', c.LeadsTo env ok c' ∧ N c'.world.committed := by
  obtain ⟨d, a, hr, hN, hproc⟩ := h.starts hq hok hl (Prog.bind_ret _).symm (hpass _)
  have hp : d.proc c.procs.length = some (t, Prog.ended (.ok a)) := by
    rw [hproc, if_pos rfl]
    rfl
  have hn := Machine.next_finish (M := service env) hp
  have hquiet : ∀ q, Config.proc { d with
      procs := d.procs.set c.procs.length none
      finished := (c.procs.length, t, .ok a) :: d.finished } q = none := by
    intro q
    refine (Outline.proc_set hp none q d.world _).trans ?_
    rw [hproc]
    split <;> rfl
  have hc' := State.LeadsTo.mk (hr.tail ⟨_, hok.finish d _, hn⟩) hquiet
  refine ⟨_, hc', ?_⟩
  have hseen := World.seen_eq ((hc'.reachable h).idle (hc'.quiet c.procs.length))
  exact hseen ▸ hN

/-! ## Processes are killed -/

/-- What is left when processes are killed: the committed rows, the clock and the dispatches. -/
structure State.Survives (c c' : State) : Prop where
  rows : Database.SameRows c.world.db c'.world.db
  time : c'.world.time = c.world.time
  dispatch : ∀ i, LiveDispatch c i → LiveDispatch c' i

theorem State.Survives.trans (h : c.Survives c₁) (h' : c₁.Survives c₂) : c.Survives c₂ where
  rows := ⟨h'.rows.jobs.trans h.rows.jobs, h'.rows.outbox.trans h.rows.outbox,
    h'.rows.shipments.trans h.rows.shipments, h'.rows.errors.trans h.rows.errors⟩
  time := h'.time.trans h.time
  dispatch i hi := h'.dispatch i (h.dispatch i hi)

variable (env) in
/-- A process that is killed gives back its message. -/
theorem crash_dispatch {p : Nat} {x : Task × Py TaskResult} (hx : c.proc p = some x) :
    ∃ c' : State, (service env).next c (.crash p) = some c' ∧
      (∀ q, c'.proc q = if q = p then none else c.proc q) ∧
      c'.procs.length = c.procs.length ∧ c.Survives c' := by
  obtain ⟨t, x⟩ := x
  let c' : State := { c with world := c.world.abort p t, procs := c.procs.set p none }
  have hproc : ∀ q, c'.proc q = if q = p then none else c.proc q :=
    fun q => Outline.proc_set hx none q _ _
  have hdb : c'.world.db = c.world.db.rollback p := by
    show (c.world.abort p t).db = _
    cases t <;> rfl
  have hqueue : c.world.queue ⊆ c'.world.queue ∧
      ∀ i, t.subject = some i → ∃ message ∈ c'.world.queue, message.importId = i := by
    show c.world.queue ⊆ (c.world.abort p t).queue ∧ _
    cases t with
    | processImport message hostname =>
      refine ⟨List.subset_append_left _ _, fun i hi => ⟨message, ?_, Option.some.inj hi⟩⟩
      exact List.mem_append_right _ List.mem_cons_self
    | createImport | publishDueEvents | recoverStaleClaims | recoverStaleImports =>
      exact ⟨List.Subset.refl _, fun i hi => nomatch hi⟩
  have htime : c'.world.time = c.world.time := by
    show (c.world.abort p t).time = _
    cases t <;> rfl
  refine ⟨c', by simp only [Machine.next, hx]; rfl, hproc, List.length_set,
    by rw [hdb]; exact ⟨rfl, rfl, rfl, rfl⟩, htime, fun i => ?_⟩
  rintro (⟨o, ho, hi, hs⟩ | ⟨message, hm, hi⟩ | ⟨q, u, y, hy, hi⟩)
  · exact .inl ⟨o, by rw [hdb]; exact ho, hi, hs⟩
  · exact .inr (.inl ⟨message, hqueue.1 hm, hi⟩)
  · by_cases hq : q = p
    · subst hq
      rw [hx] at hy
      cases hy
      exact .inr (.inl (hqueue.2 i hi))
    · exact .inr (.inr ⟨q, u, y, by rw [hproc, if_neg hq]; exact hy, hi⟩)

variable (env c) in
/-- Killing all processes changes no committed row, and leaves every import a dispatch that has
one. -/
theorem exists_kills : ∃ c' : State, (service env).Run Kills c c' ∧ c'.Quiet ∧ c.Survives c' := by
  suffices hkills : ∀ n, ∃ c' : State, (service env).Run Kills c c' ∧
      (∀ p < n, c'.proc p = none) ∧ c'.procs.length = c.procs.length ∧ c.Survives c' by
    obtain ⟨c', hr, hnone, hlen, hsurvives⟩ := hkills c.procs.length
    refine ⟨c', hr, fun p => ?_, hsurvives⟩
    by_cases hp : p < c.procs.length
    · exact hnone p hp
    · simp [Config.proc, List.getElem?_eq_none (Nat.le_of_not_lt (hlen ▸ hp))]
  intro n
  induction n with
  | zero =>
    exact ⟨c, .refl, fun _ h => absurd h (Nat.not_lt_zero _), rfl, .refl _, rfl, fun _ h => h⟩
  | succ n ih =>
    obtain ⟨d, hr, hnone, hlen, hsurvives⟩ := ih
    cases hx : d.proc n with
    | none =>
      refine ⟨d, hr, fun p hp => ?_, hlen, hsurvives⟩
      rcases Nat.lt_succ_iff_lt_or_eq.1 hp with hp | rfl
      · exact hnone p hp
      · exact hx
    | some x =>
      obtain ⟨d', hn, hproc, hlen', hsurvives'⟩ := crash_dispatch env hx
      refine ⟨d', hr.tail ⟨.crash n, trivial, hn⟩, fun p hp => ?_, hlen'.trans hlen,
        hsurvives.trans hsurvives'⟩
      rw [hproc]
      split
      · rfl
      · next hne => exact hnone p (Nat.lt_of_le_of_ne (Nat.le_of_lt_succ hp) hne)

end

end ShipmentImport

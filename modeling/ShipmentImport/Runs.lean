import ShipmentImport.Imports.StoredShipments
import ShipmentImport.Refinement.Soundness

/-!
# What holds along runs

The outline of the service, read off for its runs: what holds of every reachable state, and what
each step does to the committed rows. The end of the module has an environment and the runs in it
that the examples of later modules use.
-/

namespace ShipmentImport

/-- Who takes a step: the process and its task. -/
def State.actor (c : State) : Event → Option (Nat × Task)
  | .step p _ => (c.proc p).map fun x => (p, x.1)
  | _ => none

/-- Runs about which nothing is assumed. -/
def Setting.any (env : Env) : Setting := ⟨env, False, False, none⟩

theorem Setting.holds_initial (C : Setting) (hf : C.frozen = none) :
    C.outline.Holds State.initial Ghost.initial := by
  refine Outline.holds_init _ ?_ fun p => ?_
  · exact
      { wf := Database.wf_empty
        slices := fun i => ⟨fun _ => ⟨rfl, rfl⟩, fun _ h => (nomatch h), fun _ h => (nomatch h),
          fun _ h => (nomatch h), fun _ h => (nomatch h), fun _ h => (nomatch h)⟩
        intents := fun i => ⟨fun _ => rfl, fun _ h => (nomatch h), fun _ h => (nomatch h),
          fun _ h => (nomatch h)⟩
        outbox := ⟨fun _ h => (nomatch h), fun _ _ h => (nomatch h), fun _ h => (nomatch h),
          fun _ h => (nomatch h)⟩
        dispatched := fun _ => ⟨fun _ h => (nomatch h), fun _ h => (nomatch h)⟩
        frozen := fun fz h => by rw [hf] at h; cases h
        sealed := fun fz h => by rw [hf] at h; cases h }
  · exact ⟨Database.idle_empty p, rfl, fun i ⟨_, h, _⟩ => (nomatch h), fun i r h => nomatch h⟩

theorem Setting.admits_any {env : Env} (c : State) (a : Event) : (Setting.any env).Admits c a := by
  cases a with
  | step p ch => exact fun _ _ _ _ _ _ _ => ⟨fun h => h.elim, fun h => h.elim, fun _ h => nomatch h⟩
  | _ => trivial

section
variable {env : Env} {c c' : State}

/-- The outline holds in every reachable state. -/
theorem Reachable.holds (h : Reachable env c) :
    ∃ g, (Setting.any env).outline.Holds c g :=
  Outline.sound _ ((Setting.any env).holds_initial rfl)
    (Machine.Run.mono (fun c a _ => Setting.admits_any c a) h)

theorem Reachable.inv (h : Reachable env c) : ∃ g, (Setting.any env).Inv (c.world, g) :=
  have ⟨g, hg⟩ := h.holds
  ⟨g, hg.inv⟩

theorem Reachable.slice_ok (h : Reachable env c) (i : ImportId) : (c.world.db.slice i).Ok env :=
  have ⟨_, hg⟩ := h.inv
  hg.slices i

/-- What the committed rows hold of the import of a job. -/
theorem Reachable.slice_job (h : Reachable env c) {r : Version ImportJob}
    (hr : r ∈ c.world.db.importJobs.rows) : (c.world.db.slice r.id).job = some r :=
  have ⟨_, hg⟩ := h.inv
  (Database.job_eq_some hg.wf).2 ⟨hr, rfl⟩

/-- A step runs a statement, or at most rolls back the transaction of a process. -/
theorem next_cases {a : Event} (hn : (service env).next c a = some c') :
    (∃ p ch t s k r, a = .step p ch ∧ c.proc p = some (t, .stmt s k) ∧
      World.exec env p t s ch c.world = some (r, c'.world)) ∨
    ((∀ p ch, a ≠ .step p ch) ∧ c.world.time ≤ c'.world.time ∧
      (c'.world.db = c.world.db ∨ ∃ p, c'.world.db = c.world.db.rollback p)) := by
  cases a with
  | step p ch =>
    simp only [Machine.next] at hn
    split at hn
    · next t s k hp =>
      obtain ⟨⟨r, w⟩, hx, rfl⟩ := Option.map_eq_some_iff.1 hn
      exact .inl ⟨p, ch, t, s, k, r, rfl, hp, hx⟩
    · cases hn
  | spawn t =>
    obtain ⟨w, hl, rfl⟩ := Option.map_eq_some_iff.1 hn
    refine .inr ⟨by simp, ?_⟩
    cases t with
    | processImport message hostname =>
      simp only [service, World.launch, Option.ite_none_right_eq_some, Option.some.injEq] at hl
      rw [← hl.2]
      exact ⟨Nat.le_refl _, .inl rfl⟩
    | createImport | publishDueEvents | recoverStaleClaims | recoverStaleImports =>
      cases hl
      exact ⟨Nat.le_refl _, .inl rfl⟩
  | finish p =>
    simp only [Machine.next] at hn
    refine .inr ⟨by simp, ?_⟩
    split at hn <;> cases hn <;> exact ⟨Nat.le_refl _, .inl rfl⟩
  | crash p =>
    simp only [Machine.next] at hn
    refine .inr ⟨by simp, ?_⟩
    split at hn
    · next t x hp =>
      cases hn
      cases t <;> exact ⟨Nat.le_refl _, .inr ⟨p, rfl⟩⟩
    · cases hn
  | env e =>
    obtain ⟨w, hl, rfl⟩ := Option.map_eq_some_iff.1 hn
    refine .inr ⟨by simp, ?_⟩
    cases e with
    | advance microseconds =>
      obtain ⟨time, htime, rfl⟩ := World.tick_advance.1 hl
      exact ⟨(Nat.le_add_right _ _).trans htime.ge, .inl rfl⟩
    | duplicate message =>
      simp only [service, World.tick, Option.ite_none_right_eq_some, Option.some.injEq] at hl
      rw [← hl.2]
      exact ⟨Nat.le_refl _, .inl rfl⟩

/-- A step of the database is a statement, or the end of a killed process. -/
theorem next_db {a : Event} (hn : (service env).next c a = some c') :
    (∃ p ch t s k r, a = .step p ch ∧ c.proc p = some (t, .stmt s k) ∧
      World.exec env p t s ch c.world = some (r, c'.world)) ∨
    (∃ p, a = .crash p ∧ c'.proc p = none ∧ c'.world.db = c.world.db.rollback p) ∨
    c'.world.db = c.world.db := by
  cases a with
  | step p ch =>
    rcases next_cases hn with h | ⟨ha, -⟩
    · exact .inl h
    · exact absurd rfl (ha p ch)
  | spawn t =>
    obtain ⟨w, hl, rfl⟩ := Option.map_eq_some_iff.1 hn
    cases t with
    | processImport message hostname =>
      simp only [service, World.launch, Option.ite_none_right_eq_some, Option.some.injEq] at hl
      rw [← hl.2]
      exact .inr (.inr rfl)
    | createImport | publishDueEvents | recoverStaleClaims | recoverStaleImports =>
      cases hl
      exact .inr (.inr rfl)
  | finish p =>
    simp only [Machine.next] at hn
    split at hn <;> cases hn <;> exact .inr (.inr rfl)
  | crash p =>
    simp only [Machine.next] at hn
    split at hn
    · next t x hp =>
      cases hn
      refine .inr (.inl ⟨p, rfl, ?_, ?_⟩)
      · simp [Config.proc, Outline.proc_lt hp]
      · cases t <;> rfl
    · cases hn
  | env e =>
    obtain ⟨w, hl, rfl⟩ := Option.map_eq_some_iff.1 hn
    cases e with
    | advance microseconds =>
      obtain ⟨time, -, rfl⟩ := World.tick_advance.1 hl
      exact .inr (.inr rfl)
    | duplicate message =>
      simp only [service, World.tick, Option.ite_none_right_eq_some, Option.some.injEq] at hl
      rw [← hl.2]
      exact .inr (.inr rfl)

/-- Only statements change committed rows. -/
theorem next_rows {a : Event} (hn : (service env).next c a = some c')
    (ha : ∀ p ch, a ≠ .step p ch) : Database.SameRows c.world.db c'.world.db := by
  rcases next_cases hn with ⟨p, ch, _, _, _, _, rfl, _⟩ | ⟨-, -, e | ⟨p, e⟩⟩
  · exact absurd rfl (ha p ch)
  · rw [e]
    exact .refl _
  · rw [e]
    exact ⟨rfl, rfl, rfl, rfl⟩

/-- A step of the service: a statement that keeps the protocol, or no committed row changes. -/
theorem moves_cases {C : Setting} (he : C.env = env) {a : Event} {g g' : Ghost}
    (hn : (service env).next c a = some c')
    (hm : Outline.Moves (service C.env) C.protocol c (c.world, g) (c'.world, g') a) :
    (c.actor a = none ∧ Database.SameRows c.world.db c'.world.db) ∨
      ∃ p ch t s k r, a = .step p ch ∧ c.proc p = some (t, .stmt s k) ∧ c.actor a = some (p, t) ∧
        World.exec env p t s ch c.world = some (r, c'.world) ∧
        C.Guar p t (some ⟨s, r⟩) (c.world, g) (c'.world, g') := by
  subst he
  cases a with
  | step p ch =>
    obtain ⟨t, s, k, r, hp, hx, hg⟩ := hm
    exact .inr ⟨p, ch, t, s, k, r, rfl, hp, by simp [State.actor, hp], hx, hg⟩
  | spawn | finish | crash | env => exact .inl ⟨rfl, next_rows hn fun _ _ h => nomatch h⟩

/-- What a step from a reachable state is. -/
theorem Reachable.moves (h : Reachable env c) {a : Event} (hn : (service env).next c a = some c') :
    (c.actor a = none ∧ Database.SameRows c.world.db c'.world.db) ∨
      ∃ p ch t s k r g g', a = .step p ch ∧ c.proc p = some (t, .stmt s k) ∧
        c.actor a = some (p, t) ∧ World.exec env p t s ch c.world = some (r, c'.world) ∧
        (Setting.any env).Inv (c.world, g) ∧
        (Setting.any env).Guar p t (some ⟨s, r⟩) (c.world, g) (c'.world, g') := by
  obtain ⟨g, hg⟩ := h.holds
  obtain ⟨g', -, hm⟩ := hg.next (Setting.admits_any c a) hn
  rcases moves_cases (C := Setting.any env) rfl hn hm with
    hq | ⟨p, ch, t, s, k, r, ha, hp, hact, hx, hguar⟩
  · exact .inl hq
  · exact .inr ⟨p, ch, t, s, k, r, g, g', ha, hp, hact, hx, hg.inv, hguar⟩

theorem Reachable.next (h : Reachable env c) {a : Event} (hn : (service env).next c a = some c') :
    Reachable env c' :=
  .tail h ⟨a, trivial, hn⟩

/-- What a step does to one import. -/
theorem Reachable.next_slice (h : Reachable env c) {a : Event}
    (hn : (service env).next c a = some c') (i : ImportId) :
    c'.world.db.slice i = c.world.db.slice i ∨ ∃ p t now, c.actor a = some (p, t) ∧
      Slice.Step env t.role p now (c.world.db.slice i) (c'.world.db.slice i) := by
  rcases h.moves hn with ⟨-, hs⟩ | ⟨p, ch, t, s, k, r, g, g', -, -, hact, -, -, hg⟩
  · exact .inl (hs.slice i)
  · exact .inr ⟨p, t, _, hact, hg.steps i⟩

/-- What a step does to one event. -/
theorem Reachable.next_event (h : Reachable env c) {a : Event}
    (hn : (service env).next c a = some c') (k : Nat) :
    c'.world.db.event k = c.world.db.event k ∨ ∃ p t sent, c.actor a = some (p, t) ∧
      OutboxStep env.settings sent t.role p (c.world.db.event k) (c'.world.db.event k) := by
  rcases h.moves hn with ⟨-, hs⟩ | ⟨p, ch, t, s, k', r, g, g', -, -, hact, -, -, hg⟩
  · exact .inl (by simp only [Database.event, hs.outbox])
  · exact .inr ⟨p, t, _, hact, hg.events k⟩

end

section
variable {env : Env} {w w' : World} {p : Nat}

/-! ## What a statement does to the database and the clock -/

/-- What a statement of session `p` does to the database. -/
inductive Touches (env : Env) (p : Nat) (w : World) : Stmt → Database → Prop
  | query {q : Query} {r : Except Fault q.Reply} {d : Database}
      (h : (w.db.begin p w.time).exec env.server w.time p q = some (r, d)) :
      Touches env p w (.query q) d
  | commit : Touches env p w .commit (w.db.commit p)
  | rollback {s : Stmt} : Touches env p w s (w.db.rollback p)
  | other {s : Stmt} (n : Nat) : Touches env p w s { w.db with issued := n }

theorem perform_touches {t : Task} {s : Stmt} {r : Except Exc s.Reply}
    (h : w.perform env p t s = some (r, w')) : w'.time = w.time ∧ Touches env p w s w'.db := by
  cases s with
  | query q =>
    obtain ⟨x, hx, he⟩ := Option.map_eq_some_iff.1 h
    cases he
    exact ⟨rfl, .query hx⟩
  | commit => cases h; exact ⟨rfl, .commit⟩
  | rollback | close => cases h; exact ⟨rfl, .rollback⟩
  | uuid4 => cases h; exact ⟨rfl, .other _⟩
  | selfRetry exc maxRetries =>
    simp only [World.perform] at h
    split at h
    · split at h <;> cases h <;> exact ⟨rfl, .other _⟩
    · cases h
  | replaceFile source target | readSignature path =>
    simp only [World.perform] at h
    split at h <;> cases h <;> exact ⟨rfl, .other _⟩
  | spin => cases h
  | clock | dispatchImport | loadWorkbook | readRows | makeUploadDir | createFile | readUpload
  | writeFile | deleteFile => cases h; exact ⟨rfl, .other _⟩

/-- A statement does not change the time, and touches the database in one of these ways. -/
theorem exec_touches {t : Task} {s : Stmt} {ch : Choice} {r : Except Exc s.Reply}
    (h : World.exec env p t s ch w = some (r, w')) :
    w'.time = w.time ∧ Touches env p w s w'.db := by
  cases ch with
  | run => exact perform_touches h
  | fail f =>
    simp only [World.exec] at h
    split at h <;> cases h
    exact ⟨rfl, .other _⟩
  | lost f =>
    cases s with
    | commit | dispatchImport =>
      simp only [World.exec] at h
      split at h
      · obtain ⟨x, hx, he⟩ := Option.map_eq_some_iff.1 h
        cases he
        exact perform_touches hx
      · cases h
    | _ => cases h

/-- Time does not go back. -/
theorem next_time {c c' : State} {a : Event} (hn : (service env).next c a = some c') :
    c.world.time ≤ c'.world.time := by
  rcases next_cases hn with ⟨p, ch, t, s, k, r, -, -, hx⟩ | ⟨-, ht, -⟩
  · exact (exec_touches hx).1.ge
  · exact ht

namespace Touches

variable {s : Stmt} {d : Database}

/-- Only a commit changes committed rows. -/
theorem rows (h : Touches env p w s d) (hw : w.db.Wf) :
    (s = .commit ∧ d = w.db.commit p) ∨ Database.SameRows w.db d := by
  cases h with
  | query hx =>
    have hb := Database.own_begin (s := p) hw w.time
    exact .inr (hb.trans (Database.exec_own hb.wf hx)).rows
  | commit => exact .inl ⟨rfl, rfl⟩
  | rollback => exact .inr (Database.own_rollback hw).rows
  | other n => exact .inr ⟨rfl, rfl, rfl, rfl⟩

/-- When the transaction of `p` began stays the same, or it ends, or it begins now. -/
theorem began (h : Touches env p w s d) :
    d.began p = w.db.began p ∨ d.began p = none ∨ d.began p = some (w.db.now p w.time) := by
  cases h with
  | query hx =>
    refine .inr (.inr ?_)
    rw [Database.exec_began hx]
    exact Function.update_self _ _ _
  | commit | rollback => exact .inr (.inl (Function.update_self _ _ _))
  | other n => exact .inl rfl

/-- Only inserts make index entries. -/
theorem entry (h : Touches env p w s d) (hs : ∀ q, s ≠ .query q) {k : String}
    (hk : d.shipments.entry k = some p) : w.db.shipments.entry k = some p := by
  cases h with
  | query hx => exact absurd rfl (hs _)
  | commit => exact absurd hk ((Database.idle_commit w.db p).shipments.entry k)
  | rollback => exact absurd hk ((Database.idle_rollback w.db p).shipments.entry k)
  | other n => exact hk

/-- The sessions of the others stay as they are. -/
theorem keeps (h : Touches env p w s d) (hw : w.db.Wf) {u : Nat} (hu : u ≠ p) :
    Database.Keeps u w.db d := by
  cases h with
  | query hx =>
    have hb := Database.own_begin (s := p) hw w.time
    exact (hb.trans (Database.exec_own hb.wf hx)).keeps u hu
  | commit => exact Database.keeps_commit hw hu
  | rollback => exact (Database.own_rollback hw).keeps u hu
  | other n => exact ⟨.refl u _, .refl u _, .refl u _, .refl u _, fun _ => .rfl, rfl⟩

end Touches

end

/-! ## The beginning of a transaction -/

section
variable {env : Env} {c c' : State}

/-- When the transaction of `p` began stays the same, or it ends, or it begins now. -/
theorem Reachable.next_began (h : Reachable env c) {a : Event}
    (hn : (service env).next c a = some c') (p : Nat) :
    c'.world.db.began p = c.world.db.began p ∨ c'.world.db.began p = none ∨
      c'.world.db.began p = some (c.world.db.now p c.world.time) := by
  rcases next_cases hn with ⟨q, ch, t, s, k, r, -, -, hx⟩ | ⟨-, -, e | ⟨q, e⟩⟩
  · by_cases hq : p = q
    · subst hq
      exact (exec_touches hx).2.began
    · obtain ⟨g, hg⟩ := h.inv
      exact .inl (((exec_touches hx).2.keeps hg.wf hq).began)
  · exact .inl (by rw [e])
  · rw [e]
    by_cases hq : p = q
    · subst hq
      exact .inr (.inl (Function.update_self _ _ _))
    · exact .inl (Function.update_of_ne hq _ _)

/-- A transaction did not begin in the future. -/
theorem Reachable.began_le (h : Reachable env c) (p : Nat) :
    ∀ b, c.world.db.began p = some b → b ≤ c.world.time := by
  induction h with
  | refl => exact fun _ hb => nomatch hb
  | @tail d d' hr hs ih =>
    obtain ⟨a, -, hn⟩ := hs
    intro b hb
    rcases Reachable.next_began hr hn p with e | e | e <;> rw [e] at hb
    · exact (ih b hb).trans (next_time hn)
    · cases hb
    · cases hb
      refine le_trans ?_ (next_time hn)
      cases hd : d.world.db.began p with
      | none => exact (congrArg (Option.getD · d.world.time) hd).le
      | some b' => exact (congrArg (Option.getD · d.world.time) hd).le.trans (ih b' hd)

theorem Reachable.now_le (h : Reachable env c) (p : Nat) :
    c.world.db.now p c.world.time ≤ c.world.time := by
  rw [Database.now]
  cases hb : c.world.db.began p with
  | none => exact le_refl _
  | some b => exact h.began_le p b hb

end

/-! ## Runs for examples -/

/-- A workbook with the columns of a shipment. -/
def exampleWorksheet (rows : List (List PyValue)) : Worksheet :=
  ⟨some (["shipment_code", "customer_name", "origin_city", "destination_city", "weight_kg", "price",
    "status"].map .str), rows⟩

/-- A row for one of the codes. -/
def exampleRow (shipmentCode : String) : List PyValue :=
  [.str shipmentCode, .str "Ann", .str "Rome", .str "Oslo", .int 10000, .int 10000, .str "PENDING"]

/-- The default settings, and workbooks that are found by their path. -/
def exampleEnv (workbook : String → List (List PyValue)) : Env where
  settings := .default
  adapters := plainAdapters
  server := ⟨fun _ => 0, id⟩
  workbook path := .ok (exampleWorksheet (workbook path))
  hex n := toString n
  sha256 _ := ⟨"", by decide⟩
  faultText _ := ""

/-- Every workbook has the one row `S-1`. -/
abbrev oneRowEnv : Env := exampleEnv fun _ => [exampleRow "S-1"]

def fingerprintA : Varchar 64 := ⟨"a", by decide⟩

def fingerprintB : Varchar 64 := ⟨"b", by decide⟩

def exampleRequest (fingerprint : Varchar 64) : CreateRequest :=
  ⟨"a.xlsx", fingerprint.1, 1, none, none, fingerprint.1, by simp, fingerprint.2⟩

/-- `n` statements of process `p`, all of which run. -/
def statements (p n : Nat) : List Event := List.replicate n (.step p .run)

/-- Seconds pass. -/
def wait (seconds : Nat) : Event := .env (.advance (seconds * second))

/-- Process 0 creates an import, process 1 dispatches it. -/
def dispatchedRun : List Event :=
  .spawn (.createImport (exampleRequest fingerprintA)) :: statements 0 7 ++
    .finish 0 :: .spawn .publishDueEvents :: statements 1 9 ++ [.finish 1]

/-- Process 2 executes its message. -/
def completedRun : List Event :=
  dispatchedRun ++ .spawn (.processImport ⟨0, 0⟩ none) :: statements 2 22

/-- What can be computed of the state after a list of events. -/
theorem exists_trace {env : Env} {as : List Event} {P : State → Prop} [DecidablePred P]
    (h : ((service env).trace State.initial as).any (fun c => decide (P c)) = true) :
    ∃ c, (service env).trace State.initial as = some c ∧ P c := by
  obtain ⟨c, hc, hp⟩ := (Option.any_eq_true _ _).1 h
  exact ⟨c, hc, of_decide_eq_true hp⟩

set_option maxRecDepth 100000 in
theorem completedRun_ends : ∃ c,
    (service oneRowEnv).trace State.initial completedRun = some c ∧
    (c.world.db.importJobs.rows.map fun r => (r.id, r.val.status)) = [(0, .completed)] :=
  exists_trace (by decide +kernel)

/-- The worker is killed before it returns, its message is delivered again, and a watchdog runs much
later. -/
def lateEvents : List Event :=
  .crash 2 :: .spawn (.processImport ⟨0, 0⟩ none) :: statements 3 3 ++
    wait 1000 :: .spawn (.recoverStaleImports .schedule) :: statements 4 4

set_option maxRecDepth 100000 in
theorem lateRun_ends : ∃ c c',
    (service oneRowEnv).trace State.initial completedRun = some c ∧
    (service oneRowEnv).trace c lateEvents = some c' ∧
    (c.world.db.slice 0).status = some .completed ∧
    (c'.world.db.slice 0).status = some .completed := by
  have h : ((service oneRowEnv).trace State.initial completedRun).any (fun c =>
      decide ((c.world.db.slice 0).status = some .completed) &&
      ((service oneRowEnv).trace c lateEvents).any fun c' =>
        decide ((c'.world.db.slice 0).status = some .completed)) = true := by
    decide +kernel
  obtain ⟨c, hc, h⟩ := (Option.any_eq_true _ _).1 h
  obtain ⟨h1, h2⟩ := Bool.and_eq_true_iff.1 h
  obtain ⟨c', hc', h3⟩ := (Option.any_eq_true _ _).1 h2
  exact ⟨c, c', hc, hc', of_decide_eq_true h1, of_decide_eq_true h3⟩

end ShipmentImport

import ShipmentImport.Refinement.Effects
import ShipmentImport.System

/-!
# The protocol of the processes

What every process guarantees and relies on (`Setting.protocol`): committed transactions change
each import by a step of its life cycle (`Slice.Step`), and leave the open transactions of the others
alone. The rules for single statements below discharge these obligations once, so that a proof about
a service is about its own assertions.

Two further invariants hold in the runs a `Setting` is about:

* `track`: every PENDING import has a live dispatch (`Dispatched`), in the runs none of whose steps
  is one of those that strand an import (`Strands`). The auxiliary data say which worker still has
  to see to which import, and which claims of outbox events were already passed on to a message.
* `frozen`: the shipment codes of the other imports do not change.
-/

namespace ShipmentImport

def Task.role : Task → Role
  | .createImport _ => .creator
  | .publishDueEvents | .recoverStaleClaims => .publisher
  | .processImport .. => .worker
  | .recoverStaleImports _ => .watchdog

/-- The import whose message a task executes. -/
def Task.subject : Task → Option ImportId
  | .processImport message _ => some message.importId
  | _ => none

/-! ## Live dispatches -/

/-- Auxiliary data: the import each worker is still responsible for, the claims of outbox events
whose dispatch was handed over to a message, who drew which claim token for which event, and the
tokens under which a dispatch call returned. -/
structure Ghost where
  responsible : Nat → Option ImportId
  discharged : List Token
  drawn : Token → Option (Nat × Nat)
  sent : List Token

def Ghost.initial : Ghost := ⟨fun _ => none, [], fun _ => none, []⟩

/-- The event is claimed, and its message may still be to be sent. -/
def Undischarged (g : Ghost) (o : Version ImportDispatchOutbox) : Prop :=
  o.val.status = .processing ∧ ∀ tk, o.val.claimToken = some tk → tk ∉ g.discharged

/-- The outbox row will still be dispatched for import `i`. -/
def Carrier (g : Ghost) (i : ImportId) (o : Version ImportDispatchOutbox) : Prop :=
  o.val.importId = i ∧ (o.val.status = .pending ∨ Undischarged g o)

/-- Something will still dispatch or process import `i`. -/
def Carried (w : World) (g : Ghost) (i : ImportId) : Prop :=
  (∃ m ∈ w.queue, m.importId = i) ∨ (∃ p, g.responsible p = some i) ∨
    ∃ o ∈ w.db.importDispatchOutbox.rows, Carrier g i o

/-- Session `s`, which holds the row of the PENDING import `i`, is itself what will see to it: a
worker, or a publisher whose claim of an event of the import stays when it does not fail
the import. -/
def Covered (w : World) (g : Ghost) (s : Nat) (i : ImportId) : Prop :=
  g.responsible s = some i ∨ ∃ o ∈ w.db.importDispatchOutbox.rows,
    w.db.importDispatchOutbox.Holds s o.id ∧ o.val.importId = i ∧ o.writer = s ∧ Undischarged g o

structure Dispatched (w : World) (g : Ghost) : Prop where
  carried : ∀ r ∈ w.db.importJobs.rows, r.val.status = .pending → Carried w g r.id
  covered : ∀ r ∈ w.db.importJobs.rows, r.val.status = .pending → ∀ s,
    w.db.importJobs.Holds s r.id → Covered w g s r.id

/-- The outbox: every event is consistent, and a claim token belongs to the event and to the session
it was drawn for. -/
structure OutboxOk (settings : Settings) (d : Database) (g : Ghost) : Prop where
  consistent : ∀ o ∈ d.importDispatchOutbox.rows, o.val.Consistent settings
  drawn : ∀ tk x, g.drawn tk = some x → tk < d.issued
  discharged : ∀ tk ∈ g.discharged, ∃ x, g.drawn tk = some x
  claims : ∀ o ∈ d.importDispatchOutbox.rows, ∀ tk, o.val.claimToken = some tk →
    g.drawn tk = some (o.writer, o.id)

/-- The steps after which a PENDING import can be left without a dispatch:

* the claim skips the row of a PENDING import because another session holds a share lock on it;
* a statement of the claim fails with something else than an `OperationalError`;
* the commit of the claim fails;
* the commit of the requeue takes effect and is reported as failed;
* `self.retry` has no retries left while the import is PENDING. -/
def Strands (p : Nat) (t : Task) (w : World) : Stmt → Choice → Prop
  | .query (.lockPendingImport i), .run =>
    (∃ r ∈ w.db.importJobs.rows, r.id = i ∧ r.val.status = .pending) ∧
      (∀ u, w.db.importJobs.Holds u i → u = p) ∧ ∃ u ∈ w.db.importJobs.share i, u ≠ p
  | .query (.lockPendingImport i), .fail f | .query (.claimPendingImport i _ _), .fail f =>
    f ≠ .operationalError ∧ ∃ r ∈ w.db.importJobs.rows, r.id = i ∧ r.val.status = .pending
  | .commit, .fail _ =>
    ∃ r ∈ w.db.importJobs.rows, r.val.status = .pending ∧
      ∃ r' ∈ w.db.importJobs.view p, r'.id = r.id ∧ r'.val.status = .processing
  | .commit, .lost _ =>
    ∃ r ∈ w.db.importJobs.rows, r.val.status = .processing ∧ r.val.processingToken = some p ∧
      ∃ r' ∈ w.db.importJobs.view p, r'.id = r.id ∧ r'.val.status = .pending
  | .selfRetry _ maxRetries, .run =>
    ∃ m hostname, t = .processImport m hostname ∧ m.retries ≥ maxRetries ∧
      ∃ r ∈ w.db.importJobs.rows, r.id = m.importId ∧ r.val.status = .pending
  | _, _ => False

/-- The publisher gives up an import that is PENDING again after a worker had claimed it. -/
def FailsClaimed (w : World) : Stmt → Choice → Prop
  | .query (.failPendingImport i _), .run =>
    ∃ r ∈ w.db.importJobs.rows, r.id = i ∧ r.val.status = .pending ∧ r.val.attemptCount ≠ 0
  | _, _ => False

/-- Not the statement of the exhaustion branch of the stale-claim recovery. -/
def Query.Live : Query → Prop
  | updateClaimedEvent _ _ (.staleFailed _) => False
  | _ => True

def Stmt.Live : Stmt → Prop
  | query q => q.Live
  | _ => True

/-! ## Settings of a proof -/

/-- The rows that `validate` returns for import `i` against `codes`, whatever its chunk size, as the
database holds them, and its counters. -/
structure Slice.Matches (env : Env) (i : ImportId) (codes : List String) (x : Slice)
    (r : Version ImportJob) (worksheet : Worksheet) (result : ValidationResult) : Prop where
  job : x.job = some r
  workbook : env.workbook r.val.storedFilePath = .ok worksheet
  validate : ∀ chunkSize, validate i env.adapters codes chunkSize worksheet = .ok result
  totalRows : r.val.totalRows = result.totalRows
  processedRows : r.val.processedRows = result.processedRows
  successCount : r.val.successCount = result.successCount
  failedCount : r.val.failedCount = result.failedCount
  shipments : List.Forall₂ (fun (s : Shipment) (v : Version Shipment) => s.store = .ok v.val)
    result.shipments x.shipments
  importErrors : x.importErrors.map (·.val) = result.importErrors

/-- The codes of the shipments of all imports but one, fixed from the start of process `since` on.
Cells hold text as `str`, which is what the adapter for `str` accepts. -/
structure Frozen (env : Env) where
  importId : ImportId
  codes : List String
  since : Nat
  plain : ∀ v s, env.adapters.string v = .ok s → v = .str s

namespace Frozen

variable {env : Env}

def At (fz : Frozen env) (d : Database) : Prop :=
  ∀ code, code ∈ fz.codes ↔
    ∃ v ∈ d.shipments.rows, v.val.importId ≠ fz.importId ∧ v.val.shipmentCode = code

/-- The import holds what `validate` returns. -/
def Matched (fz : Frozen env) (x : Slice) : Prop :=
  ∃ r worksheet result, x.Matches env fz.importId fz.codes r worksheet result

/-- The processes from `since` on complete the import with what `validate` returns. -/
def Sealed (fz : Frozen env) (d : Database) : Prop :=
  ∀ r, (d.slice fz.importId).job = some r → r.val.status = .completed → fz.since ≤ r.writer →
    fz.Matched (d.slice fz.importId)

/-- A step from `d` to `d'` that completes the import leaves what `validate` returns. -/
def Seals (fz : Frozen env) (d d' : Database) : Prop :=
  (d'.slice fz.importId).status = some .completed →
    d'.slice fz.importId = d.slice fz.importId ∨ fz.Matched (d'.slice fz.importId)

theorem Sealed.seals {fz : Frozen env} {d d' : Database} (h : fz.Sealed d) (hs : fz.Seals d d') :
    fz.Sealed d' := by
  intro r hr hc hw
  rcases hs (by simp [Slice.status, hr, hc]) with e | hm
  · rw [e] at hr ⊢
    exact h r hr hc hw
  · exact hm

end Frozen

/-- What the runs of a proof are like: none of their steps strands an import (`track`), none gives
up an import that was claimed before (`unclaimed`), the codes of the others are fixed (`frozen`). -/
structure Setting where
  env : Env
  track : Prop
  unclaimed : Prop
  frozen : Option (Frozen env)

namespace Setting

variable (C : Setting)

/-- What the runs assume of a statement of process `p`, which leaves the world `w'`. -/
structure Allows (p : Nat) (t : Task) (w : World) (s : Stmt) (ch : Choice) (w' : World) : Prop where
  strands : C.track → ¬ Strands p t w s ch
  claimed : C.unclaimed → ¬ FailsClaimed w s ch
  frozen : ∀ fz, C.frozen = some fz → fz.At w'.db

structure Inv (x : World × Ghost) : Prop where
  wf : x.1.db.Wf
  slices : ∀ i, (x.1.db.slice i).Ok C.env
  intents : ∀ i, (x.1.db.slice i).IntentsOk (x.1.db.intents i)
  outbox : OutboxOk C.env.settings x.1.db x.2
  dispatched : C.track → Dispatched x.1 x.2
  frozen : ∀ fz, C.frozen = some fz → fz.At x.1.db
  sealed : ∀ fz, C.frozen = some fz → fz.Sealed x.1.db

/-- A change of the auxiliary data by process `p`, which executes a message of import `subject`. -/
structure GhostStep (p : Nat) (subject : Option ImportId) (g g' : Ghost) : Prop where
  responsible : ∀ u, u ≠ p → g'.responsible u = g.responsible u
  own : ∀ i, g'.responsible p = some i → g.responsible p = some i ∨ subject = some i
  kept : ∀ tk ∈ g.discharged, tk ∈ g'.discharged
  added : ∀ tk ∈ g'.discharged, tk ∈ g.discharged ∨ ∃ k, g.drawn tk = some (p, k)
  drawn : ∀ tk x, g.drawn tk = some x → g'.drawn tk = some x
  sent : ∀ tk ∈ g.sent, tk ∈ g'.sent

/-- The process drops an import to FAILED only before the first claim of the import. -/
def GivesUp (x y : Slice) : Prop :=
  ∀ r, x.job = some r → r.val.status = .pending → y.status = some .failed → r.val.attemptCount = 0

structure Guar (p : Nat) (t : Task) (l : Deed Stmt Stmt.Reply Exc) (x y : World × Ghost) :
    Prop where
  keeps : ∀ u, u ≠ p → Database.Keeps u x.1.db y.1.db
  steps : ∀ i, Slice.Step C.env t.role p (x.1.db.now p x.1.time) (x.1.db.slice i) (y.1.db.slice i)
  events : ∀ k, OutboxStep C.env.settings (· ∈ x.2.sent) t.role p (x.1.db.event k) (y.1.db.event k)
  intended : ∀ i, Slice.Intends t.role (x.1.db.slice i) (y.1.db.slice i) →
    y.1.db.intents i = x.1.db.intents i + 1
  unintended : ∀ i, ¬ Slice.Intends t.role (x.1.db.slice i) (y.1.db.slice i) →
    y.1.db.intents i = x.1.db.intents i
  unclaimed : C.unclaimed → ∀ i, GivesUp (x.1.db.slice i) (y.1.db.slice i)
  ghost : GhostStep p t.subject x.2 y.2
  sent : ∀ tk ∈ y.2.sent, tk ∈ x.2.sent ∨ ∃ o ∈ x.1.db.importDispatchOutbox.rows,
    o.val.claimToken = some tk ∧ o.writer = p ∧
      l = some ⟨.dispatchImport o.val.importId, .ok ()⟩
  live : ∀ s r, l = some ⟨s, r⟩ → s.Live

/-- The choices the runs are about. -/
def exec (p : Nat) (t : Task) (s : Stmt) (w : World) (r : Except Exc s.Reply) (w' : World) : Prop :=
  ∃ ch, World.exec C.env p t s ch w = some (r, w') ∧ C.Allows p t w s ch w'

def protocol : Protocol Stmt Stmt.Reply Exc Task World Ghost where
  exec := C.exec
  inv := C.Inv
  guar := C.Guar
  env x y := y.1.db = x.1.db ∧ y.2 = x.2

/-- `A` before, the program of process `p`, `Q` after. -/
abbrev Spec (p : Nat) (t : Task) {α : Type} (A : World × Ghost → Prop) (x : Py α)
    (Q : Except Exc α → World × Ghost → Prop) : Prop :=
  C.protocol.Triple p t A x Q

abbrev Stable (p : Nat) (A : World × Ghost → Prop) : Prop := C.protocol.Stable p A

end Setting

theorem ghostStep_refl (p : Nat) (subject : Option ImportId) (g : Ghost) :
    Setting.GhostStep p subject g g :=
  ⟨fun _ _ => rfl, fun _ h => .inl h, fun _ h => h, fun _ h => .inl h, fun _ _ h => h, fun _ h => h⟩

/-! ## What a process relies on -/

/-- The rows a process changes are its own. -/
theorem OutboxStep.writer {settings : Settings} {sent : Token → Prop} {role : Role} {s k : Nat}
    {d d' : Database} (hw : d.Wf) (hw' : d'.Wf)
    (h : OutboxStep settings sent role s (d.event k) (d'.event k))
    {o : Version ImportDispatchOutbox} (ho : o ∈ d'.importDispatchOutbox.rows) (hk : o.id = k)
    (hn : o.val.claimToken ≠ none) : o ∈ d.importDispatchOutbox.rows ∨ o.writer = s := by
  have he := (Database.event_eq_some hw').2 ⟨ho, hk⟩
  generalize hx : d.event k = x at h
  rw [he] at h
  cases h with
  | stay => exact .inl ((Database.event_eq_some hw).1 hx).1
  | create importId availableAt now hby new => rw [new] at hn; exact absurd rfl hn
  | claim | publish | retry | exhaust | requeue => exact .inr rfl

section stable
variable {C : Setting} {p : Nat}

/-- A step of the others, unfolded. -/
theorem other_cases {x y : World × Ghost} (h : C.protocol.other p x y) :
    C.Inv x ∧ C.Inv y ∧ Database.Keeps p x.1.db y.1.db ∧
      (∃ role u now subject, u ≠ p ∧
        (∀ i, Slice.Step C.env role u now (x.1.db.slice i) (y.1.db.slice i)) ∧
        (∀ o ∈ y.1.db.importDispatchOutbox.rows, o.val.claimToken ≠ none →
          o ∈ x.1.db.importDispatchOutbox.rows ∨ o.writer = u) ∧
        Setting.GhostStep u subject x.2 y.2) := by
  obtain ⟨hx, hy, ⟨u, t, l, hu, hg⟩ | ⟨hd, hgh⟩⟩ := h
  · exact ⟨hx, hy, hg.keeps p (Ne.symm hu), t.role, u, _, _, hu, hg.steps,
      fun o ho => (hg.events o.id).writer hx.wf hy.wf ho rfl, hg.ghost⟩
  · refine ⟨hx, hy, hd ▸ .refl p _, .creator, p + 1, .epoch, none, by omega, fun i => hd ▸ .stay _,
      fun o ho _ => .inl (hd ▸ ho), ?_⟩
    rw [hgh]
    exact ghostStep_refl _ _ _

theorem stable_keeps {A : Database → Prop} (h : ∀ d d', d.Wf → Database.Keeps p d d' → A d → A d') :
    C.Stable p fun x => A x.1.db :=
  fun _ _ ho hx => have ⟨hi, _, hk, _⟩ := other_cases ho; h _ _ hi.wf hk hx

theorem stable_idle : C.Stable p fun x => x.1.db.Idle p :=
  stable_keeps fun _ _ _ hk hi => hk.idle hi

/-- While process `p` has the token of import `i`, the others leave the import alone. -/
theorem stable_own (i : ImportId) (Φ : Slice → Prop) :
    C.Stable p fun x => (x.1.db.slice i).HasToken p → Φ (x.1.db.slice i) := by
  intro x y ho h hy
  obtain ⟨-, -, -, role, u, now, subject, hu, hs, -, -⟩ := other_cases ho
  have e := (hs i).foreign (Ne.symm hu) hy
  rw [← e] at hy ⊢
  exact h hy

theorem stable_responsible (ρ : Option ImportId → Prop) :
    C.Stable p fun x => ρ (x.2.responsible p) := by
  intro x y ho h
  obtain ⟨-, -, -, role, u, now, subject, hu, -, -, hg⟩ := other_cases ho
  show ρ (y.2.responsible p)
  rw [hg.responsible p (Ne.symm hu)]
  exact h

theorem stable_discharged (tk : Token) : C.Stable p fun x => tk ∈ x.2.discharged := by
  intro x y ho h
  obtain ⟨-, -, -, role, u, now, subject, hu, -, -, hg⟩ := other_cases ho
  exact hg.kept tk h

theorem stable_sent (tk : Token) : C.Stable p fun x => tk ∈ x.2.sent := by
  intro x y ho h
  obtain ⟨-, -, -, role, u, now, subject, hu, -, -, hg⟩ := other_cases ho
  exact hg.sent tk h

theorem stable_drawn (tk : Token) (v : Nat × Nat) : C.Stable p fun x => x.2.drawn tk = some v := by
  intro x y ho h
  obtain ⟨-, -, -, role, u, now, subject, hu, -, -, hg⟩ := other_cases ho
  exact hg.drawn tk v h

/-- Nobody else hands over a claim of `p`. -/
theorem stable_undischarged (tk : Token) (k : Nat) :
    C.Stable p fun x => x.2.drawn tk = some (p, k) ∧ tk ∉ x.2.discharged := by
  intro x y ho ⟨hd, h⟩
  obtain ⟨-, -, -, role, u, now, subject, hu, -, -, hg⟩ := other_cases ho
  refine ⟨hg.drawn tk _ hd, fun hm => ?_⟩
  rcases hg.added tk hm with hm | ⟨k', hm⟩
  · exact h hm
  · exact hu (Prod.mk.inj (Option.some.inj (hm.symm.trans hd))).1

/-- What holds of the outbox rows with a claim token of `p` keeps to hold. -/
theorem stable_claimed (tk : Token) (k : Nat) (P : Version ImportDispatchOutbox → Prop) :
    C.Stable p fun x => x.2.drawn tk = some (p, k) ∧ ∀ o ∈ x.1.db.importDispatchOutbox.rows,
      o.val.claimToken = some tk → P o := by
  intro x y ho ⟨hd, h⟩
  obtain ⟨-, hy, -, role, u, now, subject, hu, -, hout, hg⟩ := other_cases ho
  have hd' := hg.drawn tk _ hd
  refine ⟨hd', fun o hm ht => ?_⟩
  rcases hout o hm (by simp [ht]) with hm' | hw
  · exact h o hm' ht
  · have := hy.outbox.claims o hm tk ht
    rw [hd', hw] at this
    exact absurd (Prod.mk.inj (Option.some.inj this)).1.symm hu

end stable

/-! ## Steps that commit nothing -/

/-- The locks on import jobs that session `p` gained are not on PENDING imports. -/
def LocksOk (p : Nat) (d d' : Database) : Prop :=
  ∀ i, d'.importJobs.Holds p i → d.importJobs.Holds p i ∨
    ∀ r ∈ d.importJobs.rows, r.id = i → r.val.status ≠ .pending

/-- Replace the database. -/
def World.withDb (w : World) (d : Database) : World := { w with db := d }

section dispatched
variable {w : World} {g : Ghost} {d' : Database} {p : Nat}

theorem Carried.withDb {i : ImportId} (h : Carried w g i)
    (hr : d'.importDispatchOutbox.rows = w.db.importDispatchOutbox.rows) :
    Carried (w.withDb d') g i := by
  rcases h with h | h | ⟨o, ho, hc⟩
  · exact .inl h
  · exact .inr (.inl h)
  · exact .inr (.inr ⟨o, by rwa [World.withDb, hr], hc⟩)

/-- What covers session `u` still does after a statement of session `p`. -/
theorem Covered.other {u : Nat} (hu : u ≠ p) {i : ImportId} (h : Covered w g u i)
    (hd : Database.Own p w.db d') : Covered (w.withDb d') g u i := by
  rcases h with h | ⟨o, ho, hh, h⟩
  · exact .inl h
  · refine .inr ⟨o, ?_, ((hd.keeps u hu).outbox.holds _).2 hh, h⟩
    rw [World.withDb, hd.rows.outbox]
    exact ho

/-- Statements of session `p` keep `Dispatched` when it sees to the PENDING imports it locks, and
keeps its locks on the outbox. -/
theorem Dispatched.own (h : Dispatched w g) (hd : Database.Own p w.db d')
    (hl : ∀ i, d'.importJobs.Holds p i → w.db.importJobs.Holds p i ∨
      (∀ r ∈ w.db.importJobs.rows, r.id = i → r.val.status ≠ .pending) ∨
      Covered (w.withDb d') g p i)
    (ho : ∀ i, w.db.importDispatchOutbox.Holds p i → d'.importDispatchOutbox.Holds p i) :
    Dispatched (w.withDb d') g where
  carried r hr hp := (h.carried r (by rwa [World.withDb, hd.rows.jobs] at hr) hp).withDb
    hd.rows.outbox
  covered r hr hp s hs := by
    have hr' : r ∈ w.db.importJobs.rows := by rwa [World.withDb, hd.rows.jobs] at hr
    by_cases hsp : s = p
    · subst hsp
      rcases hl r.id hs with hs' | hs' | hs'
      · rcases h.covered r hr' hp s hs' with hc | ⟨o, ho', hh, hc⟩
        · exact .inl hc
        · exact .inr ⟨o, by rwa [World.withDb, hd.rows.outbox], ho _ hh, hc⟩
      · exact absurd hp (hs' r hr' rfl)
      · exact hs'
    · exact (h.covered r hr' hp s (((hd.keeps s hsp).jobs.holds _).1 hs)).other hsp hd

/-- Statements that lock no PENDING import. -/
theorem Dispatched.quiet (h : Dispatched w g) (hd : Database.Own p w.db d')
    (hl : LocksOk p w.db d')
    (ho : ∀ i, w.db.importDispatchOutbox.Holds p i → d'.importDispatchOutbox.Holds p i) :
    Dispatched (w.withDb d') g :=
  h.own hd (fun i hi => (hl i hi).imp_right .inl) ho

/-- Only who is responsible and what was handed over matters. -/
theorem Dispatched.congr {g' : Ghost} (h : Dispatched w g) (hr : g'.responsible = g.responsible)
    (hd : g'.discharged = g.discharged) : Dispatched w g' where
  carried r hm hp := by
    unfold Carried Carrier Undischarged
    rw [hr, hd]
    exact h.carried r hm hp
  covered r hm hp s hs := by
    unfold Covered Undischarged
    rw [hr, hd]
    exact h.covered r hm hp s hs

end dispatched

theorem Slice.not_intends_self {role : Role} (x : Slice) : ¬ x.Intends role x := by
  rintro (⟨h1, h2⟩ | ⟨-, h1, h2⟩)
  · exact h2 h1
  · rw [h1] at h2
    cases h2

/-- A statement that changes no committed row. -/
theorem quiet_step {C : Setting} {p : Nat} {t : Task} {l : Deed Stmt Stmt.Reply Exc}
    {w : World} {g : Ghost} (w' : World) (g' : Ghost) (hi : C.Inv (w, g))
    (ho : Database.Own p w.db w'.db) (hg : Setting.GhostStep p t.subject g g')
    (hn : ∀ tk x, g'.drawn tk = some x → g.drawn tk = some x ∨ tk < w'.db.issued)
    (hd : C.track → Dispatched w' g') (hs : ∀ tk ∈ g'.sent, tk ∈ g.sent ∨
      ∃ o ∈ w.db.importDispatchOutbox.rows, o.val.claimToken = some tk ∧ o.writer = p ∧
        l = some ⟨.dispatchImport o.val.importId, .ok ()⟩)
    (hl : ∀ s r, l = some ⟨s, r⟩ → s.Live) :
    C.Inv (w', g') ∧ C.Guar p t l (w, g) (w', g') := by
  have hsl : ∀ i, w'.db.slice i = w.db.slice i := ho.rows.slice
  have hint : ∀ i, w'.db.intents i = w.db.intents i := fun i => by
    simp only [Database.intents, ho.rows.outbox]
  have hev : ∀ k, w'.db.event k = w.db.event k := fun k => by
    simp only [Database.event, ho.rows.outbox]
  constructor
  · exact
      { wf := ho.wf
        slices := fun i => by rw [hsl]; exact hi.slices i
        intents := fun i => by rw [hsl, hint]; exact hi.intents i
        outbox :=
          { consistent := fun o hm => hi.outbox.consistent o (ho.rows.outbox ▸ hm)
            drawn := fun tk x hx => (hn tk x hx).elim
              (fun hx => Nat.lt_of_lt_of_le (hi.outbox.drawn tk x hx) ho.issued) id
            discharged := fun tk htk => by
              rcases hg.added tk htk with htk | ⟨k, hk⟩
              · obtain ⟨x, hx⟩ := hi.outbox.discharged tk htk
                exact ⟨x, hg.drawn tk x hx⟩
              · exact ⟨_, hg.drawn tk _ hk⟩
            claims := fun o hm tk htk =>
              hg.drawn tk _ (hi.outbox.claims o (ho.rows.outbox ▸ hm) tk htk) }
        dispatched := hd
        frozen := fun fz hz => by
          have := hi.frozen fz hz
          simpa only [Frozen.At, ho.rows.shipments] using this
        sealed := fun fz hz => (hi.sealed fz hz).seals fun _ => .inl (hsl _) }
  · exact
      { keeps := ho.keeps
        steps := fun i => by rw [hsl]; exact .stay _
        events := fun k => by rw [hev]; exact .stay _
        intended := fun i h => absurd h (by rw [hsl]; exact Slice.not_intends_self _)
        unintended := fun i _ => hint i
        unclaimed := fun _ i r hr hp hf => by
          rw [hsl, Slice.status, hr, Option.map_some, hp] at hf
          cases hf
        ghost := hg
        sent := hs
        live := hl }

/-! ## Steps that commit -/

/-- What a commit of session `p` has to be. -/
structure CommitOk (C : Setting) (p : Nat) (t : Task) (w : World) (g g' : Ghost) : Prop where
  steps : ∀ i, Slice.Step C.env t.role p (w.db.now p w.time) (w.db.slice i)
    ((w.commit p).db.slice i)
  seals : ∀ fz, C.frozen = some fz → fz.Seals w.db (w.commit p).db
  events : ∀ k, OutboxStep C.env.settings (· ∈ g.sent) t.role p (w.db.event k)
    ((w.commit p).db.event k)
  intended : ∀ i, Slice.Intends t.role (w.db.slice i) ((w.commit p).db.slice i) →
    (w.commit p).db.intents i = w.db.intents i + 1
  unintended : ∀ i, ¬ Slice.Intends t.role (w.db.slice i) ((w.commit p).db.slice i) →
    (w.commit p).db.intents i = w.db.intents i
  unclaimed : C.unclaimed → ∀ i, Setting.GivesUp (w.db.slice i) ((w.commit p).db.slice i)
  claims : ∀ o ∈ (w.commit p).db.importDispatchOutbox.rows, ∀ tk, o.val.claimToken = some tk →
    g.drawn tk = some (o.writer, o.id)
  responsible : ∀ u, u ≠ p → g'.responsible u = g.responsible u
  own : ∀ i, g'.responsible p = some i → g.responsible p = some i ∨ t.subject = some i
  discharged : g'.discharged = g.discharged
  drawn : g'.drawn = g.drawn
  sent : g'.sent = g.sent
  dispatched : C.track → Dispatched (w.commit p) g'

theorem CommitOk.step {C : Setting} {p : Nat} {t : Task} {w : World} {g g' : Ghost}
    {r : Except Exc Unit} (hi : C.Inv (w, g)) (h : CommitOk C p t w g g')
    (hf : ∀ fz, C.frozen = some fz → fz.At (w.commit p).db) :
    C.Inv (w.commit p, g') ∧ C.Guar p t (some ⟨.commit, r⟩) (w, g) (w.commit p, g') := by
  have hwf : (w.commit p).db.Wf := Database.wf_commit hi.wf
  constructor
  · exact
      { wf := hwf
        slices := fun i => (h.steps i).ok (hi.slices i)
        intents := fun i => (h.steps i).intentsOk (hi.intents i) (h.intended i) (h.unintended i)
        outbox :=
          { consistent := fun o ho => (h.events o.id).consistent
              (fun r hr => hi.outbox.consistent r ((Database.event_eq_some hi.wf).1 hr).1) o
              ((Database.event_eq_some hwf).2 ⟨ho, rfl⟩)
            drawn := fun tk x hx => hi.outbox.drawn tk x (h.drawn ▸ hx)
            discharged := fun tk htk => by
              rw [h.drawn]
              exact hi.outbox.discharged tk (h.discharged ▸ htk)
            claims := fun o ho tk htk => by
              rw [h.drawn]
              exact h.claims o ho tk htk }
        dispatched := h.dispatched
        frozen := hf
        sealed := fun fz hz => (hi.sealed fz hz).seals (h.seals fz hz) }
  · exact
      { keeps := fun u hu => Database.keeps_commit hi.wf hu
        steps := h.steps
        events := h.events
        intended := h.intended
        unintended := h.unintended
        unclaimed := h.unclaimed
        ghost :=
          { responsible := h.responsible
            own := h.own
            kept := fun tk htk => h.discharged ▸ htk
            added := fun tk htk => .inl (h.discharged ▸ htk)
            drawn := fun tk x hx => h.drawn ▸ hx
            sent := fun tk htk => h.sent ▸ htk }
        sent := fun tk htk => .inl (h.sent ▸ htk)
        live := fun s r hl => by
          cases hl
          trivial }

/-- The outbox of a session that did not change it. -/
theorem CommitOk.of_outbox {C : Setting} {p : Nat} {t : Task} {w : World} {g g' : Ghost}
    (hi : C.Inv (w, g)) (hr : t.role = .worker ∨ t.role = .publisher)
    (ho : w.db.importDispatchOutbox.staged p = [])
    (steps : ∀ i, Slice.Step C.env t.role p (w.db.now p w.time) (w.db.slice i)
      ((w.commit p).db.slice i))
    (seals : ∀ fz, C.frozen = some fz → fz.Seals w.db (w.commit p).db)
    (unclaimed : C.unclaimed → ∀ i, Setting.GivesUp (w.db.slice i) ((w.commit p).db.slice i))
    (responsible : ∀ u, u ≠ p → g'.responsible u = g.responsible u)
    (own : ∀ i, g'.responsible p = some i → g.responsible p = some i ∨ t.subject = some i)
    (discharged : g'.discharged = g.discharged) (drawn : g'.drawn = g.drawn)
    (sent : g'.sent = g.sent) (dispatched : C.track → Dispatched (w.commit p) g') :
    CommitOk C p t w g g' := by
  have hrows : (w.commit p).db.importDispatchOutbox.rows = w.db.importDispatchOutbox.rows :=
    Table.view_eq _ _ ho
  exact
    { steps, seals, unclaimed, responsible, own, discharged, drawn, sent, dispatched
      events := fun k => by
        simp only [Database.event, hrows]
        exact .stay _
      intended := fun i h => absurd h ((steps i).not_intends hr)
      unintended := fun i _ => by simp only [Database.intents, hrows]
      claims := fun o hm => hi.outbox.claims o (hrows ▸ hm) }

/-- The locks of the other sessions cover what they covered; what carries the imports that are
PENDING after a commit is left to show. -/
theorem Dispatched.commit {w : World} {g g' : Ghost} {p : Nat} (h : Dispatched w g)
    (hwf : w.db.Wf) (hu : ∀ u, u ≠ p → g'.responsible u = g.responsible u)
    (hd : g'.discharged = g.discharged)
    (hc : ∀ r ∈ (w.commit p).db.importJobs.rows, r.val.status = .pending →
      Carried (w.commit p) g' r.id) : Dispatched (w.commit p) g' where
  carried := hc
  covered r hr hp s hs := by
    have hsp : s ≠ p := by
      rintro rfl
      exact (Database.idle_commit w.db s).jobs.lock r.id hs
    have hk := Database.keeps_commit (s := p) hwf hsp
    have hs' : w.db.importJobs.Holds s r.id := (hk.jobs.holds _).1 hs
    have hm : r ∈ w.db.importJobs.rows := (hk.jobs.rows r hs').1 hr
    rcases h.covered r hm hp s hs' with hg | ⟨o, hom, hh, h1, h2, h3⟩
    · exact .inl (by rw [hu s hsp, hg])
    · refine .inr ⟨o, (hk.outbox.rows o hh).2 hom, (hk.outbox.holds _).2 hh, h1, h2, ?_⟩
      rw [Undischarged, hd]
      exact h3

/-! ## Rules for statements -/

namespace Setting.Spec

variable {C : Setting} {p : Nat} {t : Task} {A : World × Ghost → Prop}

/-- The rule of a statement, with its choices. -/
theorem stmt {s : Stmt} {Q : Except Exc s.Reply → World × Ghost → Prop}
    (hQ : ∀ r, C.Stable p (Q r))
    (h : ∀ w g r w' ch, C.Inv (w, g) → A (w, g) → World.exec C.env p t s ch w = some (r, w') →
      C.Allows p t w s ch w' →
      ∃ g', (C.Inv (w', g') ∧ C.Guar p t (some ⟨s, r⟩) (w, g) (w', g')) ∧ Q r (w', g')) :
    C.Spec p t A (Py.stmt s) Q :=
  Protocol.Triple.perform hQ fun w g r w' hi ha ⟨ch, he, hs⟩ =>
    have ⟨g', ⟨h1, h2⟩, h3⟩ := h w g r w' ch hi ha he hs
    ⟨g', h1, h2, h3⟩

/-- A statement that changes nothing. -/
theorem silent {s : Stmt} (hlive : s.Live) {Q : Except Exc s.Reply → World × Ghost → Prop}
    (hQ : ∀ r, C.Stable p (Q r))
    (hs : ∀ w r w' ch, World.exec C.env p t s ch w = some (r, w') → w' = w)
    (h : ∀ w g r ch, C.Inv (w, g) → A (w, g) → World.exec C.env p t s ch w = some (r, w) →
      Q r (w, g)) : C.Spec p t A (Py.stmt s) Q := by
  refine stmt hQ fun w g r w' ch hi ha he _ => ?_
  obtain rfl := hs w r w' ch he
  exact ⟨g, quiet_step _ _ hi (Database.own_refl hi.wf) (ghostStep_refl _ _ _) (fun _ _ => .inl)
    hi.dispatched (fun _ => .inl) (fun s r e => by cases e; exact hlive), h w' g r ch hi ha he⟩

theorem query_exec {q : Query} {ch : Choice} {w w' : World} {r : Except Exc q.Reply}
    (he : World.exec C.env p t (.query q) ch w = some (r, w')) :
    (ch = .run ∧ ∃ r' d', (w.db.begin p w.time).exec C.env.server w.time p q = some (r', d') ∧
      r = r'.mapError Exc.raised ∧ w' = w.withDb d') ∨
    ∃ f, ch = .fail f ∧ r = .error (.raised f) ∧ w' = w := by
  cases ch with
  | run =>
    obtain ⟨⟨r', d'⟩, hx, hr⟩ := Option.map_eq_some_iff.1 he
    cases hr
    exact .inl ⟨rfl, r', d', hx, rfl, rfl⟩
  | fail f =>
    cases he
    exact .inr ⟨f, rfl, rfl, rfl⟩
  | lost f => cases he

/-- The rule of a query, with the change of the auxiliary data left open. -/
theorem query_ghost {q : Query} (hlive : q.Live) {Q : Except Exc q.Reply → World × Ghost → Prop}
    (hQ : ∀ r, C.Stable p (Q r))
    (hrun : ∀ w g r d', C.Inv (w, g) → A (w, g) → Database.Own p w.db d' →
      (w.db.begin p w.time).exec C.env.server w.time p q = some (r, d') →
      C.Allows p t w (.query q) .run (w.withDb d') →
      ∃ g', GhostStep p t.subject g g' ∧ g'.sent = g.sent ∧
        (∀ tk x, g'.drawn tk = some x → g.drawn tk = some x ∨ tk < d'.issued) ∧
        (C.track → Dispatched (w.withDb d') g') ∧ Q (r.mapError Exc.raised) (w.withDb d', g'))
    (hfail : ∀ w g f, C.Inv (w, g) → A (w, g) → C.Allows p t w (.query q) (.fail f) w →
      ∃ g', GhostStep p t.subject g g' ∧ g'.sent = g.sent ∧ g'.drawn = g.drawn ∧
        (C.track → Dispatched w g') ∧ Q (.error (.raised f)) (w, g')) :
    C.Spec p t A (Py.query q) Q := by
  refine stmt hQ fun w g r w' ch hi ha he hs => ?_
  rcases query_exec he with ⟨rfl, r', d', hx, rfl, rfl⟩ | ⟨f, rfl, rfl, rfl⟩
  · have hb := Database.own_begin (s := p) hi.wf w.time
    have ho : Database.Own p w.db d' := hb.trans (Database.exec_own hb.wf hx)
    obtain ⟨g', hg, hse, hn, hd, hq⟩ := hrun w g r' d' hi ha ho hx hs
    exact ⟨g', quiet_step _ _ hi ho hg hn hd (fun tk h => .inl (hse ▸ h))
      (fun s r e => by cases e; exact hlive), hq⟩
  · obtain ⟨g', hg, hse, hn, hd, hq⟩ := hfail w' g f hi ha hs
    exact ⟨g', quiet_step _ _ hi (Database.own_refl hi.wf) hg (fun tk x h => .inl (hn ▸ h)) hd
      (fun tk h => .inl (hse ▸ h)) (fun s r e => by cases e; exact hlive), hq⟩

/-- The rule of a query that locks no PENDING import. -/
theorem query {q : Query} (hlive : q.Live) {Q : Except Exc q.Reply → World × Ghost → Prop}
    (hQ : ∀ r, C.Stable p (Q r))
    (hrun : ∀ w g r d', C.Inv (w, g) → A (w, g) → Database.Own p w.db d' →
      (w.db.begin p w.time).exec C.env.server w.time p q = some (r, d') →
      LocksOk p w.db d' ∧ Q (r.mapError Exc.raised) (w.withDb d', g))
    (hfail : ∀ w g f, C.Inv (w, g) → A (w, g) → Q (.error (.raised f)) (w, g)) :
    C.Spec p t A (Py.query q) Q := by
  refine query_ghost hlive hQ (fun w g r d' hi ha ho hx _ => ?_) fun w g f hi ha _ =>
    ⟨g, ghostStep_refl _ _ _, rfl, rfl, hi.dispatched, hfail w g f hi ha⟩
  obtain ⟨hl, hq⟩ := hrun w g r d' hi ha ho hx
  have hb := Database.own_begin (s := p) hi.wf w.time
  exact ⟨g, ghostStep_refl _ _ _, rfl, fun _ _ => .inl, fun ht => (hi.dispatched ht).quiet ho hl
    fun i hh => Database.exec_outbox_holds hb.wf hh hx, hq⟩

theorem commit_exec {ch : Choice} {w w' : World} {r : Except Exc Unit}
    (he : World.exec C.env p t .commit ch w = some (r, w')) :
    (∃ lost : Option Fault, ch = lost.elim .run .lost ∧ lost ≠ some .integrityError ∧
      r = lost.elim (.ok ()) (fun f => .error (.raised f)) ∧ w' = w.commit p) ∨
    ∃ f, ch = .fail f ∧ f ≠ .integrityError ∧ r = .error (.raised f) ∧ w' = w := by
  cases ch with
  | run => cases he; exact .inl ⟨none, rfl, by simp, rfl, rfl⟩
  | lost f =>
    simp only [World.exec] at he
    split at he
    · next hf => cases he; exact .inl ⟨some f, rfl, by simpa [Stmt.canFail] using hf, rfl, rfl⟩
    · cases he
  | fail f =>
    simp only [World.exec] at he
    split at he
    · next hf => cases he; exact .inr ⟨f, rfl, by simpa [Stmt.canFail] using hf, rfl, rfl⟩
    · cases he

/-- The rule of a commit, which takes effect unless it fails; it may still be reported as failed. -/
theorem commit {Q : Except Exc Unit → World × Ghost → Prop} (hQ : ∀ r, C.Stable p (Q r))
    (hok : ∀ w g (lost : Option Fault), lost ≠ some .integrityError → C.Inv (w, g) → A (w, g) →
      C.Allows p t w .commit (lost.elim .run .lost) (w.commit p) →
      ∃ g', CommitOk C p t w g g' ∧
        Q (lost.elim (.ok ()) fun f => .error (.raised f)) (w.commit p, g'))
    (hfail : ∀ w g f, f ≠ .integrityError → C.Inv (w, g) → A (w, g) →
      C.Allows p t w .commit (.fail f) w → Q (.error (.raised f)) (w, g)) :
    C.Spec p t A (Py.stmt .commit) Q := by
  refine stmt hQ fun w g r w' ch hi ha he hs => ?_
  rcases commit_exec he with ⟨lost, rfl, hl, rfl, rfl⟩ | ⟨f, rfl, hl, rfl, rfl⟩
  · obtain ⟨g', hc, hq⟩ := hok w g lost hl hi ha hs
    exact ⟨g', hc.step hi hs.frozen, hq⟩
  · exact ⟨g, quiet_step _ _ hi (Database.own_refl hi.wf) (ghostStep_refl _ _ _) (fun _ _ => .inl)
      hi.dispatched (fun _ => .inl) (fun s r e => by cases e; trivial), hfail w' g f hl hi ha hs⟩

end Setting.Spec

end ShipmentImport

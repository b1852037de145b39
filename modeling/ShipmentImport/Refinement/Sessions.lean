import ShipmentImport.Refinement.Ownership

/-!
# Sessions without a token

Rules for the transactions of creators, publishers and the watchdog: what a query does is a fact
about the database, and what a commit does is read off the changes that were staged.
-/

namespace ShipmentImport

/-- Session `p` has no open transaction. -/
abbrev IdleAt (p : Nat) : Assertion := fun x => x.1.db.Idle p

/-- Nothing is known. -/
abbrev Anything : Assertion := fun _ => True

theorem stable_anything {C : Setting} {p : Nat} : C.Stable p Anything := fun _ _ _ h => h

theorem stable_local {C : Setting} {p : Nat} {B : Database → Prop} (h : Local p B) :
    C.Stable p fun x => B x.1.db := stable_keeps h

namespace Setting.Spec

variable {C : Setting} {p : Nat} {t : Task}

/-- The rule of a query about which the database matters, with what else is known of the committed
rows and the auxiliary data. -/
theorem query_framed {q : Query} (hlive : q.Live) {B : Database → Prop}
    {D : q.Reply → Database → Prop} (hD : ∀ a, Local p (D a)) {F : Assertion} (hF : C.Stable p F)
    (hframe : ∀ w g d', Database.Own p w.db d' → F (w, g) → F (w.withDb d', g))
    (hl : ∀ w g, C.Inv (w, g) → B w.db → ∀ r ∈ w.db.importJobs.rows, q.jobsLocked r →
      r.val.status ≠ .pending)
    (hrun : ∀ w g a d', C.Inv (w, g) → B w.db →
      (w.db.begin p w.time).exec C.env.server w.time p q = some (.ok a, d') → D a d') :
    C.Spec p t (fun x => B x.1.db ∧ F x) (Py.query q)
      (Outcome (fun a x => D a x.1.db ∧ F x) fun _ => Anything) := by
  refine query hlive (stable_outcome (fun a => (stable_local (hD a)).and hF) fun _ => stable_anything)
    (fun w g r d' hi ha ho hx => ⟨locksOk_of_exec hi.wf hx (hl w g hi ha.1), ?_⟩)
    fun w g f hi ha => trivial
  cases r with
  | ok a => exact ⟨hrun w g a d' hi ha.1 hx, hframe w g d' ho ha.2⟩
  | error f => trivial

/-- The same where nothing else is known. -/
theorem query_local {q : Query} (hlive : q.Live) {B : Database → Prop}
    {D : q.Reply → Database → Prop} (hD : ∀ a, Local p (D a))
    (hl : ∀ w g, C.Inv (w, g) → B w.db → ∀ r ∈ w.db.importJobs.rows, q.jobsLocked r →
      r.val.status ≠ .pending)
    (hrun : ∀ w g a d', C.Inv (w, g) → B w.db →
      (w.db.begin p w.time).exec C.env.server w.time p q = some (.ok a, d') → D a d') :
    C.Spec p t (fun x => B x.1.db) (Py.query q)
      (Outcome (fun a x => D a x.1.db) fun _ => Anything) :=
  weaken ((query_framed hlive hD (F := Anything) stable_anything (fun _ _ _ _ _ => trivial) hl
    hrun).pre fun _ h => ⟨h, trivial⟩) (fun _ _ h => h.1) fun _ _ h => h

/-- Whatever a session did, it is idle after giving up. -/
theorem giveUp_idle {s : Stmt} (hs : s = .rollback ∨ s = .close) :
    C.Spec p t Anything (Py.stmt s) (Total fun _ => IdleAt p) :=
  giveUp hs stable_idle fun w _ _ _ => Database.idle_rollback w.db p

/-- The rule of a session with one transaction: `L` holds once it is committed. -/
theorem session {α : Type} {A : Assertion} {body : Py α} {N L : α → Assertion}
    (hbody : C.Spec p t A body (Outcome N fun _ => Anything)) (hL : ∀ a, C.Stable p (L a))
    (hcommit : ∀ a, C.Spec p t (N a) (Py.stmt .commit) (Outcome (fun _ => L a) fun _ => Anything))
    (hclose : ∀ a w g, C.Inv (w, g) → L a (w, g) → L a (w.rollback p, g)) :
    C.Spec p t A (ShipmentImport.withSession (ShipmentImport.inTransaction body))
      (Outcome (fun a x => L a x ∧ IdleAt p x) fun _ => IdleAt p) := by
  refine withSession (inTransaction (F := fun _ => Anything) hbody hcommit fun _ =>
    (giveUp_idle (.inl rfl)).post fun r x h => ?_) (fun a => ?_) fun _ => giveUp_idle (.inr rfl)
  · cases r with
    | ok _ => trivial
    | error _ => exact h
  · exact close ((hL a).and stable_idle) fun w g hi ha =>
      ⟨hclose a w g hi ha, Database.idle_rollback w.db p⟩

end Setting.Spec

/-! ## What a commit makes of the tables -/

section
variable {d : Database} {p : Nat}

/-- The session changed no shipment and no error. -/
structure RowsKept (p : Nat) (d : Database) : Prop where
  shipments : d.shipments.staged p = []
  errors : d.importErrors.staged p = []

theorem local_rowsKept : Local p (RowsKept p) := fun _ _ _ hk h =>
  ⟨hk.shipments.staged.trans h.shipments, hk.errors.staged.trans h.errors⟩

/-- Only the job of an import changes. -/
theorem RowsKept.slice (h : RowsKept p d) (i : ImportId) :
    (d.commit p).slice i =
      ⟨((d.commit p).slice i).job, (d.slice i).shipments, (d.slice i).importErrors⟩ := by
  have h1 : (d.commit p).shipments.rows = d.shipments.rows := Table.view_eq _ _ h.shipments
  have h2 : (d.commit p).importErrors.rows = d.importErrors.rows := Table.view_eq _ _ h.errors
  simp only [Database.slice, h1, h2]

/-- A commit that completes no import seals nothing. -/
theorem seals_of_steps {C : Setting} {role : Role} {now : Time} {d' : Database} {fz : Frozen C.env}
    (hr : role ≠ .worker)
    (h : Slice.Step C.env role p now (d.slice fz.importId) (d'.slice fz.importId)) :
    fz.Seals d d' := by
  intro hc
  generalize d.slice fz.importId = x at h
  generalize d'.slice fz.importId = y at h hc
  cases h with
  | stay => exact .inl rfl
  | create r history pending => rw [Slice.status, Option.map_some, pending] at hc; cases hc
  | recoverFailed | recoverRequeued | dispatchExhausted => cases hc
  | _ => exact absurd rfl hr

/-- Only publishers give imports up before their first claim. -/
theorem givesUp_of_steps {C : Setting} {role : Role} {now : Time} {x y : Slice}
    (hr : role ≠ .publisher) (h : Slice.Step C.env role p now x y) : Setting.GivesUp x y :=
  fun _ hj hp hf =>
    absurd (h.pending_failed (by rw [Slice.status, hj, Option.map_some, hp]) hf) hr

/-- Inserted outbox rows: an event is an old one, or one of them. -/
theorem event_insert {os : List (Version ImportDispatchOutbox)}
    (h : d.importDispatchOutbox.staged p = os.map .insert) (k : Nat) :
    (d.commit p).event k = (d.event k).or (os.find? (·.id == k)) := by
  show (Table.view _ p).find? _ = _
  rw [Table.view, h, Table.foldl_apply_insert, List.find?_append]
  rfl

theorem rows_insert {os : List (Version ImportDispatchOutbox)}
    (h : d.importDispatchOutbox.staged p = os.map .insert) :
    (d.commit p).importDispatchOutbox.rows = d.importDispatchOutbox.rows ++ os := by
  show Table.view _ p = _
  rw [Table.view, h, Table.foldl_apply_insert]

theorem intents_insert {os : List (Version ImportDispatchOutbox)}
    (h : d.importDispatchOutbox.staged p = os.map .insert) (i : ImportId) :
    (d.commit p).intents i = d.intents i + (os.filter (·.val.importId == i)).length := by
  simp only [Database.intents, rows_insert h, List.filter_append, List.length_append]

/-- What carries an import is still there after new outbox rows. -/
theorem Carried.insert {w : World} {g : Ghost} {i : ImportId} (h : Carried w g i)
    {os : List (Version ImportDispatchOutbox)}
    (ho : w.db.importDispatchOutbox.staged p = os.map .insert) : Carried (w.commit p) g i := by
  rcases h with h | h | ⟨o, hm, hc⟩
  · exact .inl h
  · exact .inr (.inl h)
  · refine .inr (.inr ⟨o, ?_, hc⟩)
    rw [show (w.commit p).db.importDispatchOutbox.rows = _ from rows_insert ho]
    exact List.mem_append_left _ hm

end

end ShipmentImport

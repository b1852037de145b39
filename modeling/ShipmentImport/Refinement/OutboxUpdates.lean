import ShipmentImport.Refinement.Sessions

/-!
# Updates of the outbox

A transaction of a publisher gives some events new versions (`Updating`). What its commit is to the
protocol follows from what each of these updates is.
-/

namespace ShipmentImport

/-- A row of the outbox. -/
abbrev OutboxRow := Version ImportDispatchOutbox

/-- Session `p` gave events it holds the new versions `us`, each by `P`, and changed no shipment and
no error. -/
structure Updating (p : Nat) (P : OutboxRow → OutboxRow → Prop) (us : List OutboxRow)
    (d : Database) : Prop extends RowsKept p d where
  staged : d.importDispatchOutbox.staged p = us.map .update
  nodup : (us.map (·.id)).Nodup
  old : ∀ u ∈ us, ∃ r ∈ d.importDispatchOutbox.rows,
    d.importDispatchOutbox.Holds p r.id ∧ r.id = u.id ∧ P r u

namespace Updating

variable {p : Nat} {P : OutboxRow → OutboxRow → Prop} {us : List OutboxRow} {d d' : Database}

theorem local_ (p : Nat) (P : OutboxRow → OutboxRow → Prop) (us : List OutboxRow) :
    Local p (Updating p P us) := fun d d' hw hk h =>
  { toRowsKept := local_rowsKept d d' hw hk h.toRowsKept
    staged := hk.outbox.staged.trans h.staged
    nodup := h.nodup
    old := fun u hu =>
      have ⟨r, hr, hh, e, hP⟩ := h.old u hu
      ⟨r, (hk.outbox.rows r hh).2 hr, (hk.outbox.holds _).2 hh, e, hP⟩ }

/-- An event that was not updated yet is seen as it is committed. -/
theorem mem_view (h : Updating p P us d) {r : OutboxRow} (hr : r ∈ d.importDispatchOutbox.rows)
    (hk : ∀ u ∈ us, u.id ≠ r.id) : r ∈ d.importDispatchOutbox.view p := by
  refine (Table.mem_foldl_apply_of_ne (fun c hc => ?_) _).2 hr
  rw [h.staged] at hc
  obtain ⟨u, hu, rfl⟩ := List.mem_map.1 hc
  exact hk u hu

/-- What is seen of an event that was not updated yet is committed. -/
theorem mem_rows (h : Updating p P us d) {r : OutboxRow} (hr : r ∈ d.importDispatchOutbox.view p)
    (hk : ∀ u ∈ us, u.id ≠ r.id) : r ∈ d.importDispatchOutbox.rows := by
  refine (Table.mem_foldl_apply_of_ne (fun c hc => ?_) _).1 hr
  rw [h.staged] at hc
  obtain ⟨u, hu, rfl⟩ := List.mem_map.1 hc
  exact hk u hu

/-- An update of an event that was not updated yet. -/
theorem update (hw : d.Wf) (h : Updating p P us d) {k : Nat} {sel : OutboxRow → Bool}
    {f : ImportDispatchOutbox → ImportDispatchOutbox} (hsel : ∀ r, sel r = true → r.id = k)
    (hk : ∀ u ∈ us, u.id ≠ k)
    (hP : ∀ r ∈ d.importDispatchOutbox.rows, sel r = true → P r ⟨r.id, p, f r.val⟩)
    {res : Except Fault (List OutboxRow)} (hu : d.updateOutbox p sel f = some (res, d')) :
    ∃ new, res = .ok new ∧ Updating p P (us ++ new) d' ∧ d'.importJobs = d.importJobs ∧
      d'.issued = d.issued ∧
      ((new = [] ∧ ∀ r ∈ d.importDispatchOutbox.rows, sel r = false) ∨
        ∃ r ∈ d.importDispatchOutbox.rows, sel r = true ∧ new = [⟨r.id, p, f r.val⟩]) := by
  simp only [Database.updateOutbox, Option.map_eq_some_iff] at hu
  obtain ⟨⟨new, T⟩, hT, hu⟩ := hu
  cases hu
  obtain ⟨hown, hnew, hst, hheld, hkeep, -⟩ := Table.updateWhere_spec hw.outbox hT
  have hview : ((d.importDispatchOutbox.view p).map (·.id)).Nodup := (hw.outbox.commit p).nodup
  by_cases hex : ∃ r ∈ d.importDispatchOutbox.rows, sel r = true
  · obtain ⟨r, hr, hs⟩ := hex
    have hid := hsel r hs
    have hone : (d.importDispatchOutbox.view p).filter sel = [r] := by
      have hput := Table.filter_put hview (h.mem_view hr (hid ▸ hk)) rfl
        (p := sel) (fun x hx => (hsel x hx).trans hid.symm)
      rwa [Table.put_self hview (h.mem_view hr (hid ▸ hk)), if_pos hs] at hput
    rw [hone] at hnew
    subst hnew
    refine ⟨_, rfl, ?_, rfl, rfl, .inr ⟨r, hr, hs, rfl⟩⟩
    exact
      { shipments := h.shipments
        errors := h.errors
        staged := by
          show T.staged p = _
          rw [hst, h.staged, List.map_append]
        nodup := by
          rw [List.map_append, List.nodup_append]
          refine ⟨h.nodup, List.nodup_singleton _, fun a ha b hb e => ?_⟩
          obtain ⟨u, hu, rfl⟩ := List.mem_map.1 ha
          obtain rfl := List.mem_singleton.1 hb
          exact hk u hu (e.trans hid)
        old := fun u hu => by
          rcases List.mem_append.1 hu with hu | hu
          · obtain ⟨r', hr', hh, e, hPr⟩ := h.old u hu
            exact ⟨r', hown.rows ▸ hr', hkeep _ hh, e, hPr⟩
          · obtain rfl := List.mem_singleton.1 hu
            exact ⟨r, hown.rows ▸ hr, hheld ⟨r.id, p, f r.val⟩ List.mem_cons_self, rfl,
              hP r hr hs⟩ }
  · have hnone : (d.importDispatchOutbox.view p).filter sel = [] := by
      rw [List.filter_eq_nil_iff]
      intro r hr hs
      exact hex ⟨r, h.mem_rows hr (hsel r hs ▸ hk), hs⟩
    rw [hnone] at hnew
    subst hnew
    refine ⟨[], rfl, ?_, rfl, rfl, .inl ⟨rfl, fun r hr => by
      simpa using fun e => hex ⟨r, hr, e⟩⟩⟩
    exact
      { shipments := h.shipments
        errors := h.errors
        staged := by
          show T.staged p = _
          rw [hst, h.staged, List.map_append]
          rfl
        nodup := by simpa using h.nodup
        old := fun u hu => by
          obtain ⟨r', hr', hh, e, hPr⟩ := h.old u (by simpa using hu)
          exact ⟨r', hown.rows ▸ hr', hkeep _ hh, e, hPr⟩ }

/-! ## The commit -/

theorem event (h : Updating p P us d) (k : Nat) :
    (d.commit p).event k = (us.find? (·.id == k)).or (d.event k) := by
  show (Table.view _ p).find? _ = _
  rw [Table.view, h.staged]
  refine Table.find?_foldl_update h.nodup (fun u hu => ?_) k
  obtain ⟨r, hr, -, e, -⟩ := h.old u hu
  exact ⟨r, hr, e⟩

/-- Where the events after the commit come from. -/
theorem mem_commit (hw : d.Wf) (h : Updating p P us d) {o : OutboxRow}
    (ho : o ∈ (d.commit p).importDispatchOutbox.rows) :
    o ∈ us ∨ (o ∈ d.importDispatchOutbox.rows ∧ ∀ u ∈ us, u.id ≠ o.id) := by
  have he := (Database.event_eq_some (Database.wf_commit hw)).2 ⟨ho, rfl⟩
  rw [h.event] at he
  cases hf : us.find? (·.id == o.id) with
  | some u =>
    rw [hf] at he
    cases he
    exact .inl (List.mem_of_find?_eq_some hf)
  | none =>
    rw [hf] at he
    refine .inr ⟨((Database.event_eq_some hw).1 he).1, fun u hu e => ?_⟩
    exact List.find?_eq_none.1 hf u hu (beq_iff_eq.2 e)

/-- What became of an event. -/
theorem commit_mem (hw : d.Wf) (h : Updating p P us d) {o : OutboxRow}
    (ho : o ∈ d.importDispatchOutbox.rows) :
    o ∈ (d.commit p).importDispatchOutbox.rows ∨
      ∃ u ∈ us, u ∈ (d.commit p).importDispatchOutbox.rows ∧ u.id = o.id ∧ P o u := by
  have he : d.event o.id = some o := (Database.event_eq_some hw).2 ⟨ho, rfl⟩
  have hc := h.event o.id
  cases hf : us.find? (·.id == o.id) with
  | some u =>
    rw [hf, Option.some_or] at hc
    obtain ⟨hm, hid⟩ := (Database.event_eq_some (Database.wf_commit hw)).1 hc
    have hu := List.mem_of_find?_eq_some hf
    obtain ⟨r, hr, -, e, hP⟩ := h.old u hu
    obtain rfl := Table.eq_of_id hw.outbox.nodup hr ho (e.trans hid)
    exact .inr ⟨u, hu, hm, hid, hP⟩
  | none =>
    rw [hf, Option.none_or, he] at hc
    exact .inl ((Database.event_eq_some (Database.wf_commit hw)).1 hc).1

/-- The number of events of an import. -/
theorem intents (hw : d.Wf) (h : Updating p P us d)
    (hP : ∀ r ∈ d.importDispatchOutbox.rows, ∀ u ∈ us, r.id = u.id → P r u →
      u.val.importId = r.val.importId) (i : ImportId) :
    (d.commit p).intents i = d.intents i := by
  have hev : Table.Evolves (fun r u : OutboxRow => u.val.importId = r.val.importId)
      (fun _ => False) d.importDispatchOutbox.rows (d.commit p).importDispatchOutbox.rows := by
    refine ⟨fun r hr => ?_, fun u hu => ?_⟩
    · rcases h.commit_mem hw hr with hm | ⟨u, -, hm, e, -⟩
      · exact ⟨r, hm, rfl⟩
      · exact ⟨u, hm, e⟩
    · rcases h.mem_commit hw hu with hu | ⟨hu, -⟩
      · obtain ⟨r, hr, -, e, hPr⟩ := h.old u hu
        exact .inr (.inl ⟨r, hr, e, hP r hr u hu e hPr⟩)
      · exact .inl hu
  exact hev.count hw.outbox.nodup (Database.wf_commit (s := p) hw).outbox.nodup
    (fun _ _ h => h) i

section
variable {C : Setting} {t : Task} {w : World} {g : Ghost}

/-- What the commit has to be, where the jobs are left to show. -/
theorem commitOk (hi : C.Inv (w, g)) (ht : t.role = .publisher) (h : Updating p P us w.db)
    (hstep : ∀ r ∈ w.db.importDispatchOutbox.rows, ∀ u ∈ us, r.id = u.id → P r u →
      OutboxStep C.env.settings (· ∈ g.sent) .publisher p (some r) (some u))
    (hclaims : ∀ r ∈ w.db.importDispatchOutbox.rows, ∀ u ∈ us, r.id = u.id → P r u →
      ∀ tk, u.val.claimToken = some tk → g.drawn tk = some (u.writer, u.id))
    (steps : ∀ i, Slice.Step C.env .publisher p (w.db.now p w.time) (w.db.slice i)
      ((w.db.commit p).slice i))
    (unclaimed : C.unclaimed → ∀ i, Setting.GivesUp (w.db.slice i) ((w.db.commit p).slice i))
    (dispatched : C.track → Dispatched (w.commit p) g) : CommitOk C p t w g g where
  steps i := ht ▸ steps i
  seals fz _ := seals_of_steps (by decide) (steps fz.importId)
  events k := by
    show OutboxStep _ _ _ _ _ ((w.db.commit p).event k)
    rw [h.event, ht]
    cases hf : us.find? (·.id == k) with
    | none =>
      rw [Option.none_or]
      exact .stay _
    | some u =>
      have hu := List.mem_of_find?_eq_some hf
      obtain ⟨r, hr, -, e, hP⟩ := h.old u hu
      have hk : r.id = k := e.trans (by simpa using List.find?_some hf)
      rw [Option.some_or, (Database.event_eq_some hi.wf).2 ⟨hr, hk⟩]
      exact hstep r hr u hu e hP
  intended i hint := absurd hint (by rw [ht]; exact (steps i).not_intends (.inr rfl))
  unintended i _ := by
    refine h.intents hi.wf (fun r hr u hu e hP => ?_) i
    obtain ⟨u', hu', -, himp⟩ := (hstep r hr u hu e hP).importId
    cases hu'
    exact himp
  unclaimed := unclaimed
  claims o ho tk htk := by
    rcases h.mem_commit hi.wf ho with hu | ⟨hr, -⟩
    · obtain ⟨r, hr, -, e, hP⟩ := h.old o hu
      exact hclaims r hr o hu e hP tk htk
    · exact hi.outbox.claims o hr tk htk
  responsible _ _ := rfl
  own _ := .inl
  discharged := rfl
  drawn := rfl
  sent := rfl
  dispatched := dispatched

/-- The same for a transaction that changes no job, and leaves what carries an import carrying it.
-/
theorem commitOk_of_jobs (hi : C.Inv (w, g)) (ht : t.role = .publisher) (h : Updating p P us w.db)
    (hj : w.db.importJobs.staged p = [])
    (hstep : ∀ r ∈ w.db.importDispatchOutbox.rows, ∀ u ∈ us, r.id = u.id → P r u →
      OutboxStep C.env.settings (· ∈ g.sent) .publisher p (some r) (some u))
    (hclaims : ∀ r ∈ w.db.importDispatchOutbox.rows, ∀ u ∈ us, r.id = u.id → P r u →
      ∀ tk, u.val.claimToken = some tk → g.drawn tk = some (u.writer, u.id))
    (hcarry : ∀ r ∈ w.db.importDispatchOutbox.rows, ∀ u ∈ us, r.id = u.id → P r u →
      ∀ i, Carrier g i r → Carrier g i u) : CommitOk C p t w g g := by
  have hsl : ∀ i, (w.db.commit p).slice i = w.db.slice i := fun i => by
    rw [h.toRowsKept.slice, commit_job_of_nil hj]
  refine h.commitOk hi ht hstep hclaims (fun i => by rw [hsl]; exact .stay _)
    (fun _ i r hr hp hf => ?_) fun htr => ?_
  · rw [hsl, Slice.status, hr, Option.map_some, hp] at hf
    cases hf
  · refine (hi.dispatched htr).commit hi.wf (fun _ _ => rfl) rfl fun r hr hp => ?_
    have hjobs : (w.db.commit p).importJobs.rows = w.db.importJobs.rows := Table.view_eq _ _ hj
    rcases (hi.dispatched htr).carried r (hjobs ▸ hr) hp with hc | hc | ⟨o, ho, hc⟩
    · exact .inl hc
    · exact .inr (.inl hc)
    · rcases h.commit_mem hi.wf ho with hm | ⟨u, hu, hm, e, hP⟩
      · exact .inr (.inr ⟨o, hm, hc⟩)
      · exact .inr (.inr ⟨u, hm, hcarry o ho u hu e.symm hP _ hc⟩)

end

end Updating

end ShipmentImport

import ShipmentImport.Properties.Backoff
import ShipmentImport.Properties.Heartbeats
import ShipmentImport.Properties.Phases
import ShipmentImport.Properties.Undisturbed
import ShipmentImport.Properties.Waits

/-!
# Imports can be brought to an end

Whatever happened before, an import that is being processed, or waits and still has a dispatch, is
not lost: once the processes that run are gone, starting publishers, recoveries and workers one
after the other ends it. Each phase is a run that leaves no process, and the number of attempts left
bounds the phases. Timeouts have to pass in between, so the clock must still have room for them.
-/

namespace ShipmentImport

open Relation

/-- Publishers, recoveries, watchdogs and workers run one at a time, and nothing fails. -/
def OneByOne (c : State) : Event → Prop
  | .spawn t => c.Quiet ∧ t.role ≠ .creator
  | .step _ ch => ch = .run
  | .finish _ | .env (.advance _) => True
  | .crash _ | .env (.duplicate _) => False

theorem permits_oneByOne {t : Task} (ht : t.role ≠ .creator) :
    State.Permits OneByOne false t :=
  ⟨fun _ hq => ⟨hq, ht⟩, fun _ _ s => by cases s <;> rfl, fun _ _ => trivial⟩

/-- No workbook makes its reader raise an error of the database driver, and the database can limit a
query to a batch. -/
structure Env.Orderly (env : Env) : Prop where
  reads : env.ReadsCalmly
  outboxBatch : env.settings.outboxBatchSize.1 < 2 ^ 63
  watchdogBatch : env.settings.watchdogBatchSize.1 < 2 ^ 63

section
variable {env : Env} {c c' c₁ c₂ : State}

/-- Where no process runs, a task runs to its end. -/
theorem Reachable.runs_alone (h : Reachable env c) (hq : c.Quiet) {t : Task} {w : World}
    (ht : t.role ≠ .creator) (hl : c.world.launch t = some w) :
    ∃ τ o c', c.LeadsTo env OneByOne c' ∧ Prog.Ends (World.Performs env false c.procs.length t) Eq
      (taskProgram env c.procs.length t) w τ o c'.world := by
  let p := c.procs.length
  let I (d : State) : Prop := Reachable env d ∧ ∀ q, q ≠ p → d.proc q = none
  let d : State := { c with world := w, procs := c.procs ++ [some (t, taskProgram env p t)] }
  have hspawn : (service env).next c (.spawn t) = some d := by
    simp only [Machine.next, service, hl, Option.map_some]
    rfl
  have hproc : ∀ q, d.proc q = if q = p then some (t, taskProgram env p t) else c.proc q :=
    Machine.proc_append
  have hd : I d := ⟨h.next hspawn, fun q hne => by rw [hproc, if_neg hne, hq]⟩
  have hgo : ∀ (e : State) s k, I e → e.proc p = some (t, .stmt s k) →
      (World.exec env p t s .run e.world).isSome := by
    rintro e s k ⟨he, hothers⟩ hp
    have hcan := (he.goes_on (by rw [hp]; simp)).2 fun q hw =>
      he.waited_live hw (hothers q (by obtain ⟨_, _, _, -, hne, -⟩ := hw; exact hne))
    rcases hcan with hcan | hcan
    · simpa [Machine.next, hp, service] using hcan
    · simp [Machine.next, hp] at hcan
  have hkeep : ∀ e e' : State, I e → (service env).next e (.step p .run) = some e' → I e' := by
    rintro e e' ⟨he, hothers⟩ hn
    refine ⟨he.next hn, fun q hne => ?_⟩
    simp only [Machine.next] at hn
    split at hn
    · next hp =>
      obtain ⟨x, -, rfl⟩ := Option.map_eq_some_iff.1 hn
      rw [Outline.proc_set hp, if_neg hne]
      exact hothers q hne
    · cases hn
  obtain ⟨τ, o, e, hends, hr, ⟨-, hothers⟩, hp⟩ := Machine.exists_ends OneByOne
    (M := service env) (fun _ _ => rfl) hgo hkeep hd (by rw [hproc, if_pos rfl])
  have hends : Prog.Ends (World.Performs env false p t) Eq
      (taskProgram env p t) w τ o e.world := hends.map (f := id)
    (fun s w r w' hx => by
      show World.exec env p t s (s.choice false) w = _
      cases s <;> exact hx) fun _ _ h => h
  refine ⟨τ, o, _, ⟨.head ⟨.spawn t, ⟨hq, ht⟩, hspawn⟩
    (hr.tail ⟨.finish p, trivial, Machine.next_finish hp⟩), fun q => ?_⟩, hends⟩
  rw [Outline.proc_set hp]
  split
  · rfl
  · next hne => exact hothers q hne

/-! ## From phase to phase -/

variable {i : ImportId} {a m : Nat}

/-- A job of a committed import. -/
theorem Reachable.job_of_mem (h : Reachable env c) {r : Version ImportJob}
    (hr : r ∈ c.world.db.importJobs.rows) :
    r.val.Consistent ∧ r.val.attemptCount ≤ r.val.maxAttempts ∧
      (r.val.status = .pending → r.val.attemptCount < r.val.maxAttempts) ∧
      r.val.maxAttempts = env.settings.importMaxAttempts.1 := by
  have hok := h.slice_ok r.id
  have hjob := h.slice_job hr
  exact ⟨(hok.history r hjob).consistent, hok.attempts r hjob, hok.claimable r hjob,
    (hok.history r hjob).maxAttempts_eq⟩

theorem Reachable.jobs_nodup (h : Reachable env c) :
    (c.world.committed.importJobs.map (·.id)).Nodup := by
  obtain ⟨g, hg⟩ := h.inv
  exact hg.wf.jobs.nodup

theorem Reachable.events_nodup (h : Reachable env c) :
    (c.world.committed.events.map (·.id)).Nodup := by
  obtain ⟨g, hg⟩ := h.inv
  exact hg.wf.outbox.nodup

variable (hw : env.Orderly)
include hw

/-- Watchdogs recover an import whose heartbeat is stale. -/
theorem Reachable.recovers {r : Version ImportJob} (n : Nat) : ∀ {c : State}, Reachable env c →
    c.Quiet → r ∈ c.world.committed.importJobs → inProgress r = true →
      Expired env.settings.processingStaleTimeoutSeconds.1 c.world.time r.val.lastHeartbeatAt →
      c.world.committed.importJobs.countP inProgress ≤ n → ∃ c', c.LeadsTo env OneByOne c' ∧
        c'.world.time = c.world.time ∧
        c'.world.committed.HasWaiting r.id r.val.attemptCount r.val.maxAttempts ∧
        (r.val.attemptCount < r.val.maxAttempts → c'.world.committed.Announced r.id) := by
  induction n with
  | zero =>
    intro c h hq hr hp hstale hn
    have := List.countP_pos_iff.2 ⟨r, hr, hp⟩
    omega
  | succ n ih =>
    intro c h hq hr hp hstale hn
    obtain ⟨c₁, hc₁, ks, hrec, hannounced, hks⟩ := h.pass hq
      (permits_oneByOne (t := .recoverStaleImports .schedule) (by decide)) rfl (N := fun s => ∃ ks,
        Recovers r c.world.committed ks s ∧
        (r.id ∈ ks → r.val.attemptCount < r.val.maxAttempts → s.Announced r.id) ∧
          ∃ x ∈ c.world.committed.importJobs, inProgress x = true ∧ x.id ∈ ks) fun p =>
      .seq (returns_recoverStaleImports env.settings.watchdogBatchSize.2 hw.watchdogBatch
        h.jobs_nodup hr hp hstale) fun _ => .ret fun w h => h
    by_cases hk : r.id ∈ ks
    · exact ⟨c₁, hc₁, hrec.time, hrec.done hk, hannounced hk⟩
    · -- the import is as it was, and fewer are in progress
      have hlt := hrec.jobs.countP_lt hks
      have htime : c₁.world.time = c.world.time := hrec.time
      obtain ⟨c₂, hc₂, htime₂, hN⟩ := ih (hc₁.reachable h) hc₁.quiet (hrec.jobs.mem hr hp hk) hp
        (htime ▸ hstale) (by omega)
      exact ⟨c₂, hc₁.trans hc₂, htime₂.trans htime, hN⟩

/-- Recoveries of stale claims settle the claim of an event that is stale. -/
theorem Reachable.settles_claim {o : Version ImportDispatchOutbox} (n : Nat) : ∀ {c : State},
    Reachable env c → c.Quiet → c.world.committed.HasWaiting o.val.importId a m →
      o ∈ c.world.committed.events → processing o = true →
      Expired env.settings.outboxStaleTimeoutSeconds.1 c.world.time o.val.claimedAt →
      c.world.committed.events.countP processing ≤ n → ∃ c', c.LeadsTo env OneByOne c' ∧
        c'.world.time = c.world.time ∧ c'.world.committed.HasWaiting o.val.importId a m ∧
        c'.world.committed.HasOutcome o.val.importId := by
  induction n with
  | zero =>
    intro c h hq hj ho hp hstale hn
    have := List.countP_pos_iff.2 ⟨o, ho, hp⟩
    omega
  | succ n ih =>
    intro c h hq hj ho hp hstale hn
    obtain ⟨c₁, hc₁, ks, hr, hks⟩ := h.pass hq (permits_oneByOne (t := .recoverStaleClaims)
      (by decide)) rfl (N := fun s => ∃ ks, Reclaims o a m c.world.committed ks s ∧
        ∃ x ∈ c.world.committed.events, processing x = true ∧ x.id ∈ ks) fun p =>
      .seq ((returns_recoverStaleClaims hw.outboxBatch h.events_nodup ho hp hstale).pre
        fun w hseen => ⟨hseen, hj⟩) fun _ => .ret fun w h => h
    by_cases hk : o.id ∈ ks
    · exact ⟨c₁, hc₁, hr.time, hr.job, hr.done hk⟩
    · -- the event is as it was, and fewer claims are left
      have hlt := hr.events.countP_lt hks
      have htime : c₁.world.time = c.world.time := hr.time
      obtain ⟨c₂, hc₂, htime₂, hN⟩ := ih (hc₁.reachable h) hc₁.quiet hr.job
        (hr.events.mem ho hp hk) hp (htime ▸ hstale) (by omega)
      exact ⟨c₂, hc₁.trans hc₂, htime₂.trans htime, hN⟩

/-- Publishers send a message for an event that is due. -/
theorem Reachable.sends_message {o : Version ImportDispatchOutbox} (n : Nat) : ∀ {c : State},
    Reachable env c → c.Quiet → c.world.committed.HasWaiting o.val.importId a m →
      o ∈ c.world.committed.events → pending o = true → o.val.availableAt ≤ c.world.time →
      c.world.committed.events.countP pending ≤ n → ∃ c', c.LeadsTo env OneByOne c' ∧
        c'.world.time = c.world.time ∧ c'.world.committed.HasWaiting o.val.importId a m ∧
        ⟨o.val.importId, 0⟩ ∈ c'.world.queue := by
  induction n with
  | zero =>
    intro c h hq hj ho hp hdue hn
    have := List.countP_pos_iff.2 ⟨o, ho, hp⟩
    omega
  | succ n ih =>
    intro c h hq hj ho hp hdue hn
    obtain ⟨c₁, hc₁, ks, hd, hsent, hks⟩ := h.pass hq (permits_oneByOne (t := .publishDueEvents)
      (by decide)) rfl (N := fun s => ∃ ks, Dispatches c.world.committed ks s ∧
        (∀ o ∈ c.world.committed.events, o.id ∈ ks → ⟨o.val.importId, 0⟩ ∈ s.queue) ∧
        (c.world.committed.HasDue →
          ∃ o ∈ c.world.committed.events, pending o = true ∧ o.id ∈ ks)) fun p =>
      .seq (returns_publishDueEvents hw.outboxBatch h.events_nodup) fun _ => .ret fun w h => h
    have htime : c₁.world.time = c.world.time := hd.time
    have hj₁ : c₁.world.committed.HasWaiting o.val.importId a m := by
      rw [Seen.HasWaiting, Seen.HasJob, hd.jobs]
      exact hj
    by_cases hk : o.id ∈ ks
    · exact ⟨c₁, hc₁, htime, hj₁, hsent o ho hk⟩
    · have hlt := hd.events.countP_lt (hks ⟨o, ho, hp, hdue⟩)
      obtain ⟨c₂, hc₂, htime₂, hN⟩ := ih (hc₁.reachable h) hc₁.quiet hj₁
        (hd.events.mem ho hp hk) hp (htime ▸ hdue) (by omega)
      exact ⟨c₂, hc₁.trans hc₂, htime₂.trans htime, hN⟩

omit hw

/-- An import that exists stays. -/
theorem Reachable.job_stays (h : Reachable env c) {P : State → Event → Prop}
    (hr : (service env).Run P c c') (hi : (c.world.db.slice i).job ≠ none) :
    (c'.world.db.slice i).job ≠ none := by
  induction hr with
  | refl => exact hi
  | tail hr hs ih =>
    obtain ⟨a, -, hn⟩ := hs
    have hd : Reachable env _ := h.trans (Machine.Run.mono (fun _ _ _ => trivial) hr)
    rcases hd.next_slice hn i with e | ⟨p, t, now, -, hstep⟩
    · rwa [e]
    · exact hstep.job_isSome ih

/-- A worker with a message of an import that waits takes it past its attempt. -/
theorem Reachable.attempts_import (hw : env.ReadsCalmly) (h : Reachable env c) (hq : c.Quiet)
    (hj : c.world.committed.HasJob i fun j => j.status = .pending ∧ j.attemptCount = a)
    {message : Message} (hm : message ∈ c.world.queue) (hi : message.importId = i) :
    ∃ c', c.LeadsTo env OneByOne c' ∧ c'.world.time = c.world.time ∧
      c'.world.committed.HasJob i fun j => j.status ≠ .pending ∧ a < j.attemptCount := by
  obtain ⟨r, hr, rfl, hs, rfl⟩ := hj
  let w : World := { c.world with queue := c.world.queue.erase message }
  have hl : c.world.launch (.processImport message none) = some w := by
    simp only [World.launch, if_pos hm]
    rfl
  obtain ⟨τ, o, c', hc', hends⟩ := h.runs_alone hq Role.noConfusion hl
  have halone := h.alone (p := c.procs.length) fun q _ => hq q
  have hw₀ : w.Alone c.procs.length := ⟨halone.db, halone.now⟩
  have hjob := h.job_of_mem hr
  have hclaimable : (w.seen c.procs.length).Claimable message.importId r.val.attemptCount := by
    rw [World.seen_eq (w := w) (h.idle (hq _)), hi]
    have hc : claimable r.id r = true := by
      simp [claimable, hs, hjob.2.2.1 hs]
    refine ⟨⟨r, hr, hc⟩, fun r' hr' hid => ?_⟩
    obtain rfl := Table.eq_of_id halone.db.wf.jobs.nodup hr' hr hid
    refine ⟨hc, rfl, Option.not_isSome_iff_eq_none.1 fun hf => ?_⟩
    exact absurd (hs.symm.trans (hjob.1.failure.2 hf)) (by decide)
  have hpast : c'.world.Past c.procs.length message.importId r.val.attemptCount := by
    rcases Prog.Ends.of_bind hends with ⟨e, -, hx⟩ | ⟨_, _, _, w', -, hx, hret⟩
    · exact meets_processImportTask hw w _ _ _ ⟨hw₀, hclaimable⟩ hx
    · cases hret
      exact meets_processImportTask hw w _ _ _ ⟨hw₀, hclaimable⟩ hx
  obtain ⟨r', hr'⟩ := Option.ne_none_iff_exists'.1 (h.job_stays hc'.run (i := r.id)
    (by rw [h.slice_job hr]; simp))
  obtain ⟨g, hg⟩ := (hc'.reachable h).inv
  obtain ⟨hmem, hid⟩ := (Database.job_eq_some hg.wf).1 hr'
  exact ⟨c', hc', (World.ends_time hends).trans rfl, r', hmem, hid,
    hpast.1 r' hmem (hid.trans hi.symm)⟩

/-! ## The end of an import -/

variable (env) in
/-- Import `i` can be brought to an end. -/
def State.CanEnd (c : State) (i : ImportId) : Prop :=
  ∃ c', c.LeadsTo env OneByOne c' ∧ ∃ r ∈ c'.world.db.importJobs.rows, r.id = i ∧
    (r.val.status = .completed ∨ r.val.status = .failed)

theorem State.LeadsTo.canEnd (h : c.LeadsTo env OneByOne c') (he : c'.CanEnd env i) :
    c.CanEnd env i :=
  have ⟨c₂, h₂, hr⟩ := he
  ⟨c₂, h.trans h₂, hr⟩

/-- The clock can go on for some microseconds. -/
def State.HasRoom (c : State) (n : Nat) : Prop := c.world.time.1 + n ≤ datetimeMax

/-- The clock goes on until a time has expired. -/
theorem State.Quiet.expires (env : Env) (hq : c.Quiet) (timeout n : Nat)
    (hroom : c.HasRoom (timeout * second + 1 + n)) : ∃ c', c.LeadsTo env OneByOne c' ∧
      c'.HasRoom n ∧ c'.world.committed.importJobs = c.world.committed.importJobs ∧
      c'.world.committed.events = c.world.committed.events ∧
      ∀ (time : Time) (column : Option Time), time ∈ column → time ≤ c.world.time →
        Expired timeout c'.world.time column := by
  unfold State.HasRoom at *
  obtain ⟨later, hlater⟩ : ∃ later : Time, later.1 = c.world.time.1 + (timeout * second + 1) :=
    ⟨⟨_, by omega⟩, rfl⟩
  have hle : c.world.time ≤ later := show c.world.time.1 ≤ later.1 by omega
  obtain ⟨c', hc', hw⟩ : ∃ c', c.LeadsTo env OneByOne c' ∧
      c'.world = { c.world with time := later } := hq.advance env (fun _ _ => trivial) hle
  have htime : c'.world.time = later := congrArg World.time hw
  refine ⟨c', hc', by rw [htime]; omega, by rw [hw]; rfl, by rw [hw]; rfl,
    fun time column hmem htime' => ⟨time, hmem, ?_⟩⟩
  have htime' : time.1 ≤ c.world.time.1 := htime'
  rw [htime]
  omega

section
variable {room : Nat} (hw : env.Orderly)
  (hnext : ∀ {c : State}, Reachable env c → c.Quiet → c.HasRoom room →
    (c.world.committed.HasJob i fun j => j.status ≠ .pending ∧ a < j.attemptCount) → c.CanEnd env i)
include hw hnext

/-- An import with a message ends, if it does after one more attempt. -/
theorem Reachable.end_of_message (h : Reachable env c) (hq : c.Quiet) (hroom : c.HasRoom room)
    (hj : c.world.committed.HasWaiting i a m) {message : Message} (hm : message ∈ c.world.queue)
    (hi : message.importId = i) : c.CanEnd env i := by
  obtain ⟨r, hr, hid, hs | hs, ha, -⟩ := hj
  · obtain ⟨c', hc', htime, hj'⟩ :=
      h.attempts_import hw.reads hq ⟨r, hr, hid, hs, ha⟩ hm hi
    exact hc'.canEnd (hnext (hc'.reachable h) hc'.quiet (by rwa [State.HasRoom, htime]) hj')
  · exact ⟨c, .refl hq, r, hr, hid, .inr hs⟩

theorem Reachable.end_of_announced (h : Reachable env c) (hq : c.Quiet) (hroom : c.HasRoom room)
    (hj : c.world.committed.HasWaiting i a m) (ha : c.world.committed.Announced i) :
    c.CanEnd env i := by
  obtain ⟨o, ho, rfl, hp, hdue⟩ := ha
  obtain ⟨c₁, hc₁, htime, hj₁, hm⟩ := Reachable.sends_message hw (o := o) (a := a) (m := m) _ h hq
    hj ho (by rw [pending, hp]; rfl) hdue (Nat.le_refl _)
  exact hc₁.canEnd (Reachable.end_of_message hw hnext (hc₁.reachable h) hc₁.quiet
    (by rwa [State.HasRoom, htime]) hj₁ hm rfl)

theorem Reachable.end_of_claimed (h : Reachable env c) (hq : c.Quiet)
    (hroom : c.HasRoom (env.settings.outboxStaleTimeoutSeconds.1 * second + 1 + room))
    (hj : c.world.committed.HasWaiting i a m) {o : Version ImportDispatchOutbox}
    (ho : o ∈ c.world.committed.events) (hi : o.val.importId = i)
    (hp : o.val.status = .processing) : c.CanEnd env i := by
  subst hi
  obtain ⟨g, hg⟩ := h.inv
  obtain ⟨claimedAt, hat⟩ := Option.isSome_iff_exists.1 ((hg.outbox.consistent o ho).claimed hp)
  have hle := h.claimed_le o.id o ((Database.event_eq_some hg.wf).2 ⟨ho, rfl⟩) hp claimedAt hat
  obtain ⟨c₁, hc₁, hroom₁, hjobs, hevents, hexpired⟩ := hq.expires env _ _ hroom
  obtain ⟨c₂, hc₂, htime, hj₂, hout⟩ := Reachable.settles_claim hw (o := o) (a := a) (m := m) _
    (hc₁.reachable h) hc₁.quiet (by rw [Seen.HasWaiting, Seen.HasJob, hjobs]; exact hj)
    (by rw [hevents]; exact ho) (by rw [processing, hp]; rfl) (hexpired _ _ hat hle) (Nat.le_refl _)
  have hroom₂ : c₂.HasRoom room := by rwa [State.HasRoom, htime]
  rcases hout with ha | ⟨r, hr, hid, hs⟩
  · exact (hc₁.trans hc₂).canEnd (Reachable.end_of_announced hw hnext
      ((hc₁.trans hc₂).reachable h) hc₂.quiet hroom₂ hj₂ ha)
  · exact ⟨c₂, hc₁.trans hc₂, r, hr, hid, .inr hs⟩

/-- An import that does not wait ends, if it does after one more attempt. -/
theorem Reachable.end_of_active (h : Reachable env c) (hq : c.Quiet)
    (hroom : c.HasRoom (env.settings.processingStaleTimeoutSeconds.1 * second + 1 + room))
    (hj : c.world.committed.HasJob i fun j => j.status ≠ .pending ∧ j.attemptCount = a) :
    c.CanEnd env i := by
  obtain ⟨r, hr, rfl, hs, rfl⟩ := hj
  cases hst : r.val.status with
  | pending => exact absurd hst hs
  | completed => exact ⟨c, .refl hq, r, hr, rfl, .inl hst⟩
  | failed => exact ⟨c, .refl hq, r, hr, rfl, .inr hst⟩
  | processing =>
    obtain ⟨b, hb⟩ := Option.isSome_iff_exists.1 ((h.job_of_mem hr).1.heartbeat hst)
    have hle := h.heartbeat_le r.id b ⟨r, h.slice_job hr, hst, hb⟩
    obtain ⟨c₁, hc₁, hroom₁, hjobs, -, hexpired⟩ := hq.expires env _ _ hroom
    obtain ⟨c₂, hc₂, htime, hj₂, ha⟩ := Reachable.recovers hw (r := r) _ (hc₁.reachable h) hc₁.quiet
      (by rw [hjobs]; exact hr) (by rw [inProgress, hst]; rfl) (hexpired _ _ hb hle) (Nat.le_refl _)
    have h₂ := (hc₁.trans hc₂).reachable h
    have hroom₂ : c₂.HasRoom room := by rwa [State.HasRoom, htime]
    obtain ⟨r₂, hr₂, hid, hs₂ | hs₂, hcount, hmax⟩ := hj₂
    · have hlt := (h₂.job_of_mem hr₂).2.2.1 hs₂
      rw [hcount, hmax] at hlt
      exact (hc₁.trans hc₂).canEnd (Reachable.end_of_announced hw hnext h₂ hc₂.quiet hroom₂
        ⟨r₂, hr₂, hid, .inl hs₂, hcount, hmax⟩ (ha hlt))
    · exact ⟨c₂, hc₁.trans hc₂, r₂, hr₂, hid, .inr hs₂⟩

end

/-- How long it takes until the watchdog recovers an import, in microseconds. -/
def Settings.recoveryTime (settings : Settings) : Nat :=
  settings.processingStaleTimeoutSeconds.1 * second + 1

/-- An import that does not wait ends: by induction on the attempts that are left. -/
theorem Reachable.end_of_past (hw : env.Orderly) (n : Nat) : ∀ {a : Nat} {c : State},
    env.settings.importMaxAttempts.1 ≤ a + n → Reachable env c → c.Quiet →
      c.HasRoom (n * env.settings.recoveryTime) →
      (c.world.committed.HasJob i fun j => j.status ≠ .pending ∧ a < j.attemptCount) →
        c.CanEnd env i := by
  induction n with
  | zero =>
    rintro a c hn h hq - ⟨r, hr, -, -, ha⟩
    obtain ⟨-, hle, -, hmax⟩ := h.job_of_mem hr
    omega
  | succ n ih =>
    rintro a c hn h hq hroom ⟨r, hr, hid, hs, ha⟩
    rw [Nat.succ_mul, Nat.add_comm] at hroom
    exact h.end_of_active hw (ih (by omega)) hq hroom ⟨r, hr, hid, hs, rfl⟩

/-- How long it can take until an import ends, in microseconds: a stale claim, and the attempts. -/
def Settings.endTime (settings : Settings) : Nat :=
  settings.outboxStaleTimeoutSeconds.1 * second + 1 +
    (settings.importMaxAttempts.1 + 1) * settings.recoveryTime

/-- An import that is processed, or waits and has an event or a message, ends, where its events are
due. -/
theorem Reachable.end_of_quiet (hw : env.Orderly) (h : Reachable env c) (hq : c.Quiet)
    (hroom : c.HasRoom env.settings.endTime) {r : Version ImportJob}
    (hr : r ∈ c.world.db.importJobs.rows)
    (hdue : ∀ o ∈ c.world.db.importDispatchOutbox.rows, o.val.importId = r.id →
      o.val.availableAt ≤ c.world.time)
    (hlive : r.val.status = .pending → LiveDispatch c r.id) : c.CanEnd env r.id := by
  have hnext : ∀ {c : State}, Reachable env c → c.Quiet →
      c.HasRoom (env.settings.importMaxAttempts.1 * env.settings.recoveryTime) →
      (c.world.committed.HasJob r.id fun j =>
        j.status ≠ .pending ∧ r.val.attemptCount < j.attemptCount) → c.CanEnd env r.id :=
    Reachable.end_of_past hw _ (Nat.le_add_left _ _)
  unfold State.HasRoom Settings.endTime at hroom
  rw [Nat.succ_mul] at hroom
  have hactive : c.HasRoom (env.settings.recoveryTime +
      env.settings.importMaxAttempts.1 * env.settings.recoveryTime) := by
    unfold State.HasRoom
    omega
  by_cases hp : r.val.status = .pending
  · have hj : c.world.committed.HasWaiting r.id r.val.attemptCount r.val.maxAttempts :=
      ⟨r, hr, rfl, .inl hp, rfl, rfl⟩
    have hwaits : c.HasRoom (env.settings.importMaxAttempts.1 * env.settings.recoveryTime) := by
      unfold State.HasRoom
      omega
    rcases hlive hp with ⟨o, ho, hi, hs | hs⟩ | ⟨message, hm, hi⟩ | ⟨p, t, x, hx, -⟩
    · exact h.end_of_announced hw hnext hq hwaits hj ⟨o, ho, hi, hs, hdue o ho hi⟩
    · refine h.end_of_claimed hw hnext hq ?_ hj ho hi hs
      unfold State.HasRoom
      omega
    · exact h.end_of_message hw hnext hq hwaits hj hm hi
    · rw [hq p] at hx
      cases hx
  · exact h.end_of_active hw hnext hq hactive ⟨r, hr, rfl, hp, rfl⟩

end

end ShipmentImport

import ShipmentImport.Properties.Alone

/-!
# Passes

What one pass of the watchdog, of a publisher and of the recovery of stale claims does when it is
alone and nothing fails: it takes every row it selects one step on. A batch need not hold every row
that could be selected, so a pass settles some of them and leaves the others as they are.
-/

namespace ShipmentImport

variable {env : Env} {down : Bool} {p : Nat} {t : Task}

/-! ## Rows that are seen -/

namespace Seen

variable {s : Seen} {i : ImportId} {P Q : ImportJob → Prop}

/-- Import `i` is seen, with `P`. -/
def HasJob (s : Seen) (i : ImportId) (P : ImportJob → Prop) : Prop :=
  ∃ r ∈ s.importJobs, r.id = i ∧ P r.val

theorem HasJob.mono (h : s.HasJob i P) (hPQ : ∀ j, P j → Q j) : s.HasJob i Q := by
  obtain ⟨r, hr, hi, hp⟩ := h
  exact ⟨r, hr, hi, hPQ _ hp⟩

theorem HasJob.update (h : s.HasJob i P) {sel : Version ImportJob → Bool}
    {f : ImportJob → ImportJob} (hf : ∀ r, r.id = i → P r.val → sel r = true → Q (f r.val))
    (hQ : ∀ r, r.id = i → P r.val → sel r = false → Q r.val) :
    (s.updateJobs p sel f).HasJob i Q := by
  obtain ⟨r, hr, rfl, hp⟩ := h
  refine ⟨_, List.mem_map_of_mem hr, ?_⟩
  cases hs : sel r with
  | true => exact ⟨rfl, hf r rfl hp hs⟩
  | false => exact ⟨rfl, hQ r rfl hp hs⟩

/-- An event of import `i` is to be dispatched by now. -/
def Announced (s : Seen) (i : ImportId) : Prop :=
  ∃ o ∈ s.events, o.val.importId = i ∧ o.val.status = .pending ∧ o.val.availableAt ≤ s.time

/-- Import `i` waits or has failed. -/
def HasWaiting (s : Seen) (i : ImportId) (a m : Nat) : Prop :=
  s.HasJob i fun j => (j.status = .pending ∨ j.status = .failed) ∧ j.attemptCount = a ∧
    j.maxAttempts = m

end Seen

/-- Where a time has expired, the bound can be computed that it is compared with. -/
theorem Expired.minus {timeout : Nat} {now : Time} {column : Option Time}
    (h : Expired timeout now column) :
    ∃ bound, now.minus timeout = .ok bound ∧ isBefore bound column = true := by
  have hle : timeout * second ≤ now.1 :=
    have ⟨_, _, hlt⟩ := h
    (Nat.le_add_left _ _).trans hlt.le
  have hb : now.minus timeout = .ok ⟨now.1 - timeout * second, (Nat.sub_le _ _).trans now.2⟩ :=
    Time.minus_eq_ok.2 (Nat.sub_add_cancel hle)
  exact ⟨_, hb, (isBefore_iff_expired hb).2 h⟩

theorem Server.oldest_nodup {α : Type} {server : Server} {time : α → Time} {n : Nat}
    {rows : List (Version α)} (h : (rows.map (·.id)).Nodup) :
    ((server.oldest time n rows).map (·.id)).Nodup :=
  (((List.perm_insertionSort _ rows).map _).nodup_iff.2 h).sublist
    ((List.take_sublist n _).map _)

theorem Server.oldest_ne_nil {α : Type} {server : Server} {time : α → Time} {n : Nat} (hn : 1 ≤ n)
    {rows : List (Version α)} (hr : rows ≠ []) : server.oldest time n rows ≠ [] := by
  rw [← List.length_pos_iff] at *
  rw [Server.oldest, List.length_take, List.length_insertionSort]
  omega

/-! ## The watchdog -/

theorem recoveryValues_apply (now : Time) (x : StaleImport) (j : ImportJob) :
    (((recoveryValues now x).apply j).status = .pending ∨
      ((recoveryValues now x).apply j).status = .failed) ∧
      ((recoveryValues now x).apply j).attemptCount = j.attemptCount ∧
      ((recoveryValues now x).apply j).maxAttempts = j.maxAttempts := by
  unfold recoveryValues
  split
  · exact ⟨.inr rfl, rfl, rfl⟩
  · exact ⟨.inl rfl, rfl, rfl⟩

def inProgress (r : Version ImportJob) : Bool := r.val.status == .processing

/-- The imports `ks` are in progress no more, of those that were; once `r` is among them, it waits
or has failed. -/
structure Recovers (r : Version ImportJob) (s : Seen) (ks : List Nat) (s' : Seen) : Prop where
  time : s'.time = s.time
  jobs : Table.Settles inProgress ks s.importJobs s'.importJobs
  done : r.id ∈ ks → s'.HasWaiting r.id r.val.attemptCount r.val.maxAttempts

section
variable {s s' : Seen} {ks : List Nat} {r : Version ImportJob}

/-- What a stale import is loaded as. -/
def toStaleImport (r : Version ImportJob) : StaleImport :=
  ⟨r.id, r.val.attemptCount, r.val.maxAttempts⟩

theorem Recovers.save (h : Recovers r s ks s') (hr : r ∈ s.importJobs)
    (hp : inProgress r = true) (now : Time) (x : StaleImport) : Recovers r s (ks ++ [x.id])
      (s'.updateJobs p (·.id == x.id) ((recoveryValues now x).apply ·)) where
  time := h.time
  jobs := by
    refine h.jobs.update (fun y _ hy => ⟨beq_eq_false_iff_ne.2 fun hs => ?_, fun _ => ?_⟩)
      fun y _ hy _ => ?_
    · rcases (recoveryValues_apply now x y.val).1 with h | h <;> cases h.symm.trans hs
    · simpa using hy
    · simpa using hy
  done hm := by
    -- it waits already, or it is as it was
    have hjob : s'.HasJob r.id fun j => j.attemptCount = r.val.attemptCount ∧
        j.maxAttempts = r.val.maxAttempts ∧
          (r.id ≠ x.id → j.status = .pending ∨ j.status = .failed) := by
      by_cases hk : r.id ∈ ks
      · exact (h.done hk).mono fun j ⟨hs, ha, hm⟩ => ⟨ha, hm, fun _ => hs⟩
      · refine ⟨r, h.jobs.mem hr hp hk, rfl, rfl, rfl, fun hne => absurd hm ?_⟩
        simp [hk, hne]
    refine hjob.update (fun y _ ⟨ha, hm, _⟩ _ => ?_) fun y hy ⟨ha, hm, hs⟩ hsel => ?_
    · obtain ⟨hs, ha', hm'⟩ := recoveryValues_apply now x y.val
      exact ⟨hs, ha'.trans ha, hm'.trans hm⟩
    · exact ⟨hs fun e => by simp [hy, e] at hsel, ha, hm⟩

/-- The intents that are added announce their imports. -/
theorem returns_insertIntents {imports : List StaleImport} {now : Time} (hnow : now = s.time)
    (hids : ∀ x ∈ imports, x.id ∈ s.importJobs.map (·.id)) :
    Py.Returns env down p t (fun w => Recovers r s ks (w.seen p))
      (ShipmentImport.forEach imports fun x => Py.query (.insertDispatchIntent x.id (some now)))
      fun _ w => Recovers r s ks (w.seen p) ∧ ∀ x ∈ imports, (w.seen p).Announced x.id := by
  refine .pre (.forEach (fun (done : List StaleImport) w => Recovers r s ks (w.seen p) ∧
    ∀ x ∈ done, (w.seen p).Announced x.id) fun done x rest hx => ?_) fun w h => ⟨h, by simp⟩
  refine (Py.Returns.insertDispatchIntent (N := fun s' =>
    Recovers r s ks s' ∧ ∀ y ∈ done ++ [x], s'.Announced y.id)).pre ?_
  rintro w ⟨h, hdone⟩
  have hid : x.id ∈ (w.seen p).importJobs.map (·.id) := h.jobs.ids ▸ hids x (by simp [hx])
  obtain ⟨z, hz, hzx⟩ := List.mem_map.1 hid
  refine ⟨⟨z, hz, hzx⟩, fun k created _ => ⟨⟨h.time, h.jobs, h.done⟩, fun u hu => ?_⟩⟩
  rcases List.mem_append.1 hu with hu | hu
  · obtain ⟨o, ho, hou⟩ := hdone u hu
    exact ⟨o, List.mem_append_left _ ho, hou⟩
  · obtain rfl := List.mem_singleton.1 hu
    exact ⟨_, List.mem_append_right _ List.mem_cons_self, rfl, rfl, (hnow.trans h.time.symm).le⟩

/-- A pass recovers some import that is in progress. Where `r` is among them, it has failed, or
waits for an attempt it still has and is announced. -/
theorem returns_recoverStaleImports {batchSize : Nat} (hpos : 1 ≤ batchSize)
    (hn : batchSize < 2 ^ 63) (hs : (s.importJobs.map (·.id)).Nodup) (hr : r ∈ s.importJobs)
    (hp : inProgress r = true)
    (hstale : Expired env.settings.processingStaleTimeoutSeconds.1 s.time r.val.lastHeartbeatAt) :
    Py.Returns env down p t (fun w => w.seen p = s) (recoverStaleImports env.settings batchSize)
      fun _ w => ∃ ks, Recovers r s ks (w.seen p) ∧
        (r.id ∈ ks → r.val.attemptCount < r.val.maxAttempts → (w.seen p).Announced r.id) ∧
          ∃ x ∈ s.importJobs, inProgress x = true ∧ x.id ∈ ks := by
  obtain ⟨bound, hbound, hbefore⟩ := hstale.minus
  let N (s' : Seen) : Prop := ∃ ks, Recovers r s ks s' ∧
    (r.id ∈ ks → r.val.attemptCount < r.val.maxAttempts → s'.Announced r.id) ∧
      ∃ x ∈ s.importJobs, inProgress x = true ∧ x.id ∈ ks
  let Stale (rows : List (Version ImportJob)) : Prop :=
    (∀ x ∈ rows, x ∈ s.importJobs ∧ inProgress x = true) ∧ rows ≠ []
  refine .seq (.clock) fun now => .seq (.lift (N := fun staleBefore w => staleBefore = bound ∧
    w.seen p = s ∧ now = s.time) fun w ⟨hseen, hnow⟩ => ?_) fun staleBefore => .of_and ?_
  · have hnow : now = s.time := hnow.trans (congrArg Seen.time hseen)
    exact ⟨bound, hnow ▸ hbound, rfl, hseen, hnow⟩
  rintro rfl
  refine .seq (.session (N := fun _ => N) ?_) fun _ => .ret fun _ h => h.1
  refine .seq (M := fun staleImports w => ∃ rows, staleImports = rows.map toStaleImport ∧
    (Stale rows ∧ now = s.time) ∧ Recovers r s [] (w.seen p))
    ((Py.Returns.lockStaleImports hn (N := fun staleImports s' => ∃ rows,
      staleImports = rows.map toStaleImport ∧ (Stale rows ∧ now = s.time) ∧
        Recovers r s [] s')).pre ?_) fun staleImports => .of_exists fun rows => .of_and ?_
  · rintro w ⟨rfl, hnow⟩
    refine ⟨_, rfl, ⟨⟨fun x hx => ?_, ?_⟩, hnow⟩, rfl, .refl, fun h => nomatch h⟩
    · obtain ⟨hx, hp⟩ := List.mem_filter.1 (Server.mem_oldest hx)
      exact ⟨hx, (Bool.and_eq_true_iff.1 hp).1⟩
    · exact Server.oldest_ne_nil hpos (List.ne_nil_of_mem
        (List.mem_filter.2 ⟨hr, Bool.and_eq_true_iff.2 ⟨hp, hbefore⟩⟩))
  rintro rfl
  refine .of_and fun ⟨⟨hrows, hne⟩, hnow⟩ => ?_
  -- the imports are saved, then the intents are added
  refine .seq (.pre (.forEach (fun done w => Recovers r s (done.map (·.id)) (w.seen p))
    fun done x rest _ => Py.Returns.saveImportJob.pre fun w h => by
      simpa using h.save hr hp now x) fun w h => h) fun _ => ?_
  rw [List.map_map]
  refine .seq (returns_insertIntents hnow fun x hx => ?_)
    fun _ => .ret fun w h => ⟨_, h.1, fun hk hlt => ?_, ?_⟩
  · obtain ⟨y, hy, rfl⟩ := List.mem_map.1 (List.mem_of_mem_filter hx)
    exact List.mem_map_of_mem (hrows y hy).1
  · obtain ⟨x, hx, hid⟩ := List.mem_map.1 hk
    have hxr : x = r := Table.eq_of_id hs (hrows x hx).1 hr hid
    exact hid ▸ h.2 (toStaleImport x)
      (List.mem_filter.2 ⟨List.mem_map_of_mem hx, by simpa [hxr, toStaleImport] using hlt⟩)
  · obtain ⟨x, hx⟩ := List.exists_mem_of_ne_nil _ hne
    exact ⟨x, (hrows x hx).1, (hrows x hx).2, List.mem_map_of_mem hx⟩

end

/-! ## The publisher -/

def pending (o : Version ImportDispatchOutbox) : Bool := o.val.status == .pending

/-- An event is due. -/
def Seen.HasDue (s : Seen) : Prop := ∃ o ∈ s.events, pending o = true ∧ o.val.availableAt ≤ s.time

/-- The events `ks` are pending no more, of those that were, and the jobs are as before. -/
structure Dispatches (s : Seen) (ks : List Nat) (s' : Seen) : Prop where
  jobs : s'.importJobs = s.importJobs
  queue : s.queue ⊆ s'.queue
  time : s'.time = s.time
  events : Table.Settles pending ks s.events s'.events

section
variable {s s' : Seen} {ks : List Nat}

theorem Dispatches.claim (h : Dispatches s ks s') (k : Nat) (token : Token) (claimedAt : Time) :
    Dispatches s (ks ++ [k]) (s'.updateEvents p (·.id == k) (.claim token claimedAt)) :=
  ⟨h.jobs, h.queue, h.time, h.events.update (fun r _ hr => ⟨rfl, fun _ => by simpa using hr⟩)
    fun r _ hr _ => by simpa using hr⟩

theorem Dispatches.publish (h : Dispatches s ks s') (k : Nat) (token : Option Token) (now : Time) :
    Dispatches s ks (s'.updateEvents p (claimed k token) (OutboxValues.published.apply now ·)) := by
  refine ⟨h.jobs, h.queue, h.time, ?_⟩
  rw [← List.append_nil ks]
  refine h.events.update (fun r _ hr => ⟨rfl, fun hp => ?_⟩) fun r _ hr => by simp at hr
  simp only [claimed, pending, Bool.and_eq_true, beq_iff_eq] at hr hp
  rw [hp] at hr
  exact absurd hr.1.2 (by decide)

theorem Dispatches.push (h : Dispatches s ks s') (m : Message) :
    Dispatches s ks { s' with queue := s'.queue ++ [m] } :=
  ⟨h.jobs, List.Subset.trans h.queue (List.subset_append_left _ _), h.time, h.events⟩

/-- Events are claimed one after the other. -/
theorem returns_claimEvents {claimedAt : Time} {events : List DueEvent} : Py.Returns env down p t
    (fun w => Dispatches s ks (w.seen p)) (claimEvents claimedAt events) fun claimedEvents w =>
      claimedEvents.map (·.importId) = events.map (·.importId) ∧
        Dispatches s (ks ++ events.map (·.outboxId)) (w.seen p) := by
  induction events generalizing ks with
  | nil => exact .ret fun w h => ⟨rfl, by simpa using h⟩
  | cons event events ih =>
    refine .seq (M := fun _ w => Dispatches s (ks ++ [event.outboxId]) (w.seen p))
      (Py.Returns.saveClaimedEvent.pre fun w h token => h.claim _ token claimedAt) fun token =>
        .seq ih fun claimedEvents => .ret fun w ⟨hids, h⟩ => ⟨by simp [hids], by simpa using h⟩

/-- The events a publisher loads. -/
structure Seen.Loads (s : Seen) (events : List DueEvent) : Prop where
  pending : ∀ e ∈ events, ∃ o ∈ s.events, pending o = true ∧ o.id = e.outboxId ∧
    o.val.importId = e.importId
  due : s.HasDue → events ≠ []

/-- A publisher claims the events it loads. -/
theorem returns_claimDueEvents (hn : env.settings.outboxBatchSize.1 < 2 ^ 63) :
    Py.Returns env down p t (fun w => w.seen p = s) (claimDueEvents env)
      fun claimedEvents w => ∃ events, s.Loads events ∧
        claimedEvents.map (·.importId) = events.map (·.importId) ∧
          Dispatches s (events.map (·.outboxId)) (w.seen p) := by
  let Claimed (claimedEvents : List ClaimedOutboxEvent) (s' : Seen) : Prop := ∃ events,
    s.Loads events ∧ claimedEvents.map (·.importId) = events.map (·.importId) ∧
      Dispatches s (events.map (·.outboxId)) s'
  refine (Py.Returns.session (N := Claimed) (.seq .clock fun claimedAt => ?_)).post
    fun _ _ h => h.1
  refine .seq (M := fun events w => s.Loads events ∧ Dispatches s [] (w.seen p))
    ((Py.Returns.lockDueEvents hn
      (N := fun events s' => s.Loads events ∧ Dispatches s [] s')).pre ?_)
    fun events => .of_and fun hloads => returns_claimEvents.post
      fun claimedEvents w ⟨hids, h⟩ => ⟨events, hloads, hids, h⟩
  rintro w ⟨rfl, rfl⟩
  refine ⟨⟨fun e he => ?_, fun ⟨o, ho, hp, hdue⟩ => ?_⟩, rfl, List.Subset.refl _, rfl, .refl⟩
  · obtain ⟨o, ho, rfl⟩ := List.mem_map.1 he
    obtain ⟨ho, hp⟩ := List.mem_filter.1 (Server.mem_oldest ho)
    exact ⟨o, ho, (Bool.and_eq_true_iff.1 hp).1, rfl, rfl⟩
  · have hmem : o ∈ (w.seen p).events.filter fun o =>
        pending o && decide (o.val.availableAt ≤ w.time) :=
      List.mem_filter.2 ⟨ho, Bool.and_eq_true_iff.2 ⟨hp, decide_eq_true hdue⟩⟩
    rw [ne_eq, List.map_eq_nil_iff]
    exact Server.oldest_ne_nil env.settings.outboxBatchSize.2 (List.ne_nil_of_mem hmem)

/-- A claimed event is dispatched, whatever becomes of its row. -/
theorem returns_publishEvent {c : ClaimedOutboxEvent} {ids : List ImportId} :
    Py.Returns env false p t
      (fun w => Dispatches s ks (w.seen p) ∧ ∀ i ∈ ids, ⟨i, 0⟩ ∈ (w.seen p).queue)
    (publishEvent env c) fun _ w =>
      Dispatches s ks (w.seen p) ∧ ∀ i ∈ ids ++ [c.importId], ⟨i, 0⟩ ∈ (w.seen p).queue := by
  let N (s' : Seen) : Prop := Dispatches s ks s' ∧ ∀ i ∈ ids ++ [c.importId], ⟨i, 0⟩ ∈ s'.queue
  have hsend : Py.Returns env false p t
      (fun w => Dispatches s ks (w.seen p) ∧ ∀ i ∈ ids, ⟨i, 0⟩ ∈ (w.seen p).queue)
      (Py.stmt (.dispatchImport c.importId)) fun _ w => N (w.seen p) := by
    refine Py.Returns.dispatchImport.pre fun w ⟨h, hi⟩ => ⟨h.push _, fun i hm => ?_⟩
    rcases List.mem_append.1 hm with hm | hm
    · exact List.mem_append_left _ (hi i hm)
    · obtain rfl := List.mem_singleton.1 hm
      exact List.mem_append_right _ List.mem_cons_self
  exact .attempted hsend fun _ => .seq (.session (N := fun _ => N)
    (Py.Returns.updateClaimedEvent.pre fun w ⟨h, hi⟩ now => ⟨h.publish _ _ now, hi⟩))
    fun _ => .ret fun w h => h.1

/-- A pass of a publisher sends a message for every event it claims, and claims one where one is
due. -/
theorem returns_publishDueEvents (hn : env.settings.outboxBatchSize.1 < 2 ^ 63)
    (hs : (s.events.map (·.id)).Nodup) : Py.Returns env false p t (fun w => w.seen p = s)
      (publishDueEvents env) fun _ w => ∃ ks, Dispatches s ks (w.seen p) ∧
      (∀ o ∈ s.events, o.id ∈ ks → ⟨o.val.importId, 0⟩ ∈ (w.seen p).queue) ∧
        (s.HasDue → ∃ o ∈ s.events, pending o = true ∧ o.id ∈ ks) := by
  refine .seq (returns_claimDueEvents hn) fun claimedEvents => .of_exists fun events => .of_and
    fun hloads => .of_and fun hids => ?_
  refine .seq (.pre (.forEach (fun done w => Dispatches s (events.map (·.outboxId)) (w.seen p) ∧
      ∀ i ∈ done.map (·.importId), ⟨i, 0⟩ ∈ (w.seen p).queue) fun done c rest _ =>
        returns_publishEvent.post fun _ w ⟨h, hi⟩ => ⟨h, by simpa using hi⟩)
    fun w h => ⟨h, fun i hi => nomatch hi⟩) fun _ => .ret fun w ⟨h, hi⟩ =>
      ⟨_, h, fun o ho hk => ?_, fun hdue => ?_⟩
  · obtain ⟨e, he, hid⟩ := List.mem_map.1 hk
    obtain ⟨o', ho', -, hid', himp⟩ := hloads.pending e he
    obtain rfl := Table.eq_of_id hs ho ho' (hid.symm.trans hid'.symm)
    rw [hids] at hi
    exact hi _ (List.mem_map.2 ⟨e, he, himp.symm⟩)
  · obtain ⟨e, he⟩ := List.exists_mem_of_ne_nil _ (hloads.due hdue)
    obtain ⟨o, ho, hp, hid, -⟩ := hloads.pending e he
    exact ⟨o, ho, hp, List.mem_map.2 ⟨e, he, hid.symm⟩⟩

end

/-! ## The recovery of stale claims -/

def processing (o : Version ImportDispatchOutbox) : Bool := o.val.status == .processing

/-- Import `i` is to be dispatched, or has failed. -/
def Seen.HasOutcome (s : Seen) (i : ImportId) : Prop :=
  s.Announced i ∨ s.HasJob i fun j => j.status = .failed

/-- The events `ks` are processing no more, of those that were; once event `o` is among them, the
outcome of its import is there. -/
structure Reclaims (o : Version ImportDispatchOutbox) (a m : Nat) (s : Seen) (ks : List Nat)
    (s' : Seen) : Prop where
  job : s'.HasWaiting o.val.importId a m
  time : s'.time = s.time
  events : Table.Settles processing ks s.events s'.events
  done : o.id ∈ ks → s'.HasOutcome o.val.importId

section
variable {s s' : Seen} {ks : List Nat} {o o' : Version ImportDispatchOutbox} {i : ImportId}
  {a m : Nat}

theorem Seen.HasWaiting.failPending (h : s.HasWaiting i a m) (i' : ImportId) (now : Time)
    (reason : String) : (s.updateJobs p (fun r => r.id == i' && r.val.status == .pending)
      (.failDispatch now reason)).HasWaiting i a m :=
  h.update (fun _ _ ⟨_, ha, hm⟩ _ => ⟨.inr rfl, ha, hm⟩) fun _ _ h _ => h

theorem Seen.HasWaiting.failed (h : s.HasWaiting i a m) (now : Time) (reason : String) :
    (s.updateJobs p (fun r => r.id == i && r.val.status == .pending)
      (.failDispatch now reason)).HasJob i fun j => j.status = .failed :=
  h.update (fun _ _ _ _ => rfl) fun r hr h hs => h.1.resolve_left fun hp => by simp [hr, hp] at hs

theorem Seen.HasOutcome.failPending (h : s.HasOutcome i) (i' : ImportId) (now : Time)
    (reason : String) : (s.updateJobs p (fun r => r.id == i' && r.val.status == .pending)
      (.failDispatch now reason)).HasOutcome i :=
  h.imp id fun h => h.update (fun _ _ _ _ => rfl) fun _ _ h _ => h

/-- A token-checked update leaves the events that are pending. -/
theorem Seen.HasOutcome.updateClaimed (h : s.HasOutcome i) (k : Nat) (token : Option Token)
    (f : ImportDispatchOutbox → ImportDispatchOutbox) :
    (s.updateEvents p (claimed k token) f).HasOutcome i := by
  refine h.imp_left fun ⟨o, ho, hi, hp⟩ => ⟨_, List.mem_map_of_mem ho, ?_⟩
  have hno : claimed k token o = false := by simp [claimed, hp]
  rw [hno]
  exact ⟨hi, hp⟩

theorem claimed_toStaleClaim {r : Version ImportDispatchOutbox} :
    claimed o.id o.val.claimToken r = true ↔
      r.id = o.id ∧ processing r = true ∧ r.val.claimToken = o.val.claimToken := by
  simp [claimed, processing, and_assoc]

section
variable (hs : (s.events.map (·.id)).Nodup) (ho' : o' ∈ s.events) (hp' : processing o' = true)
include hs ho' hp'

/-- The update of a stale claim settles its event. -/
theorem Reclaims.settle (h : Reclaims o a m s ks s')
    {f : ImportDispatchOutbox → ImportDispatchOutbox} (hf : ∀ x, (f x).status ≠ .processing) :
    Table.Settles processing (ks ++ [o'.id]) s.events
      (s'.updateEvents p (claimed o'.id o'.val.claimToken) f).events := by
  refine h.events.update (fun r _ hr => ⟨beq_eq_false_iff_ne.2 (hf r.val), fun _ => ?_⟩)
    fun r hr hk hp => ?_
  · rw [(claimed_toStaleClaim.1 hr).1]
    exact List.mem_cons_self
  · have hid := List.mem_singleton.1 hk
    obtain rfl := Table.eq_of_id hs (h.events.of_mem hr hp).1 ho' hid
    exact claimed_toStaleClaim.2 ⟨rfl, hp, rfl⟩

/-- The event of a stale claim is still there. -/
theorem Reclaims.updates_one (h : Reclaims o a m s ks s') (hk : o'.id ∉ ks) :
    ((s'.events.filter (claimed o'.id o'.val.claimToken)).length == 1) = true := by
  have hmem := h.events.mem ho' hp' hk
  have hn : (s'.events.map (·.id)).Nodup := h.events.ids ▸ hs
  have := Table.filter_put hn hmem rfl (p := claimed o'.id o'.val.claimToken)
    fun r hr => (claimed_toStaleClaim.1 hr).1
  rw [Table.put_self hn hmem, if_pos (claimed_toStaleClaim.2 ⟨rfl, hp', rfl⟩)] at this
  rw [this]
  rfl

theorem returns_recoverStaleClaim (hk : o'.id ∉ ks) (ho : o ∈ s.events) {recoveredAt : Time}
    (hat : recoveredAt ≤ s.time) : Py.Returns env down p t (fun w => Reclaims o a m s ks (w.seen p))
      (recoverStaleClaim env (toStaleClaim o') recoveredAt)
      fun _ w => Reclaims o a m s (ks ++ [o'.id]) (w.seen p) := by
  unfold recoverStaleClaim
  split
  · refine .seq (Py.Returns.updateClaimedEvent (N := fun failed s' => failed = true ∧
      s'.HasWaiting o.val.importId a m ∧ s'.time = s.time ∧
      Table.Settles processing (ks ++ [o'.id]) s.events s'.events ∧
      (o.id ∈ ks → s'.HasOutcome o.val.importId)) |>.pre fun w h now =>
        ⟨h.updates_one hs ho' hp' hk, h.job, h.time,
          h.settle hs ho' hp' fun _ h => (nomatch h), fun hk => (h.done hk).updateClaimed _ _ _⟩)
            fun failed => .of_and ?_
    rintro rfl
    refine .seq ((Py.Returns.failPendingImport
      (N := fun _ => Reclaims o a m s (ks ++ [o'.id]))).pre fun w ⟨hjob, htime, hevents, hdone⟩
        now b => ?_) fun _ => .ret fun _ h => h
    refine ⟨hjob.failPending _ _ _, htime, hevents, fun hm => ?_⟩
    rcases List.mem_append.1 hm with hm | hm
    · exact (hdone hm).failPending _ _ _
    · obtain rfl := Table.eq_of_id hs ho ho' (List.mem_singleton.1 hm)
      exact .inr (hjob.failed _ _)
  · refine .seq ((Py.Returns.updateClaimedEvent
      (N := fun _ => Reclaims o a m s (ks ++ [o'.id]))).pre fun w h now => ⟨h.job, h.time,
        h.settle hs ho' hp' fun _ h => (nomatch h), fun hm => ?_⟩) fun _ => .ret fun _ h => h
    rcases List.mem_append.1 hm with hm | hm
    · exact (h.done hm).updateClaimed _ _ _
    · obtain rfl := Table.eq_of_id hs ho ho' (List.mem_singleton.1 hm)
      have hsel : claimed o.id o.val.claimToken o = true := claimed_toStaleClaim.2 ⟨rfl, hp', rfl⟩
      refine .inl ⟨_, List.mem_map_of_mem (h.events.mem ho hp' hk), ?_⟩
      rw [show (claimed (toStaleClaim o).outboxId (toStaleClaim o).claimToken o) = true from hsel]
      exact ⟨rfl, rfl, hat.trans h.time.ge⟩

end

/-- Stale claims are recovered one after the other. -/
theorem returns_recoverStaleClaimsInTransaction (hs : (s.events.map (·.id)).Nodup)
    (ho : o ∈ s.events) {recoveredAt : Time} (hat : recoveredAt ≤ s.time)
    {rows : List (Version ImportDispatchOutbox)}
    (hrows : ∀ r ∈ rows, r ∈ s.events ∧ processing r = true)
    (hn : (rows.map (·.id)).Nodup) (hks : ∀ r ∈ rows, r.id ∉ ks) :
    Py.Returns env down p t (fun w => Reclaims o a m s ks (w.seen p))
      (recoverStaleClaimsInTransaction env recoveredAt (rows.map toStaleClaim))
      fun _ w => Reclaims o a m s (ks ++ rows.map (·.id)) (w.seen p) := by
  induction rows generalizing ks with
  | nil => exact .ret fun w h => by simpa using h
  | cons r rows ih =>
    rw [List.forall_mem_cons] at hrows hks
    rw [List.map_cons, List.nodup_cons] at hn
    refine .seq (returns_recoverStaleClaim hs hrows.1.1 hrows.1.2 hks.1 ho hat) fun _ => .seq
      (ih hrows.2 hn.2 fun x hx hm => ?_) fun _ => .ret fun w h => by
        simpa using h
    rcases List.mem_append.1 hm with hm | hm
    · exact hks.2 x hx hm
    · exact hn.1 (List.mem_map.2 ⟨x, hx, List.mem_singleton.1 hm⟩)

/-- A pass over the stale claims settles one, where event `o` is stale. -/
theorem returns_recoverStaleClaims (hn : env.settings.outboxBatchSize.1 < 2 ^ 63)
    (hs : (s.events.map (·.id)).Nodup) (ho : o ∈ s.events) (hp : processing o = true)
    (hstale : Expired env.settings.outboxStaleTimeoutSeconds.1 s.time o.val.claimedAt) :
    Py.Returns env down p t (fun w => w.seen p = s ∧ s.HasWaiting o.val.importId a m)
      (recoverStaleClaims env) fun _ w => ∃ ks, Reclaims o a m s ks (w.seen p) ∧
        ∃ x ∈ s.events, processing x = true ∧ x.id ∈ ks := by
  obtain ⟨bound, hbound, hbefore⟩ := hstale.minus
  let Stale (rows : List (Version ImportDispatchOutbox)) : Prop :=
    (∀ r ∈ rows, r ∈ s.events ∧ processing r = true) ∧ (rows.map (·.id)).Nodup ∧ rows ≠ []
  let N (s' : Seen) : Prop := ∃ ks, Reclaims o a m s ks s' ∧
    ∃ x ∈ s.events, processing x = true ∧ x.id ∈ ks
  refine .seq .clock fun recoveredAt => .seq (.lift (N := fun staleBefore w =>
    (staleBefore = bound ∧ recoveredAt = s.time) ∧ w.seen p = s ∧ s.HasWaiting o.val.importId a m)
      fun w ⟨⟨hseen, hjob⟩, hat⟩ => ?_) fun staleBefore => .of_and ?_
  · have hat : recoveredAt = s.time := hat.trans (congrArg Seen.time hseen)
    exact ⟨bound, hat ▸ hbound, ⟨rfl, hat⟩, hseen, hjob⟩
  rintro ⟨rfl, hat⟩
  refine (Py.Returns.session (N := fun _ => N) (.seq (M := fun staleClaims w => ∃ rows,
    staleClaims = rows.map toStaleClaim ∧ Stale rows ∧ Reclaims o a m s [] (w.seen p))
      ((Py.Returns.lockStaleClaims hn (N := fun staleClaims s' => ∃ rows,
        staleClaims = rows.map toStaleClaim ∧ Stale rows ∧ Reclaims o a m s [] s')).pre ?_)
          fun staleClaims => .of_exists fun rows => .of_and ?_)).post fun _ _ h => h.1
  · rintro w ⟨rfl, hjob⟩
    refine ⟨_, rfl, ⟨fun r hr => ?_, Server.oldest_nodup (hs.sublist (List.filter_sublist.map _)),
      Server.oldest_ne_nil env.settings.outboxBatchSize.2 (List.ne_nil_of_mem (List.mem_filter.2
        ⟨ho, Bool.and_eq_true_iff.2 ⟨hp, hbefore⟩⟩))⟩, hjob, rfl, .refl, fun h => nomatch h⟩
    obtain ⟨hr, hp⟩ := List.mem_filter.1 (Server.mem_oldest hr)
    exact ⟨hr, (Bool.and_eq_true_iff.1 hp).1⟩
  · rintro rfl
    refine .of_and fun ⟨hrows, hnodup, hne⟩ => (returns_recoverStaleClaimsInTransaction hs ho hat.le
      hrows hnodup fun _ _ => List.not_mem_nil).post fun _ w h => ⟨_, h, ?_⟩
    obtain ⟨r, hr⟩ := List.exists_mem_of_ne_nil _ hne
    exact ⟨r, (hrows r hr).1, (hrows r hr).2, List.mem_map_of_mem hr⟩

end

end ShipmentImport

import ShipmentImport.Refinement.OutboxUpdates
import ShipmentImport.Refinement.Watchdog

/-!
# What publishers do

`PublishOutboxService` against the protocol. A publisher draws a token for each event it claims
(`Claims`). The claim is handed over when the dispatch call returns, which puts a message for
the import on the queue; until then the claimed event stands for the import.
-/

namespace ShipmentImport

open Setting.Spec

/-! ## Claimed events -/

/-- Process `p` drew the token of the event, and what it knows of the rows that have it. -/
structure Known (p : Nat) (ev : ClaimedOutboxEvent) (x : World × Ghost) : Prop where
  drawn : x.2.drawn ev.claimToken = some (p, ev.outboxId)
  rows : ∀ o ∈ x.1.db.importDispatchOutbox.rows, o.val.claimToken = some ev.claimToken →
    o.val.importId = ev.importId ∧ o.val.attemptCount = ev.attemptCount

/-- The claim was not handed over yet. -/
structure Claims (p : Nat) (ev : ClaimedOutboxEvent) (x : World × Ghost) : Prop
    extends Known p ev x where
  undischarged : ev.claimToken ∉ x.2.discharged

/-- The claim was handed over, by a dispatch call that returned unless the event has another token
by now. -/
structure Sent (p : Nat) (ev : ClaimedOutboxEvent) (x : World × Ghost) : Prop where
  drawn : x.2.drawn ev.claimToken = some (p, ev.outboxId)
  discharged : ev.claimToken ∈ x.2.discharged
  returned : ev.claimToken ∈ x.2.sent ∨ ∀ o ∈ x.1.db.importDispatchOutbox.rows,
    o.val.claimToken ≠ some ev.claimToken

section
variable {C : Setting} {p : Nat} {t : Task} {ev : ClaimedOutboxEvent} {x y : World × Ghost}

theorem stable_known : C.Stable p (Known p ev) := fun x y ho h =>
  have ⟨h1, h2⟩ := stable_claimed ev.claimToken ev.outboxId
    (fun o => o.val.importId = ev.importId ∧ o.val.attemptCount = ev.attemptCount) x y ho
      ⟨h.drawn, h.rows⟩
  ⟨h1, h2⟩

theorem stable_claims : C.Stable p (Claims p ev) := fun x y ho h =>
  ⟨stable_known x y ho h.toKnown,
    (stable_undischarged ev.claimToken ev.outboxId x y ho ⟨h.drawn, h.undischarged⟩).2⟩

theorem stable_sent_event : C.Stable p (Sent p ev) := fun x y ho h =>
  { drawn := stable_drawn _ _ x y ho h.drawn
    discharged := stable_discharged _ x y ho h.discharged
    returned := h.returned.imp (stable_sent _ x y ho) fun hn =>
      (stable_claimed ev.claimToken ev.outboxId (fun _ => False) x y ho
        ⟨h.drawn, fun o ho ht => hn o ho ht⟩).2 }

theorem stable_all {evs : List ClaimedOutboxEvent} {A : ClaimedOutboxEvent → Assertion}
    (h : ∀ ev, C.Stable p (A ev)) : C.Stable p fun x => ∀ ev ∈ evs, A ev x :=
  fun x y ho hx ev he => h ev x y ho (hx ev he)

/-- What is known of an event lasts while no new row has its token. -/
theorem Known.step (h : Known p ev x) (hd : x.2.drawn ev.claimToken = y.2.drawn ev.claimToken)
    (hr : ∀ o ∈ y.1.db.importDispatchOutbox.rows, o.val.claimToken = some ev.claimToken →
      o ∈ x.1.db.importDispatchOutbox.rows) : Known p ev y :=
  ⟨hd ▸ h.drawn, fun o ho ht => h.rows o (hr o ho ht) ht⟩

theorem Claims.step (h : Claims p ev x) (hd : x.2.drawn ev.claimToken = y.2.drawn ev.claimToken)
    (hu : ev.claimToken ∈ y.2.discharged → ev.claimToken ∈ x.2.discharged)
    (hr : ∀ o ∈ y.1.db.importDispatchOutbox.rows, o.val.claimToken = some ev.claimToken →
      o ∈ x.1.db.importDispatchOutbox.rows) : Claims p ev y :=
  ⟨h.toKnown.step hd hr, fun hm => h.undischarged (hu hm)⟩

/-- Updates that take tokens away leave the other claims. -/
theorem Updating.claimed_rows {P : OutboxRow → OutboxRow → Prop} {us : List OutboxRow}
    {d : Database} (h : Updating p P us d) (hw : d.Wf) (hn : ∀ u ∈ us, u.val.claimToken = none)
    {tk : Token} : ∀ o ∈ (d.commit p).importDispatchOutbox.rows, o.val.claimToken = some tk →
      o ∈ d.importDispatchOutbox.rows := by
  intro o ho htk
  rcases h.mem_commit hw ho with hu | ⟨hr, -⟩
  · rw [hn o hu] at htk
    cases htk
  · exact hr

/-- Events of different rows have different tokens. -/
theorem Known.token_ne {ev' : ClaimedOutboxEvent} (h : Known p ev x) (h' : Known p ev' x)
    (hne : ev.outboxId ≠ ev'.outboxId) : ev.claimToken ≠ ev'.claimToken := by
  intro e
  have := h.drawn.symm.trans (e ▸ h'.drawn)
  exact hne (Prod.mk.inj (Option.some.inj this)).2

end

/-! ## The claim -/

/-- Process `p` draws the token `tk` for event `k`. -/
def Ghost.draw (g : Ghost) (tk : Token) (p k : Nat) : Ghost :=
  { g with drawn := Function.update g.drawn tk (some (p, k)) }

/-- The event as it is loaded when it is due. -/
def toDue (r : OutboxRow) : DueEvent := ⟨r.id, r.val.importId, r.val.attemptCount⟩

/-- The row session `p` makes of an event it claims under a token. -/
def claimRow (p : Nat) (claimedAt : Time) (c : OutboxRow × Token) : OutboxRow :=
  ⟨c.1.id, p, c.1.val.claim c.2 claimedAt⟩

/-- What the claim returns of it. -/
def toClaimed (c : OutboxRow × Token) : ClaimedOutboxEvent :=
  ⟨c.1.id, c.1.val.importId, c.2, c.1.val.attemptCount⟩

/-- The claim of a due event. -/
def ClaimUpdate (p : Nat) (claimedAt : Time) (r u : OutboxRow) : Prop :=
  r.val.status = .pending ∧ r.val.availableAt ≤ claimedAt ∧ ∃ tk, u = claimRow p claimedAt (r, tk)

/-- Session `p` locked the events `rs` and claimed `done` of them. -/
structure Claiming (p : Nat) (claimedAt : Time) (rs : List OutboxRow)
    (done : List (OutboxRow × Token)) (x : World × Ghost) : Prop where
  jobs : x.1.db.importJobs.staged p = []
  updating : Updating p (ClaimUpdate p claimedAt) (done.map (claimRow p claimedAt)) x.1.db
  held : ∀ r ∈ rs, r ∈ x.1.db.importDispatchOutbox.rows ∧ x.1.db.importDispatchOutbox.Holds p r.id
  drawn : ∀ c ∈ done, x.2.drawn c.2 = some (p, c.1.id) ∧ c.2 ∉ x.2.discharged

section
variable {C : Setting} {p : Nat} {t : Task} {claimedAt : Time} {rs : List OutboxRow}
  {done : List (OutboxRow × Token)}

theorem stable_claiming : C.Stable p (Claiming p claimedAt rs done) := by
  intro x y ho h
  obtain ⟨hi, -, hk, -⟩ := other_cases ho
  exact
    { jobs := hk.jobs.staged.trans h.jobs
      updating := Updating.local_ p _ _ _ _ hi.wf hk h.updating
      held := fun r hr =>
        have ⟨h1, h2⟩ := h.held r hr
        ⟨(hk.outbox.rows r h2).2 h1, (hk.outbox.holds _).2 h2⟩
      drawn := fun c hc => stable_undischarged _ _ x y ho (h.drawn c hc) }

/-- The due events that are locked are different. -/
theorem lockDueEvents_spec (n : Nat) :
    C.Spec p t (IdleAt p) (Py.query (.lockDueEvents n claimedAt))
      (Outcome (fun evs x => ∃ rs, evs = rs.map toDue ∧ (rs.map (·.id)).Nodup ∧
        (∀ r ∈ rs, r.val.status = .pending ∧ r.val.availableAt ≤ claimedAt) ∧
        Claiming p claimedAt rs [] x) fun _ => Anything) := by
  refine query (by trivial) (stable_outcome (fun _ => .exists fun _ => .and .const <| .and .const <|
    .and .const stable_claiming) fun _ => stable_anything) (fun w g r d' hi ha ho hx => ?_)
    fun w g f _ _ => trivial
  refine ⟨locksOk_of_exec hi.wf hx fun r _ h => h.elim, ?_⟩
  have hb := (Database.own_begin (s := p) hi.wf w.time).wf
  have hv : (w.db.begin p w.time).importDispatchOutbox.view p = w.db.importDispatchOutbox.rows :=
    Table.view_eq _ _ ha.outbox.staged
  have hpick := C.env.server.oldest_subperm (fun o : ImportDispatchOutbox => o.availableAt) n
  obtain ⟨rfl, -⟩ | ⟨rfl, rfl⟩ := (Database.limited_cases hx).symm
  · trivial
  obtain ⟨-, hst, hhit, -⟩ := Table.lockWhere_spec (s := p)
    (p := fun r => r.val.status == .pending && decide (r.val.availableAt ≤ claimedAt))
    hb.outbox fun l _ hr => (hpick l).subset hr
  refine ⟨_, rfl, Table.lockWhere_nodup hb.outbox hpick, fun r hr => ?_, ha.jobs.staged,
    ⟨⟨ha.shipments.staged, ha.errors.staged⟩, ?_, List.nodup_nil, fun u hu => by cases hu⟩,
    fun r hr => ?_,
    fun c hc => by cases hc⟩
  · obtain ⟨-, hp, -⟩ := hhit r hr
    simpa using hp
  · exact (congrFun hst p).trans ha.outbox.staged
  · obtain ⟨h1, -, h3, -⟩ := hhit r hr
    exact ⟨hv ▸ h1, h3⟩

/-- One more event is claimed, under a new token. -/
theorem saveClaimedEvent_spec {r : OutboxRow} {todo : List OutboxRow}
    (hn : ((done.map Prod.fst ++ r :: todo).map (·.id)).Nodup)
    (hs : r.val.status = .pending ∧ r.val.availableAt ≤ claimedAt) :
    C.Spec p t (Claiming p claimedAt (done.map Prod.fst ++ r :: todo) done)
      (Py.query (.saveClaimedEvent r.id claimedAt))
      (Outcome (fun tk => Claiming p claimedAt (done.map Prod.fst ++ r :: todo) (done ++ [(r, tk)]))
        fun _ => Anything) := by
  refine query_ghost (by trivial) (stable_outcome (fun _ => stable_claiming)
    fun _ => stable_anything) (fun w g res d' hi ha ho hx _ => ?_) fun w g f hi ha _ =>
    ⟨g, ghostStep_refl _ _ _, rfl, rfl, hi.dispatched, trivial⟩
  have hb := (Database.own_begin (s := p) hi.wf w.time).wf
  have hb' := (Database.own_issue (s := p) hb).wf
  have hlocks := locksOk_of_exec hi.wf hx fun r _ h => h.elim
  have hkeep : ∀ i, w.db.importDispatchOutbox.Holds p i → d'.importDispatchOutbox.Holds p i :=
    fun i hh => Database.exec_outbox_holds hb hh hx
  obtain ⟨res', hu, rfl⟩ := Database.mapReply_eq hx
  have hid : ∀ u ∈ done.map (claimRow p claimedAt), u.id ≠ r.id := by
    intro u hu e
    obtain ⟨c, hc, rfl⟩ := List.mem_map.1 hu
    rw [List.map_append, List.nodup_append] at hn
    exact hn.2.2 c.1.id (List.mem_map_of_mem (List.mem_map_of_mem hc)) r.id List.mem_cons_self e
  obtain ⟨hr, hheld⟩ := ha.held r (List.mem_append_right _ List.mem_cons_self)
  have hup := ha.updating
  obtain ⟨new, rfl, hup', hjobs, hissued, hnew⟩ := Updating.update
    (d := { w.db.begin p w.time with issued := (w.db.begin p w.time).issued + 1 }) hb'
    ⟨⟨hup.shipments, hup.errors⟩, hup.staged, hup.nodup, hup.old⟩
    (fun x hx => by simpa using hx) hid (fun x hxr hxs => by
      obtain rfl := Table.eq_of_id hi.wf.outbox.nodup hxr hr (by simpa using hxs)
      exact ⟨hs.1, hs.2, _, rfl⟩) hu
  obtain rfl : new = [claimRow p claimedAt (r, w.db.issued)] := by
    rcases hnew with ⟨-, hno⟩ | ⟨x, hxr, hxs, rfl⟩
    · exact absurd (hno r hr) (by simp)
    · obtain rfl := Table.eq_of_id hi.wf.outbox.nodup hxr hr (by simpa using hxs)
      rfl
  -- the token was not drawn before
  have hfresh : g.drawn w.db.issued = none := by
    cases hd : g.drawn w.db.issued with
    | none => rfl
    | some v => exact absurd (hi.outbox.drawn _ _ hd) (Nat.lt_irrefl _)
  have htoken : (g.draw w.db.issued p r.id).drawn w.db.issued = some (p, r.id) := by
    simp [Ghost.draw]
  have hother : ∀ tk, tk ≠ w.db.issued → (g.draw w.db.issued p r.id).drawn tk = g.drawn tk :=
    fun tk e => by simp [Ghost.draw, e]
  have hne : ∀ tk v, g.drawn tk = some v → tk ≠ w.db.issued := by
    rintro tk v hv rfl
    rw [hfresh] at hv
    cases hv
  refine ⟨g.draw w.db.issued p r.id, ⟨fun _ _ => rfl, fun _ => .inl, fun _ h => h,
    fun _ h => .inl h, fun tk v hv => (hother tk (hne tk v hv)).trans hv, fun _ h => h⟩, rfl,
    fun tk v hv => ?_, fun htr => ((hi.dispatched htr).quiet ho hlocks hkeep).congr rfl rfl, ?_⟩
  · by_cases e : tk = w.db.issued
    · rw [e, hissued]
      exact .inr (Nat.lt_succ_self _)
    · exact .inl (hother tk e ▸ hv)
  · refine ⟨(congrArg (·.staged p) hjobs).trans ha.jobs, by rwa [List.map_append], fun x hx => ?_,
      fun c hc => ?_⟩
    · have ⟨h1, h2⟩ := ha.held x hx
      exact ⟨ho.rows.outbox ▸ h1, hkeep _ h2⟩
    · rcases List.mem_append.1 hc with hc | hc
      · obtain ⟨h1, h2⟩ := ha.drawn c hc
        exact ⟨(hother _ (hne _ _ h1)).trans h1, h2⟩
      · obtain rfl := List.mem_singleton.1 hc
        refine ⟨htoken, fun hd => ?_⟩
        obtain ⟨v, hv⟩ := hi.outbox.discharged _ hd
        exact hne _ v hv rfl

/-- All locked events are claimed, one after the other. -/
theorem claimEvents_spec (hn : (rs.map (·.id)).Nodup)
    (hs : ∀ r ∈ rs, r.val.status = .pending ∧ r.val.availableAt ≤ claimedAt) :
    ∀ (todo : List OutboxRow) (done : List (OutboxRow × Token)), rs = done.map Prod.fst ++ todo →
      C.Spec p t (Claiming p claimedAt rs done) (claimEvents claimedAt (todo.map toDue))
        (Outcome (fun evs x => ∃ new, evs = new.map toClaimed ∧ new.map Prod.fst = todo ∧
          Claiming p claimedAt rs (done ++ new) x) fun _ => Anything) := by
  intro todo
  induction todo with
  | nil => exact fun done hrs => ret fun x h => ⟨[], rfl, rfl, by rwa [List.append_nil]⟩
  | cons r todo ih =>
    intro done hrs
    have hrs' : rs = (done.map Prod.fst ++ [r]) ++ todo := by rw [hrs, List.append_assoc]; rfl
    have hmem : r ∈ rs := by rw [hrs]; exact List.mem_append_right _ List.mem_cons_self
    have hsave : C.Spec p t (Claiming p claimedAt rs done)
        (Py.query (.saveClaimedEvent r.id claimedAt))
        (Outcome (fun tk => Claiming p claimedAt rs (done ++ [(r, tk)])) fun _ => Anything) := by
      rw [hrs] at hn ⊢
      exact saveClaimedEvent_spec hn (hs r hmem)
    refine seq hsave fun tk => ?_
    refine seq (ih (done ++ [(r, tk)]) (by rw [List.map_append]; exact hrs')) fun evs => ?_
    refine ret fun x ⟨new, h1, h2, h3⟩ => ⟨(r, tk) :: new, ?_, ?_, ?_⟩
    · rw [h1]
      rfl
    · rw [List.map_cons, h2]
    · rwa [List.append_assoc] at h3

/-- What the commit of the claim has to be. -/
theorem Claiming.commitOk {w : World} {g : Ghost} (hi : C.Inv (w, g)) (ht : t.role = .publisher)
    (h : Claiming p claimedAt rs done (w, g)) : CommitOk C p t w g g := by
  refine h.updating.commitOk_of_jobs hi ht h.jobs (fun r hr u hu e hP => ?_)
    (fun r hr u hu e hP tk htk => ?_) fun r hr u hu e hP i hc => ?_
  · obtain ⟨hp, hd, tk, rfl⟩ := hP
    exact .claim tk claimedAt hp hd
  · obtain ⟨c, hc, rfl⟩ := List.mem_map.1 hu
    cases htk
    exact (h.drawn c hc).1
  · obtain ⟨c, hcd, rfl⟩ := List.mem_map.1 hu
    obtain ⟨-, -, tk, he⟩ := hP
    refine ⟨?_, .inr ⟨rfl, fun tk' htk' => ?_⟩⟩
    · rw [he]
      exact hc.1
    · cases htk'
      exact (h.drawn c hcd).2

/-- After the commit the events are claimed. -/
theorem Claiming.claims {w : World} {g : Ghost} (hi : C.Inv (w, g))
    (hn : ((done.map Prod.fst).map (·.id)).Nodup) (h : Claiming p claimedAt rs done (w, g))
    {c : OutboxRow × Token} (hc : c ∈ done) : Claims p (toClaimed c) (w.commit p, g) := by
  obtain ⟨hd, hu⟩ := h.drawn c hc
  refine ⟨⟨hd, fun o ho htk => ?_⟩, hu⟩
  rcases h.updating.mem_commit hi.wf ho with hm | ⟨hm, hne⟩
  · obtain ⟨c', hc', rfl⟩ := List.mem_map.1 hm
    have htk' : c'.2 = c.2 := Option.some.inj htk
    have hid : c'.1.id = c.1.id := by
      have := (htk' ▸ (h.drawn c' hc').1).symm.trans hd
      exact (Prod.mk.inj (Option.some.inj this)).2
    have hrow := Table.eq_of_id hn (List.mem_map_of_mem hc') (List.mem_map_of_mem hc) hid
    exact ⟨congrArg (·.val.importId) hrow, congrArg (·.val.attemptCount) hrow⟩
  · have := (hi.outbox.claims o hm _ htk).symm.trans hd
    exact absurd (Prod.mk.inj (Option.some.inj this)).2.symm
      (hne (claimRow p claimedAt c) (List.mem_map_of_mem hc))

/-- `_claim_due_events`: the claimed events are different. -/
theorem claimDueEvents_spec (ht : t.role = .publisher) :
    C.Spec p t (IdleAt p) (claimDueEvents C.env)
      (Outcome (fun evs x => ((evs.map (·.outboxId)).Nodup ∧ ∀ ev ∈ evs, Claims p ev x) ∧ IdleAt p x)
        fun _ => IdleAt p) := by
  refine session (N := fun evs x => ∃ claimedAt rs done, evs = done.map toClaimed ∧
      ((done.map Prod.fst).map (·.id)).Nodup ∧ Claiming p claimedAt rs done x) ?_
    (fun evs => .and .const (stable_all fun _ => stable_claims)) (fun evs => ?_)
    fun evs w g hi ⟨hn, h⟩ => ⟨hn, fun ev hev => (h ev hev).step rfl (fun h => h) fun o ho _ => ho⟩
  · refine seq (weaken (clock stable_idle) (fun _ _ h => h) fun _ _ h => h.elim) fun claimedAt => ?_
    refine seq (lockDueEvents_spec _) fun evs => ?_
    refine Protocol.Triple.of_exists fun rs => Protocol.Triple.of_and fun he =>
      Protocol.Triple.of_and fun hn => Protocol.Triple.of_and fun hs => ?_
    subst he
    refine weaken (claimEvents_spec hn hs rs [] rfl) (fun evs x ⟨done, h1, h2, h3⟩ => ?_)
      fun _ _ _ => trivial
    exact ⟨claimedAt, rs, done, h1, by rwa [h2], h3⟩
  · refine commit (stable_outcome (fun _ => .and .const (stable_all fun _ => stable_claims))
      fun _ => stable_anything) (fun w g lost hl hi ha _ => ?_) fun w g f _ _ _ _ => trivial
    obtain ⟨claimedAt, rs, done, rfl, hn, h⟩ := ha
    refine ⟨g, h.commitOk hi ht, ?_⟩
    cases lost with
    | none =>
      refine ⟨?_, fun ev hev => ?_⟩
      · rw [List.map_map] at hn ⊢
        exact hn
      · obtain ⟨c, hc, rfl⟩ := List.mem_map.1 hev
        exact h.claims hi hn hc
    | some f => trivial

end

/-! ## The dispatch -/

/-- Process `p` hands the claim under `tk` over. -/
def Ghost.discharge (g : Ghost) (tk : Token) : Ghost := { g with discharged := tk :: g.discharged }

/-- The dispatch call under `tk` returned. -/
def Ghost.return (g : Ghost) (tk : Token) : Ghost := { g with sent := tk :: g.sent }

section
variable {C : Setting} {p : Nat} {t : Task} {w : World} {g : Ghost} {tk : Token} {k : Nat}

theorem ghostStep_discharge {subject : Option ImportId} (h : g.drawn tk = some (p, k)) :
    Setting.GhostStep p subject g (g.discharge tk) where
  responsible _ _ := rfl
  own _ := .inl
  kept _ h := List.mem_cons_of_mem _ h
  added tk' h' := by
    rcases List.mem_cons.1 h' with rfl | h'
    · exact .inr ⟨k, h⟩
    · exact .inl h'
  drawn _ _ h := h
  sent _ h := h

/-- A claim can be handed over when a message, or nothing, is needed for its import. -/
theorem Dispatched.discharge (h : Dispatched w g) {i : ImportId}
    (ho : ∀ o ∈ w.db.importDispatchOutbox.rows, o.val.claimToken = some tk →
      o.val.importId = i ∧ o.writer = p)
    (hi : ∀ r ∈ w.db.importJobs.rows, r.id = i → r.val.status = .pending →
      (∃ m ∈ w.queue, m.importId = i) ∧ ¬ w.db.importJobs.Holds p i) :
    Dispatched w (g.discharge tk) := by
  -- a row with another token is still undischarged
  have key : ∀ o ∈ w.db.importDispatchOutbox.rows, Undischarged g o →
      Undischarged (g.discharge tk) o ∨ o.val.importId = i ∧ o.writer = p := by
    intro o hm ⟨h1, h2⟩
    by_cases e : o.val.claimToken = some tk
    · exact .inr (ho o hm e)
    · refine .inl ⟨h1, fun tk' htk' hd => ?_⟩
      rcases List.mem_cons.1 hd with rfl | hd
      · exact e htk'
      · exact h2 tk' htk' hd
  constructor
  · intro r hr hp
    rcases h.carried r hr hp with hc | hc | ⟨o, hm, hc, hs⟩
    · exact .inl hc
    · exact .inr (.inl hc)
    · rcases hs with hs | hs
      · exact .inr (.inr ⟨o, hm, hc, .inl hs⟩)
      · rcases key o hm hs with hs | ⟨hio, -⟩
        · exact .inr (.inr ⟨o, hm, hc, .inr hs⟩)
        · have e : r.id = i := hc.symm.trans hio
          exact .inl (e ▸ (hi r hr e hp).1)
  · intro r hr hp s hs
    rcases h.covered r hr hp s hs with hc | ⟨o, hm, hh, hc, hw, hu⟩
    · exact .inl hc
    · rcases key o hm hu with hu | ⟨hio, hwo⟩
      · exact .inr ⟨o, hm, hh, hc, hw, hu⟩
      · have e : r.id = i := hc.symm.trans hio
        have es : s = p := hw.symm.trans hwo
        exact absurd (e ▸ es ▸ hs) (hi r hr e hp).2

/-- A message more on the queue. -/
theorem Dispatched.push (h : Dispatched w g) (m : Message) : Dispatched (w.push m) g :=
  ⟨fun r hr hst => (h.carried r hr hst).imp_left fun ⟨m, hm, e⟩ =>
    ⟨m, List.mem_append_left _ hm, e⟩, h.covered⟩

end

section
variable {C : Setting} {p : Nat} {t : Task} {ev : ClaimedOutboxEvent}
  {rest : List ClaimedOutboxEvent}

/-- The claims of the events that are still to be dispatched. -/
abbrev Waiting (p : Nat) (rest : List ClaimedOutboxEvent) : Assertion :=
  fun x => ∀ ev ∈ rest, Claims p ev x

theorem stable_waiting : C.Stable p (Waiting p rest) := stable_all fun _ => stable_claims

/-- The dispatch call. -/
theorem dispatchImport_spec (hne : ∀ ev' ∈ rest, ev.outboxId ≠ ev'.outboxId) :
    C.Spec p t (fun x => IdleAt p x ∧ Claims p ev x ∧ Waiting p rest x)
      (Py.stmt (.dispatchImport ev.importId))
      (Outcome (fun _ x => IdleAt p x ∧ Sent p ev x ∧ Waiting p rest x)
        fun _ x => IdleAt p x ∧ Claims p ev x ∧ Waiting p rest x) := by
  refine stmt (stable_outcome (fun _ => stable_idle.and (stable_sent_event.and stable_waiting))
    fun _ => stable_idle.and (stable_claims.and stable_waiting)) fun w g r w' ch hi ha he _ => ?_
  obtain ⟨hidle, hc, hw⟩ := ha
  have hlive : ∀ s' r', some (⟨.dispatchImport ev.importId, r⟩ : Prog.Exchange Stmt Stmt.Reply Exc) =
      some ⟨s', r'⟩ → s'.Live := fun s' r' e => by cases e; trivial
  have hown := Database.own_refl (s := p) hi.wf
  cases ch with
  | fail f =>
    cases he
    exact ⟨g, quiet_step _ _ hi hown (ghostStep_refl _ _ _) (fun _ _ => .inl) hi.dispatched
      (fun _ => .inl) hlive, hidle, hc, hw⟩
  | lost f =>
    cases he
    have hs := quiet_step (w.push ⟨ev.importId, 0⟩) _ hi hown (ghostStep_refl p t.subject g)
      (fun _ _ => .inl) (fun htr => (hi.dispatched htr).push _) (fun _ => .inl) hlive
    exact ⟨g, hs, hidle, hc.step rfl (fun h => h) fun o ho _ => ho, fun e he =>
      (hw e he).step rfl (fun h => h) fun o ho _ => ho⟩
  | run =>
    cases he
    -- the others wait under other tokens
    have hother : ∀ e ∈ rest, e.claimToken ≠ ev.claimToken := fun e he =>
      ((hc.toKnown).token_ne (hw e he).toKnown (hne e he)).symm
    have hdis : C.track → Dispatched (w.push ⟨ev.importId, 0⟩) (g.discharge ev.claimToken) := by
      intro htr
      refine ((hi.dispatched htr).push ⟨ev.importId, 0⟩).discharge (p := p) (i := ev.importId)
        (fun o ho htk => ⟨(hc.rows o ho htk).1, ?_⟩) fun r hr e hp =>
        ⟨⟨_, List.mem_append_right _ List.mem_cons_self, rfl⟩, hidle.jobs.lock _⟩
      have := (hi.outbox.claims o ho _ htk).symm.trans hc.drawn
      exact (Prod.mk.inj (Option.some.inj this)).1
    have hwait : ∀ g' : Ghost, g'.drawn = g.drawn →
        g'.discharged = ev.claimToken :: g.discharged →
        Waiting p rest (w.push ⟨ev.importId, 0⟩, g') := by
      intro g' h1 h2 e he
      refine (hw e he).step (congrFun h1.symm _) (fun hm => ?_) fun o ho _ => ho
      rw [h2] at hm
      exact (List.mem_cons.1 hm).resolve_left (hother e he)
    by_cases hex : ∃ o ∈ w.db.importDispatchOutbox.rows, o.val.claimToken = some ev.claimToken
    · obtain ⟨o, ho, htk⟩ := hex
      have hwr : o.writer = p := by
        have := (hi.outbox.claims o ho _ htk).symm.trans hc.drawn
        exact (Prod.mk.inj (Option.some.inj this)).1
      have hg : Setting.GhostStep p t.subject g _ := ghostStep_discharge hc.drawn
      refine ⟨(g.discharge ev.claimToken).return ev.claimToken,
        quiet_step (w.push ⟨ev.importId, 0⟩) _ hi hown
        ⟨hg.responsible, hg.own, hg.kept, hg.added, hg.drawn, fun tk h => List.mem_cons_of_mem _ h⟩
        (fun _ _ => .inl) (fun htr => (hdis htr).congr rfl rfl) (fun tk htk' => ?_) hlive, hidle,
        ⟨hc.drawn, List.mem_cons_self, .inl List.mem_cons_self⟩, hwait _ rfl rfl⟩
      rcases List.mem_cons.1 htk' with rfl | htk'
      · exact .inr ⟨o, ho, htk, hwr, by rw [(hc.rows o ho htk).1]⟩
      · exact .inl htk'
    · refine ⟨g.discharge ev.claimToken, quiet_step (w.push ⟨ev.importId, 0⟩) _ hi hown
        (ghostStep_discharge hc.drawn) (fun _ _ => .inl) hdis (fun _ => .inl) hlive, hidle,
        ⟨hc.drawn, List.mem_cons_self, .inr fun o ho htk => hex ⟨o, ho, htk⟩⟩, hwait _ rfl rfl⟩

/-! ## The results -/

/-- The update of an event that has the claim. -/
def ResultUpdate (p : Nat) (ev : ClaimedOutboxEvent) (values : OutboxValues) (r u : OutboxRow) :
    Prop :=
  r.val.status = .processing ∧ r.val.claimToken = some ev.claimToken ∧
    ∃ now, u = ⟨r.id, p, values.apply now r.val⟩

theorem claimed_iff {k : Nat} {token : Option Token} {r : OutboxRow} :
    claimed k token r = true ↔ r.id = k ∧ r.val.status = .processing ∧ r.val.claimToken = token := by
  simp [claimed, and_assoc]

/-- The token-checked update of an event in a transaction of its own. -/
theorem exec_updateClaimedEvent {d d' : Database} {server : Server} {clock : Time} (hw : d.Wf)
    (hi : d.Idle p) {values : OutboxValues} {b : Bool}
    (hx : (d.begin p clock).exec server clock p (.updateClaimedEvent ev.outboxId
      (some ev.claimToken) values) = some (.ok b, d')) :
    d'.importJobs.staged p = [] ∧ ∃ us, Updating p (ResultUpdate p ev values) us d' ∧
      (b = false → us = []) ∧ (b = true → ∃ u, us = [u]) := by
  obtain ⟨res, hu, hb⟩ := Database.mapReply_eq hx
  have hwb := (Database.own_begin (s := p) hw clock).wf
  have h0 : Updating p (ResultUpdate p ev values) [] (d.begin p clock) :=
    ⟨⟨hi.shipments.staged, hi.errors.staged⟩, hi.outbox.staged, List.nodup_nil, fun u hu => by
      cases hu⟩
  obtain ⟨new, rfl, hup, hjobs, -, hnew⟩ := h0.update hwb (fun r hr => (claimed_iff.1 hr).1)
    (fun u hu => by cases hu) (fun r _ hr => ⟨(claimed_iff.1 hr).2.1, (claimed_iff.1 hr).2.2, _, rfl⟩)
    hu
  refine ⟨(congrArg (·.staged p) hjobs).trans hi.jobs.staged, new, hup, ?_⟩
  rcases hnew with ⟨rfl, -⟩ | ⟨r, -, -, rfl⟩
  · cases hb
    exact ⟨fun _ => rfl, fun h => (nomatch h)⟩
  · cases hb
    exact ⟨fun h => (nomatch h), fun _ => ⟨_, rfl⟩⟩

/-- What is waiting is still waiting after the commit of a result. -/
theorem Waiting.commit {w : World} {g : Ghost} {values : OutboxValues} {us : List OutboxRow}
    (hw : w.db.Wf) (h : Waiting p rest (w, g))
    (hup : Updating p (ResultUpdate p ev values) us w.db)
    (hn : ∀ now o, (values.apply now o).claimToken = none) : Waiting p rest (w.commit p, g) := by
  intro e he
  refine (h e he).step rfl (fun h => h) (hup.claimed_rows hw fun u hu => ?_)
  obtain ⟨r, -, -, -, -, -, now, rfl⟩ := hup.old u hu
  exact hn now r.val

/-- A session that records one result. -/
theorem result_session {α : Type} {body : Py α} {A : Assertion} {N : α → Assertion}
    (hbody : C.Spec p t A body (Outcome N fun _ => Anything))
    (hcommit : ∀ a w g, C.Inv (w, g) → N a (w, g) →
      CommitOk C p t w g g ∧ Waiting p rest (w.commit p, g)) :
    C.Spec p t A (ShipmentImport.withSession (ShipmentImport.inTransaction body))
      (Outcome (fun _ x => IdleAt p x ∧ Waiting p rest x) fun _ => IdleAt p) := by
  refine weaken (session (L := fun _ => Waiting p rest) hbody (fun _ => stable_waiting)
    (fun a => ?_) fun a w g hi h e he => (h e he).step rfl (fun h => h) fun o ho _ => ho)
    (fun _ _ h => ⟨h.2, h.1⟩) fun _ _ h => h
  refine commit (stable_outcome (fun _ => stable_waiting) fun _ => stable_anything)
    (fun w g lost hl hi ha _ => ?_) fun w g f _ _ _ _ => trivial
  obtain ⟨h1, h2⟩ := hcommit a w g hi ha
  refine ⟨g, h1, ?_⟩
  cases lost with
  | none => exact h2
  | some f => trivial

theorem Waiting.own {w : World} {g : Ghost} {d' : Database} (ho : Database.Own p w.db d')
    (h : Waiting p rest (w, g)) : Waiting p rest (w.withDb d', g) := fun e he =>
  (h e he).step rfl (fun h => h) fun _ hm _ => ho.rows.outbox ▸ hm

/-- Session `p` recorded the result of the event, or found that it has no claim anymore. -/
def Recorded (p : Nat) (ev : ClaimedOutboxEvent) (values : OutboxValues) (b : Bool) (d : Database) :
    Prop :=
  d.importJobs.staged p = [] ∧ ∃ us, Updating p (ResultUpdate p ev values) us d ∧
    (b = false → us = []) ∧ (b = true → ∃ u, us = [u])

theorem local_recorded {values : OutboxValues} {b : Bool} : Local p (Recorded p ev values b) :=
  fun d d' hw hk ⟨hj, us, hup, h1, h2⟩ =>
    ⟨hk.jobs.staged.trans hj, us, Updating.local_ p _ _ d d' hw hk hup, h1, h2⟩

/-- The statement that records a result, with what else is known. -/
theorem updateClaimedEvent_spec {v : OutboxValues}
    (hlive : (Query.updateClaimedEvent ev.outboxId (some ev.claimToken) v).Live)
    {F : Assertion} (hF : C.Stable p F)
    (hframe : ∀ w g d', Database.Own p w.db d' → F (w, g) → F (w.withDb d', g)) :
    C.Spec p t (fun x => IdleAt p x ∧ F x)
      (Py.query (.updateClaimedEvent ev.outboxId (some ev.claimToken) v))
      (Outcome (fun b x => Recorded p ev v b x.1.db ∧ F x) fun _ => Anything) :=
  query_framed hlive (B := (·.Idle p)) (fun _ => local_recorded) hF hframe
    (fun _ _ _ _ _ _ h => h.elim) fun _ _ _ _ hi ha hx => exec_updateClaimedEvent hi.wf ha hx

/-- `_record_publish_success`. -/
theorem recordPublishSuccess_spec (ht : t.role = .publisher) :
    C.Spec p t (fun x => IdleAt p x ∧ Sent p ev x ∧ Waiting p rest x) (recordPublishSuccess ev)
      (Outcome (fun _ x => IdleAt p x ∧ Waiting p rest x) fun _ => IdleAt p) := by
  refine seq (result_session (updateClaimedEvent_spec (by trivial)
    (stable_sent_event.and stable_waiting) fun w g d' ho h => ⟨?_, h.2.own ho⟩) ?_)
    fun _ => ret fun _ h => h
  · exact ⟨h.1.drawn, h.1.discharged, h.1.returned.imp_right fun hn o hm => hn o (ho.rows.outbox ▸ hm)⟩
  · rintro b w g hi ⟨⟨hj, us, hup, -⟩, hs, hwt⟩
    refine ⟨hup.commitOk_of_jobs hi ht hj (fun r hr u hu e hP => ?_) (fun r hr u hu e hP tk htk => ?_)
      fun r hr u hu e hP i hc => ?_, hwt.commit hi.wf hup fun _ _ => rfl⟩
    · obtain ⟨h1, h2, now, rfl⟩ := hP
      have hown : r.writer = p := by
        have := (hi.outbox.claims r hr _ h2).symm.trans hs.drawn
        exact (Prod.mk.inj (Option.some.inj this)).1
      exact .publish now _ h1 h2 hown (hs.returned.resolve_right fun hn => hn r hr h2)
    · obtain ⟨-, -, now, rfl⟩ := hP
      cases htk
    · obtain ⟨h1, h2, -⟩ := hP
      rcases hc.2 with h | h
      · rw [h1] at h
        cases h
      · exact absurd hs.discharged (h.2 _ h2)

/-! ### A failed dispatch -/

/-- Session `p` failed the event for good, and with it the import where that was PENDING; where it
was not, nothing needs the event anymore. -/
def GaveUp (C : Setting) (p : Nat) (ev : ClaimedOutboxEvent) (values : OutboxValues) : Assertion :=
  fun x => Known p ev x ∧ ∃ us, Updating p (ResultUpdate p ev values) us x.1.db ∧
    ((x.1.db.importJobs.staged p = [] ∧ (us = [] ∨ ev.claimToken ∈ x.2.discharged)) ∨
      ∃ now r, x.1.db.began p = some now ∧ r.id = ev.importId ∧ r.val.status = .pending ∧
        (C.unclaimed → r.val.attemptCount = 0) ∧
        Writing p r (rewrite p (.failDispatch now dispatchExhaustedReason) r) x.1.db)

theorem stable_gaveUp {values : OutboxValues} : C.Stable p (GaveUp C p ev values) := by
  intro x y ho ⟨hk, us, hup, h⟩
  obtain ⟨hi, -, hkeep, -⟩ := other_cases ho
  refine ⟨stable_known x y ho hk, us, Updating.local_ p _ _ _ _ hi.wf hkeep hup, ?_⟩
  rcases h with ⟨hj, h⟩ | ⟨now, r, hb, h1, h2, h3, h4⟩
  · exact .inl ⟨hkeep.jobs.staged.trans hj, h.imp_right (stable_discharged _ x y ho)⟩
  · exact .inr ⟨now, r, hkeep.began.trans hb, h1, h2, h3, local_writing p _ _ _ _ hi.wf hkeep h4⟩

/-- What the update of the job does. -/
theorem exec_failPendingImport {d d' : Database} {server : Server} {clock : Time} {env : Env}
    (hw : d.Wf) (hok : ∀ j, (d.slice j).Ok env) (hj : d.importJobs.staged p = []) {i : ImportId}
    {reason : String} {res : Except Fault Bool}
    (hx : (d.begin p clock).exec server clock p (.failPendingImport i reason) = some (res, d')) :
    d'.importDispatchOutbox = d.importDispatchOutbox ∧ d'.shipments = d.shipments ∧
      d'.importErrors = d.importErrors ∧
    ((∃ now r, res = .ok true ∧ d'.began p = some now ∧ r.id = i ∧ r.val.status = .pending ∧
        Writing p r (rewrite p (.failDispatch now reason) r) d') ∨
      res = .ok false ∧ d'.importJobs.staged p = [] ∧
        ∀ r ∈ d.importJobs.rows, r.id = i → r.val.status ≠ .pending) := by
  have hb := (Database.own_begin (s := p) hw clock).wf
  have hnow := exec_began hx
  obtain ⟨res', hu, hres⟩ := Database.mapReply_eq hx
  have hframe : d'.importDispatchOutbox = d.importDispatchOutbox ∧ d'.shipments = d.shipments ∧
      d'.importErrors = d.importErrors := by
    rcases Database.updateJobs_spec hu with ⟨_, _, -, -, rfl, -⟩ | ⟨-, rfl, -⟩ <;>
      exact ⟨rfl, rfl, rfl⟩
  refine ⟨hframe.1, hframe.2.1, hframe.2.2, ?_⟩
  have hsel : ∀ {x : Version ImportJob}, (x.id == i && x.val.status == .pending) = true ↔
      x.id = i ∧ x.val.status = .pending := by simp
  obtain ⟨-, ⟨r, hri, hsr, rfl, hwr⟩ | ⟨hno, rfl, hnil⟩⟩ := updateJobs_first hb hj
    (fun x hx => (hsel.1 hx).1) (fun r hr hs => by
      have hadm : (JobWrite.failDispatch ((d.begin p clock).now p clock) reason).Admits r.val :=
        (hsel.1 hs).2
      exact ((history_of_mem hw hok hr).consistent.write hadm).ck) hu
  · exact .inl ⟨_, r, hres, hnow, hri, (hsel.1 hsr).2, hwr⟩
  · refine .inr ⟨hres, hnil, fun r hr e hp => ?_⟩
    have := hno r hr
    rw [hsel.2 ⟨e, hp⟩] at this
    cases this

theorem failPendingImport_spec {values : OutboxValues}
    (hne : ∀ ev' ∈ rest, ev.outboxId ≠ ev'.outboxId) :
    C.Spec p t (fun x => Recorded p ev values true x.1.db ∧ Waiting p (ev :: rest) x)
      (Py.query (.failPendingImport ev.importId dispatchExhaustedReason))
      (Outcome (fun _ x => GaveUp C p ev values x ∧ Waiting p rest x) fun _ => Anything) := by
  refine query_ghost (by trivial) (stable_outcome (fun _ => stable_gaveUp.and stable_waiting)
    fun _ => stable_anything) (fun w g res d' hi ha ho hx hal => ?_) fun w g f hi ha _ =>
    ⟨g, ghostStep_refl _ _ _, rfl, rfl, hi.dispatched, trivial⟩
  obtain ⟨⟨hj, us, hup, -, hone⟩, hwt⟩ := ha
  obtain ⟨u, rfl⟩ := hone rfl
  have hev := hwt ev List.mem_cons_self
  have hrest : Waiting p rest (w, g) := fun e he => hwt e (List.mem_cons_of_mem _ he)
  obtain ⟨o, hom, hoh, hou, hproc, htk, -⟩ := hup.old u List.mem_cons_self
  have hb := (Database.own_begin (s := p) hi.wf w.time).wf
  obtain ⟨hout, hsh, her, hcase⟩ := exec_failPendingImport hi.wf hi.slices hj hx
  have hheld : ∀ i, w.db.importDispatchOutbox.Holds p i → d'.importDispatchOutbox.Holds p i :=
    fun i h => hout ▸ h
  have hup' : Updating p (ResultUpdate p ev values) [u] d' :=
    ⟨⟨hsh ▸ hup.shipments, her ▸ hup.errors⟩, hout ▸ hup.staged, hup.nodup, fun x hx => by
      obtain ⟨r, h1, h2, h3⟩ := hup.old x hx
      exact ⟨r, hout ▸ h1, hout ▸ h2, h3⟩⟩
  have hknown : ∀ g' : Ghost, g'.drawn = g.drawn → Known p ev (w.withDb d', g') := fun g' e =>
    hev.toKnown.step (congrFun e.symm _) fun x hx _ => ho.rows.outbox ▸ hx
  rcases hcase with ⟨now, r, rfl, hbegan, hri, hp, hwr⟩ | ⟨rfl, hnil, hno⟩
  · -- the import is PENDING: until the commit the claimed event stands for it
    have hrm : r ∈ w.db.importJobs.rows := ho.rows.jobs ▸ hwr.mem
    refine ⟨g, ghostStep_refl _ _ _, rfl, fun _ _ => .inl, fun htr => ?_,
      ⟨hknown g rfl, [u], hup', .inr ⟨now, r, hbegan, hri, hp, fun hun => ?_, hwr⟩⟩,
      Waiting.own ho hrest⟩
    · refine (hi.dispatched htr).own ho (fun i hh => ?_) hheld
      rcases Database.exec_locks hb hx hh with hh | rfl | ⟨r', hr', rfl, hl, -⟩
      · exact .inl hh
      · exact .inr (.inl fun r' hr' e _ => absurd (e ▸ hi.wf.jobs.below r' hr') (Nat.lt_irrefl _))
      · refine .inr (.inr (.inr ⟨o, ?_, hheld _ hoh, ?_, ?_, hproc, fun tk' htk' => ?_⟩))
        · exact ho.rows.outbox ▸ hom
        · rw [(hev.rows o hom htk).1]
          exact hl.symm
        · have := (hi.outbox.claims o hom _ htk).symm.trans hev.drawn
          exact (Prod.mk.inj (Option.some.inj this)).1
        · rw [htk] at htk'
          exact Option.some.inj htk' ▸ hev.undischarged
    · by_contra hne0
      exact hal.claimed hun ⟨r, hrm, hri, hp, hne0⟩
  · -- it is not: nothing needs the event
    refine ⟨g.discharge ev.claimToken, ghostStep_discharge hev.drawn, rfl, fun _ _ => .inl,
      fun htr => ?_, ⟨hknown _ rfl, [u], hup', .inl ⟨hnil, .inr List.mem_cons_self⟩⟩, ?_⟩
    · have hd := (hi.dispatched htr).quiet ho (fun i hh => ?_) hheld
      · refine hd.discharge (p := p) (i := ev.importId) (fun x hx hxt => ?_) fun r hr e hp => ?_
        · have hx' : x ∈ w.db.importDispatchOutbox.rows := ho.rows.outbox ▸ hx
          have := (hi.outbox.claims x hx' _ hxt).symm.trans hev.drawn
          exact ⟨(hev.rows x hx' hxt).1, (Prod.mk.inj (Option.some.inj this)).1⟩
        · exact absurd hp (hno r (ho.rows.jobs ▸ hr) e)
      · rcases Database.exec_locks hb hx hh with hh | rfl | ⟨r', hr', rfl, hl, hp⟩
        · exact .inl hh
        · exact .inr fun r' hr' e _ => absurd (e ▸ hi.wf.jobs.below r' hr') (Nat.lt_irrefl _)
        · exact absurd hp (hno r' hr' hl)
    · intro e he
      refine (hrest e he).step rfl (fun hm => ?_) fun x hx _ => ho.rows.outbox ▸ hx
      exact (List.mem_cons.1 hm).resolve_left
        (hev.toKnown.token_ne (hrest e he).toKnown (hne e he)).symm

/-- The update of an event whose dispatch failed. -/
def failureValues (env : Env) (ev : ClaimedOutboxEvent) (failedAt : Time) (exc : Exc) :
    Option Time → OutboxValues
  | some due => .publishFailure (ev.attemptCount + 1) (safeErrorMessage env exc) .pending
      (some due) none
  | none => .publishFailure (ev.attemptCount + 1) (safeErrorMessage env exc) .failed none
      (some failedAt)

/-- What the commit of a final failure has to be. -/
theorem GaveUp.commitOk {w : World} {g : Ghost} {failedAt : Time} {exc : Exc} (hi : C.Inv (w, g))
    (ht : t.role = .publisher)
    (hmax : C.env.settings.outboxMaxAttempts.1 ≤ ev.attemptCount + 1)
    (h : GaveUp C p ev (failureValues C.env ev failedAt exc none) (w, g)) :
    CommitOk C p t w g g := by
  obtain ⟨hk, us, hup, h⟩ := h
  have hstep : ∀ r ∈ w.db.importDispatchOutbox.rows, ∀ u ∈ us, r.id = u.id →
      ResultUpdate p ev (failureValues C.env ev failedAt exc none) r u →
      OutboxStep C.env.settings (· ∈ g.sent) .publisher p (some r) (some u) := by
    rintro r hr u hu e ⟨h1, h2, now, rfl⟩
    have ha := (hk.rows r hr h2).2
    have hown : r.writer = p := by
      have := (hi.outbox.claims r hr _ h2).symm.trans hk.drawn
      exact (Prod.mk.inj (Option.some.inj this)).1
    have : OutboxStep C.env.settings (· ∈ g.sent) .publisher p (some r) _ :=
      .exhaust now failedAt (safeErrorMessage C.env exc) h1 hown (ha ▸ hmax)
    rwa [ha] at this
  have hclaims : ∀ r ∈ w.db.importDispatchOutbox.rows, ∀ u ∈ us, r.id = u.id →
      ResultUpdate p ev (failureValues C.env ev failedAt exc none) r u →
      ∀ tk, u.val.claimToken = some tk → g.drawn tk = some (u.writer, u.id) := by
    rintro r hr u hu e ⟨-, -, now, rfl⟩ tk htk
    cases htk
  rcases h with ⟨hj, hd⟩ | ⟨now, r, hbegan, hri, hp, hun, hwr⟩
  · refine hup.commitOk_of_jobs hi ht hj hstep hclaims fun r hr u hu e ⟨h1, h2, _⟩ i hc => ?_
    rcases hd with rfl | hd
    · cases hu
    · rcases hc.2 with h | h
      · rw [h1] at h
        cases h
      · exact absurd hd (h.2 _ h2)
  · -- the import fails with the event
    have hslice : ∀ i, (w.db.commit p).slice i = if i = r.id then
        ⟨some (rewrite p (.failDispatch now dispatchExhaustedReason) r), (w.db.slice i).shipments,
          (w.db.slice i).importErrors⟩ else w.db.slice i := by
      intro i
      rw [hup.toRowsKept.slice, hwr.commit_job]
      split <;> rfl
    have hold : w.db.slice r.id =
        ⟨some r, (w.db.slice r.id).shipments, (w.db.slice r.id).importErrors⟩ := by
      rw [← hwr.job hi.wf]
    have hnow : w.db.now p w.time = now := by
      rw [Database.now, show w.db.began p = some now from hbegan]
      rfl
    refine hup.commitOk hi ht hstep hclaims (fun i => ?_) (fun hu i r' hr' hp' hf => ?_) fun htr => ?_
    · rw [hslice]
      by_cases e : i = r.id
      · subst e
        rw [if_pos rfl, hold, hnow]
        exact .dispatchExhausted _ hp
      · rw [if_neg e]
        exact .stay _
    · rw [hslice] at hf
      by_cases e : i = r.id
      · subst e
        rw [hwr.job hi.wf] at hr'
        obtain rfl := Option.some.inj hr'
        exact hun hu
      · rw [if_neg e, Slice.status, hr', Option.map_some, hp'] at hf
        cases hf
    · refine (hi.dispatched htr).commit hi.wf (fun _ _ => rfl) rfl fun r' hr' hp' => ?_
      have hjob : ((w.db.commit p).slice r'.id).job = some r' :=
        (Database.job_eq_some (Database.wf_commit hi.wf)).2 ⟨hr', rfl⟩
      rw [hslice] at hjob
      have hne : r'.id ≠ r.id := by
        intro e
        rw [if_pos e] at hjob
        obtain rfl := Option.some.inj hjob
        cases hp'
      rw [if_neg hne] at hjob
      have hm := ((Database.job_eq_some hi.wf).1 hjob).1
      rcases (hi.dispatched htr).carried r' hm hp' with hc | hc | ⟨o, ho, hc⟩
      · exact .inl hc
      · exact .inr (.inl hc)
      · rcases hup.commit_mem hi.wf ho with ho' | ⟨u, -, -, -, -, htk, -⟩
        · exact .inr (.inr ⟨o, ho', hc⟩)
        · exact absurd ((hc.1.symm.trans (hk.rows o ho htk).1).trans hri.symm) hne

/-- The transaction of a failure that is not final. -/
theorem persistRetry_spec (ht : t.role = .publisher) {failedAt due : Time} {exc : Exc} {delay : Nat}
    (hmax : ev.attemptCount + 1 < C.env.settings.outboxMaxAttempts.1)
    (hd : C.env.settings.outboxRetryDelaysSeconds.delays[ev.attemptCount]? = some delay)
    (hdue : failedAt.plus delay = .ok due) :
    C.Spec p t (fun x => IdleAt p x ∧ Waiting p (ev :: rest) x)
      (ShipmentImport.withSession (ShipmentImport.inTransaction (persistPublishFailure ev failedAt
        (safeErrorMessage C.env exc) (ev.attemptCount + 1) false (some due))))
      (Outcome (fun _ x => IdleAt p x ∧ Waiting p rest x) fun _ => IdleAt p) := by
  refine result_session (N := fun _ x => (∃ b, Recorded p ev
    (failureValues C.env ev failedAt exc (some due)) b x.1.db) ∧ Waiting p (ev :: rest) x) ?_ ?_
  · refine seq (updateClaimedEvent_spec (v := failureValues C.env ev failedAt exc (some due))
      (by trivial) stable_waiting fun w g d' ho h => Waiting.own ho h) fun b => ?_
    rw [Bool.and_false]
    exact ret fun _ h => ⟨⟨b, h.1⟩, h.2⟩
  · rintro - w g hi ⟨⟨b, hj, us, hup, -⟩, hwt⟩
    have hev := hwt ev List.mem_cons_self
    refine ⟨hup.commitOk_of_jobs hi ht hj ?_ ?_ ?_, Waiting.commit hi.wf (fun e he =>
      hwt e (List.mem_cons_of_mem _ he)) hup fun _ _ => rfl⟩
    · rintro r hr u hu e ⟨h1, h2, now, rfl⟩
      have ha := (hev.rows r hr h2).2
      have hown : r.writer = p := by
        have := (hi.outbox.claims r hr _ h2).symm.trans hev.drawn
        exact (Prod.mk.inj (Option.some.inj this)).1
      have : OutboxStep C.env.settings (· ∈ g.sent) .publisher p (some r) _ :=
        .retry now failedAt (safeErrorMessage C.env exc) delay due h1 hown (ha ▸ hmax) (ha ▸ hd) hdue
      rwa [ha] at this
    · rintro r hr u hu e ⟨-, -, now, rfl⟩ tk htk
      cases htk
    · rintro r hr u hu e ⟨-, -, now, rfl⟩ i hc
      exact ⟨hc.1, .inl rfl⟩

/-- The transaction of a final failure. -/
theorem persistExhausted_spec (ht : t.role = .publisher) {failedAt : Time} {exc : Exc}
    (hmax : C.env.settings.outboxMaxAttempts.1 ≤ ev.attemptCount + 1)
    (hne : ∀ ev' ∈ rest, ev.outboxId ≠ ev'.outboxId) :
    C.Spec p t (fun x => IdleAt p x ∧ Waiting p (ev :: rest) x)
      (ShipmentImport.withSession (ShipmentImport.inTransaction (persistPublishFailure ev failedAt
        (safeErrorMessage C.env exc) (ev.attemptCount + 1) true none)))
      (Outcome (fun _ x => IdleAt p x ∧ Waiting p rest x) fun _ => IdleAt p) := by
  refine result_session (N := fun _ x => GaveUp C p ev (failureValues C.env ev failedAt exc none) x ∧
    Waiting p rest x) ?_ ?_
  · refine seq (updateClaimedEvent_spec (v := failureValues C.env ev failedAt exc none)
      (by trivial) stable_waiting fun w g d' ho h => Waiting.own ho h) fun b => ?_
    cases b with
    | true =>
      exact seq (failPendingImport_spec hne) fun _ => ret fun _ h => h
    | false =>
      refine ret fun x ⟨⟨hj, us, hup, hnil, _⟩, hwt⟩ => ?_
      exact ⟨⟨(hwt ev List.mem_cons_self).toKnown, us, hup, .inl ⟨hj, .inl (hnil rfl)⟩⟩,
        fun e he => hwt e (List.mem_cons_of_mem _ he)⟩
  · rintro - w g hi ⟨hg, hwt⟩
    obtain ⟨-, us, hup, -⟩ := id hg
    exact ⟨hg.commitOk hi ht hmax, hwt.commit hi.wf hup fun _ _ => rfl⟩

/-- `_record_publish_failure`. -/
theorem recordPublishFailure_spec (ht : t.role = .publisher) (exc : Exc)
    (hne : ∀ ev' ∈ rest, ev.outboxId ≠ ev'.outboxId) :
    C.Spec p t (fun x => IdleAt p x ∧ Waiting p (ev :: rest) x)
      (recordPublishFailure C.env ev exc)
      (Outcome (fun _ x => IdleAt p x ∧ Waiting p rest x) fun _ => IdleAt p) := by
  unfold recordPublishFailure
  refine seq (weaken (clock (stable_idle.and stable_waiting)) (fun _ _ h => h) fun _ _ h => h.elim)
    fun failedAt => ?_
  refine seq (lift fun _ _ h => h.1) fun availableAt => Protocol.Triple.of_and fun hat => ?_
  by_cases hmax : C.env.settings.outboxMaxAttempts.1 ≤ ev.attemptCount + 1
  · have hx : decide (ev.attemptCount + 1 ≥ C.env.settings.outboxMaxAttempts.1) = true :=
      decide_eq_true hmax
    rw [hx] at hat ⊢
    obtain rfl := retryAt_exhausted hat
    exact persistExhausted_spec ht hmax hne
  · have hx : decide (ev.attemptCount + 1 ≥ C.env.settings.outboxMaxAttempts.1) = false :=
      decide_eq_false hmax
    rw [hx] at hat ⊢
    obtain ⟨delay, due, hd, hdue, rfl⟩ := retryAt_eq_ok.1 hat
    exact persistRetry_spec ht (Nat.lt_of_not_le hmax) hd hdue

/-! ## The pass -/

/-- One pass of the loop. -/
theorem publishEvent_spec (ht : t.role = .publisher)
    (hne : ∀ ev' ∈ rest, ev.outboxId ≠ ev'.outboxId) :
    C.Spec p t (fun x => IdleAt p x ∧ Waiting p (ev :: rest) x) (publishEvent C.env ev)
      (Outcome (fun _ x => IdleAt p x ∧ Waiting p rest x) fun _ => IdleAt p) := by
  refine attempted ((dispatchImport_spec hne).pre fun x h => ⟨h.1, h.2 ev List.mem_cons_self,
    fun e he => h.2 e (List.mem_cons_of_mem _ he)⟩) (fun _ => recordPublishSuccess_spec ht)
    fun e => ?_
  refine (recordPublishFailure_spec ht e hne).pre fun x h => ⟨h.1, fun e he => ?_⟩
  rcases List.mem_cons.1 he with rfl | he
  · exact h.2.1
  · exact h.2.2 e he

/-- `publish_due_events`. -/
theorem publishDueEvents_spec (ht : t.role = .publisher) :
    C.Spec p t (IdleAt p) (publishDueEvents C.env)
      (Outcome (fun _ => IdleAt p) fun _ => IdleAt p) := by
  refine seq (claimDueEvents_spec ht) fun evs => ?_
  refine Protocol.Triple.pre (B := fun x => (evs.map (·.outboxId)).Nodup ∧
    (IdleAt p x ∧ Waiting p evs x)) (Protocol.Triple.of_and fun hn => ?_)
    fun x h => ⟨h.1.1, h.2, h.1.2⟩
  refine seq (M := fun _ => IdleAt p) (weaken ((Setting.Spec.forEach (I := fun done x => IdleAt p x ∧
    ∀ rest, evs = done ++ rest → Waiting p rest x) fun done ev rest hl => ?_).pre fun x h =>
      ⟨h.1, fun rest (e : evs = rest) => e ▸ h.2⟩) (fun _ _ h => h.1) fun _ _ h => h)
        fun _ => ret fun _ h => h
  rw [hl, List.map_append, List.map_cons, List.nodup_append] at hn
  have hne : ∀ ev' ∈ rest, ev.outboxId ≠ ev'.outboxId := fun ev' he e =>
    (List.nodup_cons.1 hn.2.1).1 (e ▸ List.mem_map_of_mem he)
  refine weaken ((publishEvent_spec ht hne).pre fun x h => ⟨h.1, h.2 _ hl⟩) (fun _ x h =>
    ⟨h.1, fun rest' e => ?_⟩) fun _ _ h => h
  have : rest = rest' := by
    rw [hl, List.append_assoc] at e
    simpa using e
  exact this ▸ h.2

/-! ## Stale claims -/

/-- The event as it is loaded when its claim is stale. -/
def toStaleClaim (r : OutboxRow) : StaleOutboxClaim :=
  ⟨r.id, r.val.importId, r.val.claimToken, r.val.attemptCount⟩

/-- A claim whose publisher sent no result for too long. -/
def StaleClaim (staleBefore : Time) (r : OutboxRow) : Prop :=
  r.val.status = .processing ∧ isBefore staleBefore r.val.claimedAt

/-- The requeue of a stale claim. -/
def RequeueUpdate (p : Nat) (staleBefore recoveredAt : Time) (r u : OutboxRow) : Prop :=
  StaleClaim staleBefore r ∧
    ∃ now, u = ⟨r.id, p, (OutboxValues.requeueStale recoveredAt staleClaimReason).apply now r.val⟩

/-- Session `p` locked stale claims, of which `todo` are still to be requeued. -/
structure Requeuing (p : Nat) (staleBefore recoveredAt : Time) (todo : List OutboxRow)
    (d : Database) : Prop where
  jobs : d.importJobs.staged p = []
  held : ∀ r ∈ todo, r ∈ d.importDispatchOutbox.rows ∧ d.importDispatchOutbox.Holds p r.id ∧
    StaleClaim staleBefore r
  updating : ∃ us, Updating p (RequeueUpdate p staleBefore recoveredAt) us d ∧
    ∀ u ∈ us, ∀ r ∈ todo, u.id ≠ r.id

end

section
variable {C : Setting} {p : Nat} {t : Task} {staleBefore recoveredAt : Time}

theorem local_requeuing {todo : List OutboxRow} :
    Local p (Requeuing p staleBefore recoveredAt todo) := fun d d' hw hk h =>
  { jobs := hk.jobs.staged.trans h.jobs
    held := fun r hr =>
      have ⟨h1, h2, h3⟩ := h.held r hr
      ⟨(hk.outbox.rows r h2).2 h1, (hk.outbox.holds _).2 h2, h3⟩
    updating :=
      have ⟨us, h1, h2⟩ := h.updating
      ⟨us, Updating.local_ p _ _ d d' hw hk h1, h2⟩ }

theorem exec_lockStaleClaims {d d' : Database} {server : Server} {clock : Time} (hw : d.Wf)
    (hi : d.Idle p) {n : Nat} {a : List StaleOutboxClaim}
    (hx : (d.begin p clock).exec server clock p (.lockStaleClaims n staleBefore) =
      some (.ok a, d')) :
    ∃ rs, a = rs.map toStaleClaim ∧ (rs.map (·.id)).Nodup ∧
      Requeuing p staleBefore recoveredAt rs d' := by
  have hb := (Database.own_begin (s := p) hw clock).wf
  have hv : (d.begin p clock).importDispatchOutbox.view p = d.importDispatchOutbox.rows :=
    Table.view_eq _ _ hi.outbox.staged
  have hpick := server.oldest_subperm (fun o : ImportDispatchOutbox => o.claimedAt.getD .min) n
  obtain ⟨⟨⟩, rfl⟩ := (Database.limited_cases hx).resolve_right (by simp)
  obtain ⟨-, hst, hhit, -⟩ := Table.lockWhere_spec (s := p)
    (p := fun r => r.val.status == .processing && isBefore staleBefore r.val.claimedAt)
    hb.outbox fun l _ hr => (hpick l).subset hr
  refine ⟨_, rfl, Table.lockWhere_nodup hb.outbox hpick, hi.jobs.staged, fun r hr => ?_, [],
    ⟨⟨hi.shipments.staged, hi.errors.staged⟩, (congrFun hst p).trans hi.outbox.staged,
      List.nodup_nil, fun u hu => by cases hu⟩, fun u hu => by cases hu⟩
  obtain ⟨h1, h2, h3, -⟩ := hhit r hr
  exact ⟨hv ▸ h1, h3, by simpa [StaleClaim] using h2⟩

/-- One stale claim. Its event has attempts left, so its dispatch is not exhausted. -/
theorem recoverStaleClaim_spec {r : OutboxRow} {todo : List OutboxRow}
    (hn : ∀ x ∈ todo, x.id ≠ r.id) :
    C.Spec p t (fun x => Requeuing p staleBefore recoveredAt (r :: todo) x.1.db)
      (recoverStaleClaim C.env (toStaleClaim r) recoveredAt)
      (Outcome (fun _ x => Requeuing p staleBefore recoveredAt todo x.1.db) fun _ => Anything) := by
  unfold recoverStaleClaim
  split
  · next hmax =>
    refine seq (M := fun _ _ => False) (stmt (stable_outcome (fun _ => stable_false)
      fun _ => stable_anything) fun w g res w' ch hi ha he _ => ?_) fun _ y h => h.elim
    obtain ⟨hr, -, hst⟩ := ha.held r List.mem_cons_self
    have := (hi.outbox.consistent r hr).attempts (.inr hst.1)
    exact absurd hmax (Nat.not_le_of_lt this)
  · refine seq (query_local (by trivial) (B := Requeuing p staleBefore recoveredAt (r :: todo))
      (D := fun _ => Requeuing p staleBefore recoveredAt todo) (fun _ => local_requeuing)
      (fun _ _ _ _ _ _ h => h.elim) fun w g a d' hi ha hx => ?_) fun _ => ret fun _ h => h
    have hown := (Database.own_begin (s := p) hi.wf w.time)
    have ho := Database.exec_own (hown.wf) hx
    obtain ⟨res, hu, -⟩ := Database.mapReply_eq hx
    obtain ⟨us, hup, hne⟩ := ha.updating
    have hup' : Updating p (RequeueUpdate p staleBefore recoveredAt) us (w.db.begin p w.time) :=
      ⟨⟨hup.shipments, hup.errors⟩, hup.staged, hup.nodup, hup.old⟩
    obtain ⟨new, rfl, hup'', hjobs, -, hnew⟩ := hup'.update hown.wf
      (fun x hx => (claimed_iff.1 hx).1) (fun u hu => hne u hu r List.mem_cons_self)
      (fun x hx hs => by
        have hst := (ha.held r List.mem_cons_self)
        obtain rfl := Table.eq_of_id hi.wf.outbox.nodup hx hst.1 (claimed_iff.1 hs).1
        exact ⟨hst.2.2, _, rfl⟩) hu
    refine ⟨(congrArg (·.staged p) hjobs).trans ha.jobs, fun x hx' => ?_, us ++ new, hup'',
      fun u hu x hx' => ?_⟩
    · obtain ⟨h1, h2, h3⟩ := ha.held x (List.mem_cons_of_mem _ hx')
      exact ⟨ho.rows.outbox ▸ h1, Database.exec_outbox_holds hown.wf h2 hx, h3⟩
    · rcases List.mem_append.1 hu with hu | hu
      · exact hne u hu x (List.mem_cons_of_mem _ hx')
      · rcases hnew with ⟨rfl, -⟩ | ⟨r', hr', hs, rfl⟩
        · cases hu
        · obtain rfl := List.mem_singleton.1 hu
          have : r'.id = r.id := (claimed_iff.1 hs).1
          exact fun e => hn x hx' (e.symm.trans this)

theorem recoverStaleClaimsInTransaction_spec {rs : List OutboxRow} (hn : (rs.map (·.id)).Nodup) :
    C.Spec p t (fun x => Requeuing p staleBefore recoveredAt rs x.1.db)
      (recoverStaleClaimsInTransaction C.env recoveredAt (rs.map toStaleClaim))
      (Outcome (fun _ x => Requeuing p staleBefore recoveredAt [] x.1.db) fun _ => Anything) := by
  induction rs with
  | nil => exact ret fun _ h => h
  | cons r rs ih =>
    rw [List.map_cons, List.nodup_cons] at hn
    refine seq (recoverStaleClaim_spec fun x hx e => hn.1 (e ▸ List.mem_map_of_mem hx)) fun b => ?_
    exact seq (ih hn.2) fun _ => ret fun _ h => h

/-- `recover_stale_claims`. -/
theorem recoverStaleClaims_spec (ht : t.role = .publisher) :
    C.Spec p t (IdleAt p) (recoverStaleClaims C.env)
      (Outcome (fun _ => IdleAt p) fun _ => IdleAt p) := by
  refine seq (weaken (clock stable_idle) (fun _ _ h => h) fun _ _ h => h.elim) fun recoveredAt => ?_
  refine seq (lift fun _ _ h => h) fun staleBefore => Protocol.Triple.of_and fun hb => ?_
  refine weaken (session (L := fun _ => Anything)
    (N := fun _ x => Requeuing p staleBefore recoveredAt [] x.1.db) ?_ (fun _ => stable_anything)
      (fun _ => ?_) fun _ _ _ _ _ => trivial) (fun _ _ h => h.2) fun _ _ h => h
  · refine seq (query_local (by trivial) (B := (·.Idle p)) (D := fun (a : List StaleOutboxClaim) d =>
      ∃ rs, a = rs.map toStaleClaim ∧ (rs.map (·.id)).Nodup ∧
        Requeuing p staleBefore recoveredAt rs d)
      (fun a d d' hw hk ⟨rs, h1, h2, h3⟩ => ⟨rs, h1, h2, local_requeuing d d' hw hk h3⟩)
      (fun _ _ _ _ _ _ h => h.elim) fun w g a d' hi ha hx => exec_lockStaleClaims hi.wf ha hx)
      fun a => ?_
    refine Protocol.Triple.of_exists fun rs => Protocol.Triple.of_and fun ha =>
      Protocol.Triple.of_and fun hn => ?_
    rw [ha]
    exact recoverStaleClaimsInTransaction_spec hn
  · refine commit (stable_outcome (fun _ => stable_anything) fun _ => stable_anything)
      (fun w g lost hl hi ha _ => ?_) fun w g f _ _ _ _ => trivial
    obtain ⟨us, hup, -⟩ := ha.updating
    refine ⟨g, hup.commitOk_of_jobs hi ht ha.jobs ?_ ?_ ?_, by cases lost <;> trivial⟩
    · rintro r hr u hu e ⟨⟨h1, h2⟩, now, rfl⟩
      exact .requeue now recoveredAt staleClaimReason h1 ((isBefore_iff_expired hb).1 h2)
    · rintro r hr u hu e ⟨-, now, rfl⟩ tk htk
      cases htk
    · rintro r hr u hu e ⟨-, now, rfl⟩ i hc
      exact ⟨hc.1, .inl rfl⟩

end

end ShipmentImport

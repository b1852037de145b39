import ShipmentImport.Runs

/-!
# Outbox events along runs

What holds of every outbox event in every reachable state, and the accounts of its claims: each ends
in a recorded success, a recorded failure or a stale recovery.
-/

namespace ShipmentImport

section
variable {env : Env} {c c' : State}

/-! ## Columns -/

/-- No process gets to the exhaustion branch of the recovery of stale claims. -/
theorem Reachable.not_staleFailed (h : Reachable env c) {p : Nat} {t : Task} {outboxId : Nat}
    {token : Option Token} {message : String} {k : Except Exc Bool → Py TaskResult} :
    c.proc p ≠ some (t, .stmt (.query (.updateClaimedEvent outboxId token
      (.staleFailed message))) k) := by
  intro hp
  -- the statement could fail now, and then it would be a step of the protocol
  obtain ⟨c', hn⟩ : ∃ c', (service env).next c (.step p (.fail .other)) = some c' := by
    simp only [Machine.next, hp]
    exact ⟨_, rfl⟩
  rcases h.moves hn with ⟨hact, -⟩ | ⟨p', ch, t', s, k', r, g, g', ha, hp', -, -, -, hg⟩
  · simp [State.actor, hp] at hact
  · cases ha
    rw [hp] at hp'
    cases hp'
    exact hg.live _ _ rfl

/-- Every event is consistent, and no process gets to the exhaustion branch of the stale-claim
recovery. -/
theorem events_consistent (h : Reachable env c) :
    (∀ o ∈ c.world.db.importDispatchOutbox.rows, o.val.Consistent env.settings) ∧
    ∀ p t outboxId token message k,
      c.proc p ≠
        some (t, .stmt (.query (.updateClaimedEvent outboxId token (.staleFailed message))) k) := by
  constructor
  · obtain ⟨g, hg⟩ := h.inv
    exact hg.outbox.consistent
  · exact fun p t outboxId token message k => h.not_staleFailed

/-- The published event of a run is consistent. -/
theorem completedRun_event : ∃ c,
    (service oneRowEnv).trace State.initial completedRun = some c ∧
    (c.world.db.importJobs.rows.map fun r => (r.id, r.val.status)) = [(0, .completed)] ∧
    ∀ o ∈ c.world.db.importDispatchOutbox.rows, o.val.Consistent oneRowEnv.settings := by
  obtain ⟨c, hc, hr⟩ := completedRun_ends
  exact ⟨c, hc, hr, (events_consistent (Machine.run_of_trace _ hc)).1⟩

/-! ## Accounts -/

/-- The status of an event, if it exists. -/
def eventStatus (x : Option (Version ImportDispatchOutbox)) : Option OutboxStatus :=
  x.map (·.val.status)

/-- The attempts of an event, none before it exists. -/
def eventAttempts (x : Option (Version ImportDispatchOutbox)) : Nat := x.elim 0 (·.val.attemptCount)

/-- The change from `x` to `y` is a committed claim. -/
def ClaimedBy (x y : Option (Version ImportDispatchOutbox)) : Bool :=
  decide (eventStatus x = some .pending ∧ eventStatus y = some .processing)

/-- It records that the dispatch succeeded. -/
def RecordsSuccess (x y : Option (Version ImportDispatchOutbox)) : Bool :=
  decide (eventStatus x = some .processing ∧ eventStatus y = some .published)

/-- It records that the dispatch failed. -/
def RecordsFailure (x y : Option (Version ImportDispatchOutbox)) : Bool :=
  decide (eventStatus x = some .processing ∧ eventAttempts y = eventAttempts x + 1)

/-- It gives a stale claim back. -/
def RequeuesStale (x y : Option (Version ImportDispatchOutbox)) : Bool :=
  decide (eventStatus x = some .processing ∧ eventStatus y = some .pending ∧
    eventAttempts y = eventAttempts x)

namespace OutboxStep

variable {settings : Settings} {sent : Token → Prop} {role : Role} {s : Nat}
  {x y : Option (Version ImportDispatchOutbox)}

/-- An open claim is opened by the claim, and closed by exactly one of the three results. -/
theorem claims_eq (h : OutboxStep settings sent role s x y) :
    (ClaimedBy x y).toNat + (decide (eventStatus x = some .processing)).toNat =
      (RecordsSuccess x y).toNat + (RecordsFailure x y).toNat + (RequeuesStale x y).toNat +
        (decide (eventStatus y = some .processing)).toNat := by
  cases h with
  | stay =>
    cases x with
    | none => rfl
    | some r => cases hs : r.val.status <;>
        simp [ClaimedBy, RecordsSuccess, RecordsFailure, RequeuesStale, eventStatus, hs]
  | create importId availableAt now _ new =>
    simp [ClaimedBy, RecordsSuccess, RecordsFailure, RequeuesStale, eventStatus, new,
      ImportDispatchOutbox.new]
  | claim token claimedAt pending =>
    simp [ClaimedBy, RecordsSuccess, RecordsFailure, RequeuesStale, eventStatus, pending,
      ImportDispatchOutbox.claim]
  | publish now token processing | requeue now recoveredAt message processing =>
    simp [ClaimedBy, RecordsSuccess, RecordsFailure, RequeuesStale, eventStatus, eventAttempts,
      processing, OutboxValues.apply]
  | retry now failedAt message delay due processing | exhaust now failedAt message processing =>
    simp [ClaimedBy, RecordsSuccess, RecordsFailure, RequeuesStale, eventStatus, eventAttempts,
      processing, OutboxValues.apply]

/-- The attempts of an event are its recorded failures. -/
theorem attempts_eq (h : OutboxStep settings sent role s x y) :
    eventAttempts y = eventAttempts x + (RecordsFailure x y).toNat := by
  cases h with
  | stay => simp [RecordsFailure]
  | create importId availableAt now _ new =>
    simp [RecordsFailure, eventStatus, eventAttempts, new, ImportDispatchOutbox.new]
  | claim token claimedAt pending =>
    simp [RecordsFailure, eventStatus, eventAttempts, pending, ImportDispatchOutbox.claim]
  | publish now token processing | requeue now recoveredAt message processing =>
    simp [RecordsFailure, eventStatus, eventAttempts, processing, OutboxValues.apply]
  | retry now failedAt message delay due processing | exhaust now failedAt message processing =>
    simp [RecordsFailure, eventStatus, eventAttempts, processing, OutboxValues.apply]

/-- An event that is PUBLISHED was published once. -/
theorem published_eq (h : OutboxStep settings sent role s x y) :
    (decide (eventStatus y = some .published)).toNat =
      (decide (eventStatus x = some .published)).toNat + (RecordsSuccess x y).toNat := by
  cases h with
  | stay =>
    cases x with
    | none => rfl
    | some r => cases hs : r.val.status <;> simp [RecordsSuccess, eventStatus, hs]
  | create importId availableAt now _ new =>
    simp [RecordsSuccess, eventStatus, new, ImportDispatchOutbox.new]
  | claim token claimedAt pending =>
    simp [RecordsSuccess, eventStatus, pending, ImportDispatchOutbox.claim]
  | publish now token processing | requeue now recoveredAt message processing =>
    simp [RecordsSuccess, eventStatus, processing, OutboxValues.apply]
  | retry now failedAt message delay due processing | exhaust now failedAt message processing =>
    simp [RecordsSuccess, eventStatus, processing, OutboxValues.apply]

/-- Only the process that has the claim records a result. -/
theorem result_own (h : OutboxStep settings sent role s x y)
    (hr : RecordsSuccess x y = true ∨ RecordsFailure x y = true) :
    ∃ o, x = some o ∧ o.writer = s := by
  have hx : eventStatus x = some .processing :=
    hr.elim (fun h => (of_decide_eq_true h).1) fun h => (of_decide_eq_true h).1
  cases h with
  | publish now token processing claimed own => exact ⟨_, rfl, own⟩
  | retry now failedAt message delay due processing own => exact ⟨_, rfl, own⟩
  | exhaust now failedAt message processing own => exact ⟨_, rfl, own⟩
  | stay => simp [RecordsSuccess, RecordsFailure, hx] at hr
  | create => cases hx
  | claim token claimedAt pending =>
    cases (congrArg some pending).symm.trans hx
  | requeue =>
    simp [RecordsSuccess, RecordsFailure, eventStatus, eventAttempts, OutboxValues.apply] at hr

end OutboxStep

/-- A step changes event `k` in a given way. -/
def onEvent (k : Nat)
    (f : Option (Version ImportDispatchOutbox) → Option (Version ImportDispatchOutbox) → Bool)
    (x : State × Event × State) : Bool :=
  f (x.1.world.db.event k) (x.2.2.world.db.event k)

/-- What the steps of a run add up to. -/
theorem Reachable.event_accounts {τ : List (State × Event × State)}
    (h : (service env).Trail Machine.anyAction State.initial τ c) (k : Nat) :
    τ.countP (onEvent k ClaimedBy) = τ.countP (onEvent k RecordsSuccess) +
        τ.countP (onEvent k RecordsFailure) + τ.countP (onEvent k RequeuesStale) +
          (decide (eventStatus (c.world.db.event k) = some .processing)).toNat ∧
      eventAttempts (c.world.db.event k) = τ.countP (onEvent k RecordsFailure) ∧
      (decide (eventStatus (c.world.db.event k) = some .published)).toNat =
        τ.countP (onEvent k RecordsSuccess) := by
  induction h with
  | nil => exact ⟨rfl, rfl, rfl⟩
  | @snoc τ d a d' hpre _ hn ih =>
    obtain ⟨h1, h2, h3⟩ := ih
    obtain ⟨role, p, sent, hs⟩ : ∃ role p sent,
        OutboxStep env.settings sent role p (d.world.db.event k) (d'.world.db.event k) := by
      rcases Reachable.next_event (Machine.Trail.run hpre) hn k with e | ⟨p, t, sent, -, hs⟩
      · exact ⟨.creator, 0, fun _ => True, e ▸ .stay _⟩
      · exact ⟨_, _, _, hs⟩
    have e1 := hs.claims_eq
    have e2 := hs.attempts_eq
    have e3 := hs.published_eq
    have count : ∀ f, (τ ++ [(d, a, d')]).countP (onEvent k f) =
        τ.countP (onEvent k f) + (f (d.world.db.event k) (d'.world.db.event k)).toNat := by
      intro f
      rw [List.countP_append, List.countP_singleton]
      show _ + (if f (d.world.db.event k) (d'.world.db.event k) = true then 1 else 0) = _
      cases f (d.world.db.event k) (d'.world.db.event k) <;> rfl
    simp only [count]
    exact ⟨by omega, by omega, by omega⟩

/-! ## What a publication rests on -/

/-- In the step `x` process `p`, which has the claim of event `k` under `token`, gets its dispatch
call for the event back. -/
def DispatchReturned (env : Env) (k : Nat) (token : Token) (p : Nat) (x : State × Event × State) :
    Prop :=
  ∃ o t cont, x.1.world.db.event k = some o ∧ o.writer = p ∧ o.val.claimToken = some token ∧
    x.2.1 = .step p .run ∧ x.1.proc p = some (t, .stmt (.dispatchImport o.val.importId) cont) ∧
    World.exec env p t (.dispatchImport o.val.importId) .run x.1.world = some (.ok (), x.2.2.world)

/-- Which tokens were drawn stays known, and a token is only sent by a dispatch that returned. -/
theorem moves_sent {C : Setting} {a : Event} {g g' : Ghost} (hi : C.Inv (c.world, g))
    (hn : (service C.env).next c a = some c')
    (hm : Outline.Moves (service C.env) C.protocol c (c.world, g) (c'.world, g') a) :
    (∀ tk x, g.drawn tk = some x → g'.drawn tk = some x) ∧
      ∀ tk ∈ g'.sent, tk ∈ g.sent ∨ ∃ p k, g.drawn tk = some (p, k) ∧
        DispatchReturned C.env k tk p (c, a, c') := by
  cases a with
  | step p ch =>
    obtain ⟨t, s, cont, r, hp, hx, hg⟩ := hm
    refine ⟨hg.ghost.drawn, fun tk htk => (hg.sent tk htk).imp_right ?_⟩
    rintro ⟨o, ho, hk, hw', hl⟩
    cases hl
    have he : c.world.db.event o.id = some o := (Database.event_eq_some hi.wf).2 ⟨ho, rfl⟩
    have hrun : ch = .run := by
      cases ch with
      | run => rfl
      | fail f =>
        simp only [service, World.exec] at hx
        split at hx <;> cases hx
      | lost f =>
        simp only [service, World.exec] at hx
        split at hx <;> cases hx
    subst hrun
    exact ⟨p, o.id, hw' ▸ hi.outbox.claims o ho tk hk, o, t, cont, he, hw', hk, rfl, hp, hx⟩
  | env e =>
    have e' : g' = g := hm.2
    exact ⟨fun _ _ h => e' ▸ h, fun _ h => .inl (e' ▸ h)⟩
  | spawn t =>
    refine ⟨hm.ghost.drawn, fun tk htk => (hm.sent tk htk).imp_right ?_⟩
    rintro ⟨_, _, _, _, h⟩
    cases h
  | finish p | crash p =>
    obtain ⟨t, z, -, hg⟩ := hm
    refine ⟨hg.ghost.drawn, fun tk htk => (hg.sent tk htk).imp_right ?_⟩
    rintro ⟨_, _, _, _, h⟩
    cases h

/-- A publication rests on a dispatch call that its claimant made under its claim. -/
theorem Reachable.published_after {τ : List (State × Event × State)}
    (h : (service env).Trail Machine.anyAction State.initial τ c) {a : Event}
    (hn : (service env).next c a = some c') {k : Nat}
    (hs : RecordsSuccess (c.world.db.event k) (c'.world.db.event k) = true) :
    ∃ o token p t, c.world.db.event k = some o ∧ o.writer = p ∧ o.val.claimToken = some token ∧
      c.actor a = some (p, t) ∧ ∃ x ∈ τ, DispatchReturned env k token p x := by
  obtain ⟨hx, hy⟩ := of_decide_eq_true hs
  obtain ⟨g, hg, hI⟩ := Outline.induct (Setting.any env).outline
    (I := fun τ _ g => ∀ tk ∈ g.sent, ∃ p k, g.drawn tk = some (p, k) ∧
      ∃ x ∈ τ, DispatchReturned env k tk p x)
    ((Setting.any env).holds_initial rfl) (fun _ h => nomatch h)
    (fun τ d g a d' g' hd _ _ hn hm hI tk htk => by
      obtain ⟨hdr, hse⟩ := moves_sent hd.inv hn hm
      rcases hse tk htk with h | ⟨p, k, h1, h2⟩
      · obtain ⟨p, k, h1, x, hx, h2⟩ := hI tk h
        exact ⟨p, k, hdr _ _ h1, x, List.mem_append_left _ hx, h2⟩
      · exact ⟨p, k, hdr _ _ h1, _, List.mem_append_right _ List.mem_cons_self, h2⟩)
    (h.mono fun c a _ => Setting.admits_any c a)
  obtain ⟨g', -, hm⟩ := hg.next (Setting.admits_any c a) hn
  rcases moves_cases (C := Setting.any env) rfl hn hm with
    ⟨-, hq⟩ | ⟨p, ch, t, s, cont, r, -, -, hact, -, hguar⟩
  · have he : c'.world.db.event k = c.world.db.event k := by simp only [Database.event, hq.outbox]
    rw [he, hx] at hy
    cases hy
  · have hstep := hguar.events k
    generalize t.role = role at hstep
    generalize hu : c.world.db.event k = u at hstep hx
    generalize c'.world.db.event k = v at hstep hy
    cases hstep with
    | stay => cases hx.symm.trans hy
    | create => cases hx
    | claim | retry | exhaust | requeue => cases hy
    | @publish _ o now token processing claimed own returned =>
      obtain ⟨p', k', h1, x, hmem, h2⟩ := hI token returned
      obtain ⟨ho, hid⟩ := (Database.event_eq_some hg.inv.wf).1 hu
      have hd := (hg.inv.outbox.claims o ho token claimed).symm.trans h1
      cases hd
      exact ⟨o, token, _, t, rfl, rfl, claimed, own ▸ hact, x, hmem, hid ▸ h2⟩

/-- A result under another token than the event has selects no row. -/
theorem stale_result_ignored {w : World} {p : Nat} {t : Task} {outboxId : Nat}
    {token : Option Token} (values : OutboxValues)
    (hn : ∀ o ∈ w.db.importDispatchOutbox.view p, o.id = outboxId → o.val.claimToken ≠ token) :
    World.exec env p t (.query (.updateClaimedEvent outboxId token values)) .run w =
      some (.ok false, { w with db := w.db.begin p w.time }) := by
  have hnone : ∀ o ∈ (w.db.begin p w.time).importDispatchOutbox.view p,
      claimed outboxId token o = false := by
    intro o ho
    by_cases hid : o.id = outboxId
    · simp [claimed, hn o ho hid]
    · simp [claimed, hid]
  simp [World.exec, World.perform, Database.exec, Database.updateOutbox,
    Table.updateWhere_nil hnone, Database.mapReply, Except.map, Except.mapError]

/-- Events that are PUBLISHED or FAILED do not change. -/
theorem Reachable.event_terminal (h : Reachable env c)
    (hr : (service env).Run Machine.anyAction c c') {k : Nat}
    (he : eventStatus (c.world.db.event k) = some .published ∨
      eventStatus (c.world.db.event k) = some .failed) :
    c'.world.db.event k = c.world.db.event k := by
  induction hr with
  | refl => rfl
  | @tail d d' hrun hs ih =>
    obtain ⟨a, -, hn⟩ := hs
    rcases Reachable.next_event (.trans h hrun) hn k with e | ⟨p, t, sent, -, hstep⟩
    · exact e.trans ih
    · rw [ih] at hstep
      cases ho : c.world.db.event k with
      | none => rw [ho] at he; simp [eventStatus] at he
      | some o =>
        rw [ho] at hstep he
        exact hstep.terminal (he.imp Option.some.inj Option.some.inj)

/-- The accounts of every event: each claim is closed by at most one result or stale recovery, only
the process that has the claim records a result, a publication rests on a dispatch call of the
claimant that returned, a result under another token changes nothing, and what is PUBLISHED or
FAILED stays. -/
theorem event_claims_resolved {τ : List (State × Event × State)}
    (h : (service env).Trail Machine.anyAction State.initial τ c) (k : Nat) :
    τ.countP (onEvent k ClaimedBy) = τ.countP (onEvent k RecordsSuccess) +
        τ.countP (onEvent k RecordsFailure) + τ.countP (onEvent k RequeuesStale) +
          (decide (eventStatus (c.world.db.event k) = some .processing)).toNat ∧
    τ.countP (onEvent k ClaimedBy) = eventAttempts (c.world.db.event k) +
        τ.countP (onEvent k RequeuesStale) +
          (decide (eventStatus (c.world.db.event k) = some .processing ∨
            eventStatus (c.world.db.event k) = some .published)).toNat ∧
    (∀ a c', (service env).next c a = some c' →
      RecordsSuccess (c.world.db.event k) (c'.world.db.event k) = true ∨
        RecordsFailure (c.world.db.event k) (c'.world.db.event k) = true →
      ∃ o t, c.world.db.event k = some o ∧ c.actor a = some (o.writer, t)) ∧
    (∀ a c', (service env).next c a = some c' →
      RecordsSuccess (c.world.db.event k) (c'.world.db.event k) = true →
      ∃ o token, c.world.db.event k = some o ∧ o.val.claimToken = some token ∧
        ∃ x ∈ τ, DispatchReturned env k token o.writer x) ∧
    (∀ p t token values, (∀ o ∈ c.world.db.importDispatchOutbox.view p, o.id = k →
        o.val.claimToken ≠ token) →
      World.exec env p t (.query (.updateClaimedEvent k token values)) .run c.world =
        some (.ok false, { c.world with db := c.world.db.begin p c.world.time })) ∧
    ∀ c', (service env).Run Machine.anyAction c c' →
      eventStatus (c.world.db.event k) = some .published ∨
        eventStatus (c.world.db.event k) = some .failed →
      c'.world.db.event k = c.world.db.event k := by
  obtain ⟨h1, h2, h3⟩ := Reachable.event_accounts h k
  refine ⟨h1, ?_, fun a c' hn hr => ?_, fun a c' hn hs => ?_,
    fun p t token values hne => stale_result_ignored values hne,
    fun c' hr he => Reachable.event_terminal h.run hr he⟩
  · have hor : (decide (eventStatus (c.world.db.event k) = some .processing ∨
        eventStatus (c.world.db.event k) = some .published)).toNat =
        (decide (eventStatus (c.world.db.event k) = some .processing)).toNat +
          (decide (eventStatus (c.world.db.event k) = some .published)).toNat := by
      by_cases hp : eventStatus (c.world.db.event k) = some .processing <;> simp [hp]
    omega
  · rcases Reachable.next_event h.run hn k with e | ⟨p, t, sent, hact, hs⟩
    · rw [e] at hr
      simp [RecordsSuccess, RecordsFailure] at hr
      exact absurd (hr.1.symm.trans hr.2) (by simp)
    · obtain ⟨o, ho, hw⟩ := hs.result_own hr
      exact ⟨o, t, ho, hw ▸ hact⟩
  · obtain ⟨o, token, p, t, ho, hw, htk, -, hx⟩ := Reachable.published_after h hn hs
    exact ⟨o, token, ho, htk, hw ▸ hx⟩

/-- The claim of the event of a run with one dispatch. -/
theorem completedRun_claims : ∃ τ c,
    (service oneRowEnv).Trail Machine.anyAction State.initial τ c ∧
    (c.world.db.importJobs.rows.map fun r => (r.id, r.val.status)) = [(0, .completed)] ∧
    τ.countP (onEvent 1 ClaimedBy) = eventAttempts (c.world.db.event 1) +
      τ.countP (onEvent 1 RequeuesStale) +
        (decide (eventStatus (c.world.db.event 1) = some .processing ∨
          eventStatus (c.world.db.event 1) = some .published)).toNat := by
  obtain ⟨c, hc, hr⟩ := completedRun_ends
  obtain ⟨τ, ht⟩ := (Machine.run_of_trace _ hc).trail
  exact ⟨τ, c, ht, hr, (event_claims_resolved ht 1).2.1⟩

/-- Process `p` publishes the one event that is due; the broker is down. -/
def failedPublish (p : Nat) : List Event :=
  .spawn .publishDueEvents :: statements p 5 ++
    .step p (.fail .osError) :: statements p 4 ++ [.finish p, wait 100]

end

end ShipmentImport

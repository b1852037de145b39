import ShipmentImport.Lifecycle

/-!
# The life of an outbox event

The second half of the abstract model: the atomic steps by which committed transactions change one
outbox row (`OutboxStep`), what every row is like (`ImportDispatchOutbox.Consistent`), and how many
rows an import has (`IntentsOk`).
-/

namespace ShipmentImport

/-- How the status of an event determines its other columns. -/
structure ImportDispatchOutbox.Consistent (settings : Settings) (o : ImportDispatchOutbox) :
    Prop where
  token : o.status = .processing ↔ o.claimToken.isSome
  claimed : o.status = .processing → o.claimedAt.isSome
  published : o.publishedAt.isSome ↔ o.status = .published
  pending : o.status = .pending → o.claimedAt = none ∧ o.claimToken = none
  attempts : o.status = .pending ∨ o.status = .processing →
    o.attemptCount < settings.outboxMaxAttempts.1
  failed : o.status = .failed → o.attemptCount = settings.outboxMaxAttempts.1

/-- How a committed transaction of process `s` changes an outbox row; `sent` are the claim tokens
under which a dispatch call returned. The results of a dispatch need the claim of the row to be the
process's own. -/
inductive OutboxStep (settings : Settings) (sent : Token → Prop) : Role → Nat →
    Option (Version ImportDispatchOutbox) → Option (Version ImportDispatchOutbox) → Prop
  | stay {role : Role} {s : Nat} (x : Option (Version ImportDispatchOutbox)) :
      OutboxStep settings sent role s x x
  | create {role : Role} {s : Nat} {r : Version ImportDispatchOutbox} (importId : ImportId)
      (availableAt : Option Time) (now : Time) (by_ : role = .creator ∨ role = .watchdog)
      (new : r.val = .new importId availableAt now) : OutboxStep settings sent role s none (some r)
  | claim {s : Nat} {r : Version ImportDispatchOutbox} (token : Token) (claimedAt : Time)
      (pending : r.val.status = .pending) (due : r.val.availableAt ≤ claimedAt) :
      OutboxStep settings sent .publisher s (some r) (some ⟨r.id, s, r.val.claim token claimedAt⟩)
  | publish {s : Nat} {r : Version ImportDispatchOutbox} (now : Time) (token : Token)
      (processing : r.val.status = .processing) (claimed : r.val.claimToken = some token)
      (own : r.writer = s) (returned : sent token) :
      OutboxStep settings sent .publisher s (some r)
        (some ⟨r.id, s, OutboxValues.published.apply now r.val⟩)
  | retry {s : Nat} {r : Version ImportDispatchOutbox} (now failedAt : Time) (message : String)
      (delay : Nat) (due : Time) (processing : r.val.status = .processing) (own : r.writer = s)
      (attempts : r.val.attemptCount + 1 < settings.outboxMaxAttempts.1)
      (lookup : settings.outboxRetryDelaysSeconds.delays[r.val.attemptCount]? = some delay)
      (later : failedAt.plus delay = .ok due) :
      OutboxStep settings sent .publisher s (some r)
        (some ⟨r.id, s, (OutboxValues.publishFailure (r.val.attemptCount + 1) message .pending
          (some due) none).apply now r.val⟩)
  | exhaust {s : Nat} {r : Version ImportDispatchOutbox} (now failedAt : Time) (message : String)
      (processing : r.val.status = .processing) (own : r.writer = s)
      (attempts : settings.outboxMaxAttempts.1 ≤ r.val.attemptCount + 1) :
      OutboxStep settings sent .publisher s (some r)
        (some ⟨r.id, s, (OutboxValues.publishFailure (r.val.attemptCount + 1) message .failed none
          (some failedAt)).apply now r.val⟩)
  | requeue {s : Nat} {r : Version ImportDispatchOutbox} (now recoveredAt : Time)
      (message : String) (processing : r.val.status = .processing)
      (stale : Expired settings.outboxStaleTimeoutSeconds.1 recoveredAt r.val.claimedAt) :
      OutboxStep settings sent .publisher s (some r)
        (some ⟨r.id, s, (OutboxValues.requeueStale recoveredAt message).apply now r.val⟩)

namespace OutboxStep

variable {settings : Settings} {sent : Token → Prop} {role : Role} {s : Nat}
  {x y : Option (Version ImportDispatchOutbox)}

/-- The steps keep a row consistent. -/
theorem consistent (h : OutboxStep settings sent role s x y)
    (hx : ∀ r, x = some r → r.val.Consistent settings) :
    ∀ r, y = some r → r.val.Consistent settings := by
  intro r' hr'
  cases h with
  | stay => exact hx r' hr'
  | create importId availableAt now _ new =>
    cases hr'
    rw [new]
    constructor <;> simp [ImportDispatchOutbox.new, settings.outboxMaxAttempts.2]
  | claim token claimedAt pending =>
    cases hr'
    have h := hx _ rfl
    have ha := h.attempts (.inl pending)
    have hp := h.published
    rw [pending] at hp
    constructor <;> simp_all [ImportDispatchOutbox.claim]
  | publish now token processing =>
    cases hr'
    have h := hx _ rfl
    have ha := h.attempts (.inr processing)
    constructor <;> simp_all [OutboxValues.apply]
  | retry now failedAt message delay due processing own attempts =>
    cases hr'
    have hp := (hx _ rfl).published
    rw [processing] at hp
    constructor <;> simp_all [OutboxValues.apply]
  | exhaust now failedAt message processing own attempts =>
    cases hr'
    have hp := (hx _ rfl).published
    have ha := (hx _ rfl).attempts (.inr processing)
    rw [processing] at hp
    constructor <;> simp_all [OutboxValues.apply]
    omega
  | requeue now recoveredAt message processing =>
    cases hr'
    have hp := (hx _ rfl).published
    have ha := (hx _ rfl).attempts (.inr processing)
    rw [processing] at hp
    constructor <;> simp_all [OutboxValues.apply]

/-- Published and failed events do not change. -/
theorem terminal {r : Version ImportDispatchOutbox} (h : OutboxStep settings sent role s (some r) y)
    (ht : r.val.status = .published ∨ r.val.status = .failed) : y = some r := by
  cases h with
  | stay => rfl
  | claim token claimedAt pending => rw [pending] at ht; simp at ht
  | publish now token processing => rw [processing] at ht; simp at ht
  | retry now failedAt message delay due processing => rw [processing] at ht; simp at ht
  | exhaust now failedAt message processing => rw [processing] at ht; simp at ht
  | requeue now recoveredAt message processing => rw [processing] at ht; simp at ht

/-- No step removes an event or gives it to another import. -/
theorem importId {r : Version ImportDispatchOutbox} (h : OutboxStep settings sent role s (some r) y) :
    ∃ r', y = some r' ∧ r'.id = r.id ∧ r'.val.importId = r.val.importId := by
  cases h with
  | stay => exact ⟨r, rfl, rfl, rfl⟩
  | claim | publish | retry | exhaust | requeue => exact ⟨_, rfl, rfl, rfl⟩

end OutboxStep

/-! ## The events of an import -/

namespace Slice

/-- The step from `x` to `y` creates the import, or is a watchdog's requeue of it. -/
def Intends (role : Role) (x y : Slice) : Prop :=
  (x.job = none ∧ y.job ≠ none) ∨
    (role = .watchdog ∧ x.status = some .processing ∧ y.status = some .pending)

/-- What the number `n` of the outbox rows of an import is like. -/
structure IntentsOk (x : Slice) (n : Nat) : Prop where
  none : x.job = none → n = 0
  bounds : ∀ r, x.job = some r → 1 ≤ n ∧ n ≤ r.val.maxAttempts
  processing : ∀ r, x.job = some r → r.val.status = .processing → n ≤ r.val.attemptCount
  pending : ∀ r, x.job = some r → r.val.status = .pending → n ≤ r.val.attemptCount + 1

variable {env : Env} {role : Role} {s : Nat} {now : Time} {x y : Slice} {n : Nat}

/-- A step that neither creates nor requeues. -/
theorem Step.not_intends (h : Step env role s now x y) (hr : role = .worker ∨ role = .publisher) :
    ¬ Intends role x y := by
  rintro (⟨hx, hy⟩ | ⟨rfl, -⟩)
  · cases h with
    | create => simp at hr
    | stay => exact hy hx
    | _ => cases hx
  · simp at hr

theorem not_intends_some {r r' : Version ImportJob} {S S' E E'}
    (h : role ≠ .watchdog ∨ r'.val.status ≠ .pending) :
    ¬ Intends role ⟨some r, S, E⟩ ⟨some r', S', E'⟩ := by
  rintro (⟨hx, -⟩ | ⟨hw, -, hs⟩)
  · cases hx
  · exact h.elim (absurd hw) fun hne => hne (Option.some.inj hs)

/-- A write that adds no row. -/
theorem IntentsOk.job {r : Version ImportJob} {S S' E E'} (h : IntentsOk ⟨some r, S, E⟩ n)
    {w : JobWrite} (hm : (w.apply r.val).maxAttempts = r.val.maxAttempts)
    (hp : (w.apply r.val).status = .processing → n ≤ (w.apply r.val).attemptCount)
    (hq : (w.apply r.val).status = .pending → n ≤ (w.apply r.val).attemptCount + 1) :
    IntentsOk ⟨some (rewrite s w r), S', E'⟩ n where
  none h := by cases h
  bounds r' hr' := by
    cases hr'
    have := h.bounds r rfl
    exact ⟨this.1, hm ▸ this.2⟩
  processing r' hr' := by cases hr'; exact hp
  pending r' hr' := by cases hr'; exact hq

/-- Steps that add a row exactly where they intend one keep the bounds. -/
theorem Step.intentsOk (h : Step env role s now x y) (hx : IntentsOk x n) {n' : Nat}
    (hn : Intends role x y → n' = n + 1) (hn' : ¬ Intends role x y → n' = n) :
    IntentsOk y n' := by
  cases h with
  | stay =>
    have : ¬ Intends role x x := by
      rintro (⟨h1, h2⟩ | ⟨-, h1, h2⟩)
      · exact h2 h1
      · rw [h1] at h2
        cases h2
    rw [hn' this]
    exact hx
  | create r history pending attempts =>
    have hz := hx.none rfl
    have hmax := history.maxAttempts_eq
    have hpos := env.settings.importMaxAttempts.2
    have hone := hn (.inl ⟨rfl, by simp⟩)
    exact
      { none := fun h => by cases h
        bounds := fun r' hr' => by cases hr'; omega
        processing := fun r' hr' hs => by cases hr'; rw [pending] at hs; cases hs
        pending := fun r' hr' _ => by cases hr'; omega }
  | @recoverRequeued _ _ r S E last clock admits attempts =>
    have hst : r.val.status = .processing := admits
    have hp : n ≤ r.val.attemptCount := hx.processing r rfl hst
    have hb : 1 ≤ n ∧ n ≤ r.val.maxAttempts := hx.bounds r rfl
    have hone := hn (.inr ⟨rfl, congrArg some hst, rfl⟩)
    rw [hone]
    exact
      { none := fun h => by cases h
        bounds := fun r' hr' => by
          cases hr'
          exact ⟨Nat.succ_pos n, Nat.lt_of_le_of_lt hp attempts⟩
        processing := fun r' hr' hs => by cases hr'; cases hs
        pending := fun r' hr' _ => by cases hr'; exact Nat.succ_le_succ hp }
  | claim worker admits =>
    rw [hn' (not_intends_some (.inl (by decide)))]
    exact hx.job rfl (fun _ => hx.pending _ rfl admits.1) fun hs => by cases hs
  | requeue reason admits =>
    rw [hn' (not_intends_some (.inl (by decide)))]
    exact hx.job rfl (fun hs => by cases hs) fun _ =>
      Nat.le_succ_of_le (hx.processing _ rfl admits.1)
  | reset admits =>
    rw [hn' (not_intends_some (.inl (by decide)))]
    exact hx.job rfl (hx.processing _ rfl) (hx.pending _ rfl)
  | @chunk _ _ r S E S' E' t a f admits =>
    rw [hn' (not_intends_some (.inl (by decide)))]
    have hmid : IntentsOk ⟨some (rewrite s (.progress now s (.recordChunkCounts t a f)) r), S, E⟩ n :=
      hx.job rfl (hx.processing _ rfl) (hx.pending _ rfl)
    exact hmid.job rfl (hmid.processing _ rfl) (hmid.pending _ rfl)
  | complete | fail =>
    rw [hn' (not_intends_some (.inl (by decide)))]
    exact hx.job rfl (fun hs => by cases hs) fun hs => by cases hs
  | recoverFailed =>
    rw [hn' (not_intends_some (.inr fun hs => by cases hs))]
    exact hx.job rfl (fun hs => by cases hs) fun hs => by cases hs
  | dispatchExhausted =>
    rw [hn' (not_intends_some (.inl (by decide)))]
    exact hx.job rfl (fun hs => by cases hs) fun hs => by cases hs

end Slice

end ShipmentImport

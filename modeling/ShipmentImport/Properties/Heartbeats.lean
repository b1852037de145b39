import ShipmentImport.Properties.Imports

/-!
# Heartbeats along runs

A chunk writes as heartbeat the time at which its transaction began: no watchdog pass takes its
job away before the timeout has passed since then. Where the chunk is committed in the same
microsecond or the next, this is as good as the time of the commit.
-/

namespace ShipmentImport

section
variable {env : Env} {c c' : State} {w w' : World} {p : Nat}

/-- The import is being processed, with heartbeat `b`. -/
def Slice.Beating (x : Slice) (b : Time) : Prop :=
  ∃ r, x.job = some r ∧ r.val.status = .processing ∧ r.val.lastHeartbeatAt = some b

theorem Slice.Step.beating {role : Role} {s : Nat} {now : Time} {x y : Slice}
    (h : Slice.Step env role s now x y) {b : Time} (hy : y.Beating b) : b = now ∨ x.Beating b := by
  obtain ⟨r', hr', hs, hb⟩ := hy
  cases h with
  | stay => exact .inr ⟨r', hr', hs, hb⟩
  | create r history pending =>
    cases hr'
    cases pending.symm.trans hs
  | claim worker admits =>
    cases hr'
    exact .inl (Option.some.inj hb).symm
  | @reset _ _ r S E admits =>
    cases hr'
    exact .inr ⟨r, rfl, hs, hb⟩
  | chunk S' E' t n f admits =>
    cases hr'
    exact .inl (Option.some.inj hb).symm
  | complete | fail | requeue | recoverFailed | recoverRequeued | dispatchExhausted =>
    cases hr'
    cases hs

/-- No import that is being processed has its heartbeat in the future. -/
theorem Reachable.heartbeat_le (h : Reachable env c) (i : ImportId) :
    ∀ b, (c.world.db.slice i).Beating b → b ≤ c.world.time := by
  induction h with
  | refl =>
    rintro b ⟨r, hr, -⟩
    cases hr
  | @tail d d' hr hs ih =>
    obtain ⟨a, -, hn⟩ := hs
    have hd : Reachable env d := hr
    intro b hb
    rcases hd.moves hn with ⟨-, hsame⟩ | ⟨p, ch, t, s, k, r, g, g', -, -, -, -, -, hg⟩
    · rw [hsame.slice i] at hb
      exact (ih b hb).trans (next_time hn)
    · rcases (hg.steps i).beating hb with rfl | hb
      · exact (hd.now_le p).trans (next_time hn)
      · exact (ih b hb).trans (next_time hn)

/-! ## Chunks and watchdogs -/

/-- The import has the token `p`, and as heartbeat `b`. -/
def Slice.Beats (x : Slice) (p : Nat) (b : Time) : Prop :=
  ∃ r, x.job = some r ∧ r.val.processingToken = some p ∧ r.val.lastHeartbeatAt = some b

/-- Where a step leaves an import with the token `p`, the import is as before, or the step is one of
`p`: it beats, or it resets the counters. -/
theorem Slice.Step.beats {role : Role} {s : Nat} {now : Time} {x y : Slice}
    (h : Slice.Step env role s now x y) {p : Nat} (hy : y.HasToken p) :
    x = y ∨ s = p ∧ (y.Beats p now ∨ (∀ b, x.Beats p b → y.Beats p b) ∧ x.HasToken p ∧
      ∃ r', y.job = some r' ∧ r'.val.totalRows = 0) := by
  by_cases hs : p = s
  · subst hs
    obtain ⟨r', hr', ht⟩ := hy
    cases h with
    | stay => exact .inl rfl
    | create r history pending =>
      cases hr'
      have := history.consistent.token
      rw [pending, ht] at this
      simp at this
    | claim worker admits => exact .inr ⟨rfl, .inl ⟨_, rfl, rfl, rfl⟩⟩
    | @reset _ _ r S E admits =>
      refine .inr ⟨rfl, .inr ⟨?_, ⟨r, rfl, admits.2⟩, _, rfl, rfl⟩⟩
      rintro b ⟨r₀, hr₀, h1, h2⟩
      cases hr₀
      exact ⟨_, rfl, h1, h2⟩
    | chunk S' E' t n f admits => exact .inr ⟨rfl, .inl ⟨_, rfl, admits.2, rfl⟩⟩
    | complete | fail | requeue | recoverFailed | recoverRequeued | dispatchExhausted =>
      cases hr'
      cases ht
  · exact .inl (h.foreign hs hy)

/-- From `x` to `y` worker `p` commits a chunk of an import of which it has the token. -/
def Slice.CountsChunk (x y : Slice) (p : Nat) : Prop :=
  ∃ r r', x.job = some r ∧ y.job = some r' ∧ r.val.processingToken = some p ∧
    r'.val.processingToken = some p ∧ r.val.totalRows < r'.val.totalRows

/-- A watchdog that read the clock `n` requeued or failed the import. -/
def Slice.RecoveredAt (x : Slice) (n : Time) : Prop :=
  ∃ r, x.job = some r ∧ (r.val.status = .pending ∧ r.val.lastRequeuedAt = some n ∨
    r.val.status = .failed ∧ r.val.finishedAt = some n)

/-- A watchdog takes an import away when it finds its heartbeat older than the timeout. -/
theorem Slice.Step.recovered {s : Nat} {now : Time} {x y : Slice}
    (h : Slice.Step env .watchdog s now x y) {p : Nat} {b : Time} (hx : x.Beats p b) (hne : y ≠ x) :
    ∃ n, y.RecoveredAt n ∧
      b.1 + env.settings.processingStaleTimeoutSeconds.1 * second < n.1 := by
  obtain ⟨r, hr, -, hb⟩ := hx
  cases h with
  | stay => exact absurd rfl hne
  | recoverFailed last reason clock admits attempts stale =>
    cases hr
    obtain ⟨_, hb', hlt⟩ := stale
    cases hb.symm.trans hb'
    exact ⟨clock, ⟨_, rfl, .inr ⟨rfl, rfl⟩⟩, hlt⟩
  | recoverRequeued last clock admits attempts stale =>
    cases hr
    obtain ⟨_, hb', hlt⟩ := stale
    cases hb.symm.trans hb'
    exact ⟨clock, ⟨_, rfl, .inl ⟨rfl, rfl⟩⟩, hlt⟩

/-- The chunk that worker `p` began at `start` still protects import `i`. -/
structure Protects (p : Nat) (i : ImportId) (start : Time) (c : State) : Prop where
  now : start ≤ c.world.db.now p c.world.time
  time : start ≤ c.world.time
  beats : (c.world.db.slice i).HasToken p → ∃ b, (c.world.db.slice i).Beats p b ∧ start ≤ b

theorem Reachable.protects (h : Reachable env c) {p : Nat} {ch : Choice} {i : ImportId}
    (hn : (service env).next c (.step p ch) = some c')
    (hx : (c.world.db.slice i).CountsChunk (c'.world.db.slice i) p) :
    Protects p i (c.world.db.now p c.world.time) c' := by
  obtain ⟨r, r', hr, hr', ht, ht', hlt⟩ := hx
  have hne : c.world.db.slice i ≠ c'.world.db.slice i := by
    intro e
    rw [← e, hr] at hr'
    cases hr'
    exact Nat.lt_irrefl _ hlt
  have htime := (h.now_le p).trans (next_time hn)
  rcases h.moves hn with ⟨-, hs⟩ | ⟨q, ch', t, s, k, x, g, g', ha, -, -, hexec, hinv, hg⟩
  · exact absurd (hs.slice i).symm hne
  · cases ha
    rcases (exec_touches hexec).2.rows hinv.wf with ⟨rfl, hd⟩ | hsame
    · refine ⟨?_, htime, fun _ => ?_⟩
      · rw [hd]
        show _ ≤ (Function.update c.world.db.began p none p).getD c'.world.time
        rw [Function.update_self]
        exact htime
      · rcases (hg.steps i).beats ⟨r', hr', ht'⟩ with e | ⟨-, hb | ⟨-, -, r₀, hr₀, hz⟩⟩
        · exact absurd e hne
        · exact ⟨_, hb, le_refl _⟩
        · rw [hr'] at hr₀
          cases hr₀
          exact absurd hlt (by omega)
    · exact absurd (hsame.slice i).symm hne

/-- Later steps keep the protection. -/
theorem Protects.next {p : Nat} {i : ImportId} {start : Time} (hx : Protects p i start c)
    (h : Reachable env c) {a : Event} (hn : (service env).next c a = some c') :
    Protects p i start c' := by
  refine ⟨?_, hx.time.trans (next_time hn), fun ht => ?_⟩
  · rw [Database.now]
    rcases h.next_began hn p with e | e | e <;> rw [e]
    · cases hb : c.world.db.began p with
      | none => exact hx.time.trans (next_time hn)
      | some b => exact hx.now.trans (congrArg (Option.getD · c.world.time) hb).le
    · exact hx.time.trans (next_time hn)
    · exact hx.now
  · rcases h.moves hn with ⟨-, hs⟩ | ⟨q, ch, t, s, k, x, g, g', -, -, -, -, -, hg⟩
    · rw [hs.slice i] at ht ⊢
      exact hx.beats ht
    · rcases (hg.steps i).beats ht with e | ⟨rfl, hb | ⟨hk, ht', -⟩⟩
      · rw [← show c.world.db.slice i = c'.world.db.slice i from e] at ht ⊢
        exact hx.beats ht
      · exact ⟨_, hb, hx.now⟩
      · obtain ⟨b, hb, hle⟩ := hx.beats ht'
        exact ⟨b, hk b hb, hle⟩

theorem Protects.run {p : Nat} {i : ImportId} {start : Time} (hx : Protects p i start c)
    (h : Reachable env c) (hr : (service env).Run Machine.anyAction c c') :
    Protects p i start c' := by
  induction hr with
  | refl => exact hx
  | tail hrun hs ih =>
    obtain ⟨a, -, hn⟩ := hs
    exact ih.next (.trans h hrun) hn

/-- A chunk protects its import: no watchdog takes it away from the worker before the clock reads
the timeout later than the beginning of the chunk's transaction. If that is at most a microsecond
before its commit, none does before the timeout has passed since the commit. -/
theorem chunk_protects {d d' : State} {p u : Nat} {ch : Choice} {i : ImportId} {a : Event}
    {t : Task} (hd : Reachable env d) (hn : (service env).next d (.step p ch) = some d')
    (hchunk : (d.world.db.slice i).CountsChunk (d'.world.db.slice i) p)
    (hr : (service env).Run Machine.anyAction d' c) (hw : (service env).next c a = some c')
    (hact : c.actor a = some (u, t)) (ht : t.role = .watchdog)
    (hown : (c.world.db.slice i).HasToken p) (hne : c'.world.db.slice i ≠ c.world.db.slice i) :
    ∃ n, (c'.world.db.slice i).RecoveredAt n ∧
      (d.world.db.now p d.world.time).1 + env.settings.processingStaleTimeoutSeconds.1 * second <
        n.1 ∧
      (d.world.time.1 ≤ (d.world.db.now p d.world.time).1 + 1 →
        d.world.time.1 + env.settings.processingStaleTimeoutSeconds.1 * second ≤ n.1) := by
  have hc : Reachable env c := .trans (hd.next hn) hr
  have hprot := (hd.protects hn hchunk).run (hd.next hn) hr
  obtain ⟨b, hb, hle⟩ := hprot.beats hown
  rcases hc.next_slice hw i with e | ⟨u', t', now, hact', hs⟩
  · exact absurd e hne
  · rw [hact] at hact'
    cases hact'
    rw [ht] at hs
    obtain ⟨n, hrec, hlt⟩ := hs.recovered hb hne
    have hle : (d.world.db.now p d.world.time).1 ≤ b.1 := hle
    exact ⟨n, hrec, by omega, fun _ => by omega⟩

/-! ## A prompt chunk, and a long one -/

/-- Worker 2 is about to commit its only chunk, some microseconds after its transaction began. -/
def chunkRun (microseconds : Nat) : List Event :=
  dispatchedRun ++ .spawn (.processImport ⟨0, 0⟩ none) :: statements 2 14 ++
    [.env (.advance microseconds), .step 2 .run]

/-- A watchdog that starts `seconds` later is about to commit. -/
def watchdogRun (seconds : Nat) : List Event :=
  wait seconds :: .spawn (.recoverStaleImports .schedule) :: statements 3 4

/-- The token of the import, the rows it counts and its status. -/
def Slice.progress (x : Slice) : Option (Option Token × Nat × ImportStatus) :=
  x.job.map fun r => (r.val.processingToken, r.val.totalRows, r.val.status)

theorem Slice.countsChunk_of_progress {x y : Slice} {p n m : Nat} {s s' : ImportStatus}
    (hx : x.progress = some (some p, n, s)) (hy : y.progress = some (some p, m, s')) (h : n < m) :
    x.CountsChunk y p := by
  obtain ⟨r, hr, e⟩ := Option.map_eq_some_iff.1 hx
  obtain ⟨r', hr', e'⟩ := Option.map_eq_some_iff.1 hy
  simp only [Prod.mk.injEq] at e e'
  exact ⟨r, r', hr, hr', e.1, e'.1, by omega⟩

/-- What the runs of this section have in common: the chunk is committed in the step from `d` to
`d'`, and the watchdog requeues the import in the step from `c` to `c'`. -/
structure TakenAway (d d' c c' : State) : Prop where
  before : (d.world.db.slice 0).progress = some (some 2, 0, .processing)
  after : (d'.world.db.slice 0).progress = some (some 2, 1, .processing)
  owned : (c.world.db.slice 0).progress = some (some 2, 1, .processing)
  requeued : (c'.world.db.slice 0).progress = some (none, 1, .pending)
  watchdog : (c.actor (.step 3 .run)).map (fun x => (x.1, x.2.role)) = some (3, .watchdog)

instance (d d' c c' : State) : Decidable (TakenAway d d' c c') :=
  decidable_of_iff ((d.world.db.slice 0).progress = some (some 2, 0, .processing) ∧
    (d'.world.db.slice 0).progress = some (some 2, 1, .processing) ∧
    (c.world.db.slice 0).progress = some (some 2, 1, .processing) ∧
    (c'.world.db.slice 0).progress = some (none, 1, .pending) ∧
    (c.actor (.step 3 .run)).map (fun x => (x.1, x.2.role)) = some (3, .watchdog))
    ⟨fun ⟨h1, h2, h3, h4, h5⟩ => ⟨h1, h2, h3, h4, h5⟩, fun ⟨h1, h2, h3, h4, h5⟩ =>
      ⟨h1, h2, h3, h4, h5⟩⟩

theorem exists_takenAway {m n : Nat} {P : State → State → State → State → Prop}
    [∀ d d' c c', Decidable (P d d' c c')]
    (h : (((service oneRowEnv).trace State.initial (chunkRun m)).any fun d =>
      ((service oneRowEnv).next d (.step 2 .run)).any fun d' =>
      ((service oneRowEnv).trace d' (watchdogRun n)).any fun c =>
      ((service oneRowEnv).next c (.step 3 .run)).any fun c' =>
        decide (TakenAway d d' c c' ∧ P d d' c c')) = true) :
    ∃ d d' c c', (service oneRowEnv).trace State.initial (chunkRun m) = some d ∧
      (service oneRowEnv).next d (.step 2 .run) = some d' ∧
      (service oneRowEnv).trace d' (watchdogRun n) = some c ∧
      (service oneRowEnv).next c (.step 3 .run) = some c' ∧ TakenAway d d' c c' ∧ P d d' c c' := by
  obtain ⟨d, hd, h⟩ := (Option.any_eq_true _ _).1 h
  obtain ⟨d', hd', h⟩ := (Option.any_eq_true _ _).1 h
  obtain ⟨c, hc, h⟩ := (Option.any_eq_true _ _).1 h
  obtain ⟨c', hc', h⟩ := (Option.any_eq_true _ _).1 h
  exact ⟨d, d', c, c', hd, hd', hc, hc', of_decide_eq_true h⟩

namespace TakenAway

variable {d d' c c' : State}

theorem chunk (h : TakenAway d d' c c') :
    (d.world.db.slice 0).CountsChunk (d'.world.db.slice 0) 2 :=
  Slice.countsChunk_of_progress h.before h.after (by decide)

theorem token (h : TakenAway d d' c c') : (c.world.db.slice 0).HasToken 2 := by
  obtain ⟨r, hr, e⟩ := Option.map_eq_some_iff.1 h.owned
  exact ⟨r, hr, (Prod.mk.inj e).1⟩

theorem actor (h : TakenAway d d' c c') :
    ∃ t, c.actor (.step 3 .run) = some (3, t) ∧ t.role = .watchdog := by
  obtain ⟨⟨u, t⟩, hx, e⟩ := Option.map_eq_some_iff.1 h.watchdog
  obtain ⟨rfl, ht⟩ := Prod.mk.inj e
  exact ⟨t, hx, ht⟩

theorem ne (h : TakenAway d d' c c') : c'.world.db.slice 0 ≠ c.world.db.slice 0 := by
  intro e
  have := h.requeued
  rw [e, h.owned] at this
  cases this

end TakenAway

set_option maxRecDepth 100000 in
/-- A chunk that is committed a microsecond after it began protects its import for the timeout. -/
theorem promptRun_protected : ∃ d d' c c',
    (service oneRowEnv).trace State.initial (chunkRun 1) = some d ∧
    (service oneRowEnv).next d (.step 2 .run) = some d' ∧
    (service oneRowEnv).trace d' (watchdogRun 1000) = some c ∧
    (service oneRowEnv).next c (.step 3 .run) = some c' ∧
    ∃ n, (c'.world.db.slice 0).RecoveredAt n ∧ d.world.time.1 + 300 * second ≤ n.1 := by
  obtain ⟨d, d', c, c', hd, hn, hc, hw, h, hp⟩ := exists_takenAway (m := 1) (n := 1000)
    (P := fun d _ _ _ => d.world.time.1 ≤ (d.world.db.now 2 d.world.time).1 + 1) (by decide +kernel)
  obtain ⟨t, hact, ht⟩ := h.actor
  obtain ⟨n, hrec, -, hprompt⟩ := chunk_protects (Machine.run_of_trace _ hd) hn h.chunk
    (Machine.run_of_trace _ hc) hw hact ht h.token h.ne
  exact ⟨d, d', c, c', hd, hn, hc, hw, n, hrec, hprompt hp⟩

set_option maxRecDepth 100000 in
/-- A chunk that takes 400 seconds is committed then, and a watchdog that reads the clock right
after requeues its import. -/
theorem long_chunk_unprotected : ∃ d d' c c',
    (service oneRowEnv).trace State.initial (chunkRun (400 * second)) = some d ∧
    (service oneRowEnv).next d (.step 2 .run) = some d' ∧
    (d.world.db.slice 0).CountsChunk (d'.world.db.slice 0) 2 ∧
    (service oneRowEnv).trace d' (watchdogRun 0) = some c ∧
    (service oneRowEnv).next c (.step 3 .run) = some c' ∧
    (c.world.db.slice 0).HasToken 2 ∧ c'.world.db.slice 0 ≠ c.world.db.slice 0 ∧
    (c'.world.db.slice 0).RecoveredAt d.world.time := by
  obtain ⟨d, d', c, c', hd, hn, hc, hw, h, hr⟩ := exists_takenAway (m := 400 * second) (n := 0)
    (P := fun d _ _ c' => (c'.world.db.slice 0).job.map (fun r =>
      (r.val.status, r.val.lastRequeuedAt)) = some (.pending, some d.world.time))
    (by decide +kernel)
  obtain ⟨r, hr, e⟩ := Option.map_eq_some_iff.1 hr
  obtain ⟨h1, h2⟩ := Prod.mk.inj e
  exact ⟨d, d', c, c', hd, hn, h.chunk, hc, hw, h.token, h.ne, ⟨r, hr, .inl ⟨h1, h2⟩⟩⟩

end

end ShipmentImport

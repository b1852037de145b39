import ShipmentImport.Lib.Blocking
import ShipmentImport.Refinement.FreeRuns
import ShipmentImport.Runs

/-!
# What a transaction holds

`Database.Blocks` says that a session holds what the query of another one needs; a query waits
exactly when some session blocks it (`exec_eq_none`). The `Footprint` of the exchanges of a process
bounds what its session holds: `taken` from above, by the kinds of things its open transaction asked
for, and `jobs` and `events` from below, by the rows it was told it has (`Accounts`).
-/

namespace ShipmentImport

/-! ## What queries wait for -/

/-- The kinds of things a session holds and others wait for: an advisory lock, rows of import jobs
and of the outbox, codes in the index of the shipments, and rows it deletes. -/
inductive Resource
  | advisory
  | job
  | event
  | code
  | row
  deriving DecidableEq

/-- What a query can take. -/
def Query.takes : Query → Option Resource
  | lockPendingImport _ | claimPendingImport .. | updateCurrentProcessingImport ..
  | lockStaleImports .. | saveImportJob .. | insertImportJob _ | failPendingImport .. => some .job
  | insertDispatchIntent .. | lockDueEvents .. | saveClaimedEvent .. | lockStaleClaims ..
  | updateClaimedEvent .. => some .event
  | deleteShipments _ | deleteImportErrors _ => some .row
  | insertShipment _ => some .code
  | acquireFingerprintLock _ => some .advisory
  | hasCurrentOwnership .. | findExistingShipmentCodes _ | checkImportExists _ | insertImportError _
  | getSnapshotByIdempotencyKey _ | getSnapshotByFingerprint _ | refreshImportJob _ => none

namespace Database

/-- Session `s` holds something of a kind. -/
def Held (d : Database) (s : Nat) : Resource → Prop
  | .advisory => ∃ k, d.advisory k = some s
  | .job => (∃ i, d.importJobs.Holds s i) ∨ ∃ k, d.importJobs.entry k = some s
  | .event => ∃ i, d.importDispatchOutbox.Holds s i
  | .code => ∃ k, d.shipments.entry k = some s
  | .row => (∃ r ∈ d.shipments.rows, d.shipments.Holds s r.id) ∨
    ∃ r ∈ d.importErrors.rows, d.importErrors.Holds s r.id

/-- Session `u` holds what a query of session `s` needs. -/
def Blocks (server : Server) (d : Database) (s u : Nat) : Query → Prop
  | .claimPendingImport importId _ _ => d.importJobs.UpdateBlocked s u (claimable importId)
  | .updateCurrentProcessingImport importId token _ =>
    d.importJobs.UpdateBlocked s u (owned importId token)
  | .saveImportJob importId _ => d.importJobs.UpdateBlocked s u (·.id == importId)
  | .failPendingImport importId _ =>
    d.importJobs.UpdateBlocked s u fun r => r.id == importId && r.val.status == .pending
  | .insertImportJob importJob => ∃ stored, importJob.store = .ok stored ∧
    d.importJobs.InsertBlocked s u (·.idempotencyKey) stored
  | .checkImportExists importId | .insertDispatchIntent importId _ =>
    (d.importJobs.view s).any (·.id == importId) = true ∧ d.importJobs.ShareBlocked u importId
  | .saveClaimedEvent outboxId _ => d.importDispatchOutbox.UpdateBlocked s u (·.id == outboxId)
  | .updateClaimedEvent outboxId token _ =>
    d.importDispatchOutbox.UpdateBlocked s u (claimed outboxId token)
  | .deleteShipments importId => d.shipments.DeleteBlocked s u fun r => r.val.importId == importId
  | .deleteImportErrors importId =>
    d.importErrors.DeleteBlocked s u fun r => r.val.importId == importId
  | .insertShipment shipment => ∃ stored, shipment.store = .ok stored ∧
    d.shipments.InsertBlocked s u (fun x => some x.shipmentCode) stored
  | .acquireFingerprintLock fingerprint => d.advisory (server.hashtext fingerprint) = some u
  | .lockPendingImport _ | .lockStaleImports .. | .lockDueEvents .. | .lockStaleClaims ..
  | .hasCurrentOwnership .. | .findExistingShipmentCodes _ | .insertImportError _
  | .getSnapshotByIdempotencyKey _ | .getSnapshotByFingerprint _ | .refreshImportJob _ => False

section
variable {server : Server} {clock : Time} {d d' : Database} {s u : Nat}

theorem updateJobs_eq_none {p : Version ImportJob → Bool} {f : ImportJob → ImportJob} :
    d.updateJobs s p f = none ↔ ∃ u, u ≠ s ∧ d.importJobs.UpdateBlocked s u p := by
  rw [updateJobs, Option.map_eq_none_iff, Table.updateWhere_eq_none]

theorem updateOutbox_eq_none {p : Version ImportDispatchOutbox → Bool}
    {f : ImportDispatchOutbox → ImportDispatchOutbox} : d.updateOutbox s p f = none ↔
      ∃ u, u ≠ s ∧ d.importDispatchOutbox.UpdateBlocked s u p := by
  rw [updateOutbox, Option.map_eq_none_iff, Table.updateWhere_eq_none]

theorem referenceJob_eq_none {i : ImportId} : d.referenceJob s i = none ↔
    ∃ u, u ≠ s ∧ (d.importJobs.view s).any (·.id == i) = true ∧
      d.importJobs.ShareBlocked u i := by
  unfold referenceJob
  split
  · next h => simp [Option.map_eq_none_iff, Table.keyShare_eq_none, h]
  · next h => simp [h]

theorem never_blocks {α : Type} {a : α} : some a = none ↔ ∃ u, u ≠ s ∧ False := by simp

/-- A query waits exactly when some other session blocks it. -/
theorem exec_eq_none : ∀ {q : Query},
    d.exec server clock s q = none ↔ ∃ u, u ≠ s ∧ d.Blocks server s u q
  | .claimPendingImport .. | .updateCurrentProcessingImport .. | .saveImportJob ..
  | .failPendingImport .. => Option.map_eq_none_iff.trans updateJobs_eq_none
  | .saveClaimedEvent .. | .updateClaimedEvent .. =>
    Option.map_eq_none_iff.trans updateOutbox_eq_none
  | .checkImportExists _ | .insertDispatchIntent .. => referenceJob_eq_none
  | .deleteShipments _ | .deleteImportErrors _ =>
    Option.map_eq_none_iff.trans Table.deleteWhere_eq_none
  | .insertImportJob importJob => by
    simp only [exec, Blocks]
    cases importJob.store with
    | error f => simp
    | ok stored => simp [Option.map_eq_none_iff, Table.insertUnique_eq_none, Table.InsertBlocked]
  | .insertShipment shipment => by
    simp only [exec, Blocks]
    cases shipment.store with
    | error f => simp
    | ok stored => simp [Option.map_eq_none_iff, Table.insertUnique_eq_none]
  | .acquireFingerprintLock fingerprint => by
    simp only [exec, Blocks]
    cases d.advisory (server.hashtext fingerprint) with
    | none => simp
    | some v =>
      by_cases hv : v = s
      · subst hv
        simp [eq_comm]
      · simp [hv]
  | .insertImportError importError => by
    simp only [exec]
    split <;> exact never_blocks
  | .lockPendingImport _ | .lockStaleImports .. | .lockDueEvents .. | .lockStaleClaims ..
  | .hasCurrentOwnership .. | .findExistingShipmentCodes _ | .getSnapshotByIdempotencyKey _
  | .getSnapshotByFingerprint _ | .refreshImportJob _ => never_blocks

end

/-! ## What queries take -/

/-- What a query that takes things of kind `k` leaves alone: the things of other kinds, but for the
rows it inserts, and the shares of shipments and errors. -/
structure Spares (s : Nat) (k : Option Resource) (d d' : Database) : Prop where
  advisory : k ≠ some .advisory → d'.advisory = d.advisory
  jobs : k ≠ some .job →
    d'.importJobs.lock = d.importJobs.lock ∧ d'.importJobs.entry = d.importJobs.entry
  outbox : k ≠ some .event → d'.importDispatchOutbox.lock = d.importDispatchOutbox.lock
  entry : k ≠ some .code → d'.shipments.entry = d.shipments.entry
  shipments : k ≠ some .row → ∀ i, d'.shipments.Holds s i → d.shipments.Holds s i ∨ d.issued ≤ i
  errors : k ≠ some .row →
    ∀ i, d'.importErrors.Holds s i → d.importErrors.Holds s i ∨ d.issued ≤ i
  shipmentShares : d'.shipments.share = d.shipments.share
  errorShares : d'.importErrors.share = d.importErrors.share

section
variable {server : Server} {clock : Time} {d d' : Database} {s : Nat}

theorem spares_refl (k : Option Resource) (d : Database) : Spares s k d d :=
  ⟨fun _ => rfl, fun _ => ⟨rfl, rfl⟩, fun _ => rfl, fun _ => rfl, fun _ _ => .inl, fun _ _ => .inl,
    rfl, rfl⟩

theorem spares_jobs {T : Table ImportJob} {n : Nat} :
    Spares s (some .job) d { d with importJobs := T, issued := n } :=
  ⟨fun _ => rfl, fun h => absurd rfl h, fun _ => rfl, fun _ => rfl, fun _ _ => .inl,
    fun _ _ => .inl, rfl, rfl⟩

theorem spares_outbox {T : Table ImportDispatchOutbox} {n : Nat} :
    Spares s (some .event) d { d with importDispatchOutbox := T, issued := n } :=
  ⟨fun _ => rfl, fun _ => ⟨rfl, rfl⟩, fun h => absurd rfl h, fun _ => rfl, fun _ _ => .inl,
    fun _ _ => .inl, rfl, rfl⟩

theorem referenceJob_eq {i : ImportId} {r : Except Fault Unit}
    (hu : d.referenceJob s i = some (r, d')) :
    ∃ sh, d' = { d with importJobs := { d.importJobs with share := sh } } := by
  unfold referenceJob at hu
  split at hu
  · simp only [Option.map_eq_some_iff] at hu
    obtain ⟨T, hT, hu⟩ := hu
    cases hu
    obtain ⟨sh, rfl⟩ := Table.keyShare_eq hT
    exact ⟨sh, rfl⟩
  · cases hu
    exact ⟨d.importJobs.share, rfl⟩

/-- A query takes only things of its kind. -/
theorem exec_spares : ∀ {q : Query} {r : Except Fault q.Reply},
    d.exec server clock s q = some (r, d') → Spares s q.takes d d'
  | .lockPendingImport _, r, hq => by
    cases hq
    exact spares_jobs
  | .lockStaleImports .., r, hq => by
    rcases limited_cases hq with ⟨rfl, rfl⟩ | ⟨rfl, rfl⟩
    · exact spares_jobs
    · exact spares_refl _ _
  | .lockDueEvents .., r, hq | .lockStaleClaims .., r, hq => by
    rcases limited_cases hq with ⟨rfl, rfl⟩ | ⟨rfl, rfl⟩
    · exact spares_outbox
    · exact spares_refl _ _
  | .claimPendingImport .., r, hq | .updateCurrentProcessingImport .., r, hq
  | .saveImportJob .., r, hq | .failPendingImport .., r, hq => by
    obtain ⟨r', hu, -⟩ := mapReply_eq hq
    rcases updateJobs_spec hu with ⟨new, T, -, hT, rfl, -⟩ | ⟨-, rfl, -⟩
    · exact spares_jobs
    · exact spares_refl _ _
  | .updateClaimedEvent .., r, hq | .saveClaimedEvent .., r, hq => by
    obtain ⟨r', hu, -⟩ := mapReply_eq hq
    simp only [updateOutbox, Option.map_eq_some_iff] at hu
    obtain ⟨x, -, hu⟩ := hu
    cases hu
    exact spares_outbox
  | .hasCurrentOwnership .., r, hq | .findExistingShipmentCodes _, r, hq
  | .getSnapshotByIdempotencyKey _, r, hq | .getSnapshotByFingerprint _, r, hq
  | .refreshImportJob _, r, hq => by
    cases hq
    exact spares_refl _ _
  | .deleteShipments _, r, hq => by
    simp only [exec, Option.map_eq_some_iff] at hq
    obtain ⟨⟨n, T⟩, hT, hq⟩ := hq
    cases hq
    obtain ⟨he, hs, -⟩ := Table.deleteWhere_holds hT
    exact ⟨fun _ => rfl, fun _ => ⟨rfl, rfl⟩, fun _ => rfl, fun _ => he, fun h => absurd rfl h,
      fun h => absurd rfl h, hs, rfl⟩
  | .deleteImportErrors _, r, hq => by
    simp only [exec, Option.map_eq_some_iff] at hq
    obtain ⟨⟨n, T⟩, hT, hq⟩ := hq
    cases hq
    obtain ⟨-, hs, -⟩ := Table.deleteWhere_holds hT
    exact ⟨fun _ => rfl, fun _ => ⟨rfl, rfl⟩, fun _ => rfl, fun _ => rfl, fun h => absurd rfl h,
      fun h => absurd rfl h, rfl, hs⟩
  | .insertShipment _, r, hq => by
    simp only [exec] at hq
    split at hq
    · cases hq
      exact spares_refl _ _
    · simp only [Option.map_eq_some_iff] at hq
      obtain ⟨o, hT, hq⟩ := hq
      cases o with
      | error _ => cases hq; exact spares_refl _ _
      | ok T =>
        cases hq
        obtain ⟨e, rfl, -⟩ := Table.insertUnique_eq hT
        exact ⟨fun _ => rfl, fun _ => ⟨rfl, rfl⟩, fun _ => rfl, fun h => absurd rfl h,
          fun _ i hi => (Table.holds_of_grab hi).imp_right fun h => (List.mem_singleton.1 h).ge,
          fun _ _ => .inl, rfl, rfl⟩
  | .insertImportError _, r, hq => by
    simp only [exec] at hq
    split at hq <;> cases hq
    · exact ⟨fun _ => rfl, fun _ => ⟨rfl, rfl⟩, fun _ => rfl, fun _ => rfl, fun _ _ => .inl,
        fun _ i hi => (Table.holds_of_grab hi).imp_right fun h => (List.mem_singleton.1 h).ge,
        rfl, rfl⟩
    · exact spares_refl _ _
  | .insertImportJob _, r, hq => by
    rcases exec_insertImportJob hq with ⟨-, -, -, rfl⟩ | ⟨-, -, ⟨-, -, rfl⟩ | ⟨-, -, -, rfl⟩⟩
    · exact spares_refl _ _
    · exact spares_refl _ _
    · exact spares_jobs
  | .insertDispatchIntent .., r, hq => by
    obtain ⟨sh, rfl⟩ := referenceJob_eq hq
    exact ⟨fun _ => rfl, fun _ => ⟨rfl, rfl⟩, fun h => absurd rfl h, fun _ => rfl, fun _ _ => .inl,
      fun _ _ => .inl, rfl, rfl⟩
  | .checkImportExists _, r, hq => by
    obtain ⟨sh, rfl⟩ := referenceJob_eq hq
    exact ⟨fun _ => rfl, fun _ => ⟨rfl, rfl⟩, fun _ => rfl, fun _ => rfl, fun _ _ => .inl,
      fun _ _ => .inl, rfl, rfl⟩
  | .acquireFingerprintLock _, r, hq => by
    simp only [exec] at hq
    split at hq <;> cases hq
    exact ⟨fun h => absurd rfl h, fun _ => ⟨rfl, rfl⟩, fun _ => rfl, fun _ => rfl, fun _ _ => .inl,
      fun _ _ => .inl, rfl, rfl⟩

/-- Locks on import jobs are kept until the end of the transaction. -/
theorem exec_jobs_holds (h : d.Wf) {i : Nat} (hi : d.importJobs.Holds s i) :
    ∀ {q : Query} {r : Except Fault q.Reply}, d.exec server clock s q = some (r, d') →
      d'.importJobs.Holds s i := by
  intro q r hq
  by_cases hk : q.takes = some .job
  · cases q
    case lockPendingImport =>
      cases hq
      exact Table.holds_grab (.inr hi)
    case lockStaleImports =>
      rcases limited_cases hq with ⟨rfl, rfl⟩ | ⟨rfl, rfl⟩
      · exact Table.holds_grab (.inr hi)
      · exact hi
    case claimPendingImport | updateCurrentProcessingImport | saveImportJob | failPendingImport =>
      obtain ⟨r', hu, -⟩ := mapReply_eq hq
      rcases updateJobs_spec hu with ⟨new, T, -, hT, rfl, -⟩ | ⟨-, rfl, -⟩
      · exact (Table.updateWhere_spec h.jobs hT).2.2.2.2.1 i hi
      · exact hi
    case insertImportJob =>
      rcases exec_insertImportJob hq with ⟨-, -, -, rfl⟩ | ⟨stored, -, ⟨-, -, rfl⟩ | ⟨T, hT, -, rfl⟩⟩
      · exact hi
      · exact hi
      · obtain ⟨e, rfl, -⟩ := Table.insertUnique_eq hT
        exact Table.holds_grab (.inr hi)
    all_goals cases hk
  · obtain ⟨m, hm⟩ := hi
    exact ⟨m, ((exec_spares hq).jobs hk).1 ▸ hm⟩

/-- A query takes what it is about and nothing else. -/
theorem exec_held (h : d.Wf) {q : Query} {r : Except Fault q.Reply}
    (hq : d.exec server clock s q = some (r, d')) {k : Resource} (hk : d'.Held s k) :
    d.Held s k ∨ q.takes = some k := by
  by_cases he : q.takes = some k
  · exact .inr he
  · have ho := exec_own h hq
    have hs := exec_spares hq
    refine .inl ?_
    cases k with
    | advisory =>
      obtain ⟨k, hk⟩ := hk
      exact ⟨k, hs.advisory he ▸ hk⟩
    | job =>
      obtain ⟨hl, hen⟩ := hs.jobs he
      rcases hk with ⟨i, m, hk⟩ | ⟨k, hk⟩
      · exact .inl ⟨i, m, hl ▸ hk⟩
      · exact .inr ⟨k, hen ▸ hk⟩
    | event =>
      obtain ⟨i, m, hk⟩ := hk
      exact ⟨i, m, hs.outbox he ▸ hk⟩
    | code =>
      obtain ⟨k, hk⟩ := hk
      exact ⟨k, hs.entry he ▸ hk⟩
    | row =>
      rcases hk with ⟨r, hr, hk⟩ | ⟨r, hr, hk⟩
      · have hr := ho.rows.shipments ▸ hr
        exact .inl ⟨r, hr, (hs.shipments he r.id hk).resolve_right
          (Nat.not_le.2 (h.shipments.below r hr))⟩
      · have hr := ho.rows.errors ▸ hr
        exact .inr ⟨r, hr, (hs.errors he r.id hk).resolve_right
          (Nat.not_le.2 (h.errors.below r hr))⟩

/-- The rows a deletion takes are those it selects. -/
theorem deleted_selected {α : Type} {n m : Nat} {T T' : Table α} (h : T.Wf n)
    {p : Version α → Bool} (hT : T.deleteWhere s p = some (m, T')) {r : Version α}
    (hr : r ∈ T.rows) (hk : T'.Holds s r.id) : T.Holds s r.id ∨ p r = true := by
  rcases (Table.deleteWhere_holds hT).2.2 r.id hk with hk | ⟨x, hx, hp, hid⟩
  · exact .inl hk
  · rcases Table.mem_view hx with hx | hx | hx
    · exact .inr (Table.eq_of_id h.nodup hx hr hid ▸ hp)
    · exact .inl (hid ▸ h.locked s _ hx)
    · exact .inl (hid ▸ h.locked s _ hx)

/-- A shipment is taken by the deletion of the shipments of its import. -/
theorem exec_shipments (h : d.Wf) {q : Query} {r : Except Fault q.Reply}
    (hq : d.exec server clock s q = some (r, d')) {x : Version Shipment}
    (hx : x ∈ d.shipments.rows) (hk : d'.shipments.Holds s x.id) :
    d.shipments.Holds s x.id ∨ q = .deleteShipments x.val.importId := by
  have hbelow := Nat.not_le.2 (h.shipments.below x hx)
  by_cases he : q.takes = some .row
  · cases q
    case deleteShipments importId =>
      simp only [exec, Option.map_eq_some_iff] at hq
      obtain ⟨⟨n, T⟩, hT, hq⟩ := hq
      cases hq
      refine (deleted_selected h.shipments hT hx hk).imp_right fun hp => ?_
      rw [eq_of_beq hp]
    case deleteImportErrors =>
      simp only [exec, Option.map_eq_some_iff] at hq
      obtain ⟨_, -, hq⟩ := hq
      cases hq
      exact .inl hk
    all_goals cases he
  · exact .inl (((exec_spares hq).shipments he x.id hk).resolve_right hbelow)

/-- An import error is taken by the deletion of the errors of its import. -/
theorem exec_errors (h : d.Wf) {q : Query} {r : Except Fault q.Reply}
    (hq : d.exec server clock s q = some (r, d')) {x : Version ImportErrorRow}
    (hx : x ∈ d.importErrors.rows) (hk : d'.importErrors.Holds s x.id) :
    d.importErrors.Holds s x.id ∨ q = .deleteImportErrors x.val.importId := by
  have hbelow := Nat.not_le.2 (h.errors.below x hx)
  by_cases he : q.takes = some .row
  · cases q
    case deleteImportErrors importId =>
      simp only [exec, Option.map_eq_some_iff] at hq
      obtain ⟨⟨n, T⟩, hT, hq⟩ := hq
      cases hq
      refine (deleted_selected h.errors hT hx hk).imp_right fun hp => ?_
      rw [eq_of_beq hp]
    case deleteShipments =>
      simp only [exec, Option.map_eq_some_iff] at hq
      obtain ⟨_, -, hq⟩ := hq
      cases hq
      exact .inl hk
    all_goals cases he
  · exact .inl (((exec_spares hq).errors he x.id hk).resolve_right hbelow)

end

end Database

/-! ## What replies grant -/

/-- The import jobs a reply says the session has. -/
def Query.jobsGranted : (q : Query) → q.Reply → List ImportId
  | .lockPendingImport importId, locked => if locked.isSome then [importId] else []
  | .updateCurrentProcessingImport importId _ _, updated => if updated then [importId] else []
  | .lockStaleImports .., staleImports => staleImports.map (·.id)
  | .insertImportJob _, importId => [importId]
  | _, _ => []

/-- The outbox rows a reply says the session has. -/
def Query.eventsGranted : (q : Query) → q.Reply → List Nat
  | .lockDueEvents .., events => events.map (·.outboxId)
  | .lockStaleClaims .., staleClaims => staleClaims.map (·.outboxId)
  | _, _ => []

namespace Database

section
variable {server : Server} {clock : Time} {d d' : Database} {s : Nat}

/-- The session holds the import jobs it is granted. -/
theorem exec_jobsGranted (h : d.Wf) : ∀ {q : Query} {a : q.Reply},
    d.exec server clock s q = some (.ok a, d') →
      ∀ i ∈ q.jobsGranted a, d'.importJobs.Holds s i := by
  intro q a hq i hi
  cases q
  case lockPendingImport importId =>
    have hpick : ∀ l : List (Version ImportJob), ∀ r ∈ id l, r ∈ l := fun _ _ hr => hr
    obtain ⟨-, -, hhit, -⟩ := Table.lockWhere_spec (s := s) h.jobs (p := claimable importId) hpick
    cases hq
    simp only [Query.jobsGranted] at hi
    split at hi
    · next hne =>
      obtain rfl := List.mem_singleton.1 hi
      obtain ⟨j, hj⟩ := Option.isSome_iff_exists.1 hne
      obtain ⟨r, hr, -⟩ := Option.map_eq_some_iff.1 hj
      obtain ⟨-, hp, hl, -⟩ := hhit r (List.mem_of_head? hr)
      simp only [claimable, Bool.and_eq_true, beq_iff_eq] at hp
      exact hp.1.1 ▸ hl
    · cases hi
  case lockStaleImports =>
    obtain ⟨⟨⟩, rfl⟩ := (limited_cases hq).resolve_right (by simp)
    simp only [Query.jobsGranted, List.map_map] at hi
    obtain ⟨r, hr, rfl⟩ := List.mem_map.1 hi
    exact Table.holds_grab (.inl (List.mem_map_of_mem hr))
  case updateCurrentProcessingImport importId token values =>
    obtain ⟨r', hu, hr'⟩ := mapReply_eq hq
    rcases updateJobs_spec hu with ⟨new, T, rfl, hT, rfl, -⟩ | ⟨rfl, -, -⟩
    · cases hr'
      simp only [Query.jobsGranted] at hi
      split at hi
      · next hlen =>
        obtain rfl := List.mem_singleton.1 hi
        obtain ⟨-, rfl, -, hl, -⟩ := Table.updateWhere_spec h.jobs hT
        obtain ⟨r, hr⟩ := List.exists_mem_of_length_pos
          (Nat.lt_of_lt_of_eq Nat.zero_lt_one (eq_of_beq hlen).symm)
        have hid := hl r hr
        obtain ⟨x, hx, rfl⟩ := List.mem_map.1 hr
        have hp := (List.mem_filter.1 hx).2
        simp only [owned, Bool.and_eq_true, beq_iff_eq] at hp
        exact hp.1.1 ▸ hid
      · cases hi
    · cases hr'
  case insertImportJob importJob =>
    rcases exec_insertImportJob hq with
      ⟨f, -, h, -⟩ | ⟨stored, -, ⟨-, h, -⟩ | ⟨T, hT, h, rfl⟩⟩
    · cases h
    · cases h
    · cases h
      obtain rfl := List.mem_singleton.1 hi
      obtain ⟨e, rfl, -⟩ := Table.insertUnique_eq hT
      exact Table.holds_grab (.inl List.mem_cons_self)
  all_goals cases hi

/-- The session holds the outbox rows it is granted. -/
theorem exec_eventsGranted : ∀ {q : Query} {a : q.Reply},
    d.exec server clock s q = some (.ok a, d') →
      ∀ i ∈ q.eventsGranted a, d'.importDispatchOutbox.Holds s i := by
  intro q a hq i hi
  cases q
  case lockDueEvents | lockStaleClaims =>
    obtain ⟨⟨⟩, rfl⟩ := (limited_cases hq).resolve_right (by simp)
    simp only [Query.eventsGranted, List.map_map] at hi
    obtain ⟨r, hr, rfl⟩ := List.mem_map.1 hi
    exact Table.holds_grab (.inl (List.mem_map_of_mem hr))
  all_goals cases hi

end

end Database

/-! ## Footprints -/

/-- What the exchanges of a process say about what its session holds: at most things of the kinds
`taken`, and at least the import jobs and outbox rows `jobs` and `events`; and whether its
transaction gave up an event whose claim was stale. -/
structure Footprint where
  taken : List Resource := []
  jobs : List ImportId := []
  events : List Nat := []
  exhausts : Bool := false

/-- Whether a query gives up an event whose claim is stale. -/
def Query.exhausts : Query → Bool
  | updateClaimedEvent _ _ (.staleFailed _) => true
  | _ => false

/-- A failed query may have taken what it asked for; a failed commit may have released all. -/
def Footprint.add (f : Footprint) : Prog.Exchange Stmt Stmt.Reply Exc → Footprint
  | ⟨.query q, .ok a⟩ =>
    { taken := q.takes.toList ++ f.taken
      jobs := q.jobsGranted a ++ f.jobs
      events := q.eventsGranted a ++ f.events
      exhausts := q.exhausts || f.exhausts }
  | ⟨.query q, .error _⟩ => { f with taken := q.takes.toList ++ f.taken }
  | ⟨.commit, .ok _⟩ | ⟨.rollback, _⟩ | ⟨.close, _⟩ => {}
  | ⟨.commit, .error _⟩ => { taken := f.taken }
  | _ => f

/-- What the session of a process holds after these exchanges. -/
def Exchanges.footprint (τ : Exchanges) : Footprint := τ.foldl Footprint.add {}

theorem footprint_append (τ : Exchanges) (x : Prog.Exchange Stmt Stmt.Reply Exc) :
    Exchanges.footprint (τ ++ [x]) = τ.footprint.add x := by
  simp [Exchanges.footprint, List.foldl_append]

/-- Only the exhaustion branch of the recovery of stale claims gives up an event. -/
theorem Footprint.add_exhausts {f : Footprint} {s : Stmt} {r : Except Exc s.Reply}
    (h : (f.add ⟨s, r⟩).exhausts = true) : f.exhausts = true ∨ ∃ outboxId token message,
      s = .query (.updateClaimedEvent outboxId token (.staleFailed message)) := by
  unfold Footprint.add at h
  split at h
  · next q a e =>
    cases e
    refine (Bool.or_eq_true_iff.1 h).symm.imp_right fun h => ?_
    unfold Query.exhausts at h
    split at h
    · exact ⟨_, _, _, rfl⟩
    · cases h
  all_goals first | exact .inl h | cases h

/-- A query of a session with this footprint does not wait: it locks nothing or skips what is
locked, or asks for what the session has. -/
def Query.Ready (f : Footprint) : Query → Prop
  | .lockPendingImport _ | .lockStaleImports .. | .lockDueEvents .. | .lockStaleClaims ..
  | .hasCurrentOwnership .. | .findExistingShipmentCodes _ | .insertImportError _
  | .getSnapshotByIdempotencyKey _ | .getSnapshotByFingerprint _ | .refreshImportJob _ => True
  | .claimPendingImport importId .. | .updateCurrentProcessingImport importId ..
  | .saveImportJob importId _ | .insertDispatchIntent importId _ | .deleteShipments importId
  | .deleteImportErrors importId => importId ∈ f.jobs
  | .saveClaimedEvent outboxId _ | .updateClaimedEvent outboxId .. => outboxId ∈ f.events
  | .acquireFingerprintLock _ | .insertImportJob _ | .insertShipment _ | .checkImportExists _
  | .failPendingImport .. => False

/-- The footprint `f` accounts for what session `p` holds. It never shares shipments and errors, and
it deletes only those of an import whose job it holds. -/
structure Accounts (p : Nat) (f : Footprint) (d : Database) : Prop where
  held : ∀ k, d.Held p k → k ∈ f.taken
  jobs : ∀ i ∈ f.jobs, d.importJobs.Holds p i
  events : ∀ i ∈ f.events, d.importDispatchOutbox.Holds p i
  shipments : ∀ x ∈ d.shipments.rows, d.shipments.Holds p x.id →
    d.importJobs.Holds p x.val.importId
  importErrors : ∀ x ∈ d.importErrors.rows, d.importErrors.Holds p x.id →
    d.importJobs.Holds p x.val.importId
  shipmentShares : ∀ i, p ∉ d.shipments.share i
  errorShares : ∀ i, p ∉ d.importErrors.share i

namespace Accounts

section
variable {env : Env} {d d' : Database} {p : Nat} {f : Footprint}

/-- A session without a transaction holds nothing. -/
theorem idle (h : d.Idle p) (taken : List Resource) : Accounts p { taken } d where
  held k hk := by
    cases k with
    | advisory => exact hk.elim fun k hk => absurd hk (h.advisory k)
    | job =>
      rcases hk with ⟨i, hk⟩ | ⟨k, hk⟩
      · exact absurd hk (h.jobs.lock i)
      · exact absurd hk (h.jobs.entry k)
    | event => exact hk.elim fun i hk => absurd hk (h.outbox.lock i)
    | code => exact hk.elim fun k hk => absurd hk (h.shipments.entry k)
    | row =>
      rcases hk with ⟨r, -, hk⟩ | ⟨r, -, hk⟩
      · exact absurd hk (h.shipments.lock r.id)
      · exact absurd hk (h.errors.lock r.id)
  jobs i hi := nomatch hi
  events i hi := nomatch hi
  shipments x _ hx := absurd hx (h.shipments.lock x.id)
  importErrors x _ hx := absurd hx (h.errors.lock x.id)
  shipmentShares := h.shipments.share
  errorShares := h.errors.share

/-- The others leave what the session holds alone. -/
theorem keeps (h : Accounts p f d) (hk : Database.Keeps p d d') : Accounts p f d' where
  held k hh := by
    refine h.held k ?_
    cases k with
    | advisory => exact hh.imp fun k hh => (hk.advisory k).1 hh
    | job =>
      rcases hh with ⟨i, hh⟩ | ⟨k, hh⟩
      · exact .inl ⟨i, (hk.jobs.holds i).1 hh⟩
      · exact .inr ⟨k, (hk.jobs.entry k).1 hh⟩
    | event => exact hh.imp fun i hh => (hk.outbox.holds i).1 hh
    | code => exact hh.imp fun k hh => (hk.shipments.entry k).1 hh
    | row =>
      rcases hh with ⟨r, hr, hh⟩ | ⟨r, hr, hh⟩
      · have hh := (hk.shipments.holds r.id).1 hh
        exact .inl ⟨r, (hk.shipments.rows r hh).1 hr, hh⟩
      · have hh := (hk.errors.holds r.id).1 hh
        exact .inr ⟨r, (hk.errors.rows r hh).1 hr, hh⟩
  jobs i hi := (hk.jobs.holds i).2 (h.jobs i hi)
  events i hi := (hk.outbox.holds i).2 (h.events i hi)
  shipments x hx hh :=
    have hh := (hk.shipments.holds x.id).1 hh
    (hk.jobs.holds _).2 (h.shipments x ((hk.shipments.rows x hh).1 hx) hh)
  importErrors x hx hh :=
    have hh := (hk.errors.holds x.id).1 hh
    (hk.jobs.holds _).2 (h.importErrors x ((hk.errors.rows x hh).1 hx) hh)
  shipmentShares i hi := h.shipmentShares i ((hk.shipments.share i).1 hi)
  errorShares i hi := h.errorShares i ((hk.errors.share i).1 hi)

/-- A query adds what it can take, and what it is granted if it succeeds. -/
theorem exec {server : Server} {clock : Time} (hw : d.Wf) {q : Query} {r : Except Fault q.Reply}
    (hq : d.exec server clock p q = some (r, d')) (h : Accounts p f d)
    (hs : ∀ i, q = .deleteShipments i → i ∈ f.jobs)
    (he : ∀ i, q = .deleteImportErrors i → i ∈ f.jobs) (jobs : List ImportId) (events : List Nat)
    (hj : ∀ i ∈ jobs, d'.importJobs.Holds p i)
    (hev : ∀ i ∈ events, d'.importDispatchOutbox.Holds p i) (exhausts : Bool) :
    Accounts p ⟨q.takes.toList ++ f.taken, jobs ++ f.jobs, events ++ f.events, exhausts⟩ d' := by
  have ho := Database.exec_own hw hq
  have hsp := Database.exec_spares hq
  have hjobs := fun i hi => Database.exec_jobs_holds (s := p) (i := i) hw hi hq
  constructor
  · intro k hk
    rcases Database.exec_held hw hq hk with hk | hk
    · exact List.mem_append_right _ (h.held k hk)
    · exact List.mem_append_left _ (by simp [hk])
  · intro i hi
    rcases List.mem_append.1 hi with hi | hi
    · exact hj i hi
    · exact hjobs i (h.jobs i hi)
  · intro i hi
    rcases List.mem_append.1 hi with hi | hi
    · exact hev i hi
    · exact Database.exec_outbox_holds hw (h.events i hi) hq
  · intro x hx hk
    rw [ho.rows.shipments] at hx
    rcases Database.exec_shipments hw hq hx hk with hk | rfl
    · exact hjobs _ (h.shipments x hx hk)
    · exact hjobs _ (h.jobs _ (hs _ rfl))
  · intro x hx hk
    rw [ho.rows.errors] at hx
    rcases Database.exec_errors hw hq hx hk with hk | rfl
    · exact hjobs _ (h.importErrors x hx hk)
    · exact hjobs _ (h.jobs _ (he _ rfl))
  · rw [hsp.shipmentShares]
    exact h.shipmentShares
  · rw [hsp.errorShares]
    exact h.errorShares

/-- A query whose session has what it asks for does not wait. -/
theorem not_blocked {server : Server} (hw : d.Wf) {q : Query} (h : Accounts p f d)
    (hq : q.Ready f) {u : Nat} {g : Footprint} (hu : Accounts u g d) (hne : u ≠ p) :
    ¬ d.Blocks server p u q := by
  -- the rows a session sees are committed, or its own
  have hsees : ∀ {α : Type} {T : Table α} {n : Nat}, T.Wf n → ∀ {x : Version α}, x ∈ T.view p →
      T.Holds u x.id → x ∈ T.rows := by
    intro α T n hT x hx hh
    rcases Table.mem_view hx with hx | hx | hx
    · exact hx
    · exact absurd (hh.unique (hT.locked p _ hx)) hne
    · exact absurd (hh.unique (hT.locked p _ hx)) hne
  have hjob : ∀ {i}, i ∈ f.jobs → ¬ d.importJobs.Holds u i := fun hi hh =>
    hne (hh.unique (h.jobs _ hi))
  intro hb
  cases q
  case claimPendingImport importId _ _ =>
    obtain ⟨r, -, hp, hh⟩ := hb
    simp only [claimable, Bool.and_eq_true, beq_iff_eq] at hp
    exact hjob hq (hp.1.1 ▸ hh)
  case updateCurrentProcessingImport importId _ _ =>
    obtain ⟨r, -, hp, hh⟩ := hb
    simp only [owned, Bool.and_eq_true, beq_iff_eq] at hp
    exact hjob hq (hp.1.1 ▸ hh)
  case saveImportJob importId _ =>
    obtain ⟨r, -, hp, hh⟩ := hb
    exact hjob hq (eq_of_beq hp ▸ hh)
  case insertDispatchIntent importId _ =>
    exact hjob hq ⟨_, hb.2⟩
  case saveClaimedEvent outboxId _ =>
    obtain ⟨r, -, hp, hh⟩ := hb
    exact hne (hh.unique (h.events _ (eq_of_beq hp ▸ hq)))
  case updateClaimedEvent outboxId _ _ =>
    obtain ⟨r, -, hp, hh⟩ := hb
    simp only [claimed, Bool.and_eq_true, beq_iff_eq] at hp
    exact hne (hh.unique (h.events _ (hp.1.1 ▸ hq)))
  case deleteShipments importId =>
    obtain ⟨r, hr, hp, hh | hh⟩ := hb
    · exact hjob hq (eq_of_beq hp ▸ hu.shipments r (hsees hw.shipments hr hh) hh)
    · exact hu.shipmentShares _ hh
  case deleteImportErrors importId =>
    obtain ⟨r, hr, hp, hh | hh⟩ := hb
    · exact hjob hq (eq_of_beq hp ▸ hu.importErrors r (hsees hw.errors hr hh) hh)
    · exact hu.errorShares _ hh
  case acquireFingerprintLock | insertImportJob | insertShipment | checkImportExists
    | failPendingImport => exact hq
  all_goals exact hb

end

section
variable {env : Env} {w w' : World} {p : Nat} {t : Task} {f : Footprint}

/-- Statements other than queries and ends of transactions at most draw a uuid. -/
theorem exec_quiet {s : Stmt} {ch : Choice} {r : Except Exc s.Reply}
    (h : World.exec env p t s ch w = some (r, w'))
    (hs : (∀ q, s ≠ .query q) ∧ s ≠ .commit ∧ s ≠ .rollback ∧ s ≠ .close) :
    ∃ n, w'.db = { w.db with issued := n } := by
  have hrun : ∀ {r : Except Exc s.Reply}, w.perform env p t s = some (r, w') →
      ∃ n, w'.db = { w.db with issued := n } := by
    intro r h
    cases s
    case query => exact absurd rfl (hs.1 _)
    case commit => exact absurd rfl hs.2.1
    case rollback => exact absurd rfl hs.2.2.1
    case close => exact absurd rfl hs.2.2.2
    case uuid4 => cases h; exact ⟨_, rfl⟩
    case selfRetry =>
      simp only [World.perform] at h
      split at h
      · split at h <;> cases h <;> exact ⟨_, rfl⟩
      · cases h
    case replaceFile | readSignature =>
      simp only [World.perform] at h
      split at h <;> cases h <;> exact ⟨_, rfl⟩
    case spin => cases h
    all_goals cases h; exact ⟨_, rfl⟩
  cases ch with
  | run => exact hrun h
  | fail f =>
    simp only [World.exec] at h
    split at h <;> cases h
    exact ⟨_, rfl⟩
  | lost f =>
    cases s
    case commit => exact absurd rfl hs.2.1
    case dispatchImport =>
      simp only [World.exec] at h
      split at h
      · obtain ⟨x, hx, he⟩ := Option.map_eq_some_iff.1 h
        cases he
        exact hrun hx
      · cases h
    all_goals cases h

/-- A statement of `p`. -/
theorem step (hw : w.db.Wf) {s : Stmt} {ch : Choice} {r : Except Exc s.Reply}
    (hx : World.exec env p t s ch w = some (r, w')) (h : Accounts p f w.db)
    (hs : ∀ i, s = .query (.deleteShipments i) → i ∈ f.jobs)
    (he : ∀ i, s = .query (.deleteImportErrors i) → i ∈ f.jobs) :
    Accounts p (f.add ⟨s, r⟩) w'.db := by
  have hother : ∀ {n}, Accounts p f { w.db with issued := n } := fun {n} =>
    ⟨h.held, h.jobs, h.events, h.shipments, h.importErrors, h.shipmentShares, h.errorShares⟩
  cases s
  case query q =>
    have hb := (Database.own_begin (s := p) hw w.time).wf
    have hbegin : Accounts p f (w.db.begin p w.time) :=
      ⟨h.held, h.jobs, h.events, h.shipments, h.importErrors, h.shipmentShares, h.errorShares⟩
    rcases Setting.Spec.query_exec (C := Setting.any env) hx with
      ⟨rfl, r', d', hq, rfl, rfl⟩ | ⟨x, rfl, rfl, rfl⟩
    · have hexec := fun jobs events => exec hb hq hbegin (fun i hi => hs i (hi ▸ rfl))
        (fun i hi => he i (hi ▸ rfl)) jobs events
      cases r' with
      | ok a =>
        exact hexec _ _ (Database.exec_jobsGranted hb hq) (Database.exec_eventsGranted hq) _
      | error x => exact hexec [] [] (fun _ h => nomatch h) (fun _ h => nomatch h) _
    · exact ⟨fun k hk => List.mem_append_right _ (h.held k hk), h.jobs, h.events, h.shipments,
        h.importErrors, h.shipmentShares, h.errorShares⟩
  case commit =>
    rcases Setting.Spec.commit_exec (C := Setting.any env) hx with
      ⟨lost, rfl, -, rfl, rfl⟩ | ⟨x, rfl, -, rfl, rfl⟩
    · have hidle := Database.idle_commit w.db p
      cases lost with
      | none => exact idle hidle []
      | some x => exact idle hidle f.taken
    · exact ⟨h.held, fun _ hi => (nomatch hi), fun _ hi => (nomatch hi), h.shipments,
        h.importErrors, h.shipmentShares, h.errorShares⟩
  case rollback | close =>
    cases ch <;> cases hx
    exact idle (Database.idle_rollback w.db p) []
  all_goals
    obtain ⟨n, hn⟩ := exec_quiet hx (by simp)
    rw [hn]
    exact hother

end

end Accounts

end ShipmentImport

import ShipmentImport.Services.ProcessImport

/-!
# Disciplines

What a service issues and raises, as long as the statements reply as expected: the rules for
transactions and sessions, and the worker after its claim, once for every discipline.
-/

namespace ShipmentImport

/-- Replies that are expected, statements that may be issued and exceptions that may be raised. -/
structure Discipline where
  replies : (s : Stmt) → Except Exc s.Reply → Prop
  issues : Stmt → Prop
  raises : Exc → Prop
  raised : ∀ s e, issues s → replies s (.error e) → raises e
  commit : issues .commit
  rollback : issues .rollback
  close : issues .close

variable {D : Discipline}

/-- The program keeps to the discipline, and `N` holds of what it returns. -/
def Py.Obeys (D : Discipline) {α : Type} (x : Py α) (N : α → Prop) : Prop :=
  ∀ τ, Prog.Free D.replies (fun _ => D.issues)
    (fun _ o => (∀ a, o = .ok a → N a) ∧ ∀ e, o = .error e → D.raises e) τ x

namespace Py.Obeys

variable {α β γ : Type}

theorem ret {a : α} {N : α → Prop} (h : N a) : Py.Obeys D (pure a) N :=
  fun _ => ⟨fun _ ha => Except.ok.inj ha ▸ h, fun _ he => nomatch he⟩

theorem raise {e : Exc} {N : α → Prop} (h : D.raises e) : Py.Obeys D (throw e) N :=
  fun _ => ⟨fun _ ha => (nomatch ha), fun _ he => Except.error.inj he ▸ h⟩

theorem seq {x : Py α} {f : α → Py β} {M : α → Prop} {N : β → Prop} (hx : Py.Obeys D x M)
    (hf : ∀ a, M a → Py.Obeys D (f a) N) : Py.Obeys D (x >>= f) N := by
  refine fun τ => Prog.Free.bind ((hx τ).mono fun τ o ho => ?_)
  cases o with
  | ok a => exact hf a (ho.1 a rfl) τ
  | error e => exact ⟨fun _ h => (nomatch h), fun _ h => Except.error.inj h ▸ ho.2 e rfl⟩

/-- What follows an attempt. -/
theorem attempted {x : Py α} {f : Except Exc α → Py β} {M : α → Prop} {N : β → Prop}
    (hx : Py.Obeys D x M) (hok : ∀ a, M a → Py.Obeys D (f (.ok a)) N)
    (herror : ∀ e, D.raises e → Py.Obeys D (f (.error e)) N) :
    Py.Obeys D (x.attempt >>= f) N := by
  refine fun τ => Prog.Free.attempted (hx τ) fun τ o ho => ?_
  cases o with
  | ok a => exact hok a (ho.1 a rfl) τ
  | error e => exact herror e (ho.2 e rfl) τ

theorem handle {x : Py α} {h : Exc → Py α} {N : α → Prop} (hx : Py.Obeys D x N)
    (hh : ∀ e, D.raises e → Py.Obeys D (h e) N) : Py.Obeys D (x.tryCatch h) N :=
  attempted hx (fun _ ha => ret ha) hh

theorem stmt {s : Stmt} {N : s.Reply → Prop} (hs : D.issues s)
    (hN : ∀ a, D.replies s (.ok a) → N a) : Py.Obeys D (Py.stmt s) N := by
  refine fun τ => Prog.Free.perform hs fun r hr => ⟨?_, ?_⟩
  · rintro a rfl
    exact hN a hr
  · rintro e rfl
    exact D.raised s e hs hr

theorem query {q : Query} {N : q.Reply → Prop} (hq : D.issues (.query q))
    (hN : ∀ a, D.replies (.query q) (.ok a) → N a) : Py.Obeys D (Py.query q) N :=
  stmt (s := .query q) hq hN

theorem lift {x : Except Fault α} (h : ∀ f, D.raises (.raised f)) :
    Py.Obeys D (Py.lift x) fun _ => True := by
  cases x with
  | ok a => exact ret trivial
  | error f => exact raise (h f)

/-- A statement whose reply does not matter. -/
theorem issue {s : Stmt} (hs : D.issues s) : Py.Obeys D (Py.stmt s) fun _ => True :=
  stmt hs fun _ _ => trivial

theorem ask {q : Query} (hq : D.issues (.query q)) : Py.Obeys D (Py.query q) fun _ => True :=
  query hq fun _ _ => trivial

/-- A transaction raises nothing, and the exception it ended with is one that may be raised. -/
theorem transaction {first : Py α} {rest : α → Py β} {M : α → Prop} {N : β → Prop}
    (hfirst : Py.Obeys D first M) (hrest : ∀ a, M a → Py.Obeys D (rest a) N) :
    Py.Obeys D (ShipmentImport.transaction first rest) fun o =>
      (∀ b, o = .ok b → N b) ∧ ∀ a e, o = .error (a, e) → (∀ x, a = some x → M x) ∧ D.raises e := by
  have hback : ∀ (a : Option α) (e : Exc), (∀ x, a = some x → M x) → D.raises e → Py.Obeys D
      (do Py.stmt .rollback; return (.error (a, e) : Attempt α β)) fun o =>
        (∀ b, o = .ok b → N b) ∧
          ∀ a e, o = .error (a, e) → (∀ x, a = some x → M x) ∧ D.raises e := by
    refine fun a e ha he => seq (issue D.rollback) fun _ _ => ret ⟨fun _ h => (nomatch h), ?_⟩
    rintro a' e' ⟨⟩
    exact ⟨ha, he⟩
  have hsome : ∀ a, M a → ∀ x, some a = some x → M x := fun a ha x h => Option.some.inj h ▸ ha
  refine attempted hfirst (fun a ha => attempted (hrest a ha) (fun b hb =>
    attempted (issue D.commit) (fun _ _ => ret ⟨?_, fun _ _ h => nomatch h⟩) fun e he =>
      hback _ e (hsome a ha) he) fun e he => hback _ e (hsome a ha) he) fun e he =>
        hback _ e (fun _ h => nomatch h) he
  rintro b' ⟨⟩
  exact hb

theorem inTransaction {body : Py α} {N : α → Prop} (hbody : Py.Obeys D body N) :
    Py.Obeys D (ShipmentImport.inTransaction body) N := by
  refine seq (transaction hbody fun _ h => ret h) fun o ho => ?_
  rcases o with ⟨a, e⟩ | a
  · exact raise (ho.2 a e rfl).2
  · exact ret (ho.1 a rfl)

theorem withSession {body : Py α} {N : α → Prop} (hbody : Py.Obeys D body N) :
    Py.Obeys D (ShipmentImport.withSession body) N :=
  attempted hbody (fun _ ha => seq (issue D.close) fun _ _ => ret ha) fun _ he =>
    seq (issue D.close) fun _ _ => raise he

theorem forEach {xs : List α} {f : α → Py Unit} (hf : ∀ a ∈ xs, Py.Obeys D (f a) fun _ => True) :
    Py.Obeys D (ShipmentImport.forEach xs f) fun _ => True := by
  induction xs with
  | nil => exact ret trivial
  | cons x xs ih =>
    exact seq (hf x List.mem_cons_self) fun _ _ => ih fun a ha => hf a (List.mem_cons_of_mem _ ha)

end Py.Obeys

/-! ## The worker after its claim -/

/-- The queries of a worker for import `i` after its claim, the requeue apart. -/
def Query.Works (i : ImportId) : Query → Prop
  | updateCurrentProcessingImport _ _ (.requeueForRetry _) => False
  | updateCurrentProcessingImport j .. => j = i
  | hasCurrentOwnership .. | checkImportExists _ | deleteShipments _ | deleteImportErrors _ => True
  | insertShipment _ | insertImportError _ | findExistingShipmentCodes _ => True
  | _ => False

/-- The discipline admits the work on import `i`. -/
structure Discipline.Works (D : Discipline) (i : ImportId) : Prop where
  query : ∀ q : Query, q.Works i → D.issues (.query q)
  loadWorkbook : ∀ path, D.issues (.loadWorkbook path)
  readRows : D.issues .readRows
  spin : D.issues .spin
  stale : D.raises .staleImportWorkerError
  structural : ∀ message, D.raises (.workbookStructureError message)

namespace Py.Obeys

variable {env : Env} {c : ClaimedImport} {α : Type} (hD : D.Works c.importId)
include hD

theorem markFailed (reason : String) :
    Py.Obeys D (ShipmentImport.markFailed c reason) fun _ => True :=
  seq (inTransaction (ask (hD.query _ rfl))) fun _ _ => ret trivial

/-- The handlers of `run`, operational errors apart. -/
theorem handleError {e : Exc} (he : e ≠ .raised .operationalError) :
    Py.Obeys D (ShipmentImport.handleError (some c) e) fun _ => True := by
  unfold ShipmentImport.handleError
  split
  · exact ret trivial
  · exact markFailed hD _
  · exact absurd rfl he
  · exact markFailed hD _

theorem updateClaimedOrStop {values : ProgressValues}
    (hq : (Query.updateCurrentProcessingImport c.importId c.processingToken values).Works
      c.importId) : Py.Obeys D (ShipmentImport.updateClaimedOrStop c values) fun _ => True := by
  refine seq (ask (hD.query _ hq)) fun a _ => ?_
  cases a with
  | true => exact ret trivial
  | false => exact raise hD.stale

theorem requireCurrentOwnership :
    Py.Obeys D (ShipmentImport.requireCurrentOwnership c) fun _ => True := by
  refine seq (ask (hD.query _ trivial)) fun a _ => ?_
  cases a with
  | true => exact ret trivial
  | false => exact raise hD.stale

theorem bulkInsertShipments (shipments : List Shipment) :
    Py.Obeys D (ShipmentImport.bulkInsertShipments shipments) fun _ => True := by
  cases shipments with
  | nil => exact ret trivial
  | cons =>
    exact seq (forEach fun _ _ => ask (hD.query _ trivial)) fun _ _ => ask (hD.query _ trivial)

theorem bulkInsertImportErrors (errors : List ImportErrorRow) :
    Py.Obeys D (ShipmentImport.bulkInsertImportErrors errors) fun _ => True := by
  cases errors with
  | nil => exact ret trivial
  | cons =>
    exact seq (forEach fun _ _ => ask (hD.query _ trivial)) fun _ _ => ask (hD.query _ trivial)

theorem persistChunk (chunkResult : ValidationChunkResult) :
    Py.Obeys D (ShipmentImport.persistChunk c chunkResult) fun _ => True :=
  seq (bulkInsertShipments hD _) fun _ _ => seq (bulkInsertImportErrors hD _) fun _ _ =>
    seq (updateClaimedOrStop hD rfl) fun _ _ => updateClaimedOrStop hD rfl

theorem findExistingShipmentCodes (codes : List String) :
    Py.Obeys D (ShipmentImport.findExistingShipmentCodes codes) fun _ => True := by
  unfold ShipmentImport.findExistingShipmentCodes
  split
  · exact ret trivial
  · exact ask (hD.query _ trivial)

theorem persistChunkAfterDuplicateRace {e : Exc} (he : D.raises e) (fuel : Nat) :
    ∀ chunkResult, Py.Obeys D (ShipmentImport.persistChunkAfterDuplicateRace c e fuel chunkResult)
      fun _ => True := by
  induction fuel with
  | zero => exact fun chunkResult => seq (issue hD.spin) fun never => nomatch never
  | succ fuel ih =>
    intro chunkResult
    refine seq (transaction (M := fun _ => True) (N := fun _ => True)
      (seq (requireCurrentOwnership hD) fun _ _ => seq (findExistingShipmentCodes hD _) fun _ _ =>
        ret trivial) fun corrected _ => ?_) fun o ho => ?_
    · split
      · exact ret trivial
      · exact seq (persistChunk hD _) fun _ _ => ret trivial
    · rcases o with ⟨corrected, e'⟩ | (_ | corrected)
      · have he' := (ho.2 _ e' rfl).2
        dsimp only
        split
        · cases corrected with
          | none => exact raise he'
          | some corrected => exact ih corrected
        · exact raise he'
      · exact raise he
      · exact ret trivial

theorem processNextChunk {next : Py (Option (ValidationChunkResult × α))}
    (hnext : Py.Obeys D next fun _ => True) :
    Py.Obeys D (ShipmentImport.processNextChunk c next) fun _ => True := by
  refine seq (transaction (M := fun _ => True) (N := fun _ => True)
    (seq (requireCurrentOwnership hD) fun _ _ => hnext) fun o _ => ?_) fun o ho => ?_
  · rcases o with _ | ⟨chunkResult, state⟩
    · exact ret trivial
    · exact seq (persistChunk hD _) fun _ _ => ret trivial
  · rcases o with ⟨assigned, e⟩ | result
    · have he := (ho.2 assigned e rfl).2
      dsimp only
      split
      · split
        · exact raise he
        · exact seq (persistChunkAfterDuplicateRace hD he _ _) fun _ _ => ret trivial
      · exact raise he
    · exact ret trivial

theorem structureErrors {x : Py α} (hx : Py.Obeys D x fun _ => True) :
    Py.Obeys D (ShipmentImport.structureErrors x) fun _ => True := by
  refine handle hx fun e he => ?_
  cases e with
  | raised f =>
    dsimp only
    split
    · exact raise (hD.structural _)
    · exact raise he
  | _ => exact raise he

theorem nextValidatedChunk (importId : ImportId) (chunks : List (List ParsedWorkbookRow))
    (tracker : DuplicateTracker) :
    Py.Obeys D (ShipmentImport.nextValidatedChunk env importId chunks tracker) fun _ => True := by
  refine seq (structureErrors hD (issue hD.readRows)) fun _ _ => ?_
  cases chunks with
  | nil => exact ret trivial
  | cons => exact seq (findExistingShipmentCodes hD _) fun _ _ => ret trivial

theorem firstValidatedChunk :
    Py.Obeys D (ShipmentImport.firstValidatedChunk env c) fun _ => True := by
  refine seq (M := fun _ => True) (seq (structureErrors hD (issue (hD.loadWorkbook _)))
    fun worksheet _ => ?_) fun chunks _ => seq (nextValidatedChunk hD _ _ _) fun _ _ => ret trivial
  split
  · exact raise (hD.structural _)
  · exact ret trivial

theorem processChunks (chunks : List (List ParsedWorkbookRow)) : ∀ tracker totals,
    Py.Obeys D (ShipmentImport.processChunks env c chunks tracker totals) fun _ => True := by
  induction chunks with
  | nil =>
    exact fun tracker totals =>
      seq (processNextChunk hD (nextValidatedChunk hD _ _ _)) fun _ _ => ret trivial
  | cons chunk chunks ih =>
    refine fun tracker totals =>
      seq (processNextChunk hD (nextValidatedChunk hD _ _ _)) fun o _ => ?_
    rcases o with _ | ⟨chunkResult, tracker⟩
    · exact ret trivial
    · exact ih tracker _

theorem processClaimed : Py.Obeys D (ShipmentImport.processClaimed env c) fun _ => True := by
  refine seq (M := fun _ => True) (inTransaction (seq (updateClaimedOrStop hD rfl) fun _ _ =>
    seq (ask (hD.query _ trivial)) fun _ _ => seq (ask (hD.query _ trivial)) fun _ _ =>
      ret trivial)) fun _ _ => seq (M := fun _ => True)
        (seq (processNextChunk hD (firstValidatedChunk hD)) fun o _ => ?_) fun totals _ =>
          inTransaction (updateClaimedOrStop hD rfl)
  rcases o with _ | ⟨chunkResult, chunks, tracker⟩
  · exact ret trivial
  · exact processChunks hD chunks tracker _

end Py.Obeys

end ShipmentImport

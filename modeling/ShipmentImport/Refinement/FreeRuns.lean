import ShipmentImport.Services.ProcessImport
import ShipmentImport.Services.PublishOutbox

/-!
# Free runs of services

What holds of a service whatever its statements reply: the rules of `Prog.Free` for transactions,
and that no exception of a worker carries the text of an exhausted dispatch.
-/

namespace ShipmentImport

/-- Some world gives the reply `r` to the statement `s`. -/
def Replies (env : Env) (s : Stmt) (r : Except Exc s.Reply) : Prop :=
  ∃ p t ch w w', World.exec env p t s ch w = some (r, w')

section
variable {env : Env}

theorem replies_rollback {r : Except Exc Unit} (h : Replies env .rollback r) : r = .ok () := by
  obtain ⟨p, t, ch, w, w', h⟩ := h
  cases ch <;> cases h
  rfl

theorem replies_commit {r : Except Exc Unit} (h : Replies env .commit r) :
    r = .ok () ∨ ∃ f, f ≠ .integrityError ∧ r = .error (.raised f) := by
  obtain ⟨p, t, ch, w, w', h⟩ := h
  cases ch with
  | run => cases h; exact .inl rfl
  | fail f | lost f =>
    simp only [World.exec] at h
    split at h
    · next hf => cases h; exact .inr ⟨f, by simpa [Stmt.canFail] using hf, rfl⟩
    · cases h

/-- A statement other than `self.retry` raises what a library raises. -/
theorem replies_error {s : Stmt} (hs : ∀ exc n, s ≠ .selfRetry exc n) {e : Exc}
    (h : Replies env s (.error e)) : ∃ f, e = .raised f := by
  obtain ⟨p, t, ch, w, w', h⟩ := h
  cases ch with
  | fail f =>
    simp only [World.exec] at h
    split at h
    · cases h; exact ⟨f, rfl⟩
    · cases h
  | lost f =>
    cases s
    case commit | dispatchImport =>
      simp only [World.exec, World.perform, Option.map_some] at h
      split at h
      · cases h; exact ⟨f, rfl⟩
      · cases h
    all_goals cases h
  | run =>
    cases s
    case query q =>
      obtain ⟨⟨r, d⟩, -, h⟩ := Option.map_eq_some_iff.1 h
      cases r with
      | error f => cases h; exact ⟨f, rfl⟩
      | ok a => cases h
    case selfRetry exc n => exact absurd rfl (hs exc n)
    case loadWorkbook path =>
      simp only [World.exec, World.perform] at h
      cases hw : env.workbook path with
      | error f => rw [hw] at h; cases h; exact ⟨f, rfl⟩
      | ok a => rw [hw] at h; cases h
    case replaceFile source target =>
      simp only [World.exec, World.perform] at h
      split at h
      · cases h
      · cases h; exact ⟨_, rfl⟩
    case readSignature path =>
      simp only [World.exec, World.perform] at h
      split at h
      · cases h
      · cases h; exact ⟨_, rfl⟩
    all_goals cases h

abbrev Exchanges := List (Prog.Exchange Stmt Stmt.Reply Exc)

/-- The free runs of a service: `I` holds of every statement it issues, `Q` of every end. -/
abbrev Py.Free (env : Env) (I : Exchanges → Stmt → Prop) {α : Type}
    (Q : Exchanges → Except Exc α → Prop) (τ : Exchanges) (x : Py α) : Prop :=
  Prog.Free (Replies env) I Q τ x

/-- Rolling back, and ending with `o`. -/
def RollsBack {α : Type} (I : Exchanges → Stmt → Prop) (Q : Exchanges → Except Exc α → Prop)
    (τ : Exchanges) (o : Except Exc α) : Prop :=
  I τ .rollback ∧ Q (τ ++ [⟨.rollback, .ok ()⟩]) o

theorem RollsBack.free {α : Type} {I : Exchanges → Stmt → Prop}
    {Q : Exchanges → Except Exc α → Prop} {τ : Exchanges} {a : α} (h : RollsBack I Q τ (.ok a)) :
    Py.Free env I Q τ (do
      Py.stmt .rollback
      return a) := by
  refine Prog.Free.bind (Prog.Free.perform h.1 fun r hr => ?_)
  obtain rfl := replies_rollback hr
  exact h.2

/-- The rule of `transaction`. -/
theorem free_transaction {α β : Type} {first : Py α} {rest : α → Py β}
    {I : Exchanges → Stmt → Prop} {Q : Exchanges → Except Exc (Attempt α β) → Prop}
    {τ : Exchanges}
    (h : Py.Free env I (fun τ o => match o with
      | .error e => RollsBack I Q τ (.ok (.error (none, e)))
      | .ok a => Py.Free env I (fun τ o => match o with
        | .error e => RollsBack I Q τ (.ok (.error (some a, e)))
        | .ok b => I τ .commit ∧ Q (τ ++ [⟨.commit, .ok ()⟩]) (.ok (.ok b)) ∧
            ∀ f, f ≠ .integrityError →
              RollsBack I Q (τ ++ [⟨.commit, .error (.raised f)⟩])
                (.ok (.error (some a, .raised f)))) τ (rest a)) τ first) :
    Py.Free env I Q τ (transaction first rest) := by
  refine Prog.Free.bind (Prog.Free.attempt (h.mono fun τ o ho => ?_))
  cases o with
  | error e => exact ho.free
  | ok a =>
    refine Prog.Free.bind (Prog.Free.attempt (Prog.Free.mono (fun τ o ho => ?_) ho))
    cases o with
    | error e => exact ho.free
    | ok b =>
      refine Prog.Free.bind (Prog.Free.attempt (Prog.Free.perform ho.1 fun r hr => ?_))
      rcases replies_commit hr with rfl | ⟨f, hf, rfl⟩
      · exact ho.2.1
      · exact (ho.2.2 f hf).free

/-! ## The texts of exceptions -/

/-- The exception does not carry the text of an exhausted dispatch. -/
def Exc.Worded (e : Exc) : Prop := e ≠ .workbookStructureError dispatchExhaustedReason

/-- Every exception of the program is worded. -/
def Py.Worded (env : Env) {α : Type} (x : Py α) : Prop :=
  ∀ τ, Py.Free env (fun _ _ => True) (fun _ o => ∀ e, o = .error e → e.Worded) τ x

namespace Worded

variable {α β : Type}

theorem ret (a : α) : Py.Worded env (pure a : Py α) := fun _ e h => by cases h

theorem raise {e : Exc} (he : e.Worded) : Py.Worded env (throw e : Py α) := fun _ e' h => by
  cases h
  exact he

theorem raised (f : Fault) : (Exc.raised f).Worded := by simp [Exc.Worded]

theorem seq {x : Py α} {f : α → Py β} (hx : x.Worded env) (hf : ∀ a, (f a).Worded env) :
    Py.Worded env (x >>= f) := by
  intro τ
  refine Prog.Free.bind ((hx τ).mono fun τ o ho => ?_)
  cases o with
  | ok a => exact hf a τ
  | error e =>
    intro e' he'
    cases he'
    exact ho e rfl

theorem stmt {s : Stmt} (hs : ∀ exc n, s ≠ .selfRetry exc n) : (Py.stmt s).Worded env := by
  intro τ
  refine Prog.Free.perform trivial fun r hr e he => ?_
  subst he
  obtain ⟨f, rfl⟩ := replies_error hs hr
  exact raised f

theorem query (q : Query) : (Py.query q).Worded env := stmt fun _ _ h => by cases h

theorem handle {x : Py α} {h : Exc → Py α} (hx : x.Worded env)
    (hh : ∀ e, e.Worded → (h e).Worded env) : Py.Worded env (x.tryCatch h) := by
  intro τ
  refine Prog.Free.tryCatch ((hx τ).mono fun τ o ho => ?_)
  cases o with
  | ok a => intro e he; cases he
  | error e => exact hh e (ho e rfl) τ

/-- A transaction raises nothing, and the exception it ended with is worded. -/
theorem transaction {first : Py α} {rest : α → Py β} (hfirst : first.Worded env)
    (hrest : ∀ a, (rest a).Worded env) (τ : Exchanges) :
    Py.Free env (fun _ _ => True)
      (fun _ o => ∃ x, o = .ok x ∧ ∀ a e, x = .error (a, e) → e.Worded) τ
      (ShipmentImport.transaction first rest) := by
  refine free_transaction ((hfirst τ).mono fun τ o ho => ?_)
  cases o with
  | error e => exact ⟨trivial, _, rfl, fun a e' h => by cases h; exact ho e rfl⟩
  | ok a =>
    refine (hrest a τ).mono fun τ o ho => ?_
    cases o with
    | error e => exact ⟨trivial, _, rfl, fun a e' h => by cases h; exact ho e rfl⟩
    | ok b =>
      exact ⟨trivial, ⟨_, rfl, fun a e' h => by cases h⟩,
        fun x _ => ⟨trivial, _, rfl, fun a e' h => by cases h; exact raised x⟩⟩

/-- What follows a transaction sees worded exceptions. -/
theorem afterTransaction {γ : Type} {first : Py α} {rest : α → Py β} {f : Attempt α β → Py γ}
    (hfirst : first.Worded env) (hrest : ∀ a, (rest a).Worded env)
    (hf : ∀ o, (∀ a e, o = .error (a, e) → e.Worded) → (f o).Worded env) :
    Py.Worded env (ShipmentImport.transaction first rest >>= f) := by
  intro τ
  refine Prog.Free.bind ((transaction hfirst hrest τ).mono fun τ o ho => ?_)
  obtain ⟨x, rfl, hx⟩ := ho
  exact hf x hx τ

theorem inTransaction {body : Py α} (hbody : body.Worded env) :
    (ShipmentImport.inTransaction body).Worded env := by
  refine afterTransaction hbody ret fun o ho => ?_
  rcases o with ⟨a, e⟩ | a
  · exact raise (ho a e rfl)
  · exact ret a

theorem forEach {xs : List α} {f : α → Py Unit} (hf : ∀ a, (f a).Worded env) :
    (ShipmentImport.forEach xs f).Worded env := by
  induction xs with
  | nil => exact ret ()
  | cons x xs ih => exact seq (hf x) fun _ => ih

end Worded

/-! ### The worker after its claim -/

section
variable (c : ClaimedImport)

theorem worded_updateClaimedOrStop (values : ProgressValues) :
    (updateClaimedOrStop c values).Worded env := by
  refine Worded.seq (Worded.query _) fun a => ?_
  cases a with
  | true => exact Worded.ret ()
  | false => exact Worded.raise (by simp [Exc.Worded])

theorem worded_requireCurrentOwnership : (requireCurrentOwnership c).Worded env := by
  refine Worded.seq (Worded.query _) fun a => ?_
  cases a with
  | true => exact Worded.ret ()
  | false => exact Worded.raise (by simp [Exc.Worded])

theorem worded_bulkInsertShipments (shipments : List Shipment) :
    (bulkInsertShipments shipments).Worded env := by
  cases shipments with
  | nil => exact Worded.ret ()
  | cons => exact Worded.seq (Worded.forEach fun _ => Worded.query _) fun _ => Worded.query _

theorem worded_bulkInsertImportErrors (errors : List ImportErrorRow) :
    (bulkInsertImportErrors errors).Worded env := by
  cases errors with
  | nil => exact Worded.ret ()
  | cons => exact Worded.seq (Worded.forEach fun _ => Worded.query _) fun _ => Worded.query _

theorem worded_persistChunk (chunkResult : ValidationChunkResult) :
    (persistChunk c chunkResult).Worded env := by
  refine Worded.seq (worded_bulkInsertShipments _) fun _ => ?_
  refine Worded.seq (worded_bulkInsertImportErrors _) fun _ => ?_
  refine Worded.seq (worded_updateClaimedOrStop c _) fun _ => ?_
  exact worded_updateClaimedOrStop c _

theorem worded_findExistingShipmentCodes (codes : List String) :
    (findExistingShipmentCodes codes).Worded env := by
  unfold findExistingShipmentCodes
  split
  · exact Worded.ret _
  · exact Worded.query _

theorem worded_persistChunkAfterDuplicateRace {e : Exc} (he : e.Worded) (fuel : Nat) :
    ∀ chunkResult, (persistChunkAfterDuplicateRace c e fuel chunkResult).Worded env := by
  induction fuel with
  | zero =>
    intro chunkResult
    unfold persistChunkAfterDuplicateRace
    exact Worded.seq (Worded.stmt fun _ _ h => by cases h) fun never => nomatch never
  | succ fuel ih =>
    intro chunkResult
    unfold persistChunkAfterDuplicateRace
    refine Worded.afterTransaction ?_ (fun corrected => ?_) fun o ho => ?_
    · refine Worded.seq (worded_requireCurrentOwnership c) fun _ => ?_
      exact Worded.seq (worded_findExistingShipmentCodes _) fun _ => Worded.ret _
    · split
      · exact Worded.ret _
      · exact Worded.seq (worded_persistChunk c _) fun _ => Worded.ret _
    · rcases o with ⟨corrected, e'⟩ | (_ | corrected)
      · have he' := ho corrected e' rfl
        dsimp only
        split
        · cases corrected with
          | none => exact Worded.raise he'
          | some corrected => exact ih corrected
        · exact Worded.raise he'
      · exact Worded.raise he
      · exact Worded.ret _

theorem worded_processNextChunk {α : Type} {next : Py (Option (ValidationChunkResult × α))}
    (hnext : next.Worded env) : (processNextChunk c next).Worded env := by
  refine Worded.afterTransaction (Worded.seq (worded_requireCurrentOwnership c) fun _ => hnext)
    (fun o => ?_) fun o ho => ?_
  · match o with
    | none => exact Worded.ret _
    | some (chunkResult, state) => exact Worded.seq (worded_persistChunk c _) fun _ => Worded.ret _
  · rcases o with ⟨assigned, e⟩ | result
    · have he := ho assigned e rfl
      dsimp only
      split
      · split
        · exact Worded.raise he
        · exact Worded.seq (worded_persistChunkAfterDuplicateRace c he _ _) fun _ => Worded.ret _
      · exact Worded.raise he
    · exact Worded.ret _

theorem worded_structureErrors {α : Type} {x : Py α} (hx : x.Worded env) :
    (structureErrors x).Worded env := by
  refine Worded.handle hx fun e he => ?_
  cases e with
  | raised f =>
    dsimp only
    split
    · exact Worded.raise fun h => absurd (Exc.workbookStructureError.inj h) (by decide)
    · exact Worded.raise he
  | _ => exact Worded.raise he

theorem worded_claimPendingImport (importId : ImportId) (processingToken : Token)
    (workerId : WorkerName) :
    (claimPendingImport importId processingToken workerId).Worded env := by
  refine Worded.seq (Worded.query _) fun o => ?_
  cases o with
  | none => exact Worded.ret _
  | some _ => exact Worded.query _

/-- The parser's messages are its own. -/
theorem iterChunks_message {n : Nat} {worksheet : Worksheet} {message : String}
    (h : XlsxParser.iterChunks n worksheet = .error message) : message ≠ dispatchExhaustedReason := by
  have hn : ∀ values index headers message,
      XlsxParser.normalizeHeaders values index headers = .error message →
        message = "Workbook contains duplicate headers." := by
    intro values
    induction values with
    | nil => intro index headers message h; cases h
    | cons value values ih =>
      intro index headers message h
      unfold XlsxParser.normalizeHeaders at h
      dsimp only at h
      split at h
      · exact ih _ _ _ h
      · split at h
        · cases h; rfl
        · exact ih _ _ _ h
  simp only [XlsxParser.iterChunks, XlsxParser.dataRows] at h
  cases hp : XlsxParser.parseHeaders worksheet with
  | ok headers => rw [hp] at h; cases h
  | error m =>
    rw [hp] at h
    cases h
    unfold XlsxParser.parseHeaders at hp
    split at hp
    · cases hp; decide
    · split at hp
      · next hm => cases hp; rw [hn _ _ _ _ hm]; decide
      · split at hp
        · cases hp
        · cases hp
          intro he
          have hlist := congrArg (fun s : String => s.toList.head?) he
          simp [String.toList_append, dispatchExhaustedReason] at hlist

theorem worded_nextValidatedChunk (importId : ImportId) (chunks : List (List ParsedWorkbookRow))
    (tracker : DuplicateTracker) : (nextValidatedChunk env importId chunks tracker).Worded env := by
  refine Worded.seq (worded_structureErrors (Worded.stmt fun _ _ h => by cases h)) fun _ => ?_
  cases chunks with
  | nil => exact Worded.ret _
  | cons chunk chunks =>
    exact Worded.seq (worded_findExistingShipmentCodes _) fun _ => Worded.ret _

theorem worded_firstValidatedChunk : (firstValidatedChunk env c).Worded env := by
  refine Worded.seq ?_ fun chunks => Worded.seq (worded_nextValidatedChunk _ _ _) fun _ =>
    Worded.ret _
  refine Worded.seq (worded_structureErrors (Worded.stmt fun _ _ h => by cases h))
    fun worksheet => ?_
  split
  · next message h =>
    exact Worded.raise fun e => iterChunks_message h (Exc.workbookStructureError.inj e)
  · exact Worded.ret _

theorem worded_processChunks (chunks : List (List ParsedWorkbookRow)) :
    ∀ tracker totals, (processChunks env c chunks tracker totals).Worded env := by
  induction chunks with
  | nil =>
    intro tracker totals
    exact Worded.seq (worded_processNextChunk c (worded_nextValidatedChunk _ _ _)) fun _ =>
      Worded.ret _
  | cons chunk chunks ih =>
    intro tracker totals
    refine Worded.seq (worded_processNextChunk c (worded_nextValidatedChunk _ _ _)) fun o => ?_
    match o with
    | none => exact Worded.ret _
    | some (chunkResult, tracker) => exact ih tracker _

/-- No exception of the worker after its claim carries the text of an exhausted dispatch. -/
theorem worded_processClaimed : (processClaimed env c).Worded env := by
  refine Worded.seq (Worded.inTransaction ?_) fun _ => Worded.seq ?_ fun totals =>
    Worded.inTransaction (worded_updateClaimedOrStop c _)
  · refine Worded.seq (worded_updateClaimedOrStop c _) fun _ => ?_
    refine Worded.seq (Worded.query _) fun _ => ?_
    exact Worded.seq (Worded.query _) fun _ => Worded.ret _
  · refine Worded.seq (worded_processNextChunk c (worded_firstValidatedChunk c)) fun o => ?_
    match o with
    | none => exact Worded.ret _
    | some (chunkResult, chunks, tracker) => exact worded_processChunks c chunks tracker _

end

end

end ShipmentImport

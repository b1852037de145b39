import ShipmentImport.Lib.WaitsFor
import ShipmentImport.Refinement.FreeRuns
import ShipmentImport.Runs
import Mathlib.Data.String.Basic

/-!
# Waits between chunk transactions

An insert of a shipment waits for the transaction that has inserted its code, and a chunk inserts in
the order of its file. Two files that list common codes in opposite orders can make their workers
wait for each other. Where all files list their codes in one order, they cannot.
-/

namespace ShipmentImport

open Relation

/-! ## Waiting -/

/-- The code with which a shipment enters the unique index. -/
def Shipment.indexCode (s : Shipment) : Option String :=
  match s.store with
  | .ok stored => some stored.shipmentCode
  | .error _ => none

/-- The transaction that the chunk transaction of process `p` waits for: another one that has
inserted the code `p` is about to insert. -/
def State.waitsFor (c : State) (p : Nat) : Option Nat :=
  match c.proc p with
  | some (.processImport .., .stmt (.query (.insertShipment s)) _) =>
    s.indexCode.bind fun code => (c.world.db.shipments.entry code).filter (· ≠ p)
  | _ => none

def State.Waits (c : State) (p q : Nat) : Prop := State.waitsFor c p = some q

theorem waits_iff {c : State} {p q : Nat} : State.Waits c p q ↔
    ∃ m hostname s k code, c.proc p = some (.processImport m hostname,
      .stmt (.query (.insertShipment s)) k) ∧ s.indexCode = some code ∧
      c.world.db.shipments.entry code = some q ∧ q ≠ p := by
  unfold State.Waits State.waitsFor
  constructor
  · intro h
    split at h
    · next m hostname s k hp =>
      obtain ⟨code, hcode, h⟩ := Option.bind_eq_some_iff.1 h
      obtain ⟨he, hne⟩ := Option.filter_eq_some_iff.1 h
      exact ⟨m, hostname, s, k, code, hp, hcode, he, of_decide_eq_true hne⟩
    · cases h
  · rintro ⟨m, hostname, s, k, code, hp, hcode, he, hne⟩
    rw [hp]
    exact Option.bind_eq_some_iff.2 ⟨code, hcode,
      Option.filter_eq_some_iff.2 ⟨he, decide_eq_true hne⟩⟩

/-- A transaction that waits cannot go on. -/
theorem next_of_waits {env : Env} {c : State} {p q : Nat} (h : State.Waits c p q) :
    (service env).next c (.step p .run) = none := by
  obtain ⟨m, hostname, s, k, code, hp, hcode, he, hne⟩ := waits_iff.1 h
  have hstore : ∃ stored, s.store = .ok stored ∧ stored.shipmentCode = code := by
    unfold Shipment.indexCode at hcode
    split at hcode
    · next stored hs => exact ⟨stored, hs, Option.some.inj hcode⟩
    · cases hcode
  obtain ⟨stored, hs, rfl⟩ := hstore
  have hx : (c.world.db.begin p c.world.time).exec env.server c.world.time p
      (.insertShipment s) = none := by
    simp [Database.exec, hs, Table.insertUnique, Database.begin, he, hne]
  simp [Machine.next, hp, service, World.exec, World.perform, hx]

/-! ## Chunks in order -/

section
variable {lt : String → String → Prop}

/-- `b` can be inserted after `a`. -/
def Shipment.Before (lt : String → String → Prop) (a b : Shipment) : Prop :=
  ∀ x, a.indexCode = some x → ∀ y, b.indexCode = some y → x = y ∨ lt x y

/-- The code a row is inserted with, if it is without issues of its own. -/
def rowCode (A : Adapters) (row : ParsedWorkbookRow) : Option String :=
  if (prepareRow A row).issues = [] then
    (prepareRow A row).parsedRow.bind fun r => (varchar 128 r.shipmentCode).toOption
  else none

/-- The codes a chunk can insert, where the rows before it have the codes `seen`: those of the rows
whose code no row before has. -/
def insertableCodes (A : Adapters) : List String → List ParsedWorkbookRow → List String
  | _, [] => []
  | seen, row :: rows =>
    let shipmentCode := (prepareRow A row).shipmentCode
    (if shipmentCode.all (· ∉ seen) then (rowCode A row).toList else []) ++
      insertableCodes A (shipmentCode.toList ++ seen) rows

/-- The codes of the rows before and of a chunk. -/
def seenCodes (A : Adapters) (seen : List String) (chunk : List ParsedWorkbookRow) : List String :=
  chunk.foldl (fun seen row => (prepareRow A row).shipmentCode.toList ++ seen) seen

/-- The chunks of a file have the codes they can insert in the order `lt`. -/
def ChunksInOrder (A : Adapters) (lt : String → String → Prop) :
    List String → List (List ParsedWorkbookRow) → Prop
  | _, [] => True
  | seen, chunk :: chunks =>
    (insertableCodes A seen chunk).Pairwise (fun x y => x = y ∨ lt x y) ∧
      ChunksInOrder A lt (seenCodes A seen chunk) chunks

instance decidableChunksInOrder {A : Adapters} [DecidableRel lt] : (seen : List String) →
    (chunks : List (List ParsedWorkbookRow)) → Decidable (ChunksInOrder A lt seen chunks)
  | _, [] => .isTrue trivial
  | seen, chunk :: chunks =>
    have : Decidable (ChunksInOrder A lt (seenCodes A seen chunk) chunks) :=
      decidableChunksInOrder _ _
    inferInstanceAs (Decidable (List.Pairwise _ _ ∧ _))

/-- Every workbook has its chunks in the order `lt`. -/
def Env.ListsInOrder (env : Env) (lt : String → String → Prop) : Prop :=
  ∀ path worksheet chunks, env.workbook path = .ok worksheet →
    XlsxParser.iterChunks env.settings.processingRowChunkSize.1 worksheet = .ok chunks →
    ChunksInOrder env.adapters lt [] chunks

/-- The shipments of a result are those of its valid rows, in order. -/
structure ValidationChunkResult.InOrder (lt : String → String → Prop) (r : ValidationChunkResult) :
    Prop where
  shipments : r.shipments = r.validRows.map (·.shipment)
  order : r.shipments.Pairwise (Shipment.Before lt)

theorem indexCode_toShipment {r : ShipmentRow} {importId : ImportId} {x : String}
    (h : (r.toShipment importId).indexCode = some x) : varchar 128 r.shipmentCode = .ok x := by
  unfold Shipment.indexCode at h
  split at h
  · next stored hs =>
    cases h
    simp only [Shipment.store, bind_eq_ok] at hs
    obtain ⟨code, hcode, _, _, _, _, _, _, _, _, _, _, _, _, hs⟩ := hs
    split at hs
    · cases hs
      exact hcode
    · cases hs
  · cases h

/-- A row that `validate_chunk` accepts is without issues, and no row before has its code. -/
theorem accepted_row {seen existing chunkSeen : List String} {p : PreparedRow}
    (h : p.issues ++ duplicateIssues seen existing chunkSeen p.shipmentCode = []) :
    p.issues = [] ∧ p.shipmentCode.all (· ∉ chunkSeen ++ seen) = true := by
  obtain ⟨hi, hd⟩ := List.append_eq_nil_iff.1 h
  refine ⟨hi, ?_⟩
  cases hc : p.shipmentCode with
  | none => rfl
  | some code =>
    rw [hc] at hd
    simp only [duplicateIssues] at hd
    split at hd
    · cases hd
    · next hn => simpa [or_comm] using hn

/-- The loop of `validate_chunk` accepts codes that the chunk can insert, in the order of its rows,
and remembers those it has seen. -/
theorem classifyRow_insertable {A : Adapters} {importId : ImportId} {seen existing : List String}
    (rows : List ParsedWorkbookRow) : ∀ st : ChunkState, ∃ vs : List ValidatedShipmentRow,
      let st' := (rows.map (prepareRow A)).foldl (classifyRow importId seen existing) st
      st'.validRows = st.validRows ++ vs ∧ st'.shipments = st.shipments ++ vs.map (·.shipment) ∧
        (vs.filterMap (·.shipment.indexCode)).Sublist
          (insertableCodes A (st.chunkSeenCodes ++ seen) rows) ∧
        st'.chunkSeenCodes ++ seen = seenCodes A (st.chunkSeenCodes ++ seen) rows := by
  induction rows with
  | nil => exact fun st => ⟨[], by simp, by simp, .slnil, rfl⟩
  | cons row rows ih =>
    intro st
    obtain ⟨vs, hv, hs, hc, hseen⟩ := ih (classifyRow importId seen existing st (prepareRow A row))
    have hcodes : (classifyRow importId seen existing st (prepareRow A row)).chunkSeenCodes =
        (prepareRow A row).shipmentCode.toList ++ st.chunkSeenCodes := by
      unfold classifyRow
      dsimp only
      split <;> rfl
    rw [hcodes, List.append_assoc] at hc hseen
    simp only [List.map_cons, List.foldl_cons, insertableCodes, seenCodes]
    by_cases hi : (prepareRow A row).issues ++ duplicateIssues seen existing st.chunkSeenCodes
        (prepareRow A row).shipmentCode = []
    · obtain ⟨hissues, hnew⟩ := accepted_row hi
      simp only [classifyRow, dif_pos hi] at hv hs hseen ⊢
      refine ⟨_ :: vs, by rw [hv, List.append_assoc, List.singleton_append],
        by rw [hs, List.append_assoc, List.map_cons, List.singleton_append], ?_, hseen⟩
      rw [if_pos hnew, List.filterMap_cons]
      cases hx : Shipment.indexCode (ShipmentRow.toShipment ((prepareRow A row).parsedRow.get
          ((prepareRow A row).parsed hissues)) importId) with
      | none => exact hc.trans (List.sublist_append_right _ _)
      | some x =>
        have hrow : rowCode A row = some x := by
          rw [rowCode, if_pos hissues, ← Option.some_get ((prepareRow A row).parsed hissues),
            Option.bind_some, indexCode_toShipment hx]
          rfl
        rw [hrow]
        exact hc.cons_cons x
    · simp only [classifyRow, dif_neg hi] at hv hs hseen ⊢
      exact ⟨vs, hv, hs, hc.trans (List.sublist_append_right _ _), hseen⟩

/-- `validate_chunk` keeps the order of the rows, and leaves what the rest of the file needs. -/
theorem inOrder_classifyChunk {A : Adapters} {importId : ImportId}
    {chunk : List ParsedWorkbookRow} {chunks : List (List ParsedWorkbookRow)}
    {tracker : DuplicateTracker}
    (ho : ChunksInOrder A lt tracker.seenShipmentCodes (chunk :: chunks))
    (existing : List String) :
    (classifyChunk importId (chunk.map (prepareRow A)) tracker existing).1.InOrder lt ∧
      ChunksInOrder A lt
        (classifyChunk importId (chunk.map (prepareRow A)) tracker existing).2.seenShipmentCodes
        chunks := by
  obtain ⟨vs, hv, hs, hc, hseen⟩ := @classifyRow_insertable A importId tracker.seenShipmentCodes
    existing chunk {}
  simp only [List.nil_append] at hv hs hc hseen
  refine ⟨⟨hs.trans (congrArg _ hv).symm, ?_⟩, ?_⟩
  · rw [show (classifyChunk importId (chunk.map (prepareRow A)) tracker existing).1.shipments = _
      from hs]
    exact List.pairwise_map.2 (List.pairwise_filterMap.1 (ho.1.sublist hc))
  · rw [show (classifyChunk importId (chunk.map (prepareRow A)) tracker
      existing).2.seenShipmentCodes = _ from hseen]
    exact ho.2

/-- The reclassification keeps the order. -/
theorem ValidationChunkResult.InOrder.reclassify {r : ValidationChunkResult} (h : r.InOrder lt)
    (importId : ImportId) (existing : List String) :
    (reclassify importId r existing).InOrder lt := by
  unfold ShipmentImport.reclassify
  split
  · exact h
  · have ho := h.order
    rw [h.shipments] at ho
    exact ⟨rfl, ho.sublist (List.filter_sublist.map _)⟩

end

/-! ## What a transaction has inserted -/

/-- The codes the open transaction has inserted, after one more exchange. -/
def addInserted (codes : List String) : Prog.Exchange Stmt Stmt.Reply Exc → List String
  | ⟨.query (.insertShipment s), .ok _⟩ => codes ++ s.indexCode.toList
  | ⟨.commit, .ok _⟩ | ⟨.rollback, _⟩ | ⟨.close, _⟩ => []
  | _ => codes

def Exchanges.inserted (τ : Exchanges) : List String := τ.foldl addInserted []

@[simp] theorem inserted_append (τ : Exchanges) (x : Prog.Exchange Stmt Stmt.Reply Exc) :
    Exchanges.inserted (τ ++ [x]) = addInserted τ.inserted x := by
  rw [Exchanges.inserted, List.foldl_append]
  rfl

/-- The statement inserts no shipment. -/
def Stmt.NoInsert (s : Stmt) : Prop := ∀ x, s ≠ .query (.insertShipment x)

theorem addInserted_nil {s : Stmt} (hs : s.NoInsert) (r : Except Exc s.Reply) :
    addInserted [] ⟨s, r⟩ = [] := by
  unfold addInserted
  split
  · next x _ e => cases e; exact absurd rfl (hs x)
  all_goals rfl

/-- A statement that inserts a shipment inserts it after what the transaction has inserted. -/
def InsertsNext (lt : String → String → Prop) (τ : Exchanges) (s : Stmt) : Prop :=
  ∀ x, s = .query (.insertShipment x) → ∀ y, x.indexCode = some y → ∀ d ∈ τ.inserted, d = y ∨ lt d y

theorem Stmt.NoInsert.next {s : Stmt} (hs : s.NoInsert) (lt : String → String → Prop)
    (τ : Exchanges) : InsertsNext lt τ s :=
  fun x e => absurd e (hs x)

/-! ### Programs that insert nothing -/

section
variable {env : Env} {lt : String → String → Prop} {α β : Type}

/-- The program inserts no shipment, and returns something of `A`. -/
def Py.InsertsNone (env : Env) (A : α → Prop) (x : Py α) : Prop :=
  ∀ τ, Py.Free env (fun _ => Stmt.NoInsert) (fun _ o => ∀ a, o = .ok a → A a) τ x

namespace Py.InsertsNone

variable {A : α → Prop} {B : β → Prop}

theorem ret {a : α} (ha : A a) : Py.InsertsNone env A (pure a) := fun _ _ h => by
  cases h
  exact ha

theorem raise {e : Exc} : Py.InsertsNone env A (throw e) := fun _ _ h => nomatch h

theorem seq {x : Py α} {f : α → Py β} (hx : x.InsertsNone env A)
    (hf : ∀ a, A a → (f a).InsertsNone env B) : Py.InsertsNone env B (x >>= f) := by
  intro τ
  refine Prog.Free.bind ((hx τ).mono fun τ o ho => ?_)
  cases o with
  | ok a => exact hf a (ho a rfl) τ
  | error e => exact fun b h => nomatch h

/-- A statement, with what is known of its reply. -/
theorem stmt' {s : Stmt} {A : s.Reply → Prop} (hs : s.NoInsert)
    (hA : ∀ a, Replies env s (.ok a) → A a) : (Py.stmt s).InsertsNone env A := by
  intro τ
  refine Prog.Free.perform hs fun r hr a ha => ?_
  subst ha
  exact hA a hr

theorem stmt {s : Stmt} (hs : s.NoInsert) : (Py.stmt s).InsertsNone env fun _ => True :=
  stmt' hs fun _ _ => trivial

theorem query {q : Query} (hq : ∀ x, q ≠ .insertShipment x) :
    (Py.query q).InsertsNone env fun _ => True :=
  stmt fun x h => hq x (by cases h; rfl)

theorem handle {x : Py α} {h : Exc → Py α} (hx : x.InsertsNone env A)
    (hh : ∀ e, (h e).InsertsNone env A) : Py.InsertsNone env A (x.tryCatch h) := by
  intro τ
  refine Prog.Free.tryCatch ((hx τ).mono fun τ o ho => ?_)
  cases o with
  | ok a => exact ho
  | error e => exact hh e τ

theorem transaction {first : Py α} {rest : α → Py β} (hfirst : first.InsertsNone env A)
    (hrest : ∀ a, A a → (rest a).InsertsNone env B) :
    (ShipmentImport.transaction first rest).InsertsNone env fun _ => True := by
  intro τ
  refine free_transaction ((hfirst τ).mono fun τ o ho => ?_)
  cases o with
  | error e => exact ⟨fun _ h => (nomatch h), fun _ _ => trivial⟩
  | ok a =>
    refine (hrest a (ho a rfl) τ).mono fun τ o _ => ?_
    cases o with
    | error e => exact ⟨fun _ h => (nomatch h), fun _ _ => trivial⟩
    | ok b =>
      exact ⟨fun _ h => (nomatch h), fun _ _ => trivial,
        fun f _ => ⟨fun _ h => (nomatch h), fun _ _ => trivial⟩⟩

theorem inTransaction {body : Py α} (hbody : body.InsertsNone env fun _ => True) :
    (ShipmentImport.inTransaction body).InsertsNone env fun _ => True := by
  refine seq (transaction (B := fun _ => True) hbody fun a _ => ret trivial) fun o _ => ?_
  rcases o with ⟨_, e⟩ | a
  · exact raise
  · exact ret trivial

end Py.InsertsNone

section
variable (c : ClaimedImport)

theorem insertsNone_findExistingShipmentCodes (codes : List String) :
    (findExistingShipmentCodes codes).InsertsNone env fun _ => True := by
  unfold findExistingShipmentCodes
  split
  · exact .ret trivial
  · exact .query fun _ h => nomatch h

theorem insertsNone_bulkInsertImportErrors (errors : List ImportErrorRow) :
    (bulkInsertImportErrors errors).InsertsNone env fun _ => True := by
  have hrows : ∀ es : List ImportErrorRow, (forEach es fun e =>
      Py.query (.insertImportError e)).InsertsNone env fun _ => True := by
    intro es
    induction es with
    | nil => exact .ret trivial
    | cons e es ih => exact .seq (.query fun _ h => nomatch h) fun _ _ => ih
  cases errors with
  | nil => exact .ret trivial
  | cons => exact .seq (hrows _) fun _ _ => .query fun _ h => nomatch h

theorem insertsNone_updateClaimedOrStop (values : ProgressValues) :
    (updateClaimedOrStop c values).InsertsNone env fun _ => True := by
  refine .seq (.query fun _ h => nomatch h) fun a _ => ?_
  cases a with
  | true => exact .ret trivial
  | false => exact .raise

theorem insertsNone_requireCurrentOwnership :
    (requireCurrentOwnership c).InsertsNone env fun _ => True := by
  refine .seq (.query fun _ h => nomatch h) fun a _ => ?_
  cases a with
  | true => exact .ret trivial
  | false => exact .raise

theorem insertsNone_markFailed (reason : String) :
    (markFailed c reason).InsertsNone env fun _ => True :=
  .seq (.inTransaction (.query fun _ h => nomatch h)) fun _ _ => .ret trivial

theorem insertsNone_handleOperationalFailure :
    (handleOperationalFailure c).InsertsNone env fun _ => True := by
  unfold handleOperationalFailure
  split
  · exact insertsNone_markFailed c _
  · refine .seq (.inTransaction (.query fun _ h => nomatch h)) fun a _ => ?_
    cases a with
    | true => exact .raise
    | false => exact .ret trivial

theorem insertsNone_handleError (claimedImport : Option ClaimedImport) (e : Exc) :
    (handleError claimedImport e).InsertsNone env fun _ => True := by
  unfold handleError
  split
  · exact .ret trivial
  all_goals split
  all_goals first
    | exact .ret trivial
    | exact .raise
    | exact insertsNone_markFailed _ _
    | exact insertsNone_handleOperationalFailure _

theorem insertsNone_prepareForReprocessing :
    (prepareForReprocessing c).InsertsNone env fun _ => True :=
  .inTransaction <| .seq (insertsNone_updateClaimedOrStop c _) fun _ _ =>
    .seq (.query fun _ h => nomatch h) fun _ _ =>
      .seq (.query fun _ h => nomatch h) fun _ _ => .ret trivial

theorem insertsNone_claimPendingImport (importId : ImportId) (processingToken : Token)
    (workerId : WorkerName) :
    (claimPendingImport importId processingToken workerId).InsertsNone env fun _ => True := by
  refine .seq (.query fun _ h => nomatch h) fun o _ => ?_
  cases o with
  | none => exact .ret trivial
  | some _ => exact .query fun _ h => nomatch h

theorem insertsNone_structureErrors {x : Py α} {A : α → Prop} (hx : x.InsertsNone env A) :
    (structureErrors x).InsertsNone env A := by
  refine .handle hx fun e => ?_
  split
  · split
    · exact .raise
    · exact .raise
  · exact .raise

/-! ### The chunks of a workbook in order -/

/-- The next result, with what is left to validate. -/
def NextInOrder (lt : String → String → Prop) (B : α → Prop)
    (o : Option (ValidationChunkResult × α)) : Prop :=
  ∀ x, o = some x → x.1.InOrder lt ∧ B x.2

theorem insertsNone_openChunks (ho : env.ListsInOrder lt) (path : String) :
    (openChunks env path).InsertsNone env fun chunks =>
      ChunksInOrder env.adapters lt [] chunks := by
  have hload : (Py.stmt (.loadWorkbook path)).InsertsNone env
      fun worksheet => env.workbook path = .ok worksheet := by
    refine .stmt' (fun _ h => nomatch h) fun worksheet hr => ?_
    obtain ⟨p, t, ch, w, w', h⟩ := hr
    cases ch with
    | run =>
      simp only [World.exec, World.perform, Option.some.injEq, Prod.mk.injEq] at h
      cases hw : env.workbook path with
      | error f => rw [hw] at h; cases h.1
      | ok a => rw [hw] at h; cases h.1; rfl
    | fail f => cases h
    | lost f => cases h
  refine .seq (insertsNone_structureErrors hload) fun worksheet hw => ?_
  split
  · exact .raise
  · next chunks hc => exact .ret (ho path worksheet chunks hw hc)

theorem insertsNone_nextValidatedChunk (importId : ImportId)
    {chunks : List (List ParsedWorkbookRow)} {tracker : DuplicateTracker}
    (ho : ChunksInOrder env.adapters lt tracker.seenShipmentCodes chunks) :
    (nextValidatedChunk env importId chunks tracker).InsertsNone env (NextInOrder lt fun tracker =>
      ChunksInOrder env.adapters lt tracker.seenShipmentCodes chunks.tail) := by
  refine .seq (insertsNone_structureErrors (.stmt fun _ h => nomatch h)) fun _ _ => ?_
  cases chunks with
  | nil => exact .ret fun _ h => nomatch h
  | cons chunk chunks =>
    refine .seq (insertsNone_findExistingShipmentCodes _) fun existing _ => .ret fun x hx => ?_
    cases hx
    exact inOrder_classifyChunk ho _

theorem insertsNone_firstValidatedChunk (ho : env.ListsInOrder lt) :
    (firstValidatedChunk env c).InsertsNone env
      (NextInOrder lt fun x => ChunksInOrder env.adapters lt x.2.seenShipmentCodes x.1) := by
  refine .seq (insertsNone_openChunks ho _) fun chunks hc => ?_
  refine .seq (insertsNone_nextValidatedChunk _ hc) fun o hnext => .ret fun x hx => ?_
  obtain ⟨y, rfl, rfl⟩ := Option.map_eq_some_iff.1 hx
  exact hnext y rfl

end

/-! ### Programs that insert in order -/

/-- Started outside of a transaction, the program inserts in order, leaves no transaction open, and
returns something of `A`. -/
def Py.InsertsInOrder (env : Env) (lt : String → String → Prop) (A : α → Prop) (x : Py α) : Prop :=
  ∀ τ : Exchanges, τ.inserted = [] → Py.Free env (InsertsNext lt)
    (fun τ' o => τ'.inserted = [] ∧ ∀ a, o = .ok a → A a) τ x

theorem Py.InsertsNone.inOrder {A : α → Prop} {x : Py α} (h : x.InsertsNone env A) :
    x.InsertsInOrder env lt A := by
  have key : ∀ (x : Py α) (τ : Exchanges), τ.inserted = [] →
      Py.Free env (fun _ => Stmt.NoInsert) (fun _ o => ∀ a, o = .ok a → A a) τ x →
      Py.Free env (InsertsNext lt) (fun τ' o => τ'.inserted = [] ∧ ∀ a, o = .ok a → A a) τ x := by
    intro x
    induction x with
    | ret a => exact fun τ hτ h => ⟨hτ, h⟩
    | raise e => exact fun τ hτ h => ⟨hτ, h⟩
    | stmt s k ih =>
      intro τ hτ h
      refine ⟨Stmt.NoInsert.next h.1 lt τ, fun r hr => ih r _ ?_ (h.2 r hr)⟩
      rw [inserted_append, hτ, addInserted_nil h.1]
  exact fun τ hτ => key x τ hτ (h τ)

namespace Py.InsertsInOrder

variable {A : α → Prop} {B : β → Prop}

theorem ret {a : α} (ha : A a) : Py.InsertsInOrder env lt A (pure a) :=
  (Py.InsertsNone.ret ha).inOrder

theorem raise {e : Exc} : Py.InsertsInOrder env lt A (throw e) := Py.InsertsNone.raise.inOrder

theorem seq {x : Py α} {f : α → Py β} (hx : x.InsertsInOrder env lt A)
    (hf : ∀ a, A a → (f a).InsertsInOrder env lt B) : Py.InsertsInOrder env lt B (x >>= f) := by
  intro τ hτ
  refine Prog.Free.bind ((hx τ hτ).mono fun τ o ⟨hτ', ho⟩ => ?_)
  cases o with
  | ok a => exact hf a (ho a rfl) τ hτ'
  | error e => exact ⟨hτ', fun b h => nomatch h⟩

theorem handle {x : Py α} {h : Exc → Py α} (hx : x.InsertsInOrder env lt A)
    (hh : ∀ e, (h e).InsertsInOrder env lt A) : Py.InsertsInOrder env lt A (x.tryCatch h) := by
  intro τ hτ
  refine Prog.Free.tryCatch ((hx τ hτ).mono fun τ o ⟨hτ', ho⟩ => ?_)
  cases o with
  | ok a => exact ⟨hτ', ho⟩
  | error e => exact hh e τ hτ'

/-- A transaction whose first part inserts nothing. -/
theorem transaction {first : Py α} {rest : α → Py β} (hfirst : first.InsertsNone env A)
    (hrest : ∀ a, A a → ∀ τ : Exchanges, τ.inserted = [] →
      Py.Free env (InsertsNext lt) (fun _ o => ∀ b, o = .ok b → B b) τ (rest a)) :
    (ShipmentImport.transaction first rest).InsertsInOrder env lt fun o => match o with
      | .ok b => B b
      | .error (a, _) => ∀ x, a = some x → A x := by
  have hback : ∀ (τ : Exchanges) (o : Except Exc (Attempt α β)) (P : Attempt α β → Prop),
      (∀ x, o = .ok x → P x) → RollsBack (InsertsNext lt)
        (fun τ' o => τ'.inserted = [] ∧ ∀ x, o = .ok x → P x) τ o := fun τ o P h =>
    ⟨Stmt.NoInsert.next (s := .rollback) (fun _ h => nomatch h) lt τ, inserted_append τ _, h⟩
  intro τ hτ
  refine free_transaction ((hfirst.inOrder τ hτ).mono fun τ o ⟨hτ', ho⟩ => ?_)
  cases o with
  | error e =>
    refine hback _ _ _ fun x hx => ?_
    cases hx
    exact fun x h => nomatch h
  | ok a =>
    have ha := ho a rfl
    refine (hrest a ha τ hτ').mono fun τ o ho => ?_
    have hassigned : ∀ (e : Exc) (x : Attempt α β), (.ok (.error (some a, e)) :
        Except Exc (Attempt α β)) = .ok x → match x with
          | .ok b => B b
          | .error (a, _) => ∀ x, a = some x → A x := by
      intro e x hx
      cases hx
      intro a' h
      cases h
      exact ha
    cases o with
    | error e => exact hback _ _ _ (hassigned e)
    | ok b =>
      refine ⟨Stmt.NoInsert.next (s := .commit) (fun _ h => nomatch h) lt τ,
        ⟨inserted_append τ _, ?_⟩, fun f _ => hback _ _ _ (hassigned _)⟩
      intro x hx
      cases hx
      exact ho b rfl

end Py.InsertsInOrder

/-! ### The worker -/

section
variable (c : ClaimedImport)

/-- Shipments in order, all of which come after what was inserted. -/
theorem free_insertShipments (shipments : List Shipment) :
    ∀ τ : Exchanges, shipments.Pairwise (Shipment.Before lt) →
      (∀ d ∈ τ.inserted, ∀ s ∈ shipments, ∀ y, s.indexCode = some y → d = y ∨ lt d y) →
      Py.Free env (InsertsNext lt) (fun _ _ => True) τ
        (forEach shipments fun s => Py.query (.insertShipment s)) := by
  induction shipments with
  | nil => exact fun τ _ _ => trivial
  | cons s shipments ih =>
    intro τ hp hd
    obtain ⟨hs, hp⟩ := List.pairwise_cons.1 hp
    refine Prog.Free.bind (Prog.Free.perform ?_ fun r hr => ?_)
    · intro x e y hy d hm
      cases e
      exact hd d hm s List.mem_cons_self y hy
    · cases r with
      | error e => exact trivial
      | ok _ =>
        refine ih _ hp fun d hm s' hs' y hy => ?_
        rw [inserted_append] at hm
        rcases List.mem_append.1 hm with hm | hm
        · exact hd d hm s' (List.mem_cons_of_mem _ hs') y hy
        · exact hs s' hs' d (Option.mem_toList.1 hm) y hy

theorem free_insertsNone {A : α → Prop} {x : Py α} (h : x.InsertsNone env A) (τ : Exchanges) :
    Py.Free env (InsertsNext lt) (fun _ _ => True) τ x :=
  (h τ).weaken (fun τ _ hs => hs.next lt τ) fun _ _ _ => trivial

/-- `_persist_chunk` inserts a chunk in order. -/
theorem free_persistChunk {r : ValidationChunkResult} (hr : r.InOrder lt) {τ : Exchanges}
    (hτ : τ.inserted = []) :
    Py.Free env (InsertsNext lt) (fun _ _ => True) τ (persistChunk c r) := by
  have hthen : ∀ {α β : Type} {x : Py α} {f : α → Py β} {τ : Exchanges},
      Py.Free env (InsertsNext lt) (fun _ _ => True) τ x →
      (∀ a τ, Py.Free env (InsertsNext lt) (fun _ _ => True) τ (f a)) →
      Py.Free env (InsertsNext lt) (fun _ _ => True) τ (x >>= f) := by
    intro α β x f τ hx hf
    refine Prog.Free.bind (hx.mono fun τ o _ => ?_)
    cases o with
    | ok a => exact hf a τ
    | error e => exact trivial
  refine hthen ?_ fun _ _ => hthen (free_insertsNone (insertsNone_bulkInsertImportErrors _) _)
    fun _ _ => hthen (free_insertsNone (insertsNone_updateClaimedOrStop c _) _)
      fun _ _ => free_insertsNone (insertsNone_updateClaimedOrStop c _) _
  have ho := hr.order
  cases hs : r.shipments with
  | nil => exact trivial
  | cons s rest =>
    rw [hs] at ho
    refine hthen (free_insertShipments _ _ ho fun d hm => ?_) fun _ _ =>
      free_insertsNone (.query (q := .checkImportExists _) fun _ h => nomatch h) _
    rw [hτ] at hm
    cases hm

theorem insertsNone_reclassifyDatabaseDuplicates {importId : ImportId}
    {r : ValidationChunkResult} (hr : r.InOrder lt) :
    (reclassifyDatabaseDuplicates importId r).InsertsNone env (·.InOrder lt) :=
  .seq (insertsNone_findExistingShipmentCodes _) fun existing _ =>
    .ret (hr.reclassify importId existing)

theorem inOrder_persistChunkAfterDuplicateRace (e : Exc) (fuel : Nat) :
    ∀ {r : ValidationChunkResult}, r.InOrder lt →
      (persistChunkAfterDuplicateRace c e fuel r).InsertsInOrder env lt (·.InOrder lt) := by
  induction fuel with
  | zero =>
    intro r hr
    exact .seq (Py.InsertsNone.stmt (s := .spin) (by rintro _ ⟨⟩)).inOrder
      fun never _ => never.elim
  | succ fuel ih =>
    intro r hr
    unfold persistChunkAfterDuplicateRace
    refine .seq (.transaction (A := fun corrected => corrected.InOrder lt)
      (B := fun o => ∀ corrected, o = some corrected → corrected.InOrder lt)
      (.seq (insertsNone_requireCurrentOwnership c) fun _ _ =>
        insertsNone_reclassifyDatabaseDuplicates hr) fun corrected hc τ hτ => ?_) fun o ho => ?_
    · split
      · intro b h
        cases h
        rintro _ ⟨⟩
      · refine Prog.Free.bind ((free_persistChunk c hc hτ).mono fun τ o _ => ?_)
        cases o with
        | ok _ => exact fun b h => by cases h; exact fun _ h => by cases h; exact hc
        | error e => rintro b ⟨⟩
    · rcases o with ⟨corrected, e'⟩ | (_ | corrected)
      · dsimp only
        split
        · cases corrected with
          | none => exact .raise
          | some corrected => exact ih (ho corrected rfl)
        · exact .raise
      · exact .raise
      · exact .ret (ho corrected rfl)

theorem inOrder_processNextChunk {B : α → Prop} {next : Py (Option (ValidationChunkResult × α))}
    (hnext : next.InsertsNone env (NextInOrder lt B)) :
    (processNextChunk c next).InsertsInOrder env lt (NextInOrder lt B) := by
  refine .seq (.transaction (A := NextInOrder lt B) (B := NextInOrder lt B)
    (.seq (insertsNone_requireCurrentOwnership c) fun _ _ => hnext) fun o ho τ hτ => ?_)
    fun o ho => ?_
  · match o with
    | none => exact fun b h => by cases h; exact ho
    | some (chunkResult, state) =>
      refine Prog.Free.bind ((free_persistChunk c (ho _ rfl).1 hτ).mono fun τ o _ => ?_)
      cases o with
      | ok _ => exact fun b h => by cases h; exact ho
      | error e => exact fun b h => nomatch h
  · rcases o with ⟨assigned, e⟩ | result
    · dsimp only
      split
      · match assigned with
        | none | some none => exact .raise
        | some (some (chunkResult, state)) =>
          obtain ⟨hr, hs⟩ := ho _ rfl _ rfl
          refine .seq (inOrder_persistChunkAfterDuplicateRace c e _ hr) fun corrected hc => .ret ?_
          intro x hx
          cases hx
          exact ⟨hc, hs⟩
      · exact .raise
    · exact .ret ho

theorem inOrder_processChunks (chunks : List (List ParsedWorkbookRow)) :
    ∀ tracker : DuplicateTracker,
      ChunksInOrder env.adapters lt tracker.seenShipmentCodes chunks → ∀ totals,
        (processChunks env c chunks tracker totals).InsertsInOrder env lt fun _ => True := by
  induction chunks with
  | nil =>
    intro tracker ho totals
    exact .seq (inOrder_processNextChunk c (insertsNone_nextValidatedChunk _ ho)) fun _ _ =>
      .ret trivial
  | cons chunk chunks ih =>
    intro tracker ho totals
    refine .seq (inOrder_processNextChunk c (insertsNone_nextValidatedChunk _ ho)) fun o hc => ?_
    match o with
    | none => exact .ret trivial
    | some (chunkResult, tracker) => exact ih tracker (hc _ rfl).2 _

theorem inOrder_processAllChunks (ho : env.ListsInOrder lt) :
    (processAllChunks env c).InsertsInOrder env lt fun _ => True := by
  refine .seq (inOrder_processNextChunk c (insertsNone_firstValidatedChunk c ho)) fun o hc => ?_
  match o with
  | none => exact .ret trivial
  | some (chunkResult, chunks, tracker) => exact inOrder_processChunks c chunks _ (hc _ rfl).2 _

theorem inOrder_processClaimed (ho : env.ListsInOrder lt) :
    (processClaimed env c).InsertsInOrder env lt fun _ => True := by
  refine .seq (insertsNone_prepareForReprocessing c).inOrder fun _ _ => ?_
  refine .seq (inOrder_processAllChunks c ho) fun totals _ => ?_
  exact (Py.InsertsNone.inTransaction (insertsNone_updateClaimedOrStop c _)).inOrder

/-- A worker inserts the shipments of a chunk in order. -/
theorem inOrder_run (ho : env.ListsInOrder lt) (importId : ImportId) (processingToken : Token)
    (workerId : WorkerName) :
    (run env importId processingToken workerId).InsertsInOrder env lt fun _ => True := by
  have hclose : ∀ {x : Py Unit}, x.InsertsInOrder env lt (fun _ => True) →
      (withSession x).InsertsInOrder env lt fun _ => True := by
    intro x hx τ hτ
    refine Prog.Free.bind (Prog.Free.attempt ((hx τ hτ).mono fun τ o ⟨hτ', _⟩ => ?_))
    cases o with
    | ok a => exact (Py.InsertsNone.seq (.stmt (s := .close) fun _ h => nomatch h) fun _ _ =>
        Py.InsertsNone.ret trivial).inOrder τ hτ'
    | error e => exact (Py.InsertsNone.seq (.stmt (s := .close) fun _ h => nomatch h) fun _ _ =>
        Py.InsertsNone.raise).inOrder τ hτ'
  refine hclose (.seq (.transaction (B := fun _ => True) (insertsNone_claimPendingImport _ _ _)
    fun a _ τ _ _ _ => trivial) fun o _ => ?_)
  rcases o with ⟨claimedImport, e⟩ | (_ | claimedImport)
  · exact (insertsNone_handleError _ e).inOrder
  · exact .ret trivial
  · exact .handle (inOrder_processClaimed claimedImport ho) fun e =>
      (insertsNone_handleError _ e).inOrder

theorem inOrder_processImportTask (ho : env.ListsInOrder lt) (message : Message)
    (hostname : Option WorkerName) (processingToken : Token) :
    (processImportTask env message hostname processingToken).InsertsInOrder env lt
      fun _ => True := by
  refine .handle (inOrder_run ho _ _ _) fun e => ?_
  split
  · exact .seq (Py.InsertsNone.stmt (s := .selfRetry _ _) fun _ h => nomatch h).inOrder
      fun never _ => nomatch never
  · exact .raise

end

end

/-! ## Runs -/

/-- The index entries of session `p` are codes that its transaction has inserted. -/
def Entered (p : Nat) (τ : Exchanges) (w : World) : Prop :=
  ∀ k, w.db.shipments.entry k = some p → k ∈ τ.inserted

section
variable {env : Env} {lt : String → String → Prop} {c c' : State} {w w' : World} {p : Nat}

theorem Entered.idle {τ : Exchanges} (h : w.db.Idle p) : Entered p τ w :=
  fun k hk => absurd hk (h.shipments.entry k)

/-- The others leave the entries of `p` alone. -/
theorem Entered.keeps {τ : Exchanges} (h : Entered p τ w) (hk : Database.Keeps p w.db w'.db) :
    Entered p τ w' :=
  fun k he => h k ((hk.shipments.entry k).1 he)

/-- Only the end of a transaction forgets what it has inserted. -/
theorem mem_addInserted {s : Stmt} {r : Except Exc s.Reply} {codes : List String} {k : String}
    (h : k ∈ codes) (hs : s ≠ .commit ∧ s ≠ .rollback ∧ s ≠ .close) :
    k ∈ addInserted codes ⟨s, r⟩ := by
  unfold addInserted
  split
  · exact List.mem_append_left _ h
  · next e => cases e; exact absurd rfl hs.1
  · next e => cases e; exact absurd rfl hs.2.1
  · next e => cases e; exact absurd rfl hs.2.2
  · exact h

/-- A statement of `p`. -/
theorem Entered.step {t : Task} {s : Stmt} {ch : Choice} {r : Except Exc s.Reply}
    {τ : Exchanges} (h : Entered p τ w) (hx : World.exec env p t s ch w = some (r, w')) :
    Entered p (τ ++ [⟨s, r⟩]) w' := by
  intro k hk
  rw [inserted_append]
  cases s
  case query q =>
    rcases Setting.Spec.query_exec (C := Setting.any env) hx with
      ⟨rfl, r', d', hq, rfl, rfl⟩ | ⟨f, rfl, rfl, rfl⟩
    · rcases Database.exec_entry hq k with he | ⟨-, x, stored, rfl, hs, rfl, a, rfl⟩
      · exact mem_addInserted (h k (he ▸ hk)) (by simp)
      · exact List.mem_append_right _ (by simp [Shipment.indexCode, hs])
    · exact mem_addInserted (h k hk) (by simp)
  case commit =>
    rcases Setting.Spec.commit_exec (C := Setting.any env) hx with
      ⟨lost, rfl, -, rfl, rfl⟩ | ⟨f, rfl, -, rfl, rfl⟩
    · exact absurd hk ((Database.idle_commit w.db p).shipments.entry k)
    · exact h k hk
  case rollback | close =>
    cases ch <;> cases hx
    exact absurd hk ((Database.idle_rollback w.db p).shipments.entry k)
  all_goals
    refine mem_addInserted (h k ?_) (by simp)
    exact (exec_touches hx).2.entry (fun _ h => nomatch h) hk

/-- A new process has entered nothing. -/
theorem Reachable.entered_spawn (h : Reachable env c) {t : Task}
    (hn : (service env).next c (.spawn t) = some c') : Entered c.procs.length [] c'.world := by
  obtain ⟨g, hg⟩ := h.holds
  have hidle : c.world.db.Idle c.procs.length := (hg.fresh _ (Nat.le_refl _)).idle
  rcases next_cases hn with ⟨_, _, _, _, _, _, e, _⟩ | ⟨-, -, e | ⟨q, e⟩⟩
  · cases e
  · exact .idle (e ▸ hidle)
  · by_cases hq : c.procs.length = q
    · exact .idle (e ▸ hq ▸ Database.idle_rollback _ _)
    · exact .idle (e ▸ ((Database.own_rollback hg.inv.wf).keeps _ hq).idle hidle)

/-- A step that is not a statement of `p`. -/
theorem Reachable.entered_other (h : Reachable env c) {a : Event} {τ : Exchanges}
    (hn : (service env).next c a = some c') (ha : ∀ ch, a ≠ .step p ch)
    (he : Entered p τ c.world) : Entered p τ c'.world := by
  obtain ⟨g, hg⟩ := h.inv
  rcases next_cases hn with ⟨q, ch, t, s, k, r, rfl, -, hx⟩ | ⟨-, -, e | ⟨q, e⟩⟩
  · by_cases hq : p = q
    · subst hq
      exact absurd rfl (ha ch)
    · exact he.keeps ((exec_touches hx).2.keeps hg.wf hq)
  · exact he.keeps (e ▸ .refl p _)
  · by_cases hq : p = q
    · exact .idle (e ▸ hq ▸ Database.idle_rollback _ _)
    · exact he.keeps (e ▸ (Database.own_rollback hg.wf).keeps p hq)

/-- What a task may insert next. -/
def Task.InsertsNext (lt : String → String → Prop) : Task → Exchanges → Stmt → Prop
  | .processImport .. => ShipmentImport.InsertsNext lt
  | _ => fun _ _ => True

theorem free_taskProgram (ho : env.ListsInOrder lt) (p : Nat) (t : Task) :
    Py.Free env (t.InsertsNext lt) (fun _ _ => True) [] (taskProgram env p t) := by
  cases t with
  | processImport message hostname =>
    refine Prog.Free.bind ((inOrder_processImportTask ho message hostname p [] rfl).mono
      fun τ o _ => ?_)
    cases o <;> trivial
  | createImport | publishDueEvents | recoverStaleClaims | recoverStaleImports =>
    exact Prog.Free.trivial

/-- A chunk transaction that waits has only entered codes before the one it waits for. -/
theorem Reachable.waits_after (h : Reachable env c) (ho : env.ListsInOrder lt) {q : Nat}
    (hw : State.Waits c p q) : ∃ k, c.world.db.shipments.entry k = some q ∧
      ∀ l, c.world.db.shipments.entry l = some p → lt l k := by
  obtain ⟨m, hostname, s, k, code, hp, hcode, he, hne⟩ := waits_iff.1 hw
  obtain ⟨σ, hσ⟩ := Machine.Run.trail h
  obtain ⟨τ, hf, hent⟩ := Machine.Trail.history (K := Replies env) (I := Task.InsertsNext lt)
    (J := fun p _ τ _ => Entered p τ) (fun hx => ⟨_, _, _, _, _, hx⟩) (free_taskProgram ho)
    (fun hr hn => Reachable.entered_spawn hr.run hn) (fun _ _ _ hx _ hj => hj.step hx)
    (fun hr hn ha _ hj => Reachable.entered_other hr.run hn ha hj) hσ _ _ _ hp
  refine ⟨code, he, fun l hl => ?_⟩
  rcases hf.1 s rfl code hcode l (hent l hl) with rfl | hlt
  · rw [he] at hl
    exact absurd (Option.some.inj hl) hne
  · exact hlt

/-- Where every chunk of every workbook lists the codes it can insert in one order, no chunk
transactions wait for each other in a cycle, and every chain of waits ends at a transaction that
does not wait. -/
theorem chunk_waits_end [IsStrictOrder String lt] (ho : env.ListsInOrder lt)
    (h : Reachable env c) : (∀ p, ¬ TransGen (State.Waits c) p p) ∧
      ∀ p, ∃ q, ReflTransGen (State.Waits c) p q ∧ State.waitsFor c q = none := by
  have hacyclic : ∀ p, ¬ TransGen (State.Waits c) p p :=
    acyclic_of_order fun _ _ hw => h.waits_after ho hw
  have hfin : {p | ∃ q, State.Waits c p q}.Finite := by
    refine (Set.finite_lt_nat c.procs.length).subset fun p ⟨q, hw⟩ => ?_
    obtain ⟨m, hostname, s, k, code, hp, -⟩ := waits_iff.1 hw
    exact Outline.proc_lt hp
  refine ⟨hacyclic, fun p => ?_⟩
  obtain ⟨q, hq, hend⟩ := exists_not_waiting hfin hacyclic p
  exact ⟨q, hq, Option.eq_none_iff_forall_not_mem.2 hend⟩

end

/-! ## Two workers -/

/-- Processes 0 and 1 create the imports 0 and 2, process 2 dispatches them, and the workers 3 and 4
make `n` and `m` statements each. -/
def twoWorkers (n m : Nat) : List Event :=
  .spawn (.createImport (exampleRequest fingerprintA)) :: statements 0 7 ++
    .spawn (.createImport (exampleRequest fingerprintB)) :: statements 1 7 ++
    .spawn .publishDueEvents :: statements 2 14 ++
    .spawn (.processImport ⟨0, 0⟩ none) :: .spawn (.processImport ⟨2, 0⟩ none) ::
    statements 3 n ++ statements 4 m

/-- One workbook lists two codes in one order, the other in the opposite one. -/
def oppositeEnv : Env := exampleEnv fun path =>
  if path = "a" then [exampleRow "S-1", exampleRow "S-2"] else [exampleRow "S-2", exampleRow "S-1"]

set_option maxRecDepth 100000 in
/-- Two workers with such workbooks wait for each other, and neither can go on. -/
theorem opposite_orders_deadlock : ∃ c, Reachable oppositeEnv c ∧
    TransGen (State.Waits c) 3 3 ∧ (service oppositeEnv).next c (.step 3 .run) = none ∧
    (service oppositeEnv).next c (.step 4 .run) = none := by
  obtain ⟨c, hc, h3, h4⟩ : ∃ c,
      (service oppositeEnv).trace State.initial (twoWorkers 12 12) = some c ∧
      State.waitsFor c 3 = some 4 ∧ State.waitsFor c 4 = some 3 := exists_trace (by decide +kernel)
  exact ⟨c, Machine.run_of_trace _ hc, .tail (.single h3) h4, next_of_waits h3, next_of_waits h4⟩

/-- Both workbooks list two codes in one order. -/
def agreeingEnv : Env := exampleEnv fun _ => [exampleRow "S-1", exampleRow "S-2"]

theorem agreeingEnv_listsInOrder : agreeingEnv.ListsInOrder (· < ·) := by
  intro path worksheet chunks hw hc
  cases hw
  have : ChunksInOrder agreeingEnv.adapters (· < ·) []
      ((XlsxParser.iterChunks agreeingEnv.settings.processingRowChunkSize.1
        (exampleWorksheet [exampleRow "S-1", exampleRow "S-2"])).toOption.getD []) := by
    decide +kernel
  rw [hc] at this
  exact this

set_option maxRecDepth 100000 in
/-- There one worker waits for the other, which does not wait. -/
theorem agreeing_orders_wait : ∃ c, Reachable agreeingEnv c ∧ State.Waits c 4 3 ∧
    (∀ p, ¬ TransGen (State.Waits c) p p) ∧
      ∀ p, ∃ q, ReflTransGen (State.Waits c) p q ∧ State.waitsFor c q = none := by
  obtain ⟨c, hc, h⟩ : ∃ c,
      (service agreeingEnv).trace State.initial (twoWorkers 12 11) = some c ∧
      State.waitsFor c 4 = some 3 := exists_trace (by decide +kernel)
  have hr : Reachable agreeingEnv c := Machine.run_of_trace _ hc
  exact ⟨c, hr, h, chunk_waits_end agreeingEnv_listsInOrder hr⟩

end ShipmentImport

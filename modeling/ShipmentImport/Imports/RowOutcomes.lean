import ShipmentImport.Imports.OnePass

/-!
# What becomes of each row

The definition of validation row by row: a row is accepted when it has no field issue, no earlier
row of the file has its code, and the database does not have it (`Acceptable`); otherwise it is
rejected for `outcomeIssues`. However the rows are cut into chunks, the chunks together accept the
rows and report the errors of this definition, in order (`chunks_outcomes`).
-/

namespace ShipmentImport

open List

section
variable (database : List String)

/-- The row `p`, which comes after the rows `earlier`, is to become a shipment. -/
def Acceptable (earlier : List PreparedRow) (p : PreparedRow) : Prop :=
  p.issues = [] ∧ ∀ code, p.shipmentCode = some code →
    (∀ q ∈ earlier, q.shipmentCode ≠ some code) ∧ code ∉ database

/-- What a row is rejected for: its field issues, and one issue about its code if an earlier row of
the file has it, or else if the database has it. -/
def outcomeIssues (earlier : List PreparedRow) (p : PreparedRow) : List ValidationIssue :=
  p.issues ++ match p.shipmentCode with
    | none => []
    | some code =>
      if ∃ q ∈ earlier, q.shipmentCode = some code then [inFileIssue]
      else if code ∈ database then [databaseIssue]
      else []

/-- A row is acceptable when there is nothing to reject it for. -/
theorem acceptable_iff (earlier : List PreparedRow) (p : PreparedRow) :
    Acceptable database earlier p ↔ outcomeIssues database earlier p = [] := by
  unfold Acceptable outcomeIssues
  rw [List.append_eq_nil_iff]
  refine and_congr_right fun _ => ?_
  cases p.shipmentCode with
  | none => simp
  | some code =>
    simp only [Option.some.injEq, forall_eq']
    split
    · next h =>
      obtain ⟨q, hq, hc⟩ := h
      simp only [List.cons_ne_self, iff_false, not_and]
      exact fun hall => absurd hc (hall q hq)
    · next h =>
      split
      · next hd => simp [hd]
      · next hd => exact ⟨fun _ => rfl, fun _ => ⟨fun q hq hc => h ⟨q, hq, hc⟩, hd⟩⟩

variable (importId : ImportId)

/-- The shipment an accepted row becomes. -/
def acceptedRow (earlier : List PreparedRow) (p : PreparedRow) : List ValidatedShipmentRow :=
  if outcomeIssues database earlier p = [] then
    p.parsedRow.toList.map fun r => ⟨r.toShipment importId, p.number, p.row.values⟩
  else []

/-- The errors of a row: none if it is accepted. -/
def rejectedRow (earlier : List PreparedRow) (p : PreparedRow) : List ImportErrorRow :=
  buildImportErrors importId p.number p.row.values (outcomeIssues database earlier p)

end

/-- `f` of every row and the rows before it, in order. -/
def eachRow {β : Type} (f : List PreparedRow → PreparedRow → List β) :
    List PreparedRow → List PreparedRow → List β
  | _, [] => []
  | earlier, p :: rest => f earlier p ++ eachRow f (earlier ++ [p]) rest

theorem eachRow_append {β : Type} (f : List PreparedRow → PreparedRow → List β)
    (earlier a b : List PreparedRow) :
    eachRow f earlier (a ++ b) = eachRow f earlier a ++ eachRow f (earlier ++ a) b := by
  induction a generalizing earlier with
  | nil => simp [eachRow]
  | cons p a ih => simp [eachRow, ih, List.append_assoc]

section
variable {importId : ImportId} {database : List String}

/-- The codes seen by one pass are those of its rows. -/
theorem onePass_codes (prepared : List PreparedRow) (code : String) :
    code ∈ (onePass importId database prepared).chunkSeenCodes ↔
      ∃ q ∈ prepared, q.shipmentCode = some code := by
  induction prepared using List.reverseRecOn with
  | nil => simp [onePass]
  | append_singleton prepared p ih =>
    have hstep : (onePass importId database (prepared ++ [p])).chunkSeenCodes =
        p.shipmentCode.toList ++ (onePass importId database prepared).chunkSeenCodes := by
      rw [onePass, List.foldl_append]
      show (classifyRow importId [] database (onePass importId database prepared) p).chunkSeenCodes
        = _
      simp only [classifyRow]
      split <;> rfl
    rw [hstep, List.mem_append, ih]
    simp only [Option.mem_toList, List.mem_append, List.mem_singleton]
    constructor
    · rintro (h | ⟨q, hq, hc⟩)
      · exact ⟨p, .inr rfl, h⟩
      · exact ⟨q, .inl hq, hc⟩
    · rintro ⟨q, hq | rfl, hc⟩
      · exact .inr ⟨q, hq, hc⟩
      · exact .inl hc

/-- What the loop of one pass finds about a row is what the definition says. -/
theorem outcomeIssues_eq (importId : ImportId) (earlier : List PreparedRow) (p : PreparedRow) :
    p.issues ++ duplicateIssues [] database (onePass importId database earlier).chunkSeenCodes
      p.shipmentCode = outcomeIssues database earlier p := by
  unfold outcomeIssues
  cases p.shipmentCode with
  | none => rfl
  | some code =>
    simp only [duplicateIssues, List.not_mem_nil, false_or, onePass_codes]

/-- One pass, row by row. -/
theorem onePass_eachRow (prepared : List PreparedRow) :
    (onePass importId database prepared).validRows =
        eachRow (acceptedRow database importId) [] prepared ∧
      (onePass importId database prepared).importErrors =
        eachRow (rejectedRow database importId) [] prepared := by
  induction prepared using List.reverseRecOn with
  | nil => exact ⟨rfl, rfl⟩
  | append_singleton prepared p ih =>
    obtain ⟨h1, h2⟩ := ih
    have hstep : onePass importId database (prepared ++ [p]) =
        classifyRow importId [] database (onePass importId database prepared) p :=
      List.foldl_append
    rw [hstep, eachRow_append, eachRow_append, ← h1, ← h2]
    simp only [eachRow, List.nil_append, List.append_nil, acceptedRow, rejectedRow,
      ← outcomeIssues_eq importId]
    unfold classifyRow
    simp only
    split
    · next h =>
      have hs := (p.parsed (List.append_eq_nil_iff.1 h).1)
      obtain ⟨r, hr⟩ := Option.isSome_iff_exists.1 hs
      simp [h, hr, buildImportErrors]
    · next h => simp

/-- A row is accepted as the shipment it was parsed to, without an error, when it is acceptable;
otherwise it is no shipment and has errors. -/
theorem outcome_cases (earlier : List PreparedRow) (p : PreparedRow) :
    (Acceptable database earlier p → ∃ r, p.parsedRow = some r ∧
        acceptedRow database importId earlier p =
          [⟨r.toShipment importId, p.number, p.row.values⟩] ∧
        rejectedRow database importId earlier p = []) ∧
      (¬ Acceptable database earlier p → acceptedRow database importId earlier p = [] ∧
        rejectedRow database importId earlier p ≠ []) := by
  rw [acceptable_iff]
  constructor
  · intro h
    have hissues : p.issues = [] := (List.append_eq_nil_iff.1 h).1
    obtain ⟨r, hr⟩ := Option.isSome_iff_exists.1 (p.parsed hissues)
    exact ⟨r, hr, by simp [acceptedRow, h, hr], by simp [rejectedRow, h, buildImportErrors]⟩
  · intro h
    exact ⟨if_neg h, by simpa [rejectedRow, buildImportErrors] using h⟩

/-! ## Chunk by chunk -/

/-- A lookup of the unseen codes decides a row of the chunk as a lookup of all its codes does. -/
theorem duplicateIssues_unseen {prepared : List PreparedRow} {tracker : DuplicateTracker}
    {p : PreparedRow} (hp : p ∈ prepared) (chunkSeen : List String) :
    duplicateIssues tracker.seenShipmentCodes
        (lookupIn database (tracker.unseenCodes (chunkCodes prepared))) chunkSeen p.shipmentCode =
      duplicateIssues tracker.seenShipmentCodes (lookupIn database (chunkCodes prepared)) chunkSeen
        p.shipmentCode := by
  cases hc : p.shipmentCode with
  | none => rfl
  | some code =>
    simp only [duplicateIssues]
    by_cases hs : code ∈ tracker.seenShipmentCodes
    · simp [hs]
    · have hall : code ∈ lookupIn database (chunkCodes prepared) ↔ code ∈ database := by
        simp [lookupIn, mem_chunkCodes hp hc]
      simp only [mem_lookupIn_unseen hp hc hs, hall]

theorem classifyChunk_unseen (prepared : List PreparedRow) (tracker : DuplicateTracker) :
    classifyChunk importId prepared tracker
        (lookupIn database (tracker.unseenCodes (chunkCodes prepared))) =
      classifyChunk importId prepared tracker (lookupIn database (chunkCodes prepared)) := by
  have hfold : prepared.foldl (classifyRow importId tracker.seenShipmentCodes
      (lookupIn database (tracker.unseenCodes (chunkCodes prepared)))) {} =
      prepared.foldl (classifyRow importId tracker.seenShipmentCodes
        (lookupIn database (chunkCodes prepared))) {} := by
    refine List.foldl_ext _ _ _ fun st p hp => ?_
    unfold classifyRow
    simp only [duplicateIssues_unseen hp]
  simp only [classifyChunk, hfold]

/-- The chunks after the rows `done`. -/
theorem iterValidatedChunks_eachRow {A : Adapters} {chunks : List (List ParsedWorkbookRow)} :
    ∀ {done : List PreparedRow} {tracker : DuplicateTracker},
      tracker.seenShipmentCodes = (onePass importId database done).chunkSeenCodes →
      (iterValidatedChunks importId A database tracker chunks).flatMap (·.validRows) =
          eachRow (acceptedRow database importId) done (chunks.flatten.map (prepareRow A)) ∧
        (iterValidatedChunks importId A database tracker chunks).flatMap (·.importErrors) =
          eachRow (rejectedRow database importId) done (chunks.flatten.map (prepareRow A)) := by
  induction chunks with
  | nil => exact fun _ => ⟨rfl, rfl⟩
  | cons chunk chunks ih =>
    intro done tracker ht
    obtain ⟨hadd, hnext⟩ := classifyChunk_onePass (chunk.map (prepareRow A)) ht
    obtain ⟨ih1, ih2⟩ := ih hnext
    -- what the chunk adds to the rows and errors of the rows before it
    have hvalid := congrArg ValidationChunkResult.validRows hadd
    have herrors := congrArg ValidationChunkResult.importErrors hadd
    simp only [ValidationChunkResult.add, ValidationChunkResult.ofState, (onePass_eachRow _).1,
      eachRow_append, List.nil_append] at hvalid
    simp only [ValidationChunkResult.add, ValidationChunkResult.ofState, (onePass_eachRow _).2,
      eachRow_append, List.nil_append] at herrors
    simp only [iterValidatedChunks, List.flatMap_cons, ih1, ih2, List.flatten_cons, List.map_append,
      eachRow_append, List.append_cancel_left hvalid, List.append_cancel_left herrors, and_self]

/-- The shipments of a result are those of its valid rows. -/
theorem iterValidatedChunks_shipments {A : Adapters} {chunks : List (List ParsedWorkbookRow)}
    {tracker : DuplicateTracker} :
    (iterValidatedChunks importId A database tracker chunks).flatMap (·.shipments) =
      ((iterValidatedChunks importId A database tracker chunks).flatMap (·.validRows)).map
        (·.shipment) := by
  induction chunks generalizing tracker with
  | nil => rfl
  | cons chunk chunks ih =>
    have hcoded : ∀ p ∈ chunk.map (prepareRow A), p.Coded := by
      intro p hp
      obtain ⟨row, -, rfl⟩ := List.mem_map.1 hp
      exact prepareRow_coded A row
    have hfresh : ((chunk.map (prepareRow A)).foldl (classifyRow importId tracker.seenShipmentCodes
        (lookupIn database (tracker.unseenCodes (chunkCodes (chunk.map (prepareRow A)))))) {}).Fresh
        _ _ := fresh_foldl hcoded (fresh_empty _ _)
    simp only [iterValidatedChunks, List.flatMap_cons, List.map_append, ih]
    exact congrArg (· ++ _) hfresh.shipments

end

/-- Whatever the chunks, the rows of the file become shipments and errors as the definition says,
and looking up only the codes not seen yet decides each chunk as looking up all of its codes. -/
theorem chunks_outcomes (A : Adapters) (importId : ImportId) (database : List String)
    (chunks : List (List ParsedWorkbookRow)) :
    (iterValidatedChunks importId A database {} chunks).flatMap (·.validRows) =
        eachRow (acceptedRow database importId) [] (chunks.flatten.map (prepareRow A)) ∧
      (iterValidatedChunks importId A database {} chunks).flatMap (·.shipments) =
        (eachRow (acceptedRow database importId) [] (chunks.flatten.map (prepareRow A))).map
          (·.shipment) ∧
      (iterValidatedChunks importId A database {} chunks).flatMap (·.importErrors) =
        eachRow (rejectedRow database importId) [] (chunks.flatten.map (prepareRow A)) ∧
      (∀ earlier p,
        (Acceptable database earlier p → ∃ r, p.parsedRow = some r ∧
          acceptedRow database importId earlier p =
            [⟨r.toShipment importId, p.number, p.row.values⟩] ∧
          rejectedRow database importId earlier p = []) ∧
        (¬ Acceptable database earlier p → acceptedRow database importId earlier p = [] ∧
          rejectedRow database importId earlier p ≠ [])) ∧
      ∀ prepared tracker, classifyChunk importId prepared tracker
          (lookupIn database (tracker.unseenCodes (chunkCodes prepared))) =
        classifyChunk importId prepared tracker (lookupIn database (chunkCodes prepared)) := by
  have hvalid : (iterValidatedChunks importId A database {} chunks).flatMap (·.validRows) =
      eachRow (acceptedRow database importId) [] (chunks.flatten.map (prepareRow A)) :=
    (iterValidatedChunks_eachRow rfl).1
  refine ⟨hvalid, ?_, (iterValidatedChunks_eachRow rfl).2,
    fun earlier p => outcome_cases earlier p,
    fun prepared tracker => classifyChunk_unseen prepared tracker⟩
  rw [iterValidatedChunks_shipments, hvalid]

end ShipmentImport

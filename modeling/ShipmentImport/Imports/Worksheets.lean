import Mathlib.Data.List.Basic
import ShipmentImport.Imports.XlsxParser

/-!
# What the parser reads from a worksheet

`iter_chunks` cuts the rows that are not blank into chunks without losing, repeating or renumbering
one, whatever the chunk size. Which rows these are depends on the columns of the worksheet, but
neither on their order nor on columns the import does not know.
-/

namespace ShipmentImport

namespace XlsxParser

/-! ## The rows that are not blank -/

/-- Empty in every field the import knows. -/
def blank (row : ParsedWorkbookRow) : Bool := row.values.all fun x => x.2.isNone

/-- The rows of a sheet with their numbers, the first of them `n`, normalised. -/
def numberedRows (headers : List (PyValue × Nat)) (n : Nat) (rows : List (List PyValue)) :
    List ParsedWorkbookRow :=
  (rows.zipIdx n).map fun x => ⟨x.2, normalizeRow x.1 headers⟩

theorem iterDataRows_eq (headers : List (PyValue × Nat)) (n : Nat) (rows : List (List PyValue)) :
    iterDataRows headers n rows = (numberedRows headers n rows).filter fun r => !blank r := by
  induction rows generalizing n with
  | nil => rfl
  | cons row rows ih =>
    have hc : numberedRows headers n (row :: rows) =
        ⟨n, normalizeRow row headers⟩ :: numberedRows headers (n + 1) rows := rfl
    rw [iterDataRows, hc, List.filter_cons, ih]
    by_cases hb : (normalizeRow row headers).all fun x => x.2.isNone
    · simp [hb, blank]
    · simp [hb, blank]

/-! ## The chunks -/

/-- Chunks of at most `n` rows, none of them empty, and all but the last full. -/
structure Cut (n : Nat) (chunks : List (List ParsedWorkbookRow)) : Prop where
  nonempty : ∀ chunk ∈ chunks, chunk ≠ []
  bounded : ∀ chunk ∈ chunks, chunk.length ≤ n
  full : ∀ chunk ∈ chunks.dropLast, chunk.length = n

theorem Cut.nil (n : Nat) : Cut n [] := ⟨by simp, by simp, by simp⟩

theorem Cut.single {n : Nat} {rows : List ParsedWorkbookRow} (h : rows ≠ []) (hn : rows.length ≤ n) :
    Cut n [rows] :=
  ⟨by simpa using h, by simpa using hn, by simp⟩

theorem Cut.cons {n : Nat} {rows : List ParsedWorkbookRow} {chunks : List (List ParsedWorkbookRow)}
    (hn : 1 ≤ n) (h : rows.length = n) (hc : Cut n chunks) : Cut n (rows :: chunks) := by
  have hne : rows ≠ [] := by
    rintro rfl
    simp at h
    omega
  refine ⟨?_, ?_, ?_⟩
  · intro chunk hm
    rcases List.mem_cons.1 hm with rfl | hm
    · exact hne
    · exact hc.nonempty chunk hm
  · intro chunk hm
    rcases List.mem_cons.1 hm with rfl | hm
    · exact h.le
    · exact hc.bounded chunk hm
  · intro chunk hm
    cases chunks with
    | nil => simp at hm
    | cons c cs =>
      rw [List.dropLast_cons_cons] at hm
      rcases List.mem_cons.1 hm with rfl | hm
      · exact h
      · exact hc.full chunk hm

/-- The chunk being collected is shorter than the chunk size, so it is full when it is yielded. -/
theorem cut_chunksFrom {n : Nat} (hn : 1 ≤ n) (rest rows : List ParsedWorkbookRow)
    (h : rows.length < n) : Cut n (chunksFrom n rest rows) := by
  induction rest generalizing rows with
  | nil =>
    unfold chunksFrom
    split
    · exact Cut.nil n
    · next hne => exact Cut.single hne h.le
  | cons row rest ih =>
    have hl : (rows ++ [row]).length = rows.length + 1 := by simp
    unfold chunksFrom
    split
    · next hf => exact Cut.cons hn (by omega) (ih [] (by simp; omega))
    · next hf => exact ih _ (by omega)

/-- The chunks of a worksheet with a valid header row: together the rows that are not blank, in
sheet order and under their own numbers, whatever the chunk size. -/
theorem chunks_partition (worksheet : Worksheet) (headers : List (PyValue × Nat))
    (h : parseHeaders worksheet = .ok headers) (n : Nat) (hn : 1 ≤ n) :
    ∃ chunks, iterChunks n worksheet = .ok chunks ∧
      chunks.flatten = (numberedRows headers 2 worksheet.rows).filter (fun r => !blank r) ∧
      (chunks.flatten.map (·.rowNumber)).Pairwise (· < ·) ∧
      Cut n chunks ∧
      ∀ m ≥ 1, ∃ chunks', iterChunks m worksheet = .ok chunks' ∧
        chunks'.flatten = chunks.flatten := by
  have hd : dataRows worksheet = .ok (iterDataRows headers 2 worksheet.rows) := by
    rw [dataRows, h]
    rfl
  have hc : ∀ m, iterChunks m worksheet =
      .ok (chunksFrom m (iterDataRows headers 2 worksheet.rows) []) := by
    intro m
    rw [iterChunks, hd]
    rfl
  refine ⟨_, hc n, ?_, ?_, cut_chunksFrom hn _ [] (by simp; omega), ?_⟩
  · rw [flatten_chunksFrom, List.nil_append, iterDataRows_eq]
  · rw [flatten_chunksFrom, List.nil_append]
    exact dataRows_rowNumbers hd
  · intro m _
    exact ⟨_, hc m, by rw [flatten_chunksFrom, flatten_chunksFrom]⟩

/-! ## The header row -/

/-- The normalised headers that are not blank. -/
def names (headerValues : List PyValue) : List PyValue :=
  (headerValues.map normalizeText).filter fun v => !v.isNone

/-- No header occurs twice. -/
def Distinct (headers : List PyValue) : Prop := headers.Pairwise fun a b => a.eq b = false

theorem eq_comm (a b : PyValue) : a.eq b = b.eq a := by
  rcases a with _ | _ | _ | (_ | _ | _ | _) | _ | _ | _ | _ | _ | _ | _ | _ | _ | _ | _ <;>
    rcases b with _ | _ | _ | (_ | _ | _ | _) | _ | _ | _ | _ | _ | _ | _ | _ | _ | _ | _ <;>
    first
      | exact Bool.beq_comm
      | exact congrArg₂ and Bool.beq_comm Bool.beq_comm
      | rfl

theorem eq_str_iff {a : PyValue} {s : String} : a.eq (.str s) = true ↔ a = .str s := by
  cases a
  case str t => simp
  case float x => cases x <;> simp [PyValue.eq, PyValue.number?]
  all_goals simp [PyValue.eq, PyValue.number?]

/-- The headers with the numbers of their columns, from column `index` on. -/
def namedColumns (headerValues : List PyValue) (index : Nat) : List (PyValue × Nat) :=
  ((headerValues.map normalizeText).zipIdx index).filter fun x => !x.1.isNone

theorem names_cons (v : PyValue) (vs : List PyValue) : names (v :: vs) =
    if (normalizeText v).isNone then names vs else normalizeText v :: names vs := by
  simp only [names, List.map_cons, List.filter_cons]
  cases (normalizeText v).isNone <;> rfl

theorem namedColumns_cons (v : PyValue) (vs : List PyValue) (index : Nat) :
    namedColumns (v :: vs) index =
      if (normalizeText v).isNone then namedColumns vs (index + 1)
      else (normalizeText v, index) :: namedColumns vs (index + 1) := by
  simp only [namedColumns, List.map_cons, List.zipIdx_cons, List.filter_cons]
  cases (normalizeText v).isNone <;> rfl

/-- The loop over the header row, from the headers found so far. -/
theorem normalizeHeaders_ok {values : List PyValue} {index : Nat}
    {found headers : List (PyValue × Nat)} :
    normalizeHeaders values index found = .ok headers ↔
      headers = found ++ namedColumns values index ∧ Distinct (names values) ∧
        ∀ a ∈ found, ∀ b ∈ names values, a.1.eq b = false := by
  induction values generalizing index found with
  | nil =>
    have : namedColumns [] index = [] := rfl
    simp only [normalizeHeaders, this, List.append_nil, Except.ok.injEq]
    exact ⟨fun h => ⟨h.symm, List.Pairwise.nil, fun _ _ _ h => nomatch h⟩, fun h => h.1.symm⟩
  | cons v vs ih =>
    rw [normalizeHeaders, namedColumns_cons, names_cons]
    by_cases hb : (normalizeText v).isNone
    · simp only [hb, if_true]
      exact ih
    simp only [hb, Bool.false_eq_true, if_false]
    by_cases hd : found.any fun h => h.1.eq (normalizeText v)
    · rw [if_pos hd]
      obtain ⟨a, ha, he⟩ := List.any_eq_true.1 hd
      refine ⟨fun h => (nomatch h), fun ⟨_, _, h⟩ => ?_⟩
      have := h a ha _ List.mem_cons_self
      rw [he] at this
      cases this
    · rw [if_neg hd, ih, List.append_assoc, List.singleton_append, Distinct, Distinct,
        List.pairwise_cons]
      have hd : ∀ a ∈ found, a.1.eq (normalizeText v) = false := by simpa using hd
      constructor
      · rintro ⟨rfl, hp, hf⟩
        refine ⟨rfl, ⟨fun b hb => hf (normalizeText v, index) (by simp) b hb, hp⟩, ?_⟩
        intro a ha b hb
        rcases List.mem_cons.1 hb with rfl | hb
        · exact hd a ha
        · exact hf a (List.mem_append_left _ ha) b hb
      · rintro ⟨rfl, ⟨hv, hp⟩, hf⟩
        refine ⟨rfl, hp, fun a ha b hb => ?_⟩
        rcases List.mem_append.1 ha with ha | ha
        · exact hf a ha b (List.mem_cons_of_mem _ hb)
        · rw [List.mem_singleton.1 ha]
          exact hv b hb

theorem mem_names {f : String} {headerValues : List PyValue} :
    .str f ∈ names headerValues ↔ .str f ∈ headerValues.map normalizeText := by
  simp [names, PyValue.isNone]

/-- The column of a field is the first one headed by it. -/
theorem headerIndex_namedColumns (headerValues : List PyValue) (index n : Nat) (field : String)
    (hn : headerValues.length ≤ n) :
    headerIndex (namedColumns headerValues index) field =
      ((List.range n).find? fun j =>
        (normalizeText (headerValues.getD j .none)).eq (.str field)).map (· + index) := by
  induction headerValues generalizing index n with
  | nil =>
    have : (List.range n).find? (fun j => (normalizeText (([] : List PyValue).getD j .none)).eq
        (.str field)) = none := by
      simp [normalizeText, PyValue.eq, PyValue.number?]
    rw [this]
    rfl
  | cons v vs ih =>
    obtain ⟨m, rfl⟩ : ∃ m, n = m + 1 := ⟨n - 1, by simp at hn; omega⟩
    have hm : vs.length ≤ m := by simpa using hn
    have hs : ∀ o : Option Nat, (o.map (· + 1)).map (· + index) = o.map (· + (index + 1)) := by
      intro o
      cases o with
      | none => rfl
      | some j =>
        show some (j + 1 + index) = some (j + (index + 1))
        rw [Nat.add_assoc, Nat.add_comm 1]
    have htail : ((List.range m).map (· + 1)).find? (fun j =>
        (normalizeText ((v :: vs).getD j .none)).eq (.str field)) =
        ((List.range m).find? fun j =>
          (normalizeText (vs.getD j .none)).eq (.str field)).map (· + 1) := List.find?_map
    rw [namedColumns_cons, List.range_succ_eq_map, List.find?_cons, List.getD_cons_zero, htail]
    cases hv : (normalizeText v).eq (.str field) with
    | true =>
      rw [eq_str_iff.1 hv]
      simp [headerIndex, PyValue.isNone]
    | false =>
      dsimp only
      rw [hs, ← ih (index + 1) m hm]
      split
      · rfl
      · simp [headerIndex, hv]

theorem map_namedColumns (headerValues : List PyValue) (index : Nat) :
    (namedColumns headerValues index).map (·.1) = names headerValues := by
  induction headerValues generalizing index with
  | nil => rfl
  | cons v vs ih =>
    rw [namedColumns_cons, names_cons]
    split
    · exact ih _
    · rw [List.map_cons, ih]

theorem headerIndex_eq_none {headerValues : List PyValue} {field : String} :
    headerIndex (namedColumns headerValues 0) field = none ↔ .str field ∉ names headerValues := by
  rw [← map_namedColumns headerValues 0, headerIndex, Option.map_eq_none_iff, List.find?_eq_none]
  simp only [eq_str_iff]
  constructor
  · intro h hm
    obtain ⟨x, hx, he⟩ := List.mem_map.1 hm
    exact h x hx he
  · intro h x hx he
    exact h (he ▸ List.mem_map_of_mem hx)

/-- Parsing the header row succeeds exactly when there is one, every required header is in it and
none occurs twice. -/
theorem parseHeaders_ok {worksheet : Worksheet} {headers : List (PyValue × Nat)} :
    parseHeaders worksheet = .ok headers ↔ ∃ headerValues, worksheet.header = some headerValues ∧
      headers = namedColumns headerValues 0 ∧ Distinct (names headerValues) ∧
      ∀ field ∈ requiredWorkbookHeaders, .str field ∈ headerValues.map normalizeText := by
  unfold parseHeaders
  cases worksheet.header with
  | none => simp
  | some headerValues =>
    simp only [Option.some.injEq, exists_eq_left']
    cases hn : normalizeHeaders headerValues 0 [] with
    | error message =>
      refine ⟨fun h => (nomatch h), fun ⟨_, hd, _⟩ => ?_⟩
      have hok : normalizeHeaders headerValues 0 [] = .ok _ :=
        normalizeHeaders_ok.2 ⟨rfl, hd, by simp⟩
      rw [hn] at hok
      cases hok
    | ok found =>
      obtain ⟨rfl, hd, -⟩ := normalizeHeaders_ok.1 hn
      have hmiss : (requiredWorkbookHeaders.filter fun field =>
          (headerIndex ([] ++ namedColumns headerValues 0) field).isNone) = [] ↔
          ∀ field ∈ requiredWorkbookHeaders, .str field ∈ headerValues.map normalizeText := by
        rw [List.filter_eq_nil_iff]
        simp only [List.nil_append, Option.isNone_iff_eq_none, headerIndex_eq_none, mem_names,
          not_not]
      dsimp only
      split
      · next hf =>
        constructor
        · rintro ⟨⟩
          exact ⟨rfl, hd, hmiss.1 hf⟩
        · rintro ⟨rfl, -, -⟩
          rfl
      · next hf =>
        refine ⟨fun h => (nomatch h), fun ⟨_, _, h⟩ => ?_⟩
        exact absurd (hmiss.2 h) hf

/-! ## Columns -/

/-- A column of a worksheet: its header and its cells, where a short row has an empty one. -/
def column (worksheet : Worksheet) (j : Nat) : PyValue × List PyValue :=
  ((worksheet.header.getD []).getD j .none, worksheet.rows.map fun row => row.getD j .none)

/-- Its first `n` columns. -/
def columns (worksheet : Worksheet) (n : Nat) : List (PyValue × List PyValue) :=
  (List.range n).map (column worksheet)

/-- All cells are in the first `n` columns. -/
def Within (worksheet : Worksheet) (n : Nat) : Prop :=
  (worksheet.header.getD []).length ≤ n ∧ ∀ row ∈ worksheet.rows, row.length ≤ n

/-- The cells under the first header that is the name of the field. -/
def cellsOf (cols : List (PyValue × List PyValue)) (field : String) : Option (List PyValue) :=
  (cols.find? fun c => (normalizeText c.1).eq (.str field)).map (·.2)

/-- Empty cells at the end of the header row name nothing. -/
theorem names_padded (headerValues : List PyValue) (n : Nat) (hn : headerValues.length ≤ n) :
    names ((List.range n).map fun j => headerValues.getD j .none) = names headerValues := by
  induction headerValues generalizing n with
  | nil => simp [names, normalizeText, PyValue.isNone]
  | cons v vs ih =>
    obtain ⟨m, rfl⟩ : ∃ m, n = m + 1 := ⟨n - 1, by simp at hn; omega⟩
    have hm : vs.length ≤ m := by simpa using hn
    have htail : (((List.range m).map (· + 1)).map fun j => (v :: vs).getD j .none) =
        (List.range m).map fun j => vs.getD j .none := List.map_map
    rw [List.range_succ_eq_map, List.map_cons, htail, names_cons, names_cons, ih m hm,
      List.getD_cons_zero]

theorem names_columns {worksheet : Worksheet} {n : Nat} (h : Within worksheet n) :
    names ((columns worksheet n).map (·.1)) = names (worksheet.header.getD []) := by
  rw [← names_padded _ n h.1, columns, List.map_map]
  rfl

theorem cellsOf_columns {worksheet : Worksheet} {n : Nat} (h : Within worksheet n)
    (field : String) : cellsOf (columns worksheet n) field =
      (headerIndex (namedColumns (worksheet.header.getD []) 0) field).map fun j =>
        worksheet.rows.map fun row => row.getD j .none := by
  rw [headerIndex_namedColumns _ 0 n field h.1, cellsOf, columns, List.find?_map, Option.map_map,
    Option.map_map]
  rfl

/-- A normalised row, read off the columns. -/
def rowOf (cols : List (PyValue × List PyValue)) (i : Nat) : PyDict :=
  workbookRowFields.map fun field => (field,
    match cellsOf cols field with
    | none => .none
    | some cells => normalizeText (cells.getD i .none))

theorem normalizeRow_eq {worksheet : Worksheet} {n : Nat} (h : Within worksheet n) {i : Nat}
    {row : List PyValue} (hi : worksheet.rows[i]? = some row) :
    normalizeRow row (namedColumns (worksheet.header.getD []) 0) =
      rowOf (columns worksheet n) i := by
  refine List.map_congr_left fun field _ => ?_
  rw [cellsOf_columns h]
  cases headerIndex (namedColumns (worksheet.header.getD []) 0) field with
  | none => rfl
  | some j => simp [hi]

/-- The rows of a worksheet depend on its columns alone. -/
theorem numberedRows_eq {worksheet : Worksheet} {n : Nat} (h : Within worksheet n) :
    numberedRows (namedColumns (worksheet.header.getD []) 0) 2 worksheet.rows =
      (List.range worksheet.rows.length).map fun i => ⟨i + 2, rowOf (columns worksheet n) i⟩ := by
  refine List.ext_getElem? fun i => ?_
  rw [numberedRows, List.getElem?_map, List.getElem?_map, List.getElem?_zipIdx]
  cases hi : worksheet.rows[i]? with
  | none =>
    have := List.getElem?_eq_none_iff.1 hi
    simp [this]
  | some row =>
    obtain ⟨hlt, -⟩ := List.getElem?_eq_some_iff.1 hi
    rw [Option.map_some, Option.map_some, normalizeRow_eq h hi, List.getElem?_range hlt,
      Option.map_some, Nat.add_comm]

/-! ## Rearranged columns -/

/-- The columns of one worksheet, in some order and among further ones, are those of another. -/
structure Rearranged (worksheet : Worksheet) (extra : List (PyValue × List PyValue))
    (worksheet' : Worksheet) : Prop where
  header : worksheet'.header.isSome = worksheet.header.isSome
  rows : worksheet'.rows.length = worksheet.rows.length
  columns : ∃ n n', Within worksheet n ∧ Within worksheet' n' ∧
    (columns worksheet' n').Perm (columns worksheet n ++ extra)

/-- Columns the import does not know: their headers are blank, or different from each other, from
the other headers of the worksheet and from the names of the fields. -/
structure Unknown (worksheet : Worksheet) (extra : List (PyValue × List PyValue)) : Prop where
  distinct : Distinct (names (extra.map (·.1)))
  headers : ∀ a ∈ names (worksheet.header.getD []), ∀ b ∈ names (extra.map (·.1)), a.eq b = false
  fields : ∀ field ∈ workbookRowFields, .str field ∉ names (extra.map (·.1))

/-- A search that at most one element answers does not depend on the order. -/
theorem find?_perm {α : Type} {l l' : List α} {p : α → Bool} (h : l.Perm l')
    (hp : (l.filter p).length ≤ 1) : l.find? p = l'.find? p := by
  have hf := h.filter p
  rw [← List.head?_filter, ← List.head?_filter]
  match hl : l.filter p, hp with
  | [], _ => rw [hl] at hf; rw [List.nil_perm.1 hf]
  | [a], _ => rw [hl] at hf; rw [List.singleton_perm.1 hf]

/-- At most one column is headed by a field when no header occurs twice. -/
theorem filter_columns (cols : List (PyValue × List PyValue)) (field : String)
    (h : Distinct (names (cols.map (·.1)))) :
    (cols.filter fun c => (normalizeText c.1).eq (.str field)).length ≤ 1 := by
  induction cols with
  | nil => simp
  | cons c cols ih =>
    rw [List.map_cons, names_cons] at h
    rw [List.filter_cons]
    cases hc : (normalizeText c.1).eq (.str field) with
    | false =>
      refine ih ?_
      split at h
      · exact h
      · exact h.of_cons
    | true =>
      rw [eq_str_iff.1 hc, if_neg (by simp [PyValue.isNone])] at h
      have hnone : cols.filter (fun c => (normalizeText c.1).eq (.str field)) = [] := by
        refine List.filter_eq_nil_iff.2 fun d hd he => ?_
        have hm : .str field ∈ names (cols.map (·.1)) :=
          mem_names.2 (List.mem_map.2 ⟨d.1, List.mem_map_of_mem hd, eq_str_iff.1 he⟩)
        have := List.rel_of_pairwise_cons h hm
        simp at this
      simp [hnone]

section rearranged
variable {worksheet worksheet' : Worksheet} {extra : List (PyValue × List PyValue)}

theorem Rearranged.names (h : Rearranged worksheet extra worksheet') :
    (names (worksheet'.header.getD [])).Perm
      (names (worksheet.header.getD []) ++ names (extra.map (·.1))) := by
  obtain ⟨n, n', hn, hn', hp⟩ := h.columns
  have hp := ((hp.map (·.1)).map normalizeText).filter fun v => !v.isNone
  rw [List.map_append, List.map_append, List.filter_append] at hp
  rw [← names_columns hn, ← names_columns hn']
  exact hp

theorem Rearranged.distinct (h : Rearranged worksheet extra worksheet')
    (he : Unknown worksheet extra) : Distinct (XlsxParser.names (worksheet'.header.getD [])) ↔
      Distinct (XlsxParser.names (worksheet.header.getD [])) := by
  rw [Distinct, h.names.pairwise_iff fun {a b} hab => (eq_comm b a).trans hab,
    List.pairwise_append]
  exact ⟨fun hd => hd.1, fun hd => ⟨hd, he.distinct, he.headers⟩⟩

theorem Rearranged.mem (h : Rearranged worksheet extra worksheet')
    (he : Unknown worksheet extra) {field : String} (hf : field ∈ workbookRowFields) :
    .str field ∈ XlsxParser.names (worksheet'.header.getD []) ↔
      .str field ∈ XlsxParser.names (worksheet.header.getD []) := by
  rw [h.names.mem_iff, List.mem_append, or_iff_left (he.fields field hf)]

theorem parseHeaders_succeeds : (∃ headers, parseHeaders worksheet = .ok headers) ↔
    worksheet.header.isSome = true ∧ Distinct (names (worksheet.header.getD [])) ∧
      ∀ field ∈ requiredWorkbookHeaders, .str field ∈ names (worksheet.header.getD []) := by
  simp only [parseHeaders_ok, mem_names]
  cases worksheet.header with
  | none => simp
  | some headerValues => simp

theorem Rearranged.succeeds (h : Rearranged worksheet extra worksheet')
    (he : Unknown worksheet extra) : (∃ headers, parseHeaders worksheet' = .ok headers) ↔
      ∃ headers, parseHeaders worksheet = .ok headers := by
  rw [parseHeaders_succeeds, parseHeaders_succeeds, h.header, h.distinct he]
  refine and_congr_right fun _ => and_congr_right fun _ => forall₂_congr fun field hf => ?_
  exact h.mem he (List.mem_append_left _ hf)

theorem dataRows_ok {n : Nat} (hn : Within worksheet n) {rows : List ParsedWorkbookRow} :
    dataRows worksheet = .ok rows ↔ (∃ headers, parseHeaders worksheet = .ok headers) ∧
      rows = ((List.range worksheet.rows.length).map fun i =>
        (⟨i + 2, rowOf (columns worksheet n) i⟩ : ParsedWorkbookRow)).filter fun r => !blank r := by
  rw [← numberedRows_eq hn, ← iterDataRows_eq, dataRows]
  cases hp : parseHeaders worksheet with
  | error message => simp [Except.map]
  | ok headers =>
    obtain ⟨headerValues, hh, rfl, -⟩ := parseHeaders_ok.1 hp
    rw [hh]
    simp [Except.map, Eq.comm]

/-- The cells of a field are found in its column wherever that is. -/
theorem cellsOf_rearranged {cols cols' : List (PyValue × List PyValue)}
    (hp : cols'.Perm (cols ++ extra)) (hd : Distinct (names (cols'.map (·.1)))) {field : String}
    (hf : .str field ∉ names (extra.map (·.1))) : cellsOf cols' field = cellsOf cols field := by
  have hx : extra.find? (fun c => (normalizeText c.1).eq (.str field)) = none := by
    refine List.find?_eq_none.2 fun c hc he => hf (mem_names.2 ?_)
    exact List.mem_map.2 ⟨c.1, List.mem_map_of_mem hc, eq_str_iff.1 he⟩
  rw [cellsOf, cellsOf, find?_perm hp (filter_columns cols' field hd), List.find?_append, hx,
    Option.or_none]

/-- Rearranging the columns of a worksheet, and adding columns the import does not know, changes
neither whether its header row is valid nor a parsed row; and a header row is valid exactly when
every required header is in it, spaces around it aside, and none occurs twice. -/
theorem columns_rearranged (worksheet worksheet' : Worksheet)
    (extra : List (PyValue × List PyValue)) (h : Rearranged worksheet extra worksheet')
    (he : Unknown worksheet extra) :
    ((∃ headers, parseHeaders worksheet' = .ok headers) ↔
      ∃ headers, parseHeaders worksheet = .ok headers) ∧
    (∀ rows, dataRows worksheet' = .ok rows ↔ dataRows worksheet = .ok rows) ∧
    (∀ n chunks, iterChunks n worksheet' = .ok chunks ↔ iterChunks n worksheet = .ok chunks) ∧
    ((∃ headers, parseHeaders worksheet = .ok headers) ↔
      ∃ headerValues, worksheet.header = some headerValues ∧ Distinct (names headerValues) ∧
        ∀ field ∈ requiredWorkbookHeaders, .str field ∈ headerValues.map normalizeText) := by
  have hrows : ∀ rows, dataRows worksheet' = .ok rows ↔ dataRows worksheet = .ok rows := by
    intro rows
    obtain ⟨n, n', hn, hn', hp⟩ := h.columns
    rw [dataRows_ok hn, dataRows_ok hn', h.succeeds he, h.rows]
    refine and_congr_right fun hok => ?_
    have hd : Distinct (names ((columns worksheet' n').map (·.1))) := by
      rw [names_columns hn', h.distinct he]
      exact (parseHeaders_succeeds.1 hok).2.1
    have hrow : ∀ i, rowOf (columns worksheet' n') i = rowOf (columns worksheet n) i := by
      intro i
      refine List.map_congr_left fun field hf => ?_
      rw [cellsOf_rearranged hp hd (he.fields field hf)]
    simp only [hrow]
  refine ⟨h.succeeds he, hrows, fun n chunks => ?_, ?_⟩
  · have hcut : ∀ ws : Worksheet, iterChunks n ws = .ok chunks ↔
        ∃ rows, dataRows ws = .ok rows ∧ chunks = chunksFrom n rows [] := by
      intro ws
      unfold iterChunks
      cases dataRows ws with
      | error message => simp [Except.map]
      | ok rows => simp [Except.map, Eq.comm]
    simp only [hcut, hrows]
  · simp only [parseHeaders_ok]
    constructor
    · rintro ⟨_, headerValues, hh, -, hd, hf⟩
      exact ⟨headerValues, hh, hd, hf⟩
    · rintro ⟨headerValues, hh, hd, hf⟩
      exact ⟨_, headerValues, hh, rfl, hd, hf⟩

end rearranged

/-! ## Two worksheets -/

/-- A blank row between two others, and a last row that is shorter than the header row. -/
def plainWorksheet : Worksheet :=
  ⟨some (requiredWorkbookHeaders.map .str),
    [[.str "A-1", .str "Ann", .str "Rome", .str "Oslo", .int 2, .int 100, .str "PENDING"],
      [.none, .str "  "],
      [.str "A-2", .str "Bob", .str "Oslo", .str "Rome"]]⟩

/-- The first two columns change places, and a column of notes stands between them. -/
def notedWorksheet : Worksheet :=
  ⟨some (.str "customer_name" :: .str "notes" :: .str "shipment_code" ::
      (requiredWorkbookHeaders.drop 2).map .str),
    [[.str "Ann", .none, .str "A-1", .str "Rome", .str "Oslo", .int 2, .int 100, .str "PENDING"],
      [.str "  ", .str "blank"],
      [.str "Bob", .none, .str "A-2", .str "Oslo", .str "Rome"]]⟩

theorem plainWorksheet_chunks : ∃ chunks, iterChunks 1 plainWorksheet = .ok chunks ∧
    chunks.map (·.map (·.rowNumber)) = [[2], [4]] := by
  have hh : parseHeaders plainWorksheet =
      .ok (namedColumns (requiredWorkbookHeaders.map .str) 0) := by rfl
  obtain ⟨chunks, hc, -⟩ := chunks_partition plainWorksheet _ hh 1 (Nat.le_refl 1)
  have hnumbers : (iterChunks 1 plainWorksheet).map (·.map (·.map (·.rowNumber))) =
      .ok [[2], [4]] := by rfl
  rw [hc] at hnumbers
  exact ⟨chunks, hc, Except.ok.inj hnumbers⟩

/-- The added column. -/
def notes : List (PyValue × List PyValue) := [(.str "notes", [.none, .str "blank", .none])]

theorem notedWorksheet_rearranged : Rearranged plainWorksheet notes notedWorksheet := by
  have hp : ∀ (a b c : PyValue × List PyValue) l, (b :: c :: a :: l).Perm (a :: b :: l ++ [c]) := by
    intro a b c l
    calc (b :: c :: a :: l).Perm (c :: b :: a :: l) := .swap c b _
      _ |>.Perm (c :: a :: b :: l) := .cons c (.swap a b l)
      _ |>.Perm (a :: b :: l ++ [c]) := (List.perm_append_singleton c _).symm
  exact ⟨rfl, rfl, 7, 8, ⟨by decide, by decide⟩, ⟨by decide, by decide⟩, hp _ _ _ _⟩

theorem notes_unknown : Unknown plainWorksheet notes := by
  have hn : names (notes.map (·.1)) = [.str "notes"] := by rfl
  have hp : names (plainWorksheet.header.getD []) = requiredWorkbookHeaders.map .str := by rfl
  refine ⟨?_, ?_, ?_⟩
  · rw [hn]
    exact List.pairwise_singleton _ _
  · rw [hn, hp]
    simp [requiredWorkbookHeaders]
  · rw [hn]
    simp [workbookRowFields, requiredWorkbookHeaders]

theorem plainWorksheet_noted :
    ∃ rows, dataRows plainWorksheet = .ok rows ∧ dataRows notedWorksheet = .ok rows := by
  have hd : dataRows plainWorksheet = .ok (iterDataRows
      (namedColumns (requiredWorkbookHeaders.map .str) 0) 2 plainWorksheet.rows) := by rfl
  have hc := columns_rearranged _ _ _ notedWorksheet_rearranged notes_unknown
  exact ⟨_, hd, (hc.2.1 _).2 hd⟩

end XlsxParser

end ShipmentImport

import ShipmentImport.Settings
import ShipmentImport.Values

/-!
# Pagination

Page numbers and sizes as they come in query strings, and the metadata of a page
(`app/common/pagination.py`).
-/

namespace ShipmentImport

/-! ## Integers from text -/

/-- The code points of the digits zero; the other nine digits of a script follow its zero. -/
def decimalZeros : List Nat :=
  [0x30, 0x660, 0x6f0, 0x7c0, 0x966, 0x9e6, 0xa66, 0xae6, 0xb66, 0xbe6, 0xc66, 0xce6, 0xd66, 0xde6,
    0xe50, 0xed0, 0xf20, 0x1040, 0x1090, 0x17e0, 0x1810, 0x1946, 0x19d0, 0x1a80, 0x1a90, 0x1b50,
    0x1bb0, 0x1c40, 0x1c50, 0xa620, 0xa8d0, 0xa900, 0xa9d0, 0xa9f0, 0xaa50, 0xabf0, 0xff10,
    0x104a0, 0x10d30, 0x11066, 0x110f0, 0x11136, 0x111d0, 0x112f0, 0x11450, 0x114d0, 0x11650,
    0x116c0, 0x11730, 0x118e0, 0x11950, 0x11c50, 0x11d50, 0x11da0, 0x11f50, 0x16a60, 0x16ac0,
    0x16b50, 0x1d7ce, 0x1d7d8, 0x1d7e2, 0x1d7ec, 0x1d7f6, 0x1e140, 0x1e2f0, 0x1e4f0, 0x1e950,
    0x1fbf0]

/-- The value of a decimal digit of any script. -/
def decimalDigit? (c : Char) : Option Nat :=
  (decimalZeros.find? fun z => z ≤ c.toNat && c.toNat < z + 10).map (c.toNat - ·)

/-- The blanks `int()` skips at both ends: the four separators below the space are none. -/
def isIntSpace (c : Char) : Bool := isSpace c && !(28 ≤ c.toNat && c.toNat ≤ 31)

/-- Digits, with single underscores between them. -/
def digits? : List Char → Option (List Nat)
  | [] => none
  | [c] => (decimalDigit? c).map ([·])
  | c :: '_' :: cs => do return (← decimalDigit? c) :: (← digits? cs)
  | c :: cs => do return (← decimalDigit? c) :: (← digits? cs)

/-- `sys.int_info.default_max_str_digits`. -/
def maxStrDigits : Nat := 4300

/-- `int(value)` of a `str`; `none` is the `ValueError`. -/
def int? (value : String) : Option Int :=
  let cs := dropEndWhile isIntSpace (value.toList.dropWhile isIntSpace)
  let (negative, cs) := match cs with
    | '-' :: cs => (true, cs)
    | '+' :: cs => (false, cs)
    | cs => (false, cs)
  match digits? cs with
  | none => none
  | some ds =>
    if ds.length > maxStrDigits then none
    else
      let n : Nat := ds.foldl (fun n d => 10 * n + d) 0
      some (if negative then -n else n)

/-! ## Page requests -/

structure PageRequest where
  page : Positive
  pageSize : Positive

def PageRequest.offset (r : PageRequest) : Nat := (r.page.1 - 1) * r.pageSize.1

structure PaginationMetadata where
  page : Nat
  pageSize : Nat
  totalItems : Nat
  totalPages : Nat

/-- `_parse_positive_integer`; an error is the text of an `InvalidPaginationError`. -/
def parsePositiveInteger (value : Option String) (name : String) (default : Positive) :
    Except String Positive :=
  match value with
  | none => .ok default
  | some value =>
    match int? value with
    | none => .error (name ++ " must be a positive integer.")
    | some parsed =>
      if h : parsed ≤ 0 then .error (name ++ " must be a positive integer.")
      else .ok ⟨parsed.toNat, by omega⟩

def parsePageRequest (page pageSize : Option String) (defaultPageSize maxPageSize : Positive) :
    Except String PageRequest := do
  let parsedPage ← parsePositiveInteger page "page" ⟨1, by decide⟩
  let parsedPageSize ← parsePositiveInteger pageSize "page_size" defaultPageSize
  if parsedPageSize.1 > maxPageSize.1 then
    throw ("page_size must not exceed " ++ toString maxPageSize.1 ++ ".")
  return ⟨parsedPage, parsedPageSize⟩

def buildPaginationMetadata (request : PageRequest) (totalItems : Nat) : PaginationMetadata :=
  let totalPages := (totalItems + request.pageSize.1 - 1) / request.pageSize.1
  { page := request.page.1, pageSize := request.pageSize.1, totalItems, totalPages }

/-- The integer a parameter stands for, if any. -/
def paramInt (value : Option String) (default : Positive) : Option Int :=
  match value with
  | none => some default.1
  | some value => int? value

theorem parsePositiveInteger_ok (name : String) {value : Option String} {default n : Positive} :
    parsePositiveInteger value name default = .ok n ↔ paramInt value default = some (n.1 : Int) := by
  cases value with
  | none =>
    simp only [parsePositiveInteger, paramInt, Except.ok.injEq, Option.some.injEq, Subtype.ext_iff]
    omega
  | some value =>
    simp only [parsePositiveInteger, paramInt]
    cases int? value with
    | none => simp
    | some parsed =>
      have hn := n.2
      by_cases h : parsed ≤ 0
      · simp only [h, dif_pos, reduceCtorEq, Option.some.injEq, false_iff]
        omega
      · simp only [h, dif_neg, not_false_eq_true, Except.ok.injEq, Option.some.injEq,
          Subtype.ext_iff]
        omega

/-- A page request is accepted exactly when both parameters stand for positive integers and the
size is at most the maximum. -/
theorem parsePageRequest_ok {page pageSize : Option String} {defaultPageSize maxPageSize : Positive}
    {r : PageRequest} : parsePageRequest page pageSize defaultPageSize maxPageSize = .ok r ↔
      paramInt page ⟨1, by decide⟩ = some (r.page.1 : Int) ∧
      paramInt pageSize defaultPageSize = some (r.pageSize.1 : Int) ∧
      r.pageSize.1 ≤ maxPageSize.1 := by
  rw [← parsePositiveInteger_ok "page", ← parsePositiveInteger_ok "page_size", parsePageRequest]
  cases parsePositiveInteger page "page" ⟨1, by decide⟩ with
  | error e => exact ⟨fun h => (nomatch h), fun h => (nomatch h.1)⟩
  | ok p =>
    cases parsePositiveInteger pageSize "page_size" defaultPageSize with
    | error e => exact ⟨fun h => (nomatch h), fun h => (nomatch h.2.1)⟩
    | ok s =>
      simp only [bind, Except.bind, Except.ok.injEq]
      by_cases h : s.1 > maxPageSize.1
      · rw [if_pos h]
        refine ⟨fun h => (nomatch h), ?_⟩
        rintro ⟨-, rfl, hle⟩
        omega
      · rw [if_neg h]
        constructor
        · rintro ⟨⟩
          exact ⟨rfl, rfl, Nat.le_of_not_lt h⟩
        · rintro ⟨rfl, rfl, -⟩
          rfl

example : int? " 1_000 " = some 1000 := by decide +kernel
example : int? "0x10" = none := by decide +kernel

end ShipmentImport

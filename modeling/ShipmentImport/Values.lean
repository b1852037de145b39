import Mathlib.Data.Rat.Defs
import Mathlib.Data.List.Nodup

/-!
# Python values

The values that travel through an import: what the workbook reader puts in a cell, and what
`jsonb_safe` makes of it (`app/imports/jsonb.py`). Decimals, datetimes, dates, times, durations and
objects of any other type occur only through their text (`str()`, `isoformat()`), so that text is
what they carry.
-/

namespace ShipmentImport

section except
variable {ε α β : Type}

theorem bind_eq_ok {x : Except ε α} {f : α → Except ε β} {b : β} :
    x >>= f = .ok b ↔ ∃ a, x = .ok a ∧ f a = .ok b := by
  cases x with
  | error e => simp [bind, Except.bind]
  | ok a => simp [bind, Except.bind]

theorem exists_error_of_bind {x : Except ε α} {f : α → Except ε β} {e : ε}
    (h : x >>= f = .error e) (hx : x ≠ .error e) : ∃ a, f a = .error e := by
  cases x with
  | ok a => exact ⟨a, h⟩
  | error e' => exact absurd (congrArg Except.error (Except.error.inj h)) hx

/-- A check that throws, and what follows it. -/
theorem check_eq_ok {c : Bool} {e : ε} {x : Except ε β} {b : β} :
    (if c = true then (throw e : Except ε PUnit) >>= fun _ => x else x) = .ok b ↔
      c = false ∧ x = .ok b := by
  cases c with
  | false => simp
  | true => exact ⟨fun h => (nomatch h), fun h => (nomatch h.1)⟩

theorem mapError_eq_ok {ε' : Type} {x : Except ε α} {f : ε → ε'} {a : α} :
    x.mapError f = .ok a ↔ x = .ok a := by
  cases x <;> simp [Except.mapError]

theorem mapError_eq_error {ε' : Type} {x : Except ε α} {f : ε → ε'} {e' : ε'} :
    x.mapError f = .error e' ↔ ∃ e, x = .error e ∧ f e = e' := by
  cases x <;> simp [Except.mapError]

end except

/-- A Python float: a finite value, or one of the three others. -/
inductive PyFloat
  | finite (value : ℚ)
  | inf
  | negInf
  | nan
  deriving DecidableEq

/-- A dictionary key: its `str()`, and whether it is a `str` itself. -/
structure PyKey where
  text : String
  isStr : Bool
  deriving DecidableEq

inductive PyValue
  | none
  | bool (b : Bool)
  | int (n : Int)
  | float (x : PyFloat)
  | str (s : String)
  | decimal (text : String)
  | datetime (isoformat : String)
  | date (isoformat : String)
  | time (text : String)
  | timedelta (text : String)
  | list (items : List PyValue)
  | tuple (items : List PyValue)
  | set (items : List PyValue)
  | dict (items : List (PyKey × PyValue))
  | object (type text : String)

namespace PyValue

def isNone : PyValue → Bool
  | none => true
  | _ => false

/-- The value of a number, as `==` compares booleans, integers and finite floats. -/
def number? : PyValue → Option ℚ
  | bool b => some (if b then 1 else 0)
  | int n => some n
  | float (.finite x) => some x
  | _ => Option.none

/-- `a == b` for cell values: values of different types are different, but for numbers. -/
def eq (a b : PyValue) : Bool :=
  match a, b with
  | str s, str t => s == t
  | datetime s, datetime t | date s, date t | time s, time t | timedelta s, timedelta t => s == t
  | object type s, object type' t => type == type' && s == t
  | none, none | float .inf, float .inf | float .negInf, float .negInf => true
  | a, b =>
    match a.number?, b.number? with
    | some x, some y => x == y
    | _, _ => false

@[simp] theorem eq_str (s t : String) : eq (str s) (str t) = (s == t) := rfl

/-- `d[k] = v`: a key that is there keeps its place. -/
def dictSet (k : PyKey) (v : PyValue) : List (PyKey × PyValue) → List (PyKey × PyValue)
  | [] => [(k, v)]
  | (k', v') :: rest => if k = k' then (k, v) :: rest else (k', v') :: dictSet k v rest

mutual

/-- `jsonb_safe(value)`. -/
def jsonbSafe : PyValue → PyValue
  | decimal text => str text
  | datetime text => str text
  | date text => str text
  | time text => str text
  | timedelta text => str text
  | dict items => dict (jsonbSafeItems items [])
  | list items => list (jsonbSafeList items)
  | tuple items => list (jsonbSafeList items)
  | set items => list (jsonbSafeList items)
  | none => none
  | str s => str s
  | int n => int n
  | float x => float x
  | bool b => bool b
  | object _ text => str text

def jsonbSafeList : List PyValue → List PyValue
  | [] => []
  | v :: vs => jsonbSafe v :: jsonbSafeList vs

/-- The dictionary comprehension over `value.items()`; `d` holds the items set so far. -/
def jsonbSafeItems : List (PyKey × PyValue) → List (PyKey × PyValue) → List (PyKey × PyValue)
  | [], d => d
  | (k, v) :: rest, d => jsonbSafeItems rest (dictSet ⟨k.text, true⟩ (jsonbSafe v) d)

end

mutual

/-- A value `jsonb_safe` returns: primitives, and lists and string-keyed dictionaries of such. -/
def Primitive : PyValue → Prop
  | none | bool _ | int _ | float _ | str _ => True
  | list items => PrimitiveList items
  | dict items => PrimitiveItems items ∧ (items.map (·.1)).Nodup
  | decimal _ | datetime _ | date _ | time _ | timedelta _ | tuple _ | set _ | object .. => False

def PrimitiveList : List PyValue → Prop
  | [] => True
  | v :: vs => Primitive v ∧ PrimitiveList vs

def PrimitiveItems : List (PyKey × PyValue) → Prop
  | [] => True
  | (k, v) :: rest => k.isStr = true ∧ Primitive v ∧ PrimitiveItems rest

end

mutual

/-- Whether PostgreSQL takes the value as JSONB: strict JSON has neither infinities nor NaN, its
keys are strings, and its text holds no NUL character. -/
def isJsonb : PyValue → Bool
  | none | bool _ | int _ | float (.finite _) => true
  | str s => '\x00' ∉ s.toList
  | list items => isJsonbList items
  | dict items => isJsonbItems items
  | float .inf | float .negInf | float .nan => false
  | decimal _ | datetime _ | date _ | time _ | timedelta _ | tuple _ | set _ | object .. => false

def isJsonbList : List PyValue → Bool
  | [] => true
  | v :: vs => isJsonb v && isJsonbList vs

def isJsonbItems : List (PyKey × PyValue) → Bool
  | [] => true
  | (k, v) :: rest => k.isStr && '\x00' ∉ k.text.toList && isJsonb v && isJsonbItems rest

end

theorem dictSet_keys (k : PyKey) (v : PyValue) (d : List (PyKey × PyValue)) :
    (dictSet k v d).map (·.1) =
      if k ∈ d.map (·.1) then d.map (·.1) else d.map (·.1) ++ [k] := by
  induction d with
  | nil => simp [dictSet]
  | cons x d ih =>
    obtain ⟨k', v'⟩ := x
    unfold dictSet
    by_cases h : k = k'
    · simp [h]
    · simp only [h, if_false, List.map_cons, ih, List.mem_cons, false_or]
      split <;> rfl

theorem dictSet_nodup {k : PyKey} {v : PyValue} {d : List (PyKey × PyValue)}
    (h : (d.map (·.1)).Nodup) : ((dictSet k v d).map (·.1)).Nodup := by
  rw [dictSet_keys]
  split
  · exact h
  · next hk => exact List.nodup_append.2 ⟨h, by simp, by
      intro a ha b hb e
      rw [List.mem_singleton] at hb
      exact hk (hb ▸ e ▸ ha)⟩

theorem primitiveItems_dictSet {k : PyKey} {v : PyValue} {d : List (PyKey × PyValue)}
    (hk : k.isStr = true) (hv : Primitive v) (hd : PrimitiveItems d) :
    PrimitiveItems (dictSet k v d) := by
  induction d with
  | nil => exact ⟨hk, hv, trivial⟩
  | cons x d ih =>
    obtain ⟨k', v'⟩ := x
    obtain ⟨h1, h2, h3⟩ := hd
    unfold dictSet
    split
    · exact ⟨hk, hv, h3⟩
    · exact ⟨h1, h2, ih h3⟩

/-- Setting a key that is not there appends it. -/
theorem dictSet_of_notMem {k : PyKey} {v : PyValue} {d : List (PyKey × PyValue)}
    (h : k ∉ d.map (·.1)) : dictSet k v d = d ++ [(k, v)] := by
  induction d with
  | nil => rfl
  | cons x d ih =>
    obtain ⟨k', v'⟩ := x
    simp only [List.map_cons, List.mem_cons, not_or] at h
    simp [dictSet, h.1, ih h.2]

mutual

/-- `jsonb_safe` returns a JSONB-safe value. -/
theorem primitive_jsonbSafe : ∀ v : PyValue, Primitive (jsonbSafe v)
  | decimal _ | datetime _ | date _ | time _ | timedelta _ | none | str _ | int _ | float _ | bool _
  | object .. => by
    simp [jsonbSafe, Primitive]
  | dict items => by
    have h := primitiveItems_jsonbSafe items [] trivial List.nodup_nil
    simpa [jsonbSafe, Primitive] using h
  | list items | tuple items | set items => by
    simpa [jsonbSafe, Primitive] using primitiveList_jsonbSafe items

theorem primitiveList_jsonbSafe : ∀ vs : List PyValue, PrimitiveList (jsonbSafeList vs)
  | [] => by simp [jsonbSafeList, PrimitiveList]
  | v :: vs => by
    simpa [jsonbSafeList, PrimitiveList] using
      And.intro (primitive_jsonbSafe v) (primitiveList_jsonbSafe vs)

theorem primitiveItems_jsonbSafe : ∀ items d : List (PyKey × PyValue), PrimitiveItems d →
    (d.map (·.1)).Nodup → PrimitiveItems (jsonbSafeItems items d) ∧
      ((jsonbSafeItems items d).map (·.1)).Nodup
  | [], d, hd, hn => by simpa [jsonbSafeItems] using And.intro hd hn
  | (k, v) :: rest, d, hd, hn => by
    unfold jsonbSafeItems
    exact primitiveItems_jsonbSafe rest _
      (primitiveItems_dictSet rfl (primitive_jsonbSafe v) hd) (dictSet_nodup hn)

end

mutual

/-- `jsonb_safe` leaves a JSONB-safe value as it is. -/
theorem jsonbSafe_of_primitive : ∀ {v : PyValue}, Primitive v → jsonbSafe v = v
  | none, _ | str _, _ | int _, _ | float _, _ | bool _, _ => by simp [jsonbSafe]
  | list items, h => by
    simp only [Primitive] at h
    simp [jsonbSafe, jsonbSafeList_of_primitive h]
  | dict items, h => by
    simp only [Primitive] at h
    simp [jsonbSafe, jsonbSafeItems_of_primitive (d := []) h.1 (by simpa using h.2)]
  | decimal _, h | datetime _, h | date _, h | time _, h | timedelta _, h | tuple _, h | set _, h
  | object .., h => by
    simp [Primitive] at h

theorem jsonbSafeList_of_primitive : ∀ {vs : List PyValue}, PrimitiveList vs →
    jsonbSafeList vs = vs
  | [], _ => by simp [jsonbSafeList]
  | v :: vs, h => by
    simp only [PrimitiveList] at h
    simp [jsonbSafeList, jsonbSafe_of_primitive h.1, jsonbSafeList_of_primitive h.2]

theorem jsonbSafeItems_of_primitive : ∀ {items d : List (PyKey × PyValue)},
    PrimitiveItems items → ((d ++ items).map (·.1)).Nodup → jsonbSafeItems items d = d ++ items
  | [], d, _, _ => by simp [jsonbSafeItems]
  | (k, v) :: rest, d, h, hn => by
    simp only [PrimitiveItems] at h
    have hk : (⟨k.text, true⟩ : PyKey) = k := by rw [← h.1]
    have hd : k ∉ d.map (·.1) := by
      simp only [List.map_append, List.map_cons, List.nodup_append] at hn
      exact fun hm => hn.2.2 k hm k List.mem_cons_self rfl
    unfold jsonbSafeItems
    rw [hk, jsonbSafe_of_primitive h.2.1, dictSet_of_notMem hd,
      jsonbSafeItems_of_primitive h.2.2 (by simpa using hn), List.append_assoc,
      List.singleton_append]

end

/-- Converting twice is converting once. -/
theorem jsonbSafe_idem (v : PyValue) : jsonbSafe (jsonbSafe v) = jsonbSafe v :=
  jsonbSafe_of_primitive (primitive_jsonbSafe v)

end PyValue

/-- A dictionary with string keys, as the parser returns for a row. -/
abbrev PyDict := List (String × PyValue)

/-- `d.get(field)`. -/
def PyDict.get (d : PyDict) (field : String) : PyValue := (d.lookup field).getD .none

/-- A string-keyed dictionary as a value. -/
def PyDict.toValue (d : PyDict) : PyValue := .dict (d.map fun x => (⟨x.1, true⟩, x.2))

/-- The characters `str.strip()` removes. -/
def isSpace (c : Char) : Bool :=
  let n := c.toNat
  (9 ≤ n && n ≤ 13) || (28 ≤ n && n ≤ 32) || n == 0x85 || n == 0xa0 || n == 0x1680 ||
    (0x2000 ≤ n && n ≤ 0x200a) || n == 0x2028 || n == 0x2029 || n == 0x202f || n == 0x205f ||
    n == 0x3000

/-- Drop what `p` holds of from the end of a list. -/
def dropEndWhile {α : Type} (p : α → Bool) (l : List α) : List α :=
  (l.reverse.dropWhile p).reverse

/-- `s.strip()`. -/
def strip (s : String) : String :=
  String.ofList (dropEndWhile isSpace (s.toList.dropWhile isSpace))

theorem last_dropEndWhile {α : Type} {p : α → Bool} {l : List α} {c : α}
    (h : (dropEndWhile p l).getLast? = some c) : p c = false := by
  unfold dropEndWhile at h
  rw [List.getLast?_reverse] at h
  simpa using List.head?_dropWhile_not p l.reverse |> fun k => by
    rw [h] at k
    simpa using k

end ShipmentImport

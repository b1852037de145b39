import Mathlib.Data.List.Nodup
import Mathlib.Logic.Function.Basic
import Mathlib.Tactic.ByContra

/-!
# Tables under READ COMMITTED

A `Table` holds the committed row versions and, for every session, the changes of its open
transaction, the row locks it holds, its FOR KEY SHARE locks and its uncommitted entries in a
unique index. A statement of session `s` reads `view s`, the committed rows with its own changes,
and waits (`none`) where another session holds what it needs; `commit` makes the changes of `s`
the committed rows and releases everything `s` holds.

Sessions are numbers. Row locks have one holder, since the lock table is a function of the row.

* `Table.Keeps s`: what a session relies on, that the others leave its changes, its locks and the
  rows it locked alone.
* `Table.Wf`: row numbers are distinct and below a bound, and a session only changes rows it locked.
* `Table.Evolves`: no row disappears, and each is old, moved in a given way, or new.
* `Table.Everywhere`: what holds of every row version, committed or not.
-/

namespace ShipmentImport

/-- A row version: its number, the session that wrote it, and its columns. -/
structure Version (α : Type) where
  id : Nat
  writer : Nat
  val : α

/-- A change of an open transaction. -/
inductive Change (α : Type)
  | insert (row : Version α)
  | update (row : Version α)
  | delete (id : Nat)

namespace Change

variable {α : Type}

/-- The row a change is about. -/
def id : Change α → Nat
  | insert r | update r => r.id
  | delete i => i

def apply (rows : List (Version α)) : Change α → List (Version α)
  | insert r => rows ++ [r]
  | update r => rows.map fun x => if x.id = r.id then r else x
  | delete i => rows.filter fun x => x.id ≠ i

/-- The change makes rows of session `s`. -/
def By (s : Nat) : Change α → Prop
  | insert r | update r => r.writer = s
  | delete _ => True

end Change

/-- The two exclusive row locks: `FOR UPDATE`, and the weaker one a plain `UPDATE` takes, which
goes together with `FOR KEY SHARE`. -/
inductive LockMode
  | update
  | noKeyUpdate
  deriving DecidableEq

/-- A table: committed rows, and per session its changes, locks and index entries. -/
structure Table (α : Type) where
  rows : List (Version α)
  staged : Nat → List (Change α)
  lock : Nat → Option (Nat × LockMode)
  share : Nat → List Nat
  entry : String → Option Nat

namespace Table

variable {α : Type}

def empty : Table α := ⟨[], fun _ => [], fun _ => none, fun _ => [], fun _ => none⟩

/-- The rows session `s` sees: the committed ones with its own changes. -/
def view (T : Table α) (s : Nat) : List (Version α) := (T.staged s).foldl Change.apply T.rows

/-- Whether session `s` can lock row `i` now. -/
def free (T : Table α) (s : Nat) (mode : LockMode) (i : Nat) : Bool :=
  (match T.lock i with
    | none => true
    | some (h, _) => h == s) &&
  (mode == .noKeyUpdate || (T.share i).all (· == s))

/-- Session `s` takes the locks on the rows `is`; a lock it has is not weakened. -/
def grab (T : Table α) (s : Nat) (mode : LockMode) (is : List Nat) : Table α :=
  { T with lock := fun i =>
      if i ∈ is then some (s, if T.lock i = some (s, .update) then .update else mode)
      else T.lock i }

/-- Session `s` adds changes to its transaction. -/
def stage (T : Table α) (s : Nat) (cs : List (Change α)) : Table α :=
  { T with staged := Function.update T.staged s (T.staged s ++ cs) }

/-- `UPDATE … WHERE p`: the new versions of the rows that match, `none` while one of them is
locked by another session. -/
def updateWhere (T : Table α) (s : Nat) (p : Version α → Bool) (f : α → α) :
    Option (List (Version α) × Table α) :=
  let hit := (T.view s).filter p
  if hit.all fun r => T.free s .noKeyUpdate r.id then
    let new := hit.map fun r => { r with writer := s, val := f r.val }
    some (new, (T.grab s .noKeyUpdate (hit.map (·.id))).stage s (new.map .update))
  else none

/-- `SELECT … WHERE p … FOR UPDATE SKIP LOCKED`, with `pick` for its `ORDER BY` and `LIMIT`. -/
def lockWhere (T : Table α) (s : Nat) (p : Version α → Bool)
    (pick : List (Version α) → List (Version α)) : List (Version α) × Table α :=
  let hit := pick ((T.view s).filter fun r => p r && T.free s .update r.id)
  (hit, T.grab s .update (hit.map (·.id)))

/-- `DELETE … WHERE p`. -/
def deleteWhere (T : Table α) (s : Nat) (p : Version α → Bool) : Option (Nat × Table α) :=
  let hit := (T.view s).filter p
  if hit.all fun r => T.free s .update r.id then
    some (hit.length,
      (T.grab s .update (hit.map (·.id))).stage s (hit.map fun r => .delete r.id))
  else none

/-- `INSERT` of a row numbered `i`. -/
def insert (T : Table α) (s i : Nat) (a : α) : Table α :=
  (T.grab s .update [i]).stage s [.insert ⟨i, s, a⟩]

/-- Whether a session other than `s` has an open change on row `i`. -/
def changing (T : Table α) (s i : Nat) : Bool :=
  match T.lock i with
  | none => false
  | some (h, _) => h != s && (T.staged h).any (·.id == i)

/-- `INSERT` into a table with a unique index on `key`: waits for the other sessions that insert
the same key or change the row that has it, and fails on a row that has it. -/
def insertUnique (T : Table α) (s i : Nat) (key : α → Option String) (a : α) :
    Option (Except Unit (Table α)) :=
  match key a with
  | none => some (.ok (T.insert s i a))
  | some k =>
    if (T.entry k).any (· != s) then none
    else match (T.view s).find? fun r => key r.val == some k with
      | some r => if T.changing s r.id then none else some (.error ())
      | none => some (.ok { T.insert s i a with entry := Function.update T.entry k (some s) })

/-- `SELECT … FOR KEY SHARE` on row `i`, as a foreign key check does: waits for `FOR UPDATE`. -/
def keyShare (T : Table α) (s i : Nat) : Option (Table α) :=
  match T.lock i with
  | some (h, .update) =>
    if h = s then some { T with share := Function.update T.share i (s :: T.share i) } else none
  | _ => some { T with share := Function.update T.share i (s :: T.share i) }

/-- Drop everything session `s` holds. -/
def release (T : Table α) (s : Nat) : Table α :=
  { T with
    staged := Function.update T.staged s []
    lock := fun i => (T.lock i).filter fun h => h.1 != s
    share := fun i => (T.share i).filter (· != s)
    entry := fun k => (T.entry k).filter (· != s) }

def commit (T : Table α) (s : Nat) : Table α := { T.release s with rows := T.view s }

def rollback (T : Table α) (s : Nat) : Table α := T.release s

/-! ## Small facts about the operations -/

section simp
variable (T : Table α) (s : Nat)

@[simp] theorem grab_rows (m : LockMode) (is : List Nat) : (T.grab s m is).rows = T.rows := rfl
@[simp] theorem grab_staged (m : LockMode) (is : List Nat) :
    (T.grab s m is).staged = T.staged := rfl
@[simp] theorem stage_rows (cs : List (Change α)) : (T.stage s cs).rows = T.rows := rfl
@[simp] theorem stage_lock (cs : List (Change α)) : (T.stage s cs).lock = T.lock := rfl
@[simp] theorem stage_staged (cs : List (Change α)) :
    (T.stage s cs).staged s = T.staged s ++ cs := by simp [stage]
theorem stage_staged_ne (cs : List (Change α)) {u : Nat} (h : u ≠ s) :
    (T.stage s cs).staged u = T.staged u := by simp [stage, h]
@[simp] theorem release_staged : (T.release s).staged s = [] := by simp [release]
theorem release_staged_ne {u : Nat} (h : u ≠ s) : (T.release s).staged u = T.staged u := by
  simp [release, h]
@[simp] theorem rollback_staged : (T.rollback s).staged s = [] := T.release_staged s
@[simp] theorem commit_staged : (T.commit s).staged s = [] := T.release_staged s

/-- A session without changes sees the committed rows. -/
theorem view_eq (h : T.staged s = []) : T.view s = T.rows := by simp [view, h]

end simp

/-- Session `s` holds the exclusive lock on row `i`. -/
def Holds (T : Table α) (s i : Nat) : Prop := ∃ m, T.lock i = some (s, m)

/-- Session `s` has no changes, locks or index entries: it has no open transaction here. -/
structure Idle (T : Table α) (s : Nat) : Prop where
  staged : T.staged s = []
  lock : ∀ i, ¬ T.Holds s i
  share : ∀ i, s ∉ T.share i
  entry : ∀ k, T.entry k ≠ some s

theorem Holds.unique {T : Table α} {s u i : Nat} (h : T.Holds s i) (h' : T.Holds u i) :
    s = u := by
  obtain ⟨m, hm⟩ := h
  obtain ⟨m', hm'⟩ := h'
  rw [hm] at hm'
  cases hm'
  rfl

theorem idle_release (T : Table α) (s : Nat) : (T.release s).Idle s where
  staged := T.release_staged s
  lock i := by
    rintro ⟨m, hm⟩
    simp [release, Option.filter_eq_some_iff] at hm
  share i := by simp [release]
  entry k := by simp [release, Option.filter_eq_some_iff]

theorem idle_commit (T : Table α) (s : Nat) : (T.commit s).Idle s :=
  have h := T.idle_release s
  ⟨h.staged, h.lock, h.share, h.entry⟩

theorem holds_grab {T : Table α} {s : Nat} {m : LockMode} {is : List Nat} {i : Nat}
    (h : i ∈ is ∨ T.Holds s i) : (T.grab s m is).Holds s i := by
  by_cases hi : i ∈ is
  · exact ⟨if T.lock i = some (s, .update) then .update else m, by simp [grab, hi]⟩
  · obtain ⟨m', hm⟩ := h.resolve_left hi
    exact ⟨m', by simp [grab, hi, hm]⟩

theorem free_of_all {T : Table α} {s i : Nat} {mode : LockMode} (h : T.free s mode i = true)
    {u : Nat} (hu : T.Holds u i) : u = s := by
  obtain ⟨m, hm⟩ := hu
  simp only [free, hm, Bool.and_eq_true, beq_iff_eq] at h
  exact h.1

/-! ## What the view holds -/

theorem mem_apply_of_ne {rows : List (Version α)} {c : Change α} {r : Version α}
    (h : c.id ≠ r.id) : r ∈ c.apply rows ↔ r ∈ rows := by
  cases c with
  | insert x =>
    have : r ≠ x := fun e => h (by rw [e]; rfl)
    simp [Change.apply, this]
  | update x =>
    simp only [Change.id] at h
    simp only [Change.apply, List.mem_map]
    constructor
    · rintro ⟨y, hy, rfl⟩
      split at h
      · next e => simp at h
      · next e => simpa [e] using hy
    · intro hr
      exact ⟨r, hr, by simp [Ne.symm h]⟩
  | delete i =>
    simp only [Change.id] at h
    simp [Change.apply, Ne.symm h]

theorem mem_foldl_apply_of_ne {cs : List (Change α)} {r : Version α} (h : ∀ c ∈ cs, c.id ≠ r.id)
    (rows : List (Version α)) : r ∈ cs.foldl Change.apply rows ↔ r ∈ rows := by
  induction cs generalizing rows with
  | nil => rfl
  | cons c cs ih =>
    rw [List.foldl_cons, ih (fun d hd => h d (List.mem_cons_of_mem _ hd)),
      mem_apply_of_ne (h c List.mem_cons_self)]

/-- A row of the view is a committed row or the subject of an own change. -/
theorem mem_foldl_apply {cs : List (Change α)} {rows : List (Version α)} {r : Version α}
    (h : r ∈ cs.foldl Change.apply rows) : r ∈ rows ∨ .insert r ∈ cs ∨ .update r ∈ cs := by
  induction cs generalizing rows with
  | nil => exact .inl h
  | cons c cs ih =>
    rcases ih h with h | h | h
    · cases c with
      | insert x =>
        simp only [Change.apply, List.mem_append, List.mem_singleton] at h
        rcases h with h | rfl
        · exact .inl h
        · exact .inr (.inl List.mem_cons_self)
      | update x =>
        simp only [Change.apply, List.mem_map] at h
        obtain ⟨y, hy, rfl⟩ := h
        split
        · exact .inr (.inr List.mem_cons_self)
        · exact .inl hy
      | delete i => exact .inl (List.mem_of_mem_filter h)
    · exact .inr (.inl (List.mem_cons_of_mem _ h))
    · exact .inr (.inr (List.mem_cons_of_mem _ h))

theorem mem_view {T : Table α} {s : Nat} {r : Version α} (h : r ∈ T.view s) :
    r ∈ T.rows ∨ .insert r ∈ T.staged s ∨ .update r ∈ T.staged s := mem_foldl_apply h

/-- Rows inserted one after the other are appended. -/
theorem foldl_apply_insert (rows new : List (Version α)) :
    (new.map Change.insert).foldl Change.apply rows = rows ++ new := by
  induction new generalizing rows with
  | nil => simp
  | cons r new ih => simp [ih, Change.apply]

/-- Deleting row by row removes exactly the rows with those numbers. -/
theorem foldl_apply_delete (rows : List (Version α)) (is : List Nat) :
    (is.map Change.delete).foldl Change.apply rows = rows.filter fun r => r.id ∉ is := by
  induction is generalizing rows with
  | nil => simp
  | cons i is ih =>
    simp only [List.map_cons, List.foldl_cons, Change.apply, ih, List.filter_filter]
    exact List.filter_congr fun r _ => by simp [Bool.and_comm]

/-- The rows of one key after insertions of rows with key `i`. -/
theorem filter_view_insert {T : Table α} {s : Nat} {key : α → Nat} {i : Nat}
    {new : List (Version α)} (hs : T.staged s = new.map .insert) (hi : ∀ v ∈ new, key v.val = i)
    (j : Nat) :
    (T.view s).filter (fun v => key v.val == j) =
      if j = i then T.rows.filter (fun v => key v.val == i) ++ new
      else T.rows.filter fun v => key v.val == j := by
  rw [view, hs, foldl_apply_insert, List.filter_append]
  by_cases hj : j = i
  · have hnew : new.filter (fun v => key v.val == i) = new :=
      List.filter_eq_self.2 fun v hv => by simp [hi v hv]
    rw [if_pos hj, hj, hnew]
  · have hnew : new.filter (fun v => key v.val == j) = [] :=
      List.filter_eq_nil_iff.2 fun v hv => by simp [hi v hv, Ne.symm hj]
    rw [if_neg hj, hnew, List.append_nil]

/-- The rows of one key after the deletion of all rows with key `i`. -/
theorem filter_view_delete {T : Table α} {s : Nat} {key : α → Nat} {i : Nat}
    (hn : (T.rows.map (·.id)).Nodup)
    (hs : T.staged s = (T.rows.filter fun v => key v.val == i).map fun v => .delete v.id)
    (j : Nat) :
    (T.view s).filter (fun v => key v.val == j) =
      if j = i then [] else T.rows.filter fun v => key v.val == j := by
  have hd : ((T.rows.filter fun v => key v.val == i).map fun v => Change.delete v.id) =
      ((T.rows.filter fun v => key v.val == i).map (·.id)).map (Change.delete (α := α)) := by
    rw [List.map_map]
    rfl
  have hmem : ∀ v ∈ T.rows, v.id ∈ (T.rows.filter fun v => key v.val == i).map (·.id) ↔
      key v.val = i := by
    intro v hv
    rw [List.mem_map]
    constructor
    · rintro ⟨x, hx, e⟩
      obtain ⟨hx, hk⟩ := List.mem_filter.1 hx
      rw [← List.inj_on_of_nodup_map hn hx hv e]
      simpa using hk
    · intro hk
      exact ⟨v, List.mem_filter.2 ⟨hv, by simpa using hk⟩, rfl⟩
  rw [view, hs, hd, foldl_apply_delete, List.filter_filter]
  by_cases hj : j = i
  · rw [if_pos hj, List.filter_eq_nil_iff]
    intro v hv
    simp only [Bool.and_eq_true, beq_iff_eq, decide_eq_true_eq, not_and, not_not, hj]
    exact (hmem v hv).2
  · rw [if_neg hj]
    refine List.filter_congr fun v hv => ?_
    by_cases hk : key v.val = j
    · have : ¬ key v.val = i := fun e => hj (hk.symm.trans e)
      simp [hk, mt (hmem v hv).1 this]
    · simp [hk]

/-- Replace the row numbered like `r` by `r`. -/
def put (r : Version α) (rows : List (Version α)) : List (Version α) :=
  rows.map fun x => if x.id = r.id then r else x

theorem put_put {r r' : Version α} (h : r.id = r'.id) (rows : List (Version α)) :
    put r' (put r rows) = put r' rows := by
  simp only [put, List.map_map]
  refine List.map_congr_left fun x _ => ?_
  simp only [Function.comp_apply]
  by_cases e : x.id = r'.id
  · simp [e, h]
  · simp [e, h ▸ e]

theorem put_map_id (r : Version α) (rows : List (Version α)) :
    (put r rows).map (·.id) = rows.map (·.id) := by
  simp only [put, List.map_map]
  refine List.map_congr_left fun x _ => ?_
  simp only [Function.comp_apply]
  split
  · next e => exact e.symm
  · rfl

theorem mem_put {r x : Version α} {rows : List (Version α)} :
    x ∈ put r rows ↔ (x ∈ rows ∧ x.id ≠ r.id) ∨ (x = r ∧ ∃ y ∈ rows, y.id = r.id) := by
  simp only [put, List.mem_map]
  constructor
  · rintro ⟨y, hy, rfl⟩
    split
    · next e => exact .inr ⟨rfl, y, hy, e⟩
    · next e => exact .inl ⟨hy, e⟩
  · rintro (⟨hx, e⟩ | ⟨rfl, y, hy, e⟩)
    · exact ⟨x, hx, by simp [e]⟩
    · exact ⟨y, hy, by simp [e]⟩

/-- Looking a row up after a replacement. -/
theorem find?_put {r cur : Version α} {rows : List (Version α)} (hr : r ∈ rows)
    (he : cur.id = r.id) (j : Nat) :
    (put cur rows).find? (·.id == j) = if j = r.id then some cur else rows.find? (·.id == j) := by
  have hid : ((fun x : Version α => x.id == j) ∘ fun x => if x.id = cur.id then cur else x) =
      fun x => x.id == j := by
    funext x
    by_cases hx : x.id = cur.id
    · simp [hx]
    · simp [hx]
  rw [put, List.find?_map, hid]
  cases hf : rows.find? (·.id == j) with
  | none =>
    have hj : j ≠ r.id := by
      rintro rfl
      simpa using List.find?_eq_none.1 hf r hr
    simp [hj]
  | some x =>
    have hx : x.id = j := by simpa using List.find?_some hf
    by_cases hj : j = r.id
    · simp [hj, hx, he]
    · simp [hj, hx, he]

/-- Replacing a row by itself changes nothing. -/
theorem put_self {r : Version α} {rows : List (Version α)} (h : (rows.map (·.id)).Nodup)
    (hr : r ∈ rows) : put r rows = rows := by
  rw [put, List.map_congr_left (g := id)]
  · exact List.map_id _
  · intro x hx
    split
    · next e => exact (List.inj_on_of_nodup_map h hx hr e).symm
    · rfl

/-- What a condition on one row number selects after a replacement. -/
theorem filter_put {r cur : Version α} {rows : List (Version α)} (h : (rows.map (·.id)).Nodup)
    (hr : r ∈ rows) (he : cur.id = r.id) {p : Version α → Bool}
    (hp : ∀ x, p x = true → x.id = r.id) :
    (put cur rows).filter p = if p cur then [cur] else [] := by
  induction rows with
  | nil => cases hr
  | cons x rows ih =>
    rw [List.map_cons, List.nodup_cons] at h
    have hrest : ∀ l : List (Version α), (∀ y ∈ l, y.id ≠ r.id) → (put cur l).filter p = [] := by
      intro l hl
      rw [List.filter_eq_nil_iff]
      intro y hy hpy
      rcases mem_put.1 hy with ⟨hy, hne⟩ | ⟨rfl, z, hz, e⟩
      · exact hl y hy (hp y hpy)
      · exact hl z hz (e.trans he)
    by_cases hx : x.id = r.id
    · have hrows : (put cur rows).filter p = [] := hrest rows fun y hy e =>
        h.1 (List.mem_map.2 ⟨y, hy, e.trans hx.symm⟩)
      have : put cur (x :: rows) = cur :: put cur rows := by simp [put, hx, he]
      rw [this, List.filter_cons, hrows]
    · have hr' : r ∈ rows := (List.mem_cons.1 hr).resolve_left fun e => hx (by rw [e])
      have : put cur (x :: rows) = x :: put cur rows := by simp [put, hx, he]
      rw [this, List.filter_cons_of_neg (fun e => hx (hp x e)), ih h.2 hr']

/-- Rows with distinct numbers are determined by them. -/
theorem eq_of_id {rows : List (Version α)} (h : (rows.map (·.id)).Nodup) {r r' : Version α}
    (hr : r ∈ rows) (hr' : r' ∈ rows) (e : r.id = r'.id) : r = r' :=
  List.inj_on_of_nodup_map h hr hr' e

theorem find?_eq_some {rows : List (Version α)} (h : (rows.map (·.id)).Nodup) {i : Nat}
    {r : Version α} : rows.find? (·.id == i) = some r ↔ r ∈ rows ∧ r.id = i := by
  constructor
  · intro hr
    exact ⟨List.mem_of_find?_eq_some hr, by simpa using List.find?_some hr⟩
  · rintro ⟨hr, rfl⟩
    cases hf : rows.find? (·.id == r.id) with
    | none => simpa using List.find?_eq_none.1 hf r hr
    | some r' =>
      have hr' := List.mem_of_find?_eq_some hf
      have he : r'.id = r.id := by simpa using List.find?_some hf
      rw [eq_of_id h hr' hr he]

theorem filter_id {rows : List (Version α)} (h : (rows.map (·.id)).Nodup) {r : Version α}
    (hr : r ∈ rows) : rows.filter (·.id == r.id) = [r] := by
  have := filter_put h hr rfl (p := (·.id == r.id)) (by simp)
  rwa [put_self h hr, if_pos (by simp)] at this

/-- After updates of different rows, a row is the one it was updated to, or the old one. -/
theorem find?_foldl_update {us rows : List (Version α)} (hn : (us.map (·.id)).Nodup)
    (hin : ∀ u ∈ us, ∃ r ∈ rows, r.id = u.id) (j : Nat) :
    ((us.map Change.update).foldl Change.apply rows).find? (·.id == j) =
      (us.find? (·.id == j)).or (rows.find? (·.id == j)) := by
  induction us generalizing rows with
  | nil => rfl
  | cons u us ih =>
    obtain ⟨r, hr, e⟩ := hin u List.mem_cons_self
    rw [List.map_cons, List.nodup_cons] at hn
    have hin' : ∀ v ∈ us, ∃ r ∈ put u rows, r.id = v.id := by
      intro v hv
      obtain ⟨r', hr', e'⟩ := hin v (List.mem_cons_of_mem _ hv)
      have hm : r'.id ∈ (put u rows).map (·.id) := by
        rw [put_map_id]
        exact List.mem_map_of_mem hr'
      obtain ⟨x, hx, ex⟩ := List.mem_map.1 hm
      exact ⟨x, hx, ex.trans e'⟩
    rw [List.map_cons, List.foldl_cons, show Change.apply rows (.update u) = put u rows from rfl,
      ih hn.2 hin', find?_put hr e.symm, List.find?_cons]
    by_cases hj : u.id = j
    · have hnone : us.find? (·.id == j) = none := by
        rw [List.find?_eq_none]
        intro v hv hvj
        refine hn.1 (List.mem_map.2 ⟨v, hv, ?_⟩)
        rw [hj]
        simpa using hvj
      rw [hnone, if_pos (e.trans hj).symm, beq_iff_eq.2 hj]
      rfl
    · have : ¬ j = r.id := fun h => hj (e.symm.trans h.symm)
      rw [if_neg this, beq_eq_false_iff_ne.2 hj]

/-! ## What a session relies on -/

/-- The others leave what session `s` has alone: its changes, locks and index entries, and the
committed rows it locked. -/
structure Keeps (s : Nat) (T T' : Table α) : Prop where
  staged : T'.staged s = T.staged s
  lock : ∀ i m, T'.lock i = some (s, m) ↔ T.lock i = some (s, m)
  share : ∀ i, s ∈ T'.share i ↔ s ∈ T.share i
  entry : ∀ k, T'.entry k = some s ↔ T.entry k = some s
  rows : ∀ r : Version α, T.Holds s r.id → (r ∈ T'.rows ↔ r ∈ T.rows)

namespace Keeps

variable {s : Nat} {T T' T'' : Table α}

theorem refl (s : Nat) (T : Table α) : Keeps s T T :=
  ⟨rfl, fun _ _ => .rfl, fun _ => .rfl, fun _ => .rfl, fun _ _ => .rfl⟩

theorem holds (h : Keeps s T T') (i : Nat) : T'.Holds s i ↔ T.Holds s i :=
  exists_congr fun m => h.lock i m

theorem trans (h : Keeps s T T') (h' : Keeps s T' T'') : Keeps s T T'' where
  staged := h'.staged.trans h.staged
  lock i m := (h'.lock i m).trans (h.lock i m)
  share i := (h'.share i).trans (h.share i)
  entry k := (h'.entry k).trans (h.entry k)
  rows r hr := (h'.rows r ((h.holds _).2 hr)).trans (h.rows r hr)

theorem idle (h : Keeps s T T') (hi : T.Idle s) : T'.Idle s where
  staged := h.staged.trans hi.staged
  lock i := fun hh => hi.lock i ((h.holds i).1 hh)
  share i := fun hh => hi.share i ((h.share i).1 hh)
  entry k := fun hh => hi.entry k ((h.entry k).1 hh)

end Keeps

/-- Taking locks that are free disturbs no other session. -/
theorem keeps_grab {T : Table α} {s u : Nat} {m : LockMode} {is : List Nat} (hu : u ≠ s)
    (h : ∀ i ∈ is, ∀ v, T.Holds v i → v = s) : Keeps u T (T.grab s m is) where
  staged := rfl
  lock i m' := by
    by_cases hi : i ∈ is
    · have : ¬ T.lock i = some (u, m') := fun e => hu (h i hi u ⟨m', e⟩)
      simp [grab, hi, this, Ne.symm hu]
    · simp [grab, hi]
  share _ := .rfl
  entry _ := .rfl
  rows _ _ := .rfl

theorem keeps_stage {T : Table α} {s u : Nat} {cs : List (Change α)} (hu : u ≠ s) :
    Keeps u T (T.stage s cs) where
  staged := T.stage_staged_ne s cs hu
  lock _ _ := .rfl
  share _ := .rfl
  entry _ := .rfl
  rows _ _ := .rfl

theorem keeps_release {T : Table α} {s u : Nat} (hu : u ≠ s) : Keeps u T (T.release s) where
  staged := T.release_staged_ne s hu
  lock i m := by
    simp only [release, Option.filter_eq_some_iff, bne_iff_ne, ne_eq, and_iff_left_iff_imp]
    exact fun _ => hu
  share i := by simp [release, hu]
  entry k := by
    simp only [release, Option.filter_eq_some_iff, bne_iff_ne, ne_eq, and_iff_left_iff_imp]
    exact fun _ => hu
  rows _ _ := .rfl

theorem keeps_keyShare {T T' : Table α} {s u i : Nat} (hu : u ≠ s)
    (h : T.keyShare s i = some T') : Keeps u T T' := by
  have key : Keeps u T { T with share := Function.update T.share i (s :: T.share i) } :=
    { staged := rfl
      lock := fun _ _ => .rfl
      share := fun j => by
        by_cases e : j = i
        · subst e; simp [hu]
        · simp [e]
      entry := fun _ => .rfl
      rows := fun _ _ => .rfl }
  unfold keyShare at h
  split at h
  · split at h
    · cases h; exact key
    · cases h
  · cases h; exact key

/-! ## Well-formed tables -/

/-- Row numbers are distinct and below `n`, a session changes only rows it locked and writes them
under its name, and the rows it inserts have new numbers. -/
structure Wf (n : Nat) (T : Table α) : Prop where
  nodup : (T.rows.map (·.id)).Nodup
  below : ∀ r ∈ T.rows, r.id < n
  lockBelow : ∀ i, (T.lock i).isSome → i < n
  locked : ∀ s, ∀ c ∈ T.staged s, T.Holds s c.id
  written : ∀ s, ∀ c ∈ T.staged s, c.By s
  inserted : ∀ s r, .insert r ∈ T.staged s → ∀ x ∈ T.rows, x.id ≠ r.id
  distinct : ∀ s, ((T.staged s).filterMap fun
    | .insert r => some r.id
    | _ => none).Nodup

theorem wf_empty (n : Nat) : Wf n (empty : Table α) :=
  ⟨by simp [empty], by simp [empty], by simp [empty], by simp [empty], by simp [empty],
    by simp [empty], by simp [empty]⟩

namespace Wf

variable {n : Nat} {T : Table α} {s : Nat}

theorem mono (h : Wf n T) {m : Nat} (hm : n ≤ m) : Wf m T :=
  ⟨h.nodup, fun r hr => Nat.lt_of_lt_of_le (h.below r hr) hm,
    fun i hi => Nat.lt_of_lt_of_le (h.lockBelow i hi) hm, h.locked, h.written, h.inserted,
    h.distinct⟩

/-- The rows a session sees have numbers below the bound. -/
theorem view_below (h : Wf n T) {r : Version α} (hr : r ∈ T.view s) : r.id < n := by
  rcases mem_view hr with hr | hr | hr
  · exact h.below r hr
  all_goals
    obtain ⟨m, hm⟩ := h.locked s _ hr
    exact h.lockBelow _ (by simp only [Change.id] at hm; simp [hm])

theorem grab (h : Wf n T) {m : LockMode} {is : List Nat} (hb : ∀ i ∈ is, i < n)
    (hf : ∀ i ∈ is, ∀ v, T.Holds v i → v = s) : Wf n (T.grab s m is) where
  nodup := h.nodup
  below := h.below
  lockBelow i hi := by
    by_cases e : i ∈ is
    · exact hb i e
    · exact h.lockBelow i (by simpa [Table.grab, e] using hi)
  locked u c hc := by
    have hl := h.locked u c hc
    by_cases e : c.id ∈ is
    · obtain rfl := hf _ e _ hl
      exact holds_grab (.inl e)
    · obtain ⟨m', hm⟩ := hl
      exact ⟨m', by simp [Table.grab, e, hm]⟩
  written := h.written
  inserted := h.inserted
  distinct := h.distinct

/-- New changes to locked rows that insert nothing. -/
theorem stage (h : Wf n T) {cs : List (Change α)} (hl : ∀ c ∈ cs, T.Holds s c.id)
    (hb : ∀ c ∈ cs, c.By s) (hn : ∀ r, .insert r ∉ cs) : Wf n (T.stage s cs) where
  nodup := h.nodup
  below := h.below
  lockBelow := h.lockBelow
  locked u c hc := by
    by_cases e : u = s
    · subst e
      rw [stage_staged, List.mem_append] at hc
      exact hc.elim (h.locked u c) (hl c)
    · rw [stage_staged_ne _ _ _ e] at hc
      exact h.locked u c hc
  written u c hc := by
    by_cases e : u = s
    · subst e
      rw [stage_staged, List.mem_append] at hc
      exact hc.elim (h.written u c) (hb c)
    · rw [stage_staged_ne _ _ _ e] at hc
      exact h.written u c hc
  inserted u r hr := by
    by_cases e : u = s
    · subst e
      rw [stage_staged, List.mem_append] at hr
      exact h.inserted u r (hr.resolve_right (hn r))
    · rw [stage_staged_ne _ _ _ e] at hr
      exact h.inserted u r hr
  distinct u := by
    by_cases e : u = s
    · subst e
      rw [stage_staged, List.filterMap_append]
      have : cs.filterMap (fun
          | Change.insert r => some r.id
          | _ => none) = [] := by
        rw [List.filterMap_eq_nil_iff]
        intro c hc
        cases c with
        | insert r => exact absurd hc (hn r)
        | update | delete => rfl
      rw [this, List.append_nil]
      exact h.distinct u
    · rw [stage_staged_ne _ _ _ e]
      exact h.distinct u

/-- Inserting a row with the first unused number. -/
theorem insert (h : Wf n T) (a : α) : Wf (n + 1) (T.insert s n a) := by
  have hf : ∀ i ∈ [n], ∀ v, T.Holds v i → v = s := by
    rintro i hi v ⟨m, hm⟩
    obtain rfl := List.mem_singleton.1 hi
    exact absurd (h.lockBelow i (by simp [hm])) (Nat.lt_irrefl i)
  have hg : Wf (n + 1) (T.grab s .update [n]) := (h.mono n.le_succ).grab (by simp) hf
  refine ⟨hg.nodup, hg.below, hg.lockBelow, fun u c hc => ?_, fun u c hc => ?_,
    fun u r hr x hx => ?_, fun u => ?_⟩
  · by_cases e : u = s
    · subst e
      rw [Table.insert, stage_staged, List.mem_append, List.mem_singleton] at hc
      rcases hc with hc | rfl
      · exact hg.locked u c hc
      · exact holds_grab (.inl List.mem_cons_self)
    · rw [Table.insert, stage_staged_ne _ _ _ e] at hc
      exact hg.locked u c hc
  · by_cases e : u = s
    · subst e
      rw [Table.insert, stage_staged, List.mem_append, List.mem_singleton] at hc
      rcases hc with hc | rfl
      · exact h.written u c hc
      · exact rfl
    · rw [Table.insert, stage_staged_ne _ _ _ e] at hc
      exact h.written u c hc
  · by_cases e : u = s
    · subst e
      rw [Table.insert, stage_staged, List.mem_append, List.mem_singleton] at hr
      rcases hr with hr | hr
      · exact h.inserted u r hr x hx
      · cases hr
        exact Nat.ne_of_lt (h.below x hx)
    · rw [Table.insert, stage_staged_ne _ _ _ e] at hr
      exact h.inserted u r hr x hx
  · by_cases e : u = s
    · subst e
      rw [Table.insert, stage_staged, List.filterMap_append, List.nodup_append]
      refine ⟨h.distinct u, by simp, fun i hi j hj => ?_⟩
      simp only [List.filterMap_cons, List.filterMap_nil, List.mem_singleton] at hj
      obtain ⟨c, hc, hci⟩ := List.mem_filterMap.1 hi
      cases c with
      | insert r =>
        cases hci
        obtain ⟨m, hm⟩ := h.locked u _ hc
        simp only [Change.id] at hm
        have := h.lockBelow r.id (by simp [hm])
        omega
      | update | delete => cases hci
    · rw [Table.insert, stage_staged_ne _ _ _ e]
      exact h.distinct u

theorem release (h : Wf n T) : Wf n (T.release s) where
  nodup := h.nodup
  below := h.below
  lockBelow i hi := h.lockBelow i (by
    simp only [Table.release, Option.isSome_filter, Option.any_eq_true] at hi
    obtain ⟨x, hx, -⟩ := hi
    simp [hx])
  locked u c hc := by
    have e : u ≠ s := by rintro rfl; simp at hc
    rw [release_staged_ne _ _ e] at hc
    obtain ⟨m, hm⟩ := h.locked u c hc
    exact ⟨m, by simp [Table.release, Option.filter_eq_some_iff, hm, e]⟩
  written u c hc := by
    have e : u ≠ s := by rintro rfl; simp at hc
    rw [release_staged_ne _ _ e] at hc
    exact h.written u c hc
  inserted u r hr := by
    have e : u ≠ s := by rintro rfl; simp at hr
    rw [release_staged_ne _ _ e] at hr
    exact h.inserted u r hr
  distinct u := by
    by_cases e : u = s
    · subst e; simp
    · rw [release_staged_ne _ _ e]
      exact h.distinct u

/-- A key share lock touches nothing that well-formedness speaks of. -/
theorem keyShare (h : Wf n T) {T' : Table α} {i : Nat} (hk : T.keyShare s i = some T') :
    Wf n T' := by
  unfold Table.keyShare at hk
  split at hk
  · split at hk
    · cases hk; exact ⟨h.nodup, h.below, h.lockBelow, h.locked, h.written, h.inserted, h.distinct⟩
    · cases hk
  · cases hk; exact ⟨h.nodup, h.below, h.lockBelow, h.locked, h.written, h.inserted, h.distinct⟩

end Wf

/-! ## Commits -/

/-- A change to a row that session `u` holds is a change of `u`. -/
theorem Wf.foreign {n : Nat} {T : Table α} (h : Wf n T) {s u : Nat} (hu : u ≠ s)
    {r : Version α} (hr : T.Holds u r.id) : ∀ c ∈ T.staged s, c.id ≠ r.id := by
  intro c hc e
  exact hu (hr.unique (e ▸ h.locked s c hc))

theorem keeps_commit {n : Nat} {T : Table α} (h : Wf n T) {s u : Nat} (hu : u ≠ s) :
    Keeps u T (T.commit s) :=
  have k : Keeps u T (T.release s) := keeps_release hu
  { staged := k.staged, lock := k.lock, share := k.share, entry := k.entry
    rows := fun _ hr => mem_foldl_apply_of_ne (h.foreign hu hr) _ }

theorem nodup_foldl_apply {cs : List (Change α)} {rows : List (Version α)}
    (hr : (rows.map (·.id)).Nodup) (hi : ∀ r, .insert r ∈ cs → ∀ x ∈ rows, x.id ≠ r.id)
    (hd : (cs.filterMap fun
      | .insert r => some r.id
      | _ => none).Nodup) : ((cs.foldl Change.apply rows).map (·.id)).Nodup := by
  induction cs generalizing rows with
  | nil => exact hr
  | cons c cs ih =>
    have hi' := fun r hr => hi r (List.mem_cons_of_mem _ hr)
    cases c with
    | insert x =>
      simp only [List.filterMap_cons, List.nodup_cons] at hd
      have hx : x.id ∉ rows.map (·.id) := by
        intro hm
        obtain ⟨y, hy, e⟩ := List.mem_map.1 hm
        exact hi x List.mem_cons_self y hy e
      refine ih ?_ (fun r hr y hy => ?_) hd.2
      · simp only [Change.apply, List.map_append, List.map_cons, List.map_nil]
        exact List.nodup_append.2 ⟨hr, by simp, fun a ha b hb e => hx (by
          rw [List.mem_singleton] at hb; rwa [e, hb] at ha)⟩
      · simp only [Change.apply, List.mem_append, List.mem_singleton] at hy
        rcases hy with hy | rfl
        · exact hi' r hr y hy
        · rintro e
          exact hd.1 (List.mem_filterMap.2 ⟨_, hr, by rw [e]⟩)
    | update x =>
      have hp : Change.apply rows (.update x) = put x rows := rfl
      rw [List.foldl_cons, hp]
      refine ih (by rwa [put_map_id]) (fun r hr y hy => ?_) hd
      have hy' : y.id ∈ (put x rows).map (·.id) := List.mem_map_of_mem hy
      rw [put_map_id] at hy'
      obtain ⟨z, hz, e⟩ := List.mem_map.1 hy'
      exact e ▸ hi' r hr z hz
    | delete i =>
      refine ih ?_ (fun r hr y hy => hi' r hr y (List.mem_of_mem_filter hy)) hd
      exact hr.sublist (List.filter_sublist.map _)

theorem Wf.commit {n : Nat} {T : Table α} (h : Wf n T) (s : Nat) : Wf n (T.commit s) := by
  have hr : Wf n (T.release s) := h.release
  refine ⟨nodup_foldl_apply h.nodup (h.inserted s) (h.distinct s), fun r => h.view_below,
    hr.lockBelow, hr.locked, hr.written, fun u r hi x hx => ?_, hr.distinct⟩
  have e : u ≠ s := by
    rintro rfl
    rw [commit_staged] at hi
    cases hi
  have hi' : .insert r ∈ T.staged u := by
    rwa [show (T.commit s).staged u = T.staged u from T.release_staged_ne s e] at hi
  rcases mem_view hx with hx | hx | hx
  · exact h.inserted u r hi' x hx
  all_goals
    intro ex
    refine e ((h.locked u _ hi').unique ?_)
    rw [show (Change.insert r).id = x.id from ex.symm]
    exact h.locked s _ hx

/-! ## Statements, one lemma each -/

section statements
variable {n : Nat} {T T' : Table α} {s : Nat}

/-- A statement of session `s`: committed rows stay, the others keep what is theirs, and the table
stays well formed. -/
structure Own (n n' : Nat) (s : Nat) (T T' : Table α) : Prop where
  rows : T'.rows = T.rows
  keeps : ∀ u, u ≠ s → Keeps u T T'
  wf : Wf n' T'

theorem holders_of_free {mode : LockMode} {hit : List (Version α)}
    (h : ∀ r ∈ hit, T.free s mode r.id = true) :
    ∀ i ∈ hit.map (·.id), ∀ v, T.Holds v i → v = s := by
  intro i hi v hv
  obtain ⟨r, hr, rfl⟩ := List.mem_map.1 hi
  exact free_of_all (h r hr) hv

/-- An update that selects no row changes nothing. -/
theorem updateWhere_nil {T : Table α} {s : Nat} {p : Version α → Bool} {f : α → α}
    (hp : ∀ r ∈ T.view s, p r = false) : T.updateWhere s p f = some ([], T) := by
  have hnil : (T.view s).filter p = [] := List.filter_eq_nil_iff.2 fun r hr => by simp [hp r hr]
  simp [updateWhere, hnil, grab, stage]

/-- What `UPDATE` does: the rows that match get a new version, written by `s`, and are locked. -/
theorem updateWhere_spec (h : Wf n T) {p : Version α → Bool} {f : α → α}
    {new : List (Version α)} (hu : T.updateWhere s p f = some (new, T')) :
    Own n n s T T' ∧
    new = ((T.view s).filter p).map (fun r => { r with writer := s, val := f r.val }) ∧
    T'.staged s = T.staged s ++ new.map .update ∧ (∀ r ∈ new, T'.Holds s r.id) ∧
    (∀ i, T.Holds s i → T'.Holds s i) ∧ T'.share = T.share ∧ T'.entry = T.entry := by
  simp only [updateWhere, Option.ite_none_right_eq_some, Option.some.injEq, Prod.mk.injEq,
    List.all_eq_true] at hu
  obtain ⟨hf, rfl, rfl⟩ := hu
  have hold := holders_of_free hf
  have hb : ∀ i ∈ ((T.view s).filter p).map (·.id), i < n := by
    intro i hi
    obtain ⟨r, hr, rfl⟩ := List.mem_map.1 hi
    exact h.view_below (List.mem_of_mem_filter hr)
  have hl : ∀ r ∈ ((T.view s).filter p).map (fun r => { r with writer := s, val := f r.val }),
      (T.grab s .noKeyUpdate (((T.view s).filter p).map (·.id))).Holds s r.id := by
    intro r hr
    obtain ⟨x, hx, rfl⟩ := List.mem_map.1 hr
    exact holds_grab (.inl (List.mem_map_of_mem (f := (·.id)) hx))
  refine ⟨⟨rfl, fun u e => (keeps_grab e hold).trans (keeps_stage e), ?_⟩, rfl, by simp, hl,
    fun i hi => holds_grab (.inr hi), rfl, rfl⟩
  refine (h.grab hb hold).stage (fun c hc => ?_) (fun c hc => ?_) (fun r hr => ?_)
  · obtain ⟨r, hr, rfl⟩ := List.mem_map.1 hc
    exact hl r hr
  · obtain ⟨r, hr, rfl⟩ := List.mem_map.1 hc
    obtain ⟨x, -, rfl⟩ := List.mem_map.1 hr
    exact rfl
  · obtain ⟨_, _, he⟩ := List.mem_map.1 hr
    cases he

/-- What `SELECT … FOR UPDATE SKIP LOCKED` does: the rows returned are locked. -/
theorem lockWhere_spec (h : Wf n T) {p : Version α → Bool}
    {pick : List (Version α) → List (Version α)} (hp : ∀ l, ∀ r ∈ pick l, r ∈ l) :
    Own n n s T (T.lockWhere s p pick).2 ∧
    (T.lockWhere s p pick).2.staged = T.staged ∧
    (∀ r ∈ (T.lockWhere s p pick).1, r ∈ T.view s ∧ p r = true ∧
      (T.lockWhere s p pick).2.Holds s r.id ∧ ∀ v, T.Holds v r.id → v = s) ∧
    (∀ i, (T.lockWhere s p pick).2.Holds s i →
      T.Holds s i ∨ ∃ r ∈ (T.lockWhere s p pick).1, r.id = i) := by
  have hhit : ∀ r ∈ (T.lockWhere s p pick).1, r ∈ T.view s ∧ p r = true ∧
      T.free s .update r.id = true := by
    intro r hr
    have := hp _ r hr
    simpa [List.mem_filter, and_assoc] using this
  have hold := holders_of_free (fun r hr => (hhit r hr).2.2)
  refine ⟨⟨rfl, fun u e => keeps_grab e hold, h.grab (fun i hi => ?_) hold⟩, rfl,
    fun r hr => ⟨(hhit r hr).1, (hhit r hr).2.1, holds_grab (.inl (List.mem_map_of_mem hr)),
      hold _ (List.mem_map_of_mem hr)⟩, fun i ⟨m, hm⟩ => ?_⟩
  · obtain ⟨r, hr, rfl⟩ := List.mem_map.1 hi
    exact h.view_below (hhit r hr).1
  · by_cases hi : i ∈ (T.lockWhere s p pick).1.map (·.id)
    · obtain ⟨r, hr, e⟩ := List.mem_map.1 hi
      exact .inr ⟨r, hr, e⟩
    · simp only [lockWhere, grab] at hm hi
      exact .inl ⟨m, by simpa [hi] using hm⟩

/-- The rows returned are different. -/
theorem lockWhere_nodup (h : Wf n T) {p : Version α → Bool}
    {pick : List (Version α) → List (Version α)} (hp : ∀ l, (pick l).Subperm l) :
    ((T.lockWhere s p pick).1.map (·.id)).Nodup := by
  obtain ⟨l, hperm, hsub⟩ := hp ((T.view s).filter fun r => p r && T.free s .update r.id)
  have hn : ((T.view s).map (·.id)).Nodup := (h.commit s).nodup
  exact (hperm.map _).nodup_iff.1 (hn.sublist ((hsub.trans List.filter_sublist).map _))

/-- What `DELETE` does: the rows that match are deleted and locked. -/
theorem deleteWhere_spec (h : Wf n T) {p : Version α → Bool} {k : Nat}
    (hd : T.deleteWhere s p = some (k, T')) :
    Own n n s T T' ∧
    T'.staged s = T.staged s ++ (((T.view s).filter p).map (·.id)).map .delete ∧
    ∀ r ∈ (T.view s).filter p, T'.Holds s r.id := by
  simp only [deleteWhere, Option.ite_none_right_eq_some, Option.some.injEq, Prod.mk.injEq,
    List.all_eq_true] at hd
  obtain ⟨hf, -, rfl⟩ := hd
  have hold := holders_of_free hf
  have hl : ∀ r ∈ (T.view s).filter p,
      (T.grab s .update (((T.view s).filter p).map (·.id))).Holds s r.id :=
    fun r hr => holds_grab (.inl (List.mem_map_of_mem hr))
  refine ⟨⟨rfl, fun u e => (keeps_grab e hold).trans (keeps_stage e), ?_⟩, by simp, hl⟩
  refine (h.grab (fun i hi => ?_) hold).stage (fun c hc => ?_) (fun c hc => ?_) (fun r hr => ?_)
  · obtain ⟨r, hr, rfl⟩ := List.mem_map.1 hi
    exact h.view_below (List.mem_of_mem_filter hr)
  · obtain ⟨r, hr, rfl⟩ := List.mem_map.1 hc
    exact hl r hr
  · obtain ⟨i, -, rfl⟩ := List.mem_map.1 hc
    trivial
  · obtain ⟨_, _, he⟩ := List.mem_map.1 hr
    cases he

/-- What `INSERT` does, numbering the row with the first unused number. -/
theorem insert_spec (h : Wf n T) (a : α) :
    Own n (n + 1) s T (T.insert s n a) ∧
    (T.insert s n a).staged s = T.staged s ++ [.insert ⟨n, s, a⟩] ∧
    (T.insert s n a).Holds s n := by
  have hf : ∀ i ∈ [n], ∀ v, T.Holds v i → v = s := by
    rintro i hi v ⟨m, hm⟩
    obtain rfl := List.mem_singleton.1 hi
    exact absurd (h.lockBelow i (by simp [hm])) (Nat.lt_irrefl i)
  exact ⟨⟨rfl, fun u e => (keeps_grab e hf).trans (keeps_stage e), h.insert a⟩, by
    simp [Table.insert], holds_grab (.inl List.mem_cons_self)⟩

theorem keeps_entry {u : Nat} (e : u ≠ s) (k : String) (hk : ∀ v, T.entry k = some v → v = s) :
    Keeps u T { T with entry := Function.update T.entry k (some s) } where
  staged := rfl
  lock _ _ := .rfl
  share _ := .rfl
  entry k' := by
    by_cases ek : k' = k
    · subst ek
      simp only [Function.update_self, Option.some.injEq]
      exact ⟨fun h => absurd h (Ne.symm e), fun h => absurd (hk u h) e⟩
    · simp [ek]
  rows _ _ := .rfl

/-- What `INSERT` into a table with a unique index does, when it does not wait. -/
theorem insertUnique_spec (h : Wf n T) {key : α → Option String} {a : α}
    (hi : T.insertUnique s n key a = some (.ok T')) :
    Own n (n + 1) s T T' ∧ T'.staged s = T.staged s ++ [.insert ⟨n, s, a⟩] ∧
    (∀ k, key a = some k → ∀ r ∈ T.view s, key r.val ≠ some k) := by
  obtain ⟨ho, hs, -⟩ := T.insert_spec (s := s) h a
  unfold insertUnique at hi
  split at hi
  · next hk =>
    cases hi
    exact ⟨ho, hs, fun k e => by rw [hk] at e; cases e⟩
  · next k hk =>
    split at hi
    · cases hi
    · next hent =>
      split at hi
      · split at hi <;> cases hi
      · next hfind =>
        cases hi
        have hent' : ∀ v, (T.insert s n a).entry k = some v → v = s := by
          intro v hv
          by_contra hne
          exact hent (by rw [show T.entry k = some v from hv]; simpa using hne)
        refine ⟨⟨ho.rows, fun u e => (ho.keeps u e).trans (keeps_entry e k hent'),
          ⟨ho.wf.nodup, ho.wf.below, ho.wf.lockBelow, ho.wf.locked, ho.wf.written, ho.wf.inserted,
            ho.wf.distinct⟩⟩, hs, fun k' e r hr hkr => ?_⟩
        rw [hk] at e
        cases e
        have := List.find?_eq_none.1 hfind r hr
        simp [hkr] at this

/-- An inserted row has its entry in the index. -/
theorem insertUnique_entry {key : α → Option String} {a : α} {i : Nat} {k : String}
    (hk : key a = some k) (hi : T.insertUnique s i key a = some (.ok T')) :
    T'.entry k = some s := by
  simp only [insertUnique, hk] at hi
  split at hi
  · cases hi
  · split at hi
    · split at hi <;> cases hi
    · cases hi
      exact Function.update_self _ _ _

/-- An insert fails only on a row that has its key. -/
theorem insertUnique_error {key : α → Option String} {a : α} {i : Nat}
    (hi : T.insertUnique s i key a = some (.error ())) :
    ∃ k, key a = some k ∧ ∃ r ∈ T.view s, key r.val = some k := by
  unfold insertUnique at hi
  split at hi
  · cases hi
  · next k hk =>
    split at hi
    · cases hi
    · split at hi
      · next r hr =>
        exact ⟨k, hk, r, List.mem_of_find?_eq_some hr, by simpa using List.find?_some hr⟩
      · cases hi

theorem keyShare_spec (h : Wf n T) {i : Nat} (hk : T.keyShare s i = some T') :
    Own n n s T T' ∧ T'.staged = T.staged ∧ T'.lock = T.lock := by
  refine ⟨⟨?_, fun u e => keeps_keyShare e hk, h.keyShare hk⟩, ?_⟩ <;>
  · unfold keyShare at hk
    split at hk
    · split at hk
      · cases hk; simp
      · cases hk
    · cases hk; simp

theorem keyShare_entry {i : Nat} (hk : T.keyShare s i = some T') : T'.entry = T.entry := by
  unfold keyShare at hk
  split at hk
  · split at hk <;> cases hk
    rfl
  · cases hk
    rfl

end statements

/-! ## How rows evolve -/

/-- How rows evolve: none disappears, and each is old, moved by `P`, or new and of kind `N`. -/
structure Evolves (P : Version α → Version α → Prop) (N : Version α → Prop)
    (rows rows' : List (Version α)) : Prop where
  kept : ∀ r ∈ rows, ∃ r' ∈ rows', r'.id = r.id
  step : ∀ r' ∈ rows', r' ∈ rows ∨ (∃ r ∈ rows, r.id = r'.id ∧ P r r') ∨
    ((∀ r ∈ rows, r.id ≠ r'.id) ∧ N r')

/-- Where rows are only moved, and keep what `key` says of them, as many rows have key `i`. -/
theorem Evolves.count {P : Version α → Version α → Prop} {rows rows' : List (Version α)}
    (h : Evolves P (fun _ => False) rows rows') (hn : (rows.map (·.id)).Nodup)
    (hn' : (rows'.map (·.id)).Nodup) {key : α → Nat} (hk : ∀ r r', P r r' → key r'.val = key r.val)
    (i : Nat) :
    (rows'.filter fun r => key r.val == i).length = (rows.filter fun r => key r.val == i).length := by
  have hkey : ∀ r' ∈ rows', ∃ r ∈ rows, r.id = r'.id ∧ key r.val = key r'.val := by
    intro r' hr'
    rcases h.step r' hr' with hr | ⟨r, hr, e, hP⟩ | ⟨-, hN⟩
    · exact ⟨r', hr, rfl, rfl⟩
    · exact ⟨r, hr, e, (hk r r' hP).symm⟩
    · exact hN.elim
  have hperm : ((rows'.filter fun r => key r.val == i).map (·.id)).Perm
      ((rows.filter fun r => key r.val == i).map (·.id)) := by
    refine (List.perm_ext_iff_of_nodup (hn'.sublist (List.filter_sublist.map _))
      (hn.sublist (List.filter_sublist.map _))).2 fun a => ?_
    simp only [List.mem_map, List.mem_filter, beq_iff_eq]
    constructor
    · rintro ⟨r', ⟨hr', hi⟩, rfl⟩
      obtain ⟨r, hr, e, hkr⟩ := hkey r' hr'
      exact ⟨r, ⟨hr, hkr.trans hi⟩, e⟩
    · rintro ⟨r, ⟨hr, hi⟩, rfl⟩
      obtain ⟨r', hr', e⟩ := h.kept r hr
      obtain ⟨r₀, hr₀, e₀, hkr⟩ := hkey r' hr'
      obtain rfl := eq_of_id hn hr₀ hr (e₀.trans e)
      exact ⟨r', ⟨hr', hkr.symm.trans hi⟩, e⟩
  simpa using hperm.length_eq

/-! ## What holds of all row versions -/

/-- `P` holds of every committed row, and of every row version an open transaction made. -/
structure Everywhere (P : Version α → Prop) (T : Table α) : Prop where
  rows : ∀ r ∈ T.rows, P r
  inserted : ∀ s r, .insert r ∈ T.staged s → P r
  updated : ∀ s r, .update r ∈ T.staged s → P r

namespace Everywhere

variable {P : Version α → Prop} {T T' : Table α} {s n m : Nat}

theorem made (h : Everywhere P T) {r : Version α}
    (hr : .insert r ∈ T.staged s ∨ .update r ∈ T.staged s) : P r :=
  hr.elim (h.inserted s r) (h.updated s r)

theorem of_made (hrows : ∀ r ∈ T.rows, P r)
    (h : ∀ s r, .insert r ∈ T.staged s ∨ .update r ∈ T.staged s → P r) : Everywhere P T :=
  ⟨hrows, fun s r hr => h s r (.inl hr), fun s r hr => h s r (.inr hr)⟩

/-- Where no transaction is open, only the committed rows matter. -/
theorem of_idle (h : ∀ s, T.Idle s) (hrows : ∀ r ∈ T.rows, P r) : Everywhere P T := by
  refine of_made hrows fun s r hr => ?_
  rw [(h s).staged] at hr
  rcases hr with hr | hr <;> cases hr

theorem view (h : Everywhere P T) {r : Version α} (hr : r ∈ T.view s) : P r :=
  (Table.mem_view hr).elim (h.rows r) h.made

theorem congr (h : Everywhere P T) (hr : T'.rows = T.rows) (hs : T'.staged = T.staged) :
    Everywhere P T' :=
  ⟨hr ▸ h.rows, hs ▸ h.inserted, hs ▸ h.updated⟩

/-- Session `s` adds changes that make versions as required. -/
theorem append (h : Everywhere P T) (ho : Own n m s T T') {cs : List (Change α)}
    (hs : T'.staged s = T.staged s ++ cs)
    (hc : ∀ r, .insert r ∈ cs ∨ .update r ∈ cs → P r) : Everywhere P T' := by
  refine of_made (ho.rows ▸ h.rows) fun u r hr => ?_
  by_cases hu : u = s
  · subst hu
    rw [hs, List.mem_append, List.mem_append] at hr
    rcases hr with (hr | hr) | (hr | hr)
    · exact h.made (.inl hr)
    · exact hc r (.inl hr)
    · exact h.made (.inr hr)
    · exact hc r (.inr hr)
  · rw [(ho.keeps u hu).staged] at hr
    exact h.made hr

/-- An update whose new versions are as required. -/
theorem updateWhere (h : Everywhere P T) (hw : Wf n T) {p : Version α → Bool} {f : α → α}
    {new : List (Version α)} (hu : T.updateWhere s p f = some (new, T'))
    (hf : ∀ r ∈ T.view s, p r = true → P r → P { r with writer := s, val := f r.val }) :
    Everywhere P T' := by
  obtain ⟨ho, rfl, hs, -⟩ := updateWhere_spec hw hu
  refine h.append ho hs fun r hr => ?_
  simp only [List.mem_map, List.mem_filter, reduceCtorEq, and_false, exists_false, false_or,
    Change.update.injEq, exists_eq_right] at hr
  obtain ⟨x, ⟨hx, hp⟩, rfl⟩ := hr
  exact hf x hx hp (h.view hx)

theorem insert (h : Everywhere P T) (hw : Wf n T) {a : α} (ha : P ⟨n, s, a⟩) :
    Everywhere P (T.insert s n a) := by
  obtain ⟨ho, hs, -⟩ := T.insert_spec (s := s) hw a
  refine h.append ho hs fun r hr => ?_
  simp only [List.mem_singleton, Change.insert.injEq, reduceCtorEq, or_false] at hr
  exact hr ▸ ha

theorem insertUnique (h : Everywhere P T) (hw : Wf n T) {key : α → Option String} {a : α}
    (hi : T.insertUnique s n key a = some (.ok T')) (ha : P ⟨n, s, a⟩) : Everywhere P T' := by
  obtain ⟨ho, hs, -⟩ := insertUnique_spec hw hi
  refine h.append ho hs fun r hr => ?_
  simp only [List.mem_singleton, Change.insert.injEq, reduceCtorEq, or_false] at hr
  exact hr ▸ ha

theorem lockWhere (h : Everywhere P T) {p : Version α → Bool}
    {pick : List (Version α) → List (Version α)} : Everywhere P (T.lockWhere s p pick).2 :=
  h.congr rfl rfl

theorem keyShare (h : Everywhere P T) (hw : Wf n T) {i : Nat} (hk : T.keyShare s i = some T') :
    Everywhere P T' :=
  have ⟨ho, hs, _⟩ := keyShare_spec hw hk
  h.congr ho.rows hs

theorem release (h : Everywhere P T) : Everywhere P (T.release s) := by
  refine of_made h.rows fun u r hr => ?_
  by_cases hu : u = s
  · subst hu
    rw [T.release_staged] at hr
    rcases hr with hr | hr <;> cases hr
  · rw [T.release_staged_ne s hu] at hr
    exact h.made hr

theorem rollback (h : Everywhere P T) : Everywhere P (T.rollback s) := h.release

theorem commit (h : Everywhere P T) : Everywhere P (T.commit s) :=
  have hr := h.release (s := s)
  ⟨fun _ hm => h.view hm, hr.inserted, hr.updated⟩

end Everywhere

end Table

end ShipmentImport

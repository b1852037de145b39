import ShipmentImport.Lib.Blocking
import ShipmentImport.Lib.Executions
import ShipmentImport.Lib.System

/-!
# Sessions and processes that are alone

While no other session has an open transaction, nothing a session asks for is held, and it works on
its view as on a list. A process that nobody interferes with, and whose statements do not wait, goes
through one execution of its program to the end.
-/

namespace ShipmentImport

/-! ## Tables -/

/-- The version session `s` makes of a row. -/
def Version.update {α : Type} (s : Nat) (f : α → α) (r : Version α) : Version α :=
  ⟨r.id, s, f r.val⟩

namespace Table

variable {α : Type} {T T' : Table α} {s n : Nat} {p : Version α → Bool} {f : α → α}

/-- No other session has an open transaction. -/
def Alone (s : Nat) (T : Table α) : Prop := ∀ u, u ≠ s → T.Idle u

theorem view_insert (i : Nat) (a : α) : (T.insert s i a).view s = T.view s ++ [⟨i, s, a⟩] := by
  simp [view, insert, Change.apply]

/-- Updates of different rows, one after the other. -/
theorem foldl_apply_update {us : List (Version α)} (hn : (us.map (·.id)).Nodup)
    (rows : List (Version α)) : (us.map Change.update).foldl Change.apply rows =
      rows.map fun r => (us.find? (·.id == r.id)).getD r := by
  induction us generalizing rows with
  | nil => simp
  | cons u us ih =>
    rw [List.map_cons, List.nodup_cons] at hn
    rw [List.map_cons, List.foldl_cons, ih hn.2, Change.apply, List.map_map]
    refine List.map_congr_left fun r _ => ?_
    rw [Function.comp_apply, List.find?_cons]
    by_cases hr : r.id = u.id
    · have hnone : us.find? (·.id == u.id) = none := by
        rw [List.find?_eq_none]
        intro v hv hvu
        exact hn.1 (List.mem_map.2 ⟨v, hv, by simpa using hvu⟩)
      rw [if_pos hr, hnone, hr, beq_self_eq_true]
      rfl
    · rw [if_neg hr, beq_eq_false_iff_ne.2 (Ne.symm hr)]

namespace Alone

theorem free (h : T.Alone s) (mode : LockMode) (i : Nat) : T.free s mode i = true := by
  by_contra hf
  obtain ⟨u, hu, hh | ⟨-, hh⟩⟩ := not_free_iff.1 (Bool.eq_false_iff.2 hf)
  · exact (h u hu).lock i hh
  · exact (h u hu).share i hh

/-- No row is skipped. -/
theorem lockWhere (h : T.Alone s) (pick : List (Version α) → List (Version α)) : ∃ T',
    T.lockWhere s p pick = (pick ((T.view s).filter p), T') ∧ T'.view s = T.view s :=
  ⟨_, Prod.ext (by simp [Table.lockWhere, h.free]) rfl, rfl⟩

theorem updateWhere (h : T.Alone s) (hw : T.Wf n) : ∃ T',
    T.updateWhere s p f = some (((T.view s).filter p).map (.update s f), T') ∧
      T'.view s = (T.view s).map fun r => if p r then r.update s f else r := by
  have hall : (((T.view s).filter p).all fun r => T.free s .noKeyUpdate r.id) = true := by
    simp [h.free]
  refine ⟨_, by rw [Table.updateWhere, if_pos hall]; rfl, ?_⟩
  have hview : ((T.view s).map (·.id)).Nodup := (hw.commit s).nodup
  have hnodup : ((((T.view s).filter p).map (Version.update s f)).map (·.id)).Nodup := by
    rw [List.map_map]
    exact hview.sublist (List.filter_sublist.map _)
  have hstep : ∀ r ∈ T.view s,
      ((((T.view s).filter p).map (Version.update s f)).find? (·.id == r.id)).getD r =
        if p r then r.update s f else r := by
    intro r hr
    cases hp : p r with
    | true =>
      have hmem := List.mem_map_of_mem (f := Version.update s f) (List.mem_filter.2 ⟨hr, hp⟩)
      have hfind := (find?_eq_some hnodup (i := r.id)).2 ⟨hmem, rfl⟩
      rw [hfind]
      rfl
    | false =>
      rw [List.find?_eq_none.2]
      · rfl
      · intro x hx hxr
        obtain ⟨y, hy, rfl⟩ := List.mem_map.1 hx
        obtain ⟨hy, hpy⟩ := List.mem_filter.1 hy
        obtain rfl := eq_of_id hview hy hr (by simpa [Version.update] using hxr)
        rw [hp] at hpy
        cases hpy
  rw [view, stage_staged, grab_staged, stage_rows, grab_rows, List.foldl_append]
  exact (foldl_apply_update hnodup _).trans (List.map_congr_left hstep)

theorem keyShare (h : T.Alone s) (i : Nat) : ∃ T', T.keyShare s i = some T' ∧
    T'.view s = T.view s := by
  cases hk : T.keyShare s i with
  | none =>
    obtain ⟨u, hu, hb⟩ := keyShare_eq_none.1 hk
    exact absurd ⟨_, hb⟩ ((h u hu).lock i)
  | some T' =>
    obtain ⟨sh, rfl⟩ := keyShare_eq hk
    exact ⟨_, rfl, rfl⟩

end Alone

end Table

/-! ## Settling rows -/

namespace Table

variable {α : Type} {P : Version α → Bool} {ks ks' : List Nat} {rows rows' : List (Version α)}

/-- The rows as they were, of which those with `P` and a number in `ks`, and only they, have it no
more. -/
def Settles (P : Version α → Bool) (ks : List Nat) (rows rows' : List (Version α)) : Prop :=
  ∃ g : Version α → Version α, rows' = rows.map g ∧ ∀ r ∈ rows, (g r).id = r.id ∧
    (P (g r) = true → g r = r ∧ r.id ∉ ks) ∧ (P r = true → r.id ∉ ks → g r = r)

namespace Settles

theorem refl : Settles P [] rows rows := ⟨id, by simp, fun r _ => by simp⟩

theorem ids (h : Settles P ks rows rows') : rows'.map (·.id) = rows.map (·.id) := by
  obtain ⟨g, rfl, hg⟩ := h
  rw [List.map_map]
  exact List.map_congr_left fun r hr => (hg r hr).1

/-- A row that is not settled is still there. -/
theorem mem (h : Settles P ks rows rows') {r : Version α} (hr : r ∈ rows) (hp : P r = true)
    (hk : r.id ∉ ks) : r ∈ rows' := by
  obtain ⟨g, rfl, hg⟩ := h
  have := List.mem_map_of_mem (f := g) hr
  rwa [(hg r hr).2.2 hp hk] at this

/-- A row that has `P` is one of those that are not settled. -/
theorem of_mem (h : Settles P ks rows rows') {r : Version α} (hr : r ∈ rows') (hp : P r = true) :
    r ∈ rows ∧ r.id ∉ ks := by
  obtain ⟨g, rfl, hg⟩ := h
  obtain ⟨x, hx, rfl⟩ := List.mem_map.1 hr
  obtain ⟨he, hk⟩ := (hg x hx).2.1 hp
  rw [he]
  exact ⟨hx, hk⟩

/-- An update takes `P` away from the rows it selects, which are those of `ks'` where they have
it. -/
theorem update {s : Nat} {sel : Version α → Bool} {f : α → α} (h : Settles P ks rows rows')
    (hsel : ∀ r ∈ rows', sel r = true → P (r.update s f) = false ∧ (P r = true → r.id ∈ ks'))
    (hks : ∀ r ∈ rows', r.id ∈ ks' → P r = true → sel r = true) :
    Settles P (ks ++ ks') rows (rows'.map fun r => if sel r then r.update s f else r) := by
  obtain ⟨g, rfl, hg⟩ := h
  refine ⟨fun r => if sel (g r) then (g r).update s f else g r, by rw [List.map_map]; rfl,
    fun r hr => ?_⟩
  obtain ⟨hid, hold, hnew⟩ := hg r hr
  have hgr : g r ∈ rows.map g := List.mem_map_of_mem hr
  cases hs : sel (g r) with
  | true =>
    obtain ⟨hp, hk⟩ := hsel _ hgr hs
    simp only [hs, if_true]
    refine ⟨hid, fun h => ?_, fun hpr hnot => ?_⟩
    · rw [hp] at h
      cases h
    · rw [List.mem_append, not_or] at hnot
      have he := hnew hpr hnot.1
      exact absurd (hid ▸ hk (by rwa [he])) hnot.2
  | false =>
    simp only [hs, Bool.false_eq_true, if_false]
    refine ⟨hid, fun hp => ?_, fun hpr hnot => hnew hpr fun hk => hnot (List.mem_append_left _ hk)⟩
    obtain ⟨he, hk⟩ := hold hp
    refine ⟨he, fun hm => (List.mem_append.1 hm).elim hk fun hk' => ?_⟩
    rw [hks _ hgr (by rwa [hid]) hp] at hs
    cases hs

/-- Settling a row leaves fewer with `P`. -/
theorem countP_lt (h : Settles P ks rows rows') (hk : ∃ r ∈ rows, P r = true ∧ r.id ∈ ks) :
    rows'.countP P < rows.countP P := by
  obtain ⟨g, rfl, hg⟩ := h
  have hle : ∀ l : List (Version α), (∀ r ∈ l, r ∈ rows) → (l.map g).countP P ≤ l.countP P := by
    intro l hl
    rw [List.countP_map]
    refine List.countP_mono_left fun r hr hp => ?_
    rw [← ((hg r (hl r hr)).2.1 hp).1]
    exact hp
  obtain ⟨r, hr, hp, hk⟩ := hk
  obtain ⟨l, l', rfl⟩ := List.append_of_mem hr
  have hgr : P (g r) = false := Bool.eq_false_iff.2 fun h => ((hg r hr).2.1 h).2 hk
  have h1 := hle l fun x hx => List.mem_append_left _ hx
  have h2 := hle l' fun x hx => List.mem_append_right _ (List.mem_cons_of_mem _ hx)
  simp only [List.map_append, List.map_cons, List.countP_append, List.countP_cons, hp, hgr]
  simp only [Bool.false_eq_true, if_false, if_true]
  omega

end Settles

end Table

/-! ## Processes -/

namespace Prog

variable {S : Type} {R : S → Type} {E W α : Type}

/-- A program that has ended. -/
def ended : Except E α → Prog S R E α
  | .ok a => ret a
  | .error e => raise e

/-- What the statements of an execution keep holds at its end, where the program issues none of the
others as long as they reply as they do. -/
theorem Ends.keeps_of {exec : (s : S) → W → Except E (R s) → W → Prop}
    {ok : (s : S) → Except E (R s) → Prop} {I : S → Prop} {K : W → Prop}
    {Q : Except E α → Prop}
    (hexec : ∀ s w r w', I s → K w → exec s w r w' → ok s r ∧ K w') {x : Prog S R E α} {w w' : W}
    {σ τ : List (Exchange S R E)} {o : Except E α} (h : Ends exec Eq x w τ o w')
    (hf : x.Free ok (fun _ => I) (fun _ => Q) σ) (hw : K w) : K w' ∧ Q o := by
  induction h generalizing σ with
  | ret | raise => exact ⟨hw, hf⟩
  | stmt henv hx _ ih =>
    cases henv
    obtain ⟨hr, hw'⟩ := hexec _ _ _ _ hf.1 hw hx
    exact ih (hf.2 _ hr) hw'

end Prog

namespace Machine

variable {S : Type} {R : S → Type} {E T W Ret C A : Type} {M : Machine S R E T W Ret C A}

/-- The processes after one has started. -/
theorem proc_append {c : Config S R E T W Ret} {x : Option (T × Prog S R E Ret)} {w : W}
    {fs : List (Nat × T × Except E Ret)} (q : Nat) :
    Config.proc { world := w, procs := c.procs ++ [x], finished := fs } q =
      if q = c.procs.length then x else c.proc q := by
  unfold Config.proc
  rcases Nat.lt_trichotomy q c.procs.length with hlt | rfl | hlt
  · rw [List.getElem?_append_left hlt, if_neg (Nat.ne_of_lt hlt)]
  · simp
  · rw [if_neg (Nat.ne_of_gt hlt), List.getElem?_eq_none (Nat.le_of_lt hlt),
      List.getElem?_eq_none (by rw [List.length_append]; exact hlt)]

/-- A process whose program has ended can end. -/
theorem next_finish {c : Config S R E T W Ret} {p : Nat} {t : T} {o : Except E Ret}
    (hp : c.proc p = some (t, Prog.ended o)) : M.next c (.finish p) = some
      { world := M.close p t c.world, procs := c.procs.set p none
        finished := (p, t, o) :: c.finished } := by
  cases o <;> simp only [next, hp, Prog.ended]

/-- An execution of the first part of a program is a run of the process, which the others see. -/
theorem run_of_ends (ok : Config S R E T W Ret → Action T C A → Prop) {p : Nat} {t : T}
    {choice : S → C} (hok : ∀ c s, ok c (.step p (choice s))) {α : Type} {x : Prog S R E α}
    {f : α → Prog S R E Ret} {w w' : W} {τ : List (Prog.Exchange S R E)} {a : α}
    (h : Prog.Ends (fun s w r w' => M.exec p t s (choice s) w = some (r, w')) Eq x w τ (.ok a) w')
    {c : Config S R E T W Ret} (hp : c.proc p = some (t, x.bind f)) (hw : c.world = w) :
    ∃ c', M.Run ok c c' ∧ c'.world = w' ∧ c'.proc p = some (t, f a) ∧
      ∀ q, q ≠ p → c'.proc q = c.proc q := by
  generalize ho : (Except.ok a : Except E α) = o at h
  induction h generalizing c with
  | ret =>
    cases ho
    exact ⟨c, .refl, hw, hp, fun _ _ => rfl⟩
  | raise => cases ho
  | @stmt s k _ w₁ w₂ _ r _ _ henv hx _ ih =>
    cases henv
    cases hw
    have hn : M.next c (.step p (choice s)) =
        some { c with world := w₂, procs := c.procs.set p (some (t, (k r).bind f)) } := by
      simp only [next, hp, Prog.bind, hx, Option.map_some]
    have hproc := fun q => Outline.proc_set hp (some (t, (k r).bind f)) q w₂ c.finished
    obtain ⟨c', hr, hw', hp', hq⟩ := ih (by rw [hproc, if_pos rfl]) rfl ho
    exact ⟨c', .head ⟨_, hok c s, hn⟩ hr, hw', hp', fun q hne => by rw [hq q hne, hproc, if_neg hne]⟩

/-- A process whose statements never wait when they go by the choice `ch` comes to the end of its
program. -/
theorem exists_ends (ok : Config S R E T W Ret → Action T C A → Prop) {p : Nat} {ch : C} {t : T}
    {I : Config S R E T W Ret → Prop} (hok : ∀ c, I c → ok c (.step p ch))
    (hgo : ∀ c s k, I c → c.proc p = some (t, .stmt s k) → (M.exec p t s ch c.world).isSome)
    (hI : ∀ c c', I c → M.next c (.step p ch) = some c' → I c') {x : Prog S R E Ret}
    {c : Config S R E T W Ret} (hc : I c) (hp : c.proc p = some (t, x)) : ∃ τ o c',
      Prog.Ends (fun s w r w' => M.exec p t s ch w = some (r, w')) Eq x c.world τ o c'.world ∧
        M.Run ok c c' ∧ I c' ∧ c'.proc p = some (t, Prog.ended o) := by
  induction x generalizing c with
  | ret a => exact ⟨[], .ok a, c, .ret, .refl, hc, hp⟩
  | raise e => exact ⟨[], .error e, c, .raise, .refl, hc, hp⟩
  | stmt s k ih =>
    obtain ⟨⟨r, w⟩, hx⟩ := Option.isSome_iff_exists.1 (hgo c s k hc hp)
    have hn : M.next c (.step p ch) =
        some { c with world := w, procs := c.procs.set p (some (t, k r)) } := by
      simp only [next, hp, hx, Option.map_some]
    obtain ⟨τ, o, c', he, hr, hc', hp'⟩ := ih r (hI _ _ hc hn)
      ((Outline.proc_set hp _ p w c.finished).trans (if_pos rfl))
    exact ⟨_, o, c', .stmt rfl hx he, .head ⟨_, hok c hc, hn⟩ hr, hc', hp'⟩

end Machine

end ShipmentImport

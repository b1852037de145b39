import ShipmentImport.Refinement.Protocol

/-!
# Rules for transactions and sessions

The rules of `transaction`, `inTransaction`, `withSession` and `forEach`, and of the statements that
end a transaction. Postconditions are given as `Outcome ok err`: one assertion for a value, one for
an exception.
-/

namespace ShipmentImport

abbrev Assertion := World × Ghost → Prop

/-- `ok a` after the value `a`, `err e` after the exception `e`. -/
def Outcome {α : Type} (ok : α → Assertion) (err : Exc → Assertion) : Except Exc α → Assertion
  | .ok a => ok a
  | .error e => err e

/-- The same of the outcome of a transaction. -/
def Attempted {α β : Type} (ok : β → Assertion) (err : Exc → Assertion) : Attempt α β → Assertion
  | .ok b => ok b
  | .error (_, e) => err e

/-- No exception. -/
abbrev Total {α : Type} (ok : α → Assertion) : Except Exc α → Assertion :=
  Outcome ok fun _ _ => False

section
variable {C : Setting} {p : Nat} {t : Task}

theorem stable_false : C.Stable p fun _ => False := fun _ _ _ h => h

theorem stable_outcome {α : Type} {ok : α → Assertion} {err : Exc → Assertion}
    (hok : ∀ a, C.Stable p (ok a)) (herr : ∀ e, C.Stable p (err e)) :
    ∀ r, C.Stable p (Outcome ok err r)
  | .ok a => hok a
  | .error e => herr e

/-- The locks a query takes are not on PENDING imports. -/
theorem locksOk_of_exec {server : Server} {clock : Time} {d d' : Database} {q : Query}
    {r : Except Fault q.Reply} (h : d.Wf)
    (hx : (d.begin p clock).exec server clock p q = some (r, d'))
    (hq : ∀ r ∈ d.importJobs.rows, q.jobsLocked r → r.val.status ≠ .pending) :
    LocksOk p d d' := by
  intro i hi
  have hb := (Database.own_begin (s := p) h clock).wf
  rcases Database.exec_locks hb hx hi with hi | rfl | ⟨r, hr, rfl, hl⟩
  · exact .inl hi
  · refine .inr fun r hr e => ?_
    have hlt : r.id < d.issued := h.jobs.below r hr
    exact absurd (e ▸ hlt) (Nat.lt_irrefl _)
  · refine .inr fun r' hr' e => ?_
    rw [Table.eq_of_id h.jobs.nodup hr' hr e]
    exact hq r hr hl

/-- Giving up a transaction. -/
theorem Dispatched.rollback {w : World} {g : Ghost} (h : Dispatched w g) (hw : w.db.Wf) :
    Dispatched (w.rollback p) g where
  carried r hr hp := h.carried r hr hp
  covered r hr hp s hs := by
    by_cases hsp : s = p
    · subst hsp
      exact absurd hs ((Database.idle_rollback w.db s).jobs.lock r.id)
    · have ho := Database.own_rollback (s := p) hw
      have hc := h.covered r hr hp s (((ho.keeps s hsp).jobs.holds _).1 hs)
      show Covered (w.withDb (w.db.rollback p)) g s r.id
      exact hc.other hsp ho

namespace Setting.Spec

theorem rollback_exec {s : Stmt} (hs : s = .rollback ∨ s = .close) {ch : Choice} {w w' : World}
    {r : Except Exc s.Reply} (he : World.exec C.env p t s ch w = some (r, w')) :
    (∃ a, r = .ok a) ∧ w' = w.rollback p := by
  rcases hs with rfl | rfl <;>
  · cases ch with
    | run => cases he; exact ⟨⟨(), rfl⟩, rfl⟩
    | fail f => cases he
    | lost f => cases he

/-- The rule of a rollback, and of the end of a session. -/
theorem giveUp {s : Stmt} (hs : s = .rollback ∨ s = .close) {A B : Assertion}
    (hB : C.Stable p B) (h : ∀ w g, C.Inv (w, g) → A (w, g) → B (w.rollback p, g)) :
    C.Spec p t A (Py.stmt s) (Total fun _ => B) := by
  refine stmt (stable_outcome (fun _ => hB) fun _ => stable_false) fun w g r w' ch hi ha he _ => ?_
  obtain ⟨⟨a, rfl⟩, rfl⟩ := rollback_exec hs he
  exact ⟨g, quiet_step _ _ hi (Database.own_rollback hi.wf) (ghostStep_refl _ _ _) (fun _ _ => .inl)
    (fun ht => (hi.dispatched ht).rollback hi.wf) (fun _ => .inl) (fun s' r e => by
      cases e
      rcases hs with rfl | rfl <;> trivial), h w g hi ha⟩

theorem close {A B : Assertion} (hB : C.Stable p B)
    (h : ∀ w g, C.Inv (w, g) → A (w, g) → B (w.rollback p, g)) :
    C.Spec p t A (Py.stmt .close) (Total fun _ => B) :=
  giveUp (.inr rfl) hB h

/-! ## Programs -/

variable {α β : Type} {A : Assertion}

theorem ret {a : α} {ok : α → Assertion} {err : Exc → Assertion} (h : ∀ x, A x → ok a x) :
    C.Spec p t A (pure a) (Outcome ok err) :=
  Protocol.Triple.ret h

theorem raise {e : Exc} {ok : α → Assertion} {err : Exc → Assertion} (h : ∀ x, A x → err e x) :
    C.Spec p t A (throw e : Py α) (Outcome ok err) :=
  Protocol.Triple.raise h

theorem lift {x : Except Fault α} {err : Exc → Assertion} (h : ∀ e y, A y → err e y) :
    C.Spec p t A (Py.lift x) (Outcome (fun a y => x = .ok a ∧ A y) err) := by
  cases x with
  | ok a => exact ret fun _ hy => ⟨rfl, hy⟩
  | error f => exact raise fun y hy => h _ y hy

theorem seq {x : Py α} {f : α → Py β} {M : α → Assertion} {ok : β → Assertion}
    {err : Exc → Assertion} (hx : C.Spec p t A x (Outcome M err))
    (hf : ∀ a, C.Spec p t (M a) (f a) (Outcome ok err)) :
    C.Spec p t A (x >>= f) (Outcome ok err) :=
  Protocol.Triple.bind hx hf fun _ _ h => h

theorem handle {x : Py α} {h : Exc → Py α} {ok : α → Assertion} {M err : Exc → Assertion}
    (hx : C.Spec p t A x (Outcome ok M)) (hh : ∀ e, C.Spec p t (M e) (h e) (Outcome ok err)) :
    C.Spec p t A (x.tryCatch h) (Outcome ok err) :=
  Protocol.Triple.tryCatch hx (fun _ _ h => h) hh

/-- `attempt` followed by what is done with the outcome. -/
theorem attempted {x : Py α} {f : Except Exc α → Py β} {ok : α → Assertion} {err : Exc → Assertion}
    {Q : Except Exc β → Assertion} (hx : C.Spec p t A x (Outcome ok err))
    (hok : ∀ a, C.Spec p t (ok a) (f (.ok a)) Q) (herr : ∀ e, C.Spec p t (err e) (f (.error e)) Q) :
    C.Spec p t A (x.attempt >>= f) Q := by
  refine Protocol.Triple.bind (M := fun r y => ∃ o, r = .ok o ∧ Outcome ok err o y)
    (Protocol.Triple.attempt (hx.post fun r y hy => ⟨r, rfl, hy⟩)) (fun o => ?_)
    (fun e y ⟨_, h, _⟩ => nomatch h)
  cases o with
  | ok a => exact fun y ⟨_, ho, hy⟩ => by cases ho; exact hok a y hy
  | error e => exact fun y ⟨_, ho, hy⟩ => by cases ho; exact herr e y hy

theorem weaken {x : Py α} {ok ok' : α → Assertion} {err err' : Exc → Assertion}
    (hx : C.Spec p t A x (Outcome ok err)) (hok : ∀ a y, ok a y → ok' a y)
    (herr : ∀ e y, err e y → err' e y) : C.Spec p t A x (Outcome ok' err') :=
  hx.post fun r => match r with
    | .ok a => hok a
    | .error e => herr e

/-- The rule of `transaction`: `E` holds when something raises, and is what the rollback starts
from. -/
theorem transaction {first : Py α} {rest : α → Py β} {M : α → Assertion} {N : α → β → Assertion}
    {E : Option α → Exc → Assertion} {Q : Attempt α β → Assertion}
    (hfirst : C.Spec p t A first (Outcome M (E none)))
    (hrest : ∀ a, C.Spec p t (M a) (rest a) (Outcome (N a) (E (some a))))
    (hcommit : ∀ a b, C.Spec p t (N a b) (Py.stmt .commit)
      (Outcome (fun _ => Q (.ok b)) (E (some a))))
    (hrollback : ∀ o e, C.Spec p t (E o e) (Py.stmt .rollback) (Total fun _ => Q (.error (o, e)))) :
    C.Spec p t A (ShipmentImport.transaction first rest) (Total Q) := by
  unfold ShipmentImport.transaction
  have hgive : ∀ o e, C.Spec p t (E o e) (do
      Py.stmt .rollback
      return .error (o, e)) (Total Q) := fun o e =>
    seq (hrollback o e) fun _ => ret fun _ h => h
  refine attempted hfirst (fun a => ?_) fun e => hgive none e
  refine attempted (hrest a) (fun b => ?_) fun e => hgive (some a) e
  exact attempted (hcommit a b) (fun _ => ret fun _ h => h) fun e => hgive (some a) e

/-- The rule of `with session.begin()`. -/
theorem inTransaction {body : Py α} {N L : α → Assertion} {E F : Exc → Assertion}
    (hbody : C.Spec p t A body (Outcome N E))
    (hcommit : ∀ a, C.Spec p t (N a) (Py.stmt .commit) (Outcome (fun _ => L a) E))
    (hrollback : ∀ e, C.Spec p t (E e) (Py.stmt .rollback) (Total fun _ => F e)) :
    C.Spec p t A (ShipmentImport.inTransaction body) (Outcome L F) := by
  unfold ShipmentImport.inTransaction
  refine seq (M := Attempted L F) ?_ ?_
  · refine weaken (transaction (N := fun a b y => a = b ∧ N a y) (E := fun _ => E) hbody
      (fun a => ret fun _ h => ⟨rfl, h⟩) (fun a b => ?_) fun _ e => hrollback e)
      (fun _ _ h => h) fun _ _ h => h.elim
    exact Protocol.Triple.of_and fun h => h ▸ hcommit a
  · rintro (⟨_, e⟩ | a)
    · exact raise fun _ h => h
    · exact ret fun _ h => h

/-- The rule of a session: `B` is what the end of the session makes of either outcome. -/
theorem withSession {body : Py α} {N L : α → Assertion} {E F : Exc → Assertion}
    (hbody : C.Spec p t A body (Outcome N E))
    (hok : ∀ a, C.Spec p t (N a) (Py.stmt .close) (Total fun _ => L a))
    (herr : ∀ e, C.Spec p t (E e) (Py.stmt .close) (Total fun _ => F e)) :
    C.Spec p t A (ShipmentImport.withSession body) (Outcome L F) := by
  unfold ShipmentImport.withSession
  refine attempted hbody (fun a => ?_) fun e => ?_
  · exact seq (weaken (hok a) (fun _ _ h => h) fun _ _ h => h.elim) fun _ => ret fun _ h => h
  · exact seq (weaken (herr e) (fun _ _ h => h) fun _ _ h => h.elim) fun _ => raise fun _ h => h

/-- The rule of a loop over a list, whose invariant is indexed by what was done. -/
theorem forEach {l : List α} {f : α → Py Unit} {I : List α → Assertion} {E : Exc → Assertion}
    (h : ∀ done x rest, l = done ++ x :: rest →
      C.Spec p t (I done) (f x) (Outcome (fun _ => I (done ++ [x])) E)) :
    C.Spec p t (I []) (ShipmentImport.forEach l f) (Outcome (fun _ => I l) E) := by
  suffices key : ∀ rest done, l = done ++ rest →
      C.Spec p t (I done) (ShipmentImport.forEach rest f) (Outcome (fun _ => I l) E) from
    key l [] rfl
  intro rest
  induction rest with
  | nil =>
    intro done hl
    rw [List.append_nil] at hl
    subst hl
    exact ret fun _ h => h
  | cons x rest ih =>
    intro done hl
    exact seq (h done x rest hl) fun _ => ih _ (by rw [hl, List.append_assoc]; rfl)

end Setting.Spec

end

end ShipmentImport

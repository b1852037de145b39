import Mathlib.Logic.Relation

/-!
# Programs over statements, and rely–guarantee reasoning

A program is a tree of statements: each node issues one statement and continues with its reply, or
with the exception it raised. What a statement does is not part of the tree, so the same program
runs alone, interleaved with others, or against any other reading of its statements.

`Protocol` fixes one such reading for processes that share a world: what a statement may do
(`exec`), what every process may rely on the others to do (`guar`, `env`), and an invariant of the
world with auxiliary data. `Protocol.Safe` is the weakest precondition of a program under
interference by the others, and `Protocol.Triple` its pre- and postcondition form; the rules below
follow the constructors of programs.
-/

namespace ShipmentImport

open Relation

/-- A program with result `α`: finished, raising an exception, or issuing a statement. -/
inductive Prog (S : Type) (R : S → Type) (E : Type) (α : Type) : Type
  | ret (a : α)
  | raise (e : E)
  | stmt (s : S) (k : Except E (R s) → Prog S R E α)

namespace Prog

variable {S : Type} {R : S → Type} {E α β : Type}

/-- Sequential composition; an exception skips the continuation. -/
def bind : Prog S R E α → (α → Prog S R E β) → Prog S R E β
  | ret a, f => f a
  | raise e, _ => raise e
  | stmt s k, f => stmt s fun r => (k r).bind f

instance : Monad (Prog S R E) where
  pure := ret
  bind := bind

/-- Run `x` and hand its outcome, a value or an exception, to the continuation. -/
def attempt : Prog S R E α → Prog S R E (Except E α)
  | ret a => ret (.ok a)
  | raise e => ret (.error e)
  | stmt s k => stmt s fun r => (k r).attempt

/-- `try x except e: h e`. -/
def tryCatch (x : Prog S R E α) (h : E → Prog S R E α) : Prog S R E α :=
  x.attempt.bind fun
    | .ok a => ret a
    | .error e => h e

instance : MonadExcept E (Prog S R E) where
  throw := raise
  tryCatch := tryCatch

/-- Issue one statement. -/
def perform (s : S) : Prog S R E (R s) :=
  stmt s fun
    | .ok a => ret a
    | .error e => raise e

theorem bind_ret (x : Prog S R E α) : x.bind ret = x := by
  induction x with
  | ret | raise => rfl
  | stmt s k ih => exact congrArg _ (funext ih)

theorem bind_assoc {γ : Type} (x : Prog S R E α) (f : α → Prog S R E β) (g : β → Prog S R E γ) :
    (x.bind f).bind g = x.bind fun a => (f a).bind g := by
  induction x with
  | ret | raise => rfl
  | stmt s k ih => exact congrArg _ (funext ih)

/-! ### Free runs -/

/-- A statement with the reply it got. -/
abbrev Exchange (S : Type) (R : S → Type) (E : Type) : Type := (s : S) × Except E (R s)

/-- The program against any replies that `ok` admits, after the exchanges `τ`: `I` holds whenever it
issues a statement, and `Q` when it ends, of the exchanges up to then. -/
def Free (ok : (s : S) → Except E (R s) → Prop) (I : List (Exchange S R E) → S → Prop)
    (Q : List (Exchange S R E) → Except E α → Prop) : List (Exchange S R E) → Prog S R E α → Prop
  | τ, ret a => Q τ (.ok a)
  | τ, raise e => Q τ (.error e)
  | τ, stmt s k => I τ s ∧ ∀ r, ok s r → Free ok I Q (τ ++ [⟨s, r⟩]) (k r)

section free
variable {ok : (s : S) → Except E (R s) → Prop} {I : List (Exchange S R E) → S → Prop}

theorem Free.mono {Q Q' : List (Exchange S R E) → Except E α → Prop} (h : ∀ τ o, Q τ o → Q' τ o) :
    ∀ {x : Prog S R E α} {τ}, Free ok I Q τ x → Free ok I Q' τ x
  | ret _, _, hx | raise _, _, hx => h _ _ hx
  | stmt _ _, _, hx => ⟨hx.1, fun r hr => (hx.2 r hr).mono h⟩

/-- Weaker conditions on the statements and on the ends. -/
theorem Free.weaken {I' : List (Exchange S R E) → S → Prop}
    {Q Q' : List (Exchange S R E) → Except E α → Prop} (hI : ∀ τ s, I τ s → I' τ s)
    (hQ : ∀ τ o, Q τ o → Q' τ o) : ∀ {x : Prog S R E α} {τ}, Free ok I Q τ x → Free ok I' Q' τ x
  | ret _, _, hx | raise _, _, hx => hQ _ _ hx
  | stmt _ _, _, hx => ⟨hI _ _ hx.1, fun r hr => (hx.2 r hr).weaken hI hQ⟩

/-- Two conditions on the statements and on the ends. -/
theorem Free.and {I' : List (Exchange S R E) → S → Prop}
    {Q Q' : List (Exchange S R E) → Except E α → Prop} : ∀ {x : Prog S R E α} {τ},
      Free ok I Q τ x → Free ok I' Q' τ x →
        Free ok (fun τ s => I τ s ∧ I' τ s) (fun τ o => Q τ o ∧ Q' τ o) τ x
  | ret _, _, h, h' | raise _, _, h, h' => ⟨h, h'⟩
  | stmt _ _, _, h, h' => ⟨⟨h.1, h'.1⟩, fun r hr => (h.2 r hr).and (h'.2 r hr)⟩

/-- What does not depend on the exchanges holds after any exchanges. -/
theorem Free.after {I : S → Prop} {Q : Except E α → Prop} : ∀ {x : Prog S R E α} {τ τ'},
    Free ok (fun _ => I) (fun _ => Q) τ x → Free ok (fun _ => I) (fun _ => Q) τ' x
  | ret _, _, _, h | raise _, _, _, h => h
  | stmt _ _, _, _, h => ⟨h.1, fun r hr => (h.2 r hr).after⟩

theorem Free.trivial : ∀ {x : Prog S R E α} {τ},
    Free ok (fun _ _ => True) (fun _ _ => True) τ x
  | ret _, _ | raise _, _ => True.intro
  | stmt _ _, _ => ⟨True.intro, fun _ _ => Free.trivial⟩

theorem Free.bind {f : α → Prog S R E β} {Q : List (Exchange S R E) → Except E β → Prop} :
    ∀ {x : Prog S R E α} {τ}, Free ok I (fun τ o => match o with
        | .ok a => Free ok I Q τ (f a)
        | .error e => Q τ (.error e)) τ x → Free ok I Q τ (x.bind f)
  | ret _, _, hx | raise _, _, hx => hx
  | stmt _ _, _, hx => ⟨hx.1, fun r hr => (hx.2 r hr).bind⟩

theorem Free.attempt {Q : List (Exchange S R E) → Except E (Except E α) → Prop} :
    ∀ {x : Prog S R E α} {τ}, Free ok I (fun τ o => Q τ (.ok o)) τ x → Free ok I Q τ x.attempt
  | ret _, _, hx | raise _, _, hx => hx
  | stmt _ _, _, hx => ⟨hx.1, fun r hr => (hx.2 r hr).attempt⟩

theorem Free.tryCatch {Q : List (Exchange S R E) → Except E α → Prop} {h : E → Prog S R E α}
    {x : Prog S R E α} {τ} (hx : Free ok I (fun τ o => match o with
        | .ok a => Q τ (.ok a)
        | .error e => Free ok I Q τ (h e)) τ x) : Free ok I Q τ (x.tryCatch h) := by
  refine Free.bind (Free.attempt (hx.mono fun τ o ho => ?_))
  cases o with
  | ok a => exact ho
  | error e => exact ho

theorem Free.perform {s : S} {Q : List (Exchange S R E) → Except E (R s) → Prop} {τ}
    (hi : I τ s) (h : ∀ r, ok s r → Q (τ ++ [⟨s, r⟩]) r) : Free ok I Q τ (perform s) := by
  refine ⟨hi, fun r hr => ?_⟩
  have := h r hr
  cases r with
  | ok a => exact this
  | error e => exact this

/-- A statement and what follows it, unless it raises. -/
theorem Free.seq {s : S} {f : R s → Prog S R E β} {Q : List (Exchange S R E) → Except E β → Prop}
    {τ} (hi : I τ s) (hok : ∀ a, ok s (.ok a) → Free ok I Q (τ ++ [⟨s, .ok a⟩]) (f a))
    (herror : ∀ e, ok s (.error e) → Q (τ ++ [⟨s, .error e⟩]) (.error e)) :
    Free ok I Q τ ((Prog.perform s).bind f) := by
  refine Free.bind (Free.perform hi fun r hr => ?_)
  cases r with
  | ok a => exact hok a hr
  | error e => exact herror e hr

/-- What follows the outcome of an attempt. -/
theorem Free.attempted {x : Prog S R E α} {f : Except E α → Prog S R E β}
    {M : List (Exchange S R E) → Except E α → Prop}
    {Q : List (Exchange S R E) → Except E β → Prop} {τ} (hx : Free ok I M τ x)
    (hf : ∀ τ o, M τ o → Free ok I Q τ (f o)) : Free ok I Q τ (x.attempt.bind f) :=
  Free.bind (Free.attempt (hx.mono hf))

end free

end Prog

/-- What a process does in one step: an exchange, or `none` when it starts, ends or is killed. -/
abbrev Deed (S : Type) (R : S → Type) (E : Type) : Type := Option (Prog.Exchange S R E)

/-- A reading of statements for processes that share a world `W`: what a statement of process `p`
running task `t` may reply and do, an invariant of the world with auxiliary data `G`, and what a
process (`guar`) and the environment (`env`) may do to both. -/
structure Protocol (S : Type) (R : S → Type) (E T W G : Type) where
  exec : Nat → T → (s : S) → W → Except E (R s) → W → Prop
  inv : W × G → Prop
  guar : Nat → T → Deed S R E → W × G → W × G → Prop
  env : W × G → W × G → Prop

namespace Protocol

variable {S : Type} {R : S → Type} {E T W G α β : Type} (P : Protocol S R E T W G)
variable (p : Nat) (t : T)

/-- One step that process `p` sees others make. -/
def other (x y : W × G) : Prop :=
  P.inv x ∧ P.inv y ∧ ((∃ q u l, q ≠ p ∧ P.guar q u l x y) ∨ P.env x y)

/-- What process `p` relies on: any number of steps of the others. -/
def rely : W × G → W × G → Prop := ReflTransGen (P.other p)

/-- An assertion that the steps of the others keep. -/
def Stable (A : W × G → Prop) : Prop := ∀ x y, P.other p x y → A x → A y

/-- The weakest precondition under interference: from `x`, every statement of the program keeps
the invariant and the guarantee, whatever the others do in between, and every end meets `Q`. -/
def Safe : Prog S R E α → (Except E α → W × G → Prop) → W × G → Prop
  | .ret a, Q, x => Q (.ok a) x
  | .raise e, Q, x => Q (.error e) x
  | .stmt s k, Q, x => ∀ r w', P.inv x → P.exec p t s x.1 r w' →
      ∃ g', P.inv (w', g') ∧ P.guar p t (some ⟨s, r⟩) x (w', g') ∧
        ∀ y, P.rely p (w', g') y → Safe (k r) Q y

/-- Precondition `A`, program, postcondition `Q` on its outcome. -/
def Triple (A : W × G → Prop) (x : Prog S R E α) (Q : Except E α → W × G → Prop) : Prop :=
  ∀ y, A y → P.Safe p t x Q y

variable {P p t}

theorem Stable.rely {A : W × G → Prop} (h : P.Stable p A) {x y : W × G}
    (hr : P.rely p x y) (hx : A x) : A y := by
  induction hr with
  | refl => exact hx
  | tail _ hs ih => exact h _ _ hs ih

theorem Stable.and {A B : W × G → Prop} (hA : P.Stable p A) (hB : P.Stable p B) :
    P.Stable p fun x => A x ∧ B x :=
  fun x y h hx => ⟨hA x y h hx.1, hB x y h hx.2⟩

theorem Stable.const {A : Prop} : P.Stable p fun _ => A := fun _ _ _ h => h

theorem Stable.imp {A : Prop} {B : W × G → Prop} (h : A → P.Stable p B) :
    P.Stable p fun x => A → B x :=
  fun x y ho hx ha => h ha x y ho (hx ha)

theorem Stable.exists {ι : Sort*} {A : ι → W × G → Prop} (h : ∀ i, P.Stable p (A i)) :
    P.Stable p fun x => ∃ i, A i x :=
  fun x y ho ⟨i, hi⟩ => ⟨i, h i x y ho hi⟩

/-- The consequence rule on postconditions. -/
theorem Safe.mono {Q Q' : Except E α → W × G → Prop} (hQ : ∀ r x, Q r x → Q' r x) :
    ∀ {x : Prog S R E α} {y : W × G}, P.Safe p t x Q y → P.Safe p t x Q' y
  | .ret _, _, h | .raise _, _, h => hQ _ _ h
  | .stmt _ _, _, h => fun r w' hi he =>
    have ⟨g', h1, h2, h3⟩ := h r w' hi he
    ⟨g', h1, h2, fun z hz => (h3 z hz).mono hQ⟩

theorem Safe.bind {f : α → Prog S R E β} {Q : Except E β → W × G → Prop} :
    ∀ {x : Prog S R E α} {y : W × G},
      P.Safe p t x (fun r z => match r with
        | .ok a => P.Safe p t (f a) Q z
        | .error e => Q (.error e) z) y →
      P.Safe p t (x.bind f) Q y
  | .ret _, _, h | .raise _, _, h => h
  | .stmt _ _, _, h => fun r w' hi he =>
    have ⟨g', h1, h2, h3⟩ := h r w' hi he
    ⟨g', h1, h2, fun z hz => (h3 z hz).bind⟩

theorem Safe.attempt {Q : Except E (Except E α) → W × G → Prop} :
    ∀ {x : Prog S R E α} {y : W × G},
      P.Safe p t x (fun r z => Q (.ok r) z) y → P.Safe p t x.attempt Q y
  | .ret _, _, h | .raise _, _, h => h
  | .stmt _ _, _, h => fun r w' hi he =>
    have ⟨g', h1, h2, h3⟩ := h r w' hi he
    ⟨g', h1, h2, fun z hz => (h3 z hz).attempt⟩

/-- What every free run ends with, it ends with here. -/
theorem Safe.free {ok : (s : S) → Except E (R s) → Prop}
    {I : List (Prog.Exchange S R E) → S → Prop} {Q : Except E α → W × G → Prop}
    {Q' : Except E α → Prop} (hok : ∀ s w r w', P.exec p t s w r w' → ok s r) :
    ∀ {x : Prog S R E α} {y : W × G} {τ}, P.Safe p t x Q y → x.Free ok I (fun _ => Q') τ →
      P.Safe p t x (fun r z => Q' r ∧ Q r z) y
  | .ret _, _, _, h, hf | .raise _, _, _, h, hf => ⟨hf, h⟩
  | .stmt _ _, _, _, h, hf => fun r w' hi he =>
    have ⟨g', h1, h2, h3⟩ := h r w' hi he
    ⟨g', h1, h2, fun z hz => (h3 z hz).free hok (hf.2 r (hok _ _ _ _ he))⟩

/-- A program of a process whose statements keep the invariant and the guarantee. -/
theorem Safe.of_exec
    (h : ∀ s w g r w', P.inv (w, g) → P.exec p t s w r w' →
      ∃ g', P.inv (w', g') ∧ P.guar p t (some ⟨s, r⟩) (w, g) (w', g')) :
    ∀ {x : Prog S R E α} {y : W × G}, P.Safe p t x (fun _ _ => True) y
  | .ret _, _ | .raise _, _ => True.intro
  | .stmt s _, (w, g) => fun r w' hi he =>
    have ⟨g', h1, h2⟩ := h s w g r w' hi he
    ⟨g', h1, h2, fun _ _ => Safe.of_exec h⟩

/-- A protocol `P'` with a stronger invariant, which the steps of `p` keep by themselves. -/
theorem Safe.strengthen {P' : Protocol S R E T W G} {Q : Except E α → W × G → Prop}
    (hexec : ∀ s w r w', P'.exec p t s w r w' → P.exec p t s w r w')
    (hinv : ∀ x, P'.inv x → P.inv x)
    (hguar : ∀ l x y, P.guar p t l x y → P'.guar p t l x y)
    (hother : ∀ x y, P'.other p x y → P.other p x y)
    (hkeep : ∀ s w g r w' g', P'.inv (w, g) → P'.exec p t s w r w' → P.inv (w', g') →
      P.guar p t (some ⟨s, r⟩) (w, g) (w', g') → P'.inv (w', g')) :
    ∀ {x : Prog S R E α} {y : W × G}, P.Safe p t x Q y → P'.Safe p t x Q y
  | .ret _, _, h | .raise _, _, h => h
  | .stmt _ _, _, h => fun r w' hi he =>
    have ⟨g', h1, h2, h3⟩ := h r w' (hinv _ hi) (hexec _ _ _ _ he)
    ⟨g', hkeep _ _ _ _ _ _ hi he h1 h2, hguar _ _ _ h2, fun z hz =>
      (h3 z (ReflTransGen.mono hother _ _ hz)).strengthen hexec hinv hguar hother hkeep⟩

namespace Triple

variable {A B : W × G → Prop}

theorem ret {a : α} {Q : Except E α → W × G → Prop} (h : ∀ x, A x → Q (.ok a) x) :
    P.Triple p t A (.ret a) Q := h

theorem raise {e : E} {Q : Except E α → W × G → Prop} (h : ∀ x, A x → Q (.error e) x) :
    P.Triple p t A (.raise e) Q := h

theorem pre {x : Prog S R E α} {Q : Except E α → W × G → Prop} (h : P.Triple p t B x Q)
    (hAB : ∀ y, A y → B y) : P.Triple p t A x Q :=
  fun y hy => h y (hAB y hy)

theorem post {x : Prog S R E α} {Q Q' : Except E α → W × G → Prop} (h : P.Triple p t A x Q)
    (hQ : ∀ r y, Q r y → Q' r y) : P.Triple p t A x Q' :=
  fun y hy => (h y hy).mono hQ

/-- What every free run ends with holds in the postcondition as well. -/
theorem free {ok : (s : S) → Except E (R s) → Prop} {I : List (Prog.Exchange S R E) → S → Prop}
    {x : Prog S R E α} {Q : Except E α → W × G → Prop} {Q' : Except E α → Prop}
    (h : P.Triple p t A x Q) (hok : ∀ s w r w', P.exec p t s w r w' → ok s r)
    (hf : x.Free ok I (fun _ => Q') []) : P.Triple p t A x fun r z => Q' r ∧ Q r z :=
  fun y hy => (h y hy).free hok hf

/-- Facts that do not mention the world move out of a precondition. -/
theorem of_and {C : Prop} {x : Prog S R E α} {Q : Except E α → W × G → Prop}
    (h : C → P.Triple p t A x Q) : P.Triple p t (fun y => C ∧ A y) x Q :=
  fun y hy => h hy.1 y hy.2

theorem of_exists {ι : Sort*} {A : ι → W × G → Prop} {x : Prog S R E α}
    {Q : Except E α → W × G → Prop} (h : ∀ i, P.Triple p t (A i) x Q) :
    P.Triple p t (fun y => ∃ i, A i y) x Q :=
  fun y ⟨i, hi⟩ => h i y hi

theorem of_or {x : Prog S R E α} {Q : Except E α → W × G → Prop} (hA : P.Triple p t A x Q)
    (hB : P.Triple p t B x Q) : P.Triple p t (fun y => A y ∨ B y) x Q :=
  fun y hy => hy.elim (hA y) (hB y)

theorem bind {x : Prog S R E α} {f : α → Prog S R E β} {M : Except E α → W × G → Prop}
    {Q : Except E β → W × G → Prop} (hx : P.Triple p t A x M)
    (hf : ∀ a, P.Triple p t (M (.ok a)) (f a) Q)
    (he : ∀ e y, M (.error e) y → Q (.error e) y) : P.Triple p t A (x.bind f) Q := by
  intro y hy
  refine Safe.bind ((hx y hy).mono fun r z hz => ?_)
  cases r with
  | ok a => exact hf a z hz
  | error e => exact he e z hz

theorem attempt {x : Prog S R E α} {Q : Except E (Except E α) → W × G → Prop}
    (hx : P.Triple p t A x fun r y => Q (.ok r) y) : P.Triple p t A x.attempt Q :=
  fun y hy => (hx y hy).attempt

/-- The rule of what follows the outcome of an attempt. -/
theorem attempted {x : Prog S R E α} {f : Except E α → Prog S R E β}
    {M : Except E α → W × G → Prop} {Q : Except E β → W × G → Prop} (hx : P.Triple p t A x M)
    (hf : ∀ o, P.Triple p t (M o) (f o) Q) : P.Triple p t A (x.attempt.bind f) Q :=
  bind (M := fun r y => ∃ o, r = .ok o ∧ M o y) (attempt (hx.post fun r y hy => ⟨r, rfl, hy⟩))
    (fun o y ⟨_, ho, hy⟩ => hf o y (by cases ho; exact hy)) fun e y ⟨_, h, _⟩ => nomatch h

/-- The rule of `try`: the handler starts from what holds when the exception is raised. -/
theorem tryCatch {x : Prog S R E α} {h : E → Prog S R E α} {M Q : Except E α → W × G → Prop}
    (hx : P.Triple p t A x M) (hok : ∀ a y, M (.ok a) y → Q (.ok a) y)
    (hh : ∀ e, P.Triple p t (M (.error e)) (h e) Q) : P.Triple p t A (x.tryCatch h) Q := by
  refine attempted hx fun o => ?_
  cases o with
  | ok a => exact ret (hok a)
  | error e => exact hh e

/-- The rule of a single statement: its postcondition is stable, and every outcome keeps the
invariant and the guarantee. -/
theorem perform {s : S} {Q : Except E (R s) → W × G → Prop} (hQ : ∀ r, P.Stable p (Q r))
    (h : ∀ w g r w', P.inv (w, g) → A (w, g) → P.exec p t s w r w' →
      ∃ g', P.inv (w', g') ∧ P.guar p t (some ⟨s, r⟩) (w, g) (w', g') ∧ Q r (w', g')) :
    P.Triple p t A (.perform s) Q := by
  intro y hy r w' hi he
  obtain ⟨g', h1, h2, h3⟩ := h y.1 y.2 r w' hi hy he
  refine ⟨g', h1, h2, fun z hz => ?_⟩
  have hz' := (hQ r).rely hz h3
  cases r with
  | ok a => exact hz'
  | error e => exact hz'

end Triple

end Protocol

end ShipmentImport

import ShipmentImport.Lib.Program

/-!
# Systems of processes

A `Machine` gives statements an executable reading and says what starting, ending and killing a
process does to the world. A `Config` is a world with its processes; `Machine.next` is one step of
the system, in which the action carries every choice that is not the programs' own.

`Outline` collects what a rely–guarantee proof of a machine needs, one obligation per kind of
action, and `Outline.sound` is the induction over runs done once: in every configuration a run
reaches, the invariant holds and every live process is safe to continue. `Keeper` is the simpler
rule for what all processes keep because of what they issue.
-/

namespace ShipmentImport

open Relation

/-- An executable reading of statements (`C` is the choice made for a statement that can go more
than one way), and the effect of process starts, ends and kills and of the environment (`A`). -/
structure Machine (S : Type) (R : S → Type) (E T W Ret C A : Type) where
  exec : Nat → T → (s : S) → C → W → Option (Except E (R s) × W)
  body : Nat → T → Prog S R E Ret
  launch : Nat → T → W → Option W
  close : Nat → T → W → W
  abort : Nat → T → W → W
  tick : A → W → Option W

/-- A world and the processes started on it: process `p` is at position `p`, `none` once it
ended. `finished` lists the outcomes of the processes that ended on their own, latest first. -/
structure Config (S : Type) (R : S → Type) (E T W Ret : Type) where
  world : W
  procs : List (Option (T × Prog S R E Ret))
  finished : List (Nat × T × Except E Ret)

/-- The process `p` of a configuration, if it is alive. -/
def Config.proc {S : Type} {R : S → Type} {E T W Ret : Type} (c : Config S R E T W Ret)
    (p : Nat) : Option (T × Prog S R E Ret) :=
  c.procs[p]?.join

/-- One step of a system. -/
inductive Action (T C A : Type)
  | spawn (t : T)
  | step (p : Nat) (c : C)
  | finish (p : Nat)
  | crash (p : Nat)
  | env (a : A)

namespace Machine

variable {S : Type} {R : S → Type} {E T W Ret C A : Type} (M : Machine S R E T W Ret C A)

/-- One step of the system; `none` where the action is not possible (a blocked statement, a
process that has not finished or is not there). -/
def next (c : Config S R E T W Ret) : Action T C A → Option (Config S R E T W Ret)
  | .spawn t => (M.launch c.procs.length t c.world).map fun w =>
      { c with world := w, procs := c.procs ++ [some (t, M.body c.procs.length t)] }
  | .step p ch =>
    match c.proc p with
    | some (t, .stmt s k) => (M.exec p t s ch c.world).map fun x =>
        { c with world := x.2, procs := c.procs.set p (some (t, k x.1)) }
    | _ => none
  | .finish p =>
    match c.proc p with
    | some (t, .ret a) => some
        { world := M.close p t c.world, procs := c.procs.set p none
          finished := (p, t, .ok a) :: c.finished }
    | some (t, .raise e) => some
        { world := M.close p t c.world, procs := c.procs.set p none
          finished := (p, t, .error e) :: c.finished }
    | _ => none
  | .crash p =>
    match c.proc p with
    | some (t, _) => some { c with world := M.abort p t c.world, procs := c.procs.set p none }
    | none => none
  | .env a => (M.tick a c.world).map fun w => { c with world := w }

/-- The configuration with no process. -/
def init (w : W) : Config S R E T W Ret := { world := w, procs := [], finished := [] }

/-- A step whose action `ok` admits. -/
def Step (ok : Config S R E T W Ret → Action T C A → Prop) (c c' : Config S R E T W Ret) : Prop :=
  ∃ a, ok c a ∧ M.next c a = some c'

/-- Runs all of whose steps `ok` admits. -/
def Run (ok : Config S R E T W Ret → Action T C A → Prop) :
    Config S R E T W Ret → Config S R E T W Ret → Prop :=
  ReflTransGen (M.Step ok)

/-- A run with its steps, first to last: the configurations before and after, and the action. -/
inductive Trail (ok : Config S R E T W Ret → Action T C A → Prop) (c : Config S R E T W Ret) :
    List (Config S R E T W Ret × Action T C A × Config S R E T W Ret) → Config S R E T W Ret → Prop
  | nil : Trail ok c [] c
  | snoc {τ d a d'} (h : Trail ok c τ d) (hok : ok d a) (hn : M.next d a = some d') :
    Trail ok c (τ ++ [(d, a, d')]) d'

/-- The configuration after a list of actions. -/
def trace (c : Config S R E T W Ret) : List (Action T C A) → Option (Config S R E T W Ret)
  | [] => some c
  | a :: as => (M.next c a).bind fun c' => trace c' as

/-- Every action is admitted. -/
def anyAction (_ : Config S R E T W Ret) (_ : Action T C A) : Prop := True

theorem run_of_trace {c c' : Config S R E T W Ret} {as : List (Action T C A)}
    (h : M.trace c as = some c') : M.Run anyAction c c' := by
  induction as generalizing c with
  | nil => cases h; exact .refl
  | cons a as ih =>
    simp only [trace, Option.bind_eq_some_iff] at h
    obtain ⟨c₁, h1, h2⟩ := h
    exact .head ⟨a, trivial, h1⟩ (ih h2)

/-- The configuration after a list of actions, each of which passes a check. -/
def checkedTrace (ok : Config S R E T W Ret → Action T C A → Bool) (c : Config S R E T W Ret) :
    List (Action T C A) → Option (Config S R E T W Ret)
  | [] => some c
  | a :: as => if ok c a then (M.next c a).bind fun c' => checkedTrace ok c' as else none

theorem run_of_checkedTrace {ok : Config S R E T W Ret → Action T C A → Bool}
    {c c' : Config S R E T W Ret} {as : List (Action T C A)}
    (h : M.checkedTrace ok c as = some c') : M.Run (fun c a => ok c a = true) c c' := by
  induction as generalizing c with
  | nil => cases h; exact .refl
  | cons a as ih =>
    simp only [checkedTrace, Option.ite_none_right_eq_some, Option.bind_eq_some_iff] at h
    obtain ⟨hok, c₁, h1, h2⟩ := h
    exact .head ⟨a, hok, h1⟩ (ih h2)

variable {M}

/-- Every run is one with steps. -/
theorem Run.trail {ok : Config S R E T W Ret → Action T C A → Prop} {c c' : Config S R E T W Ret}
    (h : M.Run ok c c') : ∃ τ, M.Trail ok c τ c' := by
  induction h with
  | refl => exact ⟨[], .nil⟩
  | tail _ hs ih =>
    obtain ⟨τ, ht⟩ := ih
    obtain ⟨a, hok, hn⟩ := hs
    exact ⟨_, ht.snoc hok hn⟩

theorem Trail.run {ok : Config S R E T W Ret → Action T C A → Prop} {c c' : Config S R E T W Ret}
    {τ : List (Config S R E T W Ret × Action T C A × Config S R E T W Ret)}
    (h : M.Trail ok c τ c') : M.Run ok c c' := by
  induction h with
  | nil => exact .refl
  | snoc _ hok hn ih => exact .tail ih ⟨_, hok, hn⟩

theorem Trail.append {ok : Config S R E T W Ret → Action T C A → Prop}
    {c c' c'' : Config S R E T W Ret}
    {σ τ : List (Config S R E T W Ret × Action T C A × Config S R E T W Ret)}
    (h : M.Trail ok c σ c') (h' : M.Trail ok c' τ c'') : M.Trail ok c (σ ++ τ) c'' := by
  induction h' with
  | nil =>
    rw [List.append_nil]
    exact h
  | snoc _ hok hn ih =>
    rw [← List.append_assoc]
    exact ih.snoc hok hn

theorem Run.mono {ok ok' : Config S R E T W Ret → Action T C A → Prop}
    (h : ∀ c a, ok c a → ok' c a) {c c' : Config S R E T W Ret} (hr : M.Run ok c c') :
    M.Run ok' c c' := by
  induction hr with
  | refl => exact .refl
  | tail _ hs ih =>
    obtain ⟨a, ha, hn⟩ := hs
    exact .tail ih ⟨a, h _ _ ha, hn⟩

/-- A step of a run, and the run up to it. -/
theorem Trail.of_mem {ok : Config S R E T W Ret → Action T C A → Prop}
    {c c' d d' : Config S R E T W Ret} {a : Action T C A}
    {τ : List (Config S R E T W Ret × Action T C A × Config S R E T W Ret)}
    (h : M.Trail ok c τ c') (hx : (d, a, d') ∈ τ) :
    M.Run ok c d ∧ ok d a ∧ M.next d a = some d' := by
  induction h with
  | nil => cases hx
  | snoc h hok hn ih =>
    rw [List.mem_append, List.mem_singleton] at hx
    rcases hx with hx | hx
    · exact ih hx
    · cases hx
      exact ⟨h.run, hok, hn⟩

/-- Along a run every step is taken in a configuration the run reaches. -/
theorem Trail.reached {ok : Config S R E T W Ret → Action T C A → Prop}
    {c c' : Config S R E T W Ret}
    {τ : List (Config S R E T W Ret × Action T C A × Config S R E T W Ret)}
    (h : M.Trail ok c τ c') : M.Trail (fun d a => ok d a ∧ M.Run ok c d) c τ c' := by
  induction h with
  | nil => exact .nil
  | snoc h hok hn ih => exact .snoc ih ⟨hok, h.run⟩ hn

theorem Trail.mono {ok ok' : Config S R E T W Ret → Action T C A → Prop}
    (h : ∀ c a, ok c a → ok' c a) {c c' : Config S R E T W Ret}
    {τ : List (Config S R E T W Ret × Action T C A × Config S R E T W Ret)}
    (ht : M.Trail ok c τ c') : M.Trail ok' c τ c' := by
  induction ht with
  | nil => exact .nil
  | snoc _ hok hn ih => exact .snoc ih (h _ _ hok) hn

end Machine

/-- The obligations of a rely–guarantee proof of the machine `M` against the protocol `P`, for the
runs whose steps `ok` admits. `fresh` is what a process may assume of the world when it starts,
`local_` what holds of a live process between any two steps, `post` what holds when it ends, and
`gone` what holds of it from then on. -/
structure Outline {S : Type} {R : S → Type} {E T W Ret C A : Type}
    (M : Machine S R E T W Ret C A) {G : Type} (P : Protocol S R E T W G)
    (ok : Config S R E T W Ret → Action T C A → Prop) where
  fresh : Nat → W × G → Prop
  local_ : Nat → T → W × G → Prop
  post : Nat → T → Except E Ret → W × G → Prop
  gone : Nat → W × G → Prop
  exec : ∀ {c : Config S R E T W Ret} {p t s k ch r w'}, ok c (.step p ch) →
    c.proc p = some (t, .stmt s k) → M.exec p t s ch c.world = some (r, w') →
    P.exec p t s c.world r w'
  fresh_other : ∀ {p x y}, fresh p x → P.other p x y → fresh p y
  gone_other : ∀ {p x y}, gone p x → P.other p x y → gone p y
  local_other : ∀ {p t x y}, local_ p t x → P.other p x y → local_ p t y
  local_guar : ∀ {p t l x y}, local_ p t x → P.inv x → P.inv y → P.guar p t l x y → local_ p t y
  spawn : ∀ {c : Config S R E T W Ret} {t w' g}, ok c (.spawn t) →
    M.launch c.procs.length t c.world = some w' → P.inv (c.world, g) →
    fresh c.procs.length (c.world, g) →
    ∃ g', P.inv (w', g') ∧ P.guar c.procs.length t none (c.world, g) (w', g') ∧
      local_ c.procs.length t (w', g') ∧
      ∀ y, P.rely c.procs.length (w', g') y →
        P.Safe c.procs.length t (M.body c.procs.length t) (post c.procs.length t) y
  finish : ∀ {c : Config S R E T W Ret} {p t r g}, ok c (.finish p) → P.inv (c.world, g) →
    local_ p t (c.world, g) → post p t r (c.world, g) →
    ∃ g', P.inv (M.close p t c.world, g') ∧
      P.guar p t none (c.world, g) (M.close p t c.world, g') ∧ gone p (M.close p t c.world, g')
  crash : ∀ {c : Config S R E T W Ret} {p t g}, ok c (.crash p) → P.inv (c.world, g) →
    local_ p t (c.world, g) →
    ∃ g', P.inv (M.abort p t c.world, g') ∧
      P.guar p t none (c.world, g) (M.abort p t c.world, g') ∧ gone p (M.abort p t c.world, g')
  env : ∀ {c : Config S R E T W Ret} {a w' g}, ok c (.env a) → M.tick a c.world = some w' →
    P.inv (c.world, g) → ∃ g', P.inv (w', g') ∧ P.env (c.world, g) (w', g')

namespace Outline

variable {S : Type} {R : S → Type} {E T W Ret C A G : Type} {M : Machine S R E T W Ret C A}
  {P : Protocol S R E T W G} {ok : Config S R E T W Ret → Action T C A → Prop}

/-- What the outline establishes of a configuration: the invariant, and that every live process,
whatever the others do next, is safe to continue. -/
structure Holds (O : Outline M P ok) (c : Config S R E T W Ret) (g : G) : Prop where
  inv : P.inv (c.world, g)
  fresh : ∀ p, c.procs.length ≤ p → O.fresh p (c.world, g)
  gone : ∀ p, p < c.procs.length → c.proc p = none → O.gone p (c.world, g)
  live : ∀ p t x, c.proc p = some (t, x) → O.local_ p t (c.world, g) ∧
    ∀ y, P.rely p (c.world, g) y → P.Safe p t x (O.post p t) y

/-- How a step of the system that takes the action `a` changes the world, from the point of view of
the protocol. -/
def Moves (M : Machine S R E T W Ret C A) (P : Protocol S R E T W G) (c : Config S R E T W Ret)
    (x y : W × G) : Action T C A → Prop
  | .spawn t => P.guar c.procs.length t none x y
  | .step p ch => ∃ t s k r, c.proc p = some (t, .stmt s k) ∧
      M.exec p t s ch c.world = some (r, y.1) ∧ P.guar p t (some ⟨s, r⟩) x y
  | .finish p | .crash p => ∃ t z, c.proc p = some (t, z) ∧ P.guar p t none x y
  | .env _ => P.env x y

theorem proc_lt {c : Config S R E T W Ret} {p : Nat} {x : T × Prog S R E Ret}
    (h : c.proc p = some x) : p < c.procs.length := by
  refine Nat.lt_of_not_le fun hp => ?_
  simp [Config.proc, List.getElem?_eq_none hp] at h

theorem proc_set {c : Config S R E T W Ret} {p : Nat} {x : T × Prog S R E Ret}
    (h : c.proc p = some x) (y : Option (T × Prog S R E Ret)) (q : Nat) (w : W)
    (fs : List (Nat × T × Except E Ret)) :
    Config.proc { world := w, procs := c.procs.set p y, finished := fs } q =
      if q = p then y else c.proc q := by
  have hp := proc_lt h
  by_cases hq : q = p
  · subst hq
    simp [Config.proc, hp]
  · simp [Config.proc, List.getElem?_set_ne (Ne.symm hq), hq]

/-- The processes that did not take the step keep what the outline says of them. -/
theorem Holds.others {O : Outline M P ok} {c : Config S R E T W Ret} {g : G} (h : O.Holds c g)
    {q : Nat} {y : W × G} (ho : P.other q (c.world, g) y) {t : T} {x : Prog S R E Ret}
    (hq : c.proc q = some (t, x)) :
    O.local_ q t y ∧ ∀ z, P.rely q y z → P.Safe q t x (O.post q t) z :=
  have ⟨h1, h2⟩ := h.live q t x hq
  ⟨O.local_other h1 ho, fun z hz => h2 z (.head ho hz)⟩

/-- A step of the process `p`, seen by the outline: the new state of `p` is `y`. -/
theorem Holds.update {O : Outline M P ok} {c : Config S R E T W Ret} {g : G} (h : O.Holds c g)
    {p : Nat} {t : T} {x : Prog S R E Ret} (hp : c.proc p = some (t, x)) {w' : W} {g' : G}
    {l : Deed S R E} (hi : P.inv (w', g')) (hg : P.guar p t l (c.world, g) (w', g'))
    (y : Option (T × Prog S R E Ret)) (fs : List (Nat × T × Except E Ret))
    (hgone : y = none → O.gone p (w', g'))
    (hy : ∀ u z, y = some (u, z) → O.local_ p u (w', g') ∧
      ∀ v, P.rely p (w', g') v → P.Safe p u z (O.post p u) v) :
    O.Holds { world := w', procs := c.procs.set p y, finished := fs } g' := by
  have hother : ∀ q, q ≠ p → P.other q (c.world, g) (w', g') := fun q hq =>
    ⟨h.inv, hi, .inl ⟨p, t, l, hq.symm, hg⟩⟩
  refine ⟨hi, fun q hq => ?_, fun q hq hn => ?_, fun q u z hz => ?_⟩
  · have hq' : c.procs.length ≤ q := by simpa using hq
    have : q ≠ p := fun e => absurd (proc_lt hp) (by omega)
    exact O.fresh_other (h.fresh q hq') (hother q this)
  · rw [proc_set hp] at hn
    split at hn
    · next e => subst e; exact hgone hn
    · next e => exact O.gone_other (h.gone q (by simpa using hq) hn) (hother q e)
  · rw [proc_set hp] at hz
    split at hz
    · next e => subst e; exact hy u z hz
    · next hq => exact h.others (hother q hq) hz

/-- One step of the system keeps what the outline says, and is a step of the protocol. -/
theorem Holds.next {O : Outline M P ok} {c c' : Config S R E T W Ret} {g : G} (h : O.Holds c g)
    {a : Action T C A} (hok : ok c a) (hn : M.next c a = some c') :
    ∃ g', O.Holds c' g' ∧ Moves M P c (c.world, g) (c'.world, g') a := by
  cases a with
  | spawn t =>
    simp only [Machine.next, Option.map_eq_some_iff] at hn
    obtain ⟨w', hl, rfl⟩ := hn
    obtain ⟨g', hi, hg, hl', hs⟩ := O.spawn hok hl h.inv (h.fresh _ (Nat.le_refl _))
    have hother : ∀ q, q ≠ c.procs.length → P.other q (c.world, g) (w', g') := fun q hq =>
      ⟨h.inv, hi, .inl ⟨_, t, none, hq.symm, hg⟩⟩
    refine ⟨g', ⟨hi, fun q hq => ?_, fun q hq hn => ?_, fun q u x hx => ?_⟩, hg⟩
    · simp only [List.length_append, List.length_singleton] at hq
      exact O.fresh_other (h.fresh q (by omega)) (hother q (by omega))
    · by_cases hq' : q = c.procs.length
      · subst hq'
        simp [Config.proc] at hn
      · have hlt : q < c.procs.length := by
          simp only [List.length_append, List.length_singleton] at hq
          omega
        have hn' : c.proc q = none := by
          simpa [Config.proc, List.getElem?_append_left hlt] using hn
        exact O.gone_other (h.gone q hlt hn') (hother q hq')
    · by_cases hq : q = c.procs.length
      · subst hq
        simp only [Config.proc, List.getElem?_append_right (Nat.le_refl _), Nat.sub_self,
          List.getElem?_cons_zero, Option.join_some, Option.some.injEq, Prod.mk.injEq] at hx
        obtain ⟨rfl, rfl⟩ := hx
        exact ⟨hl', hs⟩
      · have hx' : c.proc q = some (u, x) := by
          have hlt : q < c.procs.length := by
            have := proc_lt hx
            simp only [List.length_append, List.length_singleton] at this
            omega
          simpa [Config.proc, List.getElem?_append_left hlt] using hx
        exact h.others (hother q hq) hx'
  | step p ch =>
    simp only [Machine.next] at hn
    split at hn
    · next t s k hp =>
      simp only [Option.map_eq_some_iff] at hn
      obtain ⟨⟨r, w'⟩, he, rfl⟩ := hn
      obtain ⟨hloc, hsafe⟩ := h.live p t _ hp
      obtain ⟨g', hi, hg, hk⟩ := hsafe _ .refl r w' h.inv (O.exec hok hp he)
      refine ⟨g', h.update hp hi hg _ _ (by simp) ?_, t, s, k, r, hp, he, hg⟩
      rintro u z hz
      cases hz
      exact ⟨O.local_guar hloc h.inv hi hg, hk⟩
    · cases hn
  | finish p =>
    have key : ∀ t r x, c.proc p = some (t, x) → O.post p t r (c.world, g) →
        ∃ g', O.Holds ⟨M.close p t c.world, c.procs.set p none, (p, t, r) :: c.finished⟩ g' ∧
          Moves M P c (c.world, g) (M.close p t c.world, g') (.finish p) := by
      intro t r x hp hpost
      obtain ⟨g', hi, hg, hd⟩ := O.finish hok h.inv (h.live p t x hp).1 hpost
      exact ⟨g', h.update hp hi hg none _ (fun _ => hd) (by simp), t, x, hp, hg⟩
    simp only [Machine.next] at hn
    split at hn
    · next t a hp => cases hn; exact key t _ _ hp ((h.live p t _ hp).2 _ .refl)
    · next t e hp => cases hn; exact key t _ _ hp ((h.live p t _ hp).2 _ .refl)
    · cases hn
  | crash p =>
    simp only [Machine.next] at hn
    split at hn
    · next t x hp =>
      cases hn
      obtain ⟨g', hi, hg, hd⟩ := O.crash hok h.inv (h.live p t x hp).1
      exact ⟨g', h.update hp hi hg none _ (fun _ => hd) (by simp), t, x, hp, hg⟩
    · cases hn
  | env a =>
    simp only [Machine.next, Option.map_eq_some_iff] at hn
    obtain ⟨w', ht, rfl⟩ := hn
    obtain ⟨g', hi, he⟩ := O.env hok ht h.inv
    have hother : ∀ q, P.other q (c.world, g) (w', g') := fun q => ⟨h.inv, hi, .inr he⟩
    exact ⟨g', ⟨hi, fun q hq => O.fresh_other (h.fresh q hq) (hother q),
      fun q hq hn => O.gone_other (h.gone q hq hn) (hother q),
      fun q u x hx => h.others (hother q) hx⟩, he⟩

/-- What every step keeps holds after every run: the outline with a property `I` of the run so far,
which may use what the step was to the protocol. -/
theorem induct (O : Outline M P ok) {c c' : Config S R E T W Ret} {g : G}
    {τ : List (Config S R E T W Ret × Action T C A × Config S R E T W Ret)}
    (I : List (Config S R E T W Ret × Action T C A × Config S R E T W Ret) →
      Config S R E T W Ret → G → Prop)
    (h : O.Holds c g) (h0 : I [] c g)
    (hstep : ∀ τ d g a d' g', O.Holds d g → O.Holds d' g' → ok d a → M.next d a = some d' →
      Moves M P d (d.world, g) (d'.world, g') a → I τ d g → I (τ ++ [(d, a, d')]) d' g')
    (hr : M.Trail ok c τ c') : ∃ g', O.Holds c' g' ∧ I τ c' g' := by
  induction hr with
  | nil => exact ⟨g, h, h0⟩
  | snoc _ hok hn ih =>
    obtain ⟨g₁, h₁, hI⟩ := ih
    obtain ⟨g', h', hm⟩ := h₁.next hok hn
    exact ⟨g', h', hstep _ _ _ _ _ _ h₁ h' hok hn hm hI⟩

/-- The outline holds along every run it admits. -/
theorem sound (O : Outline M P ok) {c c' : Config S R E T W Ret} {g : G} (h : O.Holds c g)
    (hr : M.Run ok c c') : ∃ g', O.Holds c' g' := by
  obtain ⟨τ, ht⟩ := Machine.Run.trail hr
  obtain ⟨g', h', -⟩ := O.induct (fun _ _ _ => True) h trivial
    (fun _ _ _ _ _ _ _ _ _ _ _ _ => trivial) ht
  exact ⟨g', h'⟩

/-- A system without processes satisfies the outline when its world does. -/
theorem holds_init (O : Outline M P ok) {w : W} {g : G} (hi : P.inv (w, g))
    (hf : ∀ p, O.fresh p (w, g)) : O.Holds (Machine.init w) g :=
  ⟨hi, fun p _ => hf p, fun p hp => by simp [Machine.init] at hp,
    fun p t x hx => by simp [Config.proc, Machine.init] at hx⟩

end Outline

namespace Machine

variable {S : Type} {R : S → Type} {E T W Ret C A : Type} {M : Machine S R E T W Ret C A}
  {K : (s : S) → Except E (R s) → Prop} {I : T → List (Prog.Exchange S R E) → S → Prop}
  {J : Nat → T → List (Prog.Exchange S R E) →
    List (Config S R E T W Ret × Action T C A × Config S R E T W Ret) → W → Prop} {w : W}

/-- What is alive after the end of process `q` was alive before. -/
theorem proc_of_gone {c : Config S R E T W Ret} {p q : Nat} {y z : T × Prog S R E Ret} {v : W}
    {fs : List (Nat × T × Except E Ret)} (hq : c.proc q = some y)
    (h : Config.proc { world := v, procs := c.procs.set q none, finished := fs } p = some z) :
    c.proc p = some z := by
  rw [Outline.proc_set hq] at h
  split at h
  · cases h
  · exact h

/-- A statement of a process that goes on. -/
theorem next_step {c c' : Config S R E T W Ret} {p : Nat} {ch : C}
    (h : M.next c (.step p ch) = some c') : ∃ t s k r, c.proc p = some (t, .stmt s k) ∧
      M.exec p t s ch c.world = some (r, c'.world) ∧ c'.proc p = some (t, k r) := by
  simp only [next] at h
  split at h
  · next t s k hp =>
    obtain ⟨⟨r, v⟩, hx, rfl⟩ := Option.map_eq_some_iff.1 h
    refine ⟨t, s, k, r, hp, hx, ?_⟩
    rw [Outline.proc_set hp, if_pos rfl]
  · cases h

/-- A live process was alive before the step with the same task, or it was started by it. -/
theorem proc_of_next {c c' : Config S R E T W Ret} {a : Action T C A} {p : Nat} {t : T}
    {x : Prog S R E Ret} (h : M.next c a = some c') (hp : c'.proc p = some (t, x)) :
    (∃ y, c.proc p = some (t, y)) ∨ a = .spawn t ∧ c.procs.length = p := by
  cases a with
  | spawn u =>
    obtain ⟨v, -, rfl⟩ := Option.map_eq_some_iff.1 h
    by_cases hlt : p < c.procs.length
    · exact .inl ⟨x, by simpa [Config.proc, List.getElem?_append_left hlt] using hp⟩
    · have hle := Outline.proc_lt hp
      simp only [List.length_append, List.length_singleton] at hle
      obtain rfl : p = c.procs.length := by omega
      simp only [Config.proc, List.getElem?_append_right (Nat.le_refl _), Nat.sub_self,
        List.getElem?_cons_zero, Option.join_some, Option.some.injEq, Prod.mk.injEq] at hp
      exact .inr ⟨hp.1 ▸ rfl, rfl⟩
  | step q ch =>
    simp only [next] at h
    split at h
    · next u s k hq =>
      obtain ⟨y, -, rfl⟩ := Option.map_eq_some_iff.1 h
      rw [Outline.proc_set hq] at hp
      split at hp
      · next e =>
        cases hp
        exact .inl ⟨_, e ▸ hq⟩
      · exact .inl ⟨x, hp⟩
    · cases h
  | finish q =>
    simp only [next] at h
    split at h
    · next hq =>
      cases h
      exact .inl ⟨x, proc_of_gone hq hp⟩
    · next hq =>
      cases h
      exact .inl ⟨x, proc_of_gone hq hp⟩
    · cases h
  | crash q =>
    simp only [next] at h
    split at h
    · next u y hq =>
      cases h
      exact .inl ⟨x, proc_of_gone hq hp⟩
    · cases h
  | env b =>
    obtain ⟨v, -, rfl⟩ := Option.map_eq_some_iff.1 h
    exact .inl ⟨x, hp⟩

/-- Processes are numbered once and for all. -/
theorem length_le_of_next {c c' : Config S R E T W Ret} {a : Action T C A}
    (h : M.next c a = some c') : c.procs.length ≤ c'.procs.length := by
  cases a with
  | spawn t =>
    obtain ⟨v, -, rfl⟩ := Option.map_eq_some_iff.1 h
    simp
  | env b =>
    obtain ⟨v, -, rfl⟩ := Option.map_eq_some_iff.1 h
    exact Nat.le_refl _
  | step p ch =>
    simp only [next] at h
    split at h
    · obtain ⟨y, -, rfl⟩ := Option.map_eq_some_iff.1 h
      simp
    · cases h
  | finish p | crash p =>
    simp only [next] at h
    split at h <;> cases h <;> simp

/-- Along a run every live process is at a point of a free run of its program, and the exchanges up
to there account for what the run and the world hold of it (`J`). -/
theorem Trail.history_live
    (hok : ∀ {p t s ch v r v'}, M.exec p t s ch v = some (r, v') → K s r)
    (hbody : ∀ p t, Prog.Free K (I t) (fun _ _ => True) [] (M.body p t))
    (hspawn : ∀ {σ c c' t}, M.Trail anyAction (init w) σ c → M.next c (.spawn t) = some c' →
      J c.procs.length t [] (σ ++ [(c, .spawn t, c')]) c'.world)
    (hstep : ∀ {σ c c' p ch t s k r τ}, M.Trail anyAction (init w) σ c →
      M.next c (.step p ch) = some c' → c.proc p = some (t, .stmt s k) →
      M.exec p t s ch c.world = some (r, c'.world) → I t τ s → J p t τ σ c.world →
      J p t (τ ++ [⟨s, r⟩]) (σ ++ [(c, .step p ch, c')]) c'.world)
    (hother : ∀ {σ c a c' p t x τ}, M.Trail anyAction (init w) σ c → M.next c a = some c' →
      (∀ ch, a ≠ .step p ch) → c.proc p = some (t, x) → c'.proc p = some (t, x) →
      J p t τ σ c.world → J p t τ (σ ++ [(c, a, c')]) c'.world)
    {σ : List (Config S R E T W Ret × Action T C A × Config S R E T W Ret)}
    {c : Config S R E T W Ret} (h : M.Trail anyAction (init w) σ c) :
    ∀ p t x, c.proc p = some (t, x) →
      ∃ τ, Prog.Free K (I t) (fun _ _ => True) τ x ∧ J p t τ σ c.world := by
  induction h with
  | nil =>
    intro p t x hp
    simp [init, Config.proc] at hp
  | @snoc σ c a c' hr _ hn ih =>
    -- a process that did not move
    have hstay : ∀ p t x, c.proc p = some (t, x) → c'.proc p = some (t, x) →
        (∀ ch, a ≠ .step p ch) →
        ∃ τ, Prog.Free K (I t) (fun _ _ => True) τ x ∧ J p t τ (σ ++ [(c, a, c')]) c'.world := by
      intro p t x hp hp' ha
      obtain ⟨τ, hf, hj⟩ := ih p t x hp
      exact ⟨τ, hf, hother hr hn ha hp hp' hj⟩
    intro p t x hp
    have hp' := hp
    cases a with
    | spawn u =>
      have hspawn' := hspawn hr hn
      obtain ⟨v, -, rfl⟩ := Option.map_eq_some_iff.1 hn
      by_cases hq : p < c.procs.length
      · refine hstay p t x ?_ hp' fun _ h => nomatch h
        simpa [Config.proc, List.getElem?_append_left hq] using hp
      · have hle := Outline.proc_lt hp
        simp only [List.length_append, List.length_singleton] at hle
        obtain rfl : p = c.procs.length := by omega
        simp only [Config.proc, List.getElem?_append_right (Nat.le_refl _), Nat.sub_self,
          List.getElem?_cons_zero, Option.join_some, Option.some.injEq, Prod.mk.injEq] at hp
        obtain ⟨rfl, rfl⟩ := hp
        exact ⟨[], hbody _ _, hspawn'⟩
    | step q ch =>
      have hn' := hn
      simp only [next] at hn
      split at hn
      · next u s k hq =>
        obtain ⟨⟨r, v⟩, hx, rfl⟩ := Option.map_eq_some_iff.1 hn
        rw [Outline.proc_set hq] at hp
        split at hp
        · next e =>
          subst e
          cases hp
          obtain ⟨τ, hf, hj⟩ := ih p _ _ hq
          exact ⟨_, hf.2 r (hok hx), hstep hr hn' hq hx hf.1 hj⟩
        · next e =>
          exact hstay p t x hp hp' fun _ h => e (by cases h; rfl)
      · cases hn
    | finish q =>
      simp only [next] at hn
      split at hn
      · next hq =>
        cases hn
        exact hstay p t x (proc_of_gone hq hp) hp' fun _ h => nomatch h
      · next hq =>
        cases hn
        exact hstay p t x (proc_of_gone hq hp) hp' fun _ h => nomatch h
      · cases hn
    | crash q =>
      simp only [next] at hn
      split at hn
      · next u y hq =>
        cases hn
        exact hstay p t x (proc_of_gone hq hp) hp' fun _ h => nomatch h
      · cases hn
    | env b =>
      obtain ⟨v, -, rfl⟩ := Option.map_eq_some_iff.1 hn
      exact hstay p t x hp hp' fun _ h => nomatch h

/-- The same where the others keep `J` whether the process stays alive or not. -/
theorem Trail.history
    (hok : ∀ {p t s ch v r v'}, M.exec p t s ch v = some (r, v') → K s r)
    (hbody : ∀ p t, Prog.Free K (I t) (fun _ _ => True) [] (M.body p t))
    (hspawn : ∀ {σ c c' t}, M.Trail anyAction (init w) σ c → M.next c (.spawn t) = some c' →
      J c.procs.length t [] (σ ++ [(c, .spawn t, c')]) c'.world)
    (hstep : ∀ {σ c c' p ch t s k r τ}, M.Trail anyAction (init w) σ c →
      M.next c (.step p ch) = some c' → c.proc p = some (t, .stmt s k) →
      M.exec p t s ch c.world = some (r, c'.world) → I t τ s → J p t τ σ c.world →
      J p t (τ ++ [⟨s, r⟩]) (σ ++ [(c, .step p ch, c')]) c'.world)
    (hother : ∀ {σ c a c' p t τ}, M.Trail anyAction (init w) σ c → M.next c a = some c' →
      (∀ ch, a ≠ .step p ch) → p < c.procs.length → J p t τ σ c.world →
      J p t τ (σ ++ [(c, a, c')]) c'.world)
    {σ : List (Config S R E T W Ret × Action T C A × Config S R E T W Ret)}
    {c : Config S R E T W Ret} (h : M.Trail anyAction (init w) σ c) :
    ∀ p t x, c.proc p = some (t, x) →
      ∃ τ, Prog.Free K (I t) (fun _ _ => True) τ x ∧ J p t τ σ c.world :=
  h.history_live hok hbody hspawn hstep fun hr hn ha hp _ hj =>
    hother hr hn ha (Outline.proc_lt hp) hj

end Machine

/-! ## What disciplined processes keep -/

/-- What it takes that the processes of `M` that run the tasks `runs` keep `I`: they issue only
`issues` as long as the statements reply as in `K`, which they do where `I` holds. -/
structure Keeper {S : Type} {R : S → Type} {E T W Ret C A : Type} (M : Machine S R E T W Ret C A)
    (K : (s : S) → Except E (R s) → Prop) (issues : S → Prop) (runs : T → Prop) (I : W → Prop) :
    Prop where
  body : ∀ p t, runs t → (M.body p t).Free K (fun _ => issues) (fun _ _ => True) []
  exec : ∀ {p t s ch w r w'}, runs t → issues s → I w → M.exec p t s ch w = some (r, w') →
    K s r ∧ I w'
  launch : ∀ {p t w w'}, I w → M.launch p t w = some w' → runs t ∧ I w'
  close : ∀ {p t w}, runs t → I w → I (M.close p t w)
  abort : ∀ {p t w}, runs t → I w → I (M.abort p t w)
  tick : ∀ {a w w'}, I w → M.tick a w = some w' → I w'

namespace Keeper

variable {S : Type} {R : S → Type} {E T W Ret C A : Type} {M : Machine S R E T W Ret C A}
  {K : (s : S) → Except E (R s) → Prop} {issues : S → Prop} {runs : T → Prop} {I : W → Prop}
  {c c' : Config S R E T W Ret}

/-- The processes of a configuration keep to what they may issue. -/
structure Holds (_ : Keeper M K issues runs I) (c : Config S R E T W Ret) : Prop where
  world : I c.world
  live : ∀ p t x, c.proc p = some (t, x) →
    runs t ∧ x.Free K (fun _ => issues) (fun _ _ => True) []

theorem Holds.of_quiet (k : Keeper M K issues runs I) (hI : I c.world)
    (hq : ∀ p, c.proc p = none) : k.Holds c := by
  refine ⟨hI, fun p _ _ hp => ?_⟩
  rw [hq p] at hp
  cases hp

theorem Holds.next {k : Keeper M K issues runs I} (h : k.Holds c) {a : Action T C A}
    (hn : M.next c a = some c') : k.Holds c' := by
  cases a with
  | spawn t =>
    obtain ⟨w, hl, rfl⟩ := Option.map_eq_some_iff.1 hn
    obtain ⟨ht, hw⟩ := k.launch h.world hl
    refine ⟨hw, fun p u x hp => ?_⟩
    by_cases hlt : p < c.procs.length
    · exact h.live p u x (by simpa [Config.proc, List.getElem?_append_left hlt] using hp)
    · have hle := Outline.proc_lt hp
      simp only [List.length_append, List.length_singleton] at hle
      obtain rfl : p = c.procs.length := by omega
      simp only [Config.proc, List.getElem?_append_right (Nat.le_refl _), Nat.sub_self,
        List.getElem?_cons_zero, Option.join_some, Option.some.injEq, Prod.mk.injEq] at hp
      obtain ⟨rfl, rfl⟩ := hp
      exact ⟨ht, k.body _ _ ht⟩
  | step p ch =>
    simp only [Machine.next] at hn
    split at hn
    · next t s f hp =>
      obtain ⟨⟨r, w⟩, hx, rfl⟩ := Option.map_eq_some_iff.1 hn
      obtain ⟨ht, hf⟩ := h.live p t _ hp
      obtain ⟨hr, hw⟩ := k.exec ht hf.1 h.world hx
      refine ⟨hw, fun q u x hq => ?_⟩
      rw [Outline.proc_set hp] at hq
      split at hq
      · cases hq
        exact ⟨ht, (hf.2 r hr).after⟩
      · exact h.live q u x hq
    · cases hn
  | finish p =>
    simp only [Machine.next] at hn
    split at hn
    · next hp =>
      cases hn
      exact ⟨k.close (h.live p _ _ hp).1 h.world, fun q u x hq =>
        h.live q u x (Machine.proc_of_gone hp hq)⟩
    · next hp =>
      cases hn
      exact ⟨k.close (h.live p _ _ hp).1 h.world, fun q u x hq =>
        h.live q u x (Machine.proc_of_gone hp hq)⟩
    · cases hn
  | crash p =>
    simp only [Machine.next] at hn
    split at hn
    · next t y hp =>
      cases hn
      exact ⟨k.abort (h.live p t y hp).1 h.world, fun q u x hq =>
        h.live q u x (Machine.proc_of_gone hp hq)⟩
    · cases hn
  | env b =>
    obtain ⟨w, hl, rfl⟩ := Option.map_eq_some_iff.1 hn
    exact ⟨k.tick h.world hl, h.live⟩

/-- What the processes keep holds along every run. -/
theorem Holds.run {k : Keeper M K issues runs I} (h : k.Holds c)
    {ok : Config S R E T W Ret → Action T C A → Prop} (hr : M.Run ok c c') : k.Holds c' := by
  induction hr with
  | refl => exact h
  | tail _ hs ih =>
    obtain ⟨a, -, hn⟩ := hs
    exact ih.next hn

end Keeper

end ShipmentImport

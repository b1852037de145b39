import ShipmentImport.Lib.Program

/-!
# Executions of one program

An execution of a program to its end: before each of its statements the environment may change the
world. `Meets` is the pre- and postcondition form; postconditions also see the exchanges made, so
that what ends an execution can be told from what it went through. The rules follow the constructors
of programs.
-/

namespace ShipmentImport

namespace Prog

variable {S : Type} {R : S → Type} {E W α β : Type}

/-- The program, started in `w`, makes the exchanges `τ` and ends with the outcome and the world. -/
inductive Ends (exec : (s : S) → W → Except E (R s) → W → Prop) (env : W → W → Prop) :
    Prog S R E α → W → List (Exchange S R E) → Except E α → W → Prop
  | ret {a : α} {w : W} : Ends exec env (ret a) w [] (.ok a) w
  | raise {e : E} {w : W} : Ends exec env (raise e) w [] (.error e) w
  | stmt {s : S} {k : Except E (R s) → Prog S R E α} {w w₁ w₂ w' : W} {r : Except E (R s)}
      {τ : List (Exchange S R E)} {o : Except E α} (henv : env w w₁) (hexec : exec s w₁ r w₂)
      (hrest : Ends exec env (k r) w₂ τ o w') : Ends exec env (stmt s k) w (⟨s, r⟩ :: τ) o w'

/-- Every execution from a world with `A` ends with `Q` of its exchanges, outcome and world. -/
def Meets (exec : (s : S) → W → Except E (R s) → W → Prop) (env : W → W → Prop) (A : W → Prop)
    (x : Prog S R E α) (Q : List (Exchange S R E) → Except E α → W → Prop) : Prop :=
  ∀ w τ o w', A w → Ends exec env x w τ o w' → Q τ o w'

variable {exec : (s : S) → W → Except E (R s) → W → Prop} {env : W → W → Prop}

/-- An execution of a composition is one of its first part, followed by one of the second unless the
first raised. -/
theorem Ends.of_bind {x : Prog S R E α} {f : α → Prog S R E β} {w w' : W}
    {τ : List (Exchange S R E)} {o : Except E β} (h : Ends exec env (x.bind f) w τ o w') :
    (∃ e, o = .error e ∧ Ends exec env x w τ (.error e) w') ∨
      ∃ a τ₁ τ₂ w₁, τ = τ₁ ++ τ₂ ∧ Ends exec env x w τ₁ (.ok a) w₁ ∧
        Ends exec env (f a) w₁ τ₂ o w' := by
  induction x generalizing w τ with
  | ret a => exact .inr ⟨a, [], τ, _, rfl, .ret, h⟩
  | raise e =>
    cases h
    exact .inl ⟨e, rfl, .raise⟩
  | stmt s k ih =>
    cases h with
    | stmt henv hexec hrest =>
      rcases ih _ hrest with ⟨e, rfl, h⟩ | ⟨a, τ₁, τ₂, w₁, rfl, h₁, h₂⟩
      · exact .inl ⟨e, rfl, .stmt henv hexec h⟩
      · exact .inr ⟨a, _ :: τ₁, τ₂, w₁, rfl, .stmt henv hexec h₁, h₂⟩

theorem Ends.of_attempt {x : Prog S R E α} {w w' : W} {τ : List (Exchange S R E)}
    {o : Except E (Except E α)} (h : Ends exec env x.attempt w τ o w') :
    ∃ o', o = .ok o' ∧ Ends exec env x w τ o' w' := by
  induction x generalizing w τ with
  | ret a =>
    cases h
    exact ⟨.ok a, rfl, .ret⟩
  | raise e =>
    cases h
    exact ⟨.error e, rfl, .raise⟩
  | stmt s k ih =>
    cases h with
    | stmt henv hexec hrest =>
      obtain ⟨o', rfl, h⟩ := ih _ hrest
      exact ⟨o', rfl, .stmt henv hexec h⟩

theorem Ends.of_perform {s : S} {w w' : W} {τ : List (Exchange S R E)} {o : Except E (R s)}
    (h : Ends exec env (perform s) w τ o w') :
    ∃ w₁, env w w₁ ∧ exec s w₁ o w' ∧ τ = [⟨s, o⟩] := by
  cases h with
  | @stmt _ _ _ w₁ _ _ r _ _ henv hexec hrest =>
    cases r with
    | ok a =>
      cases hrest
      exact ⟨w₁, henv, hexec, rfl⟩
    | error e =>
      cases hrest
      exact ⟨w₁, henv, hexec, rfl⟩

theorem Ends.bind {x : Prog S R E α} {f : α → Prog S R E β} {w w₁ w' : W} {a : α}
    {τ τ' : List (Exchange S R E)} {o : Except E β} (h : Ends exec env x w τ (.ok a) w₁)
    (hf : Ends exec env (f a) w₁ τ' o w') : Ends exec env (x.bind f) w (τ ++ τ') o w' := by
  generalize ho : (Except.ok a : Except E α) = o' at h
  induction h with
  | ret =>
    cases ho
    exact hf
  | raise => cases ho
  | stmt henv hexec _ ih => exact .stmt henv hexec (ih hf ho)

theorem Ends.attempt {x : Prog S R E α} {w w' : W} {τ : List (Exchange S R E)} {o : Except E α}
    (h : Ends exec env x w τ o w') : Ends exec env x.attempt w τ (.ok o) w' := by
  induction h with
  | ret | raise => exact .ret
  | stmt henv hexec _ ih => exact .stmt henv hexec ih

theorem Ends.perform {s : S} {w w₁ w' : W} {r : Except E (R s)} (henv : env w w₁)
    (h : exec s w₁ r w') : Ends exec env (perform s) w [⟨s, r⟩] r w' := by
  cases r with
  | ok a => exact .stmt henv h .ret
  | error e => exact .stmt henv h .raise

/-- Where nobody interferes and statements have one result, a program has one execution. -/
theorem Ends.unique {x : Prog S R E α}
    (hexec : ∀ s w r₁ w₁ r₂ w₂, exec s w r₁ w₁ → exec s w r₂ w₂ → r₁ = r₂ ∧ w₁ = w₂) {w w₁ w₂ : W}
    {τ₁ τ₂ : List (Exchange S R E)} {o₁ o₂ : Except E α} (h₁ : Ends exec Eq x w τ₁ o₁ w₁)
    (h₂ : Ends exec Eq x w τ₂ o₂ w₂) : o₁ = o₂ ∧ w₁ = w₂ := by
  induction h₁ generalizing τ₂ with
  | ret | raise =>
    cases h₂
    exact ⟨rfl, rfl⟩
  | stmt henv hx _ ih =>
    cases h₂ with
    | stmt henv' hx' hrest =>
      cases henv
      cases henv'
      obtain ⟨rfl, rfl⟩ := hexec _ _ _ _ _ _ hx hx'
      exact ih hrest

/-- What every statement of a free run keeps, and the environment, holds at the end. -/
theorem Ends.keeps {I : S → Prop} {K : W → Prop} (henv : ∀ w w', K w → env w w' → K w')
    (hexec : ∀ s w r w', I s → K w → exec s w r w' → K w') {x : Prog S R E α} {w w' : W}
    {σ τ : List (Exchange S R E)} {o : Except E α} (h : Ends exec env x w τ o w')
    (hf : x.Free (fun _ _ => True) (fun _ => I) (fun _ _ => True) σ) (hw : K w) : K w' := by
  induction h generalizing σ with
  | ret | raise => exact hw
  | stmt henv' hexec' hrest ih =>
    exact ih (hf.2 _ trivial) (hexec _ _ _ _ hf.1 (henv _ _ hw henv') hexec')

/-- An execution in worlds `V` that hold a world `W` is one in the worlds they hold. -/
theorem Ends.map {V : Type} {exec' : (s : S) → V → Except E (R s) → V → Prop}
    {env' : V → V → Prop} {f : V → W} (hexec : ∀ s v r v', exec' s v r v' → exec s (f v) r (f v'))
    (henv : ∀ v v', env' v v' → env (f v) (f v')) {x : Prog S R E α} {v v' : V}
    {τ : List (Exchange S R E)} {o : Except E α} (h : Ends exec' env' x v τ o v') :
    Ends exec env x (f v) τ o (f v') := by
  induction h with
  | ret => exact .ret
  | raise => exact .raise
  | stmt henv' hexec' _ ih => exact .stmt (henv _ _ henv') (hexec _ _ _ _ hexec') ih

/-- The execution of a program alone, each statement going by the next choice. -/
def replay {C : Type} (step : C → (s : S) → W → Option (Except E (R s) × W)) :
    List C → Prog S R E α → W → Option (List (Exchange S R E) × Except E α × W)
  | _, ret a, w => some ([], .ok a, w)
  | _, raise e, w => some ([], .error e, w)
  | [], stmt _ _, _ => none
  | c :: cs, stmt s k, w =>
    match step c s w with
    | none => none
    | some (r, w₁) => (replay step cs (k r) w₁).map fun x => (⟨s, r⟩ :: x.1, x.2)

theorem Ends.of_replay {C : Type} {step : C → (s : S) → W → Option (Except E (R s) × W)}
    (hstep : ∀ c s w r w', step c s w = some (r, w') → exec s w r w') (henv : ∀ w, env w w)
    {cs : List C} {x : Prog S R E α} {w w' : W} {τ : List (Exchange S R E)} {o : Except E α}
    (h : replay step cs x w = some (τ, o, w')) : Ends exec env x w τ o w' := by
  induction x generalizing cs w τ with
  | ret a =>
    cases cs <;> cases h <;> exact .ret
  | raise e =>
    cases cs <;> cases h <;> exact .raise
  | stmt s k ih =>
    cases cs with
    | nil => cases h
    | cons c cs =>
      rw [replay] at h
      cases hs : step c s w with
      | none =>
        rw [hs] at h
        cases h
      | some x =>
        obtain ⟨r, w₁⟩ := x
        rw [hs] at h
        obtain ⟨⟨τ', o', w₂⟩, hr, hx⟩ := Option.map_eq_some_iff.1 h
        cases hx
        exact .stmt (henv w) (hstep _ _ _ _ _ hs) (ih r hr)

namespace Meets

variable {A B : W → Prop}

theorem ret {a : α} {Q : List (Exchange S R E) → Except E α → W → Prop}
    (h : ∀ w, A w → Q [] (.ok a) w) : Meets exec env A (.ret a) Q := by
  intro w τ o w' hw he
  cases he
  exact h w hw

theorem raise {e : E} {Q : List (Exchange S R E) → Except E α → W → Prop}
    (h : ∀ w, A w → Q [] (.error e) w) : Meets exec env A (.raise e) Q := by
  intro w τ o w' hw he
  cases he
  exact h w hw

theorem pre {x : Prog S R E α} {Q : List (Exchange S R E) → Except E α → W → Prop}
    (h : Meets exec env B x Q) (hAB : ∀ w, A w → B w) : Meets exec env A x Q :=
  fun w τ o w' hw he => h w τ o w' (hAB w hw) he

theorem post {x : Prog S R E α} {Q Q' : List (Exchange S R E) → Except E α → W → Prop}
    (h : Meets exec env A x Q) (hQ : ∀ τ o w, Q τ o w → Q' τ o w) : Meets exec env A x Q' :=
  fun w τ o w' hw he => hQ _ _ _ (h w τ o w' hw he)

theorem of_and {C : Prop} {x : Prog S R E α}
    {Q : List (Exchange S R E) → Except E α → W → Prop} (h : C → Meets exec env A x Q) :
    Meets exec env (fun w => C ∧ A w) x Q :=
  fun w τ o w' hw he => h hw.1 w τ o w' hw.2 he

theorem of_exists {ι : Sort*} {A : ι → W → Prop} {x : Prog S R E α}
    {Q : List (Exchange S R E) → Except E α → W → Prop} (h : ∀ i, Meets exec env (A i) x Q) :
    Meets exec env (fun w => ∃ i, A i w) x Q :=
  fun w τ o w' ⟨i, hw⟩ he => h i w τ o w' hw he

theorem bind {x : Prog S R E α} {f : α → Prog S R E β}
    {M : List (Exchange S R E) → Except E α → W → Prop}
    {Q : List (Exchange S R E) → Except E β → W → Prop} (hx : Meets exec env A x M)
    (hf : ∀ τ a, Meets exec env (M τ (.ok a)) (f a) fun τ' o w => Q (τ ++ τ') o w)
    (he : ∀ τ e w, M τ (.error e) w → Q τ (.error e) w) : Meets exec env A (x.bind f) Q := by
  intro w τ o w' hw hrun
  rcases hrun.of_bind with ⟨e, rfl, h⟩ | ⟨a, τ₁, τ₂, w₁, rfl, h₁, h₂⟩
  · exact he _ _ _ (hx _ _ _ _ hw h)
  · exact hf τ₁ a _ _ _ _ (hx _ _ _ _ hw h₁) h₂

/-- A statement and what follows it, unless it raises. -/
theorem seq {s : S} {f : R s → Prog S R E β} {B : R s → W → Prop}
    {Q : List (Exchange S R E) → Except E β → W → Prop}
    (hok : ∀ w w₁ a w₂, A w → env w w₁ → exec s w₁ (.ok a) w₂ → B a w₂)
    (hf : ∀ a, Meets exec env (B a) (f a) fun τ o w => Q (⟨s, .ok a⟩ :: τ) o w)
    (herror : ∀ w w₁ e w₂, A w → env w w₁ → exec s w₁ (.error e) w₂ →
      Q [⟨s, .error e⟩] (.error e) w₂) : Meets exec env A ((Prog.perform s).bind f) Q := by
  intro w τ o w' hw he
  rcases he.of_bind with ⟨e, rfl, h⟩ | ⟨a, τ₁, τ₂, w₂, rfl, h₁, h₂⟩
  · obtain ⟨w₁, henv, hx, rfl⟩ := h.of_perform
    exact herror w w₁ e w' hw henv hx
  · obtain ⟨w₁, henv, hx, rfl⟩ := h₁.of_perform
    exact hf a w₂ τ₂ o w' (hok w w₁ a w₂ hw henv hx) h₂

theorem attempt {x : Prog S R E α}
    {Q : List (Exchange S R E) → Except E (Except E α) → W → Prop}
    (hx : Meets exec env A x fun τ o w => Q τ (.ok o) w) : Meets exec env A x.attempt Q := by
  intro w τ o w' hw hrun
  obtain ⟨o', rfl, h⟩ := hrun.of_attempt
  exact hx _ _ _ _ hw h

/-- What follows the outcome of an attempt. -/
theorem attempted {x : Prog S R E α} {f : Except E α → Prog S R E β}
    {M : List (Exchange S R E) → Except E α → W → Prop}
    {Q : List (Exchange S R E) → Except E β → W → Prop} (hx : Meets exec env A x M)
    (hf : ∀ τ o, Meets exec env (M τ o) (f o) fun τ' o' w => Q (τ ++ τ') o' w) :
    Meets exec env A (x.attempt.bind f) Q := by
  refine bind (M := fun τ o w => ∃ o', o = .ok o' ∧ M τ o' w)
    (attempt (hx.post fun τ o w h => ⟨o, rfl, h⟩)) (fun τ o => ?_) fun τ e w h => ?_
  · rintro w τ' o' w' ⟨_, ⟨⟩, hw⟩ he
    exact hf τ o w τ' o' w' hw he
  · obtain ⟨_, h, _⟩ := h
    cases h

end Meets

end Prog

end ShipmentImport

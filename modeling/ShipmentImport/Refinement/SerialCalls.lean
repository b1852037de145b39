import ShipmentImport.Refinement.Effects
import ShipmentImport.Services.CreateImport

/-!
# Calls of `create_import` one after the other

`serve` is what one call does to the list of the imports created so far, and `Serial` is a sequence
of calls. `serialCalls` is the protocol in which concurrent calls keep such a sequence: a call is
served once, at the statement that decides its answer, and an import is listed when it is committed.
Statements may fail; a call of which one failed need not have been served, nor return its answer.
-/

namespace ShipmentImport

/-! ## The sequential specification -/

/-- An import that was created, with what later requests are compared with. -/
structure Registration where
  importId : ImportId
  idempotencyKey : Option String
  idempotencyFingerprint : String
  deriving DecidableEq

/-- The imports created so far. -/
abbrev Registry := List Registration

/-- What a call answers. -/
inductive Answer
  | created (importId : ImportId)
  | existing (importId : ImportId)
  | conflict
  | duplicate (importId : ImportId)
  /-- The columns do not hold the request. -/
  | rejected
  deriving DecidableEq

/-- The registration of a committed import. -/
def registration (r : Version ImportJob) : Registration :=
  ⟨r.id, r.val.idempotencyKey, r.val.idempotencyFingerprint⟩

/-- The registration a request asks for. -/
def CreateRequest.registration (request : CreateRequest) (importId : ImportId) : Registration :=
  ⟨importId, request.idempotencyKey, request.idempotencyFingerprint⟩

/-- The import that has the key of a request. -/
def knownKey (registry : Registry) (request : CreateRequest) : Option Registration :=
  request.idempotencyKey.bind fun key => registry.find? (·.idempotencyKey == some key)

/-- The import that has the fingerprint of a request. -/
def knownFingerprint (registry : Registry) (request : CreateRequest) : Option Registration :=
  registry.find? (·.idempotencyFingerprint == request.idempotencyFingerprint)

/-- One call: its answer, and the imports after it. A new import gets the number `importId`. -/
def serve (settings : Settings) (request : CreateRequest) (importId : ImportId)
    (registry : Registry) : Answer × Registry :=
  match knownKey registry request with
  | some e =>
    if e.idempotencyFingerprint = request.idempotencyFingerprint then
      (.existing e.importId, registry)
    else (.conflict, registry)
  | none =>
    match knownFingerprint registry request with
    | some e => (.duplicate e.importId, registry)
    | none =>
      if (request.importJob settings).fits then
        (.created importId, registry ++ [request.registration importId])
      else (.rejected, registry)

/-- A call that was served. -/
structure Served where
  caller : Nat
  request : CreateRequest
  answer : Answer
  deriving DecidableEq

/-- Calls served one after the other, and the imports they created. -/
inductive Serial (settings : Settings) : List Served → Registry → Prop
  | nil : Serial settings [] []
  | call {served : List Served} {registry : Registry} (h : Serial settings served registry)
      (caller : Nat) (request : CreateRequest) (importId : ImportId)
      (fresh : ∀ e ∈ registry, e.importId ≠ importId) :
      Serial settings
        (served ++ [⟨caller, request, (serve settings request importId registry).1⟩])
        (serve settings request importId registry).2

/-- The outcome of `create_import` that an answer stands for. -/
def Answer.Reports : Answer → Except Exc ImportCreateOutcome → Prop
  | created importId, .ok outcome => outcome.created = true ∧ outcome.result.importId = importId
  | existing importId, .ok outcome => outcome.created = false ∧ outcome.result.importId = importId
  | conflict, .error .idempotencyConflictError => True
  | duplicate importId, .error (.duplicateImportError found) => found.importId = importId
  | rejected, .error .databaseWriteError => True
  | _, _ => False

section
variable {settings : Settings} {request : CreateRequest} {importId : ImportId}
  {served : List Served} {registry : Registry} {e e' : Registration} {key : String}

theorem knownKey_eq_none : knownKey registry request = none ↔
    ∀ key, request.idempotencyKey = some key → ∀ e ∈ registry, e.idempotencyKey ≠ some key := by
  simp [knownKey, Option.bind_eq_none_iff, List.find?_eq_none]

theorem knownFingerprint_eq_none : knownFingerprint registry request = none ↔
    ∀ e ∈ registry, e.idempotencyFingerprint ≠ request.idempotencyFingerprint := by
  simp [knownFingerprint, List.find?_eq_none]

/-- A call lists at most one import, and only if nothing listed has its key or its fingerprint. -/
theorem serve_registry (settings : Settings) (request : CreateRequest) (importId : ImportId)
    (registry : Registry) : (serve settings request importId registry).2 = registry ∨
    (serve settings request importId registry).2 = registry ++ [request.registration importId] ∧
      knownKey registry request = none ∧ knownFingerprint registry request = none := by
  unfold serve
  split
  · split <;> exact .inl rfl
  · next hk =>
    split
    · exact .inl rfl
    · next hf =>
      split
      · exact .inr ⟨rfl, hk, hf⟩
      · exact .inl rfl

namespace Serial

/-- What only imports with the same key or the same fingerprint have in common tells all of them
apart. -/
theorem unique {P : Registration → Registration → Prop} (hsymm : ∀ e e', P e e' → P e' e)
    (hnew : ∀ e (request : CreateRequest) importId, P e (request.registration importId) →
      (∃ key, request.idempotencyKey = some key ∧ e.idempotencyKey = some key) ∨
      e.idempotencyFingerprint = request.idempotencyFingerprint)
    (h : Serial settings served registry) (he : e ∈ registry) (he' : e' ∈ registry)
    (hp : P e e') : e = e' := by
  induction h generalizing e e' with
  | nil => cases he
  | @call served registry _ caller request importId fresh ih =>
    have hserve := serve_registry settings request importId registry
    rcases hserve with hr | ⟨hr, hk, hf⟩
    · rw [hr] at he he'
      exact ih he he' hp
    · have hno : ∀ e ∈ registry, ¬ P e (request.registration importId) := fun e he hp => by
        rcases hnew e request importId hp with ⟨key, hkey, hek⟩ | hef
        · exact knownKey_eq_none.1 hk key hkey e he hek
        · exact knownFingerprint_eq_none.1 hf e he hef
      rw [hr, List.mem_append, List.mem_singleton] at he he'
      rcases he with he | rfl <;> rcases he' with he' | rfl
      · exact ih he he' hp
      · exact absurd hp (hno e he)
      · exact absurd (hsymm _ _ hp) (hno e' he')
      · rfl

theorem key_unique (h : Serial settings served registry) (he : e ∈ registry) (he' : e' ∈ registry)
    (hk : e.idempotencyKey = some key) (hk' : e'.idempotencyKey = some key) : e = e' :=
  h.unique (P := fun e e' => ∃ key, e.idempotencyKey = some key ∧ e'.idempotencyKey = some key)
    (fun _ _ ⟨key, h, h'⟩ => ⟨key, h', h⟩) (fun _ _ _ ⟨key, h, h'⟩ => .inl ⟨key, h', h⟩)
    he he' ⟨key, hk, hk'⟩

theorem fingerprint_unique (h : Serial settings served registry) (he : e ∈ registry)
    (he' : e' ∈ registry) (hf : e.idempotencyFingerprint = e'.idempotencyFingerprint) : e = e' :=
  h.unique (P := fun e e' => e.idempotencyFingerprint = e'.idempotencyFingerprint)
    (fun _ _ h => h.symm) (fun _ _ _ h => .inr h) he he' hf

theorem knownKey_eq (h : Serial settings served registry) (he : e ∈ registry)
    (hk : request.idempotencyKey = some key) (hek : e.idempotencyKey = some key) :
    knownKey registry request = some e := by
  rw [knownKey, hk, Option.bind_some]
  cases hf : registry.find? (·.idempotencyKey == some key) with
  | none => exact absurd hek (by simpa using List.find?_eq_none.1 hf e he)
  | some e' =>
    have hek' : e'.idempotencyKey = some key := by simpa using List.find?_some hf
    exact congrArg some (h.key_unique (List.mem_of_find?_eq_some hf) he hek' hek)

theorem knownFingerprint_eq (h : Serial settings served registry) (he : e ∈ registry)
    (hef : e.idempotencyFingerprint = request.idempotencyFingerprint) :
    knownFingerprint registry request = some e := by
  cases hf : knownFingerprint registry request with
  | none => exact absurd hef (knownFingerprint_eq_none.1 hf e he)
  | some e' =>
    have hef' : e'.idempotencyFingerprint = request.idempotencyFingerprint := by
      simpa using List.find?_some hf
    have hmem := List.mem_of_find?_eq_some hf
    exact congrArg some (h.fingerprint_unique hmem he (hef'.trans hef.symm))

/-- A call is rejected only for what it asks. -/
theorem rejected {p : Nat} (h : Serial settings served registry)
    (hs : ⟨p, request, .rejected⟩ ∈ served) : (request.importJob settings).fits = false := by
  induction h with
  | nil => cases hs
  | @call served registry _ caller request' importId fresh ih =>
    rw [List.mem_append, List.mem_singleton] at hs
    rcases hs with hs | hs
    · exact ih hs
    · injection hs with _ hreq hanswer
      subst hreq
      unfold serve at hanswer
      split at hanswer
      · split at hanswer <;> cases hanswer
      · split at hanswer
        · cases hanswer
        · split at hanswer
          · cases hanswer
          · next hf => simpa using hf

end Serial

end

/-! ## The protocol -/

/-- The calls served so far, the imports they created, and the calls of which a statement failed. -/
structure Calls where
  served : List Served
  registry : Registry
  failed : List Nat

/-- The calls that were served make a sequence, and the committed imports are those it created. -/
structure CallsInv (env : Env) (x : World × Calls) : Prop where
  wf : x.1.db.Wf
  serial : Serial env.settings x.2.served x.2.registry
  callers : (x.2.served.map (·.caller)).Nodup
  rows : ∀ e, e ∈ x.2.registry ↔ ∃ r ∈ x.1.db.importJobs.rows, registration r = e

/-- The statement `l` of process `p` did not run: it failed, or was reported as failed. -/
def Fails (env : Env) (p : Nat) (t : Task) (l : Deed Stmt Stmt.Reply Exc) (w w' : World) : Prop :=
  ∃ s r, l = some ⟨s, r⟩ ∧ w.perform env p t s ≠ some (r, w')

/-- What a step of process `p` does: it serves at most its own call, and creates an import only
while it holds the lock of its fingerprint and the index entry of its key. -/
structure CallsGuar (env : Env) (p : Nat) (t : Task) (l : Deed Stmt Stmt.Reply Exc)
    (x y : World × Calls) : Prop where
  keeps : ∀ u, u ≠ p → Database.Keeps u x.1.db y.1.db
  served : y.2.served = x.2.served ∨
    ∃ request answer, t = .createImport request ∧
      y.2.served = x.2.served ++ [⟨p, request, answer⟩]
  registered : y.2.registry = x.2.registry ∨ ∃ e, y.2.registry = x.2.registry ++ [e] ∧
    x.1.db.advisory (env.server.hashtext e.idempotencyFingerprint) = some p ∧
    ∀ key, e.idempotencyKey = some key → x.1.db.importJobs.entry key = some p
  failed : y.2.failed = x.2.failed ∨
    y.2.failed = p :: x.2.failed ∧ Fails env p t l x.1 y.1

/-- What a step of process `p` does that is not a call. -/
structure World.Spared (p : Nat) (w w' : World) : Prop where
  wf : w'.db.Wf
  keeps : ∀ u, u ≠ p → Database.Keeps u w.db w'.db
  registrations : ∀ e, (∃ r ∈ w'.db.importJobs.rows, registration r = e) ↔
    ∃ r ∈ w.db.importJobs.rows, registration r = e

/-- The protocol of concurrent calls; the other tasks do what they do. -/
@[reducible] def serialCalls (env : Env) : Protocol Stmt Stmt.Reply Exc Task World Calls where
  exec p t s w r w' :=
    match t with
    | .createImport _ => ∃ ch, World.exec env p t s ch w = some (r, w')
    | _ => w.Spared p w'
  inv := CallsInv env
  guar p t l := CallsGuar env p t l
  env x y := y.1.db = x.1.db ∧ y.2 = x.2

/-- What process `p` sees the others do. -/
structure CallsKept (env : Env) (p : Nat) (x y : World × Calls) : Prop where
  keeps : Database.Keeps p x.1.db y.1.db
  served : ∀ s ∈ x.2.served, s ∈ y.2.served
  own : ∀ s ∈ y.2.served, s.caller = p → s ∈ x.2.served
  registered : ∀ e ∈ x.2.registry, e ∈ y.2.registry
  new : ∀ e ∈ y.2.registry, e ∈ x.2.registry ∨
    x.1.db.advisory (env.server.hashtext e.idempotencyFingerprint) ≠ some p ∧
    ∀ key, e.idempotencyKey = some key → x.1.db.importJobs.entry key ≠ some p
  failed : ∀ q ∈ x.2.failed, q ∈ y.2.failed

section
variable {env : Env} {p q : Nat} {t : Task} {l : Deed Stmt Stmt.Reply Exc} {x y : World × Calls}

theorem CallsGuar.served_subset (h : CallsGuar env q t l x y) {s : Served} (hs : s ∈ x.2.served) :
    s ∈ y.2.served := by
  rcases h.served with e | ⟨request, answer, -, e⟩
  · rwa [e]
  · rw [e]
    exact List.mem_append_left _ hs

theorem CallsGuar.failed_subset (h : CallsGuar env q t l x y) {u : Nat} (hu : u ∈ x.2.failed) :
    u ∈ y.2.failed := by
  rcases h.failed with e | ⟨e, -⟩
  · rwa [e]
  · rw [e]
    exact List.mem_cons_of_mem _ hu

theorem CallsGuar.kept (h : CallsGuar env q t l x y) (hq : q ≠ p) : CallsKept env p x y where
  keeps := h.keeps p hq.symm
  served _ := h.served_subset
  own s hs hp := by
    rcases h.served with e | ⟨request, answer, -, e⟩
    · rwa [e] at hs
    · rw [e, List.mem_append, List.mem_singleton] at hs
      rcases hs with hs | rfl
      · exact hs
      · exact absurd hp hq
  registered e he := by
    rcases h.registered with e' | ⟨_, e', -⟩
    · rwa [e']
    · rw [e']
      exact List.mem_append_left _ he
  new e he := by
    rcases h.registered with e' | ⟨e₀, e', hlock, hentry⟩
    · rw [e'] at he
      exact .inl he
    · rw [e', List.mem_append, List.mem_singleton] at he
      refine he.imp_right ?_
      rintro rfl
      exact ⟨fun hl => hq (Option.some.inj (hlock.symm.trans hl)),
        fun key hk hl => hq (Option.some.inj ((hentry key hk).symm.trans hl))⟩
  failed _ := h.failed_subset

theorem other_calls (h : (serialCalls env).other p x y) : CallsKept env p x y := by
  obtain ⟨-, -, ⟨q, t, l, hq, hg⟩ | ⟨hdb, hg⟩⟩ := h
  · exact CallsGuar.kept hg hq
  · rcases x with ⟨w, g⟩
    rcases y with ⟨w', g'⟩
    cases hg
    exact ⟨hdb ▸ .refl p _, fun _ h => h, fun _ h _ => h, fun _ h => h, fun _ h => .inl h,
      fun _ h => h⟩

end

end ShipmentImport

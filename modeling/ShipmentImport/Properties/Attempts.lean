import ShipmentImport.Properties.Imports

/-!
# An attempt that completes

Against codes of the other imports that do not change, an attempt that ends in COMPLETED leaves what
`validate` returns for the workbook, whatever earlier attempts have left and however the file is cut
into chunks. The runs have two parts: an arbitrary one up to the point from which on the codes are
fixed, and the one in which the attempt starts and ends. The outline of the first part is turned
into one of the second (`Reachable.holds_frozen`).
-/

namespace ShipmentImport

section
variable {env : Env} {c₀ c c' : State}

/-- The runs in which the codes of the other imports are fixed. -/
def Setting.fixed {env : Env} (fz : Frozen env) : Setting := ⟨env, False, False, some fz⟩

theorem Setting.Inv.any {fz : Frozen env} {x : World × Ghost} (h : (Setting.fixed fz).Inv x) :
    (Setting.any env).Inv x where
  wf := h.wf
  slices := h.slices
  intents := h.intents
  outbox := h.outbox
  dispatched := fun ht => ht.elim
  frozen := fun _ e => nomatch e
  sealed := fun _ e => nomatch e

theorem Setting.Inv.fixed {fz : Frozen env} {x : World × Ghost} (h : (Setting.any env).Inv x)
    (ha : fz.At x.1.db) (hs : fz.Sealed x.1.db) : (Setting.fixed fz).Inv x where
  wf := h.wf
  slices := h.slices
  intents := h.intents
  outbox := h.outbox
  dispatched := fun ht => ht.elim
  frozen := fun _ e => by cases e; exact ha
  sealed := fun _ e => by cases e; exact hs

/-- Both settings have the same guarantee. -/
theorem Setting.guar_fixed {fz : Frozen env} {p : Nat} {t : Task} {l : Deed Stmt Stmt.Reply Exc}
    {x y : World × Ghost} :
    (Setting.fixed fz).Guar p t l x y ↔ (Setting.any env).Guar p t l x y :=
  ⟨fun h => ⟨h.keeps, h.steps, h.events, h.intended, h.unintended, fun hu => hu.elim, h.ghost, h.sent,
    h.live⟩, fun h => ⟨h.keeps, h.steps, h.events, h.intended, h.unintended, fun hu => hu.elim,
    h.ghost, h.sent, h.live⟩⟩

/-- A process from before the codes were fixed does not complete the import as one from after. -/
theorem Frozen.Sealed.step {fz : Frozen env} {role : Role} {p : Nat} {now : Time}
    {d d' : Database} (h : fz.Sealed d) (hp : p < fz.since)
    (hs : Slice.Step env role p now (d.slice fz.importId) (d'.slice fz.importId)) :
    fz.Sealed d' := by
  intro r hr hc hw
  rcases hs.completed_writer hr hc with e | e
  · rw [← e] at hr ⊢
    exact h r hr hc hw
  · omega

/-- Such a process stays safe. -/
theorem safe_fixed {fz : Frozen env} {p : Nat} (hp : p < fz.since) {t : Task} {α : Type}
    {x : Py α} {Q : Except Exc α → World × Ghost → Prop} {y : World × Ghost}
    (h : (Setting.any env).protocol.Safe p t x Q y) :
    (Setting.fixed fz).protocol.Safe p t x Q y := by
  refine h.strengthen ?_ (fun _ => Setting.Inv.any) (fun _ _ _ => Setting.guar_fixed.2) ?_ ?_
  · rintro s w r w' ⟨ch, hx, -⟩
    exact ⟨ch, hx, ⟨fun h => h.elim, fun h => h.elim, fun _ e => nomatch e⟩⟩
  · rintro x y ⟨hx, hy, ⟨q, u, l, hq, hg⟩ | he⟩
    · exact ⟨hx.any, hy.any, .inl ⟨q, u, l, hq, Setting.guar_fixed.1 hg⟩⟩
    · exact ⟨hx.any, hy.any, .inr he⟩
  · rintro s w g r w' g' hi ⟨ch, hx, ha⟩ hi' hg
    exact hi'.fixed (ha.frozen fz rfl) ((hi.sealed fz rfl).step hp (hg.steps _))

/-- The outline of a reachable state, for the runs from there on in which the codes are fixed. -/
theorem Reachable.holds_frozen (h : Reachable env c₀) {fz : Frozen env}
    (hs : fz.since = c₀.procs.length) (ha : fz.At c₀.world.db) :
    ∃ g, (Setting.fixed fz).outline.Holds c₀ g := by
  obtain ⟨g, hg⟩ := h.holds
  have hsealed : fz.Sealed c₀.world.db := by
    intro r hr hc hw
    exact absurd rfl ((hg.fresh r.writer (hs ▸ hw)).completed fz.importId r hr hc)
  refine ⟨g, hg.inv.fixed ha hsealed, hg.fresh, hg.gone, fun p t x hp => ?_⟩
  obtain ⟨hl, hx⟩ := hg.live p t x hp
  refine ⟨hl, fun y hy => safe_fixed (hs ▸ Outline.proc_lt hp) (hx y ?_)⟩
  refine Relation.ReflTransGen.mono ?_ _ _ hy
  rintro x y ⟨hx, hy, ⟨q, u, l, hq, hg⟩ | he⟩
  · exact ⟨hx.any, hy.any, .inl ⟨q, u, l, hq, Setting.guar_fixed.1 hg⟩⟩
  · exact ⟨hx.any, hy.any, .inr he⟩

/-! ## What a completed attempt leaves -/

/-- `codes` are the codes of the shipments of the other imports. -/
def Database.CodesOfOthers (d : Database) (i : ImportId) (codes : List String) : Prop :=
  ∀ code, code ∈ codes ↔ ∃ v ∈ d.shipments.rows, v.val.importId ≠ i ∧ v.val.shipmentCode = code

/-- What is in a validation result comes from a row of the workbook. -/
theorem mem_validate {A : Adapters} {i : ImportId} {codes : List String} {n : Nat}
    {worksheet : Worksheet} {result : ValidationResult}
    (h : validate i A codes n worksheet = .ok result) {s : Shipment} (hs : s ∈ result.shipments) :
    ∃ rows row r, XlsxParser.dataRows worksheet = .ok rows ∧ row ∈ rows ∧
      (prepareRow A row).parsedRow = some r ∧ s = r.toShipment i := by
  rw [validate_eq_onePass] at h
  cases hd : XlsxParser.dataRows worksheet with
  | error e => rw [hd] at h; cases h
  | ok rows =>
    rw [hd] at h
    cases h
    have hp : ∀ p ∈ rows.map (prepareRow A), p.Coded := by
      intro p hp
      obtain ⟨row, -, rfl⟩ := List.mem_map.1 hp
      exact prepareRow_coded A row
    have hfresh : (onePass i codes (rows.map (prepareRow A))).Fresh [] codes :=
      fresh_foldl hp (fresh_empty [] codes)
    have hs' : s ∈ (onePass i codes (rows.map (prepareRow A))).shipments := hs
    rw [hfresh.shipments] at hs'
    obtain ⟨v, hv, rfl⟩ := List.mem_map.1 hs'
    rcases mem_validRows hv with hv | ⟨p, hp, -, r, hr, rfl⟩
    · cases hv
    · obtain ⟨row, hrow, rfl⟩ := List.mem_map.1 hp
      exact ⟨rows, row, r, rfl, hrow, hr, rfl⟩

/-- From `c₀` on, which any run may have reached, the codes `codes` of the other imports do not
change. A process that has started since then and completes the import leaves what `validate`
returns against these codes, whatever its chunk size: the counters, the errors, and the shipments
with their weights and prices rounded. -/
theorem completed_attempt_matches (plain : ∀ v s, env.adapters.string v = .ok s → v = .str s)
    (h₀ : Reachable env c₀) {i : ImportId} {codes : List String}
    (hcodes : c₀.world.db.CodesOfOthers i codes)
    (hr : (service env).Run (fun d a => ∀ d', (service env).next d a = some d' →
      d'.world.db.CodesOfOthers i codes) c₀ c)
    {p : Nat} {ch : Choice} (hp : c₀.procs.length ≤ p)
    (hn : (service env).next c (.step p ch) = some c') (hcodes' : c'.world.db.CodesOfOthers i codes)
    (hbefore : (c.world.db.slice i).status ≠ some .completed)
    (hafter : (c'.world.db.slice i).status = some .completed) :
    ∃ r worksheet result, (c'.world.db.slice i).Matches env i codes r worksheet result ∧
      List.Forall₂ (fun s v => s.RoundsTo v.val) result.shipments
        (c'.world.db.slice i).shipments := by
  let fz : Frozen env := ⟨i, codes, c₀.procs.length, plain⟩
  have hat : fz.At c₀.world.db := hcodes
  obtain ⟨g, hg⟩ := h₀.holds_frozen rfl hat
  have hadmits : ∀ (d : State) (a : Event), (∀ d', (service env).next d a = some d' →
      d'.world.db.CodesOfOthers i codes) → (Setting.fixed fz).Admits d a := by
    intro d a hd
    cases a with
    | step q ch' =>
      intro t s k r w' hq hx
      refine ⟨fun h => h.elim, fun h => h.elim, fun _ e => ?_⟩
      cases e
      exact hd _ (by simp only [Machine.next, hq]; exact congrArg _ hx)
    | _ => trivial
  obtain ⟨g₁, hg₁⟩ := Outline.sound _ hg (hr.mono hadmits)
  have hok : (Setting.fixed fz).Admits c (.step p ch) := hadmits _ _ fun d' hd' => by
    rw [hn] at hd'
    cases hd'
    exact hcodes'
  obtain ⟨g', hg', hm⟩ := hg₁.next hok hn
  obtain ⟨t, s, k, r, hproc, hx, hguar⟩ := hm
  obtain ⟨job, hjob, hst⟩ := Option.map_eq_some_iff.1 hafter
  have hwriter : p = job.writer := by
    rcases (hguar.steps i).completed_writer hjob hst with e | e
    · exact absurd (e ▸ hafter) hbefore
    · exact e.symm
  obtain ⟨r', worksheet, result, hmatch⟩ := hg'.inv.sealed fz rfl job hjob hst (hwriter ▸ hp)
  refine ⟨r', worksheet, result, hmatch, ?_⟩
  have hstripped : ∀ s ∈ result.shipments, s.Stripped := by
    intro s hs
    obtain ⟨rows, row, r, hrows, hrow, hpr, rfl⟩ := mem_validate (hmatch.validate 1) hs
    exact stripped_toShipment plain hrows hrow hpr i
  exact ((List.forall₂_and_left _ _).2 ⟨hstripped, hmatch.shipments⟩).imp
    fun s v h => h.1.roundsTo h.2

end

/-! ## A second attempt -/

/-- Process 2 commits the one chunk of import 0 and is killed; a watchdog, process 3, puts it
back. -/
def firstAttempt : List Event :=
  dispatchedRun ++ .spawn (.processImport ⟨0, 0⟩ none) :: statements 2 17 ++
    .crash 2 :: wait 1000 :: .spawn (.recoverStaleImports .schedule) :: statements 3 6 ++
    [.finish 3]

/-- Process 4 processes the import again, up to the commit that completes it. -/
def secondAttempt : List Event := .spawn (.processImport ⟨0, 0⟩ none) :: statements 4 20

/-- All shipments are those of import 0. -/
def onlyOwn (c : State) : Bool := c.world.db.shipments.rows.all fun v => v.val.importId == 0

theorem codesOfOthers_of_onlyOwn {c : State} (h : onlyOwn c = true) :
    c.world.db.CodesOfOthers 0 [] := by
  refine fun code => ⟨fun h => (nomatch h), fun ⟨v, hv, hne, _⟩ => ?_⟩
  exact absurd (beq_iff_eq.1 (List.all_eq_true.1 h v hv)) hne

set_option maxRecDepth 100000 in
/-- The second attempt finds the row of the first one, and leaves what `validate` returns. -/
theorem secondAttempt_matches : ∃ c₀ c' : State,
    (service oneRowEnv).trace State.initial firstAttempt = some c₀ ∧
    (c₀.world.db.slice 0).shipments.length = 1 ∧
    ∃ r worksheet result, (c'.world.db.slice 0).Matches oneRowEnv 0 [] r worksheet result ∧
      List.Forall₂ (fun s v => s.RoundsTo v.val) result.shipments
        (c'.world.db.slice 0).shipments := by
  let ok : State → Event → Bool := fun d a =>
    ((service oneRowEnv).next d a).all fun d' => onlyOwn d'
  have h : ((service oneRowEnv).trace State.initial firstAttempt).any (fun c₀ =>
      decide ((c₀.world.db.slice 0).shipments.length = 1) && decide (c₀.procs.length = 4) &&
      onlyOwn c₀ && ((service oneRowEnv).checkedTrace ok c₀ secondAttempt).any fun c =>
        decide ((c.world.db.slice 0).status ≠ some .completed) &&
        ((service oneRowEnv).next c (.step 4 .run)).any fun c' =>
          onlyOwn c' && decide ((c'.world.db.slice 0).status = some .completed)) = true := by
    decide +kernel
  obtain ⟨c₀, hc₀, h⟩ := (Option.any_eq_true _ _).1 h
  simp only [Bool.and_eq_true, decide_eq_true_eq, Option.any_eq_true] at h
  obtain ⟨⟨⟨hlen, hprocs⟩, hown₀⟩, c, hc, hbefore, c', hn, hown', hafter⟩ := h
  have hrun : (service oneRowEnv).Run (fun d a => ∀ d', (service oneRowEnv).next d a = some d' →
      d'.world.db.CodesOfOthers 0 []) c₀ c := by
    refine (Machine.run_of_checkedTrace _ hc).mono fun d a hd d' hn' => ?_
    have : ((service oneRowEnv).next d a).all (fun d' => onlyOwn d') = true := hd
    rw [hn'] at this
    exact codesOfOthers_of_onlyOwn this
  refine ⟨c₀, c', hc₀, hlen, ?_⟩
  refine completed_attempt_matches (fun v s hv => ?_) (Machine.run_of_trace _ hc₀)
    (codesOfOthers_of_onlyOwn hown₀) hrun (p := 4) (by omega) hn (codesOfOthers_of_onlyOwn hown')
    hbefore hafter
  cases v <;> cases hv
  rfl

end ShipmentImport

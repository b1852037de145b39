import ShipmentImport.Lib.Executions
import ShipmentImport.Runs
import ShipmentImport.Services.UploadImport

/-!
# Storing an upload

`save_upload` against any reader, while the other processes do anything that leaves the two files of
this upload alone, which are named after its own token: it ends, it succeeds exactly when the reader
delivers at most `max_size_bytes`, the file then holds what was delivered however it was cut, and
nothing of an upload that failed is left.
-/

namespace ShipmentImport

/-! ## Readers -/

/-- From read `n` on, the reader delivers these bytes and then the end. -/
inductive Delivers (reader : Reader) : Nat → List UInt8 → Prop
  | done {n : Nat} (h : reader n = .ok []) : Delivers reader n []
  | chunk {n : Nat} {chunk rest : List UInt8} (h : reader n = .ok chunk) (hne : chunk ≠ [])
      (hrest : Delivers reader (n + 1) rest) : Delivers reader n (chunk ++ rest)

theorem Delivers.unique {reader : Reader} {n : Nat} {bytes bytes' : List UInt8}
    (h : Delivers reader n bytes) (h' : Delivers reader n bytes') : bytes = bytes' := by
  induction h generalizing bytes' with
  | done h =>
    cases h' with
    | done _ => rfl
    | chunk h' hne _ =>
      rw [h] at h'
      cases h'
      exact absurd rfl hne
  | chunk h hne _ ih =>
    cases h' with
    | done h' =>
      rw [h] at h'
      cases h'
      exact absurd rfl hne
    | chunk h' _ hrest' =>
      rw [h] at h'
      cases h'
      rw [ih hrest']

/-! ## Files -/

namespace World

theorem lookup_cons (path q : String) (content : List UInt8)
    (files : List (String × List UInt8)) : ((path, content) :: files).lookup q =
      if q = path then some content else files.lookup q := by
  rw [List.lookup_cons]
  by_cases hq : q = path
  · simp [hq]
  · rw [if_neg hq, beq_eq_false_iff_ne.2 hq]

theorem lookup_deleteFile (w : World) (path q : String) :
    (w.deleteFile path).files.lookup q = if q = path then none else w.files.lookup q := by
  show (w.files.filter fun x => x.1 ≠ path).lookup q = _
  induction w.files with
  | nil => simp
  | cons x l ih =>
    obtain ⟨k, c⟩ := x
    rw [List.filter_cons, lookup_cons]
    by_cases hk : k = path
    · subst hk
      rw [if_neg (by simp), ih]
      by_cases hq : q = k
      · rw [if_pos hq, if_pos hq]
      · rw [if_neg hq, if_neg hq, if_neg hq]
    · rw [if_pos (by simpa using hk), lookup_cons]
      by_cases hq : q = k
      · rw [if_pos hq, if_pos hq, if_neg (hq ▸ hk)]
      · rw [if_neg hq, if_neg hq, ih]

theorem lookup_putFile (w : World) (path q : String) (content : List UInt8) :
    (w.putFile path content).files.lookup q =
      if q = path then some content else w.files.lookup q := by
  show ((path, content) :: (w.deleteFile path).files).lookup q = _
  rw [lookup_cons, lookup_deleteFile]
  by_cases hq : q = path
  · rw [if_pos hq, if_pos hq]
  · rw [if_neg hq, if_neg hq, if_neg hq]

/-- The other processes do not touch the files at these paths. -/
def KeepsFiles (paths : List String) (w w' : World) : Prop :=
  ∀ path ∈ paths, w'.files.lookup path = w.files.lookup path

end World

/-! ## Executions of an upload -/

/-- A statement of the process by a choice, where the token that is drawn is `fileToken`. -/
def uploadStep (env : Env) (p : Nat) (t : Task) (fileToken : Token) (ch : Choice) (s : Stmt)
    (w : World) : Option (Except Exc s.Reply × World) :=
  match s with
  | .uuid4 => if w.db.issued = fileToken then World.exec env p t .uuid4 ch w else none
  | s => World.exec env p t s ch w

def Uploads (env : Env) (p : Nat) (t : Task) (fileToken : Token) (s : Stmt) (w : World)
    (r : Except Exc s.Reply) (w' : World) : Prop :=
  ∃ ch, uploadStep env p t fileToken ch s w = some (r, w')

/-- A statement that leaves the database and the queue alone, but for the uuids it draws. -/
def Stmt.OnFiles : Stmt → Prop
  | .query _ | .commit | .rollback | .close | .dispatchImport _ | .selfRetry .. => False
  | _ => True

/-- No exchange is an error. -/
def Succeeds (τ : List (Prog.Exchange Stmt Stmt.Reply Exc)) : Prop :=
  ∀ x ∈ τ, ∃ a, x.2 = .ok a

section
variable {env : Env} {p : Nat} {t : Task} {fileToken : Token} {w w' : World}

theorem Uploads.exec {s : Stmt} {r : Except Exc s.Reply} (h : Uploads env p t fileToken s w r w') :
    (∃ ch, World.exec env p t s ch w = some (r, w')) ∧
      (s = .uuid4 → w.db.issued = fileToken) := by
  obtain ⟨ch, h⟩ := h
  cases s with
  | uuid4 =>
    simp only [uploadStep] at h
    split at h
    · next hi => exact ⟨⟨ch, h⟩, fun _ => hi⟩
    · cases h
  | _ => exact ⟨⟨ch, h⟩, fun h => (nomatch h)⟩

/-- A statement that runs, and one that raises. -/
theorem Uploads.perform {s : Stmt} {r : Except Exc s.Reply}
    (h : Uploads env p t fileToken s w r w') (hs : s ≠ .commit) (hd : ∀ i, s ≠ .dispatchImport i) :
    w.perform env p t s = some (r, w') ∨
      ∃ f, s.canFail f = true ∧ r = .error (.raised f) ∧ w' = w := by
  obtain ⟨ch, h⟩ := h.exec.1
  cases ch with
  | run => exact .inl h
  | fail f =>
    simp only [World.exec] at h
    split at h
    · next hf =>
      cases h
      exact .inr ⟨f, hf, rfl, rfl⟩
    · cases h
  | lost f =>
    cases s with
    | commit => exact absurd rfl hs
    | dispatchImport i => exact absurd rfl (hd i)
    | _ => cases h

theorem Uploads.createFile {path : String}
    (h : Uploads env p t fileToken (.createFile path) w (.ok ()) w') : w' = w.putFile path [] := by
  rcases h.perform (by simp) (by simp) with h | ⟨f, -, h, -⟩
  · cases h
    rfl
  · cases h

theorem Uploads.writeFile {path : String} {chunk : List UInt8}
    (h : Uploads env p t fileToken (.writeFile path chunk) w (.ok ()) w') :
    w' = w.putFile path ((w.files.lookup path).getD [] ++ chunk) := by
  rcases h.perform (by simp) (by simp) with h | ⟨f, -, h, -⟩
  · cases h
    rfl
  · cases h

theorem Uploads.replaceFile {source target : String}
    (h : Uploads env p t fileToken (.replaceFile source target) w (.ok ()) w') :
    ∃ content, w.files.lookup source = some content ∧
      w' = (w.deleteFile source).putFile target content := by
  rcases h.perform (by simp) (by simp) with h | ⟨f, -, h, -⟩
  · simp only [World.perform] at h
    split at h
    · next content hc =>
      cases h
      exact ⟨content, hc, rfl⟩
    · cases h
  · cases h

theorem Uploads.deleteFile {path : String} {r : Except Exc Unit}
    (h : Uploads env p t fileToken (.deleteFile path) w r w') :
    r = .ok () ∧ w' = w.deleteFile path := by
  rcases h.perform (by simp) (by simp) with h | ⟨f, hf, -⟩
  · cases h
    exact ⟨rfl, rfl⟩
  · cases hf

theorem Uploads.readUpload {r : Except Exc Unit}
    (h : Uploads env p t fileToken .readUpload w r w') : w' = w := by
  rcases h.perform (by simp) (by simp) with h | ⟨f, -, -, rfl⟩
  · cases h
    rfl
  · rfl

theorem Uploads.makeUploadDir {r : Except Exc Unit}
    (h : Uploads env p t fileToken .makeUploadDir w r w') : w' = w := by
  rcases h.perform (by simp) (by simp) with h | ⟨f, -, -, rfl⟩
  · cases h
    rfl
  · rfl

theorem Uploads.uuid4 {r : Except Exc Token} (h : Uploads env p t fileToken .uuid4 w r w') :
    r = .ok fileToken ∧ w'.files = w.files := by
  have htk := h.exec.2 rfl
  rcases h.perform (by simp) (by simp) with hx | ⟨f, hf, -⟩
  · cases hx
    exact ⟨congrArg Except.ok htk, rfl⟩
  · cases hf

end

/-! ## The loop -/

theorem Succeeds.append {τ τ' : List (Prog.Exchange Stmt Stmt.Reply Exc)} :
    Succeeds (τ ++ τ') ↔ Succeeds τ ∧ Succeeds τ' := by
  simp [Succeeds, or_imp, forall_and]

theorem not_succeeds {τ : List (Prog.Exchange Stmt Stmt.Reply Exc)} {s : Stmt} {e : Exc}
    (h : ⟨s, .error e⟩ ∈ τ) : ¬ Succeeds τ := by
  intro hs
  obtain ⟨a, ha⟩ := hs _ h
  cases ha

namespace LocalFileStorage

variable {env : Env} {storage : LocalFileStorage} {reader : Reader} {p : Nat} {t : Task}
  {fileToken : Token} {paths : List String} {path : String}

/-- What is delivered from read `n` on, after the bytes `digest`, is within the limit. -/
def Fits (storage : LocalFileStorage) (reader : Reader) (n : Nat) (digest : List UInt8) : Prop :=
  ∃ rest, Delivers reader n rest ∧ (digest ++ rest).length ≤ storage.maxSizeBytes

/-- What the loop ends with: the bytes delivered, which are those in the file, or an exception,
which is no more than was asked for when every statement succeeded. -/
def Received (storage : LocalFileStorage) (reader : Reader) (path : String) (n : Nat)
    (digest : List UInt8) (τ : List (Prog.Exchange Stmt Stmt.Reply Exc))
    (o : Except Exc (Nat × List UInt8)) (w : World) : Prop :=
  match o with
  | .ok (totalSize, bytes) => totalSize = bytes.length ∧ bytes.length ≤ storage.maxSizeBytes ∧
      w.files.lookup path = some bytes ∧ ∃ rest, Delivers reader n rest ∧ bytes = digest ++ rest
  | .error _ => Succeeds τ → ¬ Fits storage reader n digest

/-- Another chunk is read before the rest. -/
theorem fits_step {n : Nat} {digest chunk : List UInt8} (h : reader n = .ok chunk)
    (hne : chunk ≠ []) (hf : storage.Fits reader n digest) :
    storage.Fits reader (n + 1) (digest ++ chunk) := by
  obtain ⟨rest, hr, hl⟩ := hf
  cases hr with
  | done h' =>
    rw [h] at h'
    cases h'
    exact absurd rfl hne
  | chunk h' _ hrest =>
    rw [h] at h'
    cases h'
    exact ⟨_, hrest, by rwa [List.append_assoc]⟩

theorem Received.step {n : Nat} {digest chunk : List UInt8}
    {τ τ' : List (Prog.Exchange Stmt Stmt.Reply Exc)} {o : Except Exc (Nat × List UInt8)}
    {w : World} (h : reader n = .ok chunk) (hne : chunk ≠ [])
    (hr : storage.Received reader path (n + 1) (digest ++ chunk) τ' o w) :
    storage.Received reader path n digest (τ ++ τ') o w := by
  match o, hr with
  | .ok (totalSize, bytes), ⟨ht, hle, hl, rest, hd, hb⟩ =>
    exact ⟨ht, hle, hl, chunk ++ rest, .chunk h hne hd, by rw [hb, List.append_assoc]⟩
  | .error e, hr => exact fun hs hf => hr (Succeeds.append.1 hs).2 (fits_step h hne hf)

theorem receive_meets (hpath : path ∈ paths) (fuel n : Nat) (digest : List UInt8)
    (hd : digest.length ≤ storage.maxSizeBytes) :
    Prog.Meets (Uploads env p t fileToken) (World.KeepsFiles paths)
      (fun w => w.files.lookup path = some digest)
      (storage.receive reader path fuel n digest.length digest)
      (storage.Received reader path n digest) := by
  induction fuel generalizing n digest with
  | zero =>
    -- Nothing answers the statement that stands for an endless loop.
    refine Prog.Meets.seq (B := fun _ _ => False) (fun _ _ a => nomatch a) (fun a => nomatch a) ?_
    rintro w w₁ e w₂ - - ⟨ch, h⟩
    cases ch <;> cases h
  | succ fuel ih =>
    refine Prog.Meets.seq (B := fun _ w => w.files.lookup path = some digest) ?_ (fun _ => ?_)
      fun _ _ _ _ _ _ _ hs => absurd hs (not_succeeds List.mem_cons_self)
    · intro w w₁ _ w₂ hw henv hx
      rw [hx.readUpload, henv path hpath, hw]
    cases hr : reader n with
    | error f =>
      refine Prog.Meets.raise ?_
      rintro w - - ⟨rest, hd, -⟩
      cases hd with
      | done h | chunk h =>
        rw [hr] at h
        cases h
    | ok chunk =>
      dsimp only
      by_cases hc : chunk = []
      · rw [if_pos hc]
        refine Prog.Meets.ret fun w hw => ⟨rfl, hd, hw, [], .done (hc ▸ hr), ?_⟩
        rw [List.append_nil]
      rw [if_neg hc]
      by_cases hmax : digest.length + chunk.length > storage.maxSizeBytes
      · rw [if_pos hmax]
        refine Prog.Meets.raise ?_
        rintro w - - hf
        obtain ⟨rest, -, hl⟩ := fits_step hr hc hf
        rw [List.length_append, List.length_append] at hl
        omega
      · rw [if_neg hmax]
        refine Prog.Meets.seq (B := fun _ w => w.files.lookup path = some (digest ++ chunk)) ?_
          (fun _ => ?_) fun _ _ _ _ _ _ _ hs => absurd hs (not_succeeds (.tail _ (.head _)))
        · intro w w₁ _ w₂ hw henv hx
          rw [hx.writeFile, World.lookup_putFile, if_pos rfl, henv path hpath, hw,
            Option.getD_some]
        · have hih := ih (n + 1) (digest ++ chunk) (by rw [List.length_append]; omega)
          rw [List.length_append] at hih
          exact hih.post fun τ o w hr' => Received.step hr hc (τ := [_, _]) hr'

theorem withFile_meets (hpath : path ∈ paths) :
    Prog.Meets (Uploads env p t fileToken) (World.KeepsFiles paths) (fun _ => True)
      (withFile path (storage.receive reader path (storage.maxSizeBytes + 1) 0 0 []))
      (storage.Received reader path 0 []) := by
  refine Prog.Meets.seq (B := fun _ w => w.files.lookup path = some []) ?_ (fun _ => ?_)
    fun _ _ _ _ _ _ _ hs => absurd hs (not_succeeds List.mem_cons_self)
  · intro w w₁ _ w₂ _ _ hx
    rw [hx.createFile, World.lookup_putFile, if_pos rfl]
  refine Prog.Meets.attempted (receive_meets hpath _ 0 [] (Nat.zero_le _)) fun τ o => ?_
  cases o with
  | ok received =>
    obtain ⟨totalSize, bytes⟩ := received
    refine Prog.Meets.seq
      (B := fun _ w => storage.Received reader path 0 [] τ (.ok (totalSize, bytes)) w) ?_
      (fun _ => Prog.Meets.ret fun w hw => hw) fun _ _ _ _ _ _ _ hs =>
        absurd hs (not_succeeds (.tail _ (List.mem_append_right _ (.head _))))
    rintro w w₁ _ w₂ ⟨ht, hle, hl, hr⟩ henv hx
    refine ⟨ht, hle, ?_, hr⟩
    rw [hx.writeFile, World.lookup_putFile, if_pos rfl, henv path hpath, hl, Option.getD_some,
      List.append_nil]
  | error e =>
    refine Prog.Meets.seq (B := fun _ _ => Succeeds τ → ¬ storage.Fits reader 0 []) ?_
      (fun _ => Prog.Meets.raise fun w hw hs => ?_) fun _ _ _ _ _ _ _ hs =>
        absurd hs (not_succeeds (.tail _ (List.mem_append_right _ (.head _))))
    · exact fun w w₁ _ w₂ hw _ _ => hw
    · exact hw fun x hx => hs x (.tail _ (List.mem_append_left _ hx))

/-! ## The upload -/

/-- What is in place once the temporary file has its final name. -/
def Renamed (storage : LocalFileStorage) (reader : Reader) (temp final : String) :
    Nat × List UInt8 → World → Prop
  | (totalSize, bytes), w => totalSize = bytes.length ∧ bytes.length ≤ storage.maxSizeBytes ∧
      Delivers reader 0 bytes ∧ w.files.lookup final = some bytes ∧
      (temp ≠ final → w.files.lookup temp = none)

theorem renamed_meets {temp final : String} (htemp : temp ∈ paths) :
    Prog.Meets (Uploads env p t fileToken) (World.KeepsFiles paths) (fun _ => True)
      (do
        let received ← withFile temp (storage.receive reader temp (storage.maxSizeBytes + 1) 0 0 [])
        Py.stmt (.replaceFile temp final)
        return received : Py (Nat × List UInt8))
      fun τ o w => match o with
        | .ok received => storage.Renamed reader temp final received w
        | .error _ => Succeeds τ → ¬ storage.Fits reader 0 [] := by
  refine (withFile_meets htemp).bind (fun τ received => ?_) fun τ e w hw => hw
  refine Prog.Meets.seq (B := fun _ => storage.Renamed reader temp final received) ?_
    (fun _ => Prog.Meets.ret fun w hw => hw) fun _ _ _ _ _ _ _ hs =>
      absurd hs (not_succeeds (List.mem_append_right _ (.head _)))
  obtain ⟨totalSize, bytes⟩ := received
  rintro w w₁ _ w₂ ⟨ht, hle, hl, rest, hd, rfl⟩ henv hx
  obtain ⟨content, hc, rfl⟩ := hx.replaceFile
  rw [henv temp htemp, hl] at hc
  cases hc
  refine ⟨ht, hle, hd, ?_, fun hne => ?_⟩
  · rw [World.lookup_putFile, if_pos rfl]
  · rw [World.lookup_putFile, if_neg hne, World.lookup_deleteFile, if_pos rfl]

/-- What `save_upload` ends with: what it stored, in the file it says, or nothing. -/
def Saved (env : Env) (storage : LocalFileStorage) (reader : Reader) (originalFileName : String)
    (fileToken : Token) (τ : List (Prog.Exchange Stmt Stmt.Reply Exc)) (o : Except Exc StoredFile)
    (w : World) : Prop :=
  let temp := storage.tempPath env fileToken
  let final := storage.finalPath env fileToken originalFileName
  match o with
  | .ok stored => ∃ bytes, storage.Renamed reader temp final (bytes.length, bytes) w ∧
      stored = ⟨pathName originalFileName, final, bytes.length, env.sha256 bytes⟩
  | .error _ => (Succeeds τ → ¬ storage.Fits reader 0 []) ∧
      (⟨.makeUploadDir, .ok ()⟩ ∈ τ → w.files.lookup temp = none ∧ w.files.lookup final = none)

theorem saveUpload_meets (env : Env) (storage : LocalFileStorage) (reader : Reader)
    (originalFileName : String) (p : Nat) (t : Task) (fileToken : Token) :
    Prog.Meets (Uploads env p t fileToken)
      (World.KeepsFiles [storage.tempPath env fileToken,
        storage.finalPath env fileToken originalFileName]) (fun _ => True)
      (storage.saveUpload env reader originalFileName)
      (storage.Saved env reader originalFileName fileToken) := by
  refine Prog.Meets.seq (B := fun _ _ => True) (fun _ _ _ _ _ _ _ => trivial) (fun _ => ?_)
    fun _ _ _ _ _ _ _ => ⟨fun hs => absurd hs (not_succeeds List.mem_cons_self),
      fun h => nomatch List.mem_singleton.1 h⟩
  refine Prog.Meets.seq (B := fun tk _ => tk = fileToken ∧ True) ?_
    (fun tk => Prog.Meets.of_and ?_) fun w w₁ e w₂ _ _ hx => nomatch hx.uuid4.1
  · intro w w₁ tk w₂ _ _ hx
    cases hx.uuid4.1
    exact ⟨rfl, trivial⟩
  rintro rfl
  set temp := storage.tempPath env tk with htemp
  set final := storage.finalPath env tk originalFileName with hfinal
  refine Prog.Meets.attempted (renamed_meets List.mem_cons_self) fun τ o => ?_
  cases o with
  | ok received =>
    refine Prog.Meets.ret fun w hw => ?_
    obtain ⟨totalSize, bytes⟩ := received
    obtain ⟨rfl, -⟩ := id hw
    exact ⟨bytes, hw, rfl⟩
  | error e =>
    refine Prog.Meets.seq (B := fun _ w => (Succeeds τ → ¬ storage.Fits reader 0 []) ∧
      w.files.lookup temp = none) ?_ (fun _ => ?_) fun w w₁ e w₂ _ _ hx => nomatch hx.deleteFile.1
    · intro w w₁ _ w₂ hw henv hx
      rw [hx.deleteFile.2, World.lookup_deleteFile, if_pos rfl]
      exact ⟨hw, rfl⟩
    refine Prog.Meets.seq (B := fun _ w => (Succeeds τ → ¬ storage.Fits reader 0 []) ∧
      w.files.lookup temp = none ∧ w.files.lookup final = none) ?_
      (fun _ => Prog.Meets.raise fun w hw => ?_) fun w w₁ e w₂ _ _ hx => nomatch hx.deleteFile.1
    · intro w w₁ _ w₂ hw henv hx
      rw [hx.deleteFile.2, World.lookup_deleteFile, World.lookup_deleteFile, if_pos rfl,
        henv temp List.mem_cons_self, hw.2, ite_self]
      exact ⟨hw.1, rfl, rfl⟩
    · exact ⟨fun hs => hw.1 fun x hx =>
        hs x (.tail _ (.tail _ (List.mem_append_left _ hx))), fun _ => hw.2⟩

/-! ## The reads -/

/-- How many reads of the upload there were. -/
def readCount (τ : List (Prog.Exchange Stmt Stmt.Reply Exc)) : Nat :=
  τ.countP fun x => match x.1 with
    | .readUpload => true
    | _ => false

/-- A statement that is neither an endless loop nor a read, or a read below the limit. -/
def ReadsUpTo (limit : Nat) (τ : List (Prog.Exchange Stmt Stmt.Reply Exc)) : Stmt → Prop
  | .spin => False
  | .readUpload => readCount τ < limit
  | _ => True

/-- Such a statement that leaves the database and the queue alone too. -/
def OnFiles (limit : Nat) (τ : List (Prog.Exchange Stmt Stmt.Reply Exc)) (s : Stmt) : Prop :=
  ReadsUpTo limit τ s ∧ s.OnFiles

theorem receive_free (path : String) (fuel n totalSize : Nat) (digest : List UInt8)
    (τ : List (Prog.Exchange Stmt Stmt.Reply Exc)) (hfuel : storage.maxSizeBytes < fuel + totalSize)
    (hn : readCount τ ≤ totalSize) (hle : totalSize ≤ storage.maxSizeBytes) :
    Prog.Free (fun _ _ => True) (OnFiles (storage.maxSizeBytes + 1)) (fun _ _ => True) τ
      (storage.receive reader path fuel n totalSize digest) := by
  induction fuel generalizing n totalSize digest τ with
  | zero => omega
  | succ fuel ih =>
    refine Prog.Free.seq ⟨Nat.lt_succ_of_le (hn.trans hle), trivial⟩ (fun _ _ => ?_) fun _ _ => trivial
    cases reader n with
    | error f => trivial
    | ok chunk =>
      dsimp only
      split_ifs with hc hmax
      · trivial
      · trivial
      refine Prog.Free.seq ⟨trivial, trivial⟩ (fun _ _ => ?_) fun _ _ => trivial
      have hpos : 0 < chunk.length := List.length_pos_of_ne_nil hc
      have hcount : readCount (τ ++ [⟨.readUpload, .ok ()⟩] ++ [⟨.writeFile path chunk, .ok ()⟩])
          = readCount τ + 1 := by
        simp [readCount]
      exact ih _ _ _ _ (by omega) (hcount.trans_le (by omega)) (by omega)

/-- Every pass that is not the last adds to the size, so the reads are bounded, and no loop goes on
forever, whatever is replied. -/
theorem saveUpload_free (env : Env) (storage : LocalFileStorage) (reader : Reader)
    (originalFileName : String) :
    Prog.Free (fun _ _ => True) (OnFiles (storage.maxSizeBytes + 1)) (fun _ _ => True) []
      (storage.saveUpload env reader originalFileName) := by
  refine Prog.Free.seq ⟨trivial, trivial⟩ (fun _ _ => ?_) fun _ _ => trivial
  refine Prog.Free.seq ⟨trivial, trivial⟩ (fun tk _ => ?_) fun _ _ => trivial
  refine Prog.Free.attempted (M := fun _ _ => True) (Prog.Free.bind (Prog.Free.mono
    (Q := fun _ _ => True) (fun τ o _ => ?_) ?_)) fun τ o _ => ?_
  · cases o with
    | error e => trivial
    | ok received =>
      exact Prog.Free.seq ⟨trivial, trivial⟩ (fun _ _ => trivial) fun _ _ => trivial
  · refine Prog.Free.seq ⟨trivial, trivial⟩ (fun _ _ => ?_) fun _ _ => trivial
    refine Prog.Free.attempted (receive_free _ _ _ _ _ _ (Nat.lt_succ_self _) (Nat.le_refl 0)
      (Nat.zero_le _)) fun τ o _ => ?_
    cases o with
    | ok received => exact Prog.Free.seq ⟨trivial, trivial⟩ (fun _ _ => trivial) fun _ _ => trivial
    | error e => exact Prog.Free.seq ⟨trivial, trivial⟩ (fun _ _ => trivial) fun _ _ => trivial
  · cases o with
    | ok received => trivial
    | error e =>
      refine Prog.Free.seq ⟨trivial, trivial⟩ (fun _ _ => ?_) fun _ _ => trivial
      exact Prog.Free.seq ⟨trivial, trivial⟩ (fun _ _ => trivial) fun _ _ => trivial

/-- `save_upload` against any reader: at most `max_size_bytes + 1` reads, and no endless loop,
whatever is replied. When every statement succeeds, it succeeds if and only if the reader ends
within the limit. What it stored depends on the bytes delivered only, not on how they were cut, and
an upload that failed leaves no file. -/
theorem saveUpload_correct (env : Env) (storage : LocalFileStorage) (reader : Reader)
    (originalFileName : String) (p : Nat) (t : Task) (fileToken : Token) :
    let temp := storage.tempPath env fileToken
    let final := storage.finalPath env fileToken originalFileName
    Prog.Free (fun _ _ => True) (ReadsUpTo (storage.maxSizeBytes + 1)) (fun _ _ => True) []
        (storage.saveUpload env reader originalFileName) ∧
      ∀ w τ o w', Prog.Ends (Uploads env p t fileToken) (World.KeepsFiles [temp, final])
          (storage.saveUpload env reader originalFileName) w τ o w' →
        (Succeeds τ → ((∃ stored, o = .ok stored) ↔
          ∃ bytes, Delivers reader 0 bytes ∧ bytes.length ≤ storage.maxSizeBytes)) ∧
        (∀ stored, o = .ok stored → ∃ bytes, Delivers reader 0 bytes) ∧
        (∀ stored bytes, o = .ok stored → Delivers reader 0 bytes →
          bytes.length ≤ storage.maxSizeBytes ∧
          stored = ⟨pathName originalFileName, final, bytes.length, env.sha256 bytes⟩ ∧
          w'.files.lookup final = some bytes ∧ (temp ≠ final → w'.files.lookup temp = none)) ∧
        (∀ e, o = .error e → ⟨.makeUploadDir, .ok ()⟩ ∈ τ →
          w'.files.lookup temp = none ∧ w'.files.lookup final = none) := by
  refine ⟨(saveUpload_free env storage reader originalFileName).weaken (fun _ _ h => h.1)
    fun _ _ h => h, fun w τ o w' hrun => ?_⟩
  have hsaved := saveUpload_meets env storage reader originalFileName p t fileToken w τ o w'
    trivial hrun
  cases o with
  | ok stored =>
    obtain ⟨bytes, ⟨-, hle, hd, hfinal, htemp⟩, rfl⟩ := hsaved
    refine ⟨fun _ => ⟨fun _ => ⟨bytes, hd, hle⟩, fun _ => ⟨_, rfl⟩⟩, fun _ _ => ⟨bytes, hd⟩,
      fun stored bytes' hs hd' => ?_, fun e he => (nomatch he)⟩
    cases hs
    obtain rfl := hd.unique hd'
    exact ⟨hle, rfl, hfinal, htemp⟩
  | error e =>
    obtain ⟨hfits, hclean⟩ := hsaved
    exact ⟨fun hs => ⟨fun ⟨_, h⟩ => (nomatch h), fun hf => absurd hf (hfits hs)⟩,
      fun _ h => (nomatch h), fun _ _ h => (nomatch h), fun _ _ => hclean⟩

/-- Four bytes, read as three and one. -/
def twoChunks : Reader := fun n => .ok (([[1, 2, 3], [4]] : List (List UInt8)).getD n [])

/-- At most four bytes. -/
def smallStorage : LocalFileStorage := ⟨"uploads", 4, id⟩

theorem saveUpload_twoChunks :
    ∃ τ w', Prog.Ends (Uploads oneRowEnv 0 .publishDueEvents 0)
        (World.KeepsFiles [smallStorage.tempPath oneRowEnv 0,
          smallStorage.finalPath oneRowEnv 0 "a.xlsx"])
        (smallStorage.saveUpload oneRowEnv twoChunks "a.xlsx") .empty τ
        (.ok ⟨"a.xlsx", "uploads/0.xlsx", 4, oneRowEnv.sha256 []⟩) w' ∧
      w'.files.lookup "uploads/0.xlsx" = some [1, 2, 3, 4] := by
  have hd : Delivers twoChunks 0 ([1, 2, 3] ++ ([4] ++ [])) :=
    .chunk rfl (by simp) (.chunk rfl (by simp) (.done rfl))
  have hreplay : ((Prog.replay (uploadStep oneRowEnv 0 .publishDueEvents 0) (List.replicate 10 .run)
      (smallStorage.saveUpload oneRowEnv twoChunks "a.xlsx") .empty).map fun x => x.2.1) =
        some (.ok ⟨"a.xlsx", "uploads/0.xlsx", 4, oneRowEnv.sha256 []⟩) := rfl
  obtain ⟨⟨τ, o, w'⟩, h, rfl⟩ := Option.map_eq_some_iff.1 hreplay
  have hrun : Prog.Ends (Uploads oneRowEnv 0 .publishDueEvents 0)
      (World.KeepsFiles [smallStorage.tempPath oneRowEnv 0,
        smallStorage.finalPath oneRowEnv 0 "a.xlsx"])
      (smallStorage.saveUpload oneRowEnv twoChunks "a.xlsx") .empty τ
      (.ok ⟨"a.xlsx", "uploads/0.xlsx", 4, oneRowEnv.sha256 []⟩) w' :=
    .of_replay (fun ch s w r w' h => ⟨ch, h⟩) (fun _ _ _ => rfl) h
  exact ⟨τ, w', hrun, (((saveUpload_correct oneRowEnv smallStorage twoChunks "a.xlsx" 0
    .publishDueEvents 0).2 _ _ _ _ hrun).2.2.1 _ _ rfl hd).2.2.1⟩

end LocalFileStorage

end ShipmentImport

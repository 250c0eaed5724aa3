import ConfigManager.Library.Judging
import ConfigManager.Reference.Disk
import ConfigManager.Source.CheckpointStore

/-!
# What the checkpoint component reads

`readFileBytes` reads a file whole or not at all, and the loops of restore and
prune read and load every file once, in order, whatever becomes of it.
-/

set_option autoImplicit false

namespace ConfigManager.Refinement
open Library Source Reference

variable {φ σ : Type}

def sizeLimitError {α : Type} (path : FsPath) (maxBytes : Nat) : Result α :=
  fail .storageError (bytes "file '" ++ path.string ++ bytes "' exceeds size limit (" ++
    natText maxBytes ++ bytes " bytes)")

/-- The chunks do not matter: the file is within the limit or not, and its reading ends well
or not. -/
theorem readLoop_eq (path : FsPath) (maxBytes : Nat) (sound : Bool) (rest text : Bytes)
    (bound : text.length ≤ maxBytes) :
    readLoop path maxBytes sound rest text =
      if maxBytes < (text ++ rest).length then sizeLimitError path maxBytes
      else if !sound then
        fail .storageError (bytes "failed while reading '" ++ path.string ++ bytes "'")
      else .ok (text ++ rest) := by
  fun_induction readLoop path maxBytes sound rest text with
  | case1 rest text chunk large =>
    have more : chunk.length ≤ rest.length := by
      rw [List.length_take]
      exact Nat.min_le_right _ _
    rw [if_pos]
    · rfl
    · rw [List.length_append]
      omega
  | case2 rest text chunk fits full ih =>
    have split : chunk ++ rest.drop kReadBuffer = rest := List.take_append_drop _ _
    have within : (text ++ chunk).length ≤ maxBytes := by
      rw [List.length_append]
      omega
    rw [ih within, List.append_assoc, split]
  | case3 rest text chunk fits last broken =>
    have whole : chunk = rest := List.take_of_length_le (by omega)
    rw [if_neg, if_pos broken]
    rw [List.length_append, ← whole]
    omega
  | case4 rest text chunk fits last fine =>
    have whole : chunk = rest := List.take_of_length_le (by omega)
    rw [if_neg, if_neg fine, whole]
    rw [List.length_append, ← whole]
    omega

/-- A file that opens, reads to its end and is within the limit. -/
def Readable (os : System φ) (path : FsPath) (maxBytes : Nat) (s : φ) (text : Bytes) : Prop :=
  os.openFile path s = some ⟨text, true⟩ ∧ text.length ≤ maxBytes

theorem readFileBytes_ok (os : System φ) (path : FsPath) (maxBytes : Nat) (s : φ) (text : Bytes) :
    readFileBytes os path maxBytes s = .ok text ↔ Readable os path maxBytes s text := by
  unfold readFileBytes Readable
  cases os.openFile path s with
  | none => simp [fail]
  | some source =>
    obtain ⟨content, sound⟩ := source
    simp only [readLoop_eq path maxBytes sound content [] (Nat.zero_le _), List.nil_append,
      Option.some.injEq, FileSource.mk.injEq]
    by_cases large : maxBytes < content.length
    · rw [if_pos large]
      simp only [sizeLimitError, fail, reduceCtorEq, false_iff]
      rintro ⟨⟨rfl, _⟩, within⟩
      omega
    · rw [if_neg large]
      cases sound with
      | false => simp [fail]
      | true =>
        simp only [Bool.not_true, Bool.false_eq_true, if_false, Except.ok.injEq, and_true]
        constructor
        · rintro rfl
          exact ⟨rfl, by omega⟩
        · exact fun both => both.1

/-! ## Enumerating -/

/-- The regular entries with the name of a checkpoint. -/
def shaped (extension : Bytes) (entries : List (FsPath × Except Errno Bool)) : List FsPath :=
  (entries.filter fun e => e.2.toOption.getD false && isCheckpointFilename e.1 extension).map
    Prod.fst

theorem shaped_append (extension : Bytes) (first last : List (FsPath × Except Errno Bool)) :
    shaped extension (first ++ last) = shaped extension first ++ shaped extension last := by
  rw [shaped, List.filter_append, List.map_append]
  rfl

theorem mem_shaped (extension : Bytes) (entries : List (FsPath × Except Errno Bool))
    (path : FsPath) :
    path ∈ shaped extension entries ↔
      (path, .ok true) ∈ entries ∧ isCheckpointFilename path extension = true := by
  simp only [shaped, List.mem_map, List.mem_filter, Bool.and_eq_true]
  constructor
  · rintro ⟨⟨path', kind⟩, ⟨inside, regular, named⟩, rfl⟩
    rcases kind with e | (_ | _)
    · cases regular
    · cases regular
    · exact ⟨inside, named⟩
  · rintro ⟨inside, named⟩
    exact ⟨(path, .ok true), ⟨inside, rfl, named⟩, rfl⟩

/-- The loop ends well when every entry tells its type. -/
theorem collectEntries_ok (os : System φ) (extension : Bytes)
    (entries : List (FsPath × Except Errno Bool)) (found result : List FsPath) :
    collectEntries os extension entries found = .ok result ↔
      (∀ e ∈ entries, ∃ regular, e.2 = .ok regular) ∧
        result = found ++ shaped extension entries := by
  induction entries generalizing found with
  | nil => simp [collectEntries, shaped, eq_comm]
  | cons entry rest ih =>
    obtain ⟨path, kind⟩ := entry
    cases kind with
    | error e => simp [collectEntries, fail]
    | ok regular =>
      rw [collectEntries]
      cases named : regular && isCheckpointFilename path extension with
      | true =>
        rw [if_pos rfl, ih]
        have head : shaped extension ((path, .ok regular) :: rest) =
            path :: shaped extension rest := by
          simp only [shaped, List.filter_cons, Except.toOption, Option.getD_some, named, if_true,
            List.map_cons]
        simp [head]
      | false =>
        rw [if_neg (by decide), ih]
        have head : shaped extension ((path, .ok regular) :: rest) = shaped extension rest := by
          simp only [shaped, List.filter_cons, Except.toOption, Option.getD_some, named,
            Bool.false_eq_true, if_false]
        simp [head]

/-- A directory that is there is enumerated without an error, and then every entry tells its
type. -/
def Enumerable (os : System φ) (directory : FsPath) (s : φ) : Prop :=
  os.fileExists directory s = .ok true ∧ (os.list directory s).failure = none ∧
    ∀ e ∈ (os.list directory s).entries, ∃ regular, e.2 = .ok regular

theorem checkpointFiles_ok (os : System φ) (store : CheckpointStore) (s : φ)
    (paths : List FsPath) :
    checkpointFiles os store s = .ok paths ↔
      (os.fileExists store.options.checkpointDirectory s = .ok false ∧ paths = []) ∨
        (Enumerable os store.options.checkpointDirectory s ∧
          paths = shaped store.options.canonicalPath.extension
            (os.list store.options.checkpointDirectory s).entries) := by
  unfold Enumerable
  rw [checkpointFiles]
  simp only
  cases present : os.fileExists store.options.checkpointDirectory s with
  | error e => simp [fail]
  | ok found =>
    cases found with
    | false => simp [eq_comm]
    | true =>
      simp only [Except.ok.injEq, Bool.true_eq_false, false_and, true_and, false_or]
      have spec := collectEntries_ok os store.options.canonicalPath.extension
        (os.list store.options.checkpointDirectory s).entries []
      cases collected : collectEntries os store.options.canonicalPath.extension
        (os.list store.options.checkpointDirectory s).entries [] with
      | error e =>
        simp only [reduceCtorEq, false_iff]
        rintro ⟨⟨_, typed⟩, _⟩
        rw [(spec _).mpr ⟨typed, rfl⟩] at collected
        cases collected
      | ok result =>
        obtain ⟨typed, rfl⟩ := (spec result).mp collected
        cases failed : (os.list store.options.checkpointDirectory s).failure with
        | some e => simp [fail]
        | none =>
          simp only [List.nil_append, Except.ok.injEq, true_and]
          exact ⟨fun same => ⟨typed, same.symm⟩, fun both => both.2.symm⟩

/-- The files are the regular entries with the name of a checkpoint. -/
theorem mem_checkpointFiles (os : System φ) (store : CheckpointStore) (s : φ)
    (paths : List FsPath) (listed : checkpointFiles os store s = .ok paths) (path : FsPath) :
    path ∈ paths ↔ os.fileExists store.options.checkpointDirectory s = .ok true ∧
      (path, .ok true) ∈ (os.list store.options.checkpointDirectory s).entries ∧
      isCheckpointFilename path store.options.canonicalPath.extension = true := by
  rcases (checkpointFiles_ok os store s paths).mp listed with ⟨missing, rfl⟩ | ⟨⟨present, _⟩, rfl⟩
  · simp [missing]
  · rw [mem_shaped]
    exact ⟨fun both => ⟨present, both⟩, fun all => all.2⟩

/-- The file has the name of a checkpoint and is in the checkpoint directory. -/
def IsCheckpoint (store : CheckpointStore) (path : FsPath) : Prop :=
  Disk.IsEntry store.options.checkpointDirectory path ∧
    isCheckpointFilename path store.options.canonicalPath.extension = true

/-- The iterator of a directory reports each of its names once. -/
structure Iterates (os : System φ) (directory : FsPath) (s : φ) : Prop where
  entry : ∀ e ∈ (os.list directory s).entries, Disk.IsEntry directory e.1
  once : ((os.list directory s).entries.map Prod.fst).Nodup

/-- On a disk the entries are the files in the directory. -/
theorem disk_entries (message : Errno → Bytes) (directory : FsPath) (d : Disk) (path : FsPath)
    (kind : Except Errno Bool) :
    (path, kind) ∈ ((diskSystem message).list directory d).entries ↔
      Disk.IsEntry directory path ∧ ∃ node, d.file path = some node ∧ node.regular = kind := by
  change (path, kind) ∈ (d.files.entries.filter fun e => Disk.IsEntry directory e.1).map
    (fun e => (e.1, e.2.regular)) ↔ _
  simp only [List.mem_map, List.mem_filter, decide_eq_true_eq, Prod.mk.injEq]
  constructor
  · rintro ⟨⟨p, node⟩, ⟨inside, entry⟩, rfl, rfl⟩
    exact ⟨entry, node, AList.mem_lookup_iff.mpr inside, rfl⟩
  · rintro ⟨entry, node, found, rfl⟩
    exact ⟨⟨path, node⟩, ⟨AList.mem_lookup_iff.mp found, entry⟩, rfl, rfl⟩

theorem disk_iterates (message : Errno → Bytes) (directory : FsPath) (d : Disk) :
    Iterates (diskSystem message) directory d := by
  have listed : ((diskSystem message).list directory d).entries =
      (d.files.entries.filter fun e => Disk.IsEntry directory e.1).map
        fun e => (e.1, e.2.regular) := rfl
  constructor
  · intro e inside
    rw [listed, List.mem_map] at inside
    obtain ⟨file, found, rfl⟩ := inside
    simpa using (List.mem_filter.mp found).2
  · rw [listed, List.map_map]
    have keys : (d.files.entries.map Sigma.fst).Nodup := d.files.nodupKeys
    exact keys.sublist (List.filter_sublist.map _)

theorem checkpointFiles_entries {os : System φ} {store : CheckpointStore} {s : φ}
    (iterates : Iterates os store.options.checkpointDirectory s) (paths : List FsPath)
    (listed : checkpointFiles os store s = .ok paths) :
    paths.Nodup ∧ ∀ path ∈ paths, Disk.IsEntry store.options.checkpointDirectory path := by
  rcases (checkpointFiles_ok os store s paths).mp listed with ⟨_, rfl⟩ | ⟨_, rfl⟩
  · exact ⟨.nil, by simp⟩
  · refine ⟨iterates.once.sublist (List.filter_sublist.map _), fun path inside => ?_⟩
    exact iterates.entry _ ((mem_shaped _ _ path).mp inside).1

/-! ## Reading and loading every file -/

/-- What reading, loading and the modification time say of a file. -/
abbrev Examined := FsPath × Except Error (VersionedConfig × Except Errno FileTime)

/-- One file, with the state that the backend is left in. -/
def examineFile (os : System φ) (store : CheckpointStore) (backend : Backend σ) (s : φ)
    (path : FsPath) (state : σ) : Examined × σ :=
  match readFileBytes os path store.options.maxFileBytes s with
  | .error e => ((path, .error e), state)
  | .ok text =>
      match loadBytes backend text state with
      | (.error e, state) => ((path, .error e), state)
      | (.ok loaded, state) => ((path, .ok (loaded, os.lastWriteTime path s)), state)

def examine (os : System φ) (store : CheckpointStore) (backend : Backend σ) (s : φ) :
    List FsPath → σ → List Examined × σ
  | [], state => ([], state)
  | path :: rest, state =>
      let (first, state) := examineFile os store backend s path state
      let (others, state) := examine os store backend s rest state
      (first :: others, state)

@[simp] theorem examineFile_path (os : System φ) (store : CheckpointStore) (backend : Backend σ)
    (s : φ) (path : FsPath) (state : σ) :
    (examineFile os store backend s path state).1.1 = path := by
  unfold examineFile
  split
  · rfl
  · split <;> rfl

theorem examine_paths (os : System φ) (store : CheckpointStore) (backend : Backend σ) (s : φ)
    (paths : List FsPath) (state : σ) :
    (examine os store backend s paths state).1.map Prod.fst = paths := by
  induction paths generalizing state with
  | nil => rfl
  | cons path rest ih => rw [examine, List.map_cons, ih, examineFile_path]

/-- A file that loaded was readable, and its time is what the system says. -/
theorem examine_loaded (os : System φ) (store : CheckpointStore) (backend : Backend σ) (s : φ)
    (paths : List FsPath) (state : σ) (path : FsPath) (loaded : VersionedConfig)
    (modified : Except Errno FileTime)
    (inside : (path, .ok (loaded, modified)) ∈ (examine os store backend s paths state).1) :
    modified = os.lastWriteTime path s ∧ ∃ text before after,
      Readable os path store.options.maxFileBytes s text ∧
        loadBytes backend text before = (.ok loaded, after) := by
  induction paths generalizing state with
  | nil => cases inside
  | cons first rest ih =>
    rw [examine, List.mem_cons] at inside
    rcases inside with here | later
    · rw [examineFile] at here
      cases read : readFileBytes os first store.options.maxFileBytes s with
      | error e => simp [read] at here
      | ok text =>
        rw [read] at here
        simp only at here
        cases answered : loadBytes backend text state with
        | mk result after =>
          rw [answered] at here
          cases result with
          | error e => simp at here
          | ok loaded' =>
            cases here
            exact ⟨rfl, text, state, after, (readFileBytes_ok os _ _ s text).mp read, answered⟩
    · exact ih _ later

/-- What a load answers depends on the bytes only. -/
def BytesOnly (backend : Backend σ) : Prop :=
  ∀ text state state', (backend.load text state).1 = (backend.load text state').1

theorem BytesOnly.loadBytes {backend : Backend σ} (only : BytesOnly backend) (text : Bytes)
    (state state' : σ) : (loadBytes backend text state).1 = (loadBytes backend text state').1 := by
  have same := only text state state'
  unfold Source.loadBytes
  cases answered : backend.load text state with
  | mk outcome after =>
    cases answered' : backend.load text state' with
    | mk outcome' after' =>
      rw [answered, answered'] at same
      simp only at same
      subst same
      cases outcome <;> rfl

theorem BytesOnly.examineFile {backend : Backend σ} (only : BytesOnly backend) (os : System φ)
    (store : CheckpointStore) (s : φ) (path : FsPath) (state state' : σ) :
    (examineFile os store backend s path state).1 =
      (examineFile os store backend s path state').1 := by
  unfold Refinement.examineFile
  cases readFileBytes os path store.options.maxFileBytes s with
  | error e => rfl
  | ok text =>
    have same := only.loadBytes text state state'
    simp only
    cases loaded : Source.loadBytes backend text state with
    | mk result after =>
      cases loaded' : Source.loadBytes backend text state' with
      | mk result' after' =>
        rw [loaded, loaded'] at same
        simp only at same
        subst same
        cases result <;> rfl

/-- Then the order of the files does not matter. -/
theorem BytesOnly.examine {backend : Backend σ} (only : BytesOnly backend) (os : System φ)
    (store : CheckpointStore) (s : φ) (paths : List FsPath) (state anywhere : σ) :
    (examine os store backend s paths state).1 =
      paths.map fun path => (Refinement.examineFile os store backend s path anywhere).1 := by
  induction paths generalizing state with
  | nil => rfl
  | cons path rest ih =>
    rw [List.map_cons, ← ih (Refinement.examineFile os store backend s path state).2,
      only.examineFile os store s path anywhere state]
    rfl

theorem examine_cons (os : System φ) (store : CheckpointStore) (backend : Backend σ) (s : φ)
    (path : FsPath) (rest : List FsPath) (state : σ) :
    examine os store backend s (path :: rest) state =
      ((examineFile os store backend s path state).1 ::
          (examine os store backend s rest (examineFile os store backend s path state).2).1,
        (examine os store backend s rest (examineFile os store backend s path state).2).2) := rfl

/-- Examining goes through the files one after the other. -/
theorem examine_append (os : System φ) (store : CheckpointStore) (backend : Backend σ) (s : φ)
    (first last : List FsPath) (state : σ) :
    examine os store backend s (first ++ last) state =
      ((examine os store backend s first state).1 ++
          (examine os store backend s last (examine os store backend s first state).2).1,
        (examine os store backend s last (examine os store backend s first state).2).2) := by
  induction first generalizing state with
  | nil => rfl
  | cons path rest ih => rw [List.cons_append, examine_cons, ih, examine_cons, List.cons_append]

/-- What `cpPrepareRestore` makes of a file. -/
def candidateOf (os : System φ) (supported : VersionId) (file : Examined) :
    Except Error LoadedCandidate :=
  match file.2 with
  | .error e => .error e
  | .ok (loaded, modified) =>
      if loaded.version > supported then
        .error ⟨.invalidVersion, bytes "checkpoint version " ++ versionText loaded.version ++
          bytes " is newer than supported version " ++ versionText supported⟩
      else match modified with
        | .error e => .error (modificationTimeError os file.1 e)
        | .ok modified => .ok ⟨file.1, loaded.version, modified, loaded⟩

/-- What `cpPrune` makes of a file. -/
def verifiedOf (os : System φ) (file : Examined) : Except Error (VersionId × CheckpointFile) :=
  match file.2 with
  | .error e => .error e
  | .ok (_, .error e) => .error (modificationTimeError os file.1 e)
  | .ok (loaded, .ok modified) => .ok (loaded.version, ⟨file.1, modified⟩)

theorem candidateOf_ok (os : System φ) (supported : VersionId) (file : Examined)
    (candidate : LoadedCandidate) :
    candidateOf os supported file = .ok candidate ↔
      ∃ loaded modified, file.2 = .ok (loaded, .ok modified) ∧ loaded.version ≤ supported ∧
        candidate = ⟨file.1, loaded.version, modified, loaded⟩ := by
  obtain ⟨path, e | ⟨loaded, modified⟩⟩ := file
  · simp [candidateOf]
  · by_cases newer : loaded.version > supported
    · simp only [candidateOf, if_pos newer]
      simp only [reduceCtorEq, false_iff]
      rintro ⟨loaded', _, same, bound, _⟩
      cases same
      exact absurd newer (not_lt.mpr bound)
    · simp only [candidateOf, if_neg newer]
      cases modified with
      | error e => simp
      | ok time =>
        have bound := not_lt.mp newer
        constructor
        · intro same
          cases same
          exact ⟨loaded, time, rfl, bound, rfl⟩
        · rintro ⟨_, _, same, _, rfl⟩
          cases same
          rfl

theorem verifiedOf_ok (os : System φ) (file : Examined) (version : VersionId)
    (checkpoint : CheckpointFile) :
    verifiedOf os file = .ok (version, checkpoint) ↔
      ∃ loaded, file.2 = .ok (loaded, .ok checkpoint.modified) ∧ version = loaded.version ∧
        checkpoint.path = file.1 := by
  obtain ⟨path, e | ⟨loaded, e | time⟩⟩ := file
  · simp [verifiedOf]
  · simp [verifiedOf]
  · simp only [verifiedOf, Except.ok.injEq, Prod.mk.injEq]
    constructor
    · rintro ⟨rfl, rfl⟩
      exact ⟨loaded, ⟨rfl, rfl⟩, rfl, rfl⟩
    · rintro ⟨_, ⟨rfl, rfl⟩, rfl, rfl⟩
      exact ⟨rfl, rfl⟩

/-- The rejections of a loop, in its order. -/
def rejections {β : Type} (judge : Examined → Except Error β) (files : List Examined) :
    List CheckpointRejection := (refused judge files).map fun r => ⟨r.1.1, r.2⟩

/-- One step of the loop of `cpPrepareRestore`. -/
theorem loadCandidates_cons (os : System φ) (store : CheckpointStore) (backend : Backend σ)
    (supported : VersionId) (s : φ) (path : FsPath) (rest : List FsPath)
    (candidates : List LoadedCandidate) (rejected : List CheckpointRejection) (state : σ) :
    loadCandidates os store backend supported s (path :: rest) candidates rejected state =
      match candidateOf os supported (examineFile os store backend s path state).1 with
      | .ok candidate =>
          loadCandidates os store backend supported s rest (candidates ++ [candidate]) rejected
            (examineFile os store backend s path state).2
      | .error e =>
          loadCandidates os store backend supported s rest candidates (rejected ++ [⟨path, e⟩])
            (examineFile os store backend s path state).2 := by
  rw [loadCandidates, examineFile]
  cases readFileBytes os path store.options.maxFileBytes s with
  | error e => rfl
  | ok text =>
    simp only
    cases loadBytes backend text state with
    | mk result state' =>
      cases result with
      | error e => rfl
      | ok loaded =>
        simp only [candidateOf]
        by_cases newer : loaded.version > supported
        · rw [if_pos newer, if_pos newer]
        · rw [if_neg newer, if_neg newer]
          cases os.lastWriteTime path s <;> rfl

/-- The loop of `cpPrepareRestore` judges every file once. -/
theorem loadCandidates_eq (os : System φ) (store : CheckpointStore) (backend : Backend σ)
    (supported : VersionId) (s : φ) (paths : List FsPath) (candidates : List LoadedCandidate)
    (rejected : List CheckpointRejection) (state : σ) :
    loadCandidates os store backend supported s paths candidates rejected state =
      (candidates ++ passed (candidateOf os supported) (examine os store backend s paths state).1,
        rejected ++ rejections (candidateOf os supported)
          (examine os store backend s paths state).1,
        (examine os store backend s paths state).2) := by
  induction paths generalizing candidates rejected state with
  | nil => simp [loadCandidates, examine, rejections, passed, refused]
  | cons path rest ih =>
    rw [loadCandidates_cons, examine]
    simp only
    cases judged : candidateOf os supported (examineFile os store backend s path state).1 with
    | ok candidate =>
      simp only [ih, rejections, passed_cons_ok judged, refused_cons_ok judged, List.append_assoc,
        List.singleton_append]
    | error e =>
      simp only [ih, rejections, passed_cons_error judged, refused_cons_error judged,
        List.append_assoc, List.singleton_append, List.map_cons, examineFile_path]

/-- The files by version, as `cpPrune` collects them. -/
def pushVersions (versions : List (VersionId × List CheckpointFile)) :
    List (VersionId × CheckpointFile) → List (VersionId × List CheckpointFile)
  | [] => versions
  | file :: rest => pushVersions (pushVersion file.1 file.2 versions) rest

theorem groupVersions_cons (os : System φ) (store : CheckpointStore) (backend : Backend σ) (s : φ)
    (path : FsPath) (rest : List FsPath) (versions : List (VersionId × List CheckpointFile))
    (rejected : List CheckpointRejection) (state : σ) :
    groupVersions os store backend s (path :: rest) versions rejected state =
      match verifiedOf os (examineFile os store backend s path state).1 with
      | .ok file =>
          groupVersions os store backend s rest (pushVersion file.1 file.2 versions) rejected
            (examineFile os store backend s path state).2
      | .error e =>
          groupVersions os store backend s rest versions (rejected ++ [⟨path, e⟩])
            (examineFile os store backend s path state).2 := by
  rw [groupVersions, examineFile]
  cases readFileBytes os path store.options.maxFileBytes s with
  | error e => rfl
  | ok text =>
    simp only
    cases loadBytes backend text state with
    | mk result state' =>
      cases result with
      | error e => rfl
      | ok loaded =>
        simp only [verifiedOf]
        cases os.lastWriteTime path s <;> rfl

/-- The loop of `cpPrune` judges every file once. -/
theorem groupVersions_eq (os : System φ) (store : CheckpointStore) (backend : Backend σ) (s : φ)
    (paths : List FsPath) (versions : List (VersionId × List CheckpointFile))
    (rejected : List CheckpointRejection) (state : σ) :
    groupVersions os store backend s paths versions rejected state =
      (pushVersions versions (passed (verifiedOf os) (examine os store backend s paths state).1),
        rejected ++ rejections (verifiedOf os) (examine os store backend s paths state).1,
        (examine os store backend s paths state).2) := by
  induction paths generalizing versions rejected state with
  | nil => simp [groupVersions, examine, rejections, passed, refused, pushVersions]
  | cons path rest ih =>
    rw [groupVersions_cons, examine]
    simp only
    cases judged : verifiedOf os (examineFile os store backend s path state).1 with
    | ok file =>
      simp only [ih, rejections, passed_cons_ok judged, refused_cons_ok judged, pushVersions]
    | error e =>
      simp only [ih, rejections, passed_cons_error judged, refused_cons_error judged,
        List.append_assoc, List.singleton_append, List.map_cons, examineFile_path]

end ConfigManager.Refinement

import ConfigManager.Library.Ranking
import ConfigManager.Source.Boundary
import ConfigManager.Source.ConfigRuntime
import ConfigManager.Source.FileSystem

/-!
# Checkpoints (checkpoint_store.hpp/.cpp)

Each public function is its `Impl` here: the backend's exceptions are answered by
`loadBytes` and `saveBytes`, and of the rest only `weakly_canonical` throws. A
function that makes calls answers nothing when the process stops in it. The mode
bits that `fchmod` sets are not modelled.
-/

set_option autoImplicit false

namespace ConfigManager.Source
open Library

structure CheckpointOptions where
  canonicalPath : FsPath
  checkpointDirectory : FsPath
  retention : Nat := 2
  maxFileBytes : Nat := 16 * 1024 * 1024

structure CheckpointStore where
  options : CheckpointOptions

structure CheckpointRejection where
  path : FsPath
  error : Error

structure PreparedRestore where
  checkpointPath : FsPath
  sourceVersion : VersionId
  config : VersionedConfig

structure RestoreSearch where
  candidate : Option PreparedRestore := none
  rejected : List CheckpointRejection := []

structure PruneReport where
  removed : List FsPath := []
  rejected : List CheckpointRejection := []

/-- An `IConfigInterface` with the state it keeps between calls. `save` answers with the
stream it leaves. -/
structure Backend (σ : Type) where
  load : Bytes → σ → CallOutcome (Result VersionedConfig) × σ
  save : VersionedConfig → σ → CallOutcome (Result Unit) × OutputStream × σ

variable {φ σ : Type}

def storageErrorMessage (os : System φ) (operation : Bytes) (path : FsPath) (error : Errno) :
    Bytes :=
  operation ++ bytes " '" ++ path.string ++ bytes "': " ++ os.message error

def temporaryCandidate (destination : FsPath) (ticks : Int64) (sequence : UInt64) : FsPath :=
  (parentOrCurrent destination).child (destination.filename ++ bytes ".tmp." ++ intText ticks ++
    bytes "." ++ natText sequence.toNat)

/-- The error is ignored. -/
def removeTemporary (os : System φ) (path : FsPath) (s : φ) : Option Unit × φ :=
  match os.remove path s with
  | (none, s) => (none, s)
  | (some _, s) => (some (), s)

/-! ## Reading -/

def kReadBuffer : Nat := 16 * 1024

/-- The loop of `readFileBytes` with what the stream still holds; a read that fills the buffer
leaves the stream good. -/
def readLoop (path : FsPath) (maxBytes : Nat) (sound : Bool) (rest text : Bytes) : Result Bytes :=
  let chunk := rest.take kReadBuffer
  if maxBytes - text.length < chunk.length then
    fail .storageError (bytes "file '" ++ path.string ++ bytes "' exceeds size limit (" ++
      natText maxBytes ++ bytes " bytes)")
  else if kReadBuffer ≤ rest.length then
    readLoop path maxBytes sound (rest.drop kReadBuffer) (text ++ chunk)
  else if !sound then
    fail .storageError (bytes "failed while reading '" ++ path.string ++ bytes "'")
  else .ok (text ++ chunk)
termination_by rest.length
decreasing_by
  rw [List.length_drop]
  unfold kReadBuffer at *
  omega

def readFileBytes (os : System φ) (path : FsPath) (maxBytes : Nat) (s : φ) : Result Bytes :=
  match os.openFile path s with
  | none => fail .storageError (bytes "cannot open '" ++ path.string ++ bytes "' for reading")
  | some source => readLoop path maxBytes source.sound source.bytes []

/-! ## Writing -/

/-- The loop of `write` calls with the bytes left; answers the error that ended it, if any. -/
def writeLoop (os : System φ) (candidate : FsPath) :
    Nat → Bytes → φ → Option (Option Errno) × φ
  | _, [], s => (some none, s)
  | 0, _ :: _, s => (none, s)
  | calls + 1, c :: rest, s =>
      match os.write candidate (c :: rest) s with
      | (none, s) => (none, s)
      | (some (.error e), s) =>
          if e = EINTR then writeLoop os candidate calls (c :: rest) s else (some (some e), s)
      | (some (.ok written), s) =>
          if written = 0 then (some (some EIO), s)
          else writeLoop os candidate calls ((c :: rest).drop written) s

/-- The error of a call that runs only while there is none. -/
def unlessFailed (failed : Option Errno) (call : Call φ Unit) (s : φ) :
    Option (Option Errno) × φ :=
  match failed with
  | some e => (some (some e), s)
  | none =>
      match call s with
      | (none, s) => (none, s)
      | (some (.error e), s) => (some (some e), s)
      | (some (.ok ()), s) => (some none, s)

/-- `close` is called in any case, its error counts when there is no other. -/
def closeAfter (os : System φ) (candidate : FsPath) (failed : Option Errno) (s : φ) :
    Option (Option Errno) × φ :=
  match os.close candidate s with
  | (none, s) => (none, s)
  | (some (.error e), s) => (some (some (failed.getD e)), s)
  | (some (.ok ()), s) => (some failed, s)

/-- What follows the creation of the temporary file. -/
def fillTemporary (os : System φ) (candidate : FsPath) (text : Bytes) (s : φ) :
    Option (Result FsPath) × φ :=
  match writeLoop os candidate (os.calls s) text s with
  | (none, s) => (none, s)
  | (some failed, s) =>
      match unlessFailed failed (os.fchmod candidate) s with
      | (none, s) => (none, s)
      | (some failed, s) =>
          match closeAfter os candidate failed s with
          | (none, s) => (none, s)
          | (some none, s) => (some (.ok candidate), s)
          | (some (some e), s) =>
              match removeTemporary os candidate s with
              | (none, s) => (none, s)
              | (some (), s) =>
                  (some (fail .storageError (bytes "failed to write temporary file '" ++
                    candidate.string ++ bytes "': " ++ os.message e)), s)

/-- The loop of `writeTemporary` with the attempts left. -/
def createTemporary (os : System φ) (destination : FsPath) (text : Bytes) :
    Nat → φ → Option (Result FsPath) × φ
  | 0, s =>
      (some (fail .storageError (bytes "cannot allocate a unique temporary file beside '" ++
        destination.string ++ bytes "'")), s)
  | attempts + 1, s =>
      let (sequence, s) := os.fetchSequence s
      let candidate := temporaryCandidate destination (os.steadyClock s) sequence
      match os.openExclusive candidate s with
      | (none, s) => (none, s)
      | (some (.error e), s) =>
          if e = EEXIST then createTemporary os destination text attempts s
          else
            (some (fail .storageError (bytes "cannot create temporary file '" ++
              candidate.string ++ bytes "': " ++ os.message e)), s)
      | (some (.ok ()), s) => fillTemporary os candidate text s

def kTemporaryAttempts : Nat := 100

/-- A permission source that does not exist leaves the default mode. -/
def writeTemporary (os : System φ) (destination : FsPath) (text : Bytes)
    (permissionSource : FsPath) (s : φ) : Option (Result FsPath) × φ :=
  match os.stat permissionSource s with
  | (none, s) => (none, s)
  | (some (.error e), s) =>
      if e ≠ ENOENT then
        (some (fail .storageError (bytes "cannot inspect permissions of '" ++
          permissionSource.string ++ bytes "': " ++ os.message e)), s)
      else createTemporary os destination text kTemporaryAttempts s
  | (some (.ok ()), s) => createTemporary os destination text kTemporaryAttempts s

def replaceFile (os : System φ) (temporary destination : FsPath) (s : φ) :
    Option (Result Unit) × φ :=
  match os.rename temporary destination s with
  | (none, s) => (none, s)
  | (some (.error e), s) =>
      (some (fail .storageError (bytes "cannot atomically replace '" ++ destination.string ++
        bytes "': " ++ os.message e)), s)
  | (some (.ok ()), s) => (some (.ok ()), s)

/-- The end of both `cpCapture` and `cpCommit`. -/
def writeAndReplace (os : System φ) (destination : FsPath) (text : Bytes)
    (permissionSource : FsPath) (s : φ) : Option (Result Unit) × φ :=
  match writeTemporary os destination text permissionSource s with
  | (none, s) => (none, s)
  | (some (.error e), s) => (some (.error e), s)
  | (some (.ok temporary), s) =>
      match replaceFile os temporary destination s with
      | (none, s) => (none, s)
      | (some (.ok ()), s) => (some (.ok ()), s)
      | (some (.error e), s) =>
          match removeTemporary os temporary s with
          | (none, s) => (none, s)
          | (some (), s) => (some (.error e), s)

/-! ## Names -/

/-- `setw(10)` and `setfill('0')`. -/
def paddedVersion (version : VersionId) : Bytes :=
  List.replicate (10 - (versionText version).length) 48 ++ versionText version

def checkpointFilename (version : VersionId) (extension : Bytes) : Bytes :=
  paddedVersion version ++ extension

def isCheckpointFilename (path : FsPath) (extension : Bytes) : Bool :=
  if path.extension ≠ extension then false
  else path.stem.length == 10 && path.stem.all isDigit

/-- The checkpoint of a version. -/
def CheckpointStore.destination (store : CheckpointStore) (version : VersionId) : FsPath :=
  store.options.checkpointDirectory.child
    (checkpointFilename version store.options.canonicalPath.extension)

/-! ## Enumerating -/

/-- The loop over the directory with the paths found so far. -/
def collectEntries (os : System φ) (extension : Bytes) :
    List (FsPath × Except Errno Bool) → List FsPath → Result (List FsPath)
  | [], paths => .ok paths
  | (path, .error e) :: _, _ =>
      fail .storageError (storageErrorMessage os (bytes "cannot inspect checkpoint entry") path e)
  | (path, .ok regular) :: rest, paths =>
      if regular && isCheckpointFilename path extension then
        collectEntries os extension rest (paths ++ [path])
      else collectEntries os extension rest paths

def checkpointFiles (os : System φ) (store : CheckpointStore) (s : φ) : Result (List FsPath) :=
  let directory := store.options.checkpointDirectory
  match os.fileExists directory s with
  | .error e =>
      fail .storageError
        (storageErrorMessage os (bytes "cannot inspect checkpoint directory") directory e)
  | .ok false => .ok []
  | .ok true =>
      let listing := os.list directory s
      match collectEntries os store.options.canonicalPath.extension listing.entries [] with
      | .error e => .error e
      | .ok paths =>
          match listing.failure with
          | some e =>
              fail .storageError
                (storageErrorMessage os (bytes "cannot enumerate checkpoint directory") directory e)
          | none => .ok paths

/-! ## The backend -/

def loadBytes (backend : Backend σ) (text : Bytes) (state : σ) : Result VersionedConfig × σ :=
  match backend.load text state with
  | (.returned answer, state) => (answer, state)
  | (.threw what, state) =>
      (fail .parseError (bytes "checkpoint backend load failed: " ++ what), state)
  | (.threwOther, state) =>
      (fail .parseError (bytes "checkpoint backend load failed with a non-standard exception"),
        state)

def saveBytes (backend : Backend σ) (config : VersionedConfig) (state : σ) : Result Bytes × σ :=
  match backend.save config state with
  | (.returned (.error e), _, state) => (.error e, state)
  | (.returned (.ok ()), output, state) =>
      if output.failed then
        (fail .serializationError
          (bytes "checkpoint backend failed to serialize the configuration"), state)
      else (.ok output.written, state)
  | (.threw what, _, state) =>
      (fail .serializationError (bytes "checkpoint backend save failed: " ++ what), state)
  | (.threwOther, _, state) =>
      (fail .serializationError
        (bytes "checkpoint backend save failed with a non-standard exception"), state)

/-! ## The store -/

def validateOptions (os : System φ) (options : CheckpointOptions) (s : φ) :
    Result CheckpointOptions :=
  if options.canonicalPath.isEmpty then
    fail .storageError (bytes "canonical path must not be empty")
  else if options.checkpointDirectory.isEmpty then
    fail .storageError (bytes "checkpoint directory must not be empty")
  else match os.weaklyCanonical options.canonicalPath s with
    | .error what => fail .storageError (bytes "cpCreate failed: " ++ what)
    | .ok canonicalPath =>
        match os.weaklyCanonical options.checkpointDirectory s with
        | .error what => fail .storageError (bytes "cpCreate failed: " ++ what)
        | .ok checkpointDirectory =>
            if parentOrCurrent canonicalPath = checkpointDirectory then
              fail .storageError
                (bytes "canonical file must not be inside the checkpoint directory")
            else .ok { options with
              canonicalPath := canonicalPath, checkpointDirectory := checkpointDirectory }

def cpCreate (os : System φ) (options : CheckpointOptions) (s : φ) : Result CheckpointStore :=
  match validateOptions os options s with
  | .error e => .error e
  | .ok validated => .ok ⟨validated⟩

/-- The canonical bytes that `cpCapture` accepts for this config. -/
def captureBytes (os : System φ) (store : CheckpointStore) (config : VersionedConfig)
    (backend : Backend σ) (state : σ) (s : φ) : Result Bytes × σ :=
  match readFileBytes os store.options.canonicalPath store.options.maxFileBytes s with
  | .error e => (.error e, state)
  | .ok text =>
      match loadBytes backend text state with
      | (.error e, state) => (.error e, state)
      | (.ok loaded, state) =>
          if loaded.version ≠ config.version then
            (fail .invalidVersion (bytes "canonical version " ++ versionText loaded.version ++
              bytes " does not match supplied config version " ++ versionText config.version), state)
          else (.ok text, state)

def cpCapture (os : System φ) (store : CheckpointStore) (config : VersionedConfig)
    (backend : Backend σ) (state : σ) (s : φ) : Option (Result Unit) × σ × φ :=
  let directory := store.options.checkpointDirectory
  match captureBytes os store config backend state s with
  | (.error e, state) => (some (.error e), state, s)
  | (.ok text, state) =>
      match os.createDirectories directory s with
      | (none, s) => (none, state, s)
      | (some (.error e), s) =>
          (some (fail .storageError
            (storageErrorMessage os (bytes "cannot create checkpoint directory") directory e)),
              state, s)
      | (some (.ok ()), s) =>
          let destination := store.destination config.version
          match os.fileExists destination s with
          | .error e =>
              (some (fail .storageError
                (storageErrorMessage os (bytes "cannot inspect checkpoint") destination e)),
                  state, s)
          | .ok destinationExists =>
              let permissionSource :=
                if destinationExists then destination else store.options.canonicalPath
              let (answer, s) := writeAndReplace os destination text permissionSource s
              (answer, state, s)

def cpCommit (os : System φ) (store : CheckpointStore) (config : VersionedConfig)
    (backend : Backend σ) (state : σ) (s : φ) : Option (Result Unit) × σ × φ :=
  match saveBytes backend config state with
  | (.error e, state) => (some (.error e), state, s)
  | (.ok text, state) =>
      let destination := store.options.canonicalPath
      match os.createDirectories (parentOrCurrent destination) s with
      | (none, s) => (none, state, s)
      | (some (.error e), s) =>
          (some (fail .storageError (storageErrorMessage os
            (bytes "cannot create canonical directory") (parentOrCurrent destination) e)), state, s)
      | (some (.ok ()), s) =>
          let (answer, s) := writeAndReplace os destination text destination s
          (answer, state, s)

/-! ## Restoring -/

structure LoadedCandidate where
  path : FsPath
  sourceVersion : VersionId
  modified : FileTime
  config : VersionedConfig

def modificationTimeError (os : System φ) (path : FsPath) (error : Errno) : Error :=
  ⟨.storageError,
    storageErrorMessage os (bytes "cannot read checkpoint modification time") path error⟩

/-- `std::string`'s order, byte by byte as unsigned. -/
def textBefore (left right : Bytes) : Bool :=
  decide (left.map UInt8.toNat < right.map UInt8.toNat)

/-- The order of `std::sort` on candidates. -/
def LoadedCandidate.before (left right : LoadedCandidate) : Bool :=
  if left.sourceVersion ≠ right.sourceVersion then decide (left.sourceVersion > right.sourceVersion)
  else if left.modified ≠ right.modified then decide (left.modified > right.modified)
  else textBefore left.path.string right.path.string

/-- The first loop of `cpPrepareRestore`. -/
def loadCandidates (os : System φ) (store : CheckpointStore) (backend : Backend σ)
    (supported : VersionId) (s : φ) :
    List FsPath → List LoadedCandidate → List CheckpointRejection → σ →
      List LoadedCandidate × List CheckpointRejection × σ
  | [], candidates, rejected, state => (candidates, rejected, state)
  | path :: rest, candidates, rejected, state =>
      match readFileBytes os path store.options.maxFileBytes s with
      | .error e =>
          loadCandidates os store backend supported s rest candidates (rejected ++ [⟨path, e⟩]) state
      | .ok text =>
          match loadBytes backend text state with
          | (.error e, state) =>
              loadCandidates os store backend supported s rest candidates
                (rejected ++ [⟨path, e⟩]) state
          | (.ok loaded, state) =>
              if loaded.version > supported then
                loadCandidates os store backend supported s rest candidates
                  (rejected ++ [⟨path, .invalidVersion, bytes "checkpoint version " ++
                    versionText loaded.version ++ bytes " is newer than supported version " ++
                    versionText supported⟩]) state
              else match os.lastWriteTime path s with
                | .error e =>
                    loadCandidates os store backend supported s rest candidates
                      (rejected ++ [⟨path, modificationTimeError os path e⟩]) state
                | .ok modified =>
                    loadCandidates os store backend supported s rest
                      (candidates ++ [⟨path, loaded.version, modified, loaded⟩]) rejected state

/-- The loop over the sorted candidates. -/
def tryCandidates (runtime : ConfigRuntime σ) (supported : VersionId) :
    List LoadedCandidate → List CheckpointRejection → World σ → RestoreSearch × World σ
  | [], rejected, world => (⟨none, rejected⟩, world)
  | candidate :: rest, rejected, world =>
      match runtime.synchronize candidate.config supported world with
      | (.error e, _, world) =>
          tryCandidates runtime supported rest (rejected ++ [⟨candidate.path, e⟩]) world
      | (.ok status, config, world) =>
          if status ≠ .inSync ∨ config.version ≠ supported then
            tryCandidates runtime supported rest (rejected ++ [⟨candidate.path, .invalidVersion,
              bytes "checkpoint did not synchronize to supported version " ++
                versionText supported⟩]) world
          else (⟨some ⟨candidate.path, candidate.sourceVersion, config⟩, rejected⟩, world)

/-- The backend and the callbacks of the runtime may share their state. -/
def cpPrepareRestore (os : System φ) (store : CheckpointStore) (backend : Backend σ)
    (runtime : ConfigRuntime σ) (supported : VersionId) (s : φ) (world : World σ) :
    Result RestoreSearch × World σ :=
  if !runtime.supportsVersion supported then
    (fail .invalidVersion (bytes "supported version " ++ versionText supported ++
      bytes " is not registered"), world)
  else match checkpointFiles os store s with
    | .error e => (.error e, world)
    | .ok paths =>
        let (candidates, rejected, state) :=
          loadCandidates os store backend supported s paths [] [] world.callbacks
        let (search, world) := tryCandidates runtime supported
          (sortBy LoadedCandidate.before candidates) rejected { world with callbacks := state }
        (.ok search, world)

/-! ## Pruning -/

structure CheckpointFile where
  path : FsPath
  modified : FileTime

/-- The order of both `std::sort` calls in `cpPrune`. -/
def CheckpointFile.before (left right : CheckpointFile) : Bool :=
  if left.modified ≠ right.modified then decide (left.modified > right.modified)
  else textBefore left.path.string right.path.string

/-- `versions[version].push_back(file)`, on a `std::map` in ascending order. -/
def pushVersion (version : VersionId) (file : CheckpointFile) :
    List (VersionId × List CheckpointFile) → List (VersionId × List CheckpointFile)
  | [] => [(version, [file])]
  | (v, files) :: rest =>
      if v = version then (v, files ++ [file]) :: rest
      else if version < v then (version, [file]) :: (v, files) :: rest
      else (v, files) :: pushVersion version file rest

/-- The loop of `cpPrune` over the files. -/
def groupVersions (os : System φ) (store : CheckpointStore) (backend : Backend σ) (s : φ) :
    List FsPath → List (VersionId × List CheckpointFile) → List CheckpointRejection → σ →
      List (VersionId × List CheckpointFile) × List CheckpointRejection × σ
  | [], versions, rejected, state => (versions, rejected, state)
  | path :: rest, versions, rejected, state =>
      match readFileBytes os path store.options.maxFileBytes s with
      | .error e => groupVersions os store backend s rest versions (rejected ++ [⟨path, e⟩]) state
      | .ok text =>
          match loadBytes backend text state with
          | (.error e, state) =>
              groupVersions os store backend s rest versions (rejected ++ [⟨path, e⟩]) state
          | (.ok loaded, state) =>
              match os.lastWriteTime path s with
              | .error e =>
                  groupVersions os store backend s rest versions
                    (rejected ++ [⟨path, modificationTimeError os path e⟩]) state
              | .ok modified =>
                  groupVersions os store backend s rest
                    (pushVersion loaded.version ⟨path, modified⟩ versions) rejected state

/-- The loop over the versions: the newest file of each, and the others. -/
def rankVersions : List (VersionId × List CheckpointFile) → List CheckpointFile → List FsPath →
    List CheckpointFile × List FsPath
  | [], retained, removals => (retained, removals)
  | (_, files) :: rest, retained, removals =>
      match sortBy CheckpointFile.before files with
      -- A version in the map has a file.
      | [] => rankVersions rest retained removals
      | newest :: others =>
          rankVersions rest (retained ++ [newest]) (removals ++ others.map CheckpointFile.path)

/-- The loop of `fs::remove` calls. -/
def removeFiles (os : System φ) : List FsPath → PruneReport → φ → Option (Result PruneReport) × φ
  | [], report, s => (some (.ok report), s)
  | path :: rest, report, s =>
      match os.remove path s with
      | (none, s) => (none, s)
      | (some (.error e), s) =>
          (some (fail .storageError (storageErrorMessage os (bytes "cannot prune checkpoint") path e)),
            s)
      | (some (.ok ()), s) =>
          removeFiles os rest { report with removed := report.removed ++ [path] } s

def cpPrune (os : System φ) (store : CheckpointStore) (backend : Backend σ) (state : σ) (s : φ) :
    Option (Result PruneReport) × σ × φ :=
  match checkpointFiles os store s with
  | .error e => (some (.error e), state, s)
  | .ok paths =>
      let (versions, rejected, state) := groupVersions os store backend s paths [] [] state
      let (retained, removals) := rankVersions versions [] []
      let (answer, s) := removeFiles os
        (removals ++ ((sortBy CheckpointFile.before retained).drop store.options.retention).map
          CheckpointFile.path) { rejected := rejected } s
      (answer, state, s)

end ConfigManager.Source

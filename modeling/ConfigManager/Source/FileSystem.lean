import ConfigManager.Source.FsPath

/-!
# The operating system under the checkpoint component

`std::filesystem`, the POSIX calls and the two process-wide sources of temporary
names are a parameter: operations on a state that the code cannot look into.
Calls that may change a file answer with an error number or a value, or do not
answer at all because the process stops there. The Windows code is not modelled.
-/

set_option autoImplicit false

namespace ConfigManager.Source

abbrev Errno := Nat

def ENOENT : Errno := 2
def EINTR : Errno := 4
def EIO : Errno := 5
def EEXIST : Errno := 17

/-- The ticks of a `file_time_type`. -/
abbrev FileTime := Int

/-- What an input stream on a file delivers, and whether it ends at the end of the file. -/
structure FileSource where
  bytes : Bytes
  sound : Bool := true

/-- The entries of a directory in the order of its iterator, with what `is_regular_file`
reports for each, and the error that ends the iteration early. -/
structure Listing where
  entries : List (FsPath × Except Errno Bool)
  failure : Option Errno := none

/-- `none` when the process stops at the call. -/
abbrev Call (φ α : Type) := φ → Option (Except Errno α) × φ

structure System (φ : Type) where
  /-- `error_code::message` in the generic category. -/
  message : Errno → Bytes
  /-- `weakly_canonical`, which throws with a `what()`. -/
  weaklyCanonical : FsPath → φ → Except Bytes FsPath
  fileExists : FsPath → φ → Except Errno Bool
  list : FsPath → φ → Listing
  openFile : FsPath → φ → Option FileSource
  lastWriteTime : FsPath → φ → Except Errno FileTime
  /-- How many calls the process makes at most before it stops. -/
  calls : φ → Nat
  steadyClock : φ → Int64
  /-- `g_temp_sequence.fetch_add(1)`. -/
  fetchSequence : φ → UInt64 × φ
  createDirectories : FsPath → Call φ Unit
  stat : FsPath → Call φ Unit
  /-- `open` with `O_CREAT | O_EXCL`. The path stands for the descriptor. -/
  openExclusive : FsPath → Call φ Unit
  /-- Answers how many of the bytes were written. -/
  write : FsPath → Bytes → Call φ Nat
  fchmod : FsPath → Call φ Unit
  close : FsPath → Call φ Unit
  rename : FsPath → FsPath → Call φ Unit
  remove : FsPath → Call φ Unit

end ConfigManager.Source

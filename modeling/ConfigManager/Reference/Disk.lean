import Mathlib.Data.List.AList
import ConfigManager.Source.FileSystem

/-!
# A disk of files by their paths

The documented behaviour of the calls of the checkpoint component on files that
have one path each: exclusive creation fails on an existing name, a write may
take a part of the bytes, `rename` replaces its target in one step. Every call
of the process takes one answer from a schedule, which may be an error; with the
last answer the process stops. What an entry of a directory reports when it is
looked at is data of the disk.
-/

set_option autoImplicit false

namespace ConfigManager.Reference
open Source

structure FileNode where
  bytes : Bytes
  modified : Except Errno FileTime
  regular : Except Errno Bool := .ok true
  opens : Bool := true
  /-- Reading ends at the end of the file. -/
  sound : Bool := true

/-- What the system does at a call: the error it reports, how many bytes a write takes, and
the two clocks. -/
structure Answer where
  error : Option Errno := none
  count : Nat
  ticks : Int64
  time : FileTime

structure Disk where
  /-- In the order of enumeration. -/
  files : AList fun _ : FsPath => FileNode
  directories : List FsPath
  /-- The error of inspecting a path, and the one that ends the enumeration of a directory. -/
  inspection : FsPath → Option Errno
  enumeration : FsPath → Option Errno
  schedule : List Answer
  sequence : UInt64

namespace Disk

def file (d : Disk) (path : FsPath) : Option FileNode := d.files.lookup path

def put (d : Disk) (path : FsPath) (node : FileNode) : Disk :=
  { d with files := d.files.insert path node }

def erase (d : Disk) (path : FsPath) : Disk := { d with files := d.files.erase path }

@[simp] theorem file_put_self (d : Disk) (path : FsPath) (node : FileNode) :
    (d.put path node).file path = some node := AList.lookup_insert d.files

@[simp] theorem file_put_ne (d : Disk) (path other : FsPath) (node : FileNode)
    (different : other ≠ path) : (d.put path node).file other = d.file other :=
  AList.lookup_insert_ne different

@[simp] theorem file_erase_self (d : Disk) (path : FsPath) : (d.erase path).file path = none :=
  AList.lookup_erase path d.files

@[simp] theorem file_erase_ne (d : Disk) (path other : FsPath) (different : other ≠ path) :
    (d.erase path).file other = d.file other := AList.lookup_erase_ne different

/-- Whether the path leads to something. A link that leads nowhere does not. -/
def status (d : Disk) (path : FsPath) : Except Errno Bool :=
  match d.inspection path with
  | some e => .error e
  | none =>
      match d.file path with
      | none => .ok (decide (path ∈ d.directories))
      | some node =>
          match node.regular with
          | .ok _ => .ok true
          | .error e => if e = ENOENT then .ok false else .error e

/-- One call: the next answer decides whether it fails. -/
def call {α : Type} (act : Answer → Disk → Except Errno α × Disk) : Call Disk α := fun d =>
  match d.schedule with
  | [] => (none, d)
  | answer :: rest =>
      match answer.error with
      | some e => (some (.error e), { d with schedule := rest })
      | none =>
          let (result, d) := act answer { d with schedule := rest }
          (some result, d)

/-- The path is a name in the directory. -/
def IsEntry (directory path : FsPath) : Prop := path = directory.child path.filename

instance (directory path : FsPath) : Decidable (IsEntry directory path) :=
  inferInstanceAs (Decidable (path = directory.child path.filename))

def list (directory : FsPath) (d : Disk) : Listing where
  entries := (d.files.entries.filter fun e => IsEntry directory e.1).map fun e => (e.1, e.2.regular)
  failure := d.enumeration directory

def openFile (path : FsPath) (d : Disk) : Option FileSource :=
  match d.file path with
  | none => none
  | some node => if node.opens then some ⟨node.bytes, node.sound⟩ else none

def lastWriteTime (path : FsPath) (d : Disk) : Except Errno FileTime :=
  match d.file path with
  | none => .error ENOENT
  | some node => node.modified

/-! ### What a call does when it does not fail outright -/

def creating (path : FsPath) (_ : Answer) (d : Disk) : Except Errno Unit × Disk :=
  (.ok (), { d with directories := path :: d.directories })

def inspecting (path : FsPath) (_ : Answer) (d : Disk) : Except Errno Unit × Disk :=
  match d.status path with
  | .error e => (.error e, d)
  | .ok false => (.error ENOENT, d)
  | .ok true => (.ok (), d)

def opening (path : FsPath) (answer : Answer) (d : Disk) : Except Errno Unit × Disk :=
  if (d.file path).isSome ∨ path ∈ d.directories then (.error EEXIST, d)
  else (.ok (), d.put path { bytes := [], modified := .ok answer.time })

def writing (path : FsPath) (text : Bytes) (answer : Answer) (d : Disk) :
    Except Errno Nat × Disk :=
  match d.file path with
  | none => (.error ENOENT, d)
  | some node =>
      (.ok (min answer.count text.length),
        d.put path { node with
          bytes := node.bytes ++ text.take answer.count
          modified := .ok answer.time })

def EISDIR : Errno := 21

def replacing (source destination : FsPath) (_ : Answer) (d : Disk) : Except Errno Unit × Disk :=
  match d.file source with
  | none => (.error ENOENT, d)
  | some node =>
      if destination ∈ d.directories then (.error EISDIR, d)
      else (.ok (), (d.erase source).put destination node)

def removing (path : FsPath) (_ : Answer) (d : Disk) : Except Errno Unit × Disk :=
  (.ok (), d.erase path)

/-- `fchmod` and `close`. -/
def passing (_ : Answer) (d : Disk) : Except Errno Unit × Disk := (.ok (), d)

end Disk

/-- The calls on a disk, whose paths are taken as they are. -/
def diskSystem (message : Errno → Bytes) : System Disk where
  message := message
  weaklyCanonical path _ := .ok path
  fileExists path d := d.status path
  list := Disk.list
  openFile := Disk.openFile
  lastWriteTime := Disk.lastWriteTime
  calls d := d.schedule.length
  steadyClock d := (d.schedule.head?.map Answer.ticks).getD 0
  fetchSequence d := (d.sequence, { d with sequence := d.sequence + 1 })
  createDirectories path := Disk.call (Disk.creating path)
  stat path := Disk.call (Disk.inspecting path)
  openExclusive path := Disk.call (Disk.opening path)
  write path text := Disk.call (Disk.writing path text)
  fchmod _ := Disk.call Disk.passing
  close _ := Disk.call Disk.passing
  rename source destination := Disk.call (Disk.replacing source destination)
  remove path := Disk.call (Disk.removing path)

end ConfigManager.Reference

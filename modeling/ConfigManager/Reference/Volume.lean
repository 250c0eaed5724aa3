import ConfigManager.Library.PlaceNames
import ConfigManager.Reference.Disk

/-!
# A volume of directories, files and links

The documented behaviour of the same calls where paths are looked up: from the
current directory when they are relative, through directories, up by `..`, and
through symbolic links as often as the system allows. Every call of the process
takes one answer from a schedule, as on a `Disk`.
-/

set_option autoImplicit false

namespace ConfigManager.Reference
open Library Source

inductive VolumeNode where
  | directory
  | file (node : FileNode)
  | link (target : FsPath)

/-- The names from the root. -/
abbrev Location := List Bytes

structure Volume where
  /-- In the order of enumeration. The root is a directory in any case. -/
  nodes : AList fun _ : Location => VolumeNode
  current : Location
  /-- The error of looking a path up, and the one that ends the enumeration of a directory. -/
  inspection : FsPath → Option Errno
  enumeration : FsPath → Option Errno
  schedule : List Answer
  sequence : UInt64

def ENOTDIR : Errno := 20
def ENOTEMPTY : Errno := 39
def ELOOP : Errno := 40

/-- How many links the system follows in one path. -/
def kLinks : Nat := 40

/-! ## Paths -/

/-- `.` and what a separator is followed by at the end of a path lead nowhere else. -/
def hopOf (element : Bytes) : Option (Hop Bytes) :=
  if element = [] ∨ element = bytes "." then none
  else if element = bytes ".." then some .up
  else some (.down element)

def hopsOf (elements : List Bytes) : List (Hop Bytes) := elements.filterMap hopOf

/-- The loop of `lexically_normal` with the elements kept so far, the last one first, and whether
a separator follows them. -/
def normalLoop (absolute : Bool) : List Bytes → Bool → List Bytes → List Bytes × Bool
  | [], separated, kept => (kept, separated)
  | element :: rest, separated, kept =>
      match hopOf element with
      | none => normalLoop absolute rest true kept
      | some (.down name) => normalLoop absolute rest false (name :: kept)
      | some .up =>
          match kept with
          | [] =>
              if absolute then normalLoop absolute rest separated []
              else normalLoop absolute rest false [bytes ".."]
          | last :: others =>
              if last = bytes ".." then normalLoop absolute rest false (bytes ".." :: kept)
              else normalLoop absolute rest true others

def lexicallyNormal (path : FsPath) : FsPath :=
  match normalLoop path.absolute path.elements false [] with
  | ([], _) =>
      if path.absolute then ⟨true, []⟩
      else if path.elements.isEmpty then path else ⟨false, [bytes "."]⟩
  | (last :: others, separated) =>
      ⟨path.absolute, (last :: others).reverse ++
        if separated ∧ last ≠ bytes ".." then [[]] else []⟩

namespace Volume

def node (v : Volume) (place : Location) : Option VolumeNode :=
  if place = [] then some .directory else v.nodes.lookup place

def links (v : Volume) : Links Bytes := fun place =>
  match v.node place with
  | some (.link target) => some ⟨target.absolute, hopsOf target.elements⟩
  | _ => none

def start (v : Volume) (path : FsPath) : Location := if path.absolute then [] else v.current

/-- The loop of a lookup over the elements; `follow` goes on with the elements behind a link. -/
def lookupLoop (v : Volume) (follow : Location → List Bytes → Except Errno Location) :
    Location → List Bytes → Except Errno Location
  | place, [] => if (v.node place).isSome then .ok place else .error ENOENT
  | place, element :: rest =>
      match hopOf element with
      | none => lookupLoop v follow place rest
      | some .up => lookupLoop v follow place.dropLast rest
      | some (.down name) =>
          match v.node (place ++ [name]) with
          | none => .error ENOENT
          | some .directory => lookupLoop v follow (place ++ [name]) rest
          | some (.file _) => if rest = [] then .ok (place ++ [name]) else .error ENOTDIR
          | some (.link target) =>
              follow (if target.absolute then [] else place) (target.elements ++ rest)

/-- With the links that may still be followed. -/
def lookup (v : Volume) : Nat → Location → List Bytes → Except Errno Location
  | 0 => v.lookupLoop fun _ _ => .error ELOOP
  | links + 1 => v.lookupLoop (v.lookup links)

/-- Where the path leads, to something that is there. -/
def locate (v : Volume) (path : FsPath) : Except Errno Location :=
  match v.inspection path with
  | some e => .error e
  | none => if path.isEmpty then .error ENOENT else v.lookup kLinks (v.start path) path.elements

/-- `exists(status(path))`. -/
def status (v : Volume) (path : FsPath) : Except Errno Bool :=
  match v.locate path with
  | .ok _ => .ok true
  | .error e => if e = ENOENT ∨ e = ENOTDIR then .ok false else .error e

/-- The name itself, in the directory that the path before it leads to. -/
def slotOf (v : Volume) (path : FsPath) : Except Errno Location :=
  match hopOf path.filename with
  | some (.down name) =>
      match v.locate (parentOrCurrent path) with
      | .error e => .error e
      | .ok place =>
          match v.node place with
          | some .directory => .ok (place ++ [name])
          | _ => .error ENOTDIR
  | _ => .error Disk.EISDIR

def put (v : Volume) (place : Location) (node : VolumeNode) : Volume :=
  { v with nodes := v.nodes.insert place node }

def erase (v : Volume) (place : Location) : Volume := { v with nodes := v.nodes.erase place }

/-! ## Inspecting -/

/-- The loop of `weakly_canonical` with the elements found to exist. -/
def canonicalLoop (message : Errno → Bytes) (v : Volume) (absolute : Bool) (found : List Bytes) :
    List Bytes → Except Bytes (List Bytes × List Bytes)
  | [] => .ok (found, [])
  | element :: rest =>
      match v.status ⟨absolute, found ++ [element]⟩ with
      | .error e => .error (message e)
      | .ok true => canonicalLoop message v absolute (found ++ [element]) rest
      | .ok false => .ok (found, element :: rest)

/-- The longest prefix that exists is made canonical, unless there is none. -/
def weaklyCanonical (message : Errno → Bytes) (path : FsPath) (v : Volume) : Except Bytes FsPath :=
  match v.canonicalLoop message path.absolute [] path.elements with
  | .error what => .error what
  | .ok (found, rest) =>
      if path.absolute ∨ found ≠ [] then
        match v.locate ⟨path.absolute, found⟩ with
        | .error e => .error (message e)
        | .ok place => .ok (lexicallyNormal ⟨true, place ++ rest⟩)
      else .ok (lexicallyNormal ⟨false, rest⟩)

/-- What `is_regular_file` reports, which follows links. -/
def regular (v : Volume) (path : FsPath) : Except Errno Bool :=
  match v.locate path with
  | .error e => .error e
  | .ok place =>
      match v.node place with
      | some (.file node) => node.regular
      | _ => .ok false

def list (directory : FsPath) (v : Volume) : Listing :=
  match v.locate directory with
  | .error e => ⟨[], some e⟩
  | .ok place =>
      { entries := (v.nodes.entries.filter fun e => e.1.dropLast = place).filterMap fun e =>
          e.1.getLast?.map fun name => (directory.child name, v.regular (directory.child name))
        failure := v.enumeration directory }

/-- A directory opens, but cannot be read. -/
def openFile (path : FsPath) (v : Volume) : Option FileSource :=
  match v.locate path with
  | .error _ => none
  | .ok place =>
      match v.node place with
      | some (.file node) => if node.opens then some ⟨node.bytes, node.sound⟩ else none
      | _ => some ⟨[], false⟩

/-- The times of directories are not kept. -/
def lastWriteTime (path : FsPath) (v : Volume) : Except Errno FileTime :=
  match v.locate path with
  | .error e => .error e
  | .ok place =>
      match v.node place with
      | some (.file node) => node.modified
      | _ => .error Disk.EISDIR

/-! ## What a call does when it does not fail outright -/

/-- One call: the next answer decides whether it fails. -/
def call {α : Type} (act : Answer → Volume → Except Errno α × Volume) : Call Volume α := fun v =>
  match v.schedule with
  | [] => (none, v)
  | answer :: rest =>
      match answer.error with
      | some e => (some (.error e), { v with schedule := rest })
      | none =>
          let (result, v) := act answer { v with schedule := rest }
          (some result, v)

/-- `create_directory` where nothing has the name; a link that leads nowhere has it. -/
def make (path : FsPath) (v : Volume) : Except Errno Unit × Volume :=
  match v.slotOf path with
  | .error e => (.error e, v)
  | .ok place =>
      match v.node place with
      | some _ => (.error EEXIST, v)
      | none => (.ok (), v.put place .directory)

/-- The loop of `create_directories` over the elements, from the first. -/
def makeLoop (absolute : Bool) (done : List Bytes) :
    List Bytes → Volume → Except Errno Unit × Volume
  | [], v => (.ok (), v)
  | element :: rest, v =>
      let path : FsPath := ⟨absolute, done ++ [element]⟩
      match hopOf element with
      | some (.down _) =>
          match v.locate path with
          | .ok place =>
              match v.node place with
              | some .directory => makeLoop absolute (done ++ [element]) rest v
              | _ => (.error ENOTDIR, v)
          | .error e =>
              if e = ENOENT then
                match v.make path with
                | (.error e, v) => (.error e, v)
                | (.ok (), v) => makeLoop absolute (done ++ [element]) rest v
              else (.error e, v)
      | _ => makeLoop absolute (done ++ [element]) rest v

def creating (path : FsPath) (_ : Answer) (v : Volume) : Except Errno Unit × Volume :=
  makeLoop path.absolute [] path.elements v

def inspecting (path : FsPath) (_ : Answer) (v : Volume) : Except Errno Unit × Volume :=
  match v.locate path with
  | .error e => (.error e, v)
  | .ok _ => (.ok (), v)

/-- An exclusive creation does not follow a link. -/
def opening (path : FsPath) (answer : Answer) (v : Volume) : Except Errno Unit × Volume :=
  match v.slotOf path with
  | .error e => (.error e, v)
  | .ok place =>
      match v.node place with
      | some _ => (.error EEXIST, v)
      | none => (.ok (), v.put place (.file { bytes := [], modified := .ok answer.time }))

def writing (path : FsPath) (text : Bytes) (answer : Answer) (v : Volume) :
    Except Errno Nat × Volume :=
  match v.slotOf path with
  | .error e => (.error e, v)
  | .ok place =>
      match v.node place with
      | some (.file node) =>
          (.ok (min answer.count text.length),
            v.put place (.file { node with
              bytes := node.bytes ++ text.take answer.count
              modified := .ok answer.time }))
      | _ => (.error ENOENT, v)

/-- A rename replaces a link, not what it leads to. -/
def replacing (source destination : FsPath) (_ : Answer) (v : Volume) :
    Except Errno Unit × Volume :=
  match v.slotOf source, v.slotOf destination with
  | .error e, _ => (.error e, v)
  | .ok _, .error e => (.error e, v)
  | .ok place, .ok place' =>
      match v.node place, v.node place' with
      | some (.file _), some .directory => (.error Disk.EISDIR, v)
      | some (.file node), _ => (.ok (), (v.erase place).put place' (.file node))
      | _, _ => (.error ENOENT, v)

/-- A directory is removed when it is empty. What is not there need not be removed. -/
def removing (path : FsPath) (_ : Answer) (v : Volume) : Except Errno Unit × Volume :=
  match v.slotOf path with
  | .error e => if e = ENOENT then (.ok (), v) else (.error e, v)
  | .ok place =>
      match v.node place with
      | some .directory =>
          if v.nodes.entries.any fun e => e.1.dropLast = place then (.error ENOTEMPTY, v)
          else (.ok (), v.erase place)
      | _ => (.ok (), v.erase place)

/-- `fchmod` and `close`. -/
def passing (_ : Answer) (v : Volume) : Except Errno Unit × Volume := (.ok (), v)

end Volume

/-- The calls on a volume. -/
def volumeSystem (message : Errno → Bytes) : System Volume where
  message := message
  weaklyCanonical := Volume.weaklyCanonical message
  fileExists path v := v.status path
  list := Volume.list
  openFile := Volume.openFile
  lastWriteTime := Volume.lastWriteTime
  calls v := v.schedule.length
  steadyClock v := (v.schedule.head?.map Answer.ticks).getD 0
  fetchSequence v := (v.sequence, { v with sequence := v.sequence + 1 })
  createDirectories path := Volume.call (Volume.creating path)
  stat path := Volume.call (Volume.inspecting path)
  openExclusive path := Volume.call (Volume.opening path)
  write path text := Volume.call (Volume.writing path text)
  fchmod _ := Volume.call Volume.passing
  close _ := Volume.call Volume.passing
  rename source destination := Volume.call (Volume.replacing source destination)
  remove path := Volume.call (Volume.removing path)

end ConfigManager.Reference

import ConfigManager.Source.ConfigPath
import ConfigManager.Source.NodeArena

/-!
# The configuration model and its handles (config_model.hpp/.cpp, config_node.hpp/.cpp)

Every function takes the arena it reads or writes and returns the one it leaves.
Recursion over the arena is bounded by the number of slots, which no chain of
distinct nodes exceeds. The exception guards of the source act only when an
allocation throws and are not part of this model.
-/

set_option autoImplicit false

namespace ConfigManager.Source
open Library

/-- Maximum node depth in a model, the root object at depth 0. -/
def kMaxTreeDepth : Nat := 128

def findMember (node : Node) (key : Bytes) : Option NodeId := lookupKey key node.members

def isAddressableKey (key : Bytes) : Bool := !key.isEmpty && !key.any isReserved

def depthError : Result Unit :=
  fail .invalidPath (bytes "value exceeds the maximum nesting depth (" ++ natText kMaxTreeDepth ++
    bytes ")")

def keyError (key : Bytes) : Result Unit :=
  fail .invalidPath (bytes "object key \"" ++ key ++ bytes "\" is not path-addressable")

mutual
/-- `depth` is where the value's root would sit in the model. -/
def validateTree : ConfigValue → Nat → Result Unit
  | Tree.leaf _ _, depth => if kMaxTreeDepth < depth then depthError else .ok ()
  | Tree.object _ ms, depth =>
      if kMaxTreeDepth < depth then depthError else validateMembers ms depth
  | Tree.array _ es, depth =>
      if kMaxTreeDepth < depth then depthError else validateElements es depth
def validateMembers : List (Bytes × ConfigValue) → Nat → Result Unit
  | [], _ => .ok ()
  | (key, value) :: ms, depth =>
      if !isAddressableKey key then keyError key
      else match validateTree value (depth + 1) with
        | .error e => .error e
        | .ok () => validateMembers ms depth
def validateElements : List ConfigValue → Nat → Result Unit
  | [], _ => .ok ()
  | value :: es, depth =>
      match validateTree value (depth + 1) with
      | .error e => .error e
      | .ok () => validateElements es depth
end

/-! ## Building and freeing subtrees -/

namespace NodeArena

def setParent (a : NodeArena) (id : NodeId) (parent : Option NodeId) : NodeArena :=
  a.modify id fun node => { node with parent := parent }

def pushMember (a : NodeArena) (id : NodeId) (key : Bytes) (child : NodeId) : NodeArena :=
  a.modify id fun node => { node with members := node.members ++ [(key, child)] }

def pushElement (a : NodeArena) (id : NodeId) (child : NodeId) : NodeArena :=
  a.modify id fun node => { node with elements := node.elements ++ [child] }

end NodeArena

mutual
def buildFromValue (arena : NodeArena) : ConfigValue → Option NodeId → NodeId × NodeArena
  | Tree.leaf _ scalar, parent =>
      let (id, arena) := arena.allocate scalar.type
      let arena := arena.setParent id parent
      (id, arena.modify id fun node => { node with scalar := scalar })
  | Tree.object _ ms, parent =>
      let (id, arena) := arena.allocate .object
      (id, buildMembers (arena.setParent id parent) ms id)
  | Tree.array _ es, parent =>
      let (id, arena) := arena.allocate .array
      (id, buildElements (arena.setParent id parent) es id)
def buildMembers (arena : NodeArena) : List (Bytes × ConfigValue) → NodeId → NodeArena
  | [], _ => arena
  | (key, value) :: ms, id =>
      let (child, arena) := buildFromValue arena value (some id)
      buildMembers (arena.pushMember id key child) ms id
def buildElements (arena : NodeArena) : List ConfigValue → NodeId → NodeArena
  | [], _ => arena
  | value :: es, id =>
      let (child, arena) := buildFromValue arena value (some id)
      buildElements (arena.pushElement id child) es id
end

/-- Frees all descendants through `freeNode`; the node itself stays alive. -/
def freeChildren (freeNode : NodeArena → NodeId → NodeArena) (arena : NodeArena) (id : NodeId) :
    NodeArena :=
  let members := (arena.get id).members
  let elements := (arena.get id).elements
  let arena := arena.modify id fun node => { node with members := [], elements := [] }
  let arena := members.foldl (fun arena member => freeNode arena member.2) arena
  elements.foldl freeNode arena

def freeSubtree : Nat → NodeArena → NodeId → NodeArena
  | 0, arena, _ => arena
  | slots + 1, arena, id => (freeChildren (freeSubtree slots) arena id).release id

/-- Replaces the target's contents by the value's, built detached first. The target
keeps its slot and generation. -/
def assignContents (arena : NodeArena) (target : NodeId) (value : ConfigValue) : NodeArena :=
  let (built, arena) := buildFromValue arena value none
  let arena := freeChildren (freeSubtree arena.nodes.length) arena target
  let builtNode := arena.get built
  let arena := arena.modify target fun node =>
    { node with
      scalar := builtNode.scalar
      members := builtNode.members
      elements := builtNode.elements }
  let arena := builtNode.members.foldl
    (fun arena member => arena.setParent member.2 (some target)) arena
  let arena := builtNode.elements.foldl
    (fun arena element => arena.setParent element (some target)) arena
  -- The source moved the contents out of `built`; releasing it clears them here.
  arena.release built

def buildValue : Nat → NodeArena → NodeId → ConfigValue
  | 0, _, _ => ConfigValue.of .monostate
  | slots + 1, arena, id =>
      let node := arena.get id
      match node.type with
      | .object =>
          node.members.foldl
            (fun value member => value.set member.1 (buildValue slots arena member.2))
            ConfigValue.object
      | .array =>
          node.elements.foldl (fun value element => value.push (buildValue slots arena element))
            ConfigValue.array
      | .null => ConfigValue.of .monostate
      | .bool | .int | .double | .string => ConfigValue.of node.scalar

/-! ## Planned writes -/

/-- With `createFrom` the segment count, `node` is the existing target; otherwise it
is the deepest existing node and creation starts at segment `createFrom`. -/
structure WritePlan where
  node : NodeId
  createFrom : Nat
  deriving DecidableEq, Repr

def createIndexError (index : Nat) : Result WritePlan :=
  fail .nodeNotFound (bytes "index " ++ natText index ++
    bytes " into a newly created array; only [0] can be appended")

/-- Segments below the creation point descend through empty containers. -/
def checkCreatable (segments : List PathSegment) (from_ : Nat) (parent : NodeId) :
    Result WritePlan :=
  let nonzero := (segments.drop (from_ + 1)).findSome? fun segment =>
    match segment with
    | .key _ => none
    | .index index => if index ≠ 0 then some index else none
  match nonzero with
  | some index => createIndexError index
  | none => .ok ⟨parent, from_⟩

def notObjectError {α : Type} (key : Bytes) : Result α :=
  fail .invalidType (bytes "segment \"" ++ key ++ bytes "\" traverses a non-object node")

def notArrayError {α : Type} : Result α :=
  fail .invalidType (bytes "index segment traverses a non-array node")

/-- The loop of `planWrite` at segment `i`, with the segments from `i` on as last argument. -/
def planWrite (arena : NodeArena) (segments : List PathSegment) (finalType : NodeType) :
    NodeId → Nat → List PathSegment → Result WritePlan
  | current, _, [] => .ok ⟨current, segments.length⟩
  | current, i, segment :: rest =>
      let node := arena.get current
      let step : Result (Option NodeId) :=
        match segment with
        | .key key =>
            if node.type ≠ .object then notObjectError key else .ok (findMember node key)
        | .index index =>
            if node.type ≠ .array then notArrayError
            else if node.elements.length < index then
              fail .nodeNotFound (bytes "array write index " ++ natText index ++
                bytes " is past the end (size " ++ natText node.elements.length ++ bytes ")")
            else .ok node.elements[index]?
      match step with
      | .error e => .error e
      | .ok none => checkCreatable segments i current
      | .ok (some child) =>
          if rest.isEmpty then
            if (arena.get child).type ≠ finalType then
              fail .invalidType
                (bytes "write would change the type of the existing node; remove it first")
            else .ok ⟨child, segments.length⟩
          else planWrite arena segments finalType child (i + 1) rest

/-- One round of the loop in `applyWrite`: a container for `chain`, of the kind that
`segment` needs to live in. -/
def wrapChain (segment : PathSegment) (built : NodeId × NodeArena) : NodeId × NodeArena :=
  let (chain, arena) := built
  match segment with
  | .key key =>
      let (container, arena) := arena.allocate .object
      (container, (arena.setParent chain (some container)).pushMember container key chain)
  | .index _ =>
      let (container, arena) := arena.allocate .array
      (container, (arena.setParent chain (some container)).pushElement container chain)

/-- The created chain is assembled detached, bottom-up, and joined last. -/
def applyWrite (arena : NodeArena) (plan : WritePlan) (segments : List PathSegment)
    (value : ConfigValue) : NodeArena :=
  if plan.createFrom = segments.length then assignContents arena plan.node value
  else
    let (chain, arena) := (segments.drop (plan.createFrom + 1)).foldr wrapChain
      (buildFromValue arena value none)
    let arena := arena.setParent chain (some plan.node)
    match segments[plan.createFrom]? with
    | some (.key key) => arena.pushMember plan.node key chain
    | some (.index _) => arena.pushElement plan.node chain
    | none => arena

/-- A handle: slot and generation. The arena it points into is passed along. -/
structure ConfigNode where
  id : NodeId
  generation : Generation
  deriving DecidableEq, Repr

/-- The handle issued for a node. -/
def ConfigNode.issue (arena : NodeArena) (id : NodeId) : ConfigNode :=
  ⟨id, (arena.get id).generation⟩

/-! ## ConfigModel -/

structure ConfigModel where
  arena : NodeArena
  rootId : NodeId
  deriving DecidableEq

namespace ConfigModel

/-- The default constructor: an empty root object. -/
def empty : ConfigModel :=
  let (rootId, arena) := ({} : NodeArena).allocate .object
  ⟨arena, rootId⟩

def fromValue (root : ConfigValue) : Result ConfigModel :=
  if root.type ≠ .object then fail .invalidType (bytes "model root must be an Object")
  else match validateTree root 0 with
    | .error e => .error e
    | .ok () => .ok { empty with arena := assignContents empty.arena empty.rootId root }

def root (m : ConfigModel) : ConfigNode := .issue m.arena m.rootId

/-- The loop of `ConfigModel::resolve` from the node `current`. -/
def resolveFrom (arena : NodeArena) : NodeId → List PathSegment → Result NodeId
  | current, [] => .ok current
  | current, .key key :: rest =>
      let node := arena.get current
      if node.type ≠ .object then notObjectError key
      else match findMember node key with
        | none => fail .nodeNotFound (bytes "no member \"" ++ key ++ bytes "\"")
        | some child => resolveFrom arena child rest
  | current, .index index :: rest =>
      let node := arena.get current
      if node.type ≠ .array then notArrayError
      else match node.elements[index]? with
        | none =>
            fail .nodeNotFound (bytes "index " ++ natText index ++ bytes " out of range (size " ++
              natText node.elements.length ++ bytes ")")
        | some child => resolveFrom arena child rest

def resolve (m : ConfigModel) (segments : List PathSegment) : Result NodeId :=
  resolveFrom m.arena m.rootId segments

def getValue (m : ConfigModel) (path : Bytes) : Result ConfigValue :=
  match ConfigPath.parse path with
  | .error e => .error e
  | .ok segments =>
      match m.resolve segments with
      | .error e => .error e
      | .ok id => .ok (buildValue m.arena.nodes.length m.arena id)

def set (m : ConfigModel) (path : Bytes) (subtree : ConfigValue) : Result Unit × ConfigModel :=
  match ConfigPath.parse path with
  | .error e => (.error e, m)
  | .ok segments =>
      match validateTree subtree segments.length with
      | .error e => (.error e, m)
      | .ok () =>
          match planWrite m.arena segments subtree.type m.rootId 0 segments with
          | .error e => (.error e, m)
          | .ok plan => (.ok (), { m with arena := applyWrite m.arena plan segments subtree })

def contains (m : ConfigModel) (path : Bytes) : Bool :=
  match ConfigPath.parse path with
  | .error _ => false
  | .ok segments => (m.resolve segments).isOk

/-- Takes the target out of its parent's list: by slot from the members, by position
from the elements. -/
def unlink (arena : NodeArena) (parent target : NodeId) (last : PathSegment) : NodeArena :=
  match last with
  | .key _ =>
      arena.modify parent fun node =>
        { node with members := node.members.eraseP fun member => member.2 == target }
  | .index index =>
      arena.modify parent fun node => { node with elements := node.elements.eraseIdx index }

def remove (m : ConfigModel) (path : Bytes) : Result Unit × ConfigModel :=
  match ConfigPath.parse path with
  | .error e => (.error e, m)
  | .ok segments =>
      match m.resolve segments with
      | .error e => (.error e, m)
      | .ok target =>
          -- The grammar guarantees a segment, so the target has a live parent.
          match (m.arena.get target).parent, segments.getLast? with
          | some parent, some last =>
              let arena := unlink m.arena parent target last
              (.ok (), { m with arena := freeSubtree arena.nodes.length arena target })
          | _, _ => (.ok (), m)

def nodeAt (m : ConfigModel) (path : Bytes) : Result ConfigNode :=
  match ConfigPath.parse path with
  | .error e => .error e
  | .ok segments =>
      match m.resolve segments with
      | .error e => .error e
      | .ok id => .ok (.issue m.arena id)

/-- Deep copy of the arena. -/
def clone (m : ConfigModel) : ConfigModel := { arena := m.arena, rootId := m.rootId }

end ConfigModel

/-! ## ConfigNode -/

namespace ConfigNode

def staleError {α : Type} : Result α := fail .nodeNotFound (bytes "stale ConfigNode handle")

def findLive (arena : NodeArena) (h : ConfigNode) : Option Node :=
  if arena.matches h.id h.generation then some (arena.get h.id) else none

def valid (arena : NodeArena) (h : ConfigNode) : Bool := arena.matches h.id h.generation

/-- Preconditioned on `valid`. -/
def type (arena : NodeArena) (h : ConfigNode) : NodeType := (arena.get h.id).type

/-- Preconditioned on `valid`. -/
def size (arena : NodeArena) (h : ConfigNode) : Nat :=
  let node := arena.get h.id
  match node.type with
  | .object => node.members.length
  | .array => node.elements.length
  | _ => 0

def child (arena : NodeArena) (h : ConfigNode) (key : Bytes) : Result ConfigNode :=
  match findLive arena h with
  | none => staleError
  | some node =>
      if node.type ≠ .object then fail .invalidType (bytes "child() requires an Object node")
      else match lookupKey key node.members with
        | some id => .ok (issue arena id)
        | none => fail .nodeNotFound (bytes "no member \"" ++ key ++ bytes "\"")

def «at» (arena : NodeArena) (h : ConfigNode) (index : Nat) : Result ConfigNode :=
  match findLive arena h with
  | none => staleError
  | some node =>
      if node.type ≠ .array then fail .invalidType (bytes "at() requires an Array node")
      else match node.elements[index]? with
        | some id => .ok (issue arena id)
        | none =>
            fail .nodeNotFound (bytes "index " ++ natText index ++ bytes " out of range (size " ++
              natText node.elements.length ++ bytes ")")

def keys (arena : NodeArena) (h : ConfigNode) : Result (List Bytes) :=
  match findLive arena h with
  | none => staleError
  | some node =>
      if node.type ≠ .object then fail .invalidType (bytes "keys() requires an Object node")
      else .ok (node.members.map Prod.fst)

def members (arena : NodeArena) (h : ConfigNode) : Result (List (Bytes × ConfigNode)) :=
  match findLive arena h with
  | none => staleError
  | some node =>
      if node.type ≠ .object then fail .invalidType (bytes "members() requires an Object node")
      else .ok (node.members.map fun member => (member.1, issue arena member.2))

def scalarValue (arena : NodeArena) (h : ConfigNode) : Result Scalar :=
  match findLive arena h with
  | none => staleError
  | some node =>
      if node.type = .object ∨ node.type = .array then
        fail .invalidType (bytes "node is not a scalar")
      else .ok node.scalar

end ConfigNode

/-! ## Reachable models -/

/-- The models the interface can produce. Values come from the builders. -/
inductive Reachable : ConfigModel → Prop where
  | empty : Reachable ConfigModel.empty
  | fromValue (value : BuiltValue) (m : ConfigModel)
      (success : ConfigModel.fromValue value.1 = .ok m) : Reachable m
  | set (m : ConfigModel) (path : Bytes) (value : BuiltValue) (before : Reachable m) :
      Reachable (m.set path value.1).2
  | remove (m : ConfigModel) (path : Bytes) (before : Reachable m) : Reachable (m.remove path).2
  | clone (m : ConfigModel) (before : Reachable m) : Reachable m.clone

end ConfigManager.Source

import ConfigManager.Library.Throwing
import ConfigManager.Source.ConfigModel

/-!
# `ConfigModel::set` when an allocation fails (config_model.cpp, node_arena.hpp)

The functions of a write again, with the exception guards and with every operation
that may allocate as a request that may throw. How many allocations an operation
makes depends on capacities and string lengths, so it is a parameter. An operation
that throws has no effect itself. Releasing nodes never allocates.
-/

set_option autoImplicit false

namespace ConfigManager.Source.Unwinding
open Library Source

structure Store where
  arena : NodeArena
  /-- How many allocations each operation makes, by the order in which they run. -/
  demand : Nat → Nat
  performed : Nat := 0
  /-- How many more allocations succeed. -/
  granted : Nat

/-- The next operation that may allocate, `bad_alloc` once no allocation is granted any more. -/
def request : Throwing Store Unit := fun store =>
  if store.demand store.performed ≤ store.granted then
    .returned () { store with
      performed := store.performed + 1
      granted := store.granted - store.demand store.performed }
  else .thrown store

def onArena (f : NodeArena → NodeArena) : Throwing Store Unit :=
  Throwing.update fun store => { store with arena := f store.arena }

/-- `~SubtreeGuard`. -/
def freeGuarded (id : NodeId) (store : Store) : Store :=
  { store with arena := freeSubtree store.arena.nodes.length store.arena id }

/-- The scope of a `SubtreeGuard`, from its construction until it is dismissed or reset. -/
def guardSubtree {α : Type} (id : NodeId) (body : Throwing Store α) : Throwing Store α :=
  Throwing.guarding (freeGuarded id) body

/-- The slot that `allocate` takes: a dead one, or one more through `push_back`, which allocates. -/
def makeRoom : Throwing Store Unit := fun store =>
  if store.arena.freeHead.isNone then request store else .returned () store

def takeSlot (type : NodeType) : Throwing Store NodeId := fun store =>
  .returned (store.arena.allocate type).1 { store with arena := (store.arena.allocate type).2 }

def allocate (type : NodeType) : Throwing Store NodeId := do
  makeRoom
  takeSlot type

mutual
def buildFromValue : ConfigValue → Option NodeId → Throwing Store NodeId
  | Tree.leaf _ scalar, parent => do
      let id ← allocate scalar.type
      onArena fun arena => arena.setParent id parent
      guardSubtree id do
        request
        onArena fun arena => arena.modify id fun node => { node with scalar := scalar }
      return id
  | Tree.object _ ms, parent => do
      let id ← allocate .object
      onArena fun arena => arena.setParent id parent
      guardSubtree id do
        -- `reserve`
        request
        buildMembers ms id
      return id
  | Tree.array _ es, parent => do
      let id ← allocate .array
      onArena fun arena => arena.setParent id parent
      guardSubtree id do
        request
        buildElements es id
      return id
def buildMembers : List (Bytes × ConfigValue) → NodeId → Throwing Store Unit
  | [], _ => return ()
  | (key, value) :: ms, id => do
      let child ← buildFromValue value (some id)
      guardSubtree child do
        request
        onArena fun arena => arena.pushMember id key child
      buildMembers ms id
def buildElements : List ConfigValue → NodeId → Throwing Store Unit
  | [], _ => return ()
  | value :: es, id => do
      let child ← buildFromValue value (some id)
      guardSubtree child do
        request
        onArena fun arena => arena.pushElement id child
      buildElements es id
end

/-- What `assignContents` does once the replacement is built. -/
def splice (target built : NodeId) (arena : NodeArena) : NodeArena :=
  let arena := freeChildren (freeSubtree arena.nodes.length) arena target
  let builtNode := arena.get built
  let arena := arena.modify target fun node =>
    { node with
      scalar := builtNode.scalar
      members := builtNode.members
      elements := builtNode.elements }
  let arena := builtNode.members.foldl
    (fun arena member => arena.setParent member.2 (some target)) arena
  let arena := builtNode.elements.foldl
    (fun arena element => arena.setParent element (some target)) arena
  arena.release built

def assignContents (target : NodeId) (value : ConfigValue) : Throwing Store Unit := do
  let built ← buildFromValue value none
  onArena (splice target built)

/-- `emplace_back` or `push_back` on the node `id`. -/
def append (id : NodeId) (segment : PathSegment) (child : NodeId) : Throwing Store Unit := do
  request
  onArena fun arena =>
    match segment with
    | .key key => arena.pushMember id key child
    | .index _ => arena.pushElement id child

/-- A key segment needs an object to live in, an index segment an array. -/
def containerType : PathSegment → NodeType
  | .key _ => .object
  | .index _ => .array

/-- One round of the loop in `applyWrite`. -/
def wrapChain (segment : PathSegment) (chain : NodeId) : Throwing Store NodeId :=
  guardSubtree chain do
    let container ← allocate (containerType segment)
    guardSubtree container do
      onArena fun arena => arena.setParent chain (some container)
      append container segment chain
    return container

def applyWrite (plan : WritePlan) (segments : List PathSegment) (value : ConfigValue) :
    Throwing Store Unit := do
  if plan.createFrom = segments.length then assignContents plan.node value
  else
    let chain ← (segments.drop (plan.createFrom + 1)).foldr
      (fun segment below => below >>= wrapChain segment) (buildFromValue value none)
    guardSubtree chain do
      onArena fun arena => arena.setParent chain (some plan.node)
      match segments[plan.createFrom]? with
      | some segment => append plan.node segment chain
      | none => return ()

/-- `ConfigModel::set` on the model with this root. Before `applyWrite` nothing changes the
arena, so the allocations of each of the three calls count as those of one operation. -/
def set (rootId : NodeId) (path : Bytes) (subtree : ConfigValue) :
    Throwing Store (Result Unit) := do
  request
  match ConfigPath.parse path with
  | .error e => return .error e
  | .ok segments =>
      request
      match validateTree subtree segments.length with
      | .error e => return .error e
      | .ok () =>
          request
          let store ← Throwing.read
          match planWrite store.arena segments subtree.type rootId 0 segments with
          | .error e => return .error e
          | .ok plan =>
              applyWrite plan segments subtree
              return .ok ()

/-- The models the interface can produce when allocations may fail. A call of `set` that
returns did what it does without failures; the other operations throw before they change
anything. -/
inductive Reachable : ConfigModel → Prop where
  | empty : Reachable ConfigModel.empty
  | fromValue (value : BuiltValue) (m : ConfigModel)
      (success : ConfigModel.fromValue value.1 = .ok m) : Reachable m
  | set (m : ConfigModel) (path : Bytes) (value : BuiltValue) (before : Reachable m) :
      Reachable (m.set path value.1).2
  | unwound (m : ConfigModel) (path : Bytes) (value : BuiltValue) (before : Reachable m)
      (demand : Nat → Nat) (n : Nat) (store : Store)
      (exit : set m.rootId path value.1 { arena := m.arena, demand := demand, granted := n } =
        .thrown store) : Reachable { m with arena := store.arena }
  | remove (m : ConfigModel) (path : Bytes) (before : Reachable m) : Reachable (m.remove path).2
  | clone (m : ConfigModel) (before : Reachable m) : Reachable m.clone

theorem reachable_of_unfailing {m : ConfigModel} (reached : Source.Reachable m) : Reachable m := by
  induction reached with
  | empty => exact .empty
  | fromValue value m success => exact .fromValue value m success
  | set m path value _ ih => exact .set m path value ih
  | remove m path _ ih => exact .remove m path ih
  | clone m _ ih => exact .clone m ih

end ConfigManager.Source.Unwinding

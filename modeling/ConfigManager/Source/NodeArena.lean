import ConfigManager.Source.ConfigValue

/-!
# Node storage (node_arena.hpp)

A flat arena of nodes named by slot. Dead slots form a free list through their
`parent` field, and releasing a slot bumps its generation. `kNodeIdNone` is
`none`. Slots are numbered without the 32-bit bound of `NodeId`: fewer than
2^32 - 1 slots are ever allocated. The generation does wrap at 2^32.
-/

set_option autoImplicit false

namespace ConfigManager.Source
open Library

abbrev NodeId := Nat

abbrev Generation := Fin (2 ^ 32)

structure Node where
  type : NodeType := .null
  scalar : Scalar := .monostate
  members : List (Bytes × NodeId) := []
  elements : List NodeId := []
  /-- While dead: the next slot of the free list. -/
  parent : Option NodeId := none
  generation : Generation := 0
  alive : Bool := false
  /-- Ghost: how often the slot was ever released. Only statements read it. -/
  releases : Nat := 0
  deriving DecidableEq

structure NodeArena where
  nodes : List Node := []
  freeHead : Option NodeId := none
  deriving DecidableEq

namespace NodeArena

/-- The slot's record; a slot never allocated reads as a dead default node. -/
def get (a : NodeArena) (id : NodeId) : Node := a.nodes.getD id {}

def modify (a : NodeArena) (id : NodeId) (f : Node → Node) : NodeArena :=
  { a with nodes := a.nodes.modify id f }

/-- Reuses the head of the free list, whose generation `release` already bumped,
or appends a slot. -/
def allocate (a : NodeArena) (type : NodeType) : NodeId × NodeArena :=
  match a.freeHead with
  | some id =>
      (id, { a.modify id fun node =>
          { node with type := type, scalar := .monostate, parent := none, alive := true } with
        freeHead := (a.get id).parent })
  | none => (a.nodes.length, { a with nodes := a.nodes ++ [{ type := type, alive := true }] })

def release (a : NodeArena) (id : NodeId) : NodeArena :=
  { a.modify id fun node =>
      { node with
        alive := false
        generation := node.generation + 1
        releases := node.releases + 1
        scalar := .monostate
        members := []
        elements := []
        parent := a.freeHead } with
    freeHead := some id }

def «matches» (a : NodeArena) (id : NodeId) (generation : Generation) : Bool :=
  decide ((id : Nat) < a.nodes.length) && (a.get id).alive && (a.get id).generation == generation

def live (a : NodeArena) (id : NodeId) : Bool := (a.get id).alive

theorem live_lt (a : NodeArena) (id : Nat) (alive : a.live id = true) : id < a.nodes.length := by
  by_contra outside
  have missing : a.nodes[id]? = none := List.getElem?_eq_none (Nat.le_of_not_lt outside)
  simp [live, get, List.getD, missing] at alive

theorem matches_iff (a : NodeArena) (id : NodeId) (generation : Generation) :
    a.matches id generation = true ↔ a.live id = true ∧ (a.get id).generation = generation := by
  simp only [«matches», Bool.and_eq_true, decide_eq_true_eq, beq_iff_eq]
  constructor
  · rintro ⟨⟨_, alive⟩, same⟩
    exact ⟨alive, same⟩
  · rintro ⟨alive, same⟩
    exact ⟨⟨live_lt a id alive, alive⟩, same⟩

/-! ## One slot at a time -/

@[simp] theorem modify_length (a : NodeArena) (id : NodeId) (f : Node → Node) :
    (a.modify id f).nodes.length = a.nodes.length := by
  simp [modify]

@[simp] theorem modify_freeHead (a : NodeArena) (id : NodeId) (f : Node → Node) :
    (a.modify id f).freeHead = a.freeHead := rfl

theorem modify_get_self (a : NodeArena) (id : NodeId) (f : Node → Node)
    (inside : (id : Nat) < a.nodes.length) : (a.modify id f).get id = f (a.get id) := by
  simp [modify, get, List.getD, inside]

theorem modify_get_of_ne (a : NodeArena) (id other : NodeId) (f : Node → Node)
    (different : other ≠ id) : (a.modify id f).get other = a.get other := by
  simp [modify, get, List.getD, Ne.symm different]

end NodeArena

end ConfigManager.Source

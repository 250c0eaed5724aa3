import ConfigManager.Library.CountedScan
import ConfigManager.Reference.JsonDocument
import ConfigManager.Reference.PathGrammar

/-!
# JSON documents by their literals, and which of them are configurations

A number is the literal that stands in the text, and `delivered` is the callback
nlohmann/json documents for it: an unsigned or a signed integer where the literal
fits one of 64 bits, otherwise a double with its literal. `Accepted` says which
documents are versioned configurations, and `documentChecks` pairs every event of
a document with what is to be checked there.
-/

set_option autoImplicit false

namespace ConfigManager.Reference
open Library Source

/-! ## Literals -/

/-- A literal with a fraction or an exponent. -/
structure RealLiteral where
  text : Bytes
  marked : text.any ValueBuilder.isFloatMark = true

/-- An integer literal is a sign and digits; where it is delivered as a double, as `nearest`. -/
inductive JsonScalar where
  | null
  | boolean (value : Bool)
  | integer (negative : Bool) (magnitude : Nat) (nearest : Double)
  | real (literal : RealLiteral) (value : Double)
  | string (value : Bytes)

/-- A JSON document in the order of its text. -/
abbrev JsonTree := Tree Unit Bytes JsonScalar

def integerText (negative : Bool) (magnitude : Nat) : Bytes :=
  if negative then 45 :: natText magnitude else natText magnitude

def JsonScalar.delivered : JsonScalar → SaxScalar
  | .null => .null
  | .boolean value => .boolean value
  | .integer negative magnitude nearest =>
      if negative then
        if magnitude ≤ 2 ^ 63 then .numberInteger (Int64.ofInt (-magnitude))
        else .numberFloat nearest (integerText negative magnitude)
      else if magnitude < 2 ^ 64 then .numberUnsigned (UInt64.ofNat magnitude)
      else .numberFloat nearest (integerText negative magnitude)
  | .real literal value => .numberFloat value literal.text
  | .string value => .string value

def jsonEvents (doc : JsonTree) : List SaxEvent :=
  saxEvents (Tree.mapLeaves JsonScalar.delivered doc)

/-- An integer literal is one of `std::int64_t`. -/
def IntegerFits : JsonScalar → Prop
  | .integer negative magnitude _ => if negative then magnitude ≤ 2 ^ 63 else magnitude < 2 ^ 63
  | _ => True

instance : DecidablePred IntegerFits := fun scalar => by
  cases scalar <;> unfold IntegerFits <;> infer_instance

def JsonScalar.denoted : JsonScalar → Scalar
  | .null => .monostate
  | .boolean value => .bool value
  | .integer negative magnitude _ =>
      .int (Int64.ofInt (if negative then -magnitude else magnitude))
  | .real _ value => .double value
  | .string value => .string value

def denotedJson (doc : JsonTree) : ConfigValue := Tree.mapLeaves JsonScalar.denoted doc

/-! ## Versioned configurations -/

/-- The document without the carrier of the root. -/
def uncarried (ms : List (Bytes × JsonTree)) : JsonTree :=
  Tree.object () (ms.filter fun m => m.1 ≠ kVersionKey)

/-- The members of a root that carry this version. -/
structure AcceptedRoot (maxNodes : Nat) (ms : List (Bytes × JsonTree)) (version : VersionId) :
    Prop where
  keys : Tree.WellKeyed PlainKey (Tree.object () ms)
  carrier : ∃ nearest, (kVersionKey, Tree.leaf () (.integer false version.val nearest)) ∈ ms
  integers : Tree.EveryLeaf IntegerFits (uncarried ms)
  shallow : (uncarried ms).height ≤ kMaxTreeDepth
  budget : (uncarried ms).size ≤ maxNodes

def carriedVersion : JsonTree → Option VersionId
  | Tree.leaf _ (.integer false magnitude _) =>
      if small : magnitude < 2 ^ 32 then some ⟨magnitude, small⟩ else none
  | _ => none

/-! ## What is checked at each event -/

inductive Check where
  /-- The document is no object. -/
  | root
  /-- The value of the carrier begins. -/
  | carrier (value : JsonTree)
  | key (name : Bytes) (earlier : List Bytes)
  | scalar (depth : Nat) (value : JsonScalar)
  | opening (depth : Nat)
  | closing
  | nothing

/-- With so many nodes counted before. -/
def Check.Offends (maxNodes nodes : Nat) : Check → Prop
  | .root => True
  | .carrier value => carriedVersion value = none
  | .key name earlier => ¬ (PlainKey name ∧ name ∉ earlier)
  | .scalar depth value => ¬ IntegerFits value ∨ kMaxTreeDepth < depth ∨ nodes = maxNodes
  | .opening depth => kMaxTreeDepth < depth
  | .closing => nodes = maxNodes
  | .nothing => False

instance (maxNodes nodes : Nat) (check : Check) : Decidable (check.Offends maxNodes nodes) := by
  cases check <;> unfold Check.Offends <;> infer_instance

/-- Scalars and closed containers are nodes; the carrier is none. -/
def Check.counts : Check → Bool
  | .scalar _ _ => true
  | .closing => true
  | _ => false

abbrev CheckedEvent := SaxEvent × Check

mutual
def valueChecks : JsonTree → Nat → List CheckedEvent
  | Tree.leaf _ s, depth => [(s.delivered.event, .scalar depth s)]
  | Tree.object _ ms, depth =>
      (.startObject, .opening depth) :: (memberChecks ms (depth + 1) [] ++ [(.endObject, .closing)])
  | Tree.array _ es, depth =>
      (.startArray, .opening depth) :: (elementChecks es (depth + 1) ++ [(.endArray, .closing)])
def memberChecks : List (Bytes × JsonTree) → Nat → List Bytes → List CheckedEvent
  | [], _, _ => []
  | (key, value) :: ms, depth, earlier =>
      (.key key, .key key earlier) ::
        (valueChecks value depth ++ memberChecks ms depth (earlier ++ [key]))
def elementChecks : List JsonTree → Nat → List CheckedEvent
  | [], _ => []
  | value :: es, depth => valueChecks value depth ++ elementChecks es depth
end

/-- The first event of these is checked, the rest belongs to the same value. -/
def checkFirst (check : Check) : List SaxEvent → List CheckedEvent
  | [] => []
  | event :: rest => (event, check) :: rest.map fun event => (event, .nothing)

def rootChecks : List (Bytes × JsonTree) → List Bytes → List CheckedEvent
  | [], _ => []
  | (key, value) :: ms, earlier =>
      (.key key, .key key earlier) ::
        ((if key = kVersionKey then checkFirst (.carrier value) (jsonEvents value)
          else valueChecks value 1) ++ rootChecks ms (earlier ++ [key]))

def documentChecks : JsonTree → List CheckedEvent
  | Tree.object _ ms =>
      (.startObject, .opening 0) :: (rootChecks ms [] ++ [(.endObject, .closing)])
  | doc => checkFirst .root (jsonEvents doc)

/-! ## Violations in the order of the events -/

def OffendsAt (maxNodes nodes : Nat) (event : CheckedEvent) : Prop :=
  event.2.Offends maxNodes nodes

instance (maxNodes nodes : Nat) (event : CheckedEvent) :
    Decidable (OffendsAt maxNodes nodes event) :=
  inferInstanceAs (Decidable (event.2.Offends maxNodes nodes))

def countsAt (event : CheckedEvent) : Bool := event.2.counts

/-- The first violation of a document, in the order of its events. -/
def FirstViolation (maxNodes : Nat) (doc : JsonTree) (event : CheckedEvent) : Prop :=
  FirstOffence (OffendsAt maxNodes) countsAt (documentChecks doc) 0 event

def NoViolation (maxNodes : Nat) (doc : JsonTree) : Prop :=
  Inoffensive (OffendsAt maxNodes) countsAt (documentChecks doc) 0

end ConfigManager.Reference

import ConfigManager.Refinement.Handles

/-!
# ConfigModel refines the reference tree, over every run

One run works on a store of models that the operations create and change. The
same run on a store of reference trees reports the same outcomes, and in every
position of the store the model reads as its tree: values, presence, nodes and
all handle navigation.
-/

set_option autoImplicit false

namespace ConfigManager.Guarantees
open Library Source Reference Refinement

/-- The operations of the interface. `model` is a position of the store; an operation
on a position that does not exist does nothing. -/
inductive Operation where
  | empty
  | fromValue (value : BuiltValue)
  | set (model : Nat) (path : Bytes) (value : BuiltValue)
  | remove (model : Nat) (path : Bytes)
  | clone (model : Nat)

/-- The five entry points, over whatever represents a configuration. -/
structure Interface (α : Type) where
  empty : α
  fromValue : BuiltValue → Except ErrorCode α
  set : α → Bytes → BuiltValue → Except ErrorCode Unit × α
  remove : α → Bytes → Except ErrorCode Unit × α
  clone : α → α

def modelInterface : Interface ConfigModel where
  empty := ConfigModel.empty
  fromValue value := outcome (ConfigModel.fromValue value.1)
  set m path value := let (answer, m) := m.set path value.1; (outcome answer, m)
  remove m path := let (answer, m) := m.remove path; (outcome answer, m)
  clone m := m.clone

/-- A reference operation that fails leaves the tree as it was. -/
def committed (t : ConfigValue) : Except ErrorCode ConfigValue → Except ErrorCode Unit × ConfigValue
  | .ok new => (.ok (), new)
  | .error code => (.error code, t)

def treeInterface : Interface ConfigValue where
  empty := ConfigValue.object
  fromValue value := Reference.fromValue value.1
  set t path value := committed t (Reference.set path value.1 t)
  remove t path := committed t (Reference.remove path t)
  clone t := t

namespace Interface
variable {α β : Type}

/-- Act on one position of the store. -/
def act (store : List α) (model : Nat) (f : α → Except ErrorCode Unit × α) :
    Except ErrorCode Unit × List α :=
  match store[model]? with
  | none => (.ok (), store)
  | some m => let (answer, m) := f m; (answer, store.set model m)

def perform (I : Interface α) (store : List α) : Operation → Except ErrorCode Unit × List α
  | .empty => (.ok (), store ++ [I.empty])
  | .fromValue value =>
      match I.fromValue value with
      | .error code => (.error code, store)
      | .ok m => (.ok (), store ++ [m])
  | .set model path value => act store model fun m => I.set m path value
  | .remove model path => act store model fun m => I.remove m path
  | .clone model =>
      match store[model]? with
      | none => (.ok (), store)
      | some m => (.ok (), store ++ [I.clone m])

/-- The outcomes of a run and the store it leaves. -/
def run (I : Interface α) : List α → List Operation → List (Except ErrorCode Unit) × List α
  | store, [] => ([], store)
  | store, operation :: rest =>
      let (answer, store) := I.perform store operation
      let (answers, store) := I.run store rest
      (answer :: answers, store)

/-- Two implementations related by `R` agree on every entry point. -/
structure Simulates (R : α → β → Prop) (I : Interface α) (J : Interface β) : Prop where
  empty : R I.empty J.empty
  fromValue : ∀ value, match I.fromValue value, J.fromValue value with
    | .ok a, .ok b => R a b
    | .error code, .error code' => code = code'
    | _, _ => False
  set : ∀ a b path value, R a b →
    (I.set a path value).1 = (J.set b path value).1 ∧ R (I.set a path value).2 (J.set b path value).2
  remove : ∀ a b path, R a b →
    (I.remove a path).1 = (J.remove b path).1 ∧ R (I.remove a path).2 (J.remove b path).2
  clone : ∀ a b, R a b → R (I.clone a) (J.clone b)

theorem act_simulates {R : α → β → Prop} (f : α → Except ErrorCode Unit × α)
    (g : β → Except ErrorCode Unit × β)
    (agree : ∀ a b, R a b → (f a).1 = (g b).1 ∧ R (f a).2 (g b).2) (as : List α) (bs : List β)
    (related : List.Forall₂ R as bs) (model : Nat) :
    (act as model f).1 = (act bs model g).1 ∧
      List.Forall₂ R (act as model f).2 (act bs model g).2 := by
  induction related generalizing model with
  | nil => exact ⟨rfl, .nil⟩
  | @cons a b as bs here later ih =>
    cases model with
    | zero =>
      obtain ⟨same, next⟩ := agree a b here
      exact ⟨same, .cons next later⟩
    | succ model =>
      have tail := ih model
      unfold act at tail ⊢
      rw [List.getElem?_cons_succ, List.getElem?_cons_succ]
      cases found : as[model]? with
      | none =>
        cases found' : bs[model]? with
        | none => exact ⟨rfl, .cons here later⟩
        | some b' =>
          simp only [found, found'] at tail
          exact ⟨tail.1, .cons here tail.2⟩
      | some a' =>
        cases found' : bs[model]? with
        | none =>
          simp only [found, found'] at tail
          exact ⟨tail.1, .cons here tail.2⟩
        | some b' =>
          simp only [found, found'] at tail
          exact ⟨tail.1, .cons here tail.2⟩

theorem perform_simulates {R : α → β → Prop} {I : Interface α} {J : Interface β}
    (simulates : Simulates R I J) (as : List α) (bs : List β) (related : List.Forall₂ R as bs)
    (operation : Operation) :
    (I.perform as operation).1 = (J.perform bs operation).1 ∧
      List.Forall₂ R (I.perform as operation).2 (J.perform bs operation).2 := by
  have grown : ∀ a b, R a b → List.Forall₂ R (as ++ [a]) (bs ++ [b]) := fun a b here =>
    List.rel_append related (.cons here .nil)
  cases operation with
  | empty => exact ⟨rfl, grown _ _ simulates.empty⟩
  | fromValue value =>
    have spec := simulates.fromValue value
    simp only [perform]
    cases made : I.fromValue value with
    | error code =>
      cases made' : J.fromValue value with
      | error code' =>
        simp only [made, made'] at spec
        exact ⟨congrArg Except.error spec, related⟩
      | ok b => simp [made, made'] at spec
    | ok a =>
      cases made' : J.fromValue value with
      | error code' => simp [made, made'] at spec
      | ok b =>
        simp only [made, made'] at spec
        exact ⟨rfl, grown a b spec⟩
  | set model path value =>
    exact act_simulates _ _ (fun a b here => simulates.set a b path value here) as bs related model
  | remove model path =>
    exact act_simulates _ _ (fun a b here => simulates.remove a b path here) as bs related model
  | clone model =>
    simp only [perform]
    have lengths := related.length_eq
    by_cases inside : model < as.length
    · have inside' : model < bs.length := by omega
      rw [List.getElem?_eq_getElem inside, List.getElem?_eq_getElem inside']
      exact ⟨rfl, grown _ _ (simulates.clone _ _ (related.get inside inside'))⟩
    · rw [List.getElem?_eq_none (by omega), List.getElem?_eq_none (by omega)]
      exact ⟨rfl, related⟩

/-- Simulation of one operation gives simulation of every run. -/
theorem run_simulates {R : α → β → Prop} {I : Interface α} {J : Interface β}
    (simulates : Simulates R I J) (as : List α) (bs : List β) (related : List.Forall₂ R as bs)
    (operations : List Operation) :
    (I.run as operations).1 = (J.run bs operations).1 ∧
      List.Forall₂ R (I.run as operations).2 (J.run bs operations).2 := by
  induction operations generalizing as bs with
  | nil => exact ⟨rfl, related⟩
  | cons operation rest ih =>
    obtain ⟨same, related'⟩ := perform_simulates simulates as bs related operation
    obtain ⟨later, final⟩ := ih _ _ related'
    refine ⟨?_, final⟩
    simp only [run]
    rw [same, later]

end Interface

/-! ## The simulation relation -/

/-- The model holds the tree. -/
def Holds (m : ConfigModel) (t : ConfigValue) : Prop := ∃ s, Represents m s ∧ s.forget = t

theorem model_simulates_tree : Interface.Simulates Holds modelInterface treeInterface := by
  refine ⟨empty_represents, fun value => ?_, fun m t path value holds => ?_,
    fun m t path holds => ?_, fun m t holds => holds⟩
  · have spec := fromValue_spec value.1 value.2
    simp only [modelInterface, treeInterface]
    cases accepted : Reference.fromValue value.1 with
    | error code =>
      rw [accepted] at spec
      simp only at spec
      rw [spec]
    | ok new =>
      rw [accepted] at spec
      obtain ⟨m, s, made, represents, plain⟩ := spec
      rw [made]
      exact ⟨s, represents, plain⟩
  · obtain ⟨s, represents, rfl⟩ := holds
    have spec := set_spec m s represents path value.1 value.2
    simp only [modelInterface, treeInterface]
    cases written : Reference.set path value.1 s.forget with
    | error code =>
      rw [written] at spec
      obtain ⟨failed, same⟩ := spec
      exact ⟨failed, s, by rw [same]; exact represents, rfl⟩
    | ok new =>
      rw [written] at spec
      obtain ⟨success, s', represents', plain, _⟩ := spec
      exact ⟨by rw [success]; rfl, s', represents', plain⟩
  · obtain ⟨s, represents, rfl⟩ := holds
    have spec := remove_spec m s represents path
    simp only [modelInterface, treeInterface]
    cases removed : Reference.remove path s.forget with
    | error code =>
      rw [removed] at spec
      obtain ⟨failed, same⟩ := spec
      exact ⟨failed, s, by rw [same]; exact represents, rfl⟩
    | ok new =>
      rw [removed] at spec
      obtain ⟨success, s', represents', plain, _⟩ := spec
      exact ⟨by rw [success]; rfl, s', represents', plain⟩

/-! ## Reading -/

/-- Everything the interface can read from a model is what the tree says. -/
structure ReadsAs (m : ConfigModel) (t : ConfigValue) : Prop where
  values : ∀ path, outcome (m.getValue path) = Reference.getValue path t
  presence : ∀ path, m.contains path = Reference.contains path t
  lookups : ∀ path, match Reference.getValue path t with
    | .ok x => ∃ h, m.nodeAt path = .ok h ∧ NavigatesAs m.arena h x
    | .error code => outcome (m.nodeAt path) = .error code
  root : NavigatesAs m.arena m.root t

theorem represents_reads (m : ConfigModel) (t : SlotTree) (r : Represents m t) :
    ReadsAs m t.forget := by
  refine ⟨getValue_spec m t r, contains_spec m t r, fun path => ?_, ?_⟩
  · unfold Reference.getValue
    cases parsed : ConfigPath.parse path with
    | error e =>
      simp only [ConfigModel.nodeAt, parsed, outcome]
    | ok segments =>
      simp only [outcome_ok]
      rw [Tree.locate_forget]
      cases found : Tree.locate segments t with
      | error f =>
        have failed := r.resolve_error segments f found
        simp only [ConfigModel.nodeAt, parsed]
        cases answer : m.resolve segments with
        | ok id => simp [answer] at failed
        | error e =>
          have code : e.code = faultCode f := by simpa [answer, outcome] using failed
          exact congrArg Except.error code
      | ok x =>
        obtain ⟨up, rep⟩ := r.rep.locate segments found
        have plain : Tree.locate segments t.forget = .ok x.forget := by
          rw [Tree.locate_forget, found]
          rfl
        have keys : ConfigValue.KeysDistinct x.forget :=
          Tree.Every.mono (fun _ here => here.1) (r.admissible.keys.locate segments plain)
        exact ⟨_, r.nodeAt path segments parsed found, issue_navigates m.arena up x rep keys⟩
  · have navigates := issue_navigates m.arena none t r.rep r.admissible.keysDistinct
    rw [r.label] at navigates
    exact navigates

/-- For every run: the same outcomes as on the reference tree, every model of the store
reads as its tree, and a reference write succeeds exactly under the stated condition. -/
theorem configModel_refines_tree (operations : List Operation) :
    (modelInterface.run [] operations).1 = (treeInterface.run [] operations).1 ∧
      List.Forall₂ ReadsAs (modelInterface.run [] operations).2
        (treeInterface.run [] operations).2 ∧
      ∀ (t : ConfigValue) (path : Bytes) (value : BuiltValue),
        (treeInterface.set t path value).1 = .ok () ↔
          ∃ segments, ConfigPath.parse path = .ok segments ∧ Fits segments.length value.1 ∧
            Tree.Writable sameType segments value.1 t := by
  have simulated := Interface.run_simulates model_simulates_tree [] [] .nil operations
  refine ⟨simulated.1, simulated.2.imp ?_, fun t path value => ?_⟩
  · rintro m t ⟨s, represents, rfl⟩
    exact represents_reads m s represents
  · rw [← set_ok_iff]
    simp only [treeInterface]
    cases Reference.set path value.1 t <;> simp [committed]

end ConfigManager.Guarantees

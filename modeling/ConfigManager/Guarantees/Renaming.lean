import ConfigManager.Library.TreeFrames
import ConfigManager.Refinement.ModelRuns

/-!
# Renaming by composition

There is no move operation: a rename reads the value at one path, writes it to another
and removes the first. On paths neither of which is at or below the other the three
operations do not interfere.
-/

set_option autoImplicit false

namespace ConfigManager.Guarantees
open Library Source Reference Refinement

/-- For every reachable model and paths apart from each other of which the first ends in a
key: once the value read at `source` was written to `target`, removing `source` succeeds;
then `target` holds the value, `source` is gone, and every path apart from both resolves to
what it resolved to before. A write that fails leaves the model unchanged. -/
theorem rename_moves (m : ConfigModel) (reached : Reachable m) (source target : Bytes)
    (parent segments : List PathSegment) (name : Bytes)
    (fromParsed : ConfigPath.parse source = .ok (parent ++ [.key name]))
    (toParsed : ConfigPath.parse target = .ok segments)
    (apart : Tree.Apart (parent ++ [.key name]) segments) (v : ConfigValue)
    (read : m.getValue source = .ok v) :
    ((m.set target v).1 = .ok () →
      let written := (m.set target v).2
      let moved := (written.remove source).2
      (written.remove source).1 = .ok () ∧ moved.getValue target = .ok v ∧
        moved.contains source = false ∧
        ∀ path steps w, ConfigPath.parse path = .ok steps →
          Tree.Apart steps (parent ++ [.key name]) → Tree.Apart steps segments →
          m.getValue path = .ok w → moved.getValue path = .ok w) ∧
    ∀ e, (m.set target v).1 = .error e → (m.set target v).2 = m := by
  obtain ⟨t, r⟩ := reachable_represents reached
  have found := (getValue_iff m t r source _ fromParsed v).mp read
  have distinct : v.KeysDistinct :=
    Tree.Every.mono (fun _ here => here.1) (r.admissible.keys.locate _ found)
  obtain ⟨success, failure⟩ := set_written m t r target segments toParsed v distinct
  refine ⟨fun answered => ?_, failure⟩
  obtain ⟨t', r', upserted⟩ := success answered
  have kept := Tree.locate_upsert_apart sameType _ segments v _ _ v upserted apart found
  obtain ⟨removed, t'', x, r'', anchor, step, plain⟩ :=
    remove_key _ t' r' source parent name fromParsed v kept
  have elsewhere : ∀ steps w, Tree.Apart steps (parent ++ [.key name]) →
      Tree.locate steps t'.forget = .ok w → Tree.locate steps t''.forget = .ok w := by
    intro steps w away here
    rw [plain]
    exact Tree.locate_dropKey_apart steps parent name _ x w anchor away here
  refine ⟨removed, ?_, ?_, ?_⟩
  · rw [getValue_iff _ t'' r'' target segments toParsed]
    exact elsewhere segments v apart.symm (Tree.locate_upsert sameType segments v _ _ upserted)
  · have keys : x.keys.Nodup :=
      ((Tree.every_iff _ _).mp (r'.admissible.keys.locate parent anchor)).1.1
    have gone := Tree.locate_dropKey_self parent name t'.forget x v anchor step keys
    rw [contains_spec _ t'' r'' source, Reference.contains, Reference.getValue, fromParsed,
      outcome_ok]
    simp only [plain, gone]
    rfl
  · intro path steps w parsed away away' here
    rw [getValue_iff _ t'' r'' path steps parsed]
    apply elsewhere steps w away
    exact Tree.locate_upsert_apart sameType steps segments v _ _ w upserted away'
      ((getValue_iff m t r path steps parsed w).mp here)

/-- A model that holds one integer. -/
def oneEntry : ConfigModel :=
  (ConfigModel.empty.set (bytes "old") (ConfigValue.of (.int 1))).2

theorem entry_renamed :
    ((oneEntry.set (bytes "new.name") (ConfigValue.of (.int 1))).2.remove (bytes "old")).1 =
      .ok () :=
  ((rename_moves oneEntry
    (.set ConfigModel.empty (bytes "old") ⟨ConfigValue.of (.int 1), ConfigValue.keysDistinct_of _⟩
      .empty)
    (bytes "old") (bytes "new.name") [] [.key (bytes "new"), .key (bytes "name")] (bytes "old")
    (by decide +kernel) (by decide +kernel) (by unfold Tree.Apart; decide +kernel)
    (ConfigValue.of (.int 1)) rfl).1 rfl).1

end ConfigManager.Guarantees

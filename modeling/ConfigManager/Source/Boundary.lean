import ConfigManager.Source.ConfigModel

/-!
# The serialization boundary (load_limits.hpp, config_interface.hpp)

What both backends share. An input stream is what its buffer delivers, one chunk
for each `sgetn` call, and an output stream is what its sink still takes.
Exception masks are not part of the model: both backends turn what they raise
into the error of the call.
-/

set_option autoImplicit false

namespace ConfigManager.Source

structure LoadLimits where
  maxInputBytes : Nat := 4 * 1024 * 1024
  maxNodes : Nat := 100000

/-- Both backends have this function. -/
def isPathAddressable (key : Bytes) : Bool := !key.isEmpty && !key.any isReserved

/-- `value()` on an error throws, and the catch-all of `save` answers. -/
def badAccess {α : Type} (format : Bytes) : Result α :=
  fail .serializationError (format ++ bytes " save failed: Bad expected access")

/-- `as` with the type the node reports, and `value()` on its result. -/
def scalarOf (format : Bytes) (arena : NodeArena) (node : ConfigNode) : Result Scalar :=
  match node.scalarValue arena with
  | .error _ => badAccess format
  | .ok scalar => if scalar.type = node.type arena then .ok scalar else badAccess format

/-! ## Reading -/

structure InputStream where
  /-- `none` without a stream buffer. -/
  buffer : Option (List Bytes)
  eof : Bool := false

/-- The loop of `readBounded`. A call that delivers nothing ends it. -/
def readChunks (format : Bytes) (maxBytes : Nat) : List Bytes → Bytes → Result Bytes
  | [], text => .ok text
  | chunk :: rest, text =>
      if chunk.isEmpty then .ok text
      else if maxBytes - text.length < chunk.length then
        fail .parseError (format ++ bytes " document exceeds input limit (" ++ natText maxBytes ++
          bytes " bytes)")
      else readChunks format maxBytes rest (text ++ chunk)

/-- Each backend has this function with its own format name. -/
def readBounded (format : Bytes) (input : InputStream) (maxBytes : Nat) :
    Result Bytes × InputStream :=
  match input.buffer with
  | none => (fail .parseError (format ++ bytes " stream has no buffer"), input)
  | some chunks =>
      match readChunks format maxBytes chunks [] with
      | .error e => (.error e, input)
      | .ok text => (.ok text, { input with eof := true })

/-- The buffer delivers this text, in chunks of any size. -/
def InputStream.Delivers (input : InputStream) (text : Bytes) : Prop :=
  ∃ chunks, input.buffer = some chunks ∧ chunks.flatten = text ∧ ∀ chunk ∈ chunks, chunk ≠ []

theorem readChunks_ok (format : Bytes) (maxBytes : Nat) (chunks : List Bytes) (text : Bytes)
    (filled : ∀ chunk ∈ chunks, chunk ≠ []) (bound : (text ++ chunks.flatten).length ≤ maxBytes) :
    readChunks format maxBytes chunks text = .ok (text ++ chunks.flatten) := by
  induction chunks generalizing text with
  | nil => simp [readChunks]
  | cons chunk rest ih =>
    have some : chunk.isEmpty = false := List.isEmpty_eq_false_iff.mpr (filled chunk (by simp))
    rw [List.flatten_cons, ← List.append_assoc] at bound ⊢
    have fits : ¬ maxBytes - text.length < chunk.length := by
      simp only [List.length_append] at bound
      omega
    rw [readChunks, some, if_neg (by simp), if_neg fits]
    exact ih (text ++ chunk) (fun c inside => filled c (by simp [inside])) bound

/-- A document within the limit is read whole. -/
theorem readBounded_ok (format : Bytes) (input : InputStream) (maxBytes : Nat) (text : Bytes)
    (delivers : input.Delivers text) (bound : text.length ≤ maxBytes) :
    (readBounded format input maxBytes).1 = .ok text := by
  obtain ⟨chunks, buffered, rfl, filled⟩ := delivers
  unfold readBounded
  rw [buffered]
  simp only [readChunks_ok format maxBytes chunks [] filled bound, List.nil_append]

theorem readChunks_over (format : Bytes) (maxBytes : Nat) (chunks : List Bytes) (text : Bytes)
    (filled : ∀ chunk ∈ chunks, chunk ≠ []) (fits : text.length ≤ maxBytes)
    (exceeds : maxBytes < (text ++ chunks.flatten).length) :
    ∃ message, readChunks format maxBytes chunks text = fail .parseError message := by
  induction chunks generalizing text with
  | nil =>
    rw [List.flatten_nil, List.append_nil] at exceeds
    omega
  | cons chunk rest ih =>
    have some : chunk.isEmpty = false := List.isEmpty_eq_false_iff.mpr (filled chunk (by simp))
    rw [List.flatten_cons, ← List.append_assoc] at exceeds
    rw [readChunks, some, if_neg (by simp)]
    by_cases large : maxBytes - text.length < chunk.length
    · rw [if_pos large]
      exact ⟨_, rfl⟩
    · rw [if_neg large]
      refine ih (text ++ chunk) (fun c inside => filled c (by simp [inside])) ?_ exceeds
      rw [List.length_append]
      omega

/-- A document over the limit is refused. -/
theorem readBounded_over (format : Bytes) (input : InputStream) (maxBytes : Nat) (text : Bytes)
    (delivers : input.Delivers text) (exceeds : maxBytes < text.length) :
    ∃ message, (readBounded format input maxBytes).1 = fail .parseError message := by
  obtain ⟨chunks, buffered, rfl, filled⟩ := delivers
  obtain ⟨message, refused⟩ :=
    readChunks_over format maxBytes chunks [] filled (Nat.zero_le _) exceeds
  refine ⟨message, ?_⟩
  unfold readBounded
  rw [buffered]
  simp only [refused]
  rfl

/-! ## Writing -/

structure OutputStream where
  written : Bytes := []
  /-- How many more bytes the sink takes; `none` without bound. -/
  room : Option Nat := none
  failed : Bool := false

namespace OutputStream

/-- A failed stream takes nothing more; a sink that fills up fails the stream. -/
def write (out : OutputStream) (text : Bytes) : OutputStream :=
  if out.failed then out
  else match out.room with
    | none => { out with written := out.written ++ text }
    | some room =>
        if text.length ≤ room then
          { out with written := out.written ++ text, room := some (room - text.length) }
        else ⟨out.written ++ text.take room, some 0, true⟩

/-- A stream that takes whatever is written to it. -/
structure Working (out : OutputStream) : Prop where
  sound : out.failed = false
  unbounded : out.room = none

theorem write_working (out : OutputStream) (text : Bytes) (working : out.Working) :
    out.write text = { out with written := out.written ++ text } ∧ (out.write text).Working := by
  have whole : out.write text = { out with written := out.written ++ text } := by
    simp [write, working.sound, working.unbounded]
  refine ⟨whole, ?_⟩
  rw [whole]
  exact ⟨working.sound, working.unbounded⟩

end OutputStream

end ConfigManager.Source

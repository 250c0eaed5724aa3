import ConfigManager.Reference.ConfigTree
import ConfigManager.Reference.PathGrammar

/-!
# The scanner follows the grammar

Each loop of `ConfigPath::parse` is compared with the production it reads: what a
derivation derives is read as its steps, what is read has a derivation, and the
bound on the rounds is never met.
-/

set_option autoImplicit false

namespace ConfigManager.Refinement
open Library Source Reference

theorem isReserved_eq_false (c : UInt8) :
    isReserved c = false ↔ c ≠ dot ∧ c ≠ openBracket ∧ c ≠ closeBracket := by
  simp [isReserved, and_assoc]

theorem addressable_iff (key : Bytes) : Addressable key ↔ PlainKey key := by
  unfold Addressable isAddressableKey PlainKey
  rw [Bool.and_eq_true, Bool.not_eq_true', List.isEmpty_eq_false_iff, Bool.not_eq_true',
    List.any_eq_false]
  simp only [Bool.not_eq_true, isReserved_eq_false]

/-- The keys of an object are plain, distinct and unlike the earlier ones. -/
structure FreshKeys (names earlier : List Bytes) : Prop where
  distinct : names.Nodup
  plain : ∀ name ∈ names, PlainKey name
  fresh : ∀ name ∈ names, name ∉ earlier

theorem freshKeys_cons (name : Bytes) (names earlier : List Bytes) :
    FreshKeys (name :: names) earlier ↔
      (PlainKey name ∧ name ∉ earlier) ∧ FreshKeys names (earlier ++ [name]) := by
  constructor
  · intro ok
    have distinct := List.nodup_cons.mp ok.distinct
    have plain := List.forall_mem_cons.mp ok.plain
    have fresh := List.forall_mem_cons.mp ok.fresh
    refine ⟨⟨plain.1, fresh.1⟩, distinct.2, plain.2, fun other inside => ?_⟩
    rw [List.mem_append, List.mem_singleton]
    intro seen
    rcases seen with before | same
    · exact fresh.2 other inside before
    · exact distinct.1 (same ▸ inside)
  · intro both
    obtain ⟨⟨plain, fresh⟩, later⟩ := both
    have apart : ∀ other ∈ names, other ∉ earlier ∧ other ≠ name := by
      intro other inside
      have unseen := later.fresh other inside
      rw [List.mem_append, List.mem_singleton, not_or] at unseen
      exact unseen
    constructor
    · exact List.nodup_cons.mpr ⟨fun inside => (apart name inside).2 rfl, later.distinct⟩
    · exact List.forall_mem_cons.mpr ⟨plain, later.plain⟩
    · exact List.forall_mem_cons.mpr ⟨fresh, fun other inside => (apart other inside).1⟩

def addressableText (name : Bytes) (ok : Addressable name) : KeyText :=
  ⟨name, ((addressable_iff name).mp ok).1, ((addressable_iff name).mp ok).2⟩

/-! ## Scanning one key or one number -/

/-- Reading bytes of one kind that are followed by the end or by a byte of another kind. -/
theorem scan_run (kind : UInt8 → Bool) (run rest : Bytes) (all : ∀ c ∈ run, kind c = true)
    (stops : ∀ c ∈ rest.head?, kind c = false) :
    (run ++ rest).takeWhile kind = run ∧ (run ++ rest).dropWhile kind = rest := by
  rw [List.takeWhile_append_of_pos all, List.dropWhile_append_of_pos all]
  cases rest with
  | nil => simp
  | cons c rest =>
    have other := stops c (by simp)
    simp [other]

theorem keyText_reads (key : KeyText) (rest : Bytes)
    (stops : ∀ c ∈ rest.head?, isReserved c = true) :
    ((key.text ++ rest).takeWhile fun c => !isReserved c) = key.text ∧
      ((key.text ++ rest).dropWhile fun c => !isReserved c) = rest := by
  apply scan_run
  · intro c inside
    rw [(isReserved_eq_false c).mpr (key.plain c inside)]
    rfl
  · intro c first
    rw [stops c first]
    rfl

theorem indexDigits_reads (digits : IndexDigits) (rest : Bytes) :
    (digits.text ++ closeBracket :: rest).takeWhile isDigit = digits.text ∧
      (digits.text ++ closeBracket :: rest).dropWhile isDigit = closeBracket :: rest := by
  apply scan_run _ _ _ digits.decimal
  intro c first
  rw [List.head?_cons, Option.mem_def, Option.some.injEq] at first
  rw [← first]
  rfl

/-- What may follow the indices of a segment. -/
def EndsIndices (rest : Bytes) : Prop := ∀ c ∈ rest.head?, c ≠ openBracket

theorem indices_head (indices : List IndexDigits) (rest : Bytes)
    (stops : ∀ c ∈ rest.head?, isReserved c = true) :
    ∀ c ∈ (indices.flatMap IndexDigits.bracketed ++ rest).head?, isReserved c = true := by
  cases indices with
  | nil => exact stops
  | cons d indices =>
    intro c first
    simp only [List.flatMap_cons, IndexDigits.bracketed, List.cons_append, List.head?_cons,
      Option.mem_def, Option.some.injEq] at first
    rw [← first]
    rfl

/-! ## What a derivation derives is read -/

theorem parseIndices_derived (text : Bytes) (indices : List IndexDigits) (rest : Bytes)
    (rounds : Nat) (read : List PathSegment) (stops : EndsIndices rest)
    (enough : (indices.flatMap IndexDigits.bracketed ++ rest).length < rounds)
    (small : ∀ d ∈ indices, d.value < sizeLimit) :
    ConfigPath.parseIndices text rounds (indices.flatMap IndexDigits.bracketed ++ rest) read =
      .ok (rest, read ++ indices.map fun d => .index d.value) := by
  induction indices generalizing rounds read with
  | nil =>
    obtain ⟨rounds, rfl⟩ : ∃ n, rounds = n + 1 := ⟨rounds - 1, by omega⟩
    cases rest with
    | nil => simp [ConfigPath.parseIndices]
    | cons c rest =>
      have other : c ≠ openBracket := stops c (by simp)
      simp [ConfigPath.parseIndices, other]
  | cons d indices ih =>
    obtain ⟨rounds, rfl⟩ : ∃ n, rounds = n + 1 := ⟨rounds - 1, by omega⟩
    have shape : (d :: indices).flatMap IndexDigits.bracketed ++ rest =
        openBracket :: (d.text ++ closeBracket ::
          (indices.flatMap IndexDigits.bracketed ++ rest)) := by
      simp [IndexDigits.bracketed]
    obtain ⟨taken, dropped⟩ := indexDigits_reads d (indices.flatMap IndexDigits.bracketed ++ rest)
    have given : d.text.isEmpty = false := by simpa using d.nonempty
    have fits : ¬sizeLimit ≤ digitsValue d.text := by
      have bound := small d (by simp)
      unfold IndexDigits.value at bound
      omega
    rw [shape] at enough ⊢
    rw [ConfigPath.parseIndices]
    simp only [taken, dropped, given, bne_self_eq_false, Bool.false_eq_true, if_false, if_neg fits]
    rw [ih rounds _ (by simp only [List.length_cons, List.length_append] at enough ⊢; omega)
      fun d inside => small d (List.mem_cons_of_mem _ inside)]
    simp [IndexDigits.value]

theorem segment_length (s : SegmentTree) : 0 < s.text.length := by
  have positive := List.length_pos_iff.mpr s.key.nonempty
  rw [SegmentTree.text, List.length_append]
  omega

/-- One round of the outer loop reads a derived segment, up to the end or past the dot. -/
theorem parseSegments_segment (text : Bytes) (s : SegmentTree) (rounds : Nat)
    (read : List PathSegment) (small : s.InRange) :
    ConfigPath.parseSegments text (rounds + 1) s.text read = .ok (read ++ s.steps) ∧
    ∀ next, ConfigPath.parseSegments text (rounds + 1) (s.text ++ dot :: next) read =
      ConfigPath.parseSegments text rounds next (read ++ s.steps) := by
  have given : s.key.text.isEmpty = false := by simpa using s.key.nonempty
  have round : ∀ rest : Bytes, (∀ c ∈ rest.head?, c = dot) →
      ((s.text ++ rest).takeWhile fun c => !isReserved c) = s.key.text ∧
      ∃ after, ((s.text ++ rest).dropWhile fun c => !isReserved c) = after ∧
        ConfigPath.parseIndices text (after.length + 1) after (read ++ [.key s.key.text]) =
          .ok (rest, read ++ s.steps) := by
    intro rest dotted
    have reserved : ∀ c ∈ rest.head?, isReserved c = true := by
      intro c first
      rw [dotted c first]
      rfl
    have stops : EndsIndices rest := by
      intro c first
      rw [dotted c first]
      decide
    obtain ⟨taken, dropped⟩ := keyText_reads s.key
      (s.indices.flatMap IndexDigits.bracketed ++ rest) (indices_head s.indices rest reserved)
    rw [SegmentTree.text, List.append_assoc]
    refine ⟨taken, _, dropped, ?_⟩
    rw [parseIndices_derived text s.indices rest _ _ stops (Nat.lt_succ_self _) small]
    simp [SegmentTree.steps]
  constructor
  · obtain ⟨taken, after, dropped, indices⟩ := round [] (by simp)
    rw [List.append_nil] at taken dropped
    rw [ConfigPath.parseSegments]
    simp only [taken, dropped, given, Bool.false_eq_true, if_false, indices]
  · intro next
    obtain ⟨taken, after, dropped, indices⟩ := round (dot :: next) (by simp)
    rw [ConfigPath.parseSegments]
    simp only [taken, dropped, given, Bool.false_eq_true, if_false, indices, beq_self_eq_true,
      if_true]

theorem parseSegments_derived (text : Bytes) (first : SegmentTree) (more : List SegmentTree)
    (rounds : Nat) (read : List PathSegment)
    (enough : (first.text ++ more.flatMap fun s => dot :: s.text).length < rounds)
    (small : ∀ s ∈ first :: more, s.InRange) :
    ConfigPath.parseSegments text rounds (first.text ++ more.flatMap fun s => dot :: s.text) read =
      .ok (read ++ (first :: more).flatMap SegmentTree.steps) := by
  obtain ⟨rounds, rfl⟩ : ∃ n, rounds = n + 1 := ⟨rounds - 1, by omega⟩
  obtain ⟨last, onward⟩ := parseSegments_segment text first rounds read (small first (by simp))
  induction more generalizing first rounds read with
  | nil =>
    rw [List.flatMap_nil, List.append_nil, last]
    simp
  | cons next more ih =>
    rw [List.flatMap_cons, List.cons_append] at enough ⊢
    have shorter : (next.text ++ more.flatMap fun s => dot :: s.text).length < rounds := by
      simp only [List.length_append, List.length_cons] at enough ⊢
      omega
    obtain ⟨rounds, rfl⟩ : ∃ n, rounds = n + 1 := ⟨rounds - 1, by omega⟩
    have later : ∀ s ∈ next :: more, s.InRange :=
      fun s inside => small s (List.mem_cons_of_mem _ inside)
    obtain ⟨last', onward'⟩ := parseSegments_segment text next rounds (read ++ first.steps)
      (later next (by simp))
    rw [onward, ih next _ later rounds shorter last' onward']
    simp

theorem parse_derived (tree : PathTree) (small : tree.InRange) :
    ConfigPath.parse tree.text = .ok tree.steps := by
  have positive := segment_length tree.first
  have given : tree.text.isEmpty = false := by
    rw [List.isEmpty_eq_false_iff, ← List.length_pos_iff, PathTree.text, List.length_append]
    omega
  rw [ConfigPath.parse, given, if_neg Bool.false_ne_true]
  exact parseSegments_derived tree.text tree.first tree.more _ [] (Nat.lt_succ_self _) small

/-! ## What is read has a derivation -/

theorem parseIndices_ok (text : Bytes) (rounds : Nat) (unread rest : Bytes)
    (read segments : List PathSegment)
    (parsed : ConfigPath.parseIndices text rounds unread read = .ok (rest, segments)) :
    ∃ indices : List IndexDigits, unread = indices.flatMap IndexDigits.bracketed ++ rest ∧
      segments = read ++ indices.map (fun d => .index d.value) ∧
      ∀ d ∈ indices, d.value < sizeLimit := by
  induction rounds generalizing unread read with
  | zero => cases parsed
  | succ rounds ih =>
    cases unread with
    | nil =>
      rw [ConfigPath.parseIndices, Except.ok.injEq, Prod.mk.injEq] at parsed
      exact ⟨[], by simp [parsed.1], by simp [parsed.2], by simp⟩
    | cons c after =>
      rw [ConfigPath.parseIndices] at parsed
      by_cases bracket : c = openBracket
      · simp only [bracket, bne_self_eq_false, Bool.false_eq_true, if_false] at parsed
        by_cases none : (after.takeWhile isDigit).isEmpty = true
        · rw [if_pos none] at parsed
          cases parsed
        · rw [if_neg none] at parsed
          cases closing : after.dropWhile isDigit with
          | nil =>
            simp only [closing] at parsed
            cases parsed
          | cons close later =>
            simp only [closing] at parsed
            by_cases closed : close = closeBracket
            · by_cases large : sizeLimit ≤ digitsValue (after.takeWhile isDigit)
              · simp only [closed, bne_self_eq_false, Bool.false_eq_true, if_false,
                  if_pos large] at parsed
                cases parsed
              · simp only [closed, bne_self_eq_false, Bool.false_eq_true, if_false,
                  if_neg large] at parsed
                obtain ⟨indices, shape, steps, small⟩ := ih later _ parsed
                let d : IndexDigits := ⟨after.takeWhile isDigit, by simpa using none,
                  List.all_eq_true.mp List.all_takeWhile⟩
                have split : after = d.text ++ closeBracket :: later := by
                  rw [← closed, ← closing]
                  exact List.takeWhile_append_dropWhile.symm
                refine ⟨d :: indices, ?_, ?_, ?_⟩
                · rw [bracket, split, shape]
                  simp [IndexDigits.bracketed]
                · rw [steps]
                  simp [d, IndexDigits.value]
                · rw [List.forall_mem_cons]
                  exact ⟨Nat.lt_of_not_le large, small⟩
            · have other : (close != closeBracket) = true := by simpa using closed
              rw [if_pos other] at parsed
              cases parsed
      · have other : (c != openBracket) = true := by simpa using bracket
        rw [if_pos other, Except.ok.injEq, Prod.mk.injEq] at parsed
        exact ⟨[], by simp [parsed.1], by simp [parsed.2], by simp⟩

theorem parseSegments_ok (text : Bytes) (rounds : Nat) (unread : Bytes)
    (read segments : List PathSegment)
    (parsed : ConfigPath.parseSegments text rounds unread read = .ok segments) :
    ∃ tree : PathTree, tree.text = unread ∧ segments = read ++ tree.steps ∧ tree.InRange := by
  induction rounds generalizing unread read with
  | zero => cases parsed
  | succ rounds ih =>
    rw [ConfigPath.parseSegments] at parsed
    by_cases none : (unread.takeWhile fun c => !isReserved c).isEmpty = true
    · simp only [if_pos none] at parsed
      cases parsed
    · simp only [if_neg none] at parsed
      let key : KeyText := ⟨unread.takeWhile fun c => !isReserved c, by simpa using none, by
        intro c inside
        have plain := List.all_eq_true.mp List.all_takeWhile c inside
        exact (isReserved_eq_false c).mp (by simpa using plain)⟩
      have split : unread = key.text ++ unread.dropWhile fun c => !isReserved c :=
        List.takeWhile_append_dropWhile.symm
      split at parsed
      · cases parsed
      · next whole indexed =>
        rw [Except.ok.injEq] at parsed
        subst parsed
        obtain ⟨indices, shape, steps, small⟩ := parseIndices_ok _ _ _ _ _ _ indexed
        refine ⟨⟨⟨key, indices⟩, []⟩, ?_, ?_, ?_⟩
        · rw [split, shape]
          simp [PathTree.text, SegmentTree.text]
        · rw [steps]
          simp [PathTree.steps, PathTree.segments, SegmentTree.steps, key]
        · intro s inside
          rw [PathTree.segments, List.mem_singleton] at inside
          rw [inside]
          exact small
      · next c next before indexed =>
        obtain ⟨indices, shape, steps, small⟩ := parseIndices_ok _ _ _ _ _ _ indexed
        by_cases isDot : c = dot
        · simp only [isDot, beq_self_eq_true, if_true] at parsed
          obtain ⟨tree, derives, later, bounded⟩ := ih next before parsed
          refine ⟨⟨⟨key, indices⟩, tree.first :: tree.more⟩, ?_, ?_, ?_⟩
          · rw [split, shape, isDot, ← derives]
            simp [PathTree.text, SegmentTree.text]
          · rw [later, steps]
            simp [PathTree.steps, PathTree.segments, SegmentTree.steps, key]
          · intro s inside
            rcases List.mem_cons.mp inside with rfl | further
            · exact small
            · exact bounded s further
        · have other : (c == dot) = false := by simpa using isDot
          rw [other, if_neg Bool.false_ne_true] at parsed
          cases parsed

theorem parse_ok (text : Bytes) (segments : List PathSegment)
    (parsed : ConfigPath.parse text = .ok segments) :
    ∃ tree : PathTree, tree.text = text ∧ tree.steps = segments ∧ tree.InRange := by
  unfold ConfigPath.parse at parsed
  split at parsed
  · cases parsed
  · obtain ⟨tree, derives, steps, small⟩ := parseSegments_ok _ _ _ _ _ parsed
    exact ⟨tree, derives, by rw [steps, List.nil_append], small⟩

/-! ## A text has one derivation -/

theorem indices_unique (indices indices' : List IndexDigits) (rest rest' : Bytes)
    (stops : EndsIndices rest) (stops' : EndsIndices rest')
    (same : indices.flatMap IndexDigits.bracketed ++ rest =
      indices'.flatMap IndexDigits.bracketed ++ rest') :
    indices = indices' ∧ rest = rest' := by
  induction indices generalizing indices' with
  | nil =>
    cases indices' with
    | nil => exact ⟨rfl, same⟩
    | cons d later =>
      simp only [List.flatMap_nil, List.nil_append, List.flatMap_cons, IndexDigits.bracketed,
        List.cons_append] at same
      exact absurd rfl (stops openBracket (by rw [same]; rfl))
  | cons d indices ih =>
    cases indices' with
    | nil =>
      simp only [List.flatMap_nil, List.nil_append, List.flatMap_cons, IndexDigits.bracketed,
        List.cons_append] at same
      exact absurd rfl (stops' openBracket (by rw [← same]; rfl))
    | cons d' indices' =>
      have tails : d.text ++ closeBracket :: (indices.flatMap IndexDigits.bracketed ++ rest) =
          d'.text ++ closeBracket :: (indices'.flatMap IndexDigits.bracketed ++ rest') := by
        simpa [IndexDigits.bracketed] using same
      obtain ⟨taken, dropped⟩ := indexDigits_reads d (indices.flatMap IndexDigits.bracketed ++ rest)
      obtain ⟨taken', dropped'⟩ :=
        indexDigits_reads d' (indices'.flatMap IndexDigits.bracketed ++ rest')
      rw [tails] at taken dropped
      have digits : d = d' := IndexDigits.ext (taken.symm.trans taken')
      obtain ⟨more, after⟩ := ih indices' (List.cons.inj (dropped.symm.trans dropped')).2
      exact ⟨by rw [digits, more], after⟩

/-- What may follow a segment: the end, or a dot. -/
def EndsSegment (rest : Bytes) : Prop := ∀ c ∈ rest.head?, c = dot

theorem segment_unique (s s' : SegmentTree) (rest rest' : Bytes) (stops : EndsSegment rest)
    (stops' : EndsSegment rest') (same : s.text ++ rest = s'.text ++ rest') :
    s = s' ∧ rest = rest' := by
  have reserved : ∀ rest : Bytes, EndsSegment rest → ∀ c ∈ rest.head?, isReserved c = true := by
    intro rest stops c first
    rw [stops c first]
    rfl
  have indexed : ∀ rest : Bytes, EndsSegment rest → EndsIndices rest := by
    intro rest stops c first
    rw [stops c first]
    decide
  rw [SegmentTree.text, SegmentTree.text, List.append_assoc, List.append_assoc] at same
  obtain ⟨taken, dropped⟩ := keyText_reads s.key _ (indices_head s.indices rest (reserved _ stops))
  obtain ⟨taken', dropped'⟩ :=
    keyText_reads s'.key _ (indices_head s'.indices rest' (reserved _ stops'))
  rw [same] at taken dropped
  have keys : s.key = s'.key := KeyText.ext (taken.symm.trans taken')
  obtain ⟨indices, after⟩ := indices_unique s.indices s'.indices rest rest' (indexed _ stops)
    (indexed _ stops') (dropped.symm.trans dropped')
  obtain ⟨key, more⟩ := s
  obtain ⟨key', more'⟩ := s'
  exact ⟨by rw [SegmentTree.mk.injEq]; exact ⟨keys, indices⟩, after⟩

/-- Further segments start with a dot. -/
theorem more_ends (more : List SegmentTree) :
    EndsSegment (more.flatMap fun s => dot :: s.text) := by
  intro c first
  cases more with
  | nil => cases first
  | cons s more =>
    rw [List.flatMap_cons, List.cons_append, List.head?_cons, Option.mem_def,
      Option.some.injEq] at first
    exact first.symm

theorem more_unique (more more' : List SegmentTree)
    (same : (more.flatMap fun s => dot :: s.text) = more'.flatMap fun s => dot :: s.text) :
    more = more' := by
  induction more generalizing more' with
  | nil =>
    cases more' with
    | nil => rfl
    | cons s later => simp at same
  | cons s more ih =>
    cases more' with
    | nil => simp at same
    | cons s' more' =>
      simp only [List.flatMap_cons, List.cons_append, List.cons.injEq, true_and] at same
      obtain ⟨first, later⟩ := segment_unique s s' _ _ (more_ends more) (more_ends more') same
      rw [first, ih more' later]

theorem derivation_unique (tree tree' : PathTree) (same : tree.text = tree'.text) :
    tree = tree' := by
  obtain ⟨first, more⟩ := tree
  obtain ⟨first', more'⟩ := tree'
  obtain ⟨heads, later⟩ :=
    segment_unique first first' _ _ (more_ends more) (more_ends more') same
  rw [heads, more_unique more more' later]

/-! ## Failures and rounds -/

theorem parseIndices_code (text : Bytes) (rounds : Nat) (unread : Bytes)
    (read : List PathSegment) (e : Error)
    (failed : ConfigPath.parseIndices text rounds unread read = .error e) :
    e.code = .invalidPath := by
  fun_induction ConfigPath.parseIndices text rounds unread read <;>
    first
    | (cases failed; rfl)
    | cases failed
    | (next ih => exact ih failed)

theorem parse_code (text : Bytes) (e : Error) (failed : ConfigPath.parse text = .error e) :
    e.code = .invalidPath := by
  have segments : ∀ rounds unread read,
      ConfigPath.parseSegments text rounds unread read = .error e → e.code = .invalidPath := by
    intro rounds unread read failed
    induction rounds generalizing unread read with
    | zero => cases failed; rfl
    | succ rounds ih =>
      rw [ConfigPath.parseSegments] at failed
      split at failed
      · cases failed; rfl
      · split at failed
        · next e' indexed =>
          cases failed
          exact parseIndices_code _ _ _ _ _ indexed
        · cases failed
        · split at failed
          · exact ih _ _ failed
          · cases failed; rfl
  unfold ConfigPath.parse at failed
  split at failed
  · cases failed; rfl
  · exact segments _ _ _ failed

/-- Every round of the inner loop consumes a byte: more rounds than bytes change nothing. -/
theorem parseIndices_rounds (text : Bytes) (unread : Bytes) (read : List PathSegment)
    (rounds rounds' : Nat) (enough : unread.length < rounds) (enough' : unread.length < rounds') :
    ConfigPath.parseIndices text rounds unread read =
      ConfigPath.parseIndices text rounds' unread read := by
  induction rounds generalizing unread read rounds' with
  | zero => omega
  | succ rounds ih =>
    obtain ⟨rounds', rfl⟩ : ∃ n, rounds' = n + 1 := ⟨rounds' - 1, by omega⟩
    cases unread with
    | nil => rfl
    | cons c rest =>
      rw [ConfigPath.parseIndices, ConfigPath.parseIndices]
      cases closing : rest.dropWhile isDigit with
      | nil => rfl
      | cons close after =>
        have shorter := (List.dropWhile_suffix isDigit (l := rest)).length_le
        rw [closing, List.length_cons] at shorter
        rw [List.length_cons] at enough enough'
        simp only [ih after _ rounds' (by omega) (by omega)]

theorem parseSegments_rounds (text : Bytes) (unread : Bytes) (read : List PathSegment)
    (rounds rounds' : Nat) (enough : unread.length < rounds) (enough' : unread.length < rounds') :
    ConfigPath.parseSegments text rounds unread read =
      ConfigPath.parseSegments text rounds' unread read := by
  induction rounds generalizing unread read rounds' with
  | zero => omega
  | succ rounds ih =>
    obtain ⟨rounds', rfl⟩ : ∃ n, rounds' = n + 1 := ⟨rounds' - 1, by omega⟩
    rw [ConfigPath.parseSegments, ConfigPath.parseSegments]
    split
    · rfl
    · split
      · rfl
      · rfl
      · next c next before indexed =>
        obtain ⟨indices, shape, _⟩ := parseIndices_ok _ _ _ _ _ _ indexed
        have shorter := (List.dropWhile_suffix (fun c => !isReserved c) (l := unread)).length_le
        rw [shape, List.length_append, List.length_cons] at shorter
        rw [ih next before rounds' (by omega) (by omega)]

/-! ## Rendering -/

/-- A list of segments that follows a key has a derivation that derives its rendering. -/
theorem rendering_derived (key : KeyText) (indices : List IndexDigits)
    (segments : List PathSegment) (names : ∀ name, Step.key name ∈ segments → Addressable name)
    (small : ∀ d ∈ indices, d.value < sizeLimit)
    (bounded : ∀ n, Step.index n ∈ segments → n < sizeLimit) :
    ∃ tree : PathTree, tree.text = (SegmentTree.text ⟨key, indices⟩) ++ segments.flatMap renderNext ∧
      tree.steps = (SegmentTree.steps ⟨key, indices⟩) ++ segments ∧ tree.InRange := by
  induction segments generalizing key indices with
  | nil =>
    refine ⟨⟨⟨key, indices⟩, []⟩, rfl, by simp [PathTree.steps, PathTree.segments], ?_⟩
    intro s inside
    rw [PathTree.segments, List.mem_singleton] at inside
    rw [inside]
    exact small
  | cons segment segments ih =>
    have names' := fun name inside => names name (List.mem_cons_of_mem _ inside)
    have bounded' := fun n inside => bounded n (List.mem_cons_of_mem _ inside)
    cases segment with
    | index n =>
      obtain ⟨tree, text, steps, inRange⟩ := ih key (indices ++ [IndexDigits.ofNat n]) names'
        (by
          intro d inside
          rcases List.mem_append.mp inside with early | last
          · exact small d early
          · rw [List.mem_singleton.mp last, IndexDigits.ofNat_value]
            exact bounded n (by simp)) bounded'
      refine ⟨tree, ?_, ?_, inRange⟩
      · rw [text]
        simp [SegmentTree.text, renderNext, IndexDigits.bracketed, IndexDigits.ofNat]
      · rw [steps]
        simp [SegmentTree.steps]
    | key name =>
      obtain ⟨tree, text, steps, inRange⟩ :=
        ih (addressableText name (names name (by simp))) [] names' (by simp) bounded'
      refine ⟨⟨⟨key, indices⟩, tree.first :: tree.more⟩, ?_, ?_, ?_⟩
      · have tail : tree.first.text ++ tree.more.flatMap (fun s => dot :: s.text) =
            name ++ segments.flatMap renderNext := by
          simpa [PathTree.text, SegmentTree.text, addressableText] using text
        simp [PathTree.text, renderNext, tail]
      · have tail : tree.segments.flatMap SegmentTree.steps = .key name :: segments := by
          simpa [PathTree.steps, SegmentTree.steps, addressableText] using steps
        change (SegmentTree.mk key indices :: tree.segments).flatMap SegmentTree.steps = _
        rw [List.flatMap_cons, tail]
      · intro s inside
        rcases List.mem_cons.mp inside with rfl | further
        · exact small
        · exact inRange s further

/-- Parsing the rendering of a list of segments gives the list back. -/
theorem parse_renderPath (name : Bytes) (segments : List PathSegment)
    (names : ∀ key, Step.key key ∈ .key name :: segments → Addressable key)
    (bounded : ∀ n, Step.index n ∈ segments → n < sizeLimit) :
    ConfigPath.parse (renderPath (.key name :: segments)) = .ok (.key name :: segments) := by
  obtain ⟨tree, text, steps, small⟩ :=
    rendering_derived (addressableText name (names name (by simp))) [] segments
      (fun key inside => names key (List.mem_cons_of_mem _ inside)) (by simp) bounded
  have parsed := parse_derived tree small
  rw [text, steps] at parsed
  simpa [SegmentTree.text, SegmentTree.steps, renderPath, addressableText] using parsed

end ConfigManager.Refinement

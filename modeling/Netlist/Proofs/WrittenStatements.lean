import Netlist.Proofs.BytePositions

/-!
# Calls and headers as they are written

A call and the header of a definition are written as words, with blanks and
commas between them, and assignments behind the words.  Where the assignments
begin is found from the first equals sign backwards; as no word before them has
an equals sign, the words and the assignments are read as they were written,
and a word that introduces the assignments is left out.
-/

namespace Netlist

namespace Word

/-- A word without an equals sign. -/
structure Plain (text : Text) : Prop extends Solid text where
  unassigned : '=' ∉ text

/-- A plain word that means something by itself. -/
structure Operand (text : Text) : Prop extends Plain text where
  named : introduces text = false

instance (text : Text) : Decidable (Operand text) :=
  decidable_of_iff ((text ≠ [] ∧ text.all isInner = true) ∧
      '=' ∉ text ∧ introduces text = false)
    ⟨fun given => ⟨⟨⟨given.1.1, List.all_eq_true.mp given.1.2⟩, given.2.1⟩, given.2.2⟩,
      fun operand => ⟨⟨operand.nonempty, List.all_eq_true.mpr operand.inner⟩, operand.unassigned,
        operand.named⟩⟩

theorem plain_of_introduces {text : Text} (introducing : introduces text = true) :
    Plain text := by
  have same : Text.lower text = "params:".toList :=
    (Text.sameLetters_iff text "params:").mp introducing
  have spelled : ∀ c ∈ text, c.isAlpha = true ∨ c = ':' := by
    intro c member
    cases alpha : c.isAlpha with
    | true => exact .inl rfl
    | false =>
        have lowered : c.toLower ∈ Text.lower text := List.mem_map_of_mem member
        rw [same, Text.toLower_of_not_isAlpha alpha] at lowered
        have letters : ("params:".toList.all fun d => d.isAlpha || d == ':') = true := by decide
        have letter := List.all_eq_true.mp letters c lowered
        rw [alpha, Bool.false_or, beq_iff_eq] at letter
        exact .inr letter
  refine ⟨⟨?_, ?_⟩, ?_⟩
  · rintro rfl
    cases introducing
  · intro c member
    rcases spelled c member with letter | rfl
    · exact Renamer.isInner_of_isAlpha letter
    · decide
  · intro member
    exact absurd (spelled '=' member) (by decide)

/-- Words with blanks and commas behind each, and a tail behind all of them. -/
inductive Written (tail : Text) : List Text → Text → Prop where
  | tail : Written tail [] tail
  | word {word gap behind : Text} {words : List Text}
      (separate : ∀ c ∈ gap, isSeparator c = true) (apart : gap = [] → behind = [])
      (rest : Written tail words behind) : Written tail (word :: words) (word ++ (gap ++ behind))

theorem not_isInner_of_isSeparator {c : Char} (separator : isSeparator c = true) :
    isInner c = false := by
  simp [isInner, separator]

theorem equals_notMem_of_separate {gap : Text} (separate : ∀ c ∈ gap, isSeparator c = true) :
    '=' ∉ gap := by
  intro member
  exact absurd (separate '=' member) (by decide)

/-- The front of a written text: its words, without an equals sign, apart from the tail. -/
structure Front (tail : Text) (words : List Text) (text front : Text) : Prop where
  whole : text = front ++ tail
  unassigned : '=' ∉ front
  apart : tail ≠ [] → Text.Stops isInner front.reverse
  texts (start : Nat) : (splitFrom start front).map Word.text = words

theorem Written.exists_front {tail text : Text} {words : List Text}
    (written : Written tail words text) (plain : ∀ word ∈ words, Plain word) :
    ∃ front, Front tail words text front := by
  induction written with
  | tail =>
      refine ⟨[], (List.nil_append tail).symm, List.not_mem_nil, fun _ => Text.stops_nil _, ?_⟩
      intro start
      rw [splitFrom]
      rfl
  | @word word gap behind words separate apart rest ih =>
      obtain ⟨own, others⟩ := List.forall_mem_cons.mp plain
      obtain ⟨front, later⟩ := ih others
      have gapEnds : Text.Stops isInner gap.reverse := by
        intro c last
        exact not_isInner_of_isSeparator
          (separate c (List.mem_reverse.mp (List.mem_of_mem_head? last)))
      have wordEnds : Text.Stops isInner (gap ++ front) := by
        cases gap with
        | nil =>
            have nothing : front ++ tail = [] := later.whole.symm.trans (apart rfl)
            rw [(List.append_eq_nil_iff.mp nothing).1]
            exact Text.stops_nil _
        | cons c more =>
            exact Text.stops_cons.mpr
              (not_isInner_of_isSeparator (separate c (List.mem_cons_self ..)))
      refine ⟨word ++ (gap ++ front), ?_, ?_, ?_, ?_⟩
      · rw [later.whole]
        simp only [List.append_assoc]
      · simp only [List.mem_append, not_or]
        exact ⟨own.unassigned, equals_notMem_of_separate separate, later.unassigned⟩
      · intro some
        rw [List.reverse_append, List.reverse_append]
        refine ((later.apart some).append fun _ => gapEnds).append fun nothing => ?_
        -- without a gap the tail would touch the last word
        obtain ⟨-, noGap⟩ := List.append_eq_nil_iff.mp nothing
        have nothing := apart (List.reverse_eq_nil_iff.mp noGap)
        rw [later.whole] at nothing
        exact absurd (List.append_eq_nil_iff.mp nothing).2 some
      · intro start
        rw [splitFrom_word start own.toSolid wordEnds, splitFrom_separators _ separate,
          List.map_cons, later.texts]

end Word

namespace Text

/-- Assignments as they stand behind words: nothing, or a name with an equals sign behind it and
whatever follows, without blanks around it. -/
def AssignmentTail (tail : Text) : Prop :=
  tail = [] ∨ trim tail = tail ∧ ∃ name gap value, tail = name ++ (gap ++ '=' :: value) ∧
    Word.Plain name ∧ ∀ c ∈ gap, isGap c = true

theorem AssignmentTail.trim_eq {tail : Text} (assigns : AssignmentTail tail) :
    trim tail = tail := by
  rcases assigns with rfl | ⟨trimmed, -⟩
  · rfl
  · exact trimmed

theorem parts_of_assignmentStart {text front back : Text} (whole : text = front ++ back)
    (start : assignmentStart text = byteSize front) :
    positional text = front ∧ assignments text = back := by
  rw [positional, assignments, start, whole, takeBytes_byteSize_append,
    dropBytes_byteSize_append]
  exact ⟨rfl, rfl⟩

end Text

namespace Word

/-- The words of a written text are read from the part before its assignments. -/
theorem Written.parts {tail text : Text} {words : List Text} (written : Written tail words text)
    (plain : ∀ word ∈ words, Plain word) (assigns : Text.AssignmentTail tail) :
    (split (Text.positional text)).map Word.text = words ∧ Text.assignments text = tail := by
  obtain ⟨front, read⟩ := written.exists_front plain
  have start : Text.assignmentStart text = Text.byteSize front := by
    rcases assigns with rfl | ⟨-, name, gap, value, rfl, named, gaps⟩
    · have whole := read.whole
      rw [List.append_nil] at whole
      rw [whole]
      exact Text.assignmentStart_of_notMem read.unassigned
    · have some : name ++ (gap ++ '=' :: value) ≠ [] := by simp
      have noGap : '=' ∉ gap := by
        intro member
        exact absurd (gaps '=' member) (by decide)
      have cut : Text.AssignmentCut text front name gap value := by
        refine ⟨read.whole, ?_, read.apart some, named.inner, gaps, ?_⟩
        · simp only [List.mem_append, not_or]
          exact ⟨read.unassigned, named.unassigned, noGap⟩
        · intro nothing
          exact absurd nothing named.nonempty
      exact cut.assignmentStart_eq
  obtain ⟨front_eq, tail_eq⟩ := Text.parts_of_assignmentStart read.whole start
  rw [front_eq, tail_eq]
  exact ⟨read.texts 0, rfl⟩

theorem filter_operands {words : List Text} (operands : ∀ word ∈ words, Operand word)
    {introducer : Option Text} (introducing : ∀ word ∈ introducer, introduces word = true) :
    (words ++ introducer.toList).filter (fun word => !introduces word) = words := by
  have kept : words.filter (fun word => !introduces word) = words := by
    refine List.filter_eq_self.mpr fun word member => ?_
    rw [(operands word member).named]
    rfl
  have dropped : introducer.toList.filter (fun word => !introduces word) = [] := by
    refine List.filter_eq_nil_iff.mpr fun word member => ?_
    rw [introducing word (Option.mem_toList.mp member)]
    decide
  rw [List.filter_append, kept, dropped, List.append_nil]

theorem plain_append {words : List Text} (operands : ∀ word ∈ words, Operand word)
    {introducer : Option Text} (introducing : ∀ word ∈ introducer, introduces word = true) :
    ∀ word ∈ words ++ introducer.toList, Plain word := by
  intro word member
  rcases List.mem_append.mp member with among | last
  · exact (operands word among).toPlain
  · exact plain_of_introduces (introducing word (Option.mem_toList.mp last))

end Word

namespace Header

/-- A header is read unless every word behind the keyword only introduces assignments. -/
theorem ofCard_eq_error_iff (card : Card) (fault : Fault) :
    ofCard card = .error fault ↔ fault = .missingName card.keyword ∧
      ∀ word ∈ (Word.split (Text.positional card.text)).drop 1,
        Word.introduces word.text = true := by
  have nameless : read? card.text = none ↔
      ∀ word ∈ (Word.split (Text.positional card.text)).drop 1,
        Word.introduces word.text = true := by
    unfold read?
    split
    next nothing =>
      rw [Word.operands, List.filter_eq_nil_iff, List.forall_mem_map] at nothing
      simpa using nothing
    next name formals some =>
      constructor
      · intro impossible
        cases impossible
      · intro all
        have member : name ∈ Word.operands ((Word.split (Text.positional card.text)).drop 1) :=
          some ▸ List.mem_cons_self ..
        obtain ⟨listed, meant⟩ := List.mem_filter.mp member
        obtain ⟨word, inside, rfl⟩ := List.mem_map.mp listed
        rw [all word inside] at meant
        cases meant
  rw [← nameless, ofCard]
  cases read? card.text with
  | none => simp [eq_comm]
  | some header => simp

end Header

/-- A call is read back as it was written: words that mean something, with blanks and commas
between them, perhaps a word that introduces assignments, and these.  So is the header of a
definition.  No header is read only where no word behind the keyword means anything. -/
theorem calls_and_headers_read_back :
    (∀ (inst : Text) (actuals : List Text) (subcircuit : Text) (introducer : Option Text)
      (tail text : Text), Word.Operand inst → (∀ actual ∈ actuals, Word.Operand actual) →
      Word.Operand subcircuit → (∀ word ∈ introducer, Word.introduces word = true) →
      Text.AssignmentTail tail →
      Word.Written tail (inst :: (actuals ++ subcircuit :: introducer.toList)) text →
      Call.read? text = some ⟨inst, actuals, subcircuit, tail⟩) ∧
    (∀ (keyword name : Text) (formals : List Text) (introducer : Option Text) (tail : Text)
      (card : Card), Word.Plain keyword → Word.Operand name →
      (∀ formal ∈ formals, Word.Operand formal) →
      (∀ word ∈ introducer, Word.introduces word = true) → Text.AssignmentTail tail →
      Word.Written tail (keyword :: name :: (formals ++ introducer.toList)) card.text →
      Header.ofCard card = .ok ⟨name, formals, .ofAssignments tail⟩) ∧
    (∀ (card : Card) (fault : Fault), Header.ofCard card = .error fault ↔
      fault = .missingName card.keyword ∧
        ∀ word ∈ (Word.split (Text.positional card.text)).drop 1,
          Word.introduces word.text = true) := by
  refine ⟨?_, ?_, Header.ofCard_eq_error_iff⟩
  · intro inst actuals subcircuit introducer tail text own others target introducing assigns written
    have operands : ∀ word ∈ inst :: (actuals ++ [subcircuit]), Word.Operand word := by
      refine List.forall_mem_cons.mpr ⟨own, List.forall_mem_append.mpr ⟨others, ?_⟩⟩
      exact List.forall_mem_singleton.mpr target
    have shape : inst :: (actuals ++ subcircuit :: introducer.toList) =
        (inst :: (actuals ++ [subcircuit])) ++ introducer.toList := by simp
    rw [shape] at written
    obtain ⟨words, rest⟩ := written.parts (Word.plain_append operands introducing) assigns
    have read : Word.operands (Word.split (Text.positional text)) =
        inst :: (actuals ++ [subcircuit]) := by
      rw [Word.operands, words, Word.filter_operands operands introducing]
    rw [Call.read?, read, rest, assigns.trim_eq]
    simp
  · intro keyword name formals introducer tail card key own others introducing assigns written
    have operands : ∀ word ∈ name :: formals, Word.Operand word :=
      List.forall_mem_cons.mpr ⟨own, others⟩
    have plain : ∀ word ∈ keyword :: ((name :: formals) ++ introducer.toList), Word.Plain word :=
      List.forall_mem_cons.mpr ⟨key, Word.plain_append operands introducing⟩
    obtain ⟨words, rest⟩ := written.parts plain assigns
    have read : Word.operands ((Word.split (Text.positional card.text)).drop 1) =
        name :: formals := by
      rw [Word.operands, List.map_drop, words]
      exact Word.filter_operands operands introducing
    rw [Header.ofCard, Header.read?, read, rest]

/-- A call with commas, a tab and a wide blank between its words, and a header with an introducing
word. -/
theorem calls_and_headers_read_back_mixed :
    Call.read? "x1 a,\tb ,\u00a0inv PARAMS:, w = \x7ba b\x7d" =
        some ⟨"x1", ["a", "b"], "inv", "w = \x7ba b\x7d"⟩ ∧
      Header.ofCard { text := ".subckt amp,in out params: gain=2 bw = 1k" } =
        .ok ⟨"amp", ["in", "out"], .ofAssignments "gain=2 bw = 1k"⟩ ∧
      Header.ofCard { text := ".subckt Params: w=2" } = .error (.missingName ".subckt") := by
  obtain ⟨calls, headers, nameless⟩ := calls_and_headers_read_back
  refine ⟨?_, ?_, ?_⟩
  · have shape : "x1 a,\tb ,\u00a0inv PARAMS:, w = \x7ba b\x7d".toList =
        "x1".toList ++ (" ".toList ++ ("a".toList ++ (",\t".toList ++ ("b".toList ++
          (" ,\u00a0".toList ++ ("inv".toList ++ (" ".toList ++ ("PARAMS:".toList ++
            (", ".toList ++ "w = \x7ba b\x7d".toList))))))))) := by decide
    refine calls "x1" ["a", "b"] "inv" (some "PARAMS:") _ _ (by decide) (by decide) (by decide)
      (by decide) (.inr ⟨by decide, "w", " ", " \x7ba b\x7d", by decide, ?_,
        List.all_eq_true.mp rfl⟩) ?_
    · exact (by decide : Word.Operand "w").toPlain
    · rw [shape]
      exact .word (List.all_eq_true.mp rfl) (by decide) (.word (List.all_eq_true.mp rfl)
        (by decide) (.word (List.all_eq_true.mp rfl) (by decide) (.word (List.all_eq_true.mp rfl)
          (by decide) (.word (List.all_eq_true.mp rfl) (by decide) .tail))))
  · have shape : ".subckt amp,in out params: gain=2 bw = 1k".toList =
        ".subckt".toList ++ (" ".toList ++ ("amp".toList ++ (",".toList ++ ("in".toList ++
          (" ".toList ++ ("out".toList ++ (" ".toList ++ ("params:".toList ++
            (" ".toList ++ "gain=2 bw = 1k".toList))))))))) := by decide
    refine headers ".subckt" "amp" ["in", "out"] (some "params:") _ _
      (by decide : Word.Operand ".subckt").toPlain (by decide) (by decide) (by decide)
      (.inr ⟨by decide, "gain", "", "2 bw = 1k", by decide, ?_, List.all_eq_true.mp rfl⟩) ?_
    · exact (by decide : Word.Operand "gain").toPlain
    · show Word.Written _ _ ".subckt amp,in out params: gain=2 bw = 1k".toList
      rw [shape]
      exact .word (List.all_eq_true.mp rfl) (by decide) (.word (List.all_eq_true.mp rfl)
        (by decide) (.word (List.all_eq_true.mp rfl) (by decide) (.word (List.all_eq_true.mp rfl)
          (by decide) (.word (List.all_eq_true.mp rfl) (by decide) .tail))))
  · exact (nameless _ _).mpr ⟨by decide, by decide +kernel⟩

end Netlist

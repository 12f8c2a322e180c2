import Netlist.Proofs.NestedRoles

/-!
# Byte positions

Statements are cut at byte positions that are found beforehand: where a word
starts or stops, where the assignments begin, where the nodes of a device end.
A text can be cut between two characters only, so a position that lies inside a
character or behind the end is of no use.  The words of a text are its longest
runs of inner characters, the assignments begin at the name before the first
equals sign, the nodes end with a word, and whatever reads or rewrites a
statement cuts it at one of these places.
-/

namespace Netlist

namespace Text

/-! ## Cuts -/

/-- The two sides of a byte position.  Inside a character and behind the end there is no cut. -/
def cut? : (place : Nat) → Text → Option (Text × Text)
  | 0, text => some ([], text)
  | _ + 1, [] => none
  | place + 1, first :: rest =>
      if first.utf8Size ≤ place + 1 then
        (cut? (place + 1 - first.utf8Size) rest).map fun sides => (first :: sides.1, sides.2)
      else none

/-- The text between two byte positions, if the text can be cut at both of them. -/
def slice? (start stop : Nat) (text : Text) : Option Text :=
  (cut? stop text).bind fun sides => (cut? start sides.1).map Prod.snd

theorem cut?_cons (place : Nat) (first : Char) (rest : Text) :
    cut? (first.utf8Size + place) (first :: rest) =
      (cut? place rest).map fun sides => (first :: sides.1, sides.2) := by
  obtain ⟨size, same⟩ := Nat.exists_eq_succ_of_ne_zero (Nat.ne_of_gt first.utf8Size_pos)
  have shape : first.utf8Size + place = (size + place) + 1 := by omega
  have back : size + place + 1 - first.utf8Size = place := by omega
  rw [shape, cut?, if_pos (by omega), back]

@[simp] theorem cut?_byteSize_append (front back : Text) :
    cut? (byteSize front) (front ++ back) = some (front, back) := by
  induction front with
  | nil => cases back <;> rfl
  | cons first rest ih =>
      rw [byteSize_cons, List.cons_append, cut?_cons, ih]
      rfl

theorem eq_of_cut? {place : Nat} {text front back : Text}
    (cut : cut? place text = some (front, back)) :
    text = front ++ back ∧ place = byteSize front := by
  induction text generalizing place front with
  | nil =>
      cases place with
      | zero =>
          cases cut
          exact ⟨rfl, rfl⟩
      | succ place => cases cut
  | cons first rest ih =>
      cases place with
      | zero =>
          cases cut
          exact ⟨rfl, rfl⟩
      | succ place =>
          rw [cut?] at cut
          split at cut
          next fits =>
            obtain ⟨⟨before, behind⟩, later, same⟩ := Option.map_eq_some_iff.mp cut
            cases same
            obtain ⟨whole, size⟩ := ih later
            refine ⟨congrArg (first :: ·) whole, ?_⟩
            rw [byteSize_cons, ← size]
            omega
          · cases cut

theorem utf8ByteSize_ofList (text : Text) : (String.ofList text).utf8ByteSize = byteSize text := by
  induction text with
  | nil => simp
  | cons first rest ih => simp [ih]

/-- The positions of cuts are those of the string that the text spells. -/
theorem isSome_cut?_iff (place : Nat) (text : Text) :
    (cut? place text).isSome = true ↔ String.Pos.Raw.IsValid (String.ofList text) ⟨place⟩ := by
  rw [String.Pos.Raw.isValid_iff_exists_append, Option.isSome_iff_exists]
  constructor
  · rintro ⟨⟨front, back⟩, cut⟩
    obtain ⟨rfl, rfl⟩ := eq_of_cut? cut
    refine ⟨String.ofList front, String.ofList back, String.ofList_append, ?_⟩
    exact String.Pos.Raw.ext (utf8ByteSize_ofList front).symm
  · rintro ⟨front, back, whole, position⟩
    have parts : text = front.toList ++ back.toList := by
      rw [← String.toList_append, ← whole, String.toList_ofList]
    have size : place = byteSize front.toList := by
      rw [← utf8ByteSize_ofList, String.ofList_toList]
      exact congrArg String.Pos.Raw.byteIdx position
    exact ⟨(front.toList, back.toList), by rw [parts, size, cut?_byteSize_append]⟩

theorem slice?_append (front piece back : Text) :
    slice? (byteSize front) (byteSize (front ++ piece)) (front ++ (piece ++ back)) =
      some piece := by
  rw [slice?, ← List.append_assoc, cut?_byteSize_append]
  exact congrArg (Option.map Prod.snd) (cut?_byteSize_append front piece)

/-- Where a text can be cut, the cut separates what is taken from what is dropped. -/
theorem cut?_eq_takeBytes_dropBytes {place : Nat} {text front back : Text}
    (whole : text = front ++ back) (size : place = byteSize front) :
    cut? place text = some (takeBytes place text, dropBytes place text) := by
  rw [whole, size, cut?_byteSize_append, takeBytes_byteSize_append, dropBytes_byteSize_append]

end Text

/-! ## Words -/

namespace Word

/-- A longest run of inner characters: what stands before it and behind it does not extend it. -/
structure MaximalRun (start : Nat) (text : Text) (word : Word) (front back : Text) : Prop
    extends Cut start text word front back where
  begins : Text.Stops isInner front.reverse

/-- Something stands between the end of a word and the next word. -/
theorem Cut.front_ne_nil {start : Nat} {text : Text} {word : Word} {front back : Text}
    (cut : Cut start text word front back) (stops : Text.Stops isInner text) : front ≠ [] := by
  rintro rfl
  obtain ⟨c, rest, shape⟩ := List.exists_cons_of_ne_nil cut.solid.nonempty
  have inside := cut.solid.inner c (by rw [shape]; exact List.mem_cons_self ..)
  rw [cut.whole, shape, List.nil_append, List.cons_append, Text.stops_cons, inside] at stops
  cases stops

theorem exists_maximalRun {start : Nat} {text : Text} {word : Word}
    (member : word ∈ splitFrom start text) :
    ∃ front back, MaximalRun start text word front back := by
  induction found : splitFrom start text generalizing start text with
  | nil =>
      rw [found] at member
      cases member
  | cons first words ih =>
      obtain ⟨separators, behind, cut, separate, rest⟩ := split_cons found
      rw [found] at member
      rcases List.mem_cons.mp member with here | there
      · rw [here]
        refine ⟨separators, behind, cut, ?_⟩
        intro c last
        have inside := List.mem_reverse.mp (List.mem_of_mem_head? last)
        simp [isInner, separate c inside]
      · rw [rest] at there
        obtain ⟨front, back, run⟩ := ih there rest.symm
        have some := run.front_ne_nil cut.stops
        refine ⟨separators ++ (first.text ++ front), back,
          ⟨?_, ?_, run.solid, run.stops⟩, ?_⟩
        · rw [cut.whole, run.whole]
          simp only [List.append_assoc]
        · rw [run.start_eq, cut.stop_eq]
          simp only [Text.byteSize_append]
          omega
        · rw [← List.append_assoc, List.reverse_append]
          exact run.begins.append fun nothing => absurd (List.reverse_eq_nil_iff.mp nothing) some

/-- Words stand in the order of their texts, with something between them. -/
theorem pairwise_splitFrom (start : Nat) (text : Text) :
    (splitFrom start text).Pairwise fun first second => first.stop < second.start := by
  induction found : splitFrom start text generalizing start text with
  | nil => exact .nil
  | cons first words ih =>
      obtain ⟨separators, behind, cut, separate, rest⟩ := split_cons found
      refine List.pairwise_cons.mpr ⟨?_, ih _ _ rest.symm⟩
      intro word member
      rw [rest] at member
      obtain ⟨front, back, later⟩ := exists_cut member
      obtain ⟨c, more, rfl⟩ := List.exists_cons_of_ne_nil (later.front_ne_nil cut.stops)
      have wide := c.utf8Size_pos
      rw [later.start_eq, Text.byteSize_cons]
      omega

/-- A text that ends with a separator does not run into the words behind it. -/
theorem splitFrom_append (start : Nat) {front : Text} (ends : Text.Stops isInner front.reverse)
    (behind : Text) :
    splitFrom start (front ++ behind) =
      splitFrom start front ++ splitFrom (start + Text.byteSize front) behind := by
  induction start, front using splitFrom.induct with
  | case1 start => simp [splitFrom]
  | case2 start c rest separator ih =>
      rw [List.reverse_cons] at ends
      rw [List.cons_append, splitFrom, if_pos separator, splitFrom, if_pos separator,
        ih ends.of_append, Text.byteSize_cons, Nat.add_assoc]
  | case3 start c rest inner body ih =>
      have whole : c :: rest = body ++ rest.dropWhile isInner := by simp [body]
      have inside : ∀ d ∈ body, isInner d = true := by
        refine List.forall_mem_cons.mpr ⟨by simpa [isInner] using inner, ?_⟩
        intro d member
        exact Text.mem_takeWhile member
      -- the separator at the end keeps the first run inside the front
      have some : rest.dropWhile isInner ≠ [] := by
        intro nothing
        rw [whole, nothing, List.append_nil] at ends
        obtain ⟨d, more, reversed⟩ :=
          List.exists_cons_of_ne_nil (List.reverse_ne_nil_iff.mpr (List.cons_ne_nil c _))
        have last := inside d (List.mem_reverse.mp (reversed ▸ List.mem_cons_self ..))
        rw [reversed, Text.stops_cons, last] at ends
        cases ends
      have dropped : (rest ++ behind).dropWhile isInner = rest.dropWhile isInner ++ behind := by
        rw [List.dropWhile_append, if_neg (by simpa using some)]
      have taken : (rest ++ behind).takeWhile isInner = rest.takeWhile isInner := by
        have split := List.takeWhile_append_dropWhile (p := isInner) (l := rest ++ behind)
        have own := List.takeWhile_append_dropWhile (p := isInner) (l := rest)
        rw [dropped, ← List.append_assoc] at split
        exact List.append_cancel_right ((List.append_cancel_right split).trans own.symm)
      rw [whole, List.reverse_append] at ends
      rw [whole, Text.byteSize_append, ← Nat.add_assoc, ← whole, List.cons_append, splitFrom,
        if_neg inner, splitFrom, if_neg inner, taken, dropped]
      exact congrArg (_ :: ·) (ih ends.of_append)

/-- The words of a text are its longest runs of inner characters. -/
theorem mem_split_iff {text : Text} {word : Word} :
    word ∈ split text ↔ ∃ front back, MaximalRun 0 text word front back := by
  constructor
  · exact exists_maximalRun
  · rintro ⟨front, back, run⟩
    have place : word = ⟨word.text, 0 + Text.byteSize front⟩ := by
      rw [← run.start_eq]
    rw [split, run.whole, splitFrom_append 0 run.begins,
      splitFrom_word _ run.solid run.stops, ← place]
    exact List.mem_append_right _ (List.mem_cons_self ..)

end Word

/-! ## Assignments -/

namespace Text

/-- The blanks that may stand between a name and the equals sign behind it. -/
def isGap (c : Char) : Bool := c == ' ' || c == '\t'

/-- Where the assignments of a text begin: a name stands before the first equals sign, with spaces
and tabs at most between them, and the name begins the text or follows a separator.  The name is
empty only if there is none to be found. -/
structure AssignmentCut (text front name gap value : Text) : Prop where
  whole : text = front ++ (name ++ (gap ++ '=' :: value))
  first : '=' ∉ front ++ (name ++ gap)
  begins : Stops Word.isInner front.reverse
  inner : ∀ c ∈ name, Word.isInner c = true
  gaps : ∀ c ∈ gap, isGap c = true
  nearest : name = [] → Stops isGap front.reverse

theorem not_isInner_of_isGap {c : Char} (gap : isGap c = true) : Word.isInner c = false := by
  rcases Bool.or_eq_true_iff.mp gap with space | tab
  · rw [beq_iff_eq.mp space]
    decide
  · rw [beq_iff_eq.mp tab]
    decide

/-- The longest run at the end of a text, and what stands before it. -/
theorem exists_last_run (inner : Char → Bool) (text : Text) :
    ∃ front run, text = front ++ run ∧ (∀ c ∈ run, inner c = true) ∧
      Stops inner front.reverse := by
  refine ⟨(text.reverse.dropWhile inner).reverse, (text.reverse.takeWhile inner).reverse,
    ?_, ?_, ?_⟩
  · rw [← List.reverse_append, List.takeWhile_append_dropWhile, List.reverse_reverse]
  · intro c member
    exact mem_takeWhile (List.mem_reverse.mp member)
  · rw [List.reverse_reverse]
    exact stops_dropWhile inner _

theorem dropWhile_reverse_append {inner : Char → Bool} {front run : Text}
    (inside : ∀ c ∈ run, inner c = true) (stops : Stops inner front.reverse) :
    ((front ++ run).reverse.dropWhile inner).reverse = front := by
  have turned : ∀ c ∈ run.reverse, inner c = true := fun c member =>
    inside c (List.mem_reverse.mp member)
  rw [List.reverse_append, dropWhile_append_stops turned stops, List.reverse_reverse]

theorem exists_assignmentCut {text : Text} (assigns : '=' ∈ text) :
    ∃ front name gap value, AssignmentCut text front name gap value := by
  obtain ⟨head, value, rfl, absent⟩ := List.eq_append_cons_of_mem assigns
  obtain ⟨stem, gap, rfl, gaps, ends⟩ := exists_last_run isGap head
  obtain ⟨front, name, rfl, inner, begins⟩ := exists_last_run Word.isInner stem
  refine ⟨front, name, gap, value, ?_, ?_, begins, inner, gaps, ?_⟩
  · simp only [List.append_assoc]
  · rwa [← List.append_assoc]
  · rintro rfl
    rwa [List.append_nil] at ends

/-- A place where assignments begin is the one that is found. -/
theorem AssignmentCut.assignmentStart_eq {text front name gap value : Text}
    (cut : AssignmentCut text front name gap value) :
    assignmentStart text = byteSize front := by
  have found : beforeEquals? text = some (front ++ (name ++ gap)) := by
    have shape : text = (front ++ (name ++ gap)) ++ '=' :: value := by
      rw [cut.whole]
      simp only [List.append_assoc]
    rw [beforeEquals?, shape, Model.cutAt_append cut.first]
    rfl
  have ends : Stops isGap (front ++ name).reverse := by
    rw [List.reverse_append]
    cases reversed : name.reverse with
    | nil => exact cut.nearest (List.reverse_eq_nil_iff.mp reversed)
    | cons c rest =>
        have inside := cut.inner c (List.mem_reverse.mp (reversed ▸ List.mem_cons_self ..))
        refine stops_cons.mpr ?_
        cases gap : isGap c with
        | false => rfl
        | true =>
            rw [not_isInner_of_isGap gap] at inside
            cases inside
  have stem : dropTrailingTabs (front ++ (name ++ gap)) = front ++ name := by
    rw [← List.append_assoc]
    exact dropWhile_reverse_append cut.gaps ends
  have lead : throughLastSeparator (front ++ name) = front :=
    dropWhile_reverse_append cut.inner cut.begins
  rw [assignmentStart, found]
  dsimp only
  rw [stem, lead]

theorem assignmentStart_of_notMem {text : Text} (plain : '=' ∉ text) :
    assignmentStart text = byteSize text := by
  have nothing : beforeEquals? text = none := by
    cases found : cutAt '=' text with
    | none => rw [beforeEquals?, found]; rfl
    | some sides =>
        have whole := Model.eq_of_cutAt found
        exact absurd (whole ▸ List.mem_append_right _ (List.mem_cons_self ..)) plain
  rw [assignmentStart, nothing]

theorem cut?_assignmentStart (text : Text) :
    cut? (assignmentStart text) text = some (positional text, assignments text) := by
  by_cases assigns : '=' ∈ text
  · obtain ⟨front, name, gap, value, cut⟩ := exists_assignmentCut assigns
    exact cut?_eq_takeBytes_dropBytes cut.whole cut.assignmentStart_eq
  · exact cut?_eq_takeBytes_dropBytes (List.append_nil text).symm
      (assignmentStart_of_notMem assigns)

end Text

namespace Word

/-- A text can be cut in front of each of its words and behind it. -/
theorem cut?_of_mem {text : Text} {word : Word} (member : word ∈ split text) :
    Text.cut? word.start text =
        some (Text.takeBytes word.start text, Text.dropBytes word.start text) ∧
      Text.cut? word.stop text =
        some (Text.takeBytes word.stop text, Text.dropBytes word.stop text) := by
  obtain ⟨front, back, cut⟩ := exists_cut member
  have start := cut.start_eq
  have stop := cut.stop_eq
  rw [Nat.zero_add] at start stop
  refine ⟨Text.cut?_eq_takeBytes_dropBytes cut.whole start,
    Text.cut?_eq_takeBytes_dropBytes (cut.whole.trans (List.append_assoc ..).symm) stop⟩

theorem slice?_of_mem {text : Text} {word : Word} (member : word ∈ split text) :
    Text.slice? word.start word.stop text = some word.text := by
  obtain ⟨front, back, cut⟩ := exists_cut member
  have start := cut.start_eq
  have stop := cut.stop_eq
  rw [Nat.zero_add] at start stop
  rw [start, stop, cut.whole, Text.slice?_append]

end Word

/-! ## Device lines -/

namespace DeviceLine

variable {policy : CasePolicy} {scopes : Scopes policy} {kind : DeviceKind}

/-- The nodes of a line end with its last word of that kind; a line without words is all there
is. -/
theorem nodeSpan_cases (catalog : Catalog) (text : Text) :
    (Word.split text = [] ∧ nodeSpan catalog text = Text.byteSize text) ∨
      ∃ word ∈ Word.split text, nodeSpan catalog text = word.stop := by
  unfold nodeSpan
  cases parts : Word.split text with
  | nil => exact .inl ⟨rfl, rfl⟩
  | cons name rest =>
      right
      dsimp only
      split
      · exact ⟨name, List.mem_cons_self .., rfl⟩
      next kind _ =>
        rcases nodeStop_cases name.stop kind.passedNodes rest with here | ⟨word, member, there⟩
        · exact ⟨name, List.mem_cons_self .., here⟩
        · exact ⟨word, List.mem_cons_of_mem _ member, there⟩

theorem suffix_nodeRun {count : Nat} {words : List Word} {run : Run}
    (read : nodeRun scopes kind count words = .ok run) : run.rest <:+ words := by
  induction words generalizing count run with
  | nil =>
      cases read
      exact List.suffix_refl []
  | cons first rest ih =>
      rw [nodeRun] at read
      split at read
      · cases read
        exact List.suffix_refl _
      next going =>
        rw [Bool.or_eq_true, not_or] at going
        split at read
        next marked =>
          split at read
          · cases read
          next part words split =>
            cases read
            obtain ⟨dimension, names, rfl⟩ := exists_controls_of_splitPoly split
            have poly : PolyRead .node first rest dimension names words :=
              ⟨Bool.not_eq_true _ ▸ going.2, marked, split⟩
            exact poly.facts.2.2.2.trans (List.suffix_cons first rest)
        · split at read
          · cases read
          · cases read
            exact List.suffix_cons first rest
          · split at read
            · cases read
            next run readLater =>
              cases read
              exact (ih readLater).trans (List.suffix_cons first rest)

theorem ReferencesRead.suffix {count : Nat} {words behind : List Word} {parts : List Part}
    (read : ReferencesRead count words parts behind) : behind <:+ words := by
  cases read with
  | names whole => exact whole ▸ List.suffix_append _ _
  | poly whole _ _ poly =>
      rw [whole]
      exact (poly.facts.2.2.2.trans (List.suffix_cons _ _)).trans (List.suffix_append _ _)

theorem ModelRead.suffix {behind : List Word} {tail : Layout}
    (read : ModelRead scopes behind tail) : tail.rest <:+ behind := by
  cases read with
  | nothing => exact List.suffix_refl _
  | model => exact List.suffix_cons _ _

/-- The words that are left as parameters are the last words of the line. -/
theorem suffix_layout {strict : Bool} {known : Option DeviceKind} {name : Text}
    {words : List Word} {laid : Layout}
    (read : layout strict scopes known name words = .ok laid) : laid.rest <:+ words := by
  unfold layout at read
  split at read
  · -- without a kind there is a value at most, as for a kind without a model
    have value : modelLayout strict scopes Catalog.twoTerminal name words = .ok laid := read
    exact (modelRead_of_modelLayout value).suffix
  next kind =>
    split at read
    · cases read
    next run ran =>
      split at read
      · cases read
      next later laidOut =>
        cases read
        refine List.IsSuffix.trans ?_ (suffix_nodeRun ran)
        unfold behindNodes at laidOut
        split at laidOut
        · cases laidOut
          exact List.suffix_refl _
        · exact (modelRead_of_modelLayout laidOut).suffix
        · split at laidOut
          · cases laidOut
          next parts words references =>
            split at laidOut
            · cases laidOut
            next tail modelLaid =>
              cases laidOut
              exact (modelRead_of_modelLayout modelLaid).suffix.trans
                (referencesRead_of_referenceRun references).suffix

end DeviceLine

/-! ## Cuts of statements -/

/-- Every cut that is made when a statement is read or rewritten is there, and what becomes of the
statement is put together from its two sides. -/
structure CleanCuts (catalog : Catalog) (text : Text) : Prop where
  /-- Calls and headers are read from the words in front of the assignments and from these. -/
  assignments : Text.cut? (Text.assignmentStart text) text =
    some (Text.positional text, Text.assignments text)
  /-- Substitution in a statement cuts behind the blanks in front and behind the first word. -/
  line (params : ParamTable) : ∃ lead blanks head tail,
    lead + Text.byteSize (Text.trimStart text) = Text.byteSize text ∧
    Text.cut? lead text = some (blanks, Text.trimStart text) ∧
    Text.cut? (lead + Text.byteSize (Text.firstWord text)) text = some (head, tail) ∧
    params.substituteLine text = head ++ params.substitute tail
  /-- At the top level a model is cut behind its name and a device behind its nodes. -/
  top (config : Config) (params : ParamTable) :
    Expansion.substituteTop config catalog params text = text ∨
    Expansion.substituteTop config catalog params text = params.substituteLine text ∨
    ∃ place head tail,
      (place = DeviceLine.nodeSpan catalog text ∨
        ∃ name, (Word.split text)[1]? = some name ∧ place = name.stop) ∧
      Text.cut? place text = some (head, tail) ∧
      Expansion.substituteTop config catalog params text = head ++ params.substitute tail
  /-- A model that is renamed is cut behind its name. -/
  model {config : Config} (renamer : Renamer config) {name image line : Text}
    (renamed : renamer.modelLine? text = some (name, image, line)) :
    ∃ keyword word words head tail, Word.split text = keyword :: word :: words ∧
      Text.cut? word.stop text = some (head, tail) ∧
      line = keyword.text ++ " " ++ image ++ renamer.params.substitute tail
  /-- A device that is renamed is cut in front of its parameters, or at its end. -/
  device {config : Config} (renamer : Renamer config) {scopes : Scopes config.casePolicy}
    {line : Text} (renamed : renamer.deviceLine scopes text = .ok line) :
    (Word.split text = [] ∧ line = text) ∨
    ∃ place front tail head,
      (place = Text.byteSize text ∨ ∃ word ∈ Word.split text, place = word.start) ∧
      Text.cut? place text = some (front, tail) ∧
      line = Renamer.assemble head (renamer.finish (renamer.params.substitute tail))
  /-- The dimension of a polynomial is cut off behind its parenthesis. -/
  dimension {word : Word} (member : word ∈ Word.split text) {inner : Text}
    (given : DeviceLine.innerDimension? word.text = some inner) :
    ∃ mark behind, '(' ∉ mark ∧
      Text.cut? (Text.byteSize mark + 1) word.text = some (mark ++ ['('], behind) ∧
      inner = Text.trim (DeviceLine.dropClosing behind)

theorem cut?_nodeSpan (catalog : Catalog) (text : Text) :
    let place := DeviceLine.nodeSpan catalog text
    Text.cut? place text = some (Text.takeBytes place text, Text.dropBytes place text) := by
  intro place
  rcases DeviceLine.nodeSpan_cases catalog text with ⟨-, whole⟩ | ⟨word, member, stop⟩
  · exact Text.cut?_eq_takeBytes_dropBytes (List.append_nil text).symm whole
  · have cut := (Word.cut?_of_mem member).2
    rwa [← stop] at cut

theorem cleanCuts (catalog : Catalog) (text : Text) : CleanCuts catalog text where
  assignments := Text.cut?_assignmentStart text
  line params := by
    have whole := Text.blanks_append_trimStart text
    have word : Text.firstWord text ++ ((Text.trimStart text).dropWhile fun c => !isBlank c) =
        Text.trimStart text := List.takeWhile_append_dropWhile
    refine ⟨Text.byteSize (text.takeWhile isBlank), text.takeWhile isBlank,
      text.takeWhile isBlank ++ Text.firstWord text,
      (Text.trimStart text).dropWhile fun c => !isBlank c, ?_, ?_, ?_, rfl⟩
    · rw [← Text.byteSize_append, whole]
    · have cut := Text.cut?_byteSize_append (text.takeWhile isBlank) (Text.trimStart text)
      rwa [whole] at cut
    · have cut := Text.cut?_byteSize_append (text.takeWhile isBlank ++ Text.firstWord text)
        ((Text.trimStart text).dropWhile fun c => !isBlank c)
      rwa [List.append_assoc, word, whole, Text.byteSize_append] at cut
  top config params := by
    unfold Expansion.substituteTop
    dsimp only
    generalize node : DeviceLine.nodeSpan catalog text = place
    have cut := cut?_nodeSpan catalog text
    rw [node] at cut
    split
    · exact .inl rfl
    right
    split
    · split
      next name second =>
        have member : name ∈ Word.split text := List.mem_of_getElem? second
        exact .inr ⟨_, _, _, .inr ⟨name, second, rfl⟩, (Word.cut?_of_mem member).2, rfl⟩
      · split
        · exact .inl rfl
        · exact .inr ⟨place, _, _, .inl rfl, cut, rfl⟩
    · split
      · exact .inl rfl
      · exact .inr ⟨place, _, _, .inl rfl, cut, rfl⟩
  model renamer name image line renamed := by
    unfold Renamer.modelLine? at renamed
    split at renamed
    next keyword word words parts =>
      cases renamed
      have member : word ∈ Word.split text :=
        parts ▸ List.mem_cons_of_mem _ (List.mem_cons_self ..)
      exact ⟨keyword, word, words, _, _, parts, (Word.cut?_of_mem member).2, rfl⟩
    · cases renamed
  device renamer scopes line renamed := by
    cases parts : Word.split text with
    | nil =>
        left
        unfold Renamer.deviceLine at renamed
        rw [parts] at renamed
        cases renamed
        exact ⟨rfl, rfl⟩
    | cons name words =>
        right
        obtain ⟨laid, read, rfl⟩ := Renamer.exists_layout_of_deviceLine parts renamed
        unfold Renamer.tail
        cases rest : laid.rest with
        | nil =>
            have cut := Text.cut?_byteSize_append text []
            rw [List.append_nil] at cut
            exact ⟨_, text, [], _, .inl rfl, cut, rfl⟩
        | cons first more =>
            have last := (DeviceLine.suffix_layout read).subset (rest ▸ List.mem_cons_self ..)
            have member := List.mem_cons_of_mem name last
            exact ⟨_, _, _, _, .inr ⟨first, member, rfl⟩,
              (Word.cut?_of_mem (parts ▸ member)).1, rfl⟩
  dimension _ inner given := by
    obtain ⟨⟨front, behind⟩, found, rfl⟩ := Option.map_eq_some_iff.mp given
    have whole := Model.eq_of_cutAt found
    have opens := List.mem_append_right front (List.mem_cons_self (a := '(') (l := behind))
    rw [← whole] at opens
    obtain ⟨mark, rest, shape, absent⟩ := List.eq_append_cons_of_mem opens
    rw [shape, Model.cutAt_append absent] at found
    cases found
    refine ⟨front, behind, absent, ?_, rfl⟩
    have cut := Text.cut?_byteSize_append (front ++ ['(']) behind
    rw [List.append_assoc, Text.byteSize_append] at cut
    rw [shape]
    exact cut

/-- Positions are found between two characters.  A text can be cut just at the positions that its
spelling has as a string.  Its words are its longest runs of inner characters, in order, each the
slice between its own positions.  Assignments begin at the name before the first equals sign, if
there is one; nodes end with a word.  So every cut is there that calls, headers, substitution and
renaming make. -/
theorem positions_between_characters (catalog : Catalog) (text : Text) :
    (∀ place, (Text.cut? place text).isSome = true ↔
      String.Pos.Raw.IsValid (String.ofList text) ⟨place⟩) ∧
    ((∀ word, word ∈ Word.split text ↔ ∃ front back, Word.MaximalRun 0 text word front back) ∧
      (Word.split text).Pairwise (fun first second => first.stop < second.start) ∧
      ∀ word ∈ Word.split text, Text.slice? word.start word.stop text = some word.text) ∧
    (('=' ∉ text → Text.assignmentStart text = Text.byteSize text) ∧
      ('=' ∈ text → ∃ front name gap value, Text.AssignmentCut text front name gap value ∧
        Text.assignmentStart text = Text.byteSize front)) ∧
    ((Word.split text = [] ∧ DeviceLine.nodeSpan catalog text = Text.byteSize text) ∨
      ∃ word ∈ Word.split text, DeviceLine.nodeSpan catalog text = word.stop) ∧
    CleanCuts catalog text := by
  refine ⟨fun place => Text.isSome_cut?_iff place text, ⟨fun word => Word.mem_split_iff,
    Word.pairwise_splitFrom 0 text, fun word member => Word.slice?_of_mem member⟩,
    ⟨Text.assignmentStart_of_notMem, ?_⟩, DeviceLine.nodeSpan_cases catalog text,
    cleanCuts catalog text⟩
  intro assigns
  obtain ⟨front, name, gap, value, cut⟩ := Text.exists_assignmentCut assigns
  exact ⟨front, name, gap, value, cut, cut.assignmentStart_eq⟩

end Netlist

import Netlist.Expansion
import Netlist.Proofs.Leading

/-!
# Keywords under rewriting

A statement is rewritten when its body is renamed and when parameters are
substituted in it.  A device keeps the first letter of its name, a model
statement keeps its keyword, and any other control statement keeps its keyword
as far as directives are concerned: it spells a directive afterwards just in
case it did before.
-/

namespace Netlist

namespace Text

/-- The texts agree up to the first character that is no letter, and in that character. -/
def AgreePastLetters (first second : Text) : Prop :=
  ∃ front back other, first = front ++ back ∧ second = front ++ other ∧
    other.head? = back.head? ∧ Stops Char.isAlpha back

theorem toLower_of_not_isAlpha {c : Char} (other : c.isAlpha = false) : c.toLower = c := by
  have notUpper := (Bool.or_eq_false_iff.mp other).1
  unfold Char.toLower
  split
  next upper =>
    have bounds : c.isUpper = true := decide_eq_true upper
    rw [bounds] at notUpper
    cases notUpper
  · rfl

theorem isAlpha_of_sameLetters {letters word : Text}
    (alphabetic : ∀ c ∈ letters, c.toLower.isAlpha = true)
    (same : sameLetters letters word = true) : ∀ c ∈ word, c.isAlpha = true := by
  induction letters generalizing word with
  | nil =>
      cases word with
      | nil => simp
      | cons c rest => cases same
  | cons letter letters ih =>
      cases word with
      | nil => cases same
      | cons c rest =>
          simp only [sameLetters, Bool.and_eq_true, beq_iff_eq] at same
          intro d member
          rcases List.mem_cons.mp member with here | there
          · have lowered := alphabetic letter (List.mem_cons_self ..)
            rw [same.1] at lowered
            cases alpha : c.isAlpha with
            | true => rw [here, alpha]
            | false =>
                rw [toLower_of_not_isAlpha alpha, alpha] at lowered
                cases lowered
          · exact ih (fun e found => alphabetic e (List.mem_cons_of_mem _ found))
              same.2 d there

/-- The first plain word behind a point. -/
def solidRun (text : Text) : Text := text.takeWhile fun c => !isBlank c

/-- Agreement past the letters decides which words of letters are spelled. -/
theorem AgreePastLetters.sameLetters_solidRun {first second : Text}
    (agree : AgreePastLetters first second) {letters : Text}
    (alphabetic : ∀ c ∈ letters, c.toLower.isAlpha = true) :
    sameLetters letters (solidRun second) = sameLetters letters (solidRun first) := by
  obtain ⟨front, back, other, rfl, rfl, heads, stops⟩ := agree
  unfold solidRun
  rw [List.takeWhile_append, List.takeWhile_append]
  split
  next solid =>
    cases back with
    | nil =>
        have nothing : other = [] := List.head?_eq_none_iff.mp heads
        rw [nothing]
    | cons c rest =>
        obtain ⟨tail, rfl⟩ := List.head?_eq_some_iff.mp heads
        by_cases blank : isBlank c = true
        · simp [blank]
        · -- a character that is neither blank nor a letter spoils both words
          have other := stops_cons.mp stops
          have spoiled (run : Text) : sameLetters letters (front ++ c :: run) = false := by
            cases same : sameLetters letters (front ++ c :: run) with
            | false => rfl
            | true =>
                have alpha := isAlpha_of_sameLetters alphabetic same c (by simp)
                rw [other] at alpha
                cases alpha
          simp only [List.takeWhile_cons, blank, Bool.not_false, if_true, spoiled]
  · rfl

/-- Blanks, a point and something behind it. -/
structure PointLed (text rest : Text) : Prop where
  shape : ∃ blanks, text = blanks ++ '.' :: rest ∧ ∀ c ∈ blanks, isBlank c = true

theorem PointLed.firstWord_eq {text rest : Text} (led : PointLed text rest) :
    firstWord text = '.' :: solidRun rest := by
  obtain ⟨blanks, rfl, blank⟩ := led.shape
  have solid : isBlank '.' = false := by decide
  have front : Stops isBlank ('.' :: rest) := stops_cons.mpr solid
  unfold firstWord
  rw [trimStart_append blank, trimStart_of_stops front,
    List.takeWhile_cons_of_pos (by simp [solid])]
  rfl

theorem exists_pointLed {text : Text} (point : (firstWord text).head? = some '.') :
    ∃ rest, PointLed text rest := by
  rw [head?_firstWord] at point
  obtain ⟨rest, trimmed⟩ := List.head?_eq_some_iff.mp point
  refine ⟨rest, text.takeWhile isBlank, ?_, fun c member => mem_takeWhile member⟩
  rw [← trimmed, blanks_append_trimStart]

/-- The image is led by a point as well, and spells the same directives. -/
structure SpellsAlike (text image : Text) : Prop where
  point : (firstWord image).head? = some '.'
  spells : ∀ letters : Text, (∀ c ∈ letters, c.toLower.isAlpha = true) →
    sameLetters ('.' :: letters) (firstWord image) =
      sameLetters ('.' :: letters) (firstWord text)

theorem SpellsAlike.trans {first second third : Text} (left : SpellsAlike first second)
    (right : SpellsAlike second third) : SpellsAlike first third := by
  refine ⟨right.point, ?_⟩
  intro letters alphabetic
  rw [right.spells letters alphabetic, left.spells letters alphabetic]

theorem spellsAlike_of_firstWord {text image : Text} (point : (firstWord text).head? = some '.')
    (same : firstWord image = firstWord text) : SpellsAlike text image := by
  refine ⟨same ▸ point, ?_⟩
  intro letters _
  rw [same]

theorem PointLed.spellsAlike {text rest image other : Text} (led : PointLed text rest)
    (leads : PointLed image other) (agree : AgreePastLetters rest other) :
    SpellsAlike text image := by
  refine ⟨by rw [leads.firstWord_eq]; rfl, ?_⟩
  intro letters alphabetic
  rw [leads.firstWord_eq, led.firstWord_eq]
  simp only [sameLetters, agree.sameLetters_solidRun alphabetic]

end Text

/-! ## The tokens in front -/

namespace Token

theorem kindFrom_of_isAlpha {c : Char} (letter : c.isAlpha = true) (rest : Text) :
    kindFrom c rest = .ident := by
  simp [kindFrom, not_isBlank_of_isAlpha letter, startsIdent_of_isAlpha letter]

theorem not_isAlpha_of_isDigit {c : Char} (digit : c.isDigit = true) : c.isAlpha = false := by
  cases letter : c.isAlpha with
  | false => rfl
  | true =>
      have letters := bounds_of_isAlpha letter
      have digits := bounds_of_isDigit digit
      omega

theorem stops_isAlpha_of_continuesIdent {text : Text}
    (stops : Text.Stops continuesIdent text) : Text.Stops Char.isAlpha text := by
  intro c found
  cases letter : c.isAlpha with
  | false => rfl
  | true =>
      have outside := stops c found
      rw [continuesIdent_of_startsIdent (startsIdent_of_isAlpha letter)] at outside
      cases outside

theorem stops_startsIdent_of_continuesIdent {text : Text}
    (stops : Text.Stops continuesIdent text) : Text.Stops startsIdent text := by
  intro c found
  cases starts : startsIdent c with
  | false => rfl
  | true =>
      have outside := stops c found
      rw [continuesIdent_of_startsIdent starts] at outside
      cases outside

/-- The image copies the first token, and behind an identifier the next character too. -/
inductive CopiesFirst : Text → Text → Prop where
  | nil : CopiesFirst [] []
  | cons (c : Char) (rest back : Text)
      (next : kindFrom c rest = .ident →
        back.head? = (tailOf (kindFrom c rest) rest).2.head?) :
      CopiesFirst (c :: rest) ((c :: (tailOf (kindFrom c rest) rest).1) ++ back)

theorem CopiesFirst.agree {text image : Text} (copies : CopiesFirst text image) :
    Text.AgreePastLetters text image := by
  cases copies with
  | nil => exact ⟨[], [], [], rfl, rfl, rfl, Text.stops_nil _⟩
  | cons c rest back next =>
      by_cases letter : c.isAlpha = true
      · have kind := kindFrom_of_isAlpha letter rest
        rw [kind] at next ⊢
        refine ⟨c :: (tailOf .ident rest).1, (tailOf .ident rest).2, back, ?_, rfl, next rfl, ?_⟩
        · rw [List.cons_append, tailOf_append]
        · exact stops_isAlpha_of_continuesIdent (Text.stops_dropWhile _ _)
      · refine ⟨[], c :: rest, _, rfl, rfl, rfl, ?_⟩
        exact Text.stops_cons.mpr (by simpa using letter)

/-- A point is copied with what follows it, up to the first character that is no letter. -/
theorem agree_behind_point {rest back : Text}
    (next : kindFrom '.' rest = .punct → CopiesFirst rest back) :
    ∃ other, ('.' :: (tailOf (kindFrom '.' rest) rest).1) ++ back = '.' :: other ∧
      Text.AgreePastLetters rest other := by
  refine ⟨(tailOf (kindFrom '.' rest) rest).1 ++ back, rfl, ?_⟩
  rw [kindFrom_point] at next ⊢
  split
  next opens =>
    -- a digit follows, and it belongs to the number that the point starts
    cases rest with
    | nil => cases opens
    | cons d more =>
        have digit : d.isDigit = true := opens
        have mantissa : inMantissa d = true := by simp [inMantissa, digit]
        refine ⟨[], d :: more, _, rfl, rfl, ?_,
          Text.stops_cons.mpr (not_isAlpha_of_isDigit digit)⟩
        simp [tailOf, numberTail, mantissa]
  next opens =>
    rw [if_neg opens] at next
    exact (next rfl).agree

theorem tailOf_space {blanks : Text} (blank : ∀ c ∈ blanks, isBlank c = true) (rest : Text) :
    tailOf .space (blanks ++ '.' :: rest) = (blanks, '.' :: rest) := by
  have stops : Text.Stops isBlank ('.' :: rest) := Text.stops_cons.mpr (by decide)
  simp only [tailOf, Text.takeWhile_append_stops blank stops,
    Text.dropWhile_append_stops blank stops]

end Token

/-! ## Control statements -/

theorem copiesFirst_replaceReferences (resolve : Text → Option Text) {previous : Option Token}
    (guarded : isGuardedBy previous = true) (text : Text) :
    Token.CopiesFirst text (replaceReferences resolve previous (Token.scan text)) := by
  cases text with
  | nil =>
      rw [Token.scan_nil, replaceReferences]
      exact .nil
  | cons c rest =>
      rw [replaceReferences_scan resolve previous c rest (.inr guarded)]
      refine .cons c rest _ ?_
      intro ident
      apply head?_replaceReferences
      rw [ident]
      exact Token.stops_startsIdent_of_continuesIdent (Text.stops_dropWhile _ _)

/-- Substitution keeps the directive that a statement spells. -/
theorem ParamTable.spellsAlike_substitute (table : ParamTable) {text : Text}
    (point : (Text.firstWord text).head? = some '.') :
    Text.SpellsAlike text (table.substitute text) := by
  obtain ⟨resolve, substituted⟩ := table.exists_resolve
  obtain ⟨rest, led⟩ := Text.exists_pointLed point
  have behind (previous : Option Token) : ∃ other,
      replaceReferences resolve previous (Token.scan ('.' :: rest)) = '.' :: other ∧
        Text.AgreePastLetters rest other := by
    rw [replaceReferences_scan resolve previous '.' rest (.inl (by decide))]
    apply Token.agree_behind_point
    intro punct
    rw [punct]
    exact copiesFirst_replaceReferences resolve rfl rest
  obtain ⟨blanks, rfl, blank⟩ := led.shape
  rw [substituted]
  cases blanks with
  | nil =>
      obtain ⟨other, image, agree⟩ := behind none
      rw [List.nil_append, image]
      exact led.spellsAlike ⟨[], rfl, by simp⟩ agree
  | cons b blanks =>
      have here := blank b (List.mem_cons_self ..)
      have there : ∀ c ∈ blanks, isBlank c = true := by
        intro c member
        exact blank c (List.mem_cons_of_mem _ member)
      rw [List.cons_append, replaceReferences_scan resolve none b _
        (.inl (Token.not_startsIdent_of_isBlank here)), Token.kindFrom_of_isBlank here,
        Token.tailOf_space there]
      obtain ⟨other, image, agree⟩ := behind (some ⟨.space, b :: blanks⟩)
      rw [image]
      exact led.spellsAlike ⟨b :: blanks, rfl, blank⟩ agree

namespace Reference

theorem copiesFirst_renameFrom (rename : Role → Text → Text) (afterName : Bool) (text : Text) :
    Token.CopiesFirst text (renameFrom rename (.outside afterName) text) := by
  cases text with
  | nil =>
      simp only [renameFrom, Token.scan_nil, tagFrom, List.flatMap_nil]
      exact .nil
  | cons c rest =>
      rw [renameFrom_cons rename rfl]
      refine .cons c rest _ ?_
      intro ident
      exact head?_renameFrom rename (step_ident_copies afterName ident _) _

theorem step_outside_of_kind {first : Token} (afterName : Bool) (rest : List Token)
    (notIdent : first.kind ≠ .ident) (notAt : first.kind ≠ .at) :
    (step (.outside afterName) first rest).2 = .outside first.isName := by
  cases afterName <;> simp [step, accessor?, notIdent, notAt]

/-- Renaming keeps the directive that a statement spells. -/
theorem spellsAlike_renameAll (rename : Role → Text → Text) {text : Text}
    (point : (Text.firstWord text).head? = some '.') :
    Text.SpellsAlike text (renameAll rename text) := by
  obtain ⟨rest, led⟩ := Text.exists_pointLed point
  have behind (afterName : Bool) : ∃ other,
      renameFrom rename (.outside afterName) ('.' :: rest) = '.' :: other ∧
        Text.AgreePastLetters rest other := by
    rw [renameFrom_cons rename rfl]
    apply Token.agree_behind_point
    intro punct
    rw [punct, step_outside_of_kind afterName _ (by simp) (by simp)]
    exact copiesFirst_renameFrom rename _ rest
  rw [renameAll_eq]
  obtain ⟨blanks, rfl, blank⟩ := led.shape
  cases blanks with
  | nil =>
      obtain ⟨other, image, agree⟩ := behind false
      rw [List.nil_append, image]
      exact led.spellsAlike ⟨[], rfl, by simp⟩ agree
  | cons b blanks =>
      have here := blank b (List.mem_cons_self ..)
      have there : ∀ c ∈ blanks, isBlank c = true := by
        intro c member
        exact blank c (List.mem_cons_of_mem _ member)
      rw [List.cons_append, renameFrom_cons rename rfl, Token.kindFrom_of_isBlank here,
        Token.tailOf_space there, step_outside_of_kind false _ (by simp) (by simp)]
      obtain ⟨other, image, agree⟩ := behind (Token.isName ⟨.space, b :: blanks⟩)
      rw [image]
      exact led.spellsAlike ⟨b :: blanks, rfl, blank⟩ agree

end Reference

namespace Text

/-- A first character that is blank or missing stays so under substitution. -/
theorem stops_substitute (params : ParamTable) {text : Text}
    (stops : Stops (fun c => !isBlank c) text) :
    Stops (fun c => !isBlank c) (params.substitute text) := by
  apply stops.congr
  apply ParamTable.head?_substitute
  intro c found
  exact Token.not_startsIdent_of_isBlank (by simpa using stops c found)

end Text

namespace Renamer

variable {config : Config}

/-- A control statement spells the directive that it spelled before. -/
theorem spellsAlike_controlLine (renamer : Renamer config) {text : Text}
    (point : (Text.firstWord text).head? = some '.') :
    Text.SpellsAlike text (renamer.controlLine text) := by
  unfold controlLine
  cases text with
  | nil => cases point
  | cons c rest =>
      by_cases blank : isBlank c = true
      · -- the keyword is not recognised behind a blank, and the whole line is rewritten
        have nothing : ((c :: rest).takeWhile fun c => !isBlank c) = [] := by simp [blank]
        have all : ((c :: rest).dropWhile fun c => !isBlank c) = c :: rest := by simp [blank]
        simp only [nothing, all, List.nil_append]
        have substituted := renamer.params.spellsAlike_substitute point
        exact substituted.trans
          (Reference.spellsAlike_renameAll renamer.byRole substituted.point)
      · apply Text.spellsAlike_of_firstWord point
        have front : Text.Stops isBlank (c :: rest) := Text.stops_cons.mpr (by simpa using blank)
        have word : Text.firstWord (c :: rest) = (c :: rest).takeWhile fun c => !isBlank c := by
          rw [Text.firstWord, Text.trimStart_of_stops front]
        rw [word]
        have tail := Text.stops_substitute renamer.params
          (Text.stops_dropWhile (fun c => !isBlank c) (c :: rest))
        have nothing : ∀ d ∈ ([] : Text), isBlank d = true := by simp
        refine Text.firstWord_append nothing ?_ ?_ (tail.congr (Reference.head?_renameAll _ _))
        · intro d member
          simpa using Text.mem_takeWhile member
        · simp [blank]

/-- A letter in front stays in front of a renamed device line. -/
theorem head?_firstWord_assemble {name : Text} {c : Char} (lead : name.head? = some c)
    (solid : isBlank c = false) (others : List Text) (tail : Text) :
    (Text.firstWord (assemble (name :: others) tail)).head? = some c := by
  obtain ⟨rest, rfl⟩ := List.head?_eq_some_iff.mp lead
  obtain ⟨more, joined⟩ := Text.exists_join_cons " " (c :: rest) others
  have starts (text : Text) : (Text.firstWord (c :: text)).head? = some c := by
    rw [Text.head?_firstWord, Text.trimStart_of_stops (Text.stops_cons.mpr solid)]
    rfl
  unfold assemble
  split
  · rw [joined]
    exact starts _
  · rw [joined]
    exact starts _

theorem head?_device (renamer : Renamer config) {name : Text} {c : Char}
    (lead : name.head? = some c) : (renamer.device name).head? = some c := by
  obtain ⟨rest, rfl⟩ := List.head?_eq_some_iff.mp lead
  unfold device Catenation.device
  cases renamer.joint.order with
  | nameFirst => rfl
  | instanceFirst => rfl

/-- The first word of a statement and its first word up to a comma begin alike. -/
theorem exists_split_of_lead {text : Text} {c : Char}
    (lead : (Text.firstWord text).head? = some c) (inner : Word.isInner c = true) :
    ∃ name words, Word.split text = name :: words ∧ name.text.head? = some c ∧
      ∃ blanks behind, text = blanks ++ (name.text ++ behind) ∧
        (∀ d ∈ blanks, isBlank d = true) ∧ name.start = Text.byteSize blanks ∧
        words = Word.splitFrom name.stop behind := by
  rw [Text.head?_firstWord] at lead
  obtain ⟨rest, trimmed⟩ := List.head?_eq_some_iff.mp lead
  have whole : text = text.takeWhile isBlank ++ c :: rest := by
    rw [← trimmed, Text.blanks_append_trimStart]
  have separate : ∀ d ∈ text.takeWhile isBlank, Word.isSeparator d = true := by
    intro d member
    exact Word.isSeparator_of_isBlank (Text.mem_takeWhile member)
  have outside : ¬ Word.isSeparator c = true := by simpa [Word.isInner] using inner
  refine ⟨⟨c :: rest.takeWhile Word.isInner, Text.byteSize (text.takeWhile isBlank)⟩,
    Word.splitFrom (Text.byteSize (text.takeWhile isBlank) +
      Text.byteSize (c :: rest.takeWhile Word.isInner)) (rest.dropWhile Word.isInner),
    ?_, rfl, text.takeWhile isBlank, rest.dropWhile Word.isInner, ?_,
    fun d member => Text.mem_takeWhile member, rfl, rfl⟩
  · rw [Word.split]
    conv => lhs; rw [whole]
    rw [Word.splitFrom_separators 0 separate, Word.splitFrom, if_neg outside, Nat.zero_add]
  · simpa using whole

theorem isInner_of_isAlpha {c : Char} (letter : c.isAlpha = true) : Word.isInner c = true := by
  have notComma : c ≠ ',' := by
    rintro rfl
    exact absurd letter (by decide)
  simp [Word.isInner, Word.isSeparator, Token.not_isBlank_of_isAlpha letter, notComma]

theorem exists_letter_of_startsDevice {keyword : Text} (device : startsDevice keyword = true) :
    ∃ c, keyword.head? = some c ∧ c.isAlpha = true := by
  unfold startsDevice at device
  cases found : keyword.head? with
  | none => simp [found] at device
  | some c => exact ⟨c, rfl, by simpa [found] using device⟩

/-- A device keeps the letter that tells its kind. -/
theorem head?_firstWord_deviceLine (renamer : Renamer config)
    {scopes : Scopes config.casePolicy} {text image : Text}
    (device : startsDevice (Text.firstWord text) = true)
    (renamed : renamer.deviceLine scopes text = .ok image) :
    (Text.firstWord image).head? = (Text.firstWord text).head? := by
  obtain ⟨c, lead, letter⟩ := exists_letter_of_startsDevice device
  obtain ⟨name, words, parts, first, -⟩ := exists_split_of_lead lead (isInner_of_isAlpha letter)
  rw [lead]
  unfold deviceLine at renamed
  rw [parts] at renamed
  dsimp only at renamed
  split at renamed
  · cases renamed
  · cases renamed
    exact head?_firstWord_assemble (renamer.head?_device first)
      (Token.not_isBlank_of_isAlpha letter) _ _

/-- A model statement keeps its keyword. -/
theorem firstWord_modelLine? (renamer : Renamer config) {text name image line : Text}
    (solid : Word.Solid (Text.firstWord text))
    (renamed : renamer.modelLine? text = some (name, image, line)) :
    Text.firstWord line = Text.firstWord text := by
  obtain ⟨blanks, behind, -, -, -, parts⟩ := Word.split_keyword solid
  unfold modelLine? at renamed
  rw [parts] at renamed
  split at renamed
  next keyword declared rest shape =>
    cases renamed
    have front : keyword.text = Text.firstWord text := by
      rw [← (List.cons.inj shape).1]
    rw [front]
    have nothing : ∀ c ∈ ([] : Text), isBlank c = true := by simp
    have blank : Text.Stops (fun c => !isBlank c)
        (" ".toList ++ (renamer.joint.model declared.text renamer.inst ++
          renamer.params.substitute (Text.dropBytes declared.stop text))) :=
      Text.stops_cons.mpr (by decide)
    have word := Text.firstWord_append nothing (Text.solid_firstWord text) solid.nonempty blank
    simpa only [List.nil_append, List.append_assoc] using word
  · cases renamed

end Renamer

/-! ## Substitution at the top level -/

/-- Substitution behind the first word keeps that word. -/
theorem ParamTable.firstWord_substituteLine (params : ParamTable) (text : Text) :
    Text.firstWord (params.substituteLine text) = Text.firstWord text := by
  have blank : ∀ c ∈ text.takeWhile isBlank, isBlank c = true := by
    intro c member
    exact Text.mem_takeWhile member
  have tail := Text.stops_substitute params
    (Text.stops_dropWhile (fun c => !isBlank c) (Text.trimStart text))
  by_cases empty : Text.firstWord text = []
  · have nothing : Text.trimStart text = [] := by
      have head := Text.head?_firstWord text
      rw [empty] at head
      exact List.head?_eq_none_iff.mp head.symm
    have none : params.substitute [] = [] := by
      have head := params.head?_substitute (Text.stops_nil _)
      exact List.head?_eq_none_iff.mp head
    have line : params.substituteLine text = text.takeWhile isBlank ++ [] := by
      have dropped : text.dropWhile isBlank = [] := nothing
      simp [substituteLine, dropped, none]
    rw [line, empty, Text.firstWord, Text.trimStart_append blank]
    rfl
  · have word := Text.firstWord_append blank (Text.solid_firstWord text) empty tail
    rw [← word]
    simp only [substituteLine, List.append_assoc]
    rfl

namespace DeviceLine

/-- The nodes of a device line end at its name or at one of its words. -/
theorem nodeStop_cases (stop count : Nat) (words : List Word) :
    nodeStop stop count words = stop ∨
      ∃ word ∈ words, nodeStop stop count words = word.stop := by
  induction words generalizing stop count with
  | nil => cases count <;> exact .inl rfl
  | cons first rest ih =>
      cases count with
      | zero => exact .inl rfl
      | succ count =>
          unfold nodeStop
          split
          · exact .inl rfl
          · right
            rcases ih first.stop count with here | ⟨word, member, there⟩
            · exact ⟨first, List.mem_cons_self .., here⟩
            · exact ⟨word, List.mem_cons_of_mem _ member, there⟩

/-- The name of a device lies in front of where its nodes end. -/
theorem name_stop_le_nodeSpan (catalog : Catalog) {text : Text} {name : Word}
    {words : List Word} {behind : Text} (parts : Word.split text = name :: words)
    (rest : words = Word.splitFrom name.stop behind) :
    name.stop ≤ nodeSpan catalog text := by
  unfold nodeSpan
  rw [parts]
  dsimp only
  split
  · exact Nat.le_refl _
  next kind _ =>
    rcases nodeStop_cases name.stop kind.passedNodes words with here | ⟨word, member, there⟩
    · exact Nat.le_of_eq here.symm
    · rw [rest] at member
      obtain ⟨front, back, cut⟩ := Word.exists_cut member
      rw [there, cut.stop_eq]
      exact Nat.le_add_right _ _

end DeviceLine

namespace Expansion

variable (config : Config) (catalog : Catalog)

/-- What a device line keeps in front of its parameters holds its first letter. -/
theorem head?_firstWord_takeBytes_nodeSpan {text : Text} {c : Char}
    (lead : (Text.firstWord text).head? = some c) (letter : c.isAlpha = true) (tail : Text) :
    (Text.firstWord (Text.takeBytes (DeviceLine.nodeSpan catalog text) text ++ tail)).head? =
      some c := by
  obtain ⟨name, words, parts, first, blanks, behind, whole, blank, start, rest⟩ :=
    Renamer.exists_split_of_lead lead (Renamer.isInner_of_isAlpha letter)
  have fits := DeviceLine.name_stop_le_nodeSpan catalog parts rest
  have size : Text.byteSize (blanks ++ name.text) = name.stop := by
    rw [Text.byteSize_append, Word.stop, start]
  rw [← size] at fits
  have shape : text = (blanks ++ name.text) ++ behind := by rw [whole, List.append_assoc]
  obtain ⟨more, spelled⟩ := List.head?_eq_some_iff.mp first
  generalize DeviceLine.nodeSpan catalog text = span at fits ⊢
  rw [Text.head?_firstWord, shape, Text.takeBytes_append fits, List.append_assoc,
    List.append_assoc, Text.trimStart_append blank, spelled]
  have solid := Token.not_isBlank_of_isAlpha letter
  rw [List.cons_append, Text.trimStart_of_stops (Text.stops_cons.mpr solid)]
  rfl

/-- The name behind a keyword and all in front of it stay as they are. -/
theorem firstWord_takeBytes_name {text : Text} (solid : Word.Solid (Text.firstWord text))
    {name : Word} (second : (Word.split text)[1]? = some name) (tail : Text) :
    Text.firstWord (Text.takeBytes name.stop text ++ tail) = Text.firstWord text := by
  obtain ⟨blanks, gap, back, declared⟩ := Word.exists_declaration solid second
  rw [declared.takeBytes_stop]
  simp only [List.append_assoc]
  exact Text.firstWord_append declared.blank (Text.solid_firstWord text) solid.nonempty
    (declared.stops_gap _)

/-- Substitution at the top level keeps the first character of a statement. -/
theorem head?_firstWord_substituteTop (params : ParamTable) (text : Text)
    (models : config.directives.isModel (Text.firstWord text) = true →
      Word.Solid (Text.firstWord text)) :
    (Text.firstWord (substituteTop config catalog params text)).head? =
      (Text.firstWord text).head? := by
  have statement : (Text.firstWord
      (if config.substituteNodes || !Renamer.startsDevice (Text.firstWord text) then
        params.substituteLine text
      else
        Text.takeBytes (DeviceLine.nodeSpan catalog text) text ++
          params.substitute (Text.dropBytes (DeviceLine.nodeSpan catalog text) text))).head? =
      (Text.firstWord text).head? := by
    split
    · rw [params.firstWord_substituteLine]
    next other =>
      have device : Renamer.startsDevice (Text.firstWord text) = true := by
        cases starts : Renamer.startsDevice (Text.firstWord text) with
        | true => rfl
        | false => simp [starts] at other
      obtain ⟨c, lead, letter⟩ := Renamer.exists_letter_of_startsDevice device
      rw [head?_firstWord_takeBytes_nodeSpan catalog lead letter, lead]
  unfold substituteTop
  dsimp only
  split
  · rfl
  · split
    next model =>
      split
      next name second =>
        rw [firstWord_takeBytes_name (models model) second]
      · exact statement
    · exact statement

/-- Substitution at the top level keeps the keyword of a statement that is no device. -/
theorem firstWord_substituteTop (params : ParamTable) {text : Text}
    (other : Renamer.startsDevice (Text.firstWord text) = false)
    (models : config.directives.isModel (Text.firstWord text) = true →
      Word.Solid (Text.firstWord text)) :
    Text.firstWord (substituteTop config catalog params text) = Text.firstWord text := by
  unfold substituteTop
  simp only [other, Bool.not_false, Bool.or_true, if_true]
  split
  · rfl
  · split
    next model =>
      split
      next name second => exact firstWord_takeBytes_name (models model) second _
      · exact params.firstWord_substituteLine text
    · exact params.firstWord_substituteLine text

end Expansion

end Netlist

import Mathlib.Data.List.TakeWhile
import Netlist.Proofs.Hygiene
import Netlist.Proofs.Keyword

/-!
# Nodes named in expressions

A node word is renamed as a whole, while the argument of an accessor is first
read as tokens.  The two agree as long as the name is read as a single name
wherever a level renames it.  A joined name is read so again if an identifier
was joined, or a number to an instance without digits; in front of a digit a
number with letters behind it comes to an end.
-/

namespace Netlist

namespace Text

theorem takeWhile_append_of_stops {inner : Char → Bool} (run : Text) {behind : Text}
    (stops : Stops inner behind) : (run ++ behind).takeWhile inner = run.takeWhile inner := by
  induction run with
  | nil => exact takeWhile_append_stops (fun _ member => nomatch member) stops
  | cons c run ih =>
      rw [List.cons_append, List.takeWhile_cons, List.takeWhile_cons, ih]

theorem dropWhile_append_of_stops {inner : Char → Bool} (run : Text) {behind : Text}
    (stops : Stops inner behind) :
    (run ++ behind).dropWhile inner = run.dropWhile inner ++ behind := by
  induction run with
  | nil => exact dropWhile_append_stops (fun _ member => nomatch member) stops
  | cons c run ih =>
      rw [List.cons_append, List.dropWhile_cons, List.dropWhile_cons, ih]
      split <;> rfl

end Text

namespace Token

/-- The whole text is read as one token, and the token can name something. -/
def IsSingleName (text : Text) : Prop := ∃ token, scan text = [token] ∧ token.isName = true

/-- What stands behind a name: the separator of a joined name or a closing parenthesis. -/
def Breaks (text : Text) : Prop := ∀ c, text.head? = some c → c = '_' ∨ c = ')'

theorem Breaks.stops {text : Text} (breaks : Breaks text) {inner : Char → Bool}
    (separator : inner '_' = false) (close : inner ')' = false) : Text.Stops inner text := by
  intro c found
  rcases breaks c found with rfl | rfl
  · exact separator
  · exact close

theorem opensWithDigit_append (text : Text) {more : Text} (digits : Text.Stops Char.isDigit more) :
    opensWithDigit (text ++ more) = opensWithDigit text := by
  cases text with
  | cons c rest => rfl
  | nil =>
      cases more with
      | nil => rfl
      | cons c rest => exact Text.stops_cons.mp digits

/-- The mark, the sign or a digit of an exponent. -/
def inExponent (c : Char) : Bool := c.isDigit || c == 'e' || c == 'E' || c == '+' || c == '-'

/-- An exponent does not go on with a character that none has. -/
theorem exponent_append_of_stops (text : Text) {more : Text} (stops : Text.Stops inExponent more) :
    exponent (text ++ more) = ((exponent text).1, (exponent text).2 ++ more) := by
  have apart (c : Char) (found : more.head? = some c) :
      c.isDigit = false ∧ (c == 'e' || c == 'E') = false ∧ (c == '+' || c == '-') = false := by
    have outside := stops c found
    simp only [inExponent, Bool.or_eq_false_iff] at outside ⊢
    obtain ⟨⟨⟨⟨digit, lower⟩, upper⟩, plus⟩, minus⟩ := outside
    exact ⟨digit, ⟨lower, upper⟩, plus, minus⟩
  have digits : Text.Stops Char.isDigit more := fun c found => (apart c found).1
  match text, more with
  | [], [] => rfl
  | [], [c] => rfl
  | [], c :: next :: rest => simp [exponent, (apart c rfl).2.1]
  | [only], [] => rfl
  | [only], c :: rest => simp [exponent, (apart c rfl).1, (apart c rfl).2.2]
  | mark :: next :: rest, more =>
      simp only [List.cons_append, exponent, opensWithDigit_append rest digits,
        Text.takeWhile_append_of_stops rest digits, Text.dropWhile_append_of_stops rest digits]
      split
      · split
        · rfl
        · split <;> rfl
      · rfl

/-- Which characters a name goes on with behind a separator. -/
def continuesName : TokenKind → Char → Bool
  | .ident => continuesIdent
  | .number => inSuffix
  | _ => fun _ => false

theorem continuesName_close (kind : TokenKind) : continuesName kind ')' = false := by
  cases kind <;> rfl

theorem numberTail_append_breaks {rest more : Text} (whole : (numberTail rest).2 = [])
    (breaks : Breaks more) :
    numberTail (rest ++ more) = (rest ++ more.takeWhile inSuffix, more.dropWhile inSuffix) := by
  have mantissa : Text.Stops inMantissa more := breaks.stops rfl rfl
  have suffix : ∀ c ∈ (exponent (rest.dropWhile inMantissa)).2, inSuffix c = true :=
    List.dropWhile_eq_nil_iff.mp whole
  have sum := numberTail_append rest
  rw [whole, List.append_nil] at sum
  simp only [numberTail, List.takeWhile_eq_self_iff.mpr suffix] at sum
  simp only [numberTail, Text.takeWhile_append_of_stops rest mantissa,
    Text.dropWhile_append_of_stops rest mantissa, exponent_append_of_stops _ (breaks.stops rfl rfl),
    List.takeWhile_append_of_pos suffix, List.dropWhile_append_of_pos suffix]
  rw [← List.append_assoc, ← List.append_assoc, List.append_assoc (rest.takeWhile inMantissa), sum]

theorem tailOf_append_breaks {kind : TokenKind} (name : kind = .ident ∨ kind = .number)
    {rest more : Text} (whole : (tailOf kind rest).2 = []) (breaks : Breaks more) :
    tailOf kind (rest ++ more) =
      (rest ++ more.takeWhile (continuesName kind), more.dropWhile (continuesName kind)) := by
  rcases name with rfl | rfl
  · have inside : ∀ c ∈ rest, continuesIdent c = true := List.dropWhile_eq_nil_iff.mp whole
    simp only [tailOf, continuesName, List.takeWhile_append_of_pos inside,
      List.dropWhile_append_of_pos inside]
  · exact numberTail_append_breaks whole breaks

/-- A name goes on behind a separator as far as its kind allows. -/
theorem scan_append_breaks {kind : TokenKind} (name : kind = .ident ∨ kind = .number)
    {text more : Text} (single : scan text = [⟨kind, text⟩]) (breaks : Breaks more) :
    scan (text ++ more) =
      ⟨kind, text ++ more.takeWhile (continuesName kind)⟩ ::
        scan (more.dropWhile (continuesName kind)) := by
  cases text with
  | nil =>
      rw [scan_nil] at single
      cases single
  | cons first rest =>
      rw [scan_cons] at single
      obtain ⟨head, behind⟩ := List.cons.inj single
      have found : kindFrom first rest = kind := congrArg Token.kind head
      rw [found] at behind
      have whole : (tailOf kind rest).2 = [] := by
        have lost := congrArg render behind
        rw [render_scan] at lost
        exact lost
      have same : kindFrom first (rest ++ more) = kind := by
        rw [← found]
        unfold kindFrom startsNumber
        rw [opensWithDigit_append rest (breaks.stops rfl rfl)]
      rw [List.cons_append, scan_cons, same, tailOf_append_breaks name whole breaks]
      rfl

theorem not_startsIdent_of_scan_number {first : Char} {rest : Text}
    (scanned : scan (first :: rest) = [⟨.number, first :: rest⟩]) : startsIdent first = false := by
  rw [scan_cons] at scanned
  have found : kindFrom first rest = .number := congrArg Token.kind (List.cons.inj scanned).1
  cases starts : startsIdent first with
  | false => rfl
  | true =>
      unfold kindFrom at found
      rw [starts] at found
      split at found <;> cases found

theorem IsSingleName.exists_kind {text : Text} (single : IsSingleName text) :
    ∃ kind, (kind = .ident ∨ kind = .number) ∧ scan text = [⟨kind, text⟩] := by
  obtain ⟨⟨kind, own⟩, scanned, name⟩ := single
  have same : own = text := by
    have whole := render_scan text
    rwa [scanned, render_cons, render_nil, List.append_nil] at whole
  rw [same] at scanned
  refine ⟨kind, ?_, scanned⟩
  simpa [isName] using name

theorem isSingleName_of_scan {kind : TokenKind} (name : kind = .ident ∨ kind = .number)
    {text : Text} (scanned : scan text = [⟨kind, text⟩]) : IsSingleName text := by
  refine ⟨_, scanned, ?_⟩
  rcases name with rfl | rfl <;> rfl

/-- A joined name is read as a single one just in case its kind allows all of the instance. -/
theorem isSingleName_join_iff {kind : TokenKind} (name : kind = .ident ∨ kind = .number)
    {text : Text} (scanned : scan text = [⟨kind, text⟩]) (inst : Text) :
    IsSingleName (text ++ '_' :: inst) ↔ ∀ c ∈ inst, continuesName kind c = true := by
  have breaks : Breaks ('_' :: inst) := by
    intro c found
    exact .inl (Option.some.inj found).symm
  have joined := scan_append_breaks name scanned breaks
  have separator : continuesName kind '_' = true := by
    rcases name with rfl | rfl <;> rfl
  rw [List.takeWhile_cons_of_pos separator, List.dropWhile_cons_of_pos separator] at joined
  constructor
  · rintro ⟨token, single, -⟩
    rw [joined] at single
    have nothing := congrArg render (List.cons.inj single).2
    rw [render_scan] at nothing
    exact List.dropWhile_eq_nil_iff.mp nothing
  · intro inside
    rw [List.dropWhile_eq_nil_iff.mpr inside, List.takeWhile_eq_self_iff.mpr inside,
      scan_nil] at joined
    exact isSingleName_of_scan name joined

theorem breaks_close (behind : Text) : Breaks (')' :: behind) := by
  intro c found
  exact .inr (Option.some.inj found).symm

/-- A closing parenthesis ends a name. -/
theorem scan_append_close {kind : TokenKind} (name : kind = .ident ∨ kind = .number) {text : Text}
    (scanned : scan text = [⟨kind, text⟩]) (behind : Text) :
    scan (text ++ ')' :: behind) = ⟨kind, text⟩ :: ⟨.parenClose, [')']⟩ :: scan behind := by
  have close := continuesName_close kind
  rw [scan_append_breaks name scanned (breaks_close behind),
    List.takeWhile_cons_of_neg (by simp [close]), List.dropWhile_cons_of_neg (by simp [close]),
    List.append_nil, scan_cons]
  rfl

theorem scan_close {kind : TokenKind} (name : kind = .ident ∨ kind = .number) {text : Text}
    (scanned : scan text = [⟨kind, text⟩]) :
    scan (text ++ [')']) = [⟨kind, text⟩, ⟨.parenClose, [')']⟩] := by
  rw [scan_append_close name scanned, scan_nil]

/-- A number that has letters of an instance behind it comes to an end before another number. -/
theorem scan_join_number {text : Text} (scanned : scan text = [⟨.number, text⟩]) {letters : Text}
    (alpha : ∀ c ∈ letters, c.isAlpha = true) {number : Text}
    (further : scan number = [⟨.number, number⟩]) :
    scan (text ++ '_' :: (letters ++ number) ++ [')']) =
      [⟨.number, text ++ '_' :: letters⟩, ⟨.number, number⟩, ⟨.parenClose, [')']⟩] := by
  have suffix : ∀ c ∈ '_' :: letters, inSuffix c = true := by
    intro c member
    rcases List.mem_cons.mp member with rfl | inside
    · rfl
    · simp [inSuffix, alpha c inside]
  have stops : Text.Stops inSuffix (number ++ [')']) := by
    cases number with
    | nil => exact Text.stops_cons.mpr rfl
    | cons c rest => exact Text.stops_cons.mpr (not_startsIdent_of_scan_number further)
  have breaks : Breaks ('_' :: letters ++ (number ++ [')'])) := by
    intro c found
    exact .inl (Option.some.inj found).symm
  have joined := scan_append_breaks (.inr rfl) scanned breaks
  rw [continuesName, Text.takeWhile_append_stops suffix stops,
    Text.dropWhile_append_stops suffix stops, scan_close (.inr rfl) further] at joined
  simpa [List.append_assoc] using joined

theorem scan_call (more : Text) :
    scan ('v' :: '(' :: more) = ⟨.ident, ['v']⟩ :: ⟨.parenOpen, ['(']⟩ :: scan more := by
  rw [scan_cons]
  show _ :: scan ('(' :: more) = _
  rw [scan_cons]
  rfl

end Token

namespace Reference

theorem tagFrom_cons (place : Place) (first : Token) (rest : List Token) :
    tagFrom place (first :: rest) =
      (first, (step place first rest).1) :: tagFrom (step place first rest).2 rest := rfl

theorem tag_call {more : List Token} (closes : more.any isClose = true) :
    tag (⟨.ident, ['v']⟩ :: ⟨.parenOpen, ['(']⟩ :: more) =
      (⟨.ident, ['v']⟩, none) :: (⟨.parenOpen, ['(']⟩, none) :: tagFrom (.inside .node) more := by
  have opens : opensArguments (⟨.parenOpen, ['(']⟩ :: more) = true := closes
  have accessor : accessor? ⟨.ident, ['v']⟩ (⟨.parenOpen, ['(']⟩ :: more) = some .node := by
    rw [accessor?, opens]
    rfl
  rw [tag, tagFrom_cons, step, if_neg Bool.false_ne_true, accessor]
  rfl

theorem tagFrom_inside (role : Role) {tokens : List Token}
    (names : ∀ token ∈ tokens, token.isName = true) :
    tagFrom (.inside role) (tokens ++ [⟨.parenClose, [')']⟩]) =
      tokens.map (fun token => (token, some role)) ++ [(⟨.parenClose, [')']⟩, none)] := by
  induction tokens with
  | nil => rfl
  | cons first rest ih =>
      have name := names first List.mem_cons_self
      have argument : isClose first = false := by
        cases close : isClose first with
        | false => rfl
        | true =>
            have kind : first.kind = .parenClose := of_decide_eq_true close
            simp [Token.isName, kind] at name
      have others := ih fun token member => names token (List.mem_cons_of_mem first member)
      simp only [List.cons_append, tagFrom, step, argument, name, Bool.false_eq_true, if_false,
        if_true, List.map_cons, others]

/-- Each name among the arguments of an accessor is renamed by itself. -/
theorem renameAll_arguments (rename : Role → Text → Text) {text : Text} {tokens : List Token}
    (names : ∀ token ∈ tokens, token.isName = true)
    (scanned : Token.scan (text ++ [')']) = tokens ++ [⟨.parenClose, [')']⟩]) :
    renameAll rename ("v(" ++ text ++ ")") =
      "v(" ++ tokens.flatMap (fun token => rename .node token.text) ++ ")" := by
  have closes : (tokens ++ [(⟨.parenClose, [')']⟩ : Token)]).any isClose = true := by
    simp [isClose]
  rw [renameAll]
  show (tag (Token.scan ('v' :: '(' :: (text ++ [')'])))).flatMap (image rename) = _
  rw [Token.scan_call, scanned, tag_call closes, tagFrom_inside .node names]
  simp only [List.flatMap_cons, List.flatMap_append, List.flatMap_map, image, List.flatMap_nil,
    List.append_nil]
  rfl

/-- The argument of an accessor is renamed as a whole if it is read as a single name. -/
theorem renameAll_accessor (rename : Role → Text → Text) {name : Text}
    (single : Token.IsSingleName name) :
    renameAll rename ("v(" ++ name ++ ")") = "v(" ++ rename .node name ++ ")" := by
  obtain ⟨kind, isName, scanned⟩ := single.exists_kind
  have names : ∀ token ∈ [(⟨kind, name⟩ : Token)], token.isName = true := by
    intro token member
    rw [List.mem_singleton.mp member]
    rcases isName with rfl | rfl <;> rfl
  rw [renameAll_arguments rename names (Token.scan_close isName scanned), List.flatMap_singleton]

end Reference

namespace Enclosure

variable {config : Config}

/-- A text with references, renamed for the instances around it from the inside out. -/
def pushText (chain : List (Enclosure config)) (text : Text) : Text :=
  chain.foldl (fun text level => level.renamer.finish text) text

/-- A name that is read as a single one wherever a level renames it. -/
def Legible : List (Enclosure config) → Text → Prop
  | [], _ => True
  | level :: outer, name => Token.IsSingleName name ∧ Legible outer (level.renamer.node name)

theorem pushText_accessor {chain : List (Enclosure config)} {name : Text}
    (legible : Legible chain name) :
    pushText chain ("v(" ++ name ++ ")") = "v(" ++ pushNode chain name ++ ")" := by
  induction chain generalizing name with
  | nil => rfl
  | cons level outer ih =>
      obtain ⟨single, further⟩ := legible
      calc pushText (level :: outer) ("v(" ++ name ++ ")")
          = pushText outer (level.renamer.finish ("v(" ++ name ++ ")")) := rfl
        _ = pushText outer ("v(" ++ level.renamer.node name ++ ")") :=
            congrArg (pushText outer)
              (Reference.renameAll_accessor level.renamer.byRole single)
        _ = "v(" ++ pushNode (level :: outer) name ++ ")" := ih further

/-- The name that a level gives to a node can be read again: a node outside has a single name,
and a number is not joined to an instance with a digit in its name. -/
def KeepsName (level : Enclosure ({} : Config)) (name : Text) : Prop :=
  match level.renamer.pins.outside? level.renamer.globals name with
  | some actual => Token.IsSingleName actual
  | none => Token.scan name = [⟨.number, name⟩] → ∀ c ∈ level.inst, c.isDigit = false

/-- Every level keeps the name that it is given, except that the outermost one need not. -/
def KeepNames : List (Enclosure ({} : Config)) → Text → Prop
  | [], _ => True
  | [_], _ => True
  | level :: outer, name => KeepsName level name ∧ KeepNames outer (level.renamer.node name)

theorem isSingleName_node_iff {level : Enclosure ({} : Config)}
    (letters : ∀ c ∈ level.inst, c.isAlphanum = true) {name : Text}
    (single : Token.IsSingleName name) :
    Token.IsSingleName (level.renamer.node name) ↔ KeepsName level name := by
  have renamed : level.renamer.node name =
      (level.renamer.pins.outside? level.renamer.globals name).getD (name ++ '_' :: level.inst) :=
    rfl
  rw [renamed, KeepsName]
  cases level.renamer.pins.outside? level.renamer.globals name with
  | some actual => exact Iff.rfl
  | none =>
      obtain ⟨kind, isName, scanned⟩ := single.exists_kind
      rw [Option.getD_none, Token.isSingleName_join_iff isName scanned]
      rcases isName with rfl | rfl
      · constructor
        · intro _ number
          rw [scanned] at number
          cases number
        · intro _ c member
          simp [Token.continuesName, Token.continuesIdent, letters c member]
      · constructor
        · intro inside _ c member
          have suffix := inside c member
          cases digit : c.isDigit with
          | false => rfl
          | true =>
              have noLetter := Token.not_isAlpha_of_isDigit digit
              have noSeparator : c ≠ '_' := by
                rintro rfl
                cases digit
              simp [Token.continuesName, Token.inSuffix, noLetter, noSeparator] at suffix
        · intro noDigit c member
          have letter := letters c member
          rw [Char.isAlphanum, noDigit scanned c member, Bool.or_false] at letter
          simp [Token.continuesName, Token.inSuffix, letter]

theorem legible_of_keepNames {chain : List (Enclosure ({} : Config))}
    (letters : ∀ level ∈ chain, ∀ c ∈ level.inst, c.isAlphanum = true) {name : Text}
    (single : Token.IsSingleName name) (keep : KeepNames chain name) : Legible chain name := by
  induction chain generalizing name with
  | nil => trivial
  | cons level outer ih =>
      cases outer with
      | nil => exact ⟨single, trivial⟩
      | cons next outer =>
          obtain ⟨kept, further⟩ := keep
          have own := letters level List.mem_cons_self
          have others := fun other member => letters other (List.mem_cons_of_mem level member)
          exact ⟨single, ih others ((isSingleName_node_iff own single).mpr kept) further⟩

/-- A node named in an expression and the same node in a node word get the same name, however
many instances with names of letters and digits are around it, if the name is read as a single
one and every level below another keeps it so. -/
theorem accessor_agrees_with_node_word (chain : List (Enclosure ({} : Config))) (name : Text)
    (letters : ∀ level ∈ chain, ∀ c ∈ level.inst, c.isAlphanum = true)
    (single : Token.IsSingleName name) (keep : KeepNames chain name) :
    pushText chain ("v(" ++ name ++ ")") = "v(" ++ pushNode chain name ++ ")" :=
  pushText_accessor (legible_of_keepNames letters single keep)

/-- A number in an instance without digits, a formal that is connected to an identifier, and an
instance with digits above both. -/
theorem accessor_agrees_with_node_word_nested :
    let leaf : Enclosure ({} : Config) := ofPairs .empty "xa" "leaf" [("p", "net1")]
    let cell : Enclosure ({} : Config) := ofPairs .empty "xb" "cell" []
    let top : Enclosure ({} : Config) := ofPairs .empty "x12" "top" []
    pushText [leaf, cell, top] ("v(" ++ "7" ++ ")") = "v(7_xa_xb_x12)" ∧
      pushText [leaf, cell, top] ("v(" ++ "p" ++ ")") = "v(net1_xb_x12)" := by
  intro leaf cell top
  have spelled : [leaf, cell, top].all (fun level => level.inst.all Char.isAlphanum) = true := by
    decide +kernel
  have letters : ∀ level ∈ [leaf, cell, top], ∀ c ∈ level.inst, c.isAlphanum = true :=
    fun level member => List.all_eq_true.mp (List.all_eq_true.mp spelled level member)
  have noDigit {text : Text} (none : text.any Char.isDigit = false) :
      ∀ c ∈ text, c.isDigit = false := by
    simpa using none
  have number : KeepNames [leaf, cell, top] "7" := by
    refine ⟨?_, ?_, trivial⟩
    · show _ → ∀ c ∈ leaf.inst, c.isDigit = false
      exact fun _ => noDigit (by decide +kernel)
    · show _ → ∀ c ∈ cell.inst, c.isDigit = false
      exact fun _ => noDigit (by decide +kernel)
  have formal : KeepNames [leaf, cell, top] "p" := by
    refine ⟨?_, ?_, trivial⟩
    · exact ⟨⟨.ident, "net1"⟩, by decide +kernel, rfl⟩
    · show _ → ∀ c ∈ cell.inst, c.isDigit = false
      exact fun _ => noDigit (by decide +kernel)
  constructor
  · exact (accessor_agrees_with_node_word _ "7" letters
      ⟨⟨.number, "7"⟩, by decide +kernel, rfl⟩ number).trans (by decide +kernel)
  · exact (accessor_agrees_with_node_word _ "p" letters
      ⟨⟨.ident, "p"⟩, by decide +kernel, rfl⟩ formal).trans (by decide +kernel)

/-- Where a number is joined to letters and a number behind them, the next level takes the
joined name for two. -/
theorem pushText_accessor_of_number {inner outer : Enclosure ({} : Config)} {name : Text}
    (scanned : Token.scan name = [⟨.number, name⟩]) {letters number : Text}
    (alpha : ∀ c ∈ letters, c.isAlpha = true)
    (further : Token.scan number = [⟨.number, number⟩]) (spelled : inner.inst = letters ++ number)
    (inside : inner.renamer.pins.outside? inner.renamer.globals name = none) :
    pushText [inner, outer] ("v(" ++ name ++ ")") =
      "v(" ++ (outer.renamer.node (name ++ '_' :: letters) ++ outer.renamer.node number) ++
        ")" := by
  have joined : inner.renamer.node name = name ++ '_' :: (letters ++ number) := by
    rw [← spelled]
    exact congrArg (Option.getD · _) inside
  have names : ∀ token ∈ [(⟨.number, name ++ '_' :: letters⟩ : Token), ⟨.number, number⟩],
      token.isName = true := by
    simp [Token.isName]
  have once : inner.renamer.finish ("v(" ++ name ++ ")") =
      "v(" ++ inner.renamer.node name ++ ")" :=
    Reference.renameAll_accessor _ (Token.isSingleName_of_scan (.inr rfl) scanned)
  have twice := Reference.renameAll_arguments outer.renamer.byRole names
    (Token.scan_join_number scanned alpha further)
  rw [← joined] at twice
  calc pushText [inner, outer] ("v(" ++ name ++ ")")
      = outer.renamer.finish (inner.renamer.finish ("v(" ++ name ++ ")")) := rfl
    _ = outer.renamer.finish ("v(" ++ inner.renamer.node name ++ ")") := by rw [once]
    _ = _ := by
        refine twice.trans ?_
        simp only [List.flatMap_cons, List.flatMap_nil, List.append_nil]
        rfl

/-- The number 1 within the instances x1 and x2. -/
theorem accessor_differs_for_number :
    let inner : Enclosure ({} : Config) := ofPairs .empty "x1" "inner" []
    let outer : Enclosure ({} : Config) := ofPairs .empty "x2" "outer" []
    Token.IsSingleName "1" ∧ pushNode [inner, outer] "1" = "1_x1_x2" ∧
      pushText [inner, outer] ("v(" ++ "1" ++ ")") = "v(1_x_x21_x2)" := by
  intro inner outer
  refine ⟨⟨⟨.number, "1"⟩, by decide +kernel, rfl⟩, by decide +kernel, ?_⟩
  have letters : ∀ c ∈ ("x" : Text), c.isAlpha = true :=
    List.all_eq_true.mp (by decide +kernel)
  have number : Token.scan "1" = [⟨.number, "1"⟩] := by decide +kernel
  have cut : pushText [inner, outer] ("v(" ++ "1" ++ ")") =
      "v(" ++ (outer.renamer.node ("1" ++ '_' :: "x") ++ outer.renamer.node "1") ++ ")" :=
    pushText_accessor_of_number number letters number rfl rfl
  exact cut.trans (by decide +kernel)

end Enclosure

end Netlist

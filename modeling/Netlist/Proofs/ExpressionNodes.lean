import Netlist.Proofs.Accessor
import Netlist.Proofs.NestedRoles
import Netlist.Proofs.TokenForms

/-!
# Nodes named behind the words of a device

The text behind the words of a device line gets its parameters substituted and
then its references renamed.  So a node that an expression names as `v(n)` is
the one of the node word `n` unless there is a parameter of that name: then the
value of the parameter is taken for the node.
-/

namespace Netlist

/-- A run of characters ends before the end of the text, whatever follows, or takes all of it. -/
theorem Text.span_append_or (inner : Char → Bool) (text : Text) :
    (∀ more, (text ++ more).takeWhile inner = text.takeWhile inner ∧
      (text ++ more).dropWhile inner = text.dropWhile inner ++ more) ∨
    ∀ c ∈ text, inner c = true := by
  by_cases all : ∀ c ∈ text, inner c = true
  · exact .inr all
  left
  intro more
  induction text with
  | nil => exact absurd (fun c member => nomatch member) all
  | cons c rest ih =>
      rw [List.cons_append, List.takeWhile_cons, List.takeWhile_cons, List.dropWhile_cons,
        List.dropWhile_cons]
      cases here : inner c with
      | false => exact ⟨rfl, rfl⟩
      | true =>
          have later : ¬∀ d ∈ rest, inner d = true :=
            fun others => all (List.forall_mem_cons.mpr ⟨here, others⟩)
          obtain ⟨taken, dropped⟩ := ih later
          exact ⟨congrArg (c :: ·) taken, dropped⟩

namespace Token

/-! ## Where tokens end -/

theorem stringTail_append_of_mem {rest : Text} (closed : '"' ∈ rest) (more : Text) :
    stringTail (rest ++ more) = ((stringTail rest).1, (stringTail rest).2 ++ more) := by
  induction rest with
  | nil => cases closed
  | cons c rest ih =>
      by_cases quote : c = '"'
      · simp [stringTail, quote]
      · have later : '"' ∈ rest := by
          rcases List.mem_cons.mp closed with same | later
          · exact absurd same.symm quote
          · exact later
        simp [stringTail, quote, ih later]

/-- The token does not go on with a letter that follows. -/
def Ends (kind : TokenKind) (rest : Text) : Prop :=
  ∀ more, tailOf kind (rest ++ 'v' :: more) =
    ((tailOf kind rest).1, (tailOf kind rest).2 ++ 'v' :: more)

/-- The token takes the letter that follows. -/
def Swallows (kind : TokenKind) (rest : Text) : Prop :=
  ∀ more, ∃ further, (tailOf kind (rest ++ 'v' :: more)).1 = rest ++ 'v' :: further

theorem ends_or_swallows_number (rest : Text) : Ends .number rest ∨ Swallows .number rest := by
  have split := exponent_append (rest.dropWhile inMantissa)
  have read (more : Text) : tailOf .number (rest ++ 'v' :: more) =
      (rest.takeWhile inMantissa ++ ((exponent (rest.dropWhile inMantissa)).1 ++
        ((exponent (rest.dropWhile inMantissa)).2 ++ 'v' :: more).takeWhile inSuffix),
        ((exponent (rest.dropWhile inMantissa)).2 ++ 'v' :: more).dropWhile inSuffix) := by
    have mantissa : Text.Stops inMantissa ('v' :: more) := Text.stops_cons.mpr (by decide)
    have power : Text.Stops inExponent ('v' :: more) := Text.stops_cons.mpr (by decide)
    rw [tailOf, numberTail, Text.takeWhile_append_of_stops rest mantissa,
      Text.dropWhile_append_of_stops rest mantissa, exponent_append_of_stops _ power]
  rcases Text.span_append_or inSuffix (exponent (rest.dropWhile inMantissa)).2 with ended | inside
  · left
    intro more
    rw [read, (ended _).1, (ended _).2]
    rfl
  · right
    intro more
    refine ⟨more.takeWhile inSuffix, ?_⟩
    rw [read, List.takeWhile_append_of_pos inside, List.takeWhile_cons_of_pos (by decide),
      ← List.append_assoc _ _ ('v' :: _), split, ← List.append_assoc,
      List.takeWhile_append_dropWhile]

/-- A letter in front of which a token does not end belongs to the token. -/
theorem ends_or_swallows (kind : TokenKind) (rest : Text) :
    Ends kind rest ∨ Swallows kind rest := by
  cases kind with
  | space =>
      left
      intro more
      have stops : Text.Stops isBlank ('v' :: more) := Text.stops_cons.mpr (by decide)
      simp only [tailOf, Text.takeWhile_append_of_stops rest stops,
        Text.dropWhile_append_of_stops rest stops]
  | ident =>
      rcases Text.span_append_or continuesIdent rest with ended | inside
      · left
        intro more
        simp only [tailOf, ended]
      · right
        intro more
        rw [tailOf, List.takeWhile_append_of_pos inside, List.takeWhile_cons_of_pos (by decide)]
        exact ⟨_, rfl⟩
  | number => exact ends_or_swallows_number rest
  | str =>
      by_cases closed : '"' ∈ rest
      · exact .inl fun more => stringTail_append_of_mem closed ('v' :: more)
      · right
        intro more
        rw [tailOf, stringTail_append_of_notMem closed, stringTail, if_neg (by decide)]
        exact ⟨_, rfl⟩
  | _ => exact .inl fun more => rfl

/-- If a letter behind the text starts a token in front of something, it does so in front of
everything. -/
theorem scan_append_letter {text front : Text}
    (apart : scan (text ++ 'v' :: front) = scan text ++ scan ('v' :: front)) (more : Text) :
    scan (text ++ 'v' :: more) = scan text ++ scan ('v' :: more) := by
  induction text using scan_induction with
  | nil => rw [List.nil_append, scan_nil, List.nil_append]
  | cons first rest ih =>
      have scanned := scan_cons first rest
      have kinds (more : Text) : kindFrom first (rest ++ 'v' :: more) = kindFrom first rest := by
        have digits : Text.Stops Char.isDigit ('v' :: more) := Text.stops_cons.mpr (by decide)
        rw [kindFrom, startsNumber, opensWithDigit_append rest digits]
        rfl
      generalize kindFrom first rest = kind at ih scanned kinds
      rcases ends_or_swallows kind rest with ends | swallows
      · have read (more : Text) : scan (first :: rest ++ 'v' :: more) =
            ⟨kind, first :: (tailOf kind rest).1⟩ ::
              scan ((tailOf kind rest).2 ++ 'v' :: more) := by
          rw [List.cons_append, scan_cons, kinds, ends]
        rw [read, scanned] at apart
        rw [read, scanned, ih (List.cons.inj apart).2]
        rfl
      · obtain ⟨further, taken⟩ := swallows front
        rw [List.cons_append, scan_cons, kinds, taken, scanned] at apart
        have texts : first :: (rest ++ 'v' :: further) = first :: (tailOf kind rest).1 :=
          congrArg Token.text (List.cons.inj apart).1
        have lengths := congrArg List.length texts
        have bound := congrArg List.length (tailOf_append kind rest)
        simp only [List.length_cons, List.length_append] at lengths bound
        omega

end Token

/-! ## Accessors behind a text -/

namespace Reference

/-- An accessor that follows the text is read as if nothing stood in front of it. -/
def Admits (text : Text) : Prop :=
  tag (Token.scan (text ++ "v(n)")) = tag (Token.scan text) ++ tag (Token.scan "v(n)")

instance (text : Text) : Decidable (Admits text) :=
  inferInstanceAs (Decidable (_ = _))

theorem map_fst_tagFrom (place : Place) (tokens : List Token) :
    (tagFrom place tokens).map Prod.fst = tokens := by
  induction tokens generalizing place with
  | nil => rfl
  | cons first rest ih => rw [tagFrom_cons, List.map_cons, ih]

theorem Admits.scan_append {text : Text} (admits : Admits text) (more : Text) :
    Token.scan (text ++ 'v' :: more) = Token.scan text ++ Token.scan ('v' :: more) := by
  have tokens := congrArg (List.map Prod.fst) admits
  rw [List.map_append, tag, tag, tag, map_fst_tagFrom, map_fst_tagFrom, map_fst_tagFrom] at tokens
  exact Token.scan_append_letter tokens more

/-- Tokens that start with an identifier and close a parenthesis. -/
structure Follows (tokens : List Token) : Prop where
  ident : opensWithIdent tokens = true
  closes : tokens.any isClose = true

theorem follows_sample : Follows (Token.scan "v(n)") := by
  constructor <;> decide +kernel

/-- A reading looks at what follows only for an identifier or for a closing parenthesis. -/
theorem step_append (place : Place) (first : Token) (rest : List Token) {behind other : List Token}
    (follows : Follows behind) (otherFollows : Follows other) :
    step place first (rest ++ behind) = step place first (rest ++ other) := by
  have unopened {tokens : List Token} (ident : opensWithIdent tokens = true) :
      opensArguments tokens = false := by
    cases tokens with
    | nil => rfl
    | cons next more =>
        have kind : next.kind = .ident := of_decide_eq_true ident
        simp [opensArguments, kind]
  have idents : opensWithIdent (rest ++ behind) = opensWithIdent (rest ++ other) := by
    cases rest with
    | nil => exact follows.ident.trans otherFollows.ident.symm
    | cons next more => rfl
  have arguments : opensArguments (rest ++ behind) = opensArguments (rest ++ other) := by
    cases rest with
    | nil => exact (unopened follows.ident).trans (unopened otherFollows.ident).symm
    | cons next more =>
        simp only [List.cons_append, opensArguments, List.any_append, follows.closes,
          otherFollows.closes]
  cases place with
  | outside afterName => simp only [step, accessor?, idents, arguments]
  | entering role => rfl
  | inside role => rfl
  | addressed => rfl

/-- The tags of tokens and the place behind them are the same in front of all that can follow. -/
theorem exists_tags (place : Place) (tokens : List Token) :
    ∃ tags next, tags.length = tokens.length ∧ ∀ behind, Follows behind →
      tagFrom place (tokens ++ behind) = tags ++ tagFrom next behind := by
  induction tokens generalizing place with
  | nil => exact ⟨[], place, rfl, fun _ _ => rfl⟩
  | cons first rest ih =>
      let turn := step place first (rest ++ Token.scan "v(n)")
      obtain ⟨tags, next, lengths, later⟩ := ih turn.2
      refine ⟨(first, turn.1) :: tags, next, congrArg (· + 1) lengths, ?_⟩
      intro behind follows
      rw [List.cons_append, tagFrom_cons, step_append place first rest follows follows_sample,
        later behind follows]
      rfl

/-- A place where `v(n)` is read as an accessor is one for every argument. -/
theorem tagFrom_call {place : Place}
    (sample : tagFrom place (Token.scan "v(n)") = tag (Token.scan "v(n)"))
    {more : List Token} (closes : more.any isClose = true) :
    tagFrom place (⟨.ident, ['v']⟩ :: ⟨.parenOpen, ['(']⟩ :: more) =
      tag (⟨.ident, ['v']⟩ :: ⟨.parenOpen, ['(']⟩ :: more) := by
  cases place with
  | outside afterName =>
      cases afterName with
      | false => rfl
      | true => exact absurd sample (by decide +kernel)
  | entering role =>
      cases role with
      | node =>
          rw [tag_call closes]
          rfl
      | device => exact absurd sample (by decide +kernel)
  | inside role => cases role <;> exact absurd sample (by decide +kernel)
  | addressed => exact absurd sample (by decide +kernel)

theorem Admits.tag_append {text : Text} (admits : Admits text) {more : Text}
    (closes : (Token.scan more).any isClose = true) :
    tag (Token.scan (text ++ 'v' :: '(' :: more)) =
      tag (Token.scan text) ++ tag (Token.scan ('v' :: '(' :: more)) := by
  obtain ⟨tags, next, lengths, later⟩ := exists_tags (.outside false) (Token.scan text)
  have own : tags.length = (tag (Token.scan text)).length := by
    rw [lengths, ← congrArg List.length (map_fst_tagFrom (.outside false) (Token.scan text)),
      List.length_map, tag]
  have read : tag (Token.scan (text ++ "v(n)")) = tags ++ tagFrom next (Token.scan "v(n)") :=
    (congrArg tag (admits.scan_append "(n)")).trans (later _ follows_sample)
  obtain ⟨same, placed⟩ := List.append_inj (read.symm.trans admits) own
  have follows : Follows (Token.scan ('v' :: '(' :: more)) := by
    rw [Token.scan_call]
    exact ⟨rfl, by simpa [isClose] using closes⟩
  rw [admits.scan_append, tag, later _ follows, same, Token.scan_call, tagFrom_call placed closes]

/-- References are renamed in a text and in the accessor behind it separately. -/
theorem Admits.renameAll_append {text : Text} (admits : Admits text)
    (rename : Role → Text → Text) {name : Text} (single : Token.IsSingleName name) (back : Text) :
    renameAll rename (text ++ 'v' :: '(' :: (name ++ ')' :: back)) =
      renameAll rename text ++
        'v' :: '(' :: (rename .node name ++ ')' :: renameAll rename back) := by
  obtain ⟨kind, isName, scanned⟩ := single.exists_kind
  have argument := Token.scan_append_close isName scanned back
  have closes : (Token.scan (name ++ ')' :: back)).any isClose = true := by
    rw [argument]
    simp [isClose]
  have named : (⟨kind, name⟩ : Token).isName = true := by
    rcases isName with rfl | rfl <;> rfl
  have inside : isClose ⟨kind, name⟩ = false := by
    rcases isName with rfl | rfl <;> rfl
  have tagged : tagFrom (.inside .node) (Token.scan (name ++ ')' :: back)) =
      (⟨kind, name⟩, some .node) :: (⟨.parenClose, [')']⟩, none) :: tag (Token.scan back) := by
    rw [argument, tagFrom_cons, step, inside, named]
    rfl
  rw [renameAll, admits.tag_append closes, Token.scan_call, tag_call closes, tagged,
    List.flatMap_append]
  rfl

end Reference

/-! ## Parameters around an accessor -/

/-- An identifier that follows neither calls nor assigns what stands in front of it. -/
theorem isReference_append (previous : Option Token) (rest : List Token) {behind : List Token}
    (ident : Reference.opensWithIdent behind = true) :
    isReference previous (rest ++ behind) = isReference previous rest := by
  cases behind with
  | nil => cases ident
  | cons first more =>
      have kind : first.kind = .ident := of_decide_eq_true ident
      have skipped : Token.skipSpace (rest ++ first :: more) =
          if (Token.skipSpace rest).isEmpty then first :: more
          else Token.skipSpace rest ++ first :: more := by
        rw [Token.skipSpace, List.dropWhile_append, List.dropWhile_cons_of_neg (by simp [kind])]
        rfl
      rw [isReference, isReference, nextTokens, nextTokens, skipped]
      cases Token.skipSpace rest with
      | nil => simp [kind]
      | cons next others =>
          cases others with
          | nil => simp [kind]
          | cons other others => simp

theorem replaceReferences_append (resolve : Text → Option Text) (previous : Option Token)
    (tokens : List Token) {behind : List Token}
    (ident : Reference.opensWithIdent behind = true) :
    ∃ last, replaceReferences resolve previous (tokens ++ behind) =
      replaceReferences resolve previous tokens ++ replaceReferences resolve last behind := by
  induction tokens generalizing previous with
  | nil => exact ⟨previous, rfl⟩
  | cons first rest ih =>
      obtain ⟨last, later⟩ := ih (some first)
      refine ⟨last, ?_⟩
      rw [List.cons_append, replaceReferences, replaceReferences, later,
        isReference_append previous rest ident, List.append_assoc]

/-- What stands in front of a text matters to its first token only, and only as a guard. -/
theorem replaceReferences_congr (resolve : Text → Option Text) {previous other : Option Token}
    (guarded : isGuardedBy previous = isGuardedBy other) (tokens : List Token) :
    replaceReferences resolve previous tokens = replaceReferences resolve other tokens := by
  cases tokens with
  | nil => rfl
  | cons first rest => rw [replaceReferences, replaceReferences, isReference, isReference, guarded]

/-- The argument of an accessor is a reference to a parameter like any other identifier. -/
theorem ParamTable.substitute_accessor (table : ParamTable) {front : Text}
    (admits : Reference.Admits front) {name : Text} (ident : Token.scan name = [⟨.ident, name⟩])
    (back : Text) :
    table.substitute (front ++ 'v' :: '(' :: (name ++ ')' :: back)) =
      table.substitute front ++
        'v' :: '(' :: (table.substitute name ++ ')' :: table.substitute back) := by
  obtain ⟨resolve, substituted⟩ := table.exists_resolve
  have call : Token.scan ('v' :: '(' :: (name ++ ')' :: back)) =
      ⟨.ident, ['v']⟩ :: ⟨.parenOpen, ['(']⟩ :: ⟨.ident, name⟩ :: ⟨.parenClose, [')']⟩ ::
        Token.scan back := by
    rw [Token.scan_call, Token.scan_append_close (.inl rfl) ident]
  have led : Reference.opensWithIdent
      (Token.scan ('v' :: '(' :: (name ++ ')' :: back))) = true := by
    rw [call]
    rfl
  obtain ⟨last, split⟩ := replaceReferences_append resolve none (Token.scan front) led
  have called (rest : List Token) : isReference last (⟨.parenOpen, ['(']⟩ :: rest) = false := by
    rw [isReference]
    split <;> rfl
  have behind : replaceReferences resolve (some ⟨.parenClose, [')']⟩) (Token.scan back) =
      replaceReferences resolve none (Token.scan back) :=
    replaceReferences_congr resolve (by decide) _
  rw [substituted, admits.scan_append, split, substituted, substituted, substituted, call, ident]
  simp only [replaceReferences, called, behind]
  simp [isReference, isGuardedBy, nextTokens, Token.skipSpace]

theorem ParamTable.substitute_of_get?_eq_none {table : ParamTable} {name : Text}
    (ident : Token.scan name = [⟨.ident, name⟩]) (other : table.get? name = none) :
    table.substitute name = name := by
  rw [substitute, longestChain, substituteWithin_succ, ident]
  simp [replaceReferences, other]

namespace Renamer

open DeviceLine

variable {config : Config} (renamer : Renamer config)

/-- Behind parameters that leave it an accessor, `v(n)` names the node that the value of `n` is. -/
theorem finish_substitute_accessor {front name : Text}
    (admits : Reference.Admits front)
    (still : Reference.Admits (renamer.params.substitute front))
    (ident : Token.scan name = [⟨.ident, name⟩])
    (single : Token.IsSingleName (renamer.params.substitute name)) (back : Text) :
    renamer.finish (renamer.params.substitute (front ++ ("v(" ++ name ++ ")") ++ back)) =
      renamer.finish (renamer.params.substitute front) ++
        ("v(" ++ renamer.node (renamer.params.substitute name) ++ ")") ++
        renamer.finish (renamer.params.substitute back) := by
  have spelled (left middle right : Text) : left ++ ("v(" ++ middle ++ ")") ++ right =
      left ++ 'v' :: '(' :: (middle ++ ')' :: right) := by
    rw [List.append_assoc, List.append_assoc]
    rfl
  rw [spelled, spelled, renamer.params.substitute_accessor admits ident]
  exact still.renameAll_append renamer.byRole single _

/-- The node that `v(n)` names behind the words of a device line gets the name that the node word
`n` gets there, if there is no parameter `n`; otherwise the value of the parameter is renamed as
if it were the node.  The accessor must be read as one before and behind the substitution. -/
theorem expression_node_agrees {scopes : Scopes config.casePolicy} {text : Text} {device : Word}
    {words : List Word} {laid : Layout} (split : Word.split text = device :: words)
    (read : layout config.strictModels scopes (DeviceLine.kind? renamer.catalog device.text)
      device.text words = .ok laid)
    {front name back : Text}
    (tail : textFrom text laid.rest = front ++ ("v(" ++ name ++ ")") ++ back)
    (ident : Token.scan name = [⟨.ident, name⟩]) (admits : Reference.Admits front)
    (still : Reference.Admits (renamer.params.substitute front)) :
    let head := (.device device.text :: laid.parts).flatMap renamer.part
    let line (image : Text) := assemble head
      (renamer.finish (renamer.params.substitute front) ++ ("v(" ++ image ++ ")") ++
        renamer.finish (renamer.params.substitute back))
    (.node name ∈ laid.parts → renamer.node name ∈ head) ∧
    (renamer.params.get? name = none →
      renamer.deviceLine scopes text = .ok (line (renamer.node name))) ∧
    (Token.IsSingleName (renamer.params.substitute name) →
      renamer.deviceLine scopes text =
        .ok (line (renamer.node (renamer.params.substitute name)))) := by
  intro head line
  have general (single : Token.IsSingleName (renamer.params.substitute name)) :
      renamer.deviceLine scopes text =
        .ok (line (renamer.node (renamer.params.substitute name))) := by
    rw [deviceLine, split]
    dsimp only
    rw [read]
    dsimp only
    rw [tail, renamer.finish_substitute_accessor admits still ident single]
  refine ⟨?_, ?_, general⟩
  · intro listed
    exact List.mem_flatMap.mpr ⟨_, List.mem_cons_of_mem _ listed, List.mem_singleton_self _⟩
  · intro other
    have own := ParamTable.substitute_of_get?_eq_none ident other
    rw [own] at general
    exact general ⟨_, ident, rfl⟩

/-- A source that is controlled by its own node, with a parameter in front of the reference. -/
theorem expression_node_agrees_source :
    let renamer : Renamer ({} : Config) :=
      ⟨.standard, "x1", ⟨[]⟩, .ofAssignments "k=2 w=k*3", .empty⟩
    let scopes : Scopes ({} : Config).casePolicy := .start 2
    renamer.params.get? "n" = none ∧
      renamer.deviceLine scopes "b1 n 0 v=w*v(n)+k" = .ok "b1_x1 n_x1 0 v=2*3*v(n_x1)+2" := by
  intro renamer scopes
  have other : renamer.params.get? "n" = none := by decide +kernel
  have split : Word.split "b1 n 0 v=w*v(n)+k" =
      ⟨"b1", 0⟩ :: [⟨"n", 3⟩, ⟨"0", 5⟩, ⟨"v=w*v(n)+k", 7⟩] := by
    decide +kernel
  have read : layout ({} : Config).strictModels scopes
      (DeviceLine.kind? renamer.catalog "b1") "b1"
      [⟨"n", 3⟩, ⟨"0", 5⟩, ⟨"v=w*v(n)+k", 7⟩] =
      .ok ⟨[.node "n", .node "0"], [⟨"v=w*v(n)+k", 7⟩]⟩ :=
    eq_ok_of_toOption (by decide +kernel)
  have tail : textFrom "b1 n 0 v=w*v(n)+k" [⟨"v=w*v(n)+k", 7⟩] =
      "v=w*" ++ ("v(" ++ "n" ++ ")") ++ "+k" := by
    decide +kernel
  have line := (renamer.expression_node_agrees split read tail (by decide +kernel)
    (by decide +kernel) (by decide +kernel)).2.1 other
  exact ⟨other, line.trans (congrArg Except.ok (by decide +kernel))⟩

/-- Where the node is called like a parameter, the node word keeps the name and the expression
takes the value of the parameter; and a value with an open parenthesis hides the reference. -/
theorem expression_node_differs_for_parameter :
    let renamer : Renamer ({} : Config) :=
      ⟨.standard, "x1", ⟨[]⟩, .ofAssignments "w=2u p=i(", .empty⟩
    let scopes : Scopes ({} : Config).casePolicy := .start 2
    renamer.node "w" = "w_x1" ∧
      renamer.deviceLine scopes "b1 w 0 v=v(w)" = .ok "b1_x1 w_x1 0 v=v(2u_x1)" ∧
      renamer.deviceLine scopes "b1 a 0 v=p+v(n)" = .ok "b1_x1 a_x1 0 v=i(+v_x1(n_x1)" := by
  intro renamer scopes
  refine ⟨by decide +kernel, eq_ok_of_toOption ?_, eq_ok_of_toOption ?_⟩ <;> decide +kernel

end Renamer

end Netlist

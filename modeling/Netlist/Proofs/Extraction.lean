import Netlist.Cache

/-!
# What extraction leaves behind

Extraction that meets no fault disables the cards of definitions and keeps all
others, in order; how many definitions are open decides which cards those are.
A definition that is built keeps no live parameter statement of its own: the
ones that are left stand in inner definitions.
-/

namespace Netlist

namespace Card

variable (directives : Directives)

/-- Where `nest` definitions are open, the card belongs to one or delimits one. -/
def isLifted (nest : Nat) (card : Card) : Bool :=
  card.isLive &&
    (directives.isStart card.keyword || directives.isEnd card.keyword || nest != 0)

/-- How many definitions are open behind a card. -/
def nestAfter (nest : Nat) (card : Card) : Nat :=
  if !card.isLive then nest
  else if directives.isStart card.keyword then nest + 1
  else if directives.isEnd card.keyword then nest - 1
  else nest

theorem isLive_disable (card : Card) : card.disable.isLive = false := rfl

theorem nestAfter_of_idle {card : Card} (idle : card.isLive = false) (nest : Nat) :
    card.nestAfter directives nest = nest := by
  simp [nestAfter, idle]

end Card

namespace Deck

variable (directives : Directives)

/-- The deck with the cards of definitions disabled, while `nest` definitions are open. -/
def liftDefinitions : (nest : Nat) → Deck → Deck
  | _, [] => []
  | nest, card :: rest =>
      (if card.isLifted directives nest then card.disable else card) ::
        liftDefinitions (card.nestAfter directives nest) rest

/-- A live card that is left was there before, outside definitions, and delimits none. -/
theorem mem_liftDefinitions_cons {nest : Nat} {first card : Card} {rest : Deck}
    (live : card.isLive = true)
    (member : card ∈ liftDefinitions directives nest (first :: rest)) :
    (card = first ∧ nest = 0 ∧ directives.isStart card.keyword = false ∧
      directives.isEnd card.keyword = false) ∨
    card ∈ rest.liftDefinitions directives (first.nestAfter directives nest) := by
  rcases List.mem_cons.mp member with found | later
  · left
    split at found
    · rw [found, Card.isLive_disable] at live
      cases live
    next kept =>
      subst found
      have outside : (directives.isStart card.keyword = false ∧
          directives.isEnd card.keyword = false) ∧ nest = 0 := by
        simpa [Card.isLifted, live] using kept
      exact ⟨rfl, outside.2, outside.1.1, outside.1.2⟩
  · exact .inr later

theorem not_delimits_of_mem_liftDefinitions {nest : Nat} {deck : Deck} {card : Card}
    (member : card ∈ deck.liftDefinitions directives nest) (live : card.isLive = true) :
    directives.isStart card.keyword = false ∧ directives.isEnd card.keyword = false := by
  induction deck generalizing nest with
  | nil => cases member
  | cons first rest ih =>
      rcases mem_liftDefinitions_cons directives live member with
        ⟨-, -, notStart, notEnd⟩ | later
      · exact ⟨notStart, notEnd⟩
      · exact ih later

/-- Cards that are live and delimit nothing are left alone outside definitions. -/
theorem liftDefinitions_append {front : Deck}
    (plain : ∀ card ∈ front, card.isLive = true ∧ directives.isStart card.keyword = false ∧
      directives.isEnd card.keyword = false) (back : Deck) :
    (front ++ back).liftDefinitions directives 0 = front ++ back.liftDefinitions directives 0 := by
  induction front with
  | nil => rfl
  | cons first rest ih =>
      obtain ⟨live, notStart, notEnd⟩ := plain first (List.mem_cons_self ..)
      have step := ih fun card member => plain card (List.mem_cons_of_mem _ member)
      simp [liftDefinitions, Card.isLifted, Card.nestAfter, live, notStart, notEnd, step]

end Deck

namespace Extraction

variable (directives : Directives) (policy : CasePolicy) (phase : Phase)

/-- How many definitions are open. -/
def nesting : Option OpenDefinition → Nat
  | none => 0
  | some opened => opened.nest + 1

/-- What one card does: the card that is left, the open definition, the table and the warnings. -/
inductive Takes (card : Card) : Option OpenDefinition → DefinitionTable →
    Card → Option OpenDefinition → DefinitionTable → List Warning → Prop where
  | idle (opened : Option OpenDefinition) (table : DefinitionTable)
      (idle : card.isLive = false) : Takes card opened table card opened table []
  | begin (table : DefinitionTable) (header : Header) (live : card.isLive = true)
      (starts : directives.isStart card.keyword = true) (named : Header.ofCard card = .ok header) :
      Takes card none table card.disable (some { header, start := card }) table []
  | enter (opened : OpenDefinition) (table : DefinitionTable) (live : card.isLive = true)
      (starts : directives.isStart card.keyword = true) :
      Takes card (some opened) table card.disable (some (opened.enter card)) table []
  | close (opened : OpenDefinition) (table : DefinitionTable) (built : Definition)
      (live : card.isLive = true) (notStart : directives.isStart card.keyword = false)
      (ends : directives.isEnd card.keyword = true) (outermost : opened.nest = 0)
      (whole : built = Definition.build directives policy opened.header opened.body
        opened.start.number) :
      Takes card (some opened) table card.disable none (table.insert built.name built)
        (redefinition table built.name card)
  | leave (opened : OpenDefinition) (table : DefinitionTable) (live : card.isLive = true)
      (notStart : directives.isStart card.keyword = false)
      (ends : directives.isEnd card.keyword = true) (inner : opened.nest ≠ 0) :
      Takes card (some opened) table card.disable (some (opened.leave card)) table []
  | push (opened : OpenDefinition) (table : DefinitionTable) (live : card.isLive = true)
      (notStart : directives.isStart card.keyword = false)
      (notEnd : directives.isEnd card.keyword = false) :
      Takes card (some opened) table card.disable (some (opened.push card)) table []
  | keep (table : DefinitionTable) (live : card.isLive = true)
      (notStart : directives.isStart card.keyword = false)
      (notEnd : directives.isEnd card.keyword = false) :
      Takes card none table card none table []

/-- A card stops extraction: it starts a definition without a name, or it closes none. -/
inductive Stops (card : Card) : Option OpenDefinition → Fault → Prop where
  | unnamed (fault : Fault) (live : card.isLive = true)
      (starts : directives.isStart card.keyword = true)
      (unnamed : Header.ofCard card = .error fault) : Stops card none fault
  | stray (live : card.isLive = true) (notStart : directives.isStart card.keyword = false)
      (ends : directives.isEnd card.keyword = true) :
      Stops card none (.endWithoutStart card.keyword)

theorem takes_or_stops (opened : Option OpenDefinition) (table : DefinitionTable) (card : Card) :
    (∃ fault, Stops directives card opened fault) ∨
    ∃ image next found warnings,
      Takes directives policy card opened table image next found warnings := by
  cases live : card.isLive with
  | false => exact .inr ⟨_, _, _, _, .idle opened table live⟩
  | true =>
      cases starts : directives.isStart card.keyword with
      | true =>
          cases opened with
          | some inner => exact .inr ⟨_, _, _, _, .enter inner table live starts⟩
          | none =>
              cases named : Header.ofCard card with
              | error fault => exact .inl ⟨fault, .unnamed fault live starts named⟩
              | ok header => exact .inr ⟨_, _, _, _, .begin table header live starts named⟩
      | false =>
          cases ends : directives.isEnd card.keyword with
          | true =>
              cases opened with
              | none => exact .inl ⟨_, .stray live starts ends⟩
              | some inner =>
                  by_cases outermost : inner.nest = 0
                  · exact .inr ⟨_, _, _, _, .close inner table _ live starts ends outermost rfl⟩
                  · exact .inr ⟨_, _, _, _, .leave inner table live starts ends outermost⟩
          | false =>
              cases opened with
              | none => exact .inr ⟨_, _, _, _, .keep table live starts ends⟩
              | some inner => exact .inr ⟨_, _, _, _, .push inner table live starts ends⟩

variable {directives policy}

/-- A card that is taken is taken whatever stands behind it. -/
theorem Takes.runFrom_eq {card image : Card} {opened next : Option OpenDefinition}
    {table found : DefinitionTable} {warnings : List Warning}
    (takes : Takes directives policy card opened table image next found warnings) (rest : Deck) :
    runFrom directives policy phase opened table (card :: rest) =
      ((runFrom directives policy phase next found rest).warn warnings).behind image := by
  rw [runFrom.eq_def]
  dsimp only
  cases takes with
  | idle opened table idle => exact if_pos (by rw [idle]; rfl)
  | begin table header live starts named =>
      rw [if_neg (by simp [live]), if_pos starts, named]
      rfl
  | enter opened table live starts =>
      rw [if_neg (by simp [live]), if_pos starts]
      rfl
  | close opened table built live notStart ends outermost whole =>
      rw [if_neg (by simp [live]), if_neg (by simp [notStart]), if_pos ends, whole]
      exact if_pos outermost
  | leave opened table live notStart ends inner =>
      rw [if_neg (by simp [live]), if_neg (by simp [notStart]), if_pos ends]
      exact if_neg inner
  | push opened table live notStart notEnd =>
      rw [if_neg (by simp [live]), if_neg (by simp [notStart]), if_neg (by simp [notEnd])]
      rfl
  | keep table live notStart notEnd =>
      rw [if_neg (by simp [live]), if_neg (by simp [notStart]), if_neg (by simp [notEnd])]
      rfl

theorem Stops.runFrom_eq {card : Card} {opened : Option OpenDefinition} {fault : Fault}
    (stops : Stops directives card opened fault) (table : DefinitionTable) (rest : Deck) :
    runFrom directives policy phase opened table (card :: rest) =
      ⟨card :: rest, table, [], some (.ofCard phase fault card)⟩ := by
  rw [runFrom.eq_def]
  dsimp only
  cases stops with
  | unnamed fault live starts unnamed => rw [if_neg (by simp [live]), if_pos starts, unnamed]
  | stray live notStart ends =>
      rw [if_neg (by simp [live]), if_neg (by simp [notStart]), if_pos ends]

variable (directives policy) in
/-- Extraction stops at a card, or takes it and goes on. -/
theorem runFrom_cons (opened : Option OpenDefinition) (table : DefinitionTable) (card : Card)
    (rest : Deck) :
    (∃ fault, runFrom directives policy phase opened table (card :: rest) =
      ⟨card :: rest, table, [], some (.ofCard phase fault card)⟩) ∨
    ∃ image next found warnings,
      Takes directives policy card opened table image next found warnings ∧
      runFrom directives policy phase opened table (card :: rest) =
        ((runFrom directives policy phase next found rest).warn warnings).behind image := by
  rcases takes_or_stops directives policy opened table card with
    ⟨fault, stops⟩ | ⟨image, next, found, warnings, takes⟩
  · exact .inl ⟨fault, stops.runFrom_eq phase table rest⟩
  · exact .inr ⟨image, next, found, warnings, takes, takes.runFrom_eq phase rest⟩

/-- A card that is taken is disabled just in case it belongs to a definition. -/
theorem Takes.image_eq {card image : Card} {opened next : Option OpenDefinition}
    {table found : DefinitionTable} {warnings : List Warning}
    (takes : Takes directives policy card opened table image next found warnings) :
    image = if card.isLifted directives (nesting opened) then card.disable else card := by
  cases takes with
  | idle opened table idle => simp [Card.isLifted, idle]
  | begin table header live starts named => simp [Card.isLifted, live, starts]
  | enter opened table live starts => simp [Card.isLifted, live, starts]
  | close opened table built live notStart ends outermost whole =>
      simp [Card.isLifted, live, ends]
  | leave opened table live notStart ends inner => simp [Card.isLifted, live, ends]
  | push opened table live notStart notEnd => simp [Card.isLifted, live, nesting]
  | keep table live notStart notEnd => simp [Card.isLifted, notStart, notEnd, nesting]

theorem Takes.nesting_eq {card image : Card} {opened next : Option OpenDefinition}
    {table found : DefinitionTable} {warnings : List Warning}
    (takes : Takes directives policy card opened table image next found warnings) :
    nesting next = card.nestAfter directives (nesting opened) := by
  cases takes with
  | idle opened table idle => rw [Card.nestAfter_of_idle directives idle]
  | begin table header live starts named => simp [Card.nestAfter, live, starts, nesting]
  | enter opened table live starts =>
      simp [Card.nestAfter, live, starts, nesting, OpenDefinition.enter]
  | close opened table built live notStart ends outermost whole =>
      simp [Card.nestAfter, live, notStart, ends, nesting, outermost]
  | leave opened table live notStart ends inner =>
      simp only [Card.nestAfter, live, notStart, ends, nesting, OpenDefinition.leave,
        Bool.not_true, Bool.false_eq_true, if_false, if_true]
      omega
  | push opened table live notStart notEnd =>
      simp [Card.nestAfter, notStart, notEnd, nesting, OpenDefinition.push]
  | keep table live notStart notEnd => simp [Card.nestAfter, notStart, notEnd, nesting]

/-- Extraction without a fault only disables the cards of definitions. -/
theorem deck_runFrom {opened : Option OpenDefinition} {table : DefinitionTable} {deck : Deck}
    (ok : (runFrom directives policy phase opened table deck).failure = none) :
    (runFrom directives policy phase opened table deck).deck =
      deck.liftDefinitions directives (nesting opened) := by
  induction deck generalizing opened table with
  | nil => rfl
  | cons card rest ih =>
      rcases runFrom_cons directives policy phase opened table card rest with
        ⟨fault, stopped⟩ | ⟨image, next, found, warnings, takes, went⟩
      · rw [stopped] at ok
        cases ok
      · rw [went] at ok ⊢
        rw [Deck.liftDefinitions, ← takes.image_eq, ← takes.nesting_eq]
        exact congrArg (image :: ·) (ih ok)

/-- The definitions found are those known before and those built from the deck. -/
theorem mem_definitions_runFrom {opened : Option OpenDefinition} {table : DefinitionTable}
    {deck : Deck} {entry : Text × Definition}
    (member : entry ∈ (runFrom directives policy phase opened table deck).definitions.entries) :
    entry ∈ table.entries ∨
      ∃ header body number, entry.2 = Definition.build directives policy header body number := by
  induction deck generalizing opened table with
  | nil => exact .inl member
  | cons card rest ih =>
      rcases runFrom_cons directives policy phase opened table card rest with
        ⟨fault, stopped⟩ | ⟨image, next, found, warnings, takes, went⟩
      · rw [stopped] at member
        exact .inl member
      · rw [went] at member
        rcases ih member with known | built
        · cases takes with
          | close opened table built live notStart ends outermost whole =>
              rcases NameTable.mem_enter known with here | there
              · rw [here, whole]
                exact .inr ⟨_, _, _, rfl⟩
              · exact .inl there
          | _ => exact .inl known
        · exact .inr built

end Extraction

namespace Definition

variable (directives : Directives)

/-- Every live parameter statement of the body stands in an inner definition. -/
def Settled (definition : Definition) : Prop :=
  ∀ card ∈ definition.body.liftDefinitions directives 0, card.isLive = true →
    directives.isParam card.keyword = false

/-- A parameter statement of the definition itself, where `nest` inner ones are open. -/
def isOwnParam (nest : Nat) (card : Card) : Bool :=
  !card.isLifted directives nest && card.isLive && directives.isParam card.keyword

/-- A parameter statement of the definition itself opens or closes no inner one. -/
theorem nestAfter_of_isOwnParam {nest : Nat} {card : Card}
    (own : isOwnParam directives nest card = true) : card.nestAfter directives nest = nest := by
  simp only [isOwnParam, Card.isLifted, Bool.and_eq_true, Bool.not_eq_true',
    Bool.and_eq_false_iff, Bool.or_eq_false_iff] at own
  obtain ⟨⟨kept, awake⟩, -⟩ := own
  simp only [awake, Bool.true_eq_false, false_or] at kept
  simp [Card.nestAfter, kept.1.1, kept.1.2]

/-- One card at a time: a parameter statement of the definition itself is laid over the defaults
and disabled, any other card is left alone. -/
theorem takeParams_cons (nest : Nat) (bound : Bindings) (card : Card) (rest : Deck) :
    takeParams directives nest bound (card :: rest) =
      let own := isOwnParam directives nest card
      let later := takeParams directives (card.nestAfter directives nest)
        (if own then overlay bound card.operand else bound) rest
      (later.1, (if own then card.disable else card) :: later.2) := by
  rw [takeParams]
  split
  next idle =>
    have asleep : card.isLive = false := by simpa using idle
    simp [isOwnParam, asleep, Card.nestAfter]
  next awake =>
    have live : card.isLive = true := by simpa using awake
    split
    next starts => simp [isOwnParam, Card.isLifted, live, starts, Card.nestAfter]
    next notStart =>
      split
      next ends => simp [isOwnParam, Card.isLifted, live, notStart, ends, Card.nestAfter]
      next notEnd =>
        split
        next own =>
          have parts : nest = 0 ∧ directives.isParam card.keyword = true := by simpa using own
          simp [isOwnParam, Card.isLifted, live, notStart, notEnd, parts.1, parts.2,
            Card.nestAfter]
        next other =>
          have inside : isOwnParam directives nest card = false := by
            cases param : directives.isParam card.keyword with
            | false => simp [isOwnParam, param]
            | true =>
                have deep : nest ≠ 0 := by simpa [param] using other
                simp [isOwnParam, Card.isLifted, live, deep]
          simp [inside, Card.nestAfter, notStart, notEnd]

/-- Taking the parameter statements out leaves none outside inner definitions. -/
theorem not_isParam_takeParams {nest : Nat} {bound : Bindings} {deck : Deck} {card : Card}
    (member : card ∈ (takeParams directives nest bound deck).2.liftDefinitions directives nest)
    (live : card.isLive = true) : directives.isParam card.keyword = false := by
  induction deck generalizing nest bound with
  | nil => cases member
  | cons first rest ih =>
      rw [takeParams_cons] at member
      dsimp only at member
      by_cases own : isOwnParam directives nest first = true
      · -- the statement is disabled, and it opens or closes nothing
        rw [if_pos own] at member
        rcases Deck.mem_liftDefinitions_cons directives live member with
          ⟨found, -⟩ | later
        · rw [found, Card.isLive_disable] at live
          cases live
        · rw [Card.nestAfter_of_idle directives (Card.isLive_disable first),
            nestAfter_of_isOwnParam directives own] at later
          exact ih later
      · rw [if_neg own] at member
        rcases Deck.mem_liftDefinitions_cons directives live member with
          ⟨rfl, rfl, notStart, notEnd⟩ | later
        · simpa [isOwnParam, Card.isLifted, live, notStart, notEnd] using own
        · exact ih later

end Definition

end Netlist

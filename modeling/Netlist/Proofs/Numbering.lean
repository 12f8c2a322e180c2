import Netlist.Proofs.Lockstep

/-!
# Line numbers

The line numbers of cards are labels: they are copied from card to card and
told in warnings and faults, and nothing is decided by them.  Erasing them
before an expansion or behind it makes no difference.
-/

namespace Netlist

/-! ## Erasing -/

namespace NameTable

variable {policy : CasePolicy} {α β : Type}

/-- The table with all its values changed. -/
def mapValues (change : α → β) (table : NameTable policy α) : NameTable policy β :=
  ⟨table.entries.map fun entry => (entry.1, change entry.2), by
    unfold Ascending
    rw [List.pairwise_map]
    exact table.ascending⟩

theorem find?_mapValues (change : α → β) (table : NameTable policy α) (name : Text) :
    (table.mapValues change).find? name =
      (table.find? name).map fun entry => (entry.1, change entry.2) :=
  List.find?_map ..

theorem get?_mapValues (change : α → β) (table : NameTable policy α) (name : Text) :
    (table.mapValues change).get? name = (table.get? name).map change := by
  unfold get?
  rw [find?_mapValues, Option.map_map, Option.map_map]
  rfl

theorem contains_mapValues (change : α → β) (table : NameTable policy α) (name : Text) :
    (table.mapValues change).contains name = table.contains name := by
  unfold contains
  rw [find?_mapValues, Option.isSome_map]

theorem insert_mapValues (change : α → β) (table : NameTable policy α) (name : Text) (value : α) :
    (table.mapValues change).insert name (change value) =
      (table.insert name value).mapValues change := by
  apply ext
  show enter policy name (change value) (table.entries.map fun entry => (entry.1, change entry.2)) =
    (enter policy name value table.entries).map fun entry => (entry.1, change entry.2)
  induction table.entries with
  | nil => rfl
  | cons first rest ih =>
      rw [List.map_cons, enter, enter, ih]
      split
      · rfl
      · split <;> rfl

end NameTable

namespace Card

def unnumbered (card : Card) : Card := { card with number := 0 }

@[simp] theorem isLive_unnumbered (card : Card) : card.unnumbered.isLive = card.isLive := rfl

@[simp] theorem keyword_unnumbered (card : Card) : card.unnumbered.keyword = card.keyword := rfl

@[simp] theorem text_unnumbered (card : Card) : card.unnumbered.text = card.text := rfl

@[simp] theorem operand_unnumbered (card : Card) : card.unnumbered.operand = card.operand := rfl

end Card

namespace Deck

def unnumbered (deck : Deck) : Deck := deck.map Card.unnumbered

@[simp] theorem unnumbered_cons (card : Card) (rest : Deck) :
    unnumbered (card :: rest) = card.unnumbered :: rest.unnumbered := rfl

@[simp] theorem unnumbered_append (front back : Deck) :
    (front ++ back).unnumbered = front.unnumbered ++ back.unnumbered := List.map_append

@[simp] theorem live_unnumbered (deck : Deck) : deck.unnumbered.live = deck.live.unnumbered :=
  List.filter_map ..

@[simp] theorem liveTexts_unnumbered (deck : Deck) :
    deck.unnumbered.liveTexts = deck.liveTexts := by
  unfold liveTexts
  rw [live_unnumbered]
  exact List.map_map ..

theorem isBlank_unnumbered (deck : Deck) : deck.unnumbered.isBlank = deck.isBlank :=
  List.all_map ..

end Deck

def Diagnosis.unnumbered (diagnosis : Diagnosis) : Diagnosis :=
  { diagnosis with
    site := match diagnosis.site with
      | .card _ text => .card 0 text
      | .request context => .request context }

def Warning.unnumbered (warning : Warning) : Warning := { warning with number := 0 }

def Definition.unnumbered (definition : Definition) : Definition :=
  { definition with body := definition.body.unnumbered, number := 0 }

def DefinitionTable.unnumbered (table : DefinitionTable) : DefinitionTable :=
  table.mapValues Definition.unnumbered

def OpenDefinition.unnumbered (opened : OpenDefinition) : OpenDefinition :=
  { opened with start := opened.start.unnumbered, body := opened.body.unnumbered }

def Extraction.unnumbered (extraction : Extraction) : Extraction :=
  { deck := extraction.deck.unnumbered
    definitions := extraction.definitions.unnumbered
    warnings := extraction.warnings.map Warning.unnumbered
    failure := extraction.failure.map Diagnosis.unnumbered }

section States

variable {policy : CasePolicy}

def Frame.unnumbered (frame : Frame policy) : Frame policy :=
  { frame with definitions := frame.definitions.unnumbered }

def Scopes.unnumbered (scopes : Scopes policy) : Scopes policy :=
  { scopes with top := scopes.top.unnumbered, outer := scopes.outer.map Frame.unnumbered }

def Progress.unnumbered (progress : Progress policy) : Progress policy :=
  { progress with
    scopes := progress.scopes.unnumbered
    warnings := progress.warnings.map Warning.unnumbered
    unresolved := progress.unresolved.map Diagnosis.unnumbered }

def Level.unnumbered (level : Level policy) : Level policy :=
  { progress := level.progress.unnumbered
    params := level.params
    deck := level.deck.unnumbered
    failure := level.failure.map Diagnosis.unnumbered }

end States

/-! ## Definitions -/

namespace Definition

/-- The sources that tie repeated formals have no numbers. -/
theorem unnumbered_ties (policy : CasePolicy) (formals : List Text) :
    Deck.unnumbered (Formals.separate policy formals).2 = (Formals.separate policy formals).2 := by
  have ties (taken seen : NameSet policy) (count : Nat) (formals : List Text) :
      Deck.unnumbered (Formals.separateFrom taken seen count formals).2 =
        (Formals.separateFrom taken seen count formals).2 := by
    induction formals generalizing taken seen count with
    | nil => rfl
    | cons formal rest ih =>
        rw [Formals.separateFrom]
        split
        · exact congrArg (List.cons _) (ih _ _ _)
        · exact ih _ _ _
  exact ties _ _ _ _

theorem takeParams_unnumbered (directives : Directives) (nest : Nat) (bound : Bindings)
    (deck : Deck) :
    takeParams directives nest bound deck.unnumbered =
      ((takeParams directives nest bound deck).1,
        (takeParams directives nest bound deck).2.unnumbered) := by
  induction deck generalizing nest bound with
  | nil => rfl
  | cons card rest ih =>
      simp only [Deck.unnumbered_cons, takeParams, Card.isLive_unnumbered,
        Card.keyword_unnumbered, Card.operand_unnumbered, ih]
      split
      · rfl
      · split
        · rfl
        · split
          · rfl
          · split <;> rfl

theorem build_unnumbered (directives : Directives) (policy : CasePolicy) (header : Header)
    (body : Deck) (number : Nat) :
    build directives policy header body.unnumbered 0 =
      (build directives policy header body number).unnumbered := by
  unfold build unnumbered
  rw [takeParams_unnumbered]
  dsimp only
  rw [Deck.unnumbered_append, unnumbered_ties]

end Definition

namespace Extraction

variable {directives : Directives} {policy : CasePolicy} {phase : Phase}

theorem push_unnumbered (opened : OpenDefinition) (card : Card) :
    opened.unnumbered.push card.unnumbered = (opened.push card).unnumbered := by
  unfold OpenDefinition.push OpenDefinition.unnumbered
  rw [Deck.unnumbered_append]
  rfl

theorem enter_unnumbered (opened : OpenDefinition) (card : Card) :
    opened.unnumbered.enter card.unnumbered = (opened.enter card).unnumbered := by
  unfold OpenDefinition.enter
  rw [push_unnumbered]
  rfl

theorem leave_unnumbered (opened : OpenDefinition) (card : Card) :
    opened.unnumbered.leave card.unnumbered = (opened.leave card).unnumbered := by
  unfold OpenDefinition.leave
  rw [push_unnumbered]
  rfl

theorem redefinition_unnumbered (table : DefinitionTable) (name : Text) (card : Card) :
    redefinition table.unnumbered name card.unnumbered =
      (redefinition table name card).map Warning.unnumbered := by
  unfold redefinition DefinitionTable.unnumbered
  rw [NameTable.contains_mapValues]
  split <;> rfl

theorem warn_unnumbered (extraction : Extraction) (warnings : List Warning) :
    extraction.unnumbered.warn (warnings.map Warning.unnumbered) =
      (extraction.warn warnings).unnumbered := by
  unfold warn unnumbered
  rw [List.map_append]

theorem Takes.unnumbered {card image : Card} {opened next : Option OpenDefinition}
    {table found : DefinitionTable} {warnings : List Warning}
    (takes : Takes directives policy card opened table image next found warnings) :
    Takes directives policy card.unnumbered (opened.map OpenDefinition.unnumbered)
      table.unnumbered image.unnumbered (next.map OpenDefinition.unnumbered) found.unnumbered
      (warnings.map Warning.unnumbered) := by
  cases takes with
  | idle opened table idle => exact .idle _ _ idle
  | begin table header live starts named => exact .begin _ header live starts named
  | enter opened table live starts =>
      rw [Option.map_some, Option.map_some, ← enter_unnumbered]
      exact .enter _ _ live starts
  | close opened table built live notStart ends outermost whole =>
      have renamed : built.unnumbered = Definition.build directives policy
          opened.unnumbered.header opened.unnumbered.body opened.unnumbered.start.number := by
        rw [whole]
        exact (Definition.build_unnumbered ..).symm
      have inserted : DefinitionTable.unnumbered (table.insert built.name built) =
          NameTable.insert table.unnumbered built.unnumbered.name built.unnumbered :=
        (NameTable.insert_mapValues ..).symm
      rw [inserted, ← redefinition_unnumbered]
      exact .close _ _ _ live notStart ends outermost renamed
  | leave opened table live notStart ends inner =>
      rw [Option.map_some, Option.map_some, ← leave_unnumbered]
      exact .leave _ _ live notStart ends inner
  | push opened table live notStart notEnd =>
      rw [Option.map_some, Option.map_some, ← push_unnumbered]
      exact .push _ _ live notStart notEnd
  | keep table live notStart notEnd => exact .keep _ live notStart notEnd

theorem Stops.unnumbered {card : Card} {opened : Option OpenDefinition} {fault : Fault}
    (stops : Stops directives card opened fault) :
    Stops directives card.unnumbered (opened.map OpenDefinition.unnumbered) fault := by
  cases stops with
  | unnamed fault live starts unnamed => exact .unnamed fault live starts unnamed
  | stray live notStart ends => exact .stray live notStart ends

/-- Extraction does not look at line numbers. -/
theorem runFrom_unnumbered (opened : Option OpenDefinition) (table : DefinitionTable)
    (deck : Deck) :
    runFrom directives policy phase (opened.map OpenDefinition.unnumbered) table.unnumbered
        deck.unnumbered =
      (runFrom directives policy phase opened table deck).unnumbered := by
  induction deck generalizing opened table with
  | nil => cases opened <;> rfl
  | cons card rest ih =>
      rw [Deck.unnumbered_cons]
      rcases takes_or_stops directives policy opened table card with
        ⟨fault, stops⟩ | ⟨image, next, found, warnings, takes⟩
      · rw [stops.runFrom_eq, stops.unnumbered.runFrom_eq]
        rfl
      · rw [takes.runFrom_eq, takes.unnumbered.runFrom_eq, ih, warn_unnumbered]
        rfl

end Extraction

/-! ## Scopes -/

namespace Scopes

variable {policy : CasePolicy}

theorem frames_unnumbered (scopes : Scopes policy) :
    scopes.unnumbered.frames = scopes.frames.map Frame.unnumbered := rfl

theorem models_unnumbered (scopes : Scopes policy) :
    scopes.unnumbered.models = scopes.models := by
  unfold models
  rw [frames_unnumbered, List.map_map]
  rfl

theorem definition?_unnumbered (scopes : Scopes policy) (name : Text) :
    scopes.unnumbered.definition? name = (scopes.definition? name).map Definition.unnumbered := by
  unfold definition?
  rw [frames_unnumbered]
  induction scopes.frames with
  | nil => rfl
  | cons frame outer ih =>
      rw [List.map_cons, List.findSome?_cons, List.findSome?_cons, ih]
      have here : frame.unnumbered.definitions.get? name =
          (frame.definitions.get? name).map Definition.unnumbered := NameTable.get?_mapValues ..
      rw [here]
      cases frame.definitions.get? name <;> rfl

theorem enter?_unnumbered (scopes : Scopes policy) :
    scopes.unnumbered.enter? = scopes.enter?.map unnumbered := by
  have depth : scopes.unnumbered.depth = scopes.depth := by
    unfold Scopes.depth
    rw [frames_unnumbered, List.length_map]
  have capacity : scopes.unnumbered.capacity = scopes.capacity := rfl
  unfold enter?
  rw [depth, capacity]
  split <;> rfl

theorem leave_unnumbered (scopes : Scopes policy) :
    scopes.unnumbered.leave = scopes.leave.unnumbered := by
  obtain ⟨capacity, top, outer⟩ := scopes
  cases outer <;> rfl

end Scopes

/-! ## Renaming -/

namespace Renamer

variable {config : Config} (renamer : Renamer config)

theorem modelCards_unnumbered (models : ModelAliases config.casePolicy) (deck : Deck) :
    renamer.modelCards models deck.unnumbered =
      ((renamer.modelCards models deck).1, (renamer.modelCards models deck).2.unnumbered) := by
  have here (models : ModelAliases config.casePolicy) (card : Card) :
      renamer.modelCard models card.unnumbered =
        ((renamer.modelCard models card).1, (renamer.modelCard models card).2.unnumbered) := by
    unfold modelCard
    rw [Card.isLive_unnumbered, Card.keyword_unnumbered, Card.text_unnumbered]
    split
    · split <;> rfl
    · rfl
  induction deck generalizing models with
  | nil => rfl
  | cons card rest ih =>
      rw [Deck.unnumbered_cons, modelCards, modelCards, here]
      simp only [ih]
      rfl

theorem bodyCards_unnumbered (scopes : Scopes config.casePolicy) (deck : Deck) :
    renamer.bodyCards scopes.unnumbered deck.unnumbered =
      ((renamer.bodyCards scopes deck).1.unnumbered,
        (renamer.bodyCards scopes deck).2.map Diagnosis.unnumbered) := by
  have here (card : Card) : renamer.bodyCard scopes.unnumbered card.unnumbered =
      (renamer.bodyCard scopes card).map Card.unnumbered := by
    have line := renamer.deviceLine_congr (fun _ => rfl) scopes.models_unnumbered card.text
    unfold bodyCard
    rw [Card.isLive_unnumbered, Card.keyword_unnumbered, Card.text_unnumbered, line]
    split
    · rfl
    · split
      · split <;> rfl
      · split <;> rfl
  induction deck with
  | nil => rfl
  | cons card rest ih =>
      rw [Deck.unnumbered_cons, bodyCards, bodyCards, here, ih]
      cases renamer.bodyCard scopes card <;> rfl

/-- Renaming a body does not look at line numbers. -/
theorem body_unnumbered (scopes : Scopes config.casePolicy) (deck : Deck) :
    renamer.body scopes.unnumbered deck.unnumbered =
      ⟨(renamer.body scopes deck).deck.unnumbered, (renamer.body scopes deck).scopes.unnumbered,
        (renamer.body scopes deck).failure.map Diagnosis.unnumbered⟩ := by
  have top : scopes.unnumbered.top.models = scopes.top.models := rfl
  have inside (models : ModelAliases config.casePolicy) :
      scopes.unnumbered.withModels models = (scopes.withModels models).unnumbered := rfl
  unfold body
  rw [top, modelCards_unnumbered]
  dsimp only
  rw [inside, bodyCards_unnumbered]

end Renamer

/-! ## Expansion -/

namespace Progress

variable {policy : CasePolicy}

theorem warn_unnumbered (progress : Progress policy) (warnings : List Warning) :
    progress.unnumbered.warn (warnings.map Warning.unnumbered) =
      (progress.warn warnings).unnumbered := by
  unfold warn unnumbered
  rw [List.map_append]

theorem reportUnknown_unnumbered (progress : Progress policy) (name : Text) (card : Card) :
    progress.unnumbered.reportUnknown name card.unnumbered =
      (progress.reportUnknown name card).unnumbered := by
  have reported : progress.unnumbered.reported = progress.reported := rfl
  unfold reportUnknown
  rw [reported]
  split
  · rfl
  · unfold unnumbered
    dsimp only
    rw [List.map_append]
    rfl

end Progress

namespace Expansion

variable {config : Config} (catalog : Catalog)

/-- What a call becomes, without line numbers. -/
def unnumberedReplacement (replacement : Replacement config) : Replacement config :=
  (replacement.1.unnumbered,
    match replacement.2 with
    | .error diagnosis => .error diagnosis.unnumbered
    | .ok cards => .ok cards.unnumbered)

/-- The expander does not look at line numbers. -/
def Blind (expand : Expander config) : Prop :=
  ∀ params deck progress, expand params deck.unnumbered progress.unnumbered =
    (expand params deck progress).unnumbered

section Calls

variable {below : Option (Expander config)} (blind : ∀ expand, below = some expand → Blind expand)
  (depth : Nat) (params : ParamTable) (card : Card)

theorem finishCall_unnumbered (call : Call) (definition : Definition)
    (pins : Pins config.casePolicy) (level : Level config.casePolicy) :
    finishCall catalog depth card.unnumbered call definition.unnumbered pins level.unnumbered =
      unnumberedReplacement (finishCall catalog depth card call definition pins level) := by
  obtain ⟨progress, params, deck, failure⟩ := level
  cases failure with
  | some diagnosis =>
      unfold finishCall Level.unnumbered unnumberedReplacement
      dsimp only [Option.map_some]
      exact congrArg (fun scopes => (progress.unnumbered.withScopes scopes, _))
        (Scopes.leave_unnumbered progress.scopes)
  | none =>
      have globals : progress.unnumbered.globals = progress.globals := rfl
      have scopes : progress.unnumbered.scopes = progress.scopes.unnumbered := rfl
      unfold finishCall Level.unnumbered unnumberedReplacement
      dsimp only [Option.map_none]
      rw [globals, scopes, Renamer.body_unnumbered]
      generalize Renamer.body (⟨catalog, call.inst, pins, params, progress.globals⟩ :
        Renamer config) progress.scopes deck = renamed
      obtain ⟨cards, inner, failure⟩ := renamed
      dsimp only
      rw [Scopes.leave_unnumbered, Deck.liveTexts_unnumbered]
      cases failure with
      | some diagnosis => rfl
      | none => rfl

theorem unresolvedCall_unnumbered (call : Call) (name : Text)
    (progress : Progress config.casePolicy) :
    unresolvedCall catalog depth params card.unnumbered call name progress.unnumbered =
      unnumberedReplacement (unresolvedCall catalog depth params card call name progress) := by
  unfold unresolvedCall
  cases config.deviceLetter? call.inst with
  | some letter => rfl
  | none =>
      dsimp only
      rw [Progress.reportUnknown_unnumbered]
      rfl

include blind

theorem enterCall_unnumbered (call : Call) (definition : Definition)
    (progress : Progress config.casePolicy) :
    enterCall catalog below depth params card.unnumbered call definition.unnumbered
        progress.unnumbered =
      unnumberedReplacement
        (enterCall catalog below depth params card call definition progress) := by
  have entered : progress.unnumbered.scopes.enter? = progress.scopes.enter?.map Scopes.unnumbered :=
    Scopes.enter?_unnumbered progress.scopes
  have name : definition.unnumbered.name = definition.name := rfl
  have formals : definition.unnumbered.formals = definition.formals := rfl
  unfold enterCall
  rw [entered, name, formals]
  cases (Pins.connect definition.name definition.formals call.actuals :
      Except Fault (Pins config.casePolicy)) with
  | error fault => rfl
  | ok pins =>
      cases below with
      | none => rfl
      | some expand =>
          cases progress.scopes.enter? with
          | none => rfl
          | some scopes =>
              have inner := blind expand rfl
                (Call.layer config.merge params definition.defaults call.assignments)
                definition.body (progress.withScopes scopes)
              have finished := finishCall_unnumbered catalog depth card call definition pins
                (expand (Call.layer config.merge params definition.defaults call.assignments)
                  definition.body (progress.withScopes scopes))
              rw [← inner] at finished
              exact finished

theorem expandCall_unnumbered (progress : Progress config.casePolicy) :
    expandCall catalog below depth params card.unnumbered progress.unnumbered =
      unnumberedReplacement (expandCall catalog below depth params card progress) := by
  unfold expandCall
  rw [Card.text_unnumbered]
  cases Call.read? card.text with
  | none => rfl
  | some call =>
      have found : progress.unnumbered.scopes.definition? (call.target params) =
          (progress.scopes.definition? (call.target params)).map Definition.unnumbered :=
        Scopes.definition?_unnumbered progress.scopes (call.target params)
      dsimp only
      rw [found]
      cases progress.scopes.definition? (call.target params) with
      | none => exact unresolvedCall_unnumbered catalog depth params card call _ progress
      | some definition =>
          have empty : definition.unnumbered.isEmpty = definition.isEmpty :=
            Deck.isBlank_unnumbered definition.body
          dsimp only [Option.map_some]
          rw [empty]
          split
          · exact congrArg (·, _) (progress.warn_unnumbered [.ofCard card _])
          · exact enterCall_unnumbered catalog blind depth params card call definition progress

theorem walk_unnumbered (deck : Deck) (progress : Progress config.casePolicy) :
    walk catalog below depth params deck.unnumbered progress.unnumbered =
      (walk catalog below depth params deck progress).unnumbered := by
  have behind (cards : Deck) (level : Level config.casePolicy) :
      level.unnumbered.behind cards.unnumbered = (level.behind cards).unnumbered := by
    unfold Level.behind Level.unnumbered
    rw [Deck.unnumbered_append]
  induction deck generalizing progress with
  | nil => rfl
  | cons card rest ih =>
      rw [Deck.unnumbered_cons, walk, walk, Card.isLive_unnumbered, Card.keyword_unnumbered,
        expandCall_unnumbered catalog blind]
      split
      · rw [ih]
        exact behind [card] _
      · split
        · rcases expandCall catalog below depth params card progress with
            ⟨middle, diagnosis | cards⟩
          · rfl
          · dsimp only [unnumberedReplacement]
            rw [ih]
            exact behind cards _
        · rw [ih]
          exact behind [{ card with text := substituteAt config catalog depth params card.text }] _

end Calls

theorem extractionOf_unnumbered (deck : Deck) (progress : Progress config.casePolicy) :
    extractionOf deck.unnumbered progress.unnumbered = (extractionOf deck progress).unnumbered :=
  Extraction.runFrom_unnumbered none progress.scopes.top.definitions deck

theorem progressBefore_unnumbered (deck : Deck) (progress : Progress config.casePolicy) :
    progressBefore deck.unnumbered progress.unnumbered =
      (progressBefore deck progress).unnumbered := by
  have names : (extractionOf deck progress).deck.unnumbered.modelNames config.directives =
      (extractionOf deck progress).deck.modelNames config.directives := by
    unfold Deck.modelNames
    rw [Deck.live_unnumbered, Deck.unnumbered, List.filter_map, List.filterMap_map]
    rfl
  have warned := (progress.withScopes (progress.scopes.withTop { progress.scopes.top with
    definitions := (extractionOf deck progress).definitions })).warn_unnumbered
      (extractionOf deck progress).warnings
  have seeded (progress : Progress config.casePolicy) (names : List Text) :
      progress.unnumbered.seedModels names = (progress.seedModels names).unnumbered := rfl
  unfold progressBefore
  rw [← seeded, ← warned, ← names, extractionOf_unnumbered]
  rfl

theorem collect_unnumbered (depth : Nat) (params : ParamTable) (deck : Deck)
    (progress : Progress config.casePolicy) :
    collect depth params deck.unnumbered progress.unnumbered =
      ((collect depth params deck progress).1.unnumbered,
        (collect depth params deck progress).2.1,
        (collect depth params deck progress).2.2.unnumbered) := by
  have taken (bound : Bindings) (deck : Deck) :
      deck.unnumbered.collectParams config.directives bound =
        ((deck.collectParams config.directives bound).1,
          (deck.collectParams config.directives bound).2.unnumbered) := by
    induction deck generalizing bound with
    | nil => rfl
    | cons card rest ih =>
        rw [Deck.unnumbered_cons, Deck.collectParams, Deck.collectParams, Card.isLive_unnumbered,
          Card.keyword_unnumbered, Card.operand_unnumbered]
        split
        · rw [ih]
          rfl
        · rw [ih]
          rfl
  have names : deck.unnumbered.globalNames config.directives =
      deck.globalNames config.directives := by
    unfold Deck.globalNames
    rw [Deck.live_unnumbered, Deck.unnumbered, List.filter_map, List.flatMap_map]
    rfl
  unfold collect
  split
  · rw [taken, names]
    rfl
  · rfl

section Levels

variable {below : Option (Expander config)} (blind : ∀ expand, below = some expand → Blind expand)

include blind

theorem blind_levelWith (depth : Nat) :
    Blind (levelWith catalog below depth : Expander config) := by
  intro params deck progress
  have extracted := extractionOf_unnumbered deck progress
  cases lifted : (extractionOf deck progress).failure with
  | some diagnosis =>
      have twin : (extractionOf deck.unnumbered progress.unnumbered).failure =
          some diagnosis.unnumbered := by
        rw [extracted]
        exact congrArg (Option.map Diagnosis.unnumbered) lifted
      rw [levelWith_of_failed catalog lifted, levelWith_of_failed catalog twin, extracted]
      rfl
  | none =>
      have twin : (extractionOf deck.unnumbered progress.unnumbered).failure = none := by
        rw [extracted]
        exact congrArg (Option.map Diagnosis.unnumbered) lifted
      have opened : opening depth params deck.unnumbered progress.unnumbered =
          ((opening depth params deck progress).1.unnumbered,
            (opening depth params deck progress).2.1,
            (opening depth params deck progress).2.2.unnumbered) := by
        unfold opening
        rw [extracted, progressBefore_unnumbered]
        exact collect_unnumbered depth params _ _
      rw [levelWith_of_lifted catalog lifted, levelWith_of_lifted catalog twin, opened]
      exact walk_unnumbered catalog blind depth _ _ _

end Levels

/-- Expansion does not look at line numbers. -/
theorem blind_expandAt (depth : Nat) : Blind (expandAt catalog depth : Expander config) := by
  have levels (room : Nat) : ∀ depth, Blind (expandLevel catalog room depth : Expander config) := by
    induction room with
    | zero =>
        intro depth
        apply blind_levelWith
        intro expand impossible
        cases impossible
    | succ room ih =>
        intro depth
        apply blind_levelWith
        rintro expand ⟨⟩
        exact ih (depth + 1)
  intro params deck progress
  -- both sides descend through the same number of levels
  have room : progress.unnumbered.scopes.room = progress.scopes.room := by
    show progress.scopes.capacity - (progress.scopes.frames.map Frame.unnumbered).length = _
    rw [List.length_map]
    rfl
  unfold expandAt
  rw [room]
  exact levels progress.scopes.room depth params deck progress

namespace Visit

/-- The level without line numbers. -/
def unnumbered (visit : Visit config) : Visit config :=
  { visit with deck := visit.deck.unnumbered, progress := visit.progress.unnumbered }

theorem expand_unnumbered (visit : Visit config) :
    visit.unnumbered.expand catalog = (visit.expand catalog).unnumbered :=
  blind_expandAt catalog visit.depth visit.params visit.deck visit.progress

theorem top_unnumbered (frame : Frame config.casePolicy) (bound : Bindings) (deck : Deck) :
    (top frame bound deck : Visit config).unnumbered = top frame.unnumbered bound deck.unnumbered :=
  rfl

end Visit

end Expansion

end Netlist

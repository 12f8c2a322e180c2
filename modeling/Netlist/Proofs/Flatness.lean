import Netlist.Proofs.Body
import Netlist.Proofs.Directive
import Netlist.Proofs.Walk

/-!
# Flat netlists

An expansion that succeeds leaves no live call, no live delimiter of a
definition and no live parameter statement, however deep the calls were
nested.  A call is replaced or reported, a delimiter is disabled with its
definition, a parameter statement is disabled at the top level or when its
definition is built, and no rewriting turns another statement into one of
these.
-/

namespace Netlist

/-! ## Rewriting keeps statements flat -/

namespace Renamer

variable {config : Config} (renamer : Renamer config)

theorem flat_namedCard (spellings : config.directives = {}) {card : Card}
    (flat : Directives.Flat {} card.keyword) :
    Directives.Flat {} (renamer.namedCard card).keyword := by
  rcases renamer.namedCard_cases card with same | ⟨name, image, line, -, model, named, made⟩
  · rw [same]
    exact flat
  · have keyword := Directives.modelKeyword_of_isModel spellings model
    have kept := renamer.firstWord_modelLine? keyword.solid named
    rw [made]
    show Directives.Flat {} (Text.firstWord line)
    rw [kept]
    exact flat

theorem flat_bodyCard {scopes : Scopes config.casePolicy} {card image : Card}
    (flat : Directives.Flat {} card.keyword)
    (renamed : renamer.bodyCard scopes card = .ok image) :
    Directives.Flat {} image.keyword := by
  rcases renamer.bodyCard_cases renamed with
    same | ⟨-, device, text, line, made⟩ | ⟨-, point, made⟩
  · rw [same]
    exact flat
  · obtain ⟨c, lead, letter⟩ := exists_letter_of_startsDevice device
    rw [made]
    exact flat.of_letter lead letter (renamer.head?_firstWord_deviceLine device line)
  · rw [made]
    exact flat.of_spellsAlike point (renamer.spellsAlike_controlLine point)

/-- The live cards of a deck ask for no expansion. -/
def FlatDeck (deck : Deck) : Prop :=
  ∀ card ∈ deck, card.isLive = true → Directives.Flat {} card.keyword

theorem flat_body (spellings : config.directives = {}) {scopes : Scopes config.casePolicy}
    {deck : Deck} (flat : FlatDeck deck) (ok : (renamer.body scopes deck).failure = none) :
    FlatDeck (renamer.body scopes deck).deck := by
  intro image member live
  obtain ⟨card, inside, renamed⟩ := renamer.exists_source_of_mem_body ok member
  rw [renamer.isLive_bodyCard renamed, renamer.isLive_namedCard] at live
  exact renamer.flat_bodyCard (renamer.flat_namedCard spellings (flat card inside live)) renamed

end Renamer

namespace Expansion

variable {config : Config} (catalog : Catalog)

theorem flat_substituteTop (spellings : config.directives = {}) (params : ParamTable)
    {text : Text} (flat : Directives.Flat {} (Text.firstWord text)) :
    Directives.Flat {} (Text.firstWord (substituteTop config catalog params text)) := by
  have models : config.directives.isModel (Text.firstWord text) = true →
      Word.Solid (Text.firstWord text) := by
    intro model
    exact (Directives.modelKeyword_of_isModel spellings model).solid
  cases device : Renamer.startsDevice (Text.firstWord text) with
  | true =>
      obtain ⟨c, lead, letter⟩ := Renamer.exists_letter_of_startsDevice device
      exact flat.of_letter lead letter
        (head?_firstWord_substituteTop config catalog params text models)
  | false =>
      rw [firstWord_substituteTop config catalog params device models]
      exact flat

theorem flat_substituteAt (spellings : config.directives = {}) (depth : Nat)
    (params : ParamTable) {text : Text} (flat : Directives.Flat {} (Text.firstWord text)) :
    Directives.Flat {} (Text.firstWord (substituteAt config catalog depth params text)) := by
  unfold substituteAt
  split
  · exact flat_substituteTop catalog spellings params flat
  · exact flat

end Expansion

/-! ## Definitions that have been built -/

namespace Formals

theorem exists_tie_of_mem_separateFrom {policy : CasePolicy} {taken seen : NameSet policy}
    {ties : Nat} {formals : List Text} {card : Card}
    (member : card ∈ (separateFrom taken seen ties formals).2) :
    ∃ count formal image, card = tie count formal image := by
  induction formals generalizing taken seen ties with
  | nil => cases member
  | cons formal rest ih =>
      rw [separateFrom] at member
      split at member
      · rcases List.mem_cons.mp member with here | there
        · exact ⟨_, _, _, here⟩
        · exact ih there
      · exact ih member

theorem head?_keyword_tie (count : Nat) (formal image : Text) :
    (tie count formal image).keyword.head? = some 'v' := by
  have solid : isBlank 'v' = false := by decide
  have front : Text.Stops isBlank (tie count formal image).text := by
    apply Text.Stops.congr (Text.stops_cons.mpr solid : Text.Stops isBlank ['v'])
    rfl
  rw [Card.keyword, Text.head?_firstWord, Text.trimStart_of_stops front]
  rfl

theorem flat_tie (count : Nat) (formal image : Text) :
    Directives.Flat {} (tie count formal image).keyword :=
  Directives.flat_default_of_lead (head?_keyword_tie count formal image) (by decide) (by decide)

end Formals

namespace Definition

/-- A definition keeps no live parameter statement of its own. -/
theorem settled_build (policy : CasePolicy) (header : Header) (body : Deck) (number : Nat) :
    (build {} policy header body number).Settled {} := by
  intro card member live
  have plain : ∀ card ∈ (Formals.separate policy header.formals).2, card.isLive = true ∧
      Directives.isStart {} card.keyword = false ∧ Directives.isEnd {} card.keyword = false := by
    intro card inside
    obtain ⟨count, formal, image, rfl⟩ := Formals.exists_tie_of_mem_separateFrom inside
    have flat := Formals.flat_tie count formal image
    exact ⟨rfl, flat.notStart, flat.notEnd⟩
  have parts : card ∈ (Formals.separate policy header.formals).2 ++
      (takeParams {} 0 ⟨header.defaults, .empty⟩ body).2.liftDefinitions {} 0 := by
    rw [← Deck.liftDefinitions_append {} plain]
    exact member
  rcases List.mem_append.mp parts with tied | kept
  · obtain ⟨count, formal, image, rfl⟩ := Formals.exists_tie_of_mem_separateFrom tied
    exact (Formals.flat_tie count formal image).notParam
  · exact not_isParam_takeParams {} kept live

/-- All definitions of a table are settled. -/
def AllSettled (table : DefinitionTable) : Prop := ∀ entry ∈ table.entries, entry.2.Settled {}

theorem allSettled_empty : AllSettled .empty := by
  intro entry member
  cases member

theorem allSettled_run {policy : CasePolicy} {phase : Phase} {table : DefinitionTable}
    (settled : AllSettled table) (deck : Deck) :
    AllSettled (Extraction.run {} policy phase table deck).definitions := by
  intro entry member
  rcases Extraction.mem_definitions_runFrom phase member with
    known | ⟨header, body, number, built⟩
  · exact settled entry known
  · rw [built]
    exact settled_build policy header body number

end Definition

namespace Scopes

variable {policy : CasePolicy}

/-- What holds of every definition of every frame. -/
def Every (holds : Definition → Prop) (scopes : Scopes policy) : Prop :=
  ∀ frame ∈ scopes.frames, ∀ entry ∈ frame.definitions.entries, holds entry.2

section Every

variable {holds : Definition → Prop} {scopes inner : Scopes policy}

theorem Every.definition? (every : scopes.Every holds) {name : Text} {definition : Definition}
    (known : scopes.definition? name = some definition) : holds definition := by
  obtain ⟨frame, inside, found⟩ := List.exists_of_findSome?_eq_some known
  obtain ⟨entry, member, rfl⟩ := NameTable.exists_mem_of_get? found
  exact every frame inside entry member

theorem Every.enter? (every : scopes.Every holds) (entered : scopes.enter? = some inner) :
    inner.Every holds := by
  intro frame member
  rw [frames_enter? entered] at member
  rcases List.mem_cons.mp member with here | there
  · rw [here]
    intro entry impossible
    cases impossible
  · exact every frame there

theorem Every.withTop (every : scopes.Every holds) {top : Frame policy}
    (here : ∀ entry ∈ top.definitions.entries, holds entry.2) :
    (scopes.withTop top).Every holds := by
  intro frame member
  rcases List.mem_cons.mp member with found | outside
  · rw [found]
    exact here
  · exact every frame (List.mem_cons_of_mem _ outside)

end Every

/-- The definitions of every frame are settled. -/
def Settled (scopes : Scopes policy) : Prop :=
  ∀ frame ∈ scopes.frames, Definition.AllSettled frame.definitions

theorem Settled.definition? {scopes : Scopes policy} (settled : scopes.Settled) {name : Text}
    {definition : Definition} (known : scopes.definition? name = some definition) :
    definition.Settled {} :=
  Every.definition? settled known

theorem Settled.enter? {scopes inner : Scopes policy} (settled : scopes.Settled)
    (entered : scopes.enter? = some inner) : inner.Settled :=
  Every.enter? settled entered

theorem Settled.withTop {scopes : Scopes policy} (settled : scopes.Settled)
    {top : Frame policy} (here : Definition.AllSettled top.definitions) :
    (scopes.withTop top).Settled :=
  Every.withTop settled here

theorem Settled.top {scopes : Scopes policy} (settled : scopes.Settled) :
    Definition.AllSettled scopes.top.definitions :=
  settled scopes.top (List.mem_cons_self ..)

end Scopes

/-! ## Walks leave flat decks -/

namespace Config

/-- A device letter comes from one of the leads. -/
theorem exists_lead_of_deviceLetter? {config : Config} {name : Text} {letter : Char}
    (mapped : config.deviceLetter? name = some letter) :
    ∃ entry ∈ config.deviceLeads.entries, entry.2 = letter := by
  have fold (entries : List (Text × Char)) (best : Option (Text × Char)) {entry : Text × Char}
      (found : entries.foldl longerLead best = some entry) :
      entry ∈ entries ∨ best = some entry := by
    induction entries generalizing best with
    | nil => exact .inr found
    | cons first rest ih =>
        rcases ih _ found with later | now
        · exact .inl (List.mem_cons_of_mem _ later)
        · unfold longerLead at now
          split at now
          · cases now
            exact .inl (List.mem_cons_self ..)
          · split at now
            · cases now
              exact .inl (List.mem_cons_self ..)
            · exact .inr now
  obtain ⟨entry, found, rfl⟩ := Option.map_eq_some_iff.mp mapped
  rcases fold _ none found with inside | impossible
  · exact ⟨entry, (List.mem_filter.mp inside).1, rfl⟩
  · cases impossible

/-- No lead stands for a letter that makes a call or a directive of a line. -/
def PlainLetters (config : Config) : Prop :=
  ∀ entry ∈ config.deviceLeads.entries,
    entry.2 ≠ 'x' ∧ entry.2 ≠ 'X' ∧ entry.2 ≠ '.' ∧ isBlank entry.2 = false

theorem PlainLetters.flat {config : Config} (plain : config.PlainLetters) {name : Text}
    {letter : Char} (mapped : config.deviceLetter? name = some letter) (rest : Text) :
    Directives.Flat {} (Text.firstWord (letter :: rest)) := by
  obtain ⟨entry, member, rfl⟩ := exists_lead_of_deviceLetter? mapped
  obtain ⟨small, capital, notPoint, solid⟩ := plain entry member
  have lead : (Text.firstWord (entry.2 :: rest)).head? = some entry.2 := by
    rw [Text.head?_firstWord, Text.trimStart_of_stops (Text.stops_cons.mpr solid)]
    rfl
  exact Directives.flat_default_of_lead lead notPoint (Text.toLower_ne_x small capital)

end Config

namespace Expansion

open Renamer (FlatDeck)

variable {config : Config} (catalog : Catalog)

/-- No live card delimits a definition or states parameters. -/
def Bare (deck : Deck) : Prop :=
  ∀ card ∈ deck, card.isLive = true →
    Directives.isStart {} card.keyword = false ∧ Directives.isEnd {} card.keyword = false ∧
      Directives.isParam {} card.keyword = false

/-- An expander that leaves flat cards of the bodies of settled definitions, unless something is
reported. -/
def FlattensBodies (expand : Expander config) : Prop :=
  ∀ params deck progress, (expand params deck progress).failure = none →
    progress.scopes.Settled → progress.Consistent → Bare (deck.liftDefinitions {} 0) →
    (expand params deck progress).progress.unresolved = [] →
    FlatDeck (expand params deck progress).deck

theorem flatDeck_of_idle {card : Card} (idle : card.isLive = false) : FlatDeck [card] := by
  intro other member live
  rw [List.mem_singleton.mp member, idle] at live
  cases live

theorem bare_of_settled {definition : Definition} (settled : definition.Settled {}) :
    Bare (definition.body.liftDefinitions {} 0) := by
  intro card member live
  have outside := Deck.not_delimits_of_mem_liftDefinitions {} member live
  exact ⟨outside.1, outside.2, settled card member live⟩

/-- A call becomes flat cards, or it is reported. -/
theorem Replaces.flat (spellings : config.directives = {}) (plain : config.PlainLetters)
    {below : Option (Expander config)} {depth : Nat} {params : ParamTable} {card : Card}
    {progress next : Progress config.casePolicy} {cards : Deck}
    (deeper : ∀ expand, below = some expand → FlattensBodies expand)
    (settled : progress.scopes.Settled) (consistent : progress.Consistent)
    (replaces : Replaces catalog below depth params card progress next cards)
    (quiet : next.unresolved = []) : FlatDeck cards := by
  cases replaces with
  | device call letter read unknown mapped =>
      intro image member _
      rw [List.mem_singleton.mp member]
      exact flat_substituteAt catalog spellings depth params (plain.flat mapped _)
  | unknown call read unknown unmapped =>
      exact absurd quiet (consistent.reportUnknown (call.target params) card)
  | dropped call definition warning read known empty =>
      exact flatDeck_of_idle (Card.isLive_disable card)
  | inlined inlining whole renamed =>
      have body := deeper inlining.expand inlining.deeper _ _ _ whole
        (settled.enter? inlining.entered) consistent
        (bare_of_settled (settled.definition? inlining.known)) quiet
      intro image member live
      rcases List.mem_cons.mp member with here | there
      · rw [here, Card.isLive_disable] at live
        cases live
      · exact Renamer.flat_body _ spellings body renamed image there live

/-- A walk over bare cards leaves flat ones, or something is reported. -/
theorem Walks.flat (spellings : config.directives = {}) (plain : config.PlainLetters)
    {below : Option (Expander config)} {depth : Nat} {params : ParamTable} {deck out : Deck}
    {progress next : Progress config.casePolicy}
    (deeper : ∀ expand, below = some expand → FlattensBodies expand)
    (tame : TameBelow (depth + 1) below)
    (walks : Walks catalog below depth params deck progress out next)
    (settled : progress.scopes.Settled) (consistent : progress.Consistent) (bare : Bare deck)
    (quiet : next.unresolved = []) : FlatDeck out := by
  induction walks with
  | nil progress =>
      intro card member
      cases member
  | idle idle tail ih =>
      have rest := ih settled consistent (List.forall_mem_cons.mp bare).2 quiet
      exact List.forall_mem_cons.mpr ⟨flatDeck_of_idle idle _ (List.mem_cons_self ..), rest⟩
  | call live calls replaces tail ih =>
      have grown := replaces.grows tame
      have quietHere := (tail.tame tame).2.unresolved quiet
      have first := replaces.flat catalog spellings plain deeper settled consistent quietHere
      have rest := ih (by rw [replaces.scopes_eq tame]; exact settled)
        (grown.consistent consistent) (List.forall_mem_cons.mp bare).2 quiet
      intro card member
      rcases List.mem_append.mp member with here | there
      · exact first card here
      · exact rest card there
  | @statement card rest out progress next live other tail ih =>
      have later := ih settled consistent (List.forall_mem_cons.mp bare).2 quiet
      obtain ⟨notStart, notEnd, notParam⟩ := bare card (List.mem_cons_self ..) live
      rw [spellings] at other
      have flat : Directives.Flat {} card.keyword := ⟨other, notStart, notEnd, notParam⟩
      refine List.forall_mem_cons.mpr ⟨fun _ => ?_, later⟩
      exact flat_substituteAt catalog spellings depth params flat

/-- Taking in the parameter statements leaves none of them live. -/
theorem mem_collectParams {directives : Directives} {bound : Bindings} {deck : Deck}
    {card : Card} (member : card ∈ (deck.collectParams directives bound).2)
    (live : card.isLive = true) :
    card ∈ deck ∧ directives.isParam card.keyword = false := by
  induction deck generalizing bound with
  | nil => cases member
  | cons first rest ih =>
      rw [Deck.collectParams] at member
      split at member
      · rcases List.mem_cons.mp member with here | there
        · rw [here, Card.isLive_disable] at live
          cases live
        · obtain ⟨inside, notParam⟩ := ih there
          exact ⟨List.mem_cons_of_mem _ inside, notParam⟩
      next other =>
        rcases List.mem_cons.mp member with here | there
        · refine ⟨here ▸ List.mem_cons_self .., ?_⟩
          rw [here] at live ⊢
          simpa [live] using other
        · obtain ⟨inside, notParam⟩ := ih there
          exact ⟨List.mem_cons_of_mem _ inside, notParam⟩

/-- A level walks bare cards: it states no parameters, or they are taken in before. -/
theorem bare_opening (spellings : config.directives = {}) {depth : Nat} {params : ParamTable}
    {deck : Deck} {progress : Progress config.casePolicy}
    (lifted : (extractionOf deck progress).failure = none)
    (stated : depth = 0 ∨ Bare (deck.liftDefinitions {} 0)) :
    Bare (opening depth params deck progress).2.2 := by
  unfold opening collect
  rw [deck_extractionOf lifted, spellings]
  split
  · intro card member live
    obtain ⟨inside, notParam⟩ := mem_collectParams member live
    have outside := Deck.not_delimits_of_mem_liftDefinitions {} inside live
    exact ⟨outside.1, outside.2, notParam⟩
  next inner =>
    rcases stated with top | bare
    · exact absurd top inner
    · exact bare

theorem allSettled_extractionOf (spellings : config.directives = {}) (deck : Deck)
    {progress : Progress config.casePolicy} (settled : progress.scopes.Settled) :
    Definition.AllSettled (extractionOf deck progress).definitions := by
  unfold extractionOf
  rw [spellings]
  exact Definition.allSettled_run settled.top deck

/-- Every level is flattened, the top level and the bodies of settled definitions alike. -/
theorem flat_expandLevel (spellings : config.directives = {}) (plain : config.PlainLetters)
    (room depth : Nat) (params : ParamTable) (deck : Deck)
    (progress : Progress config.casePolicy)
    (ok : (expandLevel catalog room depth params deck progress).failure = none)
    (settled : progress.scopes.Settled) (consistent : progress.Consistent)
    (stated : depth = 0 ∨ Bare (deck.liftDefinitions {} 0))
    (quiet : (expandLevel catalog room depth params deck progress).progress.unresolved = []) :
    FlatDeck (expandLevel catalog room depth params deck progress).deck := by
  refine expandLevel_induction catalog
    (motive := fun depth _ deck progress level =>
      progress.scopes.Settled → progress.Consistent →
        (depth = 0 ∨ Bare (deck.liftDefinitions {} 0)) →
        level.progress.unresolved = [] → FlatDeck level.deck)
    ?_ room depth params deck progress ok settled consistent stated quiet
  intro below depth tame deeper params deck progress ok settled consistent stated quiet
  obtain ⟨lifted, walks, -⟩ := walks_of_levelWith catalog ok
  have bodies : ∀ expand, below = some expand → FlattensBodies expand := by
    intro expand here params deck progress whole settled consistent bare
    exact deeper expand here params deck progress whole settled consistent (.inr bare)
  have frames : (opening depth params deck progress).1.scopes.Settled := by
    rw [scopes_opening]
    exact settled.withTop (allSettled_extractionOf spellings deck settled)
  exact walks.flat catalog spellings plain bodies tame frames
    ((grows_opening depth params deck progress).consistent consistent)
    (bare_opening spellings lifted stated) quiet

theorem flat_expandFrom (spellings : config.directives = {}) (plain : config.PlainLetters)
    {frame : Frame config.casePolicy} (settled : Definition.AllSettled frame.definitions)
    {bound : Bindings} {deck : Deck} {expansion : Expansion config.casePolicy}
    (ran : expandFrom config catalog frame bound deck = .ok expansion) :
    FlatDeck expansion.deck := by
  have start : (topProgress frame bound : Progress config.casePolicy).scopes.Settled := by
    refine Scopes.Settled.withTop ?_ settled
    intro frame member
    rw [List.mem_singleton.mp member]
    exact Definition.allSettled_empty
  obtain ⟨whole, quiet, rfl⟩ := topLevel_of_expandFrom catalog ran
  exact flat_expandLevel catalog spellings plain _ 0 _ _ _ whole start (fun _ => rfl) (.inl rfl)
    quiet

end Expansion

/-! ## Cache blocks -/

namespace CacheStore

/-- A store that was filled under the given directives, whatever else the configurations said. -/
inductive StoredUnder (directives : Directives) : CacheStore → Prop where
  | empty : StoredUnder directives .empty
  | add {store next : CacheStore} {stored : Bool} (config : Config) (name : Text) (deck : Deck)
      (bound : Bindings) (spellings : config.directives = directives)
      (added : store.add config name deck bound = .ok (stored, next))
      (before : StoredUnder directives store) : StoredUnder directives next
  | erase {store : CacheStore} (name : Text) (before : StoredUnder directives store) :
      StoredUnder directives (store.erase name)

theorem settled_build {config : Config} (spellings : config.directives = {}) {name : Text}
    {deck : Deck} {bound : Bindings} {block : CacheBlock}
    (built : CacheBlock.build config name deck bound = .ok block) :
    Definition.AllSettled block.definitions := by
  unfold CacheBlock.build at built
  dsimp only at built
  split at built
  · cases built
  · cases built
    rw [spellings]
    exact Definition.allSettled_run Definition.allSettled_empty deck

/-- Every block of a store was built under the directives that the store was filled under. -/
theorem StoredUnder.built {directives : Directives} {store : CacheStore}
    (history : StoredUnder directives store) :
    ∀ entry ∈ store.entries, ∃ config name deck bound, config.directives = directives ∧
      CacheBlock.build config name deck bound = .ok entry.2 := by
  induction history with
  | empty =>
      intro entry member
      cases member
  | add config name deck bound spellings added before ih =>
      unfold CacheStore.add at added
      split at added
      · cases added
        exact ih
      · split at added
        · cases added
        next block built =>
          cases added
          intro entry member
          rcases NameTable.mem_enter member with here | there
          · rw [here]
            exact ⟨config, name, deck, bound, spellings, built⟩
          · exact ih entry there
  | erase name before ih =>
      intro entry member
      exact ih entry (List.mem_filter.mp member).1

/-- Every definition in a store that was filled under the default directives is settled. -/
theorem StoredUnder.settled {store : CacheStore} (history : StoredUnder {} store) :
    ∀ entry ∈ store.entries, Definition.AllSettled entry.2.definitions := by
  intro entry member
  obtain ⟨config, name, deck, bound, spellings, built⟩ := history.built entry member
  exact settled_build spellings built

end CacheStore

namespace Expansion

variable {config : Config} (catalog : Catalog)

/-- An expansion that succeeds under the default directives leaves a flat deck: no live card is a
call, delimits a definition or states parameters. -/
theorem flat_of_run (spellings : config.directives = {}) (plain : config.PlainLetters)
    {store : CacheStore} (history : CacheStore.StoredUnder {} store) {bound : Bindings}
    {block : Option Text} {deck : Deck} {expansion : Expansion config.casePolicy}
    (ran : run config catalog store bound block deck = .ok expansion) :
    ∀ card ∈ expansion.deck, card.isLive = true →
      config.directives.isCall card.keyword = false ∧
      config.directives.isStart card.keyword = false ∧
      config.directives.isEnd card.keyword = false ∧
      config.directives.isParam card.keyword = false := by
  have flat : Renamer.FlatDeck expansion.deck := by
    unfold run at ran
    split at ran
    · exact flat_expandFrom catalog spellings plain Definition.allSettled_empty ran
    · split at ran
      · cases ran
      next cached found =>
        obtain ⟨entry, member, rfl⟩ := NameTable.exists_mem_of_get? found
        exact flat_expandFrom catalog spellings plain (history.settled entry member) ran
  intro card member live
  have here := flat card member live
  rw [spellings]
  exact ⟨here.notCall, here.notStart, here.notEnd, here.notParam⟩

/-- The store with one block, whose cards were read under the given configuration. -/
def storeOf (config : Config) (name : Text) (lines : List String) : CacheStore :=
  match CacheStore.add NameTable.empty config name (lines.map fun line => { text := line.toList })
      ⟨.empty, .empty⟩ with
  | .error _ => .empty
  | .ok (_, store) => store

theorem storedUnder_storeOf (config : Config) (name : Text) (lines : List String) :
    CacheStore.StoredUnder config.directives (storeOf config name lines) := by
  unfold storeOf
  split
  · exact .empty
  next stored store added => exact .add config name _ _ rfl added .empty

/-- Calls in a nested definition, a definition from a cache block and a device lead. -/
theorem flat_of_run_nested :
    ∃ expansion, run
        { casePolicy := .sensitive, merge := .local, order := .instanceFirst, separator := ':'
          deviceLeads := NameTable.empty.insert "xm".toList 'm' }
        .standard
        (storeOf {} "lib".toList [".subckt leaf a", ".param w=1", "r1 a 0 w", ".ends"])
        ⟨.empty, .empty⟩ (some "LIB".toList)
        ([".subckt top p", ".subckt inner q", ".param k=2", "c1 q 0 k", ".ends", "x2 p inner",
          "x3 p leaf", "xm4 p p p p nmos", ".ends", "x1 n top"].map
            fun line => { text := line.toList }) = .ok expansion ∧
      (∃ card ∈ expansion.deck, card.isLive = true) ∧
      ∀ card ∈ expansion.deck, card.isLive = true →
        Directives.isCall {} card.keyword = false ∧
        Directives.isStart {} card.keyword = false ∧
        Directives.isEnd {} card.keyword = false ∧
        Directives.isParam {} card.keyword = false := by
  refine exists_of_passes (fun expansion => expansion.deck.any Card.isLive) (by decide +kernel) ?_
  intro expansion ran live
  refine ⟨List.any_eq_true.mp live, flat_of_run .standard rfl ?_ (storedUnder_storeOf {} _ _) ran⟩
  intro entry member
  rw [List.mem_singleton.mp member]
  decide

/-- Both conditions are needed.  A lead that stands for a blank leaves its call live, although a
blank is neither an `x` nor a point.  A block that was stored under another spelling of parameter
statements leaves one of them live. -/
theorem not_flat_of_blank_letter_or_foreign_block :
    ((∀ entry ∈ (NameTable.empty.insert "x".toList ' ' : NameTable .sensitive Char).entries,
        entry.2 ≠ 'x' ∧ entry.2 ≠ 'X' ∧ entry.2 ≠ '.') ∧
      ∃ expansion, run { deviceLeads := NameTable.empty.insert "x".toList ' ' } .standard
          NameTable.empty ⟨.empty, .empty⟩ none [{ text := "x1 a b foo".toList, number := 1 }] =
            .ok expansion ∧
        ∃ card ∈ expansion.deck, (card.isLive && Directives.isCall {} card.keyword) = true) ∧
    ∃ expansion, run {} .standard
        (storeOf { directives := { param := ".par".toList } } "lib".toList
          [".subckt s a", ".param w=1", "r1 a 0 w", ".ends"])
        ⟨.empty, .empty⟩ (some "lib".toList) [{ text := "x1 n s".toList, number := 1 }] =
          .ok expansion ∧
      ∃ card ∈ expansion.deck, (card.isLive && Directives.isParam {} card.keyword) = true := by
  refine ⟨⟨?_, ?_⟩, ?_⟩
  · intro entry member
    rw [List.mem_singleton.mp member]
    decide
  · exact exists_of_passes (fun expansion => expansion.deck.any _) (by decide +kernel)
      fun _ _ found => List.any_eq_true.mp found
  · exact exists_of_passes (fun expansion => expansion.deck.any _) (by decide +kernel)
      fun _ _ found => List.any_eq_true.mp found

end Expansion

end Netlist

import Netlist.Proofs.CacheHistory
import Netlist.Proofs.Library
import Netlist.Proofs.ModelOrder

/-!
# Cache blocks and what stands in their place

A cache block is built apart from the netlist that names it: its definitions,
parameters, functions and models are stored, and the netlist is expanded over
them.  For a library of definitions, parameter statements and model statements
that comes to the same as writing the library into the netlist, except that
the models of a block stand in the order of their names.
-/

namespace Netlist

/-! ## Loading -/

/-- A deck with one cache block, and that in front. -/
structure CacheRegion (directives : Directives) where
  start : Card
  body : Deck
  stop : Card
  rest : Deck
  name : Text
  live : start.isLive = true
  starts : directives.isCacheStart start.keyword = true
  named : Text.declaredName? start.text = some name
  inside : ∀ card ∈ body, card.isLive = true → directives.isCacheEnd card.keyword = false
  stopLive : stop.isLive = true
  ends : directives.isCacheEnd stop.keyword = true
  uncached : ∀ card ∈ rest, card.isLive = true → directives.isCacheStart card.keyword = false

namespace CacheRegion

variable {directives : Directives} (region : CacheRegion directives)

def deck : Deck := region.start :: (region.body ++ region.stop :: region.rest)

/-- The cards of the block as they are left. -/
def disabled : Deck := (region.start :: (region.body ++ [region.stop])).map Card.disable

theorem idle_disabled : ∀ card ∈ region.disabled, card.isLive = false := by
  intro card member
  obtain ⟨other, -, rfl⟩ := List.mem_map.mp member
  exact other.isLive_disable

end CacheRegion

namespace Pipeline

variable (pipeline : Pipeline)

/-- A deck in which no cache block starts is left as it is. -/
theorem loadFrom_of_uncached {deck : Deck}
    (uncached : ∀ card ∈ deck, card.isLive = true →
      pipeline.config.directives.isCacheStart card.keyword = false)
    (store : CacheStore) (last : Option Text) :
    pipeline.loadFrom store last none deck = ⟨store, deck, last, none⟩ := by
  induction deck with
  | nil => rfl
  | cons card rest ih =>
      have later := ih fun card member => uncached card (List.mem_cons_of_mem _ member)
      rw [loadFrom]
      cases live : card.isLive with
      | false =>
          rw [if_pos (by simp), later]
          rfl
      | true =>
          rw [if_neg (by simp), if_neg (by simp [uncached card (List.mem_cons_self ..) live]),
            later]
          rfl

/-- Inside a cache block the live cards go into its body. -/
theorem loadFrom_inside {front : Deck}
    (inside : ∀ card ∈ front, card.isLive = true →
      pipeline.config.directives.isCacheEnd card.keyword = false)
    (store : CacheStore) (last : Option Text) (name : Text) (body rest : Deck) :
    pipeline.loadFrom store last (some ⟨name, body⟩) (front ++ rest) =
      let loaded := pipeline.loadFrom store last (some ⟨name, body ++ front.live⟩) rest
      { loaded with deck := front.map Card.disable ++ loaded.deck } := by
  induction front generalizing body with
  | nil => simp [Deck.live]
  | cons card front ih =>
      have later := ih fun card member => inside card (List.mem_cons_of_mem _ member)
      rw [List.cons_append, loadFrom]
      cases live : card.isLive with
      | false =>
          have same : card.disable = card := by
            obtain ⟨text, number, note, disabled⟩ := card
            cases disabled with
            | false => cases live
            | true => rfl
          rw [if_pos (by simp), later, Deck.live_cons_of_idle live, List.map_cons, same]
          rfl
      | true =>
          rw [if_neg (by simp)]
          dsimp only
          rw [if_neg (by simp [inside card (List.mem_cons_self ..) live]), later,
            Deck.live_cons_of_live live, List.append_assoc]
          rfl

/-- A deck with one cache block is left with the block disabled, unless it cannot be built. -/
theorem loadFrom_region (region : CacheRegion pipeline.config.directives) (store : CacheStore)
    (last : Option Text) :
    pipeline.loadFrom store last none region.deck =
      match store.add pipeline.config region.name region.body.live pipeline.bound with
      | .error diagnosis =>
          ⟨store, (region.start :: region.body).map Card.disable ++ region.stop :: region.rest,
            last, some diagnosis⟩
      | .ok (_, next) => ⟨next, region.disabled ++ region.rest, some region.name, none⟩ := by
  have whole : (region.start :: region.body).map Card.disable ++ region.stop.disable ::
      region.rest = region.disabled ++ region.rest := by simp [CacheRegion.disabled]
  rw [CacheRegion.deck, loadFrom, if_neg (by simp [region.live]), if_pos region.starts,
    region.named]
  dsimp only
  rw [pipeline.loadFrom_inside region.inside, loadFrom, if_neg (by simp [region.stopLive])]
  dsimp only
  rw [if_pos region.ends, List.nil_append]
  cases store.add pipeline.config region.name region.body.live pipeline.bound with
  | error diagnosis => rfl
  | ok result =>
      dsimp only
      rw [pipeline.loadFrom_of_uncached region.uncached, ← whole]
      rfl

/-- A run whose cache blocks are stored succeeds if its expansion does. -/
theorem toOption_conclude (title : Option Text) {loaded : Loaded}
    (ok : loaded.failure = none) :
    (pipeline.conclude title loaded).2.toOption =
      (Expansion.run pipeline.config pipeline.catalog loaded.store pipeline.bound loaded.last
        loaded.deck).toOption.map fun expansion => ⟨title, expansion⟩ := by
  unfold conclude
  rw [ok]
  dsimp only
  cases Expansion.run pipeline.config pipeline.catalog loaded.store pipeline.bound loaded.last
    loaded.deck <;> rfl

end Pipeline

/-! ## Replaying a block -/

/-- Models as cards. -/
def Deck.ofModels (models : List (Text × Text)) : Deck :=
  models.map fun model => { text := model.2 }

namespace CacheBlock

variable {config : Config} {name : Text} {deck : Deck} {bound : Bindings}

/-- What the block of a deck holds, if the deck can be extracted. -/
theorem build_of_ok
    (ok : (Extraction.run config.directives config.casePolicy .cache .empty deck).failure =
      none) :
    build config name deck bound =
      .ok
        { name
          definitions :=
            (Extraction.run config.directives config.casePolicy .cache .empty deck).definitions
          bindings := ((Extraction.run config.directives config.casePolicy .cache .empty
            deck).deck.collectParams config.directives bound).1
          casePolicy := config.casePolicy
          models := ((Extraction.run config.directives config.casePolicy .cache .empty
            deck).deck.collectParams config.directives bound).2.models config.directives
              config.casePolicy } := by
  unfold build
  dsimp only
  rw [ok]

theorem build_of_failed {diagnosis : Diagnosis}
    (failed : (Extraction.run config.directives config.casePolicy .cache .empty deck).failure =
      some diagnosis) : build config name deck bound = .error diagnosis := by
  unfold build
  dsimp only
  rw [failed]

end CacheBlock

namespace Extraction

variable {directives : Directives} {policy : CasePolicy} {deck twin : Deck}

/-- The live cards of a deck, taken by themselves and at other lines, give the same definitions
and leave the same statements. -/
theorem run_live_of_renumbered (same : twin.unnumbered = deck.unnumbered) (phase other : Phase) :
    (run directives policy other .empty twin.live).failure.isNone =
        (run directives policy phase .empty deck).failure.isNone ∧
    (run directives policy other .empty twin.live).definitions.unnumbered =
        (run directives policy phase .empty deck).definitions.unnumbered ∧
    (run directives policy other .empty twin.live).deck.liveTexts =
        (run directives policy phase .empty deck).deck.liveTexts := by
  have unnumbered (deck : Deck) : (run directives policy phase .empty deck).unnumbered =
      run directives policy phase .empty deck.unnumbered :=
    (runFrom_unnumbered none .empty deck).symm
  have alike : (run directives policy phase .empty twin).unnumbered =
      (run directives policy phase .empty deck).unnumbered := by
    rw [unnumbered, unnumbered, same]
  obtain ⟨failure, definitions, cards⟩ :=
    @runFrom_live directives policy phase other none .empty twin
  refine ⟨?_, ?_, ?_⟩
  · have failures := congrArg (fun extraction => extraction.failure.isNone) alike
    simp only [Extraction.unnumbered, Option.isNone_map] at failures
    exact failure.trans failures
  · have tables := congrArg Extraction.definitions alike
    exact (congrArg DefinitionTable.unnumbered definitions).trans tables
  · have texts := congrArg (fun extraction => extraction.deck.liveTexts) alike
    simp only [Extraction.unnumbered, Deck.liveTexts_unnumbered] at texts
    exact (congrArg (List.map Card.text) cards).trans texts

end Extraction

namespace Expansion

variable {config : Config} {catalog : Catalog}

/-- The expansion without line numbers. -/
def unnumbered {policy : CasePolicy} (expansion : Expansion policy) : Expansion policy :=
  { expansion with
    deck := expansion.deck.unnumbered
    warnings := expansion.warnings.map Warning.unnumbered }

/-- Line numbers do not decide whether an expansion succeeds. -/
theorem toOption_expandFrom_unnumbered (frame : Frame config.casePolicy) (bound : Bindings)
    (deck : Deck) :
    (expandFrom config catalog frame.unnumbered bound deck.unnumbered).toOption =
      (expandFrom config catalog frame bound deck).toOption.map unnumbered := by
  have results (level : Level config.casePolicy) :
      (ofLevel config level.unnumbered).toOption =
        (ofLevel config level).toOption.map unnumbered := by
    obtain ⟨⟨_, _, _, _, _, unresolved, _⟩, _, _, failure⟩ := level
    cases failure with
    | some diagnosis => rfl
    | none => cases unresolved <;> rfl
  rw [Visit.expandFrom_eq, Visit.expandFrom_eq, ← Visit.top_unnumbered, Visit.expand_unnumbered,
    results]

/-- The order in which the models known before were declared does not decide whether an expansion
succeeds. -/
theorem toOption_of_reordered {frame twin : Frame config.casePolicy} {bound : Bindings}
    {deck : Deck} {names others : List Text} (seeded : frame.models.Seeded names)
    (twinSeeded : twin.models.Seeded others) (definitions : twin.definitions = frame.definitions)
    (order : twin.models.entries.Perm frame.models.entries) :
    (expandFrom config catalog twin bound deck).toOption =
      (expandFrom config catalog frame bound deck).toOption := by
  cases ran : expandFrom config catalog frame bound deck with
  | ok expansion => rw [expandFrom_of_reordered seeded definitions order ran]
  | error failure =>
      cases other : expandFrom config catalog twin bound deck with
      | error _ => rfl
      | ok expansion =>
          have both := expandFrom_of_reordered twinSeeded definitions.symm order.symm other
          rw [ran] at both
          cases both

/-- Of declarations with names, the models are left live. -/
theorem liveTexts_declared {deck : Deck} (params : ParamTable)
    (declares : ∀ card ∈ deck, card.isLive = true → card.Declares config.directives)
    (named : ∀ text ∈ deck.liveTexts, config.directives.isModel (Text.firstWord text) = true →
      (Text.declaredName? text).isSome = true) :
    Deck.liveTexts (deck.map (stated config catalog params)) =
      (Deck.modelLines config.directives deck.liveTexts).map fun model =>
        substituteTop config catalog params model.2 := by
  have texts := (Deck.texts_statements config.directives.isModel deck).trans
    (Deck.map_snd_modelLines named).symm
  rw [liveTexts_stated params declares]
  exact (List.map_map ..).symm.trans
    ((congrArg (List.map (substituteTop config catalog params)) texts).trans (List.map_map ..))

/-- Two expansions that agree, except that the second one begins with the models in the order of
their names. -/
structure Replays (catalog : Catalog) (models : List (Text × Text))
    (inlined replayed : Expansion config.casePolicy) : Prop where
  bindings : replayed.bindings = inlined.bindings
  globals : replayed.globals = inlined.globals
  texts : ∃ rest,
    inlined.deck.liveTexts =
      models.map (fun model => substituteTop config catalog inlined.bindings.params model.2) ++
        rest ∧
    replayed.deck.liveTexts =
      (Text.sortByName models).map
        (fun model => substituteTop config catalog inlined.bindings.params model.2) ++ rest

section Models

variable {models : List (Text × Text)} {dead : Deck} (idle : ∀ card ∈ dead, card.isLive = false)

include idle

theorem liveTexts_ofModels : (Deck.ofModels models ++ dead).liveTexts = models.map Prod.snd := by
  have shown : (Deck.ofModels models).liveTexts = models.map Prod.snd := by
    unfold Deck.liveTexts Deck.live Deck.ofModels
    rw [List.filter_eq_self.mpr, List.map_map]
    · rfl
    · intro card member
      obtain ⟨model, -, rfl⟩ := List.mem_map.mp member
      rfl
  rw [Deck.liveTexts_append, shown, Deck.liveTexts_of_idle idle, List.append_nil]

variable (spellings : config.directives = {})
  (declared : ∀ model ∈ models, config.directives.isModel (Text.firstWord model.2) = true ∧
    Text.declaredName? model.2 = some model.1)

include declared

theorem isModel_of_ofModels {card : Card} (member : card ∈ Deck.ofModels models ++ dead)
    (live : card.isLive = true) : config.directives.isModel card.keyword = true := by
  rcases List.mem_append.mp member with shown | hidden
  · obtain ⟨model, inside, rfl⟩ := List.mem_map.mp shown
    exact (declared model inside).1
  · exact absurd ((idle card hidden).symm.trans live) (by decide)

include spellings

theorem extraction_ofModels (frame : Frame config.casePolicy) (bound : Bindings) :
    extractionOf (Deck.ofModels models ++ dead) (topProgress frame bound) =
      ⟨Deck.ofModels models ++ dead, frame.definitions, [], none⟩ := by
  refine Extraction.runFrom_of_plain ?_ frame.definitions
  intro card member live
  have declaring := Directives.declaring_of_isModel spellings
    (isModel_of_ofModels idle declared member live)
  exact ⟨declaring.notStart, declaring.notEnd⟩

/-- To expand a deck behind models is to expand it over their names. -/
theorem expandFrom_ofModels (definitions : DefinitionTable) (bound : Bindings) (main : Deck) :
    (expandFrom config catalog { definitions } bound
        (Deck.ofModels models ++ dead ++ main)).toOption =
      (expandFrom config catalog
        { definitions, models := (models.map Prod.fst).foldl .seed {} } bound main).toOption.map
          (behind catalog ⟨Deck.ofModels models ++ dead, definitions, [], none⟩) := by
  have extraction := extraction_ofModels idle spellings declared { definitions } bound
  have texts : (Deck.ofModels models ++ dead).liveTexts = models.map Prod.snd :=
    liveTexts_ofModels idle
  have frames : openingFrame (Deck.ofModels models ++ dead) (topProgress { definitions } bound) =
      ({ definitions, models := (models.map Prod.fst).foldl .seed {} } :
        Frame config.casePolicy) := by
    unfold openingFrame
    rw [extraction, Deck.modelNames_eq, texts, Deck.modelLines_texts declared]
    rfl
  have known : boundAfter ({ definitions } : Frame config.casePolicy) bound
      (Deck.ofModels models ++ dead) = bound := by
    unfold boundAfter
    rw [extraction, Deck.fst_collectParams_eq, texts, List.filter_eq_nil_iff.mpr]
    · rfl
    · intro text member
      obtain ⟨model, inside, rfl⟩ := List.mem_map.mp member
      have notParam :=
        (Directives.modelKeyword_of_isModel spellings (declared model inside).1).notParam
      simp [notParam]
  rw [expandFrom_append (by rw [extraction]), frames, known, extraction]
  intro card member live
  rw [extraction] at member
  exact Directives.declares_of_isModel spellings (isModel_of_ofModels idle declared member live)

/-- What is left live of models in front of an expansion. -/
theorem liveTexts_behind_ofModels (definitions : DefinitionTable)
    (expansion : Expansion config.casePolicy) :
    (behind catalog ⟨Deck.ofModels models ++ dead, definitions, [], none⟩
        expansion).deck.liveTexts =
      models.map (fun model => substituteTop config catalog expansion.bindings.params model.2) ++
        expansion.deck.liveTexts := by
  have texts : (Deck.ofModels models ++ dead).liveTexts = models.map Prod.snd :=
    liveTexts_ofModels idle
  unfold behind
  rw [Deck.liveTexts_append, liveTexts_declared, texts, Deck.modelLines_texts declared]
  · intro card member live
    exact Directives.declares_of_isModel spellings (isModel_of_ofModels idle declared member live)
  · intro text member _
    rw [texts] at member
    obtain ⟨model, inside, rfl⟩ := List.mem_map.mp member
    rw [(declared model inside).2]
    rfl

end Models

/-- The top level before anything is known. -/
abbrev blank (config : Config) : Progress config.casePolicy := topProgress {} ⟨.empty, .empty⟩

section Library

variable {library twin main other dead : Deck}
  (isLibrary : library.IsLibrary config.directives config.casePolicy)
  (ok : (extractionOf library (blank config)).failure = none)

include ok

theorem liveTexts_extraction_library :
    (extractionOf library (blank config)).deck.liveTexts =
      (library.outside config.directives).map Card.text :=
  congrArg (List.map Card.text) (Deck.live_run ok)

theorem models_openingFrame_library :
    (openingFrame library (blank config)).models =
      ((library.declaredModels config.directives).map Prod.fst).foldl .seed {} := by
  unfold openingFrame
  rw [Deck.modelNames_eq, liveTexts_extraction_library ok]
  rfl

include isLibrary

/-- What is left live of a library in front of an expansion. -/
theorem liveTexts_behind_library (spellings : config.directives = {})
    (expansion : Expansion config.casePolicy) :
    (behind catalog (extractionOf library (blank config)) expansion).deck.liveTexts =
      (library.declaredModels config.directives).map
          (fun model => substituteTop config catalog expansion.bindings.params model.2) ++
        expansion.deck.liveTexts := by
  unfold behind
  rw [Deck.liveTexts_append, liveTexts_declared, liveTexts_extraction_library ok]
  · rfl
  · intro card member live
    exact isLibrary.declares_run spellings ok member live
  · intro text member model
    rw [liveTexts_extraction_library ok] at member
    exact isLibrary.named (fun _ model =>
      (Directives.modelKeyword_of_isModel spellings model).notParam) member model

/-- A deck is expanded over a library as it is over the names of the library's models in their
order, wherever its cards and those of the definitions stand. -/
theorem expandFrom_over_library {definitions : DefinitionTable}
    (sameDefinitions : definitions.unnumbered =
      (extractionOf library (blank config)).definitions.unnumbered)
    (sameMain : other.unnumbered = main.unnumbered) (bound : Bindings) :
    (expandFrom config catalog
        { definitions
          models := ((Text.sortByName (library.declaredModels config.directives)).map
            Prod.fst).foldl .seed {} } bound other).toOption.map unnumbered =
      (expandFrom config catalog (openingFrame library (blank config)) bound main).toOption.map
        unnumbered := by
  have order := Text.sortByName_perm (library.declaredModels config.directives)
  have entries {models : List (Text × Text)}
      (order : models.Perm (library.declaredModels config.directives)) :
      ((models.map Prod.fst).foldl .seed ({} : ModelAliases config.casePolicy)).entries =
        (models.map Prod.fst).map fun name => (name, name) := by
    rw [ModelAliases.entries_foldl_seed]
    · rfl
    · have distinct := (order.map fun model => config.casePolicy.fold model.1).nodup_iff.mpr
        isLibrary.distinct
      show ((models.map Prod.fst).map config.casePolicy.fold).Nodup
      rw [List.map_map]
      exact distinct
  rw [← toOption_expandFrom_unnumbered, ← toOption_expandFrom_unnumbered, sameMain]
  have models := models_openingFrame_library ok
  have seeded := models ▸ ModelAliases.seeded_foldl_seed
    ((library.declaredModels config.directives).map Prod.fst)
  refine toOption_of_reordered seeded (ModelAliases.seeded_foldl_seed _) sameDefinitions ?_
  show List.Perm _ (openingFrame library _).models.entries
  rw [models, entries (.refl _)]
  exact (List.Perm.of_eq (entries order)).trans ((order.map Prod.fst).map _)

/-- What the block of a library holds. -/
theorem build_of_library (spellings : config.directives = {})
    (same : twin.unnumbered = library.unnumbered) (name : Text) :
    ∃ block, CacheBlock.build config name twin.live ⟨.empty, .empty⟩ = .ok block ∧
      block.definitions.unnumbered = (extractionOf library (blank config)).definitions.unnumbered ∧
      block.bindings = boundAfter ({} : Frame config.casePolicy) ⟨.empty, .empty⟩ library ∧
      block.modelCards =
        Deck.ofModels (Text.sortByName (library.declaredModels config.directives)) := by
  obtain ⟨failure, definitions, texts⟩ :=
    @Extraction.run_live_of_renumbered config.directives config.casePolicy _ _ same .expand .cache
  have lifted : (Extraction.run config.directives config.casePolicy .cache .empty
      twin.live).failure = none := by
    rw [← Option.isNone_iff_eq_none, failure, Option.isNone_iff_eq_none]
    exact ok
  refine ⟨_, CacheBlock.build_of_ok lifted, definitions, ?_, ?_⟩
  · unfold boundAfter
    rw [Deck.fst_collectParams_eq, Deck.fst_collectParams_eq, texts]
    rfl
  · have kept : Deck.modelLines config.directives (Extraction.run config.directives
        config.casePolicy .cache .empty twin.live).deck.liveTexts =
          library.declaredModels config.directives := by
      rw [texts]
      exact congrArg (Deck.modelLines config.directives) (liveTexts_extraction_library ok)
    have distinct : ((library.declaredModels config.directives).map Prod.fst).Nodup := by
      refine List.Nodup.of_map config.casePolicy.fold ?_
      rw [List.map_map]
      exact isLibrary.distinct
    unfold CacheBlock.modelCards NameTable.toList Deck.ofModels
    dsimp only
    rw [Deck.collectParams_eq, Deck.models_eq, Deck.modelLines_takenIn fun _ model =>
      (Directives.modelKeyword_of_isModel spellings model).notParam, kept]
    rw [Text.sortByName_of_perm distinct (NameTable.entries_insertAll_perm _ isLibrary.distinct)]

/-- Behind a library and over its block the same expansions come to the same. -/
theorem replays_of_renumbered (spellings : config.directives = {})
    (idle : ∀ card ∈ dead, card.isLive = false) (definitions : DefinitionTable)
    {expansion renumbered : Expansion config.casePolicy}
    (alike : renumbered.unnumbered = expansion.unnumbered) :
    Replays catalog (library.declaredModels config.directives)
      (behind catalog (extractionOf library (blank config)) expansion)
      (behind catalog
        ⟨Deck.ofModels (Text.sortByName (library.declaredModels config.directives)) ++ dead,
          definitions, [], none⟩ renumbered) := by
  have bindings : renumbered.bindings = expansion.bindings :=
    (congrArg Expansion.bindings alike :)
  have texts := congrArg (fun expansion => expansion.deck.liveTexts) alike
  simp only [unnumbered, Deck.liveTexts_unnumbered] at texts
  refine ⟨bindings, (congrArg Expansion.globals alike :), expansion.deck.liveTexts, ?_, ?_⟩
  · exact liveTexts_behind_library isLibrary ok spellings expansion
  · rw [liveTexts_behind_ofModels idle spellings fun _ => Deck.of_mem_declaredModels, texts,
      bindings]
    rfl

end Library

section Blocks

variable {library twin main other dead : Deck}
  (isLibrary : library.IsLibrary config.directives config.casePolicy)
  (same : twin.unnumbered = library.unnumbered)

include isLibrary same

/-- A library that cannot be extracted fails by itself and in a block. -/
theorem fails_of_library {diagnosis : Diagnosis}
    (failed : (extractionOf library (blank config)).failure = some diagnosis) (main : Deck)
    (name : Text) :
    (expandFrom config catalog {} ⟨.empty, .empty⟩ (library ++ main)).toOption = none ∧
      (CacheBlock.build config name twin.live ⟨.empty, .empty⟩).toOption = none := by
  obtain ⟨failure, -, -⟩ :=
    @Extraction.run_live_of_renumbered config.directives config.casePolicy _ _ same .expand .cache
  constructor
  · cases whole : (extractionOf (library ++ main) (blank config)).failure with
    | some fault =>
        rw [Visit.expandFrom_eq]
        exact toOption_of_failed whole
    | none => exact absurd (failed.symm.trans (isLibrary.failure_of_append whole)) nofun
  · cases stopped : (Extraction.run config.directives config.casePolicy .cache .empty
        twin.live).failure with
    | some fault =>
        rw [CacheBlock.build_of_failed stopped]
        rfl
    | none =>
        rw [stopped] at failure
        exact absurd (failure.trans (congrArg Option.isNone failed)) nofun

/-- Over the block of a library a deck is expanded as it is behind the library itself. -/
theorem replays_library (spellings : config.directives = {})
    (sameMain : other.unnumbered = main.unnumbered) (idle : ∀ card ∈ dead, card.isLive = false)
    (name : Text) :
    Option.Rel (Replays catalog (library.declaredModels config.directives))
      (expandFrom config catalog {} ⟨.empty, .empty⟩ (library ++ main)).toOption
      ((CacheBlock.build config name twin.live ⟨.empty, .empty⟩).toOption.bind fun block =>
        (expandFrom config catalog { definitions := block.definitions } block.bindings
          (block.modelCards ++ (dead ++ other))).toOption) := by
  cases lifted : (extractionOf library (blank config)).failure with
  | some diagnosis =>
      obtain ⟨inlined, built⟩ := fails_of_library isLibrary same lifted main name
      rw [inlined, built]
      exact .none
  | none =>
      obtain ⟨block, built, definitions, bindings, cards⟩ :=
        build_of_library isLibrary lifted spellings same name
      have agrees := @expandFrom_over_library config catalog library main other isLibrary lifted _
        definitions sameMain block.bindings
      rw [built, expandFrom_append lifted fun card member live =>
        isLibrary.declares_run spellings lifted member live, ← bindings]
      show Option.Rel _ _ (expandFrom config catalog _ _ _).toOption
      rw [cards, ← List.append_assoc,
        expandFrom_ofModels idle spellings fun _ => Deck.of_mem_declaredModels]
      -- what is left are the expansions of the main part, which differ in line numbers alone
      generalize (expandFrom config catalog (openingFrame library _) block.bindings
        main).toOption = inlined at agrees ⊢
      generalize (expandFrom config catalog _ block.bindings other).toOption = replayed at agrees ⊢
      cases inlined with
      | none =>
          cases replayed with
          | none => exact .none
          | some renumbered => cases agrees
      | some expansion =>
          cases replayed with
          | none => cases agrees
          | some renumbered =>
              exact .some (replays_of_renumbered isLibrary lifted spellings idle _
                (Option.some.inj agrees))

end Blocks

end Expansion

/-! ## Sources -/

/-- Results that are related succeed together. -/
theorem Flattened.succeed_together {policy : CasePolicy}
    {relation : Expansion policy → Expansion policy → Prop}
    {first second : Except Failure (Flattened policy)} {one other : Option (Expansion policy)}
    (related : Option.Rel relation one other)
    (here : first.toOption = one.map fun expansion => ⟨none, expansion⟩)
    (there : second.toOption = other.map fun expansion => ⟨none, expansion⟩) :
    ((∃ flat, second = .ok flat) ↔ ∃ flat, first = .ok flat) ∧
    ∀ flat twin, first = .ok flat → second = .ok twin →
      relation flat.expansion twin.expansion := by
  cases related with
  | none =>
      cases first with
      | ok flat => cases here
      | error failure =>
          cases second with
          | ok flat => cases there
          | error failure => exact ⟨⟨nofun, nofun⟩, nofun⟩
  | some holds =>
      cases first with
      | error failure => cases here
      | ok flat =>
          cases second with
          | error failure => cases there
          | ok twin =>
              obtain rfl := Option.some.inj here
              obtain rfl := Option.some.inj there
              refine ⟨⟨fun _ => ⟨_, rfl⟩, fun _ => ⟨_, rfl⟩⟩, ?_⟩
              rintro _ _ ⟨⟩ ⟨⟩
              exact holds

namespace CacheRegion

variable {directives : Directives} {opening closing name : Text} {library main : List Text}
  (starts : directives.isCacheStart (Text.firstWord (Text.trim opening)) = true)
  (named : Text.declaredName? (Text.trim opening) = some name)
  (ends : directives.isCacheEnd (Text.firstWord (Text.trim closing)) = true)
  (inside : ∀ card ∈ Deck.readFrom [] 1 library, card.isLive = true →
    directives.isCacheEnd card.keyword = false)
  (uncached : ∀ card ∈ Deck.readFrom [] 1 main, card.isLive = true →
    directives.isCacheStart card.keyword = false)

/-- The lines of a library between cache directives, and those of a main part behind them. -/
def ofLines : CacheRegion directives where
  start := { text := Text.trim opening, number := 1 }
  body := Deck.readFrom [] 2 library
  stop := { text := Text.trim closing, number := 2 + library.length }
  rest := Deck.readFrom [] (2 + library.length + 1) main
  name
  live := rfl
  starts
  named
  inside := Deck.forall_of_renumbered (fun _ => .rfl) (Deck.readFrom_unnumbered rfl 2 1 library)
    inside
  stopLive := rfl
  ends
  uncached := Deck.forall_of_renumbered (fun _ => .rfl) (Deck.readFrom_unnumbered rfl _ 1 main)
    uncached

theorem deck_ofLines (spellings : directives = {}) (libraryBegins : Deck.continues library = false)
    (mainBegins : Deck.continues main = false) :
    (ofLines starts named ends inside uncached).deck =
      Deck.readFrom [] 1 (opening :: (library ++ closing :: main)) := by
  have startPoint : (Text.firstWord (Text.trim opening)).head? = some '.' := by
    rw [spellings] at starts
    exact Text.head?_of_sameLetters_point starts
  have stopPoint : (Text.firstWord (Text.trim closing)).head? = some '.' := by
    rw [spellings] at ends
    exact Text.head?_of_sameLetters_point ends
  exact (Deck.readFrom_block startPoint stopPoint libraryBegins mainBegins).symm

end CacheRegion

namespace Pipeline

variable {pipeline : Pipeline}

section Untitled

variable {source : Text} (untitled : pipeline.hasTitle = false)

include untitled

theorem read_of_untitled : pipeline.read source = (none, Deck.ofSource source) := by
  unfold read
  rw [untitled]

/-- A source without cache blocks is expanded as it stands. -/
theorem toOption_run_of_uncached
    (uncached : ∀ card ∈ Deck.ofSource source, card.isLive = true →
      pipeline.config.directives.isCacheStart card.keyword = false) :
    (pipeline.run .empty source).2.toOption =
      (Expansion.expandFrom pipeline.config pipeline.catalog {} pipeline.bound
        (Deck.ofSource source)).toOption.map fun expansion => ⟨none, expansion⟩ := by
  rw [run_eq, read_of_untitled untitled, pipeline.loadFrom_of_uncached uncached,
    toOption_conclude _ none rfl]
  rfl

/-- A source with one cache block is expanded over the block. -/
theorem toOption_run_of_region (unbound : pipeline.bound = ⟨.empty, .empty⟩)
    (region : CacheRegion pipeline.config.directives)
    (cards : Deck.ofSource source = region.deck) :
    (pipeline.run .empty source).2.toOption =
      ((CacheBlock.build pipeline.config region.name region.body.live
        ⟨.empty, .empty⟩).toOption.bind fun block =>
          (Expansion.expandFrom pipeline.config pipeline.catalog
            { definitions := block.definitions } block.bindings
            (block.modelCards ++ (region.disabled ++ region.rest))).toOption).map
        fun expansion => ⟨none, expansion⟩ := by
  have free : (NameTable.empty : CacheStore).contains region.name = false := rfl
  have loaded := pipeline.loadFrom_region region .empty none
  rw [unbound] at loaded
  rw [run_eq, read_of_untitled untitled, cards, loaded]
  unfold CacheStore.add
  rw [free, if_neg nofun]
  cases CacheBlock.build pipeline.config region.name region.body.live ⟨.empty, .empty⟩ with
  | error diagnosis => rfl
  | ok block =>
      have stored : (NameTable.insert .empty region.name block : CacheStore).get? region.name =
          some block := by
        rw [NameTable.get?_insert, if_pos rfl]
      dsimp only
      rw [toOption_conclude _ none rfl, Expansion.run]
      dsimp only
      rw [stored, unbound]
      rfl

end Untitled

/-- A library may be kept in a cache block or be written into the netlist: one run succeeds if
the other does, and both leave the same parameters, functions, global nodes and statements, except
that the models of a block stand in the order of their names. -/
theorem replay_agrees_with_inlining (untitled : pipeline.hasTitle = false)
    (unbound : pipeline.bound = ⟨.empty, .empty⟩) (spellings : pipeline.config.directives = {})
    {opening closing name : Text}
    (starts : pipeline.config.directives.isCacheStart (Text.firstWord (Text.trim opening)) = true)
    (named : Text.declaredName? (Text.trim opening) = some name)
    (ends : pipeline.config.directives.isCacheEnd (Text.firstWord (Text.trim closing)) = true)
    {library main : List Text}
    (isLibrary : (Deck.readFrom [] 1 library).IsLibrary pipeline.config.directives
      pipeline.config.casePolicy)
    (uncached : ∀ card ∈ Deck.readFrom [] 1 library ++ Deck.readFrom [] 1 main,
      card.isLive = true → pipeline.config.directives.isCacheStart card.keyword = false ∧
        pipeline.config.directives.isCacheEnd card.keyword = false)
    (begins : Deck.continues main = false) {plain cached : Text}
    (plainLines : Text.lines plain = library ++ main)
    (cachedLines : Text.lines cached = opening :: (library ++ closing :: main)) :
    ((∃ flat, (pipeline.run .empty cached).2 = .ok flat) ↔
      ∃ flat, (pipeline.run .empty plain).2 = .ok flat) ∧
    ∀ inlined replayed, (pipeline.run .empty plain).2 = .ok inlined →
      (pipeline.run .empty cached).2 = .ok replayed →
        Expansion.Replays pipeline.catalog
          ((Deck.readFrom [] 1 library).declaredModels pipeline.config.directives)
          inlined.expansion replayed.expansion := by
  have ofLibrary (card : Card) (member : card ∈ Deck.readFrom [] 1 library) :=
    uncached card (List.mem_append_left _ member)
  have ofMain (card : Card) (member : card ∈ Deck.readFrom [] 1 main) :=
    uncached card (List.mem_append_right _ member)
  have keeps (number : Nat) (lines : List Text) :
      (Deck.readFrom [] number lines).unnumbered = (Deck.readFrom [] 1 lines).unnumbered :=
    Deck.readFrom_unnumbered rfl number 1 lines
  have inlinedCards : Deck.ofSource plain =
      Deck.readFrom [] 1 library ++ Deck.readFrom [] (1 + library.length) main := by
    unfold Deck.ofSource
    rw [plainLines, Deck.readFrom_append_of_fresh begins]
  have cachedCards : Deck.ofSource cached =
      (CacheRegion.ofLines starts named ends (fun card member live =>
        (ofLibrary card member live).2) fun card member live =>
        (ofMain card member live).1).deck := by
    unfold Deck.ofSource
    rw [cachedLines, CacheRegion.deck_ofLines _ _ _ _ _ spellings (isLibrary.begins spellings)
      begins]
  refine Flattened.succeed_together ?_ (toOption_run_of_uncached untitled ?_)
    (toOption_run_of_region untitled unbound _ cachedCards)
  · rw [inlinedCards, unbound]
    exact Expansion.replays_library isLibrary (keeps 2 library) spellings
      ((keeps _ main).trans (keeps _ main).symm) (CacheRegion.idle_disabled _) name
  · rw [inlinedCards]
    intro card member live
    rcases List.mem_append.mp member with front | back
    · exact (ofLibrary card front live).1
    · exact (Deck.forall_of_renumbered (fun _ => .rfl) (keeps _ main) ofMain card back live).1

/-- The library declares its models in another order than that of their names, and the main part
uses its parameter, its definition and a model. -/
theorem replay_agrees_with_inlining_models :
    let pipeline : Pipeline := { hasTitle := false }
    let library := [".param w=2", ".model zn nmos", ".subckt s a", "m1 a a a a zn l=w", ".ends",
      ".model ap pmos"].map String.toList
    let main := ["x1 n s", "d1 n 0 ap w"].map String.toList
    let source (lines : List Text) : Text := lines.flatMap fun line => line ++ "\n"
    let plain := source (library ++ main)
    let cached := source (".cache lib".toList :: (library ++ ".endcache".toList :: main))
    (Deck.readFrom [] 1 library).IsLibrary {} .insensitive ∧
    ∃ inlined replayed, (pipeline.run .empty plain).2 = .ok inlined ∧
      (pipeline.run .empty cached).2 = .ok replayed ∧
      Expansion.Replays pipeline.catalog
        [("zn".toList, ".model zn nmos".toList), ("ap".toList, ".model ap pmos".toList)]
        inlined.expansion replayed.expansion := by
  intro pipeline library main source plain cached
  have isLibrary : (Deck.readFrom [] 1 library).IsLibrary {} .insensitive := by decide +kernel
  obtain ⟨together, agree⟩ :=
    @replay_agrees_with_inlining pipeline rfl rfl rfl ".cache lib".toList ".endcache".toList
      "lib".toList (by decide +kernel) (by decide +kernel) (by decide +kernel) library main
      isLibrary (by decide +kernel) (by decide +kernel) plain cached (by decide +kernel)
      (by decide +kernel)
  have models : (Deck.readFrom [] 1 library).declaredModels {} =
      [("zn".toList, ".model zn nmos".toList), ("ap".toList, ".model ap pmos".toList)] := by
    decide +kernel
  have runs : (pipeline.run .empty plain).2.isOk = true := by decide +kernel
  refine ⟨isLibrary, ?_⟩
  cases ran : (pipeline.run .empty plain).2 with
  | error failure =>
      rw [ran] at runs
      cases runs
  | ok inlined =>
      obtain ⟨replayed, twinRan⟩ := together.mpr ⟨inlined, ran⟩
      exact ⟨inlined, replayed, rfl, twinRan, models ▸ agree inlined replayed ran twinRan⟩

/-- A line that continues the last statement of a library does not reach it across the end of a
cache block. -/
theorem continuation_lost_behind_block :
    let outcome (source : String) : Option (Bool × List Text) :=
      (run { hasTitle := false } .empty source.toList).2.toOption.map fun flat =>
        (flat.expansion.bindings.params.contains "v".toList, flat.expansion.deck.liveTexts)
    (Deck.readFrom [] 1 [".param w=1".toList]).IsLibrary {} .insensitive ∧
    outcome ".param w=1\n+ v=2\nr1 a b v\n" =
      some (true, ["r1 a b 2".toList]) ∧
    outcome ".cache lib\n.param w=1\n.endcache\n+ v=2\nr1 a b v\n" =
      some (false, ["r1 a b v".toList]) := by
  decide +kernel

end Pipeline

end Netlist

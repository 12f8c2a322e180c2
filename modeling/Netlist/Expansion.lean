import Netlist.Cache
import Netlist.Call
import Netlist.Renamer

/-!
# Expansion

Each level of a netlist is expanded in the same way: its definitions go into
the innermost frame, then its cards are walked in order.  A call is replaced
by the body of its definition, expanded one level deeper in a frame of its own
and renamed for the instance; the call itself stays, disabled.  Calls to
unknown subcircuits are collected, any other fault stops the walk and is noted
on the card of every level that leads to it.
-/

namespace Netlist

/-- One call that was replaced. -/
structure Step where
  /-- How deep the call stands; zero at the top level. -/
  depth : Nat
  inst : Text
  subcircuit : Text
  call : Text
  /-- The live statements that replace the call. -/
  expanded : List Text
deriving DecidableEq, Repr

/-- What an expansion has gathered so far. -/
structure Progress (policy : CasePolicy) where
  scopes : Scopes policy
  globals : NameSet policy := .empty
  functions : FunctionTable := .empty
  warnings : List Warning := []
  trace : List Step := []
  unresolved : List Diagnosis := []
  /-- The names of the unknown subcircuits reported so far. -/
  reported : NameSet .insensitive := .empty

namespace Progress

variable {policy : CasePolicy}

def withScopes (progress : Progress policy) (scopes : Scopes policy) : Progress policy :=
  { progress with scopes }

def warn (progress : Progress policy) (warnings : List Warning) : Progress policy :=
  { progress with warnings := progress.warnings ++ warnings }

/-- Reports an unknown subcircuit, once for each name. -/
def reportUnknown (progress : Progress policy) (name : Text) (card : Card) : Progress policy :=
  { progress with
    unresolved :=
      if progress.reported.contains name then progress.unresolved
      else progress.unresolved ++ [.ofCard .expand (.unknownSubcircuit name) card]
    reported := progress.reported.add name }

def seedModels (progress : Progress policy) (names : List Text) : Progress policy :=
  progress.withScopes
    (progress.scopes.withModels (names.foldl .seed progress.scopes.top.models))

def addGlobals (progress : Progress policy) (names : List Text) : Progress policy :=
  { progress with globals := names.foldl .add progress.globals }

end Progress

/-- A level that has been expanded, as far as the first fatal fault. -/
structure Level (policy : CasePolicy) where
  progress : Progress policy
  params : ParamTable
  deck : Deck
  failure : Option Diagnosis

namespace Level

variable {policy : CasePolicy}

/-- The level with further cards in front. -/
def behind (cards : Deck) (level : Level policy) : Level policy :=
  { level with deck := cards ++ level.deck }

end Level

namespace Expansion

variable (config : Config) (catalog : Catalog)

/-- Substitutes parameters in a top-level statement; the nodes of a device keep their names. -/
def substituteTop (params : ParamTable) (text : Text) : Text :=
  let directives := config.directives
  let keyword := Text.firstWord text
  let statement : Text :=
    if config.substituteNodes || !Renamer.startsDevice keyword then params.substituteLine text
    else
      let span := DeviceLine.nodeSpan catalog text
      Text.takeBytes span text ++ params.substitute (Text.dropBytes span text)
  if directives.isGlobal keyword || directives.isCacheStart keyword then text
  else if directives.isModel keyword then
    match (Word.split text)[1]? with
    | some name =>
        Text.takeBytes name.stop text ++ params.substitute (Text.dropBytes name.stop text)
    | none => statement
  else statement

/-- Substitutes at the top level only; in a body it is done when the body is renamed. -/
def substituteAt (depth : Nat) (params : ParamTable) (text : Text) : Text :=
  if depth = 0 then substituteTop config catalog params text else text

abbrev Expander := ParamTable → Deck → Progress config.casePolicy → Level config.casePolicy

/-- What a call becomes: the cards in its place, or a fatal fault. -/
abbrev Replacement := Progress config.casePolicy × Except Diagnosis Deck

variable {config}

/-- A call to an unknown subcircuit: a plain device after all, or a fault to be reported. -/
def unresolvedCall (depth : Nat) (params : ParamTable) (card : Card) (call : Call) (name : Text)
    (progress : Progress config.casePolicy) : Replacement config :=
  match config.deviceLetter? call.inst with
  | some letter =>
      let text := letter :: Text.trimStart card.text
      (progress, .ok [{ card with text := substituteAt config catalog depth params text }])
  | none =>
      (progress.reportUnknown name card,
        .ok [card.annotate (Fault.unknownSubcircuit name).message])

/-- A call whose body has been expanded: the body is renamed and the frame left. -/
def finishCall (depth : Nat) (card : Card) (call : Call) (definition : Definition)
    (pins : Pins config.casePolicy) (level : Level config.casePolicy) : Replacement config :=
  let leave (progress : Progress config.casePolicy) (scopes : Scopes config.casePolicy) :=
    progress.withScopes scopes.leave
  match level.failure with
  | some diagnosis => (leave level.progress level.progress.scopes, .error diagnosis)
  | none =>
      let renamer : Renamer config :=
        { catalog
          inst := call.inst
          pins
          params := level.params
          globals := level.progress.globals }
      let renamed := renamer.body level.progress.scopes level.deck
      let progress := leave level.progress renamed.scopes
      match renamed.failure with
      | some diagnosis => (progress, .error diagnosis)
      | none =>
          let step : Step :=
            { depth
              inst := call.inst
              subcircuit := definition.name
              call := card.text
              expanded := renamed.deck.liveTexts }
          ({ progress with
              functions := progress.functions.update definition.functions
              trace := progress.trace ++ [step] },
            .ok (card.disable :: renamed.deck))

/-- A call to a definition with a body: connected, layered and expanded one level deeper. -/
def enterCall (below : Option (Expander config)) (depth : Nat) (params : ParamTable)
    (card : Card) (call : Call) (definition : Definition)
    (progress : Progress config.casePolicy) : Replacement config :=
  match Pins.connect definition.name definition.formals call.actuals with
  | .error fault => (progress, .error (.ofCard .expand fault card))
  | .ok pins =>
      match below, progress.scopes.enter? with
      | some expand, some scopes =>
          let inner := Call.layer config.merge params definition.defaults call.assignments
          finishCall catalog depth card call definition pins
            (expand inner definition.body (progress.withScopes scopes))
      | _, _ =>
          (progress,
            .error (.ofCard .expand (.maxCallDepth progress.scopes.capacity card.text) card))

/-- Replaces one call; `below` expands a level deeper, if there can be one. -/
def expandCall (below : Option (Expander config)) (depth : Nat) (params : ParamTable)
    (card : Card) (progress : Progress config.casePolicy) : Replacement config :=
  match Call.read? card.text with
  | none =>
      (progress, .error (.ofCard .expand (.malformedCall "missing subcircuit name") card))
  | some call =>
      let name := call.target params
      match progress.scopes.definition? name with
      | none => unresolvedCall catalog depth params card call name progress
      | some definition =>
          if definition.isEmpty then
            (progress.warn [.ofCard card
                ("subcircuit '" ++ definition.name ++ "' has an empty body, call dropped")],
              .ok [card.disable])
          else enterCall catalog below depth params card call definition progress

/-- Walks the cards of a level; cards put in place of a call are not walked again. -/
def walk (below : Option (Expander config)) (depth : Nat) (params : ParamTable) :
    Deck → Progress config.casePolicy → Level config.casePolicy
  | [], progress => ⟨progress, params, [], none⟩
  | card :: rest, progress =>
      if !card.isLive then (walk below depth params rest progress).behind [card]
      else if config.directives.isCall card.keyword then
        match expandCall catalog below depth params card progress with
        | (progress, .error diagnosis) =>
            ⟨progress, params, card.annotate diagnosis.fault.message :: rest, some diagnosis⟩
        | (progress, .ok cards) => (walk below depth params rest progress).behind cards
      else
        let text := substituteAt config catalog depth params card.text
        (walk below depth params rest progress).behind [{ card with text }]

/-- At the top level, takes in the global nodes and the parameter statements. -/
def collect (depth : Nat) (params : ParamTable) (deck : Deck)
    (progress : Progress config.casePolicy) :
    Progress config.casePolicy × ParamTable × Deck :=
  if depth = 0 then
    let (bound, cards) := deck.collectParams config.directives ⟨params, progress.functions⟩
    ({ progress.addGlobals (deck.globalNames config.directives) with
        functions := bound.functions },
      bound.params, cards)
  else (progress, params, deck)

/-- Expands a level whose calls are expanded by `below`. -/
def levelWith (below : Option (Expander config)) (depth : Nat) (params : ParamTable)
    (deck : Deck) (progress : Progress config.casePolicy) : Level config.casePolicy :=
  let top := progress.scopes.top
  let extraction := Extraction.run config.directives config.casePolicy .expand
    top.definitions deck
  let progress := progress.withScopes
    (progress.scopes.withTop { top with definitions := extraction.definitions })
  match extraction.failure with
  | some diagnosis => ⟨progress, params, extraction.deck, some diagnosis⟩
  | none =>
      let progress := (progress.warn extraction.warnings).seedModels
        (extraction.deck.modelNames config.directives)
      let (progress, params, cards) := collect depth params extraction.deck progress
      walk catalog below depth params cards progress

/-- Expands a level that stands `depth` calls deep and may go `room` levels deeper. -/
def expandLevel : (room depth : Nat) → Expander config
  | 0, depth => levelWith catalog none depth
  | room + 1, depth => levelWith catalog (some (expandLevel room (depth + 1))) depth

end Expansion

/-- A netlist without calls, and what was gathered on the way. -/
structure Expansion (policy : CasePolicy) where
  deck : Deck
  bindings : Bindings
  globals : NameSet policy
  warnings : List Warning
  /-- The calls that were replaced, inner ones before the ones around them. -/
  trace : List Step

namespace Expansion

variable (config : Config) (catalog : Catalog)

/-- The result of a top level, if nothing went wrong in it. -/
def ofLevel (level : Level config.casePolicy) : Except Failure (Expansion config.casePolicy) :=
  match level.failure with
  | some diagnosis => .error ⟨[diagnosis], some level.deck⟩
  | none =>
      if level.progress.unresolved.isEmpty then
        .ok
          { deck := level.deck
            bindings := ⟨level.params, level.progress.functions⟩
            globals := level.progress.globals
            warnings := level.progress.warnings
            trace := level.progress.trace }
      else .error ⟨level.progress.unresolved, some level.deck⟩

/-- Expands a deck over parameters, functions and the definitions known before. -/
def expandFrom (frame : Frame config.casePolicy) (bound : Bindings) (deck : Deck) :
    Except Failure (Expansion config.casePolicy) :=
  let scopes : Scopes config.casePolicy := (Scopes.start config.maxDepth).withTop frame
  let progress : Progress config.casePolicy := { scopes, functions := bound.functions }
  ofLevel config (expandLevel catalog (scopes.capacity - 1) 0 bound.params deck progress)

/-- Expands a deck, starting from a cache block if one is named. -/
def run (store : CacheStore) (bound : Bindings) (block : Option Text) (deck : Deck) :
    Except Failure (Expansion config.casePolicy) :=
  match block with
  | none => expandFrom config catalog {} bound deck
  | some name =>
      match store.get? name with
      | none =>
          .error ⟨[⟨.expand, .cacheBlockNotFound name,
            .request (config.directives.cacheStart ++ " " ++ name)⟩], some deck⟩
      | some cached =>
          expandFrom config catalog { definitions := cached.definitions }
            ⟨cached.bindings.params.update bound.params,
              cached.bindings.functions.update bound.functions⟩
            (cached.modelCards ++ deck)

/-- What a run comes to in a memory with room for so many frames.  Without room for all levels
there is no result, not even a failure. -/
def run? (room : Nat) (store : CacheStore) (bound : Bindings) (block : Option Text) (deck : Deck) :
    Option (Except Failure (Expansion config.casePolicy)) :=
  if Scopes.reserves room config.maxDepth then some (run config catalog store bound block deck)
  else none

end Expansion

end Netlist

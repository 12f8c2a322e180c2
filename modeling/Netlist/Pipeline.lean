import Netlist.Expansion
import Netlist.Text.Lowercase

/-!
# From source to flat netlist

A source is read into a deck, its first line taken off as the title, its cache
blocks stored, and the rest expanded over the block named last.
-/

namespace Netlist

structure Pipeline where
  config : Config := {}
  catalog : Catalog := .standard
  /-- Parameters and functions known before the source is read. -/
  bound : Bindings := ⟨.empty, .empty⟩
  /-- Whether the first line is a title. -/
  hasTitle : Bool := true

/-- An expanded netlist under its title. -/
structure Flattened (policy : CasePolicy) where
  title : Option Text
  expansion : Expansion policy

namespace Flattened

variable {policy : CasePolicy}

/-- The cards that are shown; `strip` leaves out the disabled ones. -/
def shown (flat : Flattened policy) (strip : Bool) : Deck :=
  if strip then flat.expansion.deck.live else flat.expansion.deck

/-- The title and the shown cards, one line each. -/
def lines (flat : Flattened policy) (strip : Bool) : List Text :=
  flat.title.toList ++ (flat.shown strip).map Card.render

/-- The netlist as a source text. -/
def render (flat : Flattened policy) (strip : Bool) : Text :=
  (flat.lines strip).flatMap fun line => line ++ "\n"

/-- Adds a line to a text; the first line of all follows no newline. -/
def addLine (written line : Text) : Text :=
  if written.isEmpty then line else written ++ "\n" ++ line

/-- The lines with newlines between them; empty lines in front leave no trace. -/
def emitted (flat : Flattened policy) (strip : Bool) : Text :=
  (flat.lines strip).foldl addLine []

end Flattened

/-- What a listing tells of a definition. -/
structure Summary where
  name : Text
  formals : List Text
  defaults : List (Text × Text)
  number : Nat
deriving DecidableEq, Repr

namespace Pipeline

/-- A cache block whose end has not been met. -/
structure OpenBlock where
  name : Text
  body : Deck := []

/-- What becomes of a deck whose cache blocks are stored. -/
structure Loaded where
  store : CacheStore
  deck : Deck
  last : Option Text
  failure : Option Diagnosis

namespace Loaded

def behind (card : Card) (loaded : Loaded) : Loaded :=
  { loaded with deck := card :: loaded.deck }

end Loaded

/-- The deck of a source, and its title. -/
def read (pipeline : Pipeline) (source : Text) : Option Text × Deck :=
  match pipeline.hasTitle, Deck.ofSource source with
  | true, title :: rest => (some title.render, rest)
  | _, deck => (none, deck)

/-- Stores the cache blocks in what is left of a deck and disables their cards. -/
def loadFrom (pipeline : Pipeline) (store : CacheStore) (last : Option Text)
    (opened : Option OpenBlock) : Deck → Loaded
  | [] =>
      match opened with
      | none => ⟨store, [], last, none⟩
      | some block =>
          match store.add pipeline.config block.name block.body pipeline.bound with
          | .error diagnosis => ⟨store, [], last, some diagnosis⟩
          | .ok (_, store) => ⟨store, [], some block.name, none⟩
  | card :: rest =>
      let directives := pipeline.config.directives
      if !card.isLive then (pipeline.loadFrom store last opened rest).behind card
      else
        match opened with
        | none =>
            if directives.isCacheStart card.keyword then
              match Text.declaredName? card.text with
              | none =>
                  ⟨store, card :: rest, last,
                    some (.ofCard .cache (.missingName card.keyword) card)⟩
              | some name =>
                  (pipeline.loadFrom store last (some { name }) rest).behind card.disable
            else (pipeline.loadFrom store last none rest).behind card
        | some block =>
            if directives.isCacheEnd card.keyword then
              match store.add pipeline.config block.name block.body pipeline.bound with
              | .error diagnosis => ⟨store, card :: rest, last, some diagnosis⟩
              | .ok (_, store) =>
                  (pipeline.loadFrom store (some block.name) none rest).behind card.disable
            else
              (pipeline.loadFrom store last
                (some { block with body := block.body ++ [card] }) rest).behind card.disable

/-- Expands a source, and tells what the store holds afterwards. -/
def run (pipeline : Pipeline) (store : CacheStore) (source : Text) :
    CacheStore × Except Failure (Flattened pipeline.config.casePolicy) :=
  let (title, deck) := pipeline.read source
  let loaded := pipeline.loadFrom store none none deck
  let result :=
    match loaded.failure with
    | some diagnosis => .error ⟨[diagnosis], some loaded.deck⟩
    | none =>
        match Expansion.run pipeline.config pipeline.catalog loaded.store pipeline.bound
            loaded.last loaded.deck with
        | .error failure => .error failure
        | .ok expansion => .ok ⟨title, expansion⟩
  (loaded.store, result)

/-- What a run comes to in a memory with room for so many frames, which are only needed for a
source whose cache blocks could be stored. -/
def run? (pipeline : Pipeline) (room : Nat) (store : CacheStore) (source : Text) :
    Option (CacheStore × Except Failure (Flattened pipeline.config.casePolicy)) :=
  let loaded := pipeline.loadFrom store none none (pipeline.read source).2
  if loaded.failure.isSome || Scopes.reserves room pipeline.config.maxDepth then
    some (pipeline.run store source)
  else none

/-- The definitions of a source, in ascending order of their names in lower case. -/
def definitions (pipeline : Pipeline) (source : Text) : Except Diagnosis (List Summary) :=
  let extraction := Extraction.run pipeline.config.directives pipeline.config.casePolicy
    .extract .empty (pipeline.read source).2
  match extraction.failure with
  | some diagnosis => .error diagnosis
  | none =>
      let summaries := extraction.definitions.entries.map fun (_, definition) =>
        (Text.lowercase definition.name,
          { name := definition.name
            formals := definition.formals
            defaults := definition.defaults.toList
            number := definition.number : Summary })
      .ok ((Text.sortByName summaries).map Prod.snd)

end Pipeline

end Netlist

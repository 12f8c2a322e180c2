import Netlist.Definition.Extraction

/-!
# Cache blocks

A cache block is a named bundle of definitions, parameters, functions and
models that later netlists can start from.  Names of blocks compare up to
letter case, and a block never changes once it is stored.
-/

namespace Netlist

structure CacheBlock where
  name : Text
  definitions : DefinitionTable
  bindings : Bindings
  casePolicy : CasePolicy
  /-- Model names and the statements that declare them. -/
  models : NameTable casePolicy Text

namespace CacheBlock

/-- The block with the contents of a deck, over parameters and functions given before. -/
def build (config : Config) (name : Text) (deck : Deck) (bound : Bindings) :
    Except Diagnosis CacheBlock :=
  let extraction := Extraction.run config.directives config.casePolicy .cache .empty deck
  match extraction.failure with
  | some diagnosis => .error diagnosis
  | none =>
      let (bindings, cards) := extraction.deck.collectParams config.directives bound
      .ok
        { name
          definitions := extraction.definitions
          bindings
          casePolicy := config.casePolicy
          models := cards.models config.directives config.casePolicy }

/-- The model statements of a block as cards, in ascending order of the names. -/
def modelCards (block : CacheBlock) : Deck :=
  block.models.toList.map fun entry => { text := entry.2 }

end CacheBlock

/-- Cache blocks by name. -/
abbrev CacheStore := NameTable .insensitive CacheBlock

namespace CacheStore

/-- Stores a block unless the name is taken, and tells whether it did. -/
def add (store : CacheStore) (config : Config) (name : Text) (deck : Deck) (bound : Bindings) :
    Except Diagnosis (Bool × CacheStore) :=
  if store.contains name then .ok (false, store)
  else
    match CacheBlock.build config name deck bound with
    | .error diagnosis => .error diagnosis
    | .ok block => .ok (true, NameTable.insert store name block)

end CacheStore

end Netlist

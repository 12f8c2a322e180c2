import Netlist.Definition

/-!
# Extraction

The outermost definitions of a deck are lifted out into a table, and their
cards are disabled.  Inner definitions stay in the body of the outer one.  An
end without a start, a start without a name and a definition that is never
closed are faults.
-/

namespace Netlist

/-- A definition whose end has not been met. -/
structure OpenDefinition where
  header : Header
  start : Card
  /-- Inner definitions that are open. -/
  nest : Nat := 0
  body : Deck := []

namespace OpenDefinition

def push (opened : OpenDefinition) (card : Card) : OpenDefinition :=
  { opened with body := opened.body ++ [card] }

def enter (opened : OpenDefinition) (card : Card) : OpenDefinition :=
  { opened.push card with nest := opened.nest + 1 }

def leave (opened : OpenDefinition) (card : Card) : OpenDefinition :=
  { opened.push card with nest := opened.nest - 1 }

end OpenDefinition

structure Extraction where
  deck : Deck
  definitions : DefinitionTable
  warnings : List Warning
  failure : Option Diagnosis

namespace Extraction

/-- The result so far, with one more card in front of the deck. -/
def behind (card : Card) (rest : Extraction) : Extraction :=
  { rest with deck := card :: rest.deck }

def warn (warnings : List Warning) (rest : Extraction) : Extraction :=
  { rest with warnings := warnings ++ rest.warnings }

def redefinition (table : DefinitionTable) (name : Text) (card : Card) : List Warning :=
  if table.contains name then
    [.ofCard card ("subcircuit '" ++ name ++ "' redefined, later definition wins")]
  else []

variable (directives : Directives) (policy : CasePolicy) (phase : Phase)

/-- Extracts from what is left of a deck, while `opened` may be open. -/
def runFrom (opened : Option OpenDefinition) (table : DefinitionTable) : Deck → Extraction
  | [] =>
      { deck := []
        definitions := table
        warnings := []
        failure := opened.map fun opened =>
          .ofCard phase (.unterminated opened.header.name) opened.start }
  | card :: rest =>
      let stop (fault : Fault) : Extraction :=
        { deck := card :: rest
          definitions := table
          warnings := []
          failure := some (.ofCard phase fault card) }
      if !card.isLive then (runFrom opened table rest).behind card
      else if directives.isStart card.keyword then
        match opened with
        | some opened => (runFrom (some (opened.enter card)) table rest).behind card.disable
        | none =>
            match Header.ofCard card with
            | .error fault => stop fault
            | .ok header =>
                (runFrom (some { header, start := card }) table rest).behind card.disable
      else if directives.isEnd card.keyword then
        match opened with
        | none => stop (.endWithoutStart card.keyword)
        | some opened =>
            if opened.nest = 0 then
              let built := Definition.build directives policy opened.header opened.body
                opened.start.number
              ((runFrom none (table.insert built.name built) rest).warn
                (redefinition table built.name card)).behind card.disable
            else (runFrom (some (opened.leave card)) table rest).behind card.disable
      else
        match opened with
        | some opened => (runFrom (some (opened.push card)) table rest).behind card.disable
        | none => (runFrom none table rest).behind card

/-- Moves the outermost definitions of a deck into a table. -/
def run (table : DefinitionTable) (deck : Deck) : Extraction :=
  runFrom directives policy phase none table deck

end Extraction

namespace Deck

variable (directives : Directives)

/-- The names on the live model statements, in order. -/
def modelNames (deck : Deck) : List Text :=
  (deck.live.filter fun card => directives.isModel card.keyword).filterMap
    fun card => Text.declaredName? card.text

/-- The live model statements by model name. -/
def models (policy : CasePolicy) (deck : Deck) : NameTable policy Text :=
  (deck.live.filter fun card => directives.isModel card.keyword).foldl (fun table card =>
    match Text.declaredName? card.text with
    | some name => table.insert name card.text
    | none => table) .empty

/-- The node names on the live global statements, in order. -/
def globalNames (deck : Deck) : List Text :=
  (deck.live.filter fun card => directives.isGlobal card.keyword).flatMap
    fun card => ((Word.split card.text).drop 1).map Word.text

/-- Takes in the live parameter statements and disables them. -/
def collectParams (bound : Bindings) : Deck → Bindings × Deck
  | [] => (bound, [])
  | card :: rest =>
      if card.isLive && directives.isParam card.keyword then
        let (result, cards) := collectParams (bound.state card.operand) rest
        (result, card.disable :: cards)
      else
        let (result, cards) := collectParams bound rest
        (result, card :: cards)

end Deck

end Netlist

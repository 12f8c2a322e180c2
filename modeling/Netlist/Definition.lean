import Netlist.Card
import Netlist.Config
import Netlist.Fault
import Netlist.Parameter.Table
import Netlist.Word

/-!
# Subcircuit definitions

A definition has a name, formal node names, default parameters, functions and
a body.  Its header gives the first three; parameter statements of the body
that stand outside inner definitions override the header's defaults.  Formal
names that are repeated get new names, and a source of zero volts ties each of
them to the name it repeats.
-/

namespace Netlist

/-- What the start line of a definition says. -/
structure Header where
  name : Text
  formals : List Text
  defaults : ParamTable

namespace Header

/-- The header on a start line, if the line names a subcircuit. -/
def read? (text : Text) : Option Header :=
  match Word.operands ((Word.split (Text.positional text)).drop 1) with
  | [] => none
  | name :: formals => some ⟨name, formals, .ofAssignments (Text.assignments text)⟩

/-- The header on a card, or the fault of a start line without a name. -/
def ofCard (card : Card) : Except Fault Header :=
  match read? card.text with
  | some header => .ok header
  | none => .error (.missingName card.keyword)

end Header

namespace Formals

/-- The `n`-th new name for a repeated formal. -/
def variant (formal : Text) (n : Nat) : Text := formal ++ "__" ++ Text.ofNat n

/-- The first variant from `n` on that is not taken, out of `tries + 1` variants.
As many tries as there are taken names always suffice. -/
def fresh {policy : CasePolicy} (taken : NameSet policy) (formal : Text) :
    (tries n : Nat) → Text
  | 0, n => variant formal n
  | tries + 1, n =>
      if taken.contains (variant formal n) then fresh taken formal tries (n + 1)
      else variant formal n

/-- The source of zero volts between a formal and the new name of its repetition. -/
def tie (count : Nat) (formal image : Text) : Card :=
  { text := "v__dup" ++ Text.ofNat count ++ " " ++ formal ++ " " ++ image ++ " 0" }

/-- Renames what is left of the formals; `ties` sources have been made so far. -/
def separateFrom {policy : CasePolicy} (taken seen : NameSet policy) (ties : Nat) :
    List Text → List Text × List Card
  | [] => ([], [])
  | formal :: rest =>
      if seen.contains formal then
        let image := fresh taken formal taken.size 2
        let (formals, cards) := separateFrom (taken.add image) seen (ties + 1) rest
        (image :: formals, tie (ties + 1) formal image :: cards)
      else
        let (formals, cards) := separateFrom taken (seen.add formal) ties rest
        (formal :: formals, cards)

/-- Pairwise different formals, and the sources that tie the new names. -/
def separate (policy : CasePolicy) (formals : List Text) : List Text × List Card :=
  separateFrom (NameSet.ofList formals : NameSet policy) .empty 0 formals

end Formals

structure Definition where
  name : Text
  formals : List Text
  defaults : ParamTable
  functions : FunctionTable
  body : Deck
  /-- Source line of the start directive. -/
  number : Nat

namespace Definition

/-- No statement of the body is live. -/
def isEmpty (definition : Definition) : Bool := definition.body.isBlank

/-- Lays the assignments of one parameter statement over the defaults. -/
def overlay (bound : Bindings) (text : Text) : Bindings :=
  let own := Bindings.state ⟨.empty, bound.functions⟩ text
  ⟨bound.params.update own.params, own.functions⟩

/-- Takes the parameter statements out of a body.  Inside `nest` inner
definitions they are left alone. -/
def takeParams (directives : Directives) (nest : Nat) (bound : Bindings) :
    Deck → Bindings × Deck
  | [] => (bound, [])
  | card :: rest =>
      if !card.isLive then
        let (result, cards) := takeParams directives nest bound rest
        (result, card :: cards)
      else if directives.isStart card.keyword then
        let (result, cards) := takeParams directives (nest + 1) bound rest
        (result, card :: cards)
      else if directives.isEnd card.keyword then
        let (result, cards) := takeParams directives (nest - 1) bound rest
        (result, card :: cards)
      else if nest = 0 && directives.isParam card.keyword then
        let (result, cards) := takeParams directives nest (overlay bound card.operand) rest
        (result, card.disable :: cards)
      else
        let (result, cards) := takeParams directives nest bound rest
        (result, card :: cards)

/-- The definition with the given header and body. -/
def build (directives : Directives) (policy : CasePolicy) (header : Header) (body : Deck)
    (number : Nat) : Definition :=
  let (bound, cards) := takeParams directives 0 ⟨header.defaults, .empty⟩ body
  let (formals, ties) := Formals.separate policy header.formals
  { name := header.name
    formals
    defaults := bound.params
    functions := bound.functions
    body := ties ++ cards
    number }

end Definition

/-- Definitions by name; the names compare up to letter case. -/
abbrev DefinitionTable := NameTable .insensitive Definition

end Netlist

import Netlist.Catenation
import Netlist.DeviceLine
import Netlist.Parameter.Table
import Netlist.Pin

/-!
# Renaming the body of an instance

First every model of the body gets a name of the instance, and the innermost
frame is told.  Then the devices follow: their names, nodes, references and
models are renamed, and the text behind is substituted and its references
renamed too.  Ground, global nodes and formal nodes stand for nodes outside;
every other node is internal and gets a name of the instance.
-/

namespace Netlist

/-- What is needed to rename the body of one instance. -/
structure Renamer (config : Config) where
  catalog : Catalog
  inst : Text
  pins : Pins config.casePolicy
  params : ParamTable
  globals : NameSet config.casePolicy

namespace Renamer

variable {config : Config}

def joint (_ : Renamer config) : Catenation := .ofConfig config

/-- The name of a node before it is looked up. -/
def nodeName (renamer : Renamer config) (name : Text) : Text :=
  if config.substituteNodes then renamer.params.substitute name else name

def node (renamer : Renamer config) (name : Text) : Text :=
  let name := renamer.nodeName name
  (renamer.pins.outside? renamer.globals name).getD (renamer.joint.node name renamer.inst)

def device (renamer : Renamer config) (name : Text) : Text :=
  renamer.joint.device name renamer.inst

def byRole (renamer : Renamer config) : Role → Text → Text
  | .node => renamer.node
  | .device => renamer.device

/-- Renames the references in the text of an expression. -/
def finish (renamer : Renamer config) (text : Text) : Text :=
  Reference.renameAll renamer.byRole text

/-- The words that a part of a device line becomes. -/
def part (renamer : Renamer config) : Part → List Text
  | .device name => [renamer.device name]
  | .node name => [renamer.node name]
  | .controls role dimension names =>
      ("poly(" ++ Text.ofNat dimension ++ ")") :: names.map (renamer.byRole role)
  | .reference name => [renamer.device name]
  | .model name => [name]

/-- The leading words and the text behind them, if there is any. -/
def assemble (head : List Text) (tail : Text) : Text :=
  if (Text.trim tail).isEmpty then Text.join " " head
  else Text.join " " head ++ " " ++ Text.trimStart tail

/-- A device line with everything in it renamed. -/
def deviceLine (renamer : Renamer config) (scopes : Scopes config.casePolicy) (text : Text) :
    Except Fault Text :=
  match Word.split text with
  | [] => .ok text
  | name :: words =>
      match DeviceLine.layout config.strictModels scopes
          (DeviceLine.kind? renamer.catalog name.text) name.text words with
      | .error fault => .error fault
      | .ok layout =>
          let head := (.device name.text :: layout.parts).flatMap renamer.part
          let tail := DeviceLine.textFrom text layout.rest
          .ok (assemble head (renamer.finish (renamer.params.substitute tail)))

/-- The name on a model line, its new name and the line under the new name. -/
def modelLine? (renamer : Renamer config) (text : Text) : Option (Text × Text × Text) :=
  match Word.split text with
  | keyword :: name :: _ =>
      let image := renamer.joint.model name.text renamer.inst
      let tail := renamer.params.substitute (Text.dropBytes name.stop text)
      some (name.text, image, keyword.text ++ " " ++ image ++ tail)
  | _ => none

/-- A control line: its keyword stays, references behind it are renamed. -/
def controlLine (renamer : Renamer config) (text : Text) : Text :=
  let keyword := text.takeWhile fun c => !isBlank c
  let tail := text.dropWhile fun c => !isBlank c
  keyword ++ renamer.finish (renamer.params.substitute tail)

/-- A control line without a meaning of its own for the expansion. -/
def isPlainControl (directives : Directives) (keyword : Text) : Bool :=
  !(directives.isModel keyword || directives.isStart keyword || directives.isEnd keyword ||
    directives.isParam keyword || directives.isGlobal keyword ||
    directives.isCacheStart keyword || directives.isCacheEnd keyword)

/-- Renames one model card, and tells the alias. -/
def modelCard (renamer : Renamer config) (models : ModelAliases config.casePolicy)
    (card : Card) : ModelAliases config.casePolicy × Card :=
  if card.isLive && config.directives.isModel card.keyword then
    match renamer.modelLine? card.text with
    | some (name, image, text) => (models.insert name image, { card with text })
    | none => (models, card)
  else (models, card)

/-- Renames the model cards of a deck. -/
def modelCards (renamer : Renamer config) (models : ModelAliases config.casePolicy) :
    Deck → ModelAliases config.casePolicy × Deck
  | [] => (models, [])
  | card :: rest =>
      let (models, card) := renamer.modelCard models card
      let (models, cards) := renamer.modelCards models rest
      (models, card :: cards)

/-- A keyword that starts with a letter belongs to a device. -/
def startsDevice (keyword : Text) : Bool := (keyword.head?.map Char.isAlpha).getD false

/-- Renames one card that is not a model. -/
def bodyCard (renamer : Renamer config) (scopes : Scopes config.casePolicy) (card : Card) :
    Except Fault Card :=
  if !card.isLive then .ok card
  else if startsDevice card.keyword then
    match renamer.deviceLine scopes card.text with
    | .error fault => .error fault
    | .ok text => .ok { card with text }
  else if card.keyword.head? == some '.' && isPlainControl config.directives card.keyword then
    .ok { card with text := renamer.controlLine card.text }
  else .ok card

/-- Renames cards up to the first fault, which is noted on its card. -/
def bodyCards (renamer : Renamer config) (scopes : Scopes config.casePolicy) :
    Deck → Deck × Option Diagnosis
  | [] => ([], none)
  | card :: rest =>
      match renamer.bodyCard scopes card with
      | .error fault => (card.annotate fault.message :: rest, some (.ofCard .rename fault card))
      | .ok image =>
          let (cards, failure) := renamer.bodyCards scopes rest
          (image :: cards, failure)

/-- What becomes of a body and of the scopes it is renamed in. -/
structure Result (policy : CasePolicy) where
  deck : Deck
  scopes : Scopes policy
  failure : Option Diagnosis

/-- Renames a body that was expanded in the innermost frame of `scopes`. -/
def body (renamer : Renamer config) (scopes : Scopes config.casePolicy) (deck : Deck) :
    Result config.casePolicy :=
  let (models, named) := renamer.modelCards scopes.top.models deck
  let scopes := scopes.withModels models
  let (cards, failure) := renamer.bodyCards scopes named
  ⟨cards, scopes, failure⟩

end Renamer

end Netlist

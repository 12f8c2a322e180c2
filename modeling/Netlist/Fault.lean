import Netlist.Card

/-!
# Faults and warnings

A fault is the reason why a netlist cannot be expanded.  A diagnosis adds the
stage that met it and the card it was met on.  Unknown subcircuits are
collected until the end; every other fault stops the expansion at once.
-/

namespace Netlist

inductive Fault where
  | missingName (directive : Text)
  | endWithoutStart (directive : Text)
  | unterminated (name : Text)
  | malformedCall (reason : Text)
  | malformedPoly (reason : Text)
  | unknownSubcircuit (name : Text)
  | unknownModel (device model : Text)
  | ambiguousModel (name : Text) (candidates : List Text)
  | missingModel (device : Text)
  | tooManyArguments (subcircuit : Text) (expected actual : Nat)
  | tooFewArguments (subcircuit : Text) (expected actual : Nat)
  | maxCallDepth (limit : Nat) (call : Text)
  | cacheBlockNotFound (name : Text)
deriving DecidableEq, Repr

inductive FaultCategory where
  | form
  | resolution
  | arity
  | depth
  | cache
deriving DecidableEq, Repr

namespace FaultCategory

def name : FaultCategory → Text
  | .form => "Syntax"
  | .resolution => "Resolution"
  | .arity => "Arity"
  | .depth => "Depth"
  | .cache => "Cache"

/-- The short remark at the place of the fault. -/
def label : FaultCategory → Text
  | .form => "malformed here"
  | .resolution => "unresolved reference"
  | .arity => "argument count mismatch"
  | .depth => "nested too deeply"
  | .cache => "cache lookup failed"

end FaultCategory

namespace Fault

def category : Fault → FaultCategory
  | .missingName _ | .endWithoutStart _ | .unterminated _ | .malformedCall _
  | .malformedPoly _ => .form
  | .unknownSubcircuit _ | .unknownModel _ _ | .ambiguousModel _ _ | .missingModel _ =>
      .resolution
  | .tooManyArguments _ _ _ | .tooFewArguments _ _ _ => .arity
  | .maxCallDepth _ _ => .depth
  | .cacheBlockNotFound _ => .cache

/-- The last part of the fault's code. -/
def code : Fault → Text
  | .missingName _ => "missing_name"
  | .endWithoutStart _ => "end_without_start"
  | .unterminated _ => "unterminated_subckt"
  | .malformedCall _ => "malformed_call"
  | .malformedPoly _ => "malformed_poly"
  | .unknownSubcircuit _ => "unknown_subckt"
  | .unknownModel _ _ => "unknown_model"
  | .ambiguousModel _ _ => "ambiguous_model"
  | .missingModel _ => "missing_model"
  | .tooManyArguments _ _ _ => "too_many_args"
  | .tooFewArguments _ _ _ => "too_few_args"
  | .maxCallDepth _ _ => "max_call_depth"
  | .cacheBlockNotFound _ => "cache_block_not_found"

/-- How many arguments a call should have had, and how many it has. -/
def argumentCounts (subcircuit : Text) (expected actual : Nat) : Text :=
  " arguments in call to '" ++ subcircuit ++ "': expected " ++ Text.ofNat expected ++
    ", got " ++ Text.ofNat actual

def message : Fault → Text
  | .missingName directive => "missing subcircuit name on '" ++ directive ++ "' line"
  | .endWithoutStart directive =>
      "'" ++ directive ++ "' without a matching subcircuit start"
  | .unterminated name => "subcircuit '" ++ name ++ "' is never closed"
  | .malformedCall reason => "malformed subcircuit call: " ++ reason
  | .malformedPoly reason => "malformed poly construct: " ++ reason
  | .unknownSubcircuit name => "unknown subcircuit '" ++ name ++ "'"
  | .unknownModel device model =>
      "unknown model '" ++ model ++ "' referenced by device '" ++ device ++ "'"
  | .ambiguousModel name candidates =>
      "ambiguous model reference '" ++ name ++ "', candidates: " ++ Text.join ", " candidates
  | .missingModel device => "no model found for device '" ++ device ++ "'"
  | .tooManyArguments subcircuit expected actual =>
      "too many" ++ argumentCounts subcircuit expected actual
  | .tooFewArguments subcircuit expected actual =>
      "too few" ++ argumentCounts subcircuit expected actual
  | .maxCallDepth limit call =>
      "max call depth " ++ Text.ofNat limit ++ " exceeded in call '" ++ call ++ "'"
  | .cacheBlockNotFound name => "cache block '" ++ name ++ "' not found"

/-- Advice on how to mend the netlist, where there is any. -/
def help? : Fault → Option Text
  | .endWithoutStart _ =>
      some "remove the stray end directive or add the missing subcircuit start".toList
  | .unterminated _ => some "add a matching end directive".toList
  | .unknownSubcircuit _ =>
      some ("define the subcircuit in this deck, an enclosing subcircuit " ++
        "or a cache block").toList
  | .unknownModel _ _ =>
      some "define the model in the deck or disable strict model checking".toList
  | .maxCallDepth _ _ =>
      some ("check for a subcircuit that instantiates itself directly " ++
        "or through a chain").toList
  | _ => none

/-- Everything but an unknown subcircuit stops the expansion at once. -/
def isFatal : Fault → Bool
  | .unknownSubcircuit _ => false
  | _ => true

end Fault

/-- The stage of the work that meets a fault. -/
inductive Phase where
  | extract
  | expand
  | rename
  | cache
deriving DecidableEq, Repr

namespace Phase

def name : Phase → Text
  | .extract => "extract"
  | .expand => "expand"
  | .rename => "translate"
  | .cache => "cache"

end Phase

/-- Where a fault was met. -/
inductive Site where
  | card (number : Nat) (text : Text)
  /-- No card of the deck, but something that was asked for. -/
  | request (context : Text)
deriving DecidableEq, Repr

namespace Site

def ofCard (card : Card) : Site := .card card.number card.text

def number : Site → Nat
  | .card number _ => number
  | .request _ => 0

/-- The title under which the source of a fault is shown. -/
def title : Site → Text
  | .card 0 _ => "expanded line"
  | .card number _ => "line " ++ Text.ofNat number
  | .request _ => "fallback"

def content : Site → Text
  | .card _ text => text
  | .request context => "* " ++ context

end Site

structure Diagnosis where
  phase : Phase
  fault : Fault
  site : Site
deriving DecidableEq, Repr

namespace Diagnosis

def ofCard (phase : Phase) (fault : Fault) (card : Card) : Diagnosis :=
  ⟨phase, fault, .ofCard card⟩

def message (diagnosis : Diagnosis) : Text :=
  diagnosis.fault.category.name ++ " error: " ++ diagnosis.fault.message

def code (diagnosis : Diagnosis) : Text :=
  "netmacro::" ++ diagnosis.phase.name ++ "::" ++ diagnosis.fault.code

end Diagnosis

/-- Why an expansion failed, with the deck as far as it got. -/
structure Failure where
  diagnoses : List Diagnosis
  deck : Option Deck
deriving DecidableEq, Repr

namespace Failure

def code : Text := "netmacro::expand::failed"

/-- A single diagnosis speaks for itself; of several the number is told. -/
def message (failure : Failure) : Text :=
  match failure.diagnoses with
  | [only] => only.message
  | several => "expansion failed with " ++ Text.ofNat several.length ++ " errors"

end Failure

structure Warning where
  number : Nat
  text : Text
  message : Text
deriving DecidableEq, Repr

namespace Warning

def ofCard (card : Card) (message : Text) : Warning := ⟨card.number, card.text, message⟩

def render (warning : Warning) : Text :=
  let place : Text :=
    if warning.number = 0 then [] else "line " ++ Text.ofNat warning.number ++ ": "
  "warning: " ++ place ++ warning.message ++ " (" ++ warning.text ++ ")"

end Warning

end Netlist

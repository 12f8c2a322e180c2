import Netlist.Fault
import Netlist.NameTable

/-!
# Pins

A call connects each formal node of a definition to an actual node.  Ground
and the global nodes stand for themselves wherever they are named.
-/

namespace Netlist

/-- The ground node. -/
def ground : Text := ['0']

/-- Formal nodes and the actual nodes they are connected to. -/
structure Pins (policy : CasePolicy) where
  entries : List (Text × Text) := []
deriving DecidableEq, Repr

namespace Pins

variable {policy : CasePolicy}

/-- Connects formals and actuals in order; there have to be equally many. -/
def connect (subcircuit : Text) (formals actuals : List Text) : Except Fault (Pins policy) :=
  if formals.length < actuals.length then
    .error (.tooManyArguments subcircuit formals.length actuals.length)
  else if actuals.length < formals.length then
    .error (.tooFewArguments subcircuit formals.length actuals.length)
  else .ok ⟨formals.zip actuals⟩

/-- The node outside that a node name stands for; an internal node has none. -/
def outside? (pins : Pins policy) (globals : NameSet policy) (name : Text) : Option Text :=
  if name = ground || globals.contains name then some name
  else (pins.entries.find? fun entry => policy.same entry.1 name).map Prod.snd

end Pins

end Netlist

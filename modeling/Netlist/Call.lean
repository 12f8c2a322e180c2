import Netlist.Config
import Netlist.Parameter.Table
import Netlist.Word

/-!
# Calls

A call names an instance, the actual nodes, a subcircuit and assignments for
its parameters.  The parameters in force inside the instance are layered from
the scope of the caller, the defaults of the definition and the call, in an
order that the configuration chooses.
-/

namespace Netlist

structure Call where
  inst : Text
  actuals : List Text
  subcircuit : Text
  /-- The assignments as written. -/
  assignments : Text
deriving DecidableEq, Repr

namespace Call

/-- The call on a line, if the line has the name of a subcircuit. -/
def read? (text : Text) : Option Call :=
  match Word.operands (Word.split (Text.positional text)) with
  | [] => none
  | inst :: rest =>
      rest.getLast?.map fun subcircuit =>
        { inst
          actuals := rest.dropLast
          subcircuit
          assignments := Text.trim (Text.assignments text) }

/-- The plain assignments of a call, with values resolved in the scope of the caller. -/
def arguments (caller : ParamTable) (assignments : Text) : ParamTable :=
  (Assignment.read assignments).foldl (fun table item =>
    match item.arguments with
    | none => table.insert item.name (caller.substitute item.value)
    | some _ => table) .empty

/-- The parameters in force inside an instance. -/
def layer (policy : MergePolicy) (caller defaults : ParamTable) (assignments : Text) :
    ParamTable :=
  let call := arguments caller assignments
  match policy with
  | .global => (call.update defaults).update caller
  | .local => (caller.update defaults).update call

/-- The name of the subcircuit with parameters resolved; a name that vanishes stays. -/
def target (params : ParamTable) (call : Call) : Text :=
  match Text.trim (params.substitute call.subcircuit) with
  | [] => call.subcircuit
  | name => name

end Call

end Netlist

import Netlist.Config
import Netlist.Model

/-!
# Joined names

What is local to an instance gets a name of its own by joining the local name
and the name of the instance with a separator.
-/

namespace Netlist

/-- How names are joined. -/
structure Catenation where
  order : CatenationOrder
  separator : Char
deriving DecidableEq, Repr

namespace Catenation

def ofConfig (config : Config) : Catenation := ⟨config.order, config.separator⟩

def node (joint : Catenation) (name inst : Text) : Text :=
  match joint.order with
  | .nameFirst => name ++ joint.separator :: inst
  | .instanceFirst => inst ++ joint.separator :: name

/-- A device keeps its key letter in front. -/
def device (joint : Catenation) (name inst : Text) : Text :=
  match joint.order with
  | .nameFirst => name ++ joint.separator :: inst
  | .instanceFirst => name.take 1 ++ joint.separator :: inst ++ joint.separator :: name

/-- A model keeps its bin at the end. -/
def model (joint : Catenation) (name inst : Text) : Text :=
  match Model.splitBin name with
  | (base, some bin) => joint.node base inst ++ bin
  | (base, none) => joint.node base inst

end Catenation

end Netlist

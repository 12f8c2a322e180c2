import Netlist.NameTable
import Netlist.Text.Blank

/-!
# Configuration

Everything the expansion treats as policy: how names compare, in which order
parameters are layered, how the name of an instance is joined to a local name,
how the directives are spelled, and which instance names stand for plain
devices.
-/

namespace Netlist

/-- Which of the tables that meet in a call wins. -/
inductive MergePolicy where
  /-- The scope of the caller, then the defaults, then the call. -/
  | global
  /-- The call, then the defaults, then the scope of the caller. -/
  | local
deriving DecidableEq, Repr

/-- Which part of a joined name comes first. -/
inductive CatenationOrder where
  | nameFirst
  | instanceFirst
deriving DecidableEq, Repr

/-- The spellings of the directives, compared up to letter case. -/
structure Directives where
  starts : List Text := [".subckt".toList, ".macro".toList]
  ends : List Text := [".ends".toList, ".eom".toList]
  /-- How the first word of a call begins. -/
  callLead : Text := "x".toList
  model : Text := ".model".toList
  global : Text := ".global".toList
  param : Text := ".param".toList
  cacheStart : Text := ".cache".toList
  cacheEnd : Text := ".endcache".toList
deriving DecidableEq, Repr

namespace Directives

variable (directives : Directives) (keyword : Text)

def isStart : Bool := directives.starts.any fun spelling => Text.sameLetters spelling keyword

def isEnd : Bool := directives.ends.any fun spelling => Text.sameLetters spelling keyword

def isModel : Bool := Text.sameLetters directives.model keyword

def isGlobal : Bool := Text.sameLetters directives.global keyword

def isParam : Bool := Text.sameLetters directives.param keyword

def isCacheStart : Bool := Text.sameLetters directives.cacheStart keyword

def isCacheEnd : Bool := Text.sameLetters directives.cacheEnd keyword

/-- An empty lead opens no call. -/
def isCall : Bool := !directives.callLead.isEmpty && Text.opensWith directives.callLead keyword

end Directives

structure Config where
  casePolicy : CasePolicy := .insensitive
  merge : MergePolicy := .global
  order : CatenationOrder := .nameFirst
  separator : Char := '_'
  /-- Whether parameters are substituted in node words. -/
  substituteNodes : Bool := false
  maxDepth : Nat := 16
  /-- Whether a model that is declared nowhere is an error. -/
  strictModels : Bool := false
  /-- Beginnings of instance names and the device letters they stand for. -/
  deviceLeads : NameTable .sensitive Char := .empty
  directives : Directives := {}

namespace Config

instance : Inhabited Config := ⟨{}⟩

/-- The name begins with `lead`, up to letter case, and is longer. -/
def leads (lead name : Text) : Bool :=
  Text.opensWith lead name && lead.length < name.length

/-- Of two leads the longer one in bytes counts, and of equally long ones the later. -/
def longerLead (best : Option (Text × Char)) (entry : Text × Char) : Option (Text × Char) :=
  match best with
  | none => some entry
  | some (lead, letter) =>
      if Text.byteSize lead ≤ Text.byteSize entry.1 then some entry else some (lead, letter)

/-- The device letter for an instance name, by the longest lead that matches. -/
def deviceLetter? (config : Config) (name : Text) : Option Char :=
  ((config.deviceLeads.entries.filter fun entry => leads entry.1 name).foldl longerLead none).map
    Prod.snd

end Config

end Netlist

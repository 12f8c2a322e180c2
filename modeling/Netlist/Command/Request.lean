import Netlist.Text

/-!
# Requests on the command line

The first argument names an action; options may stand anywhere behind it, and
after a double dash everything is an operand.  Options that take a value take
it from the same argument or from the next one.
-/

namespace Netlist

namespace Command

inductive Action where
  /-- Prints the flat netlist. -/
  | expand (file : Text) (json strip : Bool)
  /-- Prints every replaced call as a difference. -/
  | trace (file : Text)
  /-- Prints the definitions. -/
  | list (file : Text) (json : Bool)
  /-- Expands every netlist under a path and tells which ones fail. -/
  | check (path : Text)
deriving DecidableEq, Repr

structure Options where
  config : Option Text := none
  settings : List Text := []
  noTitle : Bool := false
deriving DecidableEq, Repr

inductive Request where
  | version
  | help
  | perform (action : Action) (options : Options)
deriving DecidableEq, Repr

/-- The arguments of an action, sorted by what they are. -/
structure Arguments where
  operands : List Text := []
  config : Option Text := none
  settings : List Text := []
  flags : List Text := []
deriving DecidableEq, Repr

namespace Arguments

def addOperand (given : Arguments) (operand : Text) : Arguments :=
  { given with operands := given.operands ++ [operand] }

def addSetting (given : Arguments) (setting : Text) : Arguments :=
  { given with settings := given.settings ++ [setting] }

/-- A configuration file is named at most once, and not by an empty name. -/
def setConfig? (given : Arguments) (path : Text) : Option Arguments :=
  if path.isEmpty || given.config.isSome then none else some { given with config := some path }

def addFlag? (given : Arguments) (flag : Text) : Option Arguments :=
  if given.flags.contains flag then none else some { given with flags := flag :: given.flags }

def hasFlag (given : Arguments) (flag : Text) : Bool := given.flags.contains flag

def options (given : Arguments) : Options :=
  { config := given.config
    settings := given.settings
    noTitle := given.hasFlag "no-title" }

end Arguments

inductive Scan where
  | help
  | done (given : Arguments)
deriving DecidableEq, Repr

/-- An argument that could be an option is not taken for a value. -/
def isValue : Text → Bool
  | '-' :: _ :: _ => false
  | _ => true

/-- The name of a long option, and the value behind its equals sign. -/
def splitLong (name : Text) : Text × Option Text :=
  match Text.cutAt '=' name with
  | none => (name, none)
  | some (name, value) => (name, some value)

/-- The value in the argument of a short option, if there is one. -/
def attached (rest : Text) : Option Text :=
  match rest with
  | [] => none
  | '=' :: value => some value
  | value => some value

/-- What one argument is. -/
inductive Argument where
  | operand (value : Text)
  /-- Only operands follow. -/
  | operandsFollow
  | help
  | flag (name : Text)
  | config (value : Option Text)
  | setting (value : Option Text)
  | unknown
deriving DecidableEq, Repr

/-- Tells what an argument is, for an action with the given flags. -/
def classify (flags : List Text) : Text → Argument
  | ['-', '-'] => .operandsFollow
  | '-' :: '-' :: long =>
      let (name, value) := splitLong long
      if name = "config".toList then .config value
      else if name = "set".toList then .setting value
      else if value.isSome then .unknown
      else if name = "help".toList then .help
      else if flags.contains name then .flag name
      else .unknown
  | '-' :: 'c' :: rest => .config (attached rest)
  | '-' :: 'h' :: _ => .help
  | '-' :: _ :: _ => .unknown
  | operand => .operand operand

/-- Sorts the arguments of an action that takes at most one operand, which is not empty. -/
def scan (flags : List Text) (given : Arguments) : List Text → Option Scan
  | [] => some (.done given)
  | first :: rest =>
      match classify flags first with
      | .operand operand =>
          if given.operands.isEmpty && !operand.isEmpty then
            scan flags (given.addOperand operand) rest
          else none
      | .operandsFollow =>
          some (.done { given with operands := given.operands ++ rest })
      | .help => some .help
      | .flag name => (given.addFlag? name).bind fun given => scan flags given rest
      | .config (some path) => (given.setConfig? path).bind fun given => scan flags given rest
      | .setting (some setting) => scan flags (given.addSetting setting) rest
      | .config none =>
          match rest with
          | [] => none
          | path :: rest =>
              if isValue path then
                (given.setConfig? path).bind fun given => scan flags given rest
              else none
      | .setting none =>
          match rest with
          | [] => none
          | setting :: rest =>
              if isValue setting then scan flags (given.addSetting setting) rest else none
      | .unknown => none

/-- The operand of an action that needs one. -/
def operand? (given : Arguments) : Option Text :=
  match given.operands with
  | [only] => if only.isEmpty then none else some only
  | _ => none

/-- The operand of an action that can do without; then it is the working directory. -/
def operandOrHere? (given : Arguments) : Option Text :=
  match given.operands with
  | [] => some ['.']
  | _ => operand? given

/-- An action by name: its flags, and how it comes out of its arguments. -/
structure Form where
  name : Text
  flags : List Text
  action? : Arguments → Option Action

def forms : List Form :=
  [{ name := "expand"
     flags := ["no-title", "json", "strip"]
     action? := fun given =>
      (operand? given).map fun file =>
        .expand file (given.hasFlag "json") (given.hasFlag "strip") },
    { name := "trace"
      flags := ["no-title"]
      action? := fun given => (operand? given).map .trace },
    { name := "list"
      flags := ["no-title", "json"]
      action? := fun given => (operand? given).map fun file => .list file (given.hasFlag "json") },
    { name := "check"
      flags := ["no-title"]
      action? := fun given => (operandOrHere? given).map .check }]

def form? (name : Text) : Option Form := forms.find? fun form => form.name == name

/-- The request for an action with the given arguments. -/
def perform? (form : Form) (arguments : List Text) : Option Request :=
  match scan form.flags {} arguments with
  | none => none
  | some .help => some .help
  | some (.done given) => (form.action? given).map fun action => .perform action given.options

/-- The request for help on an action, or on all of them. -/
def helpOn? : List Text → Option Request
  | [] => some .help
  | [name] => if name = "help".toList || (form? name).isSome then some .help else none
  | _ => none

/-- The request that the arguments make; without one the usage is wrong. -/
def request? : List Text → Option Request
  | [] => none
  | first :: rest =>
      if first = "--version".toList || "-V".toList.isPrefixOf first then some .version
      else if first = "--help".toList || "-h".toList.isPrefixOf first then some .help
      else if first = "help".toList then helpOn? rest
      else (form? first).bind fun form => perform? form rest

end Command

end Netlist

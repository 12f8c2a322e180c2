import Netlist.Config
import Netlist.Numeral

/-!
# Settings

A configuration is changed one variable at a time, by name and value.
-/

namespace Netlist

inductive SettingError where
  | unknownVariable (name : Text)
  | invalidValue (name value expected : Text)
  | malformedAssignment (text : Text)
deriving DecidableEq, Repr

namespace SettingError

def message : SettingError → Text
  | .unknownVariable name => "unknown configuration variable '" ++ name ++ "'"
  | .invalidValue name value expected =>
      "invalid value '" ++ value ++ "' for '" ++ name ++ "': expected " ++ expected
  | .malformedAssignment text => "expected name=value, got '" ++ text ++ "'"

end SettingError

namespace Config

/-- A truth value in one of its usual spellings. -/
def flag? (value : Text) : Option Bool :=
  let word := Text.lower value
  if [("1" : Text), "true", "yes", "on"].contains word then some true
  else if [("0" : Text), "false", "no", "off"].contains word then some false
  else none

/-- A single word, with the blanks around it left out. -/
def word? (value : Text) : Option Text :=
  let word := Text.trim value
  if word.isEmpty || word.any isBlank then none else some word

def separator? : Text → Option Char
  | [only] => if isBlank only then none else some only
  | _ => none

def order? (value : Text) : Option CatenationOrder :=
  let word := Text.lower value
  if word = "wrspice".toList then some .nameFirst
  else if word = "spice3".toList then some .instanceFirst
  else none

def merge? (value : Text) : Option MergePolicy :=
  let word := Text.lower value
  if word = "global".toList then some .global
  else if word = "local".toList then some .local
  else none

def depth? (value : Text) : Option Nat := (Numeral.count? value).filter fun depth => 0 < depth

inductive Variable where
  | separator
  | order
  | merge
  | caseSensitive
  | substituteNodes
  | strictModels
  | maxDepth
  | start
  | stop
  | callLead
  | model
deriving DecidableEq, Repr

namespace Variable

/-- Variables by their names in lower case. -/
def all : List (Text × Variable) :=
  [("subc_catchar", .separator), ("subc_catmode", .order), ("parhier", .merge),
    ("case_sensitive", .caseSensitive), ("subst_nodes", .substituteNodes),
    ("strict_models", .strictModels), ("max_depth", .maxDepth), ("substart", .start),
    ("subend", .stop), ("subinvoke", .callLead), ("modelcard", .model)]

def ofName? (name : Text) : Option Variable :=
  (all.find? fun entry => entry.1 == Text.lower name).map Prod.snd

/-- What a value of the variable has to be. -/
def expectation : Variable → Text
  | .separator => "a single non-blank character"
  | .order => "wrspice or spice3"
  | .merge => "global or local"
  | .caseSensitive | .substituteNodes | .strictModels => "a boolean"
  | .maxDepth => "a positive integer"
  | .start | .stop | .callLead | .model => "a single word"

end Variable

/-- The configuration with a variable changed, if the value fits it. -/
def change? (config : Config) (which : Variable) (value : Text) : Option Config :=
  match which with
  | .separator => (separator? value).map fun c => { config with separator := c }
  | .order => (order? value).map fun order => { config with order }
  | .merge => (merge? value).map fun merge => { config with merge }
  | .caseSensitive =>
      (flag? value).map fun on =>
        { config with casePolicy := if on then .sensitive else .insensitive }
  | .substituteNodes => (flag? value).map fun on => { config with substituteNodes := on }
  | .strictModels => (flag? value).map fun on => { config with strictModels := on }
  | .maxDepth => (depth? value).map fun depth => { config with maxDepth := depth }
  | .start =>
      (word? value).map fun word =>
        { config with directives := { config.directives with starts := [word] } }
  | .stop =>
      (word? value).map fun word =>
        { config with directives := { config.directives with ends := [word] } }
  | .callLead =>
      (word? value).map fun word =>
        { config with directives := { config.directives with callLead := word } }
  | .model =>
      (word? value).map fun word =>
        { config with directives := { config.directives with model := word } }

/-- Sets a variable by name. -/
def set (config : Config) (name value : Text) : Except SettingError Config :=
  match Variable.ofName? name with
  | none => .error (.unknownVariable name)
  | some which =>
      match config.change? which value with
      | some changed => .ok changed
      | none => .error (.invalidValue name value which.expectation)

/-- Applies a `name=value` setting. -/
def apply (config : Config) (text : Text) : Except SettingError Config :=
  match Text.cutAt '=' text with
  | none => .error (.malformedAssignment text)
  | some (name, value) => config.set (Text.trim name) (Text.trim value)

/-- Applies settings in order, up to the first one that fails. -/
def applyAll (config : Config) : List Text → Except SettingError Config
  | [] => .ok config
  | first :: rest =>
      match config.apply first with
      | .error error => .error error
      | .ok changed => changed.applyAll rest

end Config

end Netlist

import Netlist.Config
import Netlist.Numeral
import Netlist.Yaml

/-!
# Configuration documents

A configuration is read from a document whose keys are its fields.  A field
that is missing keeps its default, a key that is no field is passed over, and
a field that is given twice or holds a value of the wrong type makes the whole
document invalid.
-/

namespace Netlist

namespace Yaml

def text? : Yaml → Option Text
  | .scalar _ _ text => some text
  | _ => none

def char? : Yaml → Option Char
  | .scalar _ _ [only] => some only
  | _ => none

/-- The text of a scalar that may be no string: it is plain, or a literal block with the tag of
its type. -/
def untyped? (type : Text) : Yaml → Option Text
  | .scalar .plain _ text => some text
  | .scalar .literal (some tag) text =>
      if tag = "tag:yaml.org,2002:".toList ++ type then some text else none
  | _ => none

def bool? (node : Yaml) : Option Bool :=
  (node.untyped? "bool").bind fun text =>
    if [("true" : Text), "True", "TRUE"].contains text then some true
    else if [("false" : Text), "False", "FALSE"].contains text then some false
    else none

/-- The value of digits in a base up to sixteen. -/
def digits? (base : Nat) (digits : Text) : Option Nat :=
  if digits.isEmpty then none
  else
    digits.foldl (fun value digit => do
      let value ← value
      let digit ← hexValue digit
      if digit < base then return base * value + digit else none) (some 0)

/-- The base that the lead of a number announces, and the digits behind the lead. -/
def based : Text → Nat × Text
  | '0' :: 'x' :: digits => (16, digits)
  | '0' :: 'o' :: digits => (8, digits)
  | '0' :: 'b' :: digits => (2, digits)
  | digits => (10, digits)

/-- Decimal digits behind a leading zero are no number. -/
def paddedWithZero (digits : Text) : Bool :=
  match digits with
  | '0' :: next :: rest => (next :: rest).all Char.isDigit
  | _ => false

/-- A whole number below `2^64`. -/
def nat? (node : Yaml) : Option Nat :=
  (node.untyped? "int").bind fun text =>
    let unsigned := match text with
      | '+' :: rest => rest
      | _ => text
    let (base, digits) := based unsigned
    if paddedWithZero unsigned then none
    else (digits? base digits).filter fun value => value < Nat.pow 2 64

/-- A list of texts; nothing is an empty list. -/
def texts? : Yaml → Option (List Text)
  | .list items => items.mapM text?
  | .scalar .plain _ [] => some []
  | _ => none

/-- The name of a choice, which is the text of a scalar or a tag of its own before nothing. -/
def choiceName? : Yaml → Option Text
  | .scalar style (some ('!' :: name)) text =>
      if style = .plain && [("" : Text), "null", "Null", "NULL", "~"].contains text then some name
      else none
  | node => node.text?

def choice? {α : Type} (choices : List (Text × α)) (node : Yaml) : Option α :=
  node.choiceName?.bind fun name =>
    (choices.find? fun entry => entry.1 == name).map Prod.snd

/-- How the fields of a record are read into it, by name. -/
abbrev Fields (α : Type) := List (Text × (α → Yaml → Option α))

/-- Reads entries into a record; `seen` holds the fields given so far. -/
def readEntries {α : Type} (fields : Fields α) (seen : List Text) (record : α) :
    List (Yaml × Yaml) → Option α
  | [] => some record
  | (key, value) :: rest =>
      key.text?.bind fun key =>
        match fields.find? fun field => field.1 == key with
        | none => readEntries fields seen record rest
        | some (name, put) =>
            if seen.contains name then none
            else
              (put record value).bind fun record => readEntries fields (name :: seen) record rest

/-- Reads a record over its defaults; nothing leaves all of them. -/
def record? {α : Type} (fields : Fields α) (defaults : α) : Yaml → Option α
  | .mapping entries => readEntries fields [] defaults entries
  | .scalar .plain _ [] => some defaults
  | _ => none

end Yaml

namespace Directives

def fields : Yaml.Fields Directives :=
  [("subckt_start", fun record value => value.texts?.map fun starts => { record with starts }),
    ("subckt_end", fun record value => value.texts?.map fun ends => { record with ends }),
    ("call_prefix", fun record value => value.text?.map fun callLead => { record with callLead }),
    ("model", fun record value => value.text?.map fun model => { record with model }),
    ("global", fun record value => value.text?.map fun global => { record with global }),
    ("param", fun record value => value.text?.map fun param => { record with param }),
    ("cache_start", fun record value =>
      value.text?.map fun cacheStart => { record with cacheStart }),
    ("cache_end", fun record value => value.text?.map fun cacheEnd => { record with cacheEnd })]

end Directives

namespace Config

/-- Leads and device letters; of two for one lead the later counts. -/
def deviceLeads? : Yaml → Option (NameTable .sensitive Char)
  | .mapping entries =>
      entries.foldl (fun table (key, value) => do
        let table ← table
        let lead ← key.text?
        let letter ← value.char?
        return table.insert lead letter) (some .empty)
  | .scalar .plain _ [] => some .empty
  | _ => none

def fields : Yaml.Fields Config :=
  [("case_policy", fun record value =>
      (value.choice? [("sensitive", CasePolicy.sensitive), ("insensitive", .insensitive)]).map
        fun casePolicy => { record with casePolicy }),
    ("param_merge", fun record value =>
      (value.choice? [("global", MergePolicy.global), ("local", .local)]).map
        fun merge => { record with merge }),
    ("cat_mode", fun record value =>
      (value.choice? [("wrspice", CatenationOrder.nameFirst), ("spice3", .instanceFirst)]).map
        fun order => { record with order }),
    ("cat_char", fun record value =>
      value.char?.map fun separator => { record with separator }),
    ("subst_nodes", fun record value =>
      value.bool?.map fun substituteNodes => { record with substituteNodes }),
    ("max_depth", fun record value => value.nat?.map fun maxDepth => { record with maxDepth }),
    ("strict_models", fun record value =>
      value.bool?.map fun strictModels => { record with strictModels }),
    ("prefix_map", fun record value =>
      (deviceLeads? value).map fun deviceLeads => { record with deviceLeads }),
    ("directives", fun record value =>
      (value.record? Directives.fields {}).map fun directives => { record with directives })]

/-- The configuration in a document, if the document is valid. -/
def ofYaml? (source : Text) : Option Config :=
  (Yaml.read? source).bind fun document => document.record? fields {}

end Config

end Netlist

import Netlist.Token

/-!
# References in expressions

Inside an expression a node is named by an accessor such as `v(n)`, and a
device by an accessor such as `i(r)` or behind an at sign.  Which tokens are
such references depends on the tokens alone.
-/

namespace Netlist

/-- What a name stands for. -/
inductive Role where
  | node
  | device
deriving DecidableEq, Repr

namespace Reference

def nodeAccessors : List Text := ["v", "vm", "vp", "vr", "vi", "vdb"]

def deviceAccessors : List Text := ["i", "im", "ip", "ir", "ii", "idb"]

/-- What the arguments of an accessor name. -/
def accessorRole? (name : Text) : Option Role :=
  let word := Text.lower name
  if nodeAccessors.contains word then some .node
  else if deviceAccessors.contains word then some .device
  else none

def isClose (token : Token) : Bool := token.kind = .parenClose

/-- A parenthesis opens here and some later one closes. -/
def opensArguments : List Token → Bool
  | [] => false
  | first :: rest => first.kind = .parenOpen && rest.any isClose

/-- The role of the arguments, if `first` is an accessor with arguments behind it. -/
def accessor? (first : Token) (rest : List Token) : Option Role :=
  if first.kind = .ident && opensArguments rest then accessorRole? first.text else none

def opensWithIdent : List Token → Bool
  | [] => false
  | first :: _ => first.kind = .ident

/-- Where a reading of the tokens stands. -/
inductive Place where
  /-- Outside every accessor; the flag tells whether a name was read last. -/
  | outside (afterName : Bool)
  /-- Before the parenthesis that opens the arguments. -/
  | entering (role : Role)
  /-- Among the arguments. -/
  | inside (role : Role)
  /-- Behind an at sign that a device name follows. -/
  | addressed
deriving DecidableEq, Repr

/-- The role of a token at a place, and the place behind it. -/
def step (place : Place) (first : Token) (rest : List Token) : Option Role × Place :=
  match place with
  | .entering role => (none, .inside role)
  | .inside role =>
      if isClose first then (none, .outside false)
      else (if first.isName then some role else none, .inside role)
  | .addressed => (some .device, .outside true)
  | .outside afterName =>
      match if afterName then none else accessor? first rest with
      | some role => (none, .entering role)
      | none =>
          if first.kind = .at && opensWithIdent rest then (none, .addressed)
          else (none, .outside first.isName)

/-- Each token with the role of the reference it is, if it is one. -/
def tagFrom (place : Place) : List Token → List (Token × Option Role)
  | [] => []
  | first :: rest =>
      let (role, next) := step place first rest
      (first, role) :: tagFrom next rest

def tag (tokens : List Token) : List (Token × Option Role) := tagFrom (.outside false) tokens

/-- The text of a tagged token, with a reference renamed. -/
def image (rename : Role → Text → Text) : Token × Option Role → Text
  | (token, none) => token.text
  | (token, some role) => rename role token.text

/-- Renames the references in a text and copies everything else. -/
def renameAll (rename : Role → Text → Text) (text : Text) : Text :=
  (tag (Token.scan text)).flatMap (image rename)

end Reference

end Netlist

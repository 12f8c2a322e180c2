import Netlist.NameTable
import Netlist.Parameter.Assignment

/-!
# Parameter tables

Parameters and functions are texts bound to names, and their names compare up
to letter case.  Substitution replaces each reference to a parameter by its
resolved value and copies everything else; a value is resolved through other
parameters for a bounded number of steps, so circular values come to an end.
-/

namespace Netlist

/-- Parameter names and their value texts. -/
abbrev ParamTable := NameTable .insensitive Text

structure UserFunction where
  arguments : List Text
  body : Text
deriving DecidableEq, Repr

/-- Function names and what they stand for. -/
abbrev FunctionTable := NameTable .insensitive UserFunction

/-- The next token after spaces, with the one directly behind it. -/
def nextTokens (rest : List Token) : Option Token × Option Token :=
  match Token.skipSpace rest with
  | [] => (none, none)
  | first :: behind => (some first, behind.head?)

/-- A name after `@` or a lone point belongs to something else. -/
def isGuardedBy (previous : Option Token) : Bool :=
  match previous with
  | none => false
  | some token => token.kind = .at || (token.kind = .punct && token.text = ['.'])

/-- An identifier between `previous` and `rest` refers to a parameter unless it is
called or assigned; a doubled equals sign compares and does not assign. -/
def isReference (previous : Option Token) (rest : List Token) : Bool :=
  if isGuardedBy previous then false
  else
    match nextTokens rest with
    | (none, _) => true
    | (some next, behind) =>
        if next.kind = .parenOpen then false
        else if next.kind = .equals then
          match behind with
          | none => false
          | some token => token.kind = .equals
        else true

/-- The text of a token stream with its references resolved. -/
def replaceReferences (resolve : Text → Option Text) (previous : Option Token) :
    List Token → Text
  | [] => []
  | first :: rest =>
      let image :=
        if first.kind = .ident && isReference previous rest then
          (resolve first.text).getD first.text
        else first.text
      image ++ replaceReferences resolve (some first) rest

namespace ParamTable

/-- The plain assignments of a text, the last one of each name. -/
def ofAssignments (text : Text) : ParamTable :=
  (Assignment.read text).foldl (fun table item =>
    match item.arguments with
    | none => table.insert item.name item.value
    | some _ => table) NameTable.empty

/-- Substitution that follows chains of at most `steps` names. -/
def substituteWithin (table : ParamTable) : (steps : Nat) → Text → Text
  | 0, text => text
  | steps + 1, text =>
      if table.isEmpty then text
      else
        replaceReferences (fun name => (table.get? name).map (table.substituteWithin steps))
          none (Token.scan text)

/-- The longest chain of names that substitution follows. -/
def longestChain : Nat := 9

/-- Replaces every reference to a parameter by its resolved value. -/
def substitute (table : ParamTable) (text : Text) : Text :=
  table.substituteWithin longestChain text

/-- Substitutes behind the first word of a statement. -/
def substituteLine (table : ParamTable) (text : Text) : Text :=
  let blanks := text.takeWhile isBlank
  let body := text.dropWhile isBlank
  let word := body.takeWhile fun c => !isBlank c
  let tail := body.dropWhile fun c => !isBlank c
  blanks ++ word ++ table.substitute tail

/-- The assignments that read back as this table. -/
def render (table : ParamTable) : Text :=
  Text.join " " (table.toList.map fun entry => entry.1 ++ "=" ++ entry.2)

end ParamTable

/-- The parameters and functions in force at some point. -/
structure Bindings where
  params : ParamTable
  functions : FunctionTable

namespace Bindings

/-- Takes in one assignment; a plain value is resolved by what is bound so far. -/
def assign (bound : Bindings) (item : Assignment) : Bindings :=
  match item.arguments with
  | some arguments =>
      { bound with functions := bound.functions.insert item.name ⟨arguments, item.value⟩ }
  | none =>
      { bound with params := bound.params.insert item.name (bound.params.substitute item.value) }

/-- Takes in the assignments of a parameter statement, in order. -/
def state (bound : Bindings) (text : Text) : Bindings :=
  (Assignment.read text).foldl assign bound

end Bindings

end Netlist

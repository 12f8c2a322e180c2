import Netlist.Token
import Netlist.Word

/-!
# Assignments

A run of `name=value` and `name(arguments)=body` items.  A value ends at the
first blank or comma that stands outside parentheses, brackets, braces and
single quotes, and whatever is not an assignment is passed over.
-/

namespace Netlist

structure Assignment where
  name : Text
  /-- Present in the definition of a function. -/
  arguments : Option (List Text)
  value : Text
deriving DecidableEq, Repr

namespace Assignment

/-- The nesting depth behind a token. -/
def depthAfter (depth : Nat) (token : Token) : Nat :=
  match token.kind with
  | .parenOpen | .bracketOpen => depth + 1
  | .parenClose | .bracketClose => depth - 1
  | .punct =>
      if token.text = ['\x7b'] then depth + 1
      else if token.text = ['\x7d'] then depth - 1
      else depth
  | _ => depth

/-- Whether single quotes are open behind a token. -/
def quotedAfter (quoted : Bool) (token : Token) : Bool :=
  if token.kind = .punct && token.text = ['\''] then !quoted else quoted

def endsValue (depth : Nat) (quoted : Bool) (token : Token) : Bool :=
  depth = 0 && !quoted && (token.kind = .space || token.kind = .comma)

/-- Splits off the tokens of a value. -/
def splitValue (depth : Nat) (quoted : Bool) : List Token → List Token × List Token
  | [] => ([], [])
  | first :: rest =>
      if endsValue depth quoted first then ([], first :: rest)
      else
        let behind := splitValue (depthAfter depth first) (quotedAfter quoted first) rest
        (first :: behind.1, behind.2)

def isClose (token : Token) : Bool := token.kind = .parenClose

/-- The argument names of a function, and the tokens behind the closing parenthesis. -/
def splitArguments (inner : List Token) : List Text × List Token :=
  (((inner.takeWhile fun token => !isClose token).filter
      fun token => token.kind = .ident).map Token.text,
    (inner.dropWhile fun token => !isClose token).drop 1)

/-- An optional argument list, and the tokens behind it. -/
def splitSignature (tokens : List Token) : Option (List Text) × List Token :=
  match Token.skipSpace tokens with
  | [] => (none, [])
  | first :: rest =>
      if first.kind = .parenOpen then
        (some (splitArguments rest).1, Token.skipSpace (splitArguments rest).2)
      else (none, first :: rest)

/-- What follows a name that is assigned: argument names, value and remaining tokens. -/
def afterName? (tokens : List Token) : Option (Option (List Text) × Text × List Token) :=
  match splitSignature tokens with
  | (_, []) => none
  | (arguments, mark :: rest) =>
      if mark.kind = .equals then
        let value := splitValue 0 false (Token.skipSpace rest)
        some (arguments, Token.render value.1, value.2)
      else none

theorem splitValue_append (depth : Nat) (quoted : Bool) (tokens : List Token) :
    (splitValue depth quoted tokens).1 ++ (splitValue depth quoted tokens).2 = tokens := by
  induction tokens generalizing depth quoted with
  | nil => rfl
  | cons first rest ih =>
      by_cases stops : endsValue depth quoted first = true
      · simp [splitValue, stops]
      · simp [splitValue, stops, ih]

theorem length_skipSpace_le (tokens : List Token) :
    (Token.skipSpace tokens).length ≤ tokens.length :=
  (List.dropWhile_suffix _).length_le

theorem length_splitSignature_le (tokens : List Token) :
    (splitSignature tokens).2.length ≤ tokens.length := by
  have spaces := length_skipSpace_le tokens
  unfold splitSignature
  split
  · simp
  next first rest found =>
    rw [found] at spaces
    split
    · have closing := (List.dropWhile_suffix (l := rest) fun token => !isClose token).length_le
      have after := length_skipSpace_le (splitArguments rest).2
      simp only [splitArguments, List.length_drop, List.length_cons] at after spaces ⊢
      omega
    · exact spaces

theorem length_afterName?_le {tokens remaining : List Token} {arguments : Option (List Text)}
    {value : Text} (found : afterName? tokens = some (arguments, value, remaining)) :
    remaining.length ≤ tokens.length := by
  have signature := length_splitSignature_le tokens
  unfold afterName? at found
  split at found
  · cases found
  next names mark rest shape =>
    rw [shape] at signature
    split at found
    · have parts := congrArg List.length (splitValue_append 0 false (Token.skipSpace rest))
      have spaces := length_skipSpace_le rest
      simp only [Option.some.injEq, Prod.mk.injEq] at found
      simp only [List.length_append] at parts
      simp only [List.length_cons] at signature
      rw [← found.2.2]
      omega
    · cases found

/-- Names a parameter or a function, unless it is the introducing word. -/
def isAssignable (token : Token) : Bool :=
  token.kind = .ident && !Word.introduces token.text

def ofTokens : List Token → List Assignment
  | [] => []
  | first :: rest =>
      if isAssignable first then
        match _found : afterName? rest with
        | some (arguments, value, remaining) =>
            ⟨first.text, arguments, value⟩ :: ofTokens remaining
        | none => ofTokens rest
      else ofTokens rest
termination_by tokens => tokens.length
decreasing_by
  · have shorter := length_afterName?_le _found
    simp only [List.length_cons]
    omega
  · simp
  · simp

/-- The assignments written in a text, in order. -/
def read (text : Text) : List Assignment := ofTokens (Token.scan text)

end Assignment

end Netlist

import Netlist.Text.Blank

/-!
# Tokens

A lossless token stream for expression text: the texts of the tokens, put one
after the other, are the input.  A change to an expression replaces some tokens
and copies the others, so nothing else on a line is disturbed.
-/

namespace Netlist

inductive TokenKind where
  | ident
  | number
  | str
  | space
  | parenOpen
  | parenClose
  | bracketOpen
  | bracketClose
  | comma
  | equals
  | at
  | punct
deriving DecidableEq, Repr

structure Token where
  kind : TokenKind
  text : Text
deriving DecidableEq, Repr

/-- A token at the byte position of its first character. -/
structure PlacedToken extends Token where
  start : Nat
deriving DecidableEq, Repr

def PlacedToken.stop (token : PlacedToken) : Nat := token.start + Text.byteSize token.text

namespace Token

/-- Identifiers and numbers can name a node or a device. -/
def isName (token : Token) : Bool :=
  token.kind = .ident || token.kind = .number

/-- The text that a token stream stands for. -/
def render (tokens : List Token) : Text := tokens.flatMap Token.text

@[simp] theorem render_nil : render [] = [] := rfl

@[simp] theorem render_cons (first : Token) (rest : List Token) :
    render (first :: rest) = first.text ++ render rest := rfl

def startsIdent (c : Char) : Bool := c.isAlpha || c == '_'

def continuesIdent (c : Char) : Bool :=
  c.isAlphanum || c == '_' || c == '.' || c == '#' || c == '$' || c == ':' || c == '!'

def inMantissa (c : Char) : Bool := c.isDigit || c == '.'

def inSuffix (c : Char) : Bool := c.isAlpha || c == '_'

def opensWithDigit : Text → Bool
  | [] => false
  | first :: _ => first.isDigit

/-- A digit starts a number, and so does a point before a digit. -/
def startsNumber (first : Char) (rest : Text) : Bool :=
  first.isDigit || (first == '.' && opensWithDigit rest)

/-- Splits off an exponent: its mark, an optional sign and at least one digit. -/
def exponent : Text → Text × Text
  | [] => ([], [])
  | [only] => ([], [only])
  | mark :: next :: rest =>
      if mark == 'e' || mark == 'E' then
        if next.isDigit then
          (mark :: next :: rest.takeWhile Char.isDigit, rest.dropWhile Char.isDigit)
        else if (next == '+' || next == '-') && opensWithDigit rest then
          (mark :: next :: rest.takeWhile Char.isDigit, rest.dropWhile Char.isDigit)
        else ([], mark :: next :: rest)
      else ([], mark :: next :: rest)

/-- Splits off the rest of a number: digits and points, an exponent, suffix letters. -/
def numberTail (rest : Text) : Text × Text :=
  let power := exponent (rest.dropWhile inMantissa)
  (rest.takeWhile inMantissa ++ (power.1 ++ power.2.takeWhile inSuffix),
    power.2.dropWhile inSuffix)

/-- Splits off the rest of a quoted string, its closing quote included. -/
def stringTail : Text → Text × Text
  | [] => ([], [])
  | first :: rest =>
      if first = '"' then (['"'], rest)
      else ((first :: (stringTail rest).1), (stringTail rest).2)

/-- The kind of a character that is a token by itself. -/
def singleKind (c : Char) : TokenKind :=
  if c = '(' then .parenOpen
  else if c = ')' then .parenClose
  else if c = '[' then .bracketOpen
  else if c = ']' then .bracketClose
  else if c = ',' then .comma
  else if c = '=' then .equals
  else if c = '@' then .at
  else .punct

/-- The kind of the token that starts with `first`. -/
def kindFrom (first : Char) (rest : Text) : TokenKind :=
  if isBlank first then .space
  else if startsIdent first then .ident
  else if startsNumber first rest then .number
  else if first = '"' then .str
  else singleKind first

/-- Splits `rest` after the last character of a token of the given kind. -/
def tailOf (kind : TokenKind) (rest : Text) : Text × Text :=
  match kind with
  | .space => (rest.takeWhile isBlank, rest.dropWhile isBlank)
  | .ident => (rest.takeWhile continuesIdent, rest.dropWhile continuesIdent)
  | .number => numberTail rest
  | .str => stringTail rest
  | _ => ([], rest)

theorem exponent_append (text : Text) : (exponent text).1 ++ (exponent text).2 = text := by
  unfold exponent
  split
  · rfl
  · rfl
  · split
    · split
      · simp
      · split <;> simp
    · rfl

theorem numberTail_append (rest : Text) :
    (numberTail rest).1 ++ (numberTail rest).2 = rest := by
  have power := exponent_append (rest.dropWhile inMantissa)
  simp only [numberTail, List.append_assoc, List.takeWhile_append_dropWhile]
  rw [power, List.takeWhile_append_dropWhile]

theorem stringTail_append (rest : Text) :
    (stringTail rest).1 ++ (stringTail rest).2 = rest := by
  induction rest with
  | nil => rfl
  | cons first rest ih =>
      by_cases quote : first = '"'
      · simp [stringTail, quote]
      · simp [stringTail, quote, ih]

/-- The end of a token is found without losing a character. -/
theorem tailOf_append (kind : TokenKind) (rest : Text) :
    (tailOf kind rest).1 ++ (tailOf kind rest).2 = rest := by
  cases kind <;>
    simp [tailOf, numberTail_append, stringTail_append]

theorem length_tailOf_le (kind : TokenKind) (rest : Text) :
    (tailOf kind rest).2.length ≤ rest.length := by
  have split := congrArg List.length (tailOf_append kind rest)
  simp only [List.length_append] at split
  omega

/-- The tokens of a text that begins at a byte position, from left to right, each as long as its
kind allows. -/
def scanFrom (start : Nat) : Text → List PlacedToken
  | [] => []
  | first :: rest =>
      let kind := kindFrom first rest
      let token : PlacedToken := ⟨⟨kind, first :: (tailOf kind rest).1⟩, start⟩
      token :: scanFrom token.stop (tailOf kind rest).2
termination_by text => text.length
decreasing_by
  have bound := length_tailOf_le (kindFrom first rest) rest
  simp only [List.length_cons]
  omega

/-- The tokens of a text, wherever they stand. -/
def scan (text : Text) : List Token := (scanFrom 0 text).map PlacedToken.toToken

/-- Where a text begins makes no difference to its tokens. -/
theorem map_scanFrom (start : Nat) (text : Text) :
    (scanFrom start text).map PlacedToken.toToken = scan text := by
  have alike (other : Nat) : (scanFrom start text).map PlacedToken.toToken =
      (scanFrom other text).map PlacedToken.toToken := by
    induction start, text using scanFrom.induct generalizing other with
    | case1 => simp [scanFrom]
    | case2 start first rest kind token ih =>
        rw [scanFrom, scanFrom, List.map_cons, List.map_cons, ih]
  exact alike 0

theorem scan_nil : scan [] = [] := by
  rw [scan, scanFrom, List.map_nil]

/-- Every text is the text of its first token and what is scanned behind it. -/
theorem scan_cons (first : Char) (rest : Text) :
    scan (first :: rest) =
      ⟨kindFrom first rest, first :: (tailOf (kindFrom first rest) rest).1⟩ ::
        scan (tailOf (kindFrom first rest) rest).2 := by
  rw [scan, scanFrom, List.map_cons, map_scanFrom]

/-- A text without its first token is shorter. -/
theorem scan_induction {motive : Text → Prop} (nil : motive [])
    (cons : ∀ first rest, motive (tailOf (kindFrom first rest) rest).2 → motive (first :: rest))
    (text : Text) : motive text := by
  induction (0 : Nat), text using scanFrom.induct with
  | case1 => exact nil
  | case2 start first rest kind token ih => exact cons first rest ih

/-- Scanning loses nothing. -/
@[simp] theorem render_scan (text : Text) : render (scan text) = text := by
  induction text using scan_induction with
  | nil => rw [scan_nil, render_nil]
  | cons first rest ih =>
      rw [scan_cons, render_cons, ih, List.cons_append, tailOf_append]

/-- Leaves out the spaces in front. -/
def skipSpace (tokens : List Token) : List Token :=
  tokens.dropWhile fun token => token.kind = .space

end Token

end Netlist

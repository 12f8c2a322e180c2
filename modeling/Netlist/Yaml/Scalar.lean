import Netlist.Yaml.Glyph

/-!
# Scalars

A scalar is plain, quoted or a block of lines.  Plain and quoted scalars may go
on over several lines, and are folded then: a single line break becomes a
space, and of several breaks all but the first stay.  Blanks around the breaks
are lost.  Blocks keep their lines, literally or folded.
-/

namespace Netlist

namespace Yaml

inductive Style where
  | plain
  | quoted
  | literal
  | folded
deriving DecidableEq, Repr

/-- The blanks and line breaks between two words of a scalar. -/
structure Gap where
  spaces : Text := []
  broken : Bool := false
  /-- The first line break, unless it was escaped. -/
  lead : Text := []
  /-- The line breaks behind the first one. -/
  breaks : Text := []
deriving DecidableEq, Repr

namespace Gap

/-- Blanks count only as long as no line break was met. -/
def addSpace (gap : Gap) (c : Char) : Gap :=
  if gap.broken then gap else { gap with spaces := gap.spaces ++ [c] }

def addBreak (gap : Gap) (c : Char) : Gap :=
  if gap.broken then { gap with breaks := gap.breaks ++ [c] } else { broken := true, lead := [c] }

/-- What stands for the gap in the value. -/
def fold (gap : Gap) : Text :=
  if !gap.broken then gap.spaces
  else if gap.lead = ['\n'] then (if gap.breaks.isEmpty then [' '] else gap.breaks)
  else gap.lead ++ gap.breaks

end Gap

/-- A scalar that was read, and what is behind it. -/
structure Reading where
  text : Text
  /-- Whether line breaks were passed over at the end. -/
  broken : Bool := false
  rest : List Glyph

namespace Reading

def behind (text : Text) (reading : Reading) : Reading :=
  { reading with text := text ++ reading.text }

end Reading

/-- Characters that end a plain scalar between brackets or braces. -/
def flowMarks : Text := ",[]\x7b\x7d".toList

/-- A colon that may not stand in a plain scalar between brackets or braces. -/
def isStrayColon (first : Glyph) (rest : List Glyph) : Bool :=
  first.char == ':' && startsWithAny ('?' :: flowMarks) rest

def endsPlain (inFlow : Bool) (first : Glyph) (rest : List Glyph) : Bool :=
  (first.char == ':' && endsWord rest) || (inFlow && flowMarks.contains first.char)

/-- A word that cannot go on with a plain scalar: it stands too far left, marks a document or
starts a comment. -/
def interruptsPlain (inFlow : Bool) (margin : Nat) (first : Glyph) (rest : List Glyph) : Bool :=
  (!inFlow && first.column < margin) || isDocumentMark (first :: rest) || first.char == '#'

/-- Reads a plain scalar whose further lines stand at column `margin` or behind.  The flag tells
whether a word starts here. -/
def plain? (inFlow : Bool) (margin : Nat) (starts : Bool) (gap : Gap) :
    List Glyph → Option Reading
  | [] => some ⟨[], gap.broken, []⟩
  | first :: rest =>
      if isSpace first.char then
        if gap.broken && first.column < margin && first.char == '\t' then none
        else plain? inFlow margin true (gap.addSpace first.char) rest
      else if isBreak first.char then plain? inFlow margin true (gap.addBreak first.char) rest
      else if starts && interruptsPlain inFlow margin first rest then
        some ⟨[], gap.broken, first :: rest⟩
      else if inFlow && isStrayColon first rest then none
      else if endsPlain inFlow first rest then some ⟨[], gap.broken, first :: rest⟩
      else
        (plain? inFlow margin false {} rest).map fun reading =>
          reading.behind (gap.fold ++ [first.char])

/-- Reads up to the closing single quote; a quote in the text is written twice. -/
def singleQuoted? (starts : Bool) (gap : Gap) : List Glyph → Option Reading
  | [] => none
  | first :: rest =>
      if isSpace first.char then singleQuoted? true (gap.addSpace first.char) rest
      else if isBreak first.char then singleQuoted? true (gap.addBreak first.char) rest
      else if starts && isDocumentMark (first :: rest) then none
      else if first.char == '\'' then
        match rest with
        | [] => some { text := gap.fold, rest }
        | second :: behind =>
            if second.char == '\'' then
              (singleQuoted? false {} behind).map fun reading =>
                reading.behind (gap.fold ++ ['\''])
            else some { text := gap.fold, rest }
      else
        (singleQuoted? false {} rest).map fun reading => reading.behind (gap.fold ++ [first.char])

/-- The characters of escapes that are one letter long. -/
def escapes : List (Char × Nat) :=
  [('0', 0), ('a', 7), ('b', 8), ('t', 9), ('\t', 9), ('n', 10), ('v', 11), ('f', 12), ('r', 13),
    ('e', 27), (' ', 32), ('"', 34), ('/', 47), ('\\', 92), ('N', 0x85), ('_', 0xA0),
    ('L', 0x2028), ('P', 0x2029)]

/-- How many digits a numeric escape has. -/
def escapeDigits? (mark : Char) : Option Nat :=
  if mark == 'x' then some 2
  else if mark == 'u' then some 4
  else if mark == 'U' then some 8
  else none

/-- The character of an escape behind its backslash, and how many digits it has. -/
def escape? (mark : Char) (behind : List Glyph) : Option (Char × Nat) :=
  match escapeDigits? mark with
  | some count =>
      let digits := (behind.take count).map Glyph.char
      if digits.length < count then none
      else ((hexNumber? digits).bind charAt?).map fun c => (c, count)
  | none =>
      (escapes.find? fun entry => entry.1 == mark).map fun entry => (Char.ofNat entry.2, 0)

/-- Reads up to the closing double quote. -/
def doubleQuoted? (starts : Bool) (gap : Gap) : List Glyph → Option Reading
  | [] => none
  | first :: rest =>
      if isSpace first.char then doubleQuoted? true (gap.addSpace first.char) rest
      else if isBreak first.char then doubleQuoted? true (gap.addBreak first.char) rest
      else if starts && isDocumentMark (first :: rest) then none
      else if first.char == '"' then some { text := gap.fold, rest }
      else if first.char == '\\' then
        match rest with
        | [] => none
        | mark :: behind =>
            if isBreak mark.char then
              (doubleQuoted? true { broken := true } behind).map fun reading =>
                reading.behind gap.fold
            else
              match escape? mark.char behind with
              | none => none
              | some (c, digits) =>
                  (doubleQuoted? false {} (behind.drop digits)).map fun reading =>
                    reading.behind (gap.fold ++ [c])
      else
        (doubleQuoted? false {} rest).map fun reading => reading.behind (gap.fold ++ [first.char])
termination_by glyphs => glyphs.length
decreasing_by all_goals simp only [List.length_cons, List.length_drop]; omega

/-- What becomes of the line breaks at the end of a block. -/
inductive Chomping where
  | clip
  | strip
  | keep
deriving DecidableEq, Repr

def chomping? (c : Char) : Option Chomping :=
  if c == '+' then some .keep else if c == '-' then some .strip else none

/-- An indentation that is told by a digit; zero is none. -/
def increment? (c : Char) : Option Nat :=
  if c.isDigit && c != '0' then some (c.toNat - '0'.toNat) else none

/-- What the first line of a block says: its chomping and its indentation, in any order. -/
def blockHeader? : List Glyph → Option (Chomping × Option Nat × List Glyph)
  | [] => some (.clip, none, [])
  | first :: rest =>
      match chomping? first.char with
      | some chomping =>
          match rest with
          | second :: behind =>
              if second.char.isDigit then
                (increment? second.char).map fun count => (chomping, some count, behind)
              else some (chomping, none, rest)
          | [] => some (chomping, none, [])
      | none =>
          if first.char.isDigit then
            (increment? first.char).map fun count =>
              match rest with
              | second :: behind =>
                  match chomping? second.char with
                  | some chomping => (chomping, some count, behind)
                  | none => (.clip, some count, rest)
              | [] => (.clip, some count, [])
          else some (.clip, none, first :: rest)

/-- The glyph stands left of the column, or no column is known. -/
def isOutside (indent : Option Nat) (glyph : Glyph) : Bool :=
  match indent with
  | none => true
  | some indent => glyph.column < indent

/-- Reads indentation and empty lines up to column `indent`, or up to any column: the greatest
column met, the line breaks and what is behind them. -/
def emptyLines? (indent : Option Nat) (deepest : Nat) :
    List Glyph → Option (Nat × Text × List Glyph)
  | [] => some (deepest, [], [])
  | first :: rest =>
      if isOutside indent first && first.char == ' ' then emptyLines? indent deepest rest
      else if isOutside indent first && first.char == '\t' then none
      else if isBreak first.char then
        (emptyLines? indent (max deepest first.column) rest).map fun (deepest, breaks, behind) =>
          (deepest, first.char :: breaks, behind)
      else some (max deepest first.column, [], first :: rest)

theorem length_emptyLines?_le {indent : Option Nat} {deepest column : Nat} {breaks : Text}
    {glyphs rest : List Glyph}
    (found : emptyLines? indent deepest glyphs = some (column, breaks, rest)) :
    rest.length ≤ glyphs.length := by
  induction glyphs generalizing deepest column breaks with
  | nil =>
      simp only [emptyLines?, Option.some.injEq, Prod.mk.injEq] at found
      simp [← found.2.2]
  | cons first behind ih =>
      unfold emptyLines? at found
      split at found
      · exact Nat.le_succ_of_le (ih found)
      · split at found
        · cases found
        · split at found
          · obtain ⟨⟨deep, more, tail⟩, inner, same⟩ := Option.map_eq_some_iff.mp found
            simp only [Prod.mk.injEq] at same
            obtain ⟨_, _, rfl⟩ := same
            exact Nat.le_succ_of_le (ih inner)
          · simp only [Option.some.injEq, Prod.mk.injEq] at found
            simp [← found.2.2]

/-- The line break between two lines of a folded block. -/
def foldBreak (lead breaks : Text) : Text :=
  if lead = ['\n'] then (if breaks.isEmpty then [' '] else breaks) else lead ++ breaks

/-- Reads the lines of a block at column `indent`.  `lead` and `breaks` are the line breaks before
them; the flag tells whether the line before started with a blank. -/
def blockLines? (folds : Bool) (chomping : Chomping) (indent : Nat) (lead breaks : Text)
    (afterBlank : Bool) : List Glyph → Option Reading
  | [] => some { text := tail lead breaks, rest := [] }
  | first :: rest =>
      if first.column != indent then some { text := tail lead breaks, rest := first :: rest }
      else
        let blank := isSpace first.char
        let joint :=
          if folds && !afterBlank && !blank then foldBreak lead breaks else lead ++ breaks
        let split := splitWhile (fun c => !isBreak c) (first :: rest)
        let next := (split.2.take 1).map Glyph.char
        match _found : emptyLines? (some indent) 0 (split.2.drop 1) with
        | none => none
        | some (_, breaks, behind) =>
            (blockLines? folds chomping indent next breaks blank behind).map fun reading =>
              reading.behind (joint ++ split.1)
termination_by glyphs => glyphs.length
decreasing_by
  have shorter := length_emptyLines?_le _found
  have line :=
    (List.dropWhile_suffix (l := first :: rest) fun glyph => !isBreak glyph.char).length_le
  simp only [split, splitWhile, List.length_drop, List.length_cons] at shorter line ⊢
  omega
where
  /-- What is left of the line breaks at the end. -/
  tail (lead breaks : Text) : Text :=
    match chomping with
    | .strip => []
    | .clip => lead
    | .keep => lead ++ breaks

/-- Reads a block behind its mark; `margin` is the least column of what belongs to the block
around it. -/
def block? (folds : Bool) (margin : Nat) (glyphs : List Glyph) : Option Reading := do
  let (chomping, increment, behind) ← blockHeader? glyphs
  let behind ← finishLine? behind
  let told := increment.map fun count => margin - 1 + count
  let (deepest, breaks, behind) ← emptyLines? told 0 behind
  let indent := told.getD (max (max deepest margin) 1)
  blockLines? folds chomping indent [] breaks false behind

end Yaml

end Netlist

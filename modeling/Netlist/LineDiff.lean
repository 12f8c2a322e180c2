import Netlist.Text

/-!
# Differences of lines

Two lists of lines are compared by a longest common subsequence.  Their
difference is told in runs: lines that stay, then lines that go, then lines
that come, and so on until both are used up.
-/

namespace Netlist

inductive Change where
  | same (lines : List Text)
  | gone (lines : List Text)
  | added (lines : List Text)
deriving DecidableEq, Repr

namespace LineDiff

def longer (first second : List Text) : List Text :=
  if first.length < second.length then second else first

/-- From the longest common subsequences with each end of `lines`, those that
arise when the line `first` is put in front on the other side. -/
def extend (first : Text) : (lines : List Text) → List (List Text) → List (List Text)
  | line :: lines, here :: next :: more =>
      let rest := extend first lines (next :: more)
      (if first = line then first :: next else longer here (rest.headD [])) :: rest
  | _, _ => [[]]

/-- The longest common subsequences of a list with each end of `lines`. -/
def commonEnds (lines : List Text) : List Text → List (List Text)
  | [] => List.replicate (lines.length + 1) []
  | first :: rest => extend first lines (commonEnds lines rest)

def common (before after : List Text) : List Text := (commonEnds after before).headD []

/-- Whether the next line to keep is this one. -/
def isNext (kept : List Text) (line : Text) : Bool := kept.head? == some line

/-- How many lines at the start of both lists are kept. -/
def sameCount : (before after kept : List Text) → Nat
  | first :: before, second :: after, line :: kept =>
      if first = line && second = line then sameCount before after kept + 1 else 0
  | _, _, _ => 0

/-- The runs of one round, without the empty ones. -/
def runs (same gone added : List Text) : List Change :=
  (if same.isEmpty then [] else [.same same]) ++
    (if gone.isEmpty then [] else [.gone gone]) ++
    (if added.isEmpty then [] else [.added added])

/-- Tells the difference in at most `bound` rounds. -/
def rounds : (bound : Nat) → (before after kept : List Text) → List Change
  | 0, _, _, _ => []
  | bound + 1, before, after, kept =>
      if before.isEmpty && after.isEmpty then []
      else
        let count := sameCount before after kept
        let stay := before.take count
        let before := before.drop count
        let after := after.drop count
        let kept := kept.drop count
        let stops (line : Text) : Bool := !isNext kept line
        runs stay (before.takeWhile stops) (after.takeWhile stops) ++
          rounds bound (before.dropWhile stops) (after.dropWhile stops) kept

/-- The pieces of a text between its newlines. -/
def pieces : Text → List Text
  | [] => [[]]
  | first :: rest =>
      if first = '\n' then [] :: pieces rest
      else
        match pieces rest with
        | [] => [[first]]
        | line :: lines => (first :: line) :: lines

/-- The lines of a text; an empty text has none. -/
def linesOf (text : Text) : List Text := if text.isEmpty then [] else pieces text

/-- The difference between two lists of lines. -/
def changes (before after : List Text) : List Change :=
  rounds (before.length + after.length) before after (common before after)

/-- The difference between two texts. -/
def ofTexts (before after : Text) : List Change := changes (linesOf before) (linesOf after)

/-- A run is one item: its lines behind a single mark. -/
def render : Change → Text
  | .same lines => ' ' :: Text.join "\n" lines
  | .gone lines => '-' :: Text.join "\n" lines
  | .added lines => '+' :: Text.join "\n" lines

end LineDiff

end Netlist

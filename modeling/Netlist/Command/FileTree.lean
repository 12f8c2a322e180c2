import Netlist.Text

/-!
# Files

A command sees files in two ways: it reads the file at a path, and it asks for
the files below a directory.  A tree of files held in memory, as a list of
paths split at their slashes with what the files hold, can be seen like that.
In it a path is followed step by step: every directory on the way has to
exist, and only a file can be read.
-/

namespace Netlist

structure Files where
  /-- What the file at a path holds. -/
  read? : Text → Option Text
  /-- The steps from a directory to each file below it. -/
  below : Text → List (List Text)

namespace Files

/-- The path of something below a directory, as it is shown. -/
def shown (directory : Text) (steps : List Text) : Text :=
  let between : Text := if directory.getLast? == some '/' then [] else ['/']
  directory ++ between ++ Text.join "/" steps

/-- The letters behind the last point of a file name; a point in front does not count. -/
def extension? (name : Text) : Option Text :=
  match Text.cutAt '.' name.reverse with
  | none => none
  | some (letters, front) => if front.isEmpty then none else some letters.reverse

/-- Ways to files in ascending order, step by step. -/
def sort (ways : List (List Text)) : List (List Text) :=
  ways.mergeSort fun first second => !decide (second < first)

/-- The files below a directory whose names satisfy a test, in ascending order. -/
def find (files : Files) (test : Text → Bool) (directory : Text) : List Text :=
  (sort ((files.below directory).filter fun steps =>
    ((steps.getLast?).map test).getD false)).map (shown directory)

end Files

structure FileTree where
  files : List (List Text × Text) := []
deriving DecidableEq, Repr

namespace FileTree

/-- The parts of a path between its slashes. -/
def parts (path : Text) : List Text :=
  let (part, others) := path.foldr (fun c (part, others) =>
    if c = '/' then ([], part :: others) else (c :: part, others)) (([] : Text), [])
  part :: others

/-- The steps of a path that lead somewhere. -/
def steps (path : Text) : List Text :=
  (parts path).filter fun part => !part.isEmpty && part != ['.']

def content? (tree : FileTree) (place : List Text) : Option Text :=
  (tree.files.find? fun file => file.1 == place).map Prod.snd

/-- The working directory exists, and so does every directory with a file below it. -/
def isDirectory (tree : FileTree) (place : List Text) : Bool :=
  place.isEmpty ||
    tree.files.any fun file => place.isPrefixOf file.1 && place.length < file.1.length

/-- Follows steps from a place; a way out of the working directory leads nowhere. -/
def follow? (tree : FileTree) (place : List Text) : List Text → Option (List Text)
  | [] => some place
  | step :: rest =>
      if !tree.isDirectory place then none
      else if step = ['.', '.'] then
        if place.isEmpty then none else tree.follow? place.dropLast rest
      else tree.follow? (place ++ [step]) rest

def place? (tree : FileTree) (path : Text) : Option (List Text) :=
  if path.head? == some '/' then none else tree.follow? [] (steps path)

/-- A path that ends in a slash or a point means a directory. -/
def meansDirectory (path : Text) : Bool :=
  match (parts path).getLast? with
  | none => false
  | some last => last.isEmpty || last = ['.'] || last = ['.', '.']

/-- What the file at a path holds. -/
def read? (tree : FileTree) (path : Text) : Option Text :=
  if meansDirectory path then none else (tree.place? path).bind tree.content?

/-- The steps from a directory to each file below it. -/
def filesBelow (tree : FileTree) (directory : Text) : List (List Text) :=
  match tree.place? directory with
  | none => []
  | some place =>
      (tree.files.filter fun file =>
        place.isPrefixOf file.1 && place.length < file.1.length).map
          fun file => file.1.drop place.length

def toFiles (tree : FileTree) : Files := ⟨tree.read?, tree.filesBelow⟩

end FileTree

end Netlist

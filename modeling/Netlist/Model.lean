import Netlist.Fault
import Netlist.NameTable

/-!
# Models and their aliases

A model name may end in a bin, a point with digits behind it.  The aliases of
one scope tell what each declared model is called now.  A reference finds the
alias of its own name; failing that, a reference with a bin finds the unbinned
model, and one without finds the common base of the binned models.
-/

namespace Netlist

namespace Model

/-- The parts of a name before and behind its last point. -/
def cutLastPoint (name : Text) : Option (Text × Text) :=
  (Text.cutAt '.' name.reverse).map fun (back, front) => (front.reverse, back.reverse)

/-- The base of a model name and its bin, the point included. -/
def splitBin (name : Text) : Text × Option Text :=
  match cutLastPoint name with
  | none => (name, none)
  | some (base, digits) =>
      if !base.isEmpty && !digits.isEmpty && digits.all Char.isDigit then
        (base, some ('.' :: digits))
      else (name, none)

end Model

/-- Declared model names and what they are called now, in order of declaration. -/
structure ModelAliases (policy : CasePolicy) where
  entries : List (Text × Text) := []
deriving DecidableEq, Repr

namespace ModelAliases

variable {policy : CasePolicy}

instance : Inhabited (ModelAliases policy) := ⟨{}⟩

/-- The alias of exactly this name. -/
def direct? (aliases : ModelAliases policy) (name : Text) : Option Text :=
  (aliases.entries.find? fun entry => policy.same entry.1 name).map Prod.snd

/-- Replaces the alias of the first entry of this name, or adds an entry. -/
def put (policy : CasePolicy) (name image : Text) : List (Text × Text) → List (Text × Text)
  | [] => [(name, image)]
  | first :: rest =>
      if policy.same first.1 name then (first.1, image) :: rest
      else first :: put policy name image rest

def insert (aliases : ModelAliases policy) (name image : Text) : ModelAliases policy :=
  ⟨put policy name image aliases.entries⟩

/-- Declares a model that keeps its name, unless it is known already. -/
def seed (aliases : ModelAliases policy) (name : Text) : ModelAliases policy :=
  match aliases.direct? name with
  | some _ => aliases
  | none => ⟨aliases.entries ++ [(name, name)]⟩

def addBase (bases : List Text) (base : Text) : List Text :=
  if bases.contains base then bases else bases ++ [base]

/-- What the binned models of a base are called now, without bins and repetitions. -/
def binnedBases (aliases : ModelAliases policy) (base : Text) : List Text :=
  aliases.entries.foldl (fun bases (name, image) =>
    match Model.splitBin name with
    | (nameBase, some _) =>
        if policy.same nameBase base then addBase bases (Model.splitBin image).1 else bases
    | (_, none) => bases) []

/-- Resolves a reference to a model. -/
def lookup (aliases : ModelAliases policy) (name : Text) : Except Fault (Option Text) :=
  match aliases.direct? name with
  | some image => .ok (some image)
  | none =>
      match Model.splitBin name with
      | (base, some bin) => .ok ((aliases.direct? base).map fun image => image ++ bin)
      | (base, none) =>
          match aliases.binnedBases base with
          | [] => .ok none
          | [only] => .ok (some only)
          | several => .error (.ambiguousModel name several)

end ModelAliases

end Netlist

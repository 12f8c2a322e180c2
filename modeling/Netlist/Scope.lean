import Netlist.Definition
import Netlist.Model

/-!
# Scopes

Each level of nesting has a frame with the definitions and the model aliases
that it adds.  Names are looked up from the innermost frame outwards.  The
number of frames is limited, and the frame of the top level counts.
-/

namespace Netlist

structure Frame (policy : CasePolicy) where
  definitions : DefinitionTable := .empty
  models : ModelAliases policy := {}

instance {policy : CasePolicy} : Inhabited (Frame policy) := ⟨{}⟩

structure Scopes (policy : CasePolicy) where
  capacity : Nat
  /-- The innermost frame. -/
  top : Frame policy := {}
  /-- The frames around it, from the inside out. -/
  outer : List (Frame policy) := []

namespace Scopes

variable {policy : CasePolicy}

/-- A stack with the frame of the top level; there is always room for that one. -/
def start (capacity : Nat) : Scopes policy := { capacity := max capacity 1 }

/-- A stack is only set up where memory has room for all the frames that it may ever have. -/
def reserves (room capacity : Nat) : Bool := max capacity 1 ≤ room

/-- No memory has room for more frames: fewer than `2^63` bytes can be reserved at once, and a
frame takes 64. -/
def mostFrames : Nat := Nat.pow 2 57 - 1

/-- All frames, from the inside out. -/
def frames (scopes : Scopes policy) : List (Frame policy) := scopes.top :: scopes.outer

def depth (scopes : Scopes policy) : Nat := scopes.frames.length

/-- Adds an empty frame, if there is room. -/
def enter? (scopes : Scopes policy) : Option (Scopes policy) :=
  if scopes.depth < scopes.capacity then
    some { scopes with top := {}, outer := scopes.frames }
  else none

/-- Drops the innermost frame; the frame of the top level stays. -/
def leave (scopes : Scopes policy) : Scopes policy :=
  match scopes.outer with
  | [] => scopes
  | next :: outer => { scopes with top := next, outer }

/-- The innermost definition of a name. -/
def definition? (scopes : Scopes policy) (name : Text) : Option Definition :=
  scopes.frames.findSome? fun frame => frame.definitions.get? name

def modelIn : List (Frame policy) → Text → Except Fault (Option Text)
  | [], _ => .ok none
  | frame :: outer, name =>
      match frame.models.lookup name with
      | .error fault => .error fault
      | .ok (some image) => .ok (some image)
      | .ok none => modelIn outer name

/-- What a model reference is called now, by the innermost frame that knows it. -/
def model (scopes : Scopes policy) (name : Text) : Except Fault (Option Text) :=
  modelIn scopes.frames name

/-- What the innermost frame alone says of a model reference. -/
def localModel (scopes : Scopes policy) (name : Text) : Except Fault (Option Text) :=
  scopes.top.models.lookup name

def withTop (scopes : Scopes policy) (top : Frame policy) : Scopes policy := { scopes with top }

/-- Changes the aliases of the innermost frame. -/
def withModels (scopes : Scopes policy) (models : ModelAliases policy) : Scopes policy :=
  scopes.withTop { scopes.top with models }

/-- Changes the frame of the top level. -/
def mapRoot (change : Frame policy → Frame policy) (scopes : Scopes policy) : Scopes policy :=
  match scopes.outer.getLast? with
  | none => scopes.withTop (change scopes.top)
  | some root => { scopes with outer := scopes.outer.dropLast ++ [change root] }

@[simp] theorem capacity_enter? {scopes inner : Scopes policy}
    (entered : scopes.enter? = some inner) : inner.capacity = scopes.capacity := by
  unfold enter? at entered
  split at entered
  · cases entered; rfl
  · cases entered

/-- Entering adds one frame and keeps the others. -/
theorem frames_enter? {scopes inner : Scopes policy}
    (entered : scopes.enter? = some inner) : inner.frames = {} :: scopes.frames := by
  unfold enter? at entered
  split at entered
  · cases entered; rfl
  · cases entered

/-- Leaving undoes entering, whatever happened to the innermost frame. -/
theorem leave_withTop {scopes inner : Scopes policy} (entered : scopes.enter? = some inner)
    (top : Frame policy) : (inner.withTop top).leave = scopes := by
  unfold enter? at entered
  split at entered
  · cases entered; rfl
  · cases entered

end Scopes

end Netlist

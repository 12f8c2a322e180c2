import Netlist.Text

/-!
# Names and tables of names

Names compare exactly or up to letter case.  A table keeps, for each name, the
spelling it was last entered with and a value; its entries stand in ascending
order of the folded names, so two tables with the same entries are equal.
-/

namespace Netlist

inductive CasePolicy where
  | sensitive
  | insensitive
deriving DecidableEq, Repr

namespace CasePolicy

/-- The form of a name that decides which other names it equals. -/
def fold : CasePolicy → Text → Text
  | .sensitive, name => name
  | .insensitive, name => Text.lower name

def same : CasePolicy → Text → Text → Bool
  | .sensitive, first, second => first == second
  | .insensitive, first, second => Text.sameLetters first second

theorem same_iff (policy : CasePolicy) (first second : Text) :
    policy.same first second = true ↔ policy.fold first = policy.fold second := by
  cases policy with
  | sensitive => simp [same, fold]
  | insensitive => exact Text.sameLetters_iff first second

end CasePolicy

/-- Entries in strictly ascending order of their folded names. -/
def Ascending (policy : CasePolicy) {α : Type} (entries : List (Text × α)) : Prop :=
  entries.Pairwise fun first second => policy.fold first.1 < policy.fold second.1

structure NameTable (policy : CasePolicy) (α : Type) where
  entries : List (Text × α)
  ascending : Ascending policy entries

namespace NameTable

variable {policy other : CasePolicy} {α : Type}

@[ext] theorem ext {first second : NameTable policy α}
    (same : first.entries = second.entries) : first = second := by
  cases first
  cases second
  cases same
  rfl

def empty : NameTable policy α := ⟨[], .nil⟩

instance : Inhabited (NameTable policy α) := ⟨empty⟩

instance [DecidableEq α] : DecidableEq (NameTable policy α) := fun first second =>
  if same : first.entries = second.entries then isTrue (ext same)
  else isFalse fun equal => same (congrArg entries equal)

/-- Enters a spelling and a value in place of the entry of the same name. -/
def enter (policy : CasePolicy) (name : Text) (value : α) :
    List (Text × α) → List (Text × α)
  | [] => [(name, value)]
  | first :: rest =>
      if policy.fold name < policy.fold first.1 then (name, value) :: first :: rest
      else if policy.fold name = policy.fold first.1 then (name, value) :: rest
      else first :: enter policy name value rest

theorem mem_enter {name : Text} {value : α} {entries : List (Text × α)} {entry : Text × α}
    (member : entry ∈ enter policy name value entries) :
    entry = (name, value) ∨ entry ∈ entries := by
  induction entries with
  | nil => simpa [enter] using member
  | cons first rest ih =>
      simp only [enter] at member
      split at member
      · simpa using member
      · split at member
        · rcases List.mem_cons.mp member with here | there
          · exact .inl here
          · exact .inr (List.mem_cons_of_mem _ there)
        · rcases List.mem_cons.mp member with here | there
          · exact .inr (here ▸ List.mem_cons_self ..)
          · exact (ih there).imp_right (List.mem_cons_of_mem _)

theorem ascending_enter (name : Text) (value : α) {entries : List (Text × α)}
    (ascending : Ascending policy entries) :
    Ascending policy (enter policy name value entries) := by
  induction entries with
  | nil => simp [enter, Ascending]
  | cons first rest ih =>
      have parts := List.pairwise_cons.mp ascending
      simp only [enter]
      split
      next before =>
        refine List.pairwise_cons.mpr ⟨?_, ascending⟩
        intro entry member
        rcases List.mem_cons.mp member with here | there
        · exact here ▸ before
        · exact List.lt_trans before (parts.1 entry there)
      next notBefore =>
        split
        next same =>
          refine List.pairwise_cons.mpr ⟨?_, parts.2⟩
          intro entry member
          exact same ▸ parts.1 entry member
        next differs =>
          refine List.pairwise_cons.mpr ⟨?_, ih parts.2⟩
          intro entry member
          rcases mem_enter member with here | there
          · subst here
            rcases List.le_iff_lt_or_eq.mp (List.not_lt.mp notBefore) with after | equal
            · exact after
            · exact absurd equal.symm differs
          · exact parts.1 entry there

def insert (table : NameTable policy α) (name : Text) (value : α) : NameTable policy α :=
  ⟨enter policy name value table.entries, ascending_enter name value table.ascending⟩

/-- The entry of a name: its spelling and its value. -/
def find? (table : NameTable policy α) (name : Text) : Option (Text × α) :=
  table.entries.find? fun entry => policy.fold entry.1 == policy.fold name

def get? (table : NameTable policy α) (name : Text) : Option α :=
  (table.find? name).map Prod.snd

theorem get?_congr (table : NameTable policy α) {name other : Text}
    (same : policy.fold name = policy.fold other) : table.get? name = table.get? other := by
  unfold get? find?
  rw [same]

theorem exists_mem_of_get? {table : NameTable policy α} {name : Text} {value : α}
    (found : table.get? name = some value) : ∃ entry ∈ table.entries, entry.2 = value := by
  obtain ⟨entry, listed, rfl⟩ := Option.map_eq_some_iff.mp found
  exact ⟨entry, List.mem_of_find?_eq_some listed, rfl⟩

def contains (table : NameTable policy α) (name : Text) : Bool :=
  (table.find? name).isSome

def erase (table : NameTable policy α) (name : Text) : NameTable policy α :=
  ⟨table.entries.filter fun entry => policy.fold entry.1 != policy.fold name,
    table.ascending.filter _⟩

theorem find?_enter (name other : Text) (value : α) (entries : List (Text × α)) :
    (enter policy name value entries).find?
        (fun entry => policy.fold entry.1 == policy.fold other) =
      if policy.fold name = policy.fold other then some (name, value)
      else entries.find? fun entry => policy.fold entry.1 == policy.fold other := by
  induction entries with
  | nil => by_cases same : policy.fold name = policy.fold other <;> simp [enter, same]
  | cons first rest ih =>
      simp only [enter]
      split
      · by_cases same : policy.fold name = policy.fold other <;> simp [same]
      · split
        next equal =>
          by_cases same : policy.fold name = policy.fold other
          · simp [same]
          · have differs : policy.fold first.1 ≠ policy.fold other := equal ▸ same
            simp [same, differs]
        next differs =>
          by_cases here : policy.fold first.1 = policy.fold other
          · have same : policy.fold name ≠ policy.fold other := here ▸ differs
            simp [here, same]
          · simp [here, ih]

/-- Inserting changes the entry of one name and of no other. -/
theorem find?_insert (table : NameTable policy α) (name other : Text) (value : α) :
    (table.insert name value).find? other =
      if policy.fold name = policy.fold other then some (name, value) else table.find? other :=
  find?_enter name other value table.entries

theorem get?_insert (table : NameTable policy α) (name other : Text) (value : α) :
    (table.insert name value).get? other =
      if policy.fold name = policy.fold other then some value else table.get? other := by
  simp only [get?, find?_insert]
  split <;> rfl

theorem contains_insert (table : NameTable policy α) (name other : Text) (value : α) :
    (table.insert name value).contains other =
      (decide (policy.fold name = policy.fold other) || table.contains other) := by
  simp only [contains, find?_insert]
  by_cases same : policy.fold name = policy.fold other <;> simp [same]

def size (table : NameTable policy α) : Nat := table.entries.length

def isEmpty (table : NameTable policy α) : Bool := table.entries.isEmpty

/-- Spellings in ascending order. -/
def names (table : NameTable policy α) : List Text :=
  Text.sort (table.entries.map Prod.fst)

/-- Entries in ascending order of their spellings. -/
def toList (table : NameTable policy α) : List (Text × α) :=
  Text.sortByName table.entries

def insertAll (table : NameTable policy α) (entries : List (Text × α)) : NameTable policy α :=
  entries.foldl (fun table entry => table.insert entry.1 entry.2) table

/-- Lays `overlay` over `base`: on a shared name, compared as `base` does, the overlay wins. -/
def update (base : NameTable policy α) (overlay : NameTable other α) : NameTable policy α :=
  base.insertAll overlay.entries

end NameTable

/-- A set of names that remembers how each was last spelled. -/
abbrev NameSet (policy : CasePolicy) := NameTable policy Unit

namespace NameSet

variable {policy : CasePolicy}

def add (set : NameSet policy) (name : Text) : NameSet policy := NameTable.insert set name ()

def ofList (names : List Text) : NameSet policy := names.foldl add NameTable.empty

end NameSet

end Netlist

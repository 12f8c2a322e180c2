import Netlist.Text

/-!
# Devices

The first letter of a device name decides how many node words follow the name,
how many references to other devices follow those, and whether a model is
named.
-/

namespace Netlist

structure DeviceKind where
  minNodes : Nat
  maxNodes : Nat
  references : Nat
  hasModel : Bool
deriving DecidableEq, Repr

namespace DeviceKind

def optionalNodes (kind : DeviceKind) : Nat := kind.maxNodes - kind.minNodes

/-- How many words behind the name of a device are passed over as nodes at most.  The words are
counted in 64 bits together with the name, so the largest of all numbers leaves none. -/
def passedNodes (kind : DeviceKind) : Nat := (kind.maxNodes + 1) % Nat.pow 2 64 - 1

theorem passedNodes_eq {kind : DeviceKind} (below : kind.maxNodes + 1 < Nat.pow 2 64) :
    kind.passedNodes = kind.maxNodes := by
  rw [passedNodes, Nat.mod_eq_of_lt below, Nat.add_sub_cancel]

end DeviceKind

/-- The kind of device that a key letter stands for, if it stands for one. -/
structure Catalog where
  kind? : Char → Option DeviceKind

namespace Catalog

/-- A catalog of letters in lower case that stand for the same in upper case; of two kinds for one
letter the first counts. -/
def ofLetters (kinds : List (Char × DeviceKind)) : Catalog where
  kind? key := (kinds.find? fun entry => entry.1 == key.toLower).map Prod.snd

/-- Adds a kind for a letter in both cases, in place of the one it had. -/
def add (catalog : Catalog) (key : Char) (kind : DeviceKind) : Catalog where
  kind? letter := if letter.toLower = key.toLower then some kind else catalog.kind? letter

/-- Two-terminal elements. -/
def twoTerminal : DeviceKind := ⟨2, 2, 0, false⟩

def standard : Catalog :=
  ofLetters [('r', twoTerminal), ('c', twoTerminal), ('l', twoTerminal), ('v', twoTerminal),
    ('i', twoTerminal), ('b', twoTerminal),
    ('k', ⟨0, 0, 2, false⟩),
    ('e', ⟨4, 4, 0, false⟩), ('g', ⟨4, 4, 0, false⟩),
    ('f', ⟨2, 2, 1, false⟩), ('h', ⟨2, 2, 1, false⟩),
    ('d', ⟨2, 2, 0, true⟩),
    ('j', ⟨3, 3, 0, true⟩), ('z', ⟨3, 3, 0, true⟩),
    ('m', ⟨4, 4, 0, true⟩),
    ('q', ⟨3, 4, 0, true⟩),
    ('t', ⟨4, 4, 0, false⟩), ('o', ⟨4, 4, 0, true⟩),
    ('u', ⟨3, 3, 0, true⟩),
    ('s', ⟨4, 4, 0, true⟩), ('w', ⟨2, 2, 1, true⟩)]

end Catalog

end Netlist

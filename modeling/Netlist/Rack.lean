import Netlist.Card

/-!
# Racks

A rack holds a deck in numbered slots that are linked in both directions, so
that cards are put in and taken out without moving the others.  A card is
addressed by its slot and the generation of that slot: taking a card out opens
a new generation, and an old address then finds nothing, also after the slot
has been filled again.  A vacated slot is filled again before a new one is
added, the slot vacated last first.
-/

namespace Netlist

/-- The address of a card in a rack. -/
structure CardId where
  slot : Nat
  generation : UInt32
deriving DecidableEq, Repr

structure Slot where
  card : Option Card
  generation : UInt32
  prev : Option Nat
  next : Option Nat
deriving DecidableEq, Repr

structure Rack where
  slots : Array Slot := #[]
  /-- Vacant slots, the one vacated last in front. -/
  vacant : List Nat := []
  head : Option Nat := none
  tail : Option Nat := none
  size : Nat := 0
deriving DecidableEq, Repr

namespace Rack

def empty : Rack := {}

instance : Inhabited Rack := ⟨empty⟩

/-- The present address of a slot. -/
def idAt (rack : Rack) (index : Nat) : CardId :=
  ⟨index, ((rack.slots[index]?).map Slot.generation).getD 0⟩

/-- The slot of an address that is still valid. -/
def slot? (rack : Rack) (id : CardId) : Option Slot :=
  match rack.slots[id.slot]? with
  | none => none
  | some slot => if slot.generation = id.generation && slot.card.isSome then some slot else none

def get? (rack : Rack) (id : CardId) : Option Card := (rack.slot? id).bind Slot.card

def first? (rack : Rack) : Option CardId := rack.head.map rack.idAt

def last? (rack : Rack) : Option CardId := rack.tail.map rack.idAt

def next? (rack : Rack) (id : CardId) : Option CardId :=
  (rack.slot? id).bind fun slot => slot.next.map rack.idAt

def prev? (rack : Rack) (id : CardId) : Option CardId :=
  (rack.slot? id).bind fun slot => slot.prev.map rack.idAt

/-- The slots met along the links to the next slot, at most `bound` of them. -/
def chain (rack : Rack) : (bound : Nat) → Option Nat → List Nat
  | 0, _ => []
  | _, none => []
  | bound + 1, some index =>
      index :: rack.chain bound ((rack.slots[index]?).bind Slot.next)

/-- The occupied slots in order. -/
def order (rack : Rack) : List Nat := rack.chain rack.slots.size rack.head

def ids (rack : Rack) : List CardId := rack.order.map rack.idAt

/-- The cards in order. -/
def toDeck (rack : Rack) : Deck :=
  rack.order.filterMap fun index => (rack.slots[index]?).bind Slot.card

def modifySlot (rack : Rack) (index : Nat) (change : Slot → Slot) : Rack :=
  { rack with slots := rack.slots.modify index change }

/-- Puts a card into a slot that is not linked yet. -/
def allocate (rack : Rack) (card : Card) : Nat × Rack :=
  match rack.vacant with
  | index :: others =>
      (index,
        { rack.modifySlot index fun slot =>
            { slot with card := some card, prev := none, next := none } with
          vacant := others
          size := rack.size + 1 })
  | [] =>
      (rack.slots.size,
        { rack with
          slots := rack.slots.push ⟨some card, 0, none, none⟩
          size := rack.size + 1 })

/-- The slot behind an anchor; the first one when there is no anchor. -/
def behind (rack : Rack) : Option Nat → Option Nat
  | some anchor => (rack.slots[anchor]?).bind Slot.next
  | none => rack.head

/-- Makes `index` the slot behind `anchor`, or the first one. -/
def setBehind (rack : Rack) (anchor index : Option Nat) : Rack :=
  match anchor with
  | some anchor => rack.modifySlot anchor fun slot => { slot with next := index }
  | none => { rack with head := index }

/-- Makes `index` the slot before `next`, or the last one. -/
def setBefore (rack : Rack) (next index : Option Nat) : Rack :=
  match next with
  | some next => rack.modifySlot next fun slot => { slot with prev := index }
  | none => { rack with tail := index }

/-- Links a slot in behind an anchor, or in front of all others. -/
def linkAfter (rack : Rack) (anchor : Option Nat) (index : Nat) : Rack :=
  let next := rack.behind anchor
  let linked := rack.modifySlot index fun slot => { slot with prev := anchor, next }
  (linked.setBehind anchor (some index)).setBefore next (some index)

/-- Puts a card behind an anchor, or in front of all others, and tells its slot. -/
def place (rack : Rack) (anchor : Option Nat) (card : Card) : Nat × Rack :=
  let (index, filled) := rack.allocate card
  (index, filled.linkAfter anchor index)

def pushBack (rack : Rack) (card : Card) : CardId × Rack :=
  let (index, placed) := rack.place rack.tail card
  (placed.idAt index, placed)

def pushFront (rack : Rack) (card : Card) : CardId × Rack :=
  let (index, placed) := rack.place none card
  (placed.idAt index, placed)

def insertAfter? (rack : Rack) (id : CardId) (card : Card) : Option (CardId × Rack) :=
  (rack.slot? id).map fun _ =>
    let (index, placed) := rack.place (some id.slot) card
    (placed.idAt index, placed)

/-- Takes a card out and opens a new generation of its slot. -/
def remove? (rack : Rack) (id : CardId) : Option (Card × Rack) :=
  match rack.slot? id with
  | none => none
  | some slot =>
      slot.card.map fun card =>
        let unlinked := (rack.setBehind slot.prev slot.next).setBefore slot.next slot.prev
        let vacated := unlinked.modifySlot id.slot fun slot =>
          ⟨none, slot.generation + 1, none, none⟩
        (card, { vacated with vacant := id.slot :: rack.vacant, size := rack.size - 1 })

/-- Changes the card at a valid address. -/
def modify? (rack : Rack) (id : CardId) (change : Card → Card) : Option Rack :=
  (rack.slot? id).map fun _ =>
    rack.modifySlot id.slot fun slot => { slot with card := slot.card.map change }

/-- Puts the cards one behind the other after an anchor, and tells the last slot. -/
def placeAll (rack : Rack) (anchor : Option Nat) : Deck → Option Nat × Rack
  | [] => (anchor, rack)
  | first :: rest =>
      let (index, placed) := rack.place anchor first
      placed.placeAll (some index) rest

/-- Puts a deck behind a card; the address is that of its last card, or of the anchor itself. -/
def spliceAfter? (rack : Rack) (id : CardId) (deck : Deck) : Option (CardId × Rack) :=
  (rack.slot? id).map fun _ =>
    let (last, spliced) := rack.placeAll (some id.slot) deck
    (spliced.idAt (last.getD id.slot), spliced)

/-- Puts a deck in front of all cards. -/
def spliceFront (rack : Rack) (deck : Deck) : Rack := (rack.placeAll none deck).2

/-- A rack without vacant slots. -/
def ofDeck (deck : Deck) : Rack :=
  deck.foldl (fun rack card => (rack.pushBack card).2) empty

/-- The cards from one address on, up to `last` or else to the end. -/
def walk (rack : Rack) (last : CardId) : (bound : Nat) → Option CardId → Deck
  | 0, _ => []
  | _, none => []
  | bound + 1, some id =>
      let here := (rack.get? id).toList
      if id = last then here else here ++ rack.walk last bound (rack.next? id)

def copyRange (rack : Rack) (first last : CardId) : Rack :=
  ofDeck (rack.walk last (rack.slots.size + 1) (some first))

/-- The same cards in a rack without vacant slots. -/
def compact (rack : Rack) : Rack := ofDeck rack.toDeck

end Rack

end Netlist

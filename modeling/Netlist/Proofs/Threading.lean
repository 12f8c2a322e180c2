import Mathlib.Data.List.Perm.Subperm
import Netlist.Rack

/-!
# The thread of a rack

The links of a rack thread its occupied slots in one order, the same in both
directions.  A slot is threaded in behind any other, or in front of all of
them, and drawn out again; both touch the links of the two neighbours only,
and the cards and generations of all other slots stay.
-/

namespace Netlist

namespace Rack

/-- The card in a slot. -/
def cardAt (rack : Rack) (index : Nat) : Option Card := (rack.slots[index]?).bind Slot.card

/-- The slots `order` are threaded one behind the other, and all other slots are vacant. -/
structure Threaded (rack : Rack) (order : List Nat) : Prop where
  once : order.Nodup
  head : rack.head = order.head?
  tail : rack.tail = order.getLast?
  /-- A slot is linked to the one before it and the one behind it. -/
  linked {front back : List Nat} {index : Nat} (split : order = front ++ index :: back) :
    ∃ card generation,
      rack.slots[index]? = some ⟨some card, generation, front.getLast?, back.head?⟩
  vacated : ∀ index ∈ rack.vacant, ∃ generation,
    rack.slots[index]? = some ⟨none, generation, none, none⟩
  vacant_once : rack.vacant.Nodup
  covered : ∀ index < rack.slots.size, index ∈ order ∨ index ∈ rack.vacant
  counted : rack.size = order.length

section Links

variable (rack : Rack)

theorem getElem?_modifySlot (index other : Nat) (change : Slot → Slot) :
    (rack.modifySlot index change).slots[other]? =
      (rack.slots[other]?).map fun slot => if index = other then change slot else slot := by
  unfold modifySlot
  rw [Array.getElem?_modify]
  split <;> simp

theorem getElem?_setBehind (anchor index : Option Nat) (other : Nat) :
    (rack.setBehind anchor index).slots[other]? =
      (rack.slots[other]?).map fun slot =>
        if anchor = some other then { slot with next := index } else slot := by
  cases anchor with
  | none => simp [setBehind]
  | some anchor => simp [setBehind, getElem?_modifySlot]

theorem getElem?_setBefore (next index : Option Nat) (other : Nat) :
    (rack.setBefore next index).slots[other]? =
      (rack.slots[other]?).map fun slot =>
        if next = some other then { slot with prev := index } else slot := by
  cases next with
  | none => simp [setBefore]
  | some next => simp [setBefore, getElem?_modifySlot]

@[simp] theorem head_setBehind (anchor index : Option Nat) :
    (rack.setBehind anchor index).head = if anchor = none then index else rack.head := by
  cases anchor <;> simp [setBehind, modifySlot]

@[simp] theorem tail_setBehind (anchor index : Option Nat) :
    (rack.setBehind anchor index).tail = rack.tail := by
  cases anchor <;> rfl

@[simp] theorem vacant_setBehind (anchor index : Option Nat) :
    (rack.setBehind anchor index).vacant = rack.vacant := by
  cases anchor <;> rfl

@[simp] theorem size_setBehind (anchor index : Option Nat) :
    (rack.setBehind anchor index).size = rack.size := by
  cases anchor <;> rfl

@[simp] theorem head_setBefore (next index : Option Nat) :
    (rack.setBefore next index).head = rack.head := by
  cases next <;> rfl

@[simp] theorem tail_setBefore (next index : Option Nat) :
    (rack.setBefore next index).tail = if next = none then index else rack.tail := by
  cases next <;> simp [setBefore, modifySlot]

@[simp] theorem vacant_setBefore (next index : Option Nat) :
    (rack.setBefore next index).vacant = rack.vacant := by
  cases next <;> rfl

@[simp] theorem size_setBefore (next index : Option Nat) :
    (rack.setBefore next index).size = rack.size := by
  cases next <;> rfl

@[simp] theorem size_slots_setBehind (anchor index : Option Nat) :
    (rack.setBehind anchor index).slots.size = rack.slots.size := by
  cases anchor <;> simp [setBehind, modifySlot]

@[simp] theorem size_slots_setBefore (next index : Option Nat) :
    (rack.setBefore next index).slots.size = rack.slots.size := by
  cases next <;> simp [setBefore, modifySlot]

/-- Linking a slot in changes its own links and one link of each neighbour. -/
theorem getElem?_linkAfter (anchor : Option Nat) (index other : Nat) :
    (rack.linkAfter anchor index).slots[other]? =
      (rack.slots[other]?).map fun slot =>
        { slot with
          prev := if rack.behind anchor = some other then some index
            else if index = other then anchor else slot.prev
          next := if anchor = some other then some index
            else if index = other then rack.behind anchor else slot.next } := by
  simp only [linkAfter, getElem?_setBefore, getElem?_setBehind, getElem?_modifySlot,
    Option.map_map]
  congr 1
  funext slot
  simp only [Function.comp]
  split <;> split <;> split <;> rfl

theorem cardAt_linkAfter (anchor : Option Nat) (index other : Nat) :
    (rack.linkAfter anchor index).cardAt other = rack.cardAt other := by
  unfold cardAt
  rw [getElem?_linkAfter]
  cases rack.slots[other]? <;> rfl

theorem head_linkAfter (anchor : Option Nat) (index : Nat) :
    (rack.linkAfter anchor index).head =
      if anchor = none then some index else rack.head := by
  simp [linkAfter, modifySlot]

theorem tail_linkAfter (anchor : Option Nat) (index : Nat) :
    (rack.linkAfter anchor index).tail =
      if rack.behind anchor = none then some index else rack.tail := by
  simp [linkAfter, modifySlot]

end Links

/-! ## Putting a card in -/

/-- A slot outside the thread is filled, and nothing else changes. -/
structure Fills (rack : Rack) (order : List Nat) (card : Card) (index : Nat) (filled : Rack) :
    Prop where
  outside : index ∉ order
  here : ∃ generation, filled.slots[index]? = some ⟨some card, generation, none, none⟩
  elsewhere : ∀ other, other ≠ index → filled.slots[other]? = rack.slots[other]?
  generation : ∀ slot, rack.slots[index]? = some slot →
    (filled.slots[index]?).map Slot.generation = some slot.generation
  head : filled.head = rack.head
  tail : filled.tail = rack.tail
  vacant : filled.vacant = rack.vacant.tail
  taken : index ∉ filled.vacant
  covered : ∀ other < filled.slots.size,
    other = index ∨ other ∈ order ∨ other ∈ filled.vacant
  counted : filled.size = order.length + 1

section Thread

variable {rack : Rack} {order front back : List Nat} {index : Nat}

theorem Threaded.occupied (threaded : rack.Threaded order) (member : index ∈ order) :
    ∃ card, rack.cardAt index = some card := by
  obtain ⟨front, back, split⟩ := List.append_of_mem member
  obtain ⟨card, generation, here⟩ := threaded.linked split
  exact ⟨card, by simp [cardAt, here]⟩

theorem Threaded.not_mem_of_vacant (threaded : rack.Threaded order)
    (vacant : index ∈ rack.vacant) : index ∉ order := by
  intro member
  obtain ⟨card, occupied⟩ := threaded.occupied member
  obtain ⟨generation, empty⟩ := threaded.vacated index vacant
  simp [cardAt, empty] at occupied

theorem Threaded.lt_size (threaded : rack.Threaded order) (member : index ∈ order) :
    index < rack.slots.size := by
  obtain ⟨front, back, split⟩ := List.append_of_mem member
  obtain ⟨card, generation, here⟩ := threaded.linked split
  exact (Array.getElem?_eq_some_iff.mp here).1

/-- The slot vacated last is filled again, or a new one is added. -/
theorem Threaded.allocate (threaded : rack.Threaded order) (card : Card) :
    rack.Fills order card (rack.allocate card).1 (rack.allocate card).2 := by
  unfold Rack.allocate
  cases vacant : rack.vacant with
  | cons index others =>
      have listed : index ∈ rack.vacant := by simp [vacant]
      obtain ⟨generation, empty⟩ := threaded.vacated index listed
      have slots := fun other => getElem?_modifySlot rack index other fun slot =>
        { slot with card := some card, prev := none, next := none }
      have unlisted : index ∉ others := by
        have once := threaded.vacant_once
        rw [vacant] at once
        exact (List.nodup_cons.mp once).1
      refine ⟨threaded.not_mem_of_vacant listed, ⟨generation, ?_⟩, ?_, ?_, rfl, rfl, ?_, unlisted,
        ?_, ?_⟩
      · simp [slots, empty]
      · intro other differs
        simp [slots, differs.symm]
      · intro slot found
        simp [slots, found]
      · simp [vacant]
      · intro other bound
        have inside : other < rack.slots.size := by simpa [modifySlot] using bound
        rcases threaded.covered other inside with member | member
        · exact .inr (.inl member)
        · rw [vacant] at member
          rcases List.mem_cons.mp member with here | there
          · exact .inl here
          · exact .inr (.inr there)
      · simp [threaded.counted]
  | nil =>
      refine ⟨?_, ⟨0, by simp⟩, ?_, ?_, rfl, rfl, by simp [vacant], by simp, ?_, ?_⟩
      · intro member
        exact Nat.lt_irrefl _ (threaded.lt_size member)
      · intro other differs
        simp [Array.getElem?_push, differs]
      · intro slot found
        simp at found
      · intro other bound
        rw [Array.size_push] at bound
        rcases Nat.lt_succ_iff_lt_or_eq.mp bound with inside | last
        · exact .inr ((threaded.covered other inside).imp_right fun member => by
            simp [vacant] at member)
        · exact .inl last
      · simp [threaded.counted]

/-- What stands behind the last of the slots in front. -/
theorem Threaded.behind_eq (threaded : rack.Threaded (front ++ back)) :
    rack.behind front.getLast? = back.head? := by
  rcases List.eq_nil_or_concat front with rfl | ⟨before, last, rfl⟩
  · exact threaded.head
  · have split : before.concat last ++ back = before ++ last :: back := by simp
    obtain ⟨card, generation, here⟩ := threaded.linked split
    simp [behind, here]

/-- Where a slot stands in a list into which one was put. -/
theorem split_insert {front back first last : List Nat} {index other : Nat}
    (split : front ++ index :: back = first ++ other :: last) :
    (front = first ∧ index = other ∧ back = last) ∨
    (∃ between, front = first ++ other :: between ∧ last = between ++ index :: back) ∨
    ∃ between, first = front ++ index :: between ∧ back = between ++ other :: last := by
  rcases List.append_eq_append_iff.mp split with ⟨gap, rfl, rest⟩ | ⟨gap, rfl, rest⟩
  · cases gap with
    | nil =>
        obtain ⟨rfl, rfl⟩ := List.cons.inj rest
        exact .inl ⟨by simp, rfl, rfl⟩
    | cons same between =>
        obtain ⟨rfl, rfl⟩ := List.cons.inj rest
        exact .inr (.inr ⟨between, rfl, rfl⟩)
  · cases gap with
    | nil =>
        obtain ⟨rfl, rfl⟩ := List.cons.inj rest
        exact .inl ⟨by simp, rfl, rfl⟩
    | cons same between =>
        obtain ⟨rfl, rfl⟩ := List.cons.inj rest
        exact .inr (.inl ⟨between, rfl, rfl⟩)

theorem getLast?_eq_some_iff {first between : List Nat} {other : Nat} (absent : other ∉ between) :
    (first ++ other :: between).getLast? = some other ↔ between = [] := by
  rcases List.eq_nil_or_concat between with rfl | ⟨rest, last, rfl⟩
  · simp
  · have differs : last ≠ other := by
      rintro rfl
      simp at absent
    simp [List.getLast?_cons, differs]

theorem head?_eq_some_iff {between last : List Nat} {other : Nat} (absent : other ∉ between) :
    (between ++ other :: last).head? = some other ↔ between = [] := by
  cases between with
  | nil => simp
  | cons first rest =>
      have differs : first ≠ other := by
        rintro rfl
        simp at absent
      simp [differs]

theorem Fills.behind_eq {card : Card} {filled : Rack}
    (fills : rack.Fills (front ++ back) card index filled)
    (threaded : rack.Threaded (front ++ back)) :
    filled.behind front.getLast? = back.head? := by
  rw [← threaded.behind_eq]
  cases anchor : front.getLast? with
  | none => exact fills.head
  | some last =>
      have member : last ∈ front ++ back :=
        List.mem_append_left _ (List.mem_of_getLast? anchor)
      have differs : last ≠ index := fun same => fills.outside (same ▸ member)
      simp only [behind]
      rw [fills.elsewhere last differs]

/-- A slot that was filled is threaded in between its new neighbours. -/
theorem Fills.linked {card : Card} {filled : Rack}
    (fills : rack.Fills (front ++ back) card index filled)
    (threaded : rack.Threaded (front ++ back)) {first last : List Nat} {other : Nat}
    (split : front ++ index :: back = first ++ other :: last) :
    ∃ card generation, (filled.linkAfter front.getLast? index).slots[other]? =
      some ⟨some card, generation, first.getLast?, last.head?⟩ := by
  rw [getElem?_linkAfter, fills.behind_eq threaded]
  have fresh : index ∉ front ∧ index ∉ back := by simpa using fills.outside
  have once := List.nodup_append.mp threaded.once
  rcases split_insert split with
    ⟨rfl, rfl, rfl⟩ | ⟨between, rfl, rfl⟩ | ⟨between, rfl, rfl⟩
  · obtain ⟨generation, here⟩ := fills.here
    have notBehind : back.head? ≠ some index := fun same => fresh.2 (List.mem_of_head? same)
    have notLast : front.getLast? ≠ some index := fun same => fresh.1 (List.mem_of_getLast? same)
    simp [here, notBehind, notLast]
  · -- the other slot stands in front; it is a neighbour if nothing stands between
    have differs : index ≠ other := by
      rintro rfl
      simp at fresh
    obtain ⟨card, generation, there⟩ := threaded.linked
      (show first ++ other :: between ++ back = first ++ other :: (between ++ back) by simp)
    have notBehind : back.head? ≠ some other := by
      intro same
      exact once.2.2 other (by simp) other (List.mem_of_head? same) rfl
    have absent : other ∉ between := by
      have := (List.nodup_append.mp once.1).2.1
      exact (List.nodup_cons.mp this).1
    refine ⟨card, generation, ?_⟩
    rw [fills.elsewhere other differs.symm, there]
    simp only [Option.map_some, notBehind, differs, if_false, getLast?_eq_some_iff absent]
    cases between with
    | nil => simp
    | cons next rest => simp
  · have differs : index ≠ other := by
      rintro rfl
      simp at fresh
    obtain ⟨card, generation, there⟩ := threaded.linked
      (show front ++ (between ++ other :: last) = (front ++ between) ++ other :: last by simp)
    have notLast : front.getLast? ≠ some other := by
      intro same
      exact once.2.2 other (List.mem_of_getLast? same) other (by simp) rfl
    have absent : other ∉ between := by
      intro member
      exact (List.nodup_append.mp once.2.1).2.2 other member other (by simp) rfl
    refine ⟨card, generation, ?_⟩
    rw [fills.elsewhere other differs.symm, there]
    simp only [Option.map_some, notLast, differs, if_false, head?_eq_some_iff absent]
    rcases List.eq_nil_or_concat between with rfl | ⟨rest, next, rfl⟩
    · simp
    · simp [List.getLast?_cons]

/-- A card is put behind the slots in front, into a slot outside the thread. -/
theorem Threaded.place (threaded : rack.Threaded (front ++ back)) (card : Card) :
    (rack.place front.getLast? card).2.Threaded
      (front ++ (rack.place front.getLast? card).1 :: back) := by
  have fills := threaded.allocate card
  show ((rack.allocate card).2.linkAfter front.getLast? (rack.allocate card).1).Threaded
    (front ++ (rack.allocate card).1 :: back)
  generalize (rack.allocate card).1 = index at fills ⊢
  generalize (rack.allocate card).2 = filled at fills ⊢
  have vacant : (filled.linkAfter front.getLast? index).vacant = filled.vacant := by
    simp [linkAfter, modifySlot]
  constructor
  · exact List.perm_middle.nodup_iff.mpr (List.nodup_cons.mpr ⟨fills.outside, threaded.once⟩)
  · rw [head_linkAfter, fills.head, threaded.head]
    cases front <;> simp
  · rw [tail_linkAfter, fills.behind_eq threaded, fills.tail, threaded.tail]
    cases back <;> simp
  · exact fills.linked threaded
  · intro other listed
    rw [vacant] at listed
    have differs : other ≠ index := fun same => fills.taken (same ▸ listed)
    rw [fills.vacant] at listed
    have before : other ∈ rack.vacant := List.mem_of_mem_tail listed
    obtain ⟨generation, empty⟩ := threaded.vacated other before
    have outside : other ∉ front ∧ other ∉ back := by
      simpa using threaded.not_mem_of_vacant before
    have notBehind : back.head? ≠ some other := fun same => outside.2 (List.mem_of_head? same)
    have notLast : front.getLast? ≠ some other := fun same =>
      outside.1 (List.mem_of_getLast? same)
    refine ⟨generation, ?_⟩
    rw [getElem?_linkAfter, fills.behind_eq threaded, fills.elsewhere other differs, empty]
    simp [notBehind, notLast, differs.symm]
  · rw [vacant, fills.vacant]
    exact threaded.vacant_once.tail
  · intro other bound
    have inside : other < filled.slots.size := by simpa [linkAfter, modifySlot] using bound
    rw [vacant]
    rcases fills.covered other inside with rfl | member | listed
    · exact .inl (by simp)
    · exact .inl (by rcases List.mem_append.mp member with there | there <;> simp [there])
    · exact .inr listed
  · have counted : (filled.linkAfter front.getLast? index).size = filled.size := by
      simp [linkAfter, modifySlot]
    rw [counted, fills.counted]
    simp
    omega

theorem cardAt_place (threaded : rack.Threaded order) (anchor : Option Nat) (card : Card)
    (other : Nat) :
    (rack.place anchor card).2.cardAt other =
      if other = (rack.place anchor card).1 then some card else rack.cardAt other := by
  have fills := threaded.allocate card
  show ((rack.allocate card).2.linkAfter anchor (rack.allocate card).1).cardAt other =
    if other = (rack.allocate card).1 then some card else rack.cardAt other
  rw [cardAt_linkAfter]
  split
  next same =>
    obtain ⟨generation, here⟩ := fills.here
    rw [same, cardAt, here]
    rfl
  next differs => rw [cardAt, cardAt, fills.elsewhere other differs]

/-- Putting a card in opens no new generation of any slot. -/
theorem generation_place (threaded : rack.Threaded order) (anchor : Option Nat) (card : Card)
    {other : Nat} {slot : Slot} (found : rack.slots[other]? = some slot) :
    ((rack.place anchor card).2.slots[other]?).map Slot.generation = some slot.generation := by
  have fills := threaded.allocate card
  show (((rack.allocate card).2.linkAfter anchor (rack.allocate card).1).slots[other]?).map
    Slot.generation = _
  rw [getElem?_linkAfter, Option.map_map]
  show ((rack.allocate card).2.slots[other]?).map Slot.generation = _
  by_cases same : other = (rack.allocate card).1
  · subst same
    exact fills.generation slot found
  · rw [fills.elsewhere other same, found]
    rfl

/-! ## Taking a card out -/

/-- The slot drawn out from between two neighbours. -/
def draw (rack : Rack) (index : Nat) (prev next : Option Nat) : Rack :=
  { (((rack.setBehind prev next).setBefore next prev).modifySlot index fun slot =>
      ⟨none, slot.generation + 1, none, none⟩) with
    vacant := index :: rack.vacant
    size := rack.size - 1 }

theorem remove?_eq {id : CardId} {card : Card} {generation : UInt32} {prev next : Option Nat}
    (found : rack.slot? id = some ⟨some card, generation, prev, next⟩) :
    rack.remove? id = some (card, rack.draw id.slot prev next) := by
  unfold remove?
  rw [found]
  rfl

theorem getElem?_draw (rack : Rack) (index : Nat) (prev next : Option Nat) (other : Nat) :
    (rack.draw index prev next).slots[other]? =
      (rack.slots[other]?).map fun slot =>
        if index = other then ⟨none, slot.generation + 1, none, none⟩
        else
          { slot with
            prev := if next = some other then prev else slot.prev
            next := if prev = some other then next else slot.next } := by
  simp only [draw, getElem?_modifySlot, getElem?_setBefore, getElem?_setBehind, Option.map_map]
  congr 1
  funext slot
  simp only [Function.comp]
  split <;> split <;> split <;> rfl

/-- The neighbours of a slot that is drawn out are linked to each other. -/
theorem Threaded.linked_draw (threaded : rack.Threaded (front ++ index :: back))
    {first last : List Nat} {other : Nat} (split : front ++ back = first ++ other :: last) :
    ∃ card generation, (rack.draw index front.getLast? back.head?).slots[other]? =
      some ⟨some card, generation, first.getLast?, last.head?⟩ := by
  have once := List.perm_middle.nodup_iff.mp threaded.once
  have member : other ∈ front ++ back := split ▸ by simp
  have differs : index ≠ other := by
    rintro rfl
    exact (List.nodup_cons.mp once).1 member
  have apart := List.nodup_append.mp (List.nodup_cons.mp once).2
  have sides : (∃ between, front = first ++ other :: between ∧ last = between ++ back) ∨
      ∃ between, first = front ++ between ∧ back = between ++ other :: last := by
    rcases List.append_eq_append_iff.mp split with ⟨gap, whole, rest⟩ | ⟨gap, whole, rest⟩
    · exact .inr ⟨gap, whole, rest⟩
    · cases gap with
      | nil => exact .inr ⟨[], by simpa using whole.symm, by simpa using rest.symm⟩
      | cons same between =>
          obtain ⟨rfl, rfl⟩ := List.cons.inj rest
          exact .inl ⟨between, whole, rfl⟩
  rw [getElem?_draw]
  rcases sides with ⟨between, rfl, rfl⟩ | ⟨between, rfl, rfl⟩
  · obtain ⟨card, generation, there⟩ := threaded.linked
      (show first ++ other :: between ++ index :: back =
        first ++ other :: (between ++ index :: back) by simp)
    have notBehind : back.head? ≠ some other := by
      intro same
      exact apart.2.2 other (by simp) other (List.mem_of_head? same) rfl
    have absent : other ∉ between :=
      (List.nodup_cons.mp (List.nodup_append.mp apart.1).2.1).1
    refine ⟨card, generation, ?_⟩
    simp only [there, Option.map_some, notBehind, differs, if_false, getLast?_eq_some_iff absent]
    cases between with
    | nil => simp
    | cons next rest => simp
  · obtain ⟨card, generation, there⟩ := threaded.linked
      (show front ++ index :: (between ++ other :: last) =
        (front ++ index :: between) ++ other :: last by simp)
    have notLast : front.getLast? ≠ some other := by
      intro same
      exact apart.2.2 other (List.mem_of_getLast? same) other (by simp) rfl
    have absent : other ∉ between := by
      intro inside
      exact (List.nodup_append.mp apart.2.1).2.2 other inside other (by simp) rfl
    refine ⟨card, generation, ?_⟩
    simp only [there, Option.map_some, notLast, differs, if_false, head?_eq_some_iff absent]
    rcases List.eq_nil_or_concat between with rfl | ⟨rest, next, rfl⟩
    · simp
    · simp [List.getLast?_cons]

theorem Threaded.draw (threaded : rack.Threaded (front ++ index :: back)) :
    (rack.draw index front.getLast? back.head?).Threaded (front ++ back) := by
  have once := List.nodup_cons.mp (List.perm_middle.nodup_iff.mp threaded.once)
  obtain ⟨card, generation, here⟩ := threaded.linked rfl
  constructor
  · exact once.2
  · simp only [Rack.draw, modifySlot, head_setBefore, head_setBehind, threaded.head]
    cases front <;> simp
  · simp only [Rack.draw, modifySlot, tail_setBefore, tail_setBehind, threaded.tail]
    rcases List.eq_nil_or_concat back with rfl | ⟨rest, last, rfl⟩
    · simp
    · simp [List.getLast?_cons]
  · exact threaded.linked_draw
  · intro other listed
    rw [getElem?_draw]
    rcases List.mem_cons.mp listed with rfl | before
    · exact ⟨generation + 1, by simp [here]⟩
    · obtain ⟨age, empty⟩ := threaded.vacated other before
      have outside : other ∉ front ∧ other ≠ index ∧ other ∉ back := by
        simpa using threaded.not_mem_of_vacant before
      have notBehind : back.head? ≠ some other := fun same =>
        outside.2.2 (List.mem_of_head? same)
      have notLast : front.getLast? ≠ some other := fun same =>
        outside.1 (List.mem_of_getLast? same)
      exact ⟨age, by simp [empty, notBehind, notLast, outside.2.1.symm]⟩
  · refine List.nodup_cons.mpr ⟨?_, threaded.vacant_once⟩
    intro listed
    exact threaded.not_mem_of_vacant listed (by simp)
  · intro other bound
    have inside : other < rack.slots.size := by simpa [Rack.draw, modifySlot] using bound
    rcases threaded.covered other inside with member | listed
    · rcases List.mem_cons.mp (List.perm_middle.mem_iff.mp member) with rfl | there
      · exact .inr (List.mem_cons_self ..)
      · exact .inl there
    · exact .inr (List.mem_cons_of_mem _ listed)
  · show rack.size - 1 = _
    rw [threaded.counted]
    simp

theorem cardAt_draw (rack : Rack) (index : Nat) (prev next : Option Nat) (other : Nat) :
    (rack.draw index prev next).cardAt other =
      if other = index then none else rack.cardAt other := by
  simp only [cardAt, getElem?_draw, Option.bind_map]
  cases rack.slots[other]? with
  | none => simp
  | some slot =>
      by_cases same : other = index
      · simp [same]
      · have differs : ¬ index = other := fun equal => same equal.symm
        simp [same, differs]

/-! ## Changing a card -/

/-- The rack with the card of one slot changed. -/
def edit (rack : Rack) (index : Nat) (change : Card → Card) : Rack :=
  rack.modifySlot index fun slot => { slot with card := slot.card.map change }

theorem Threaded.edit (threaded : rack.Threaded order) (index : Nat) (change : Card → Card) :
    (rack.edit index change).Threaded order := by
  refine ⟨threaded.once, threaded.head, threaded.tail, ?_, ?_, threaded.vacant_once, ?_,
    threaded.counted⟩
  · intro front back other split
    obtain ⟨card, generation, here⟩ := threaded.linked split
    refine ⟨if index = other then change card else card, generation, ?_⟩
    rw [Rack.edit, getElem?_modifySlot, here]
    by_cases same : index = other <;> simp [same]
  · intro other listed
    obtain ⟨generation, empty⟩ := threaded.vacated other listed
    refine ⟨generation, ?_⟩
    rw [Rack.edit, getElem?_modifySlot, empty]
    by_cases same : index = other <;> simp [same]
  · intro other bound
    exact threaded.covered other (by simpa [Rack.edit, modifySlot] using bound)

theorem cardAt_edit (rack : Rack) (index : Nat) (change : Card → Card) (other : Nat) :
    (rack.edit index change).cardAt other =
      if other = index then (rack.cardAt other).map change else rack.cardAt other := by
  simp only [cardAt, edit, getElem?_modifySlot, Option.bind_map]
  cases rack.slots[other]? with
  | none => simp
  | some slot =>
      by_cases same : other = index
      · simp [same]
      · have differs : ¬ index = other := fun equal => same equal.symm
        simp [same, differs]

theorem generation_edit (rack : Rack) (index : Nat) (change : Card → Card) (other : Nat) :
    ((rack.edit index change).slots[other]?).map Slot.generation =
      (rack.slots[other]?).map Slot.generation := by
  rw [edit, getElem?_modifySlot, Option.map_map]
  congr 1
  funext slot
  simp only [Function.comp]
  split <;> rfl

/-! ## The order of the slots -/

theorem chain_none (rack : Rack) (bound : Nat) : rack.chain bound none = [] := by
  cases bound <;> rfl

/-- Following the links from a slot meets the slots behind it. -/
theorem Threaded.chain_eq (threaded : rack.Threaded (front ++ back)) {bound : Nat}
    (fits : back.length ≤ bound) : rack.chain bound back.head? = back := by
  induction back generalizing front bound with
  | nil => exact rack.chain_none bound
  | cons index rest ih =>
      obtain ⟨less, rfl⟩ : ∃ less, bound = less + 1 := ⟨bound - 1, by simp at fits; omega⟩
      obtain ⟨card, generation, here⟩ := threaded.linked rfl
      have moved : rack.Threaded ((front ++ [index]) ++ rest) := by simpa using threaded
      have behind : rack.chain less rest.head? = rest := ih moved (by simpa using fits)
      simp only [List.head?_cons, chain, here, Option.bind_some, behind]

theorem Threaded.length_le (threaded : rack.Threaded order) : order.length ≤ rack.slots.size := by
  have inside : order ⊆ List.range rack.slots.size := by
    intro index member
    exact List.mem_range.mpr (threaded.lt_size member)
  simpa using (threaded.once.subperm inside).length_le

/-- The occupied slots of a rack are those of its thread. -/
theorem Threaded.order_eq (threaded : rack.Threaded order) : rack.order = order := by
  have whole : rack.Threaded ([] ++ order) := threaded
  rw [Rack.order, threaded.head]
  exact whole.chain_eq threaded.length_le

theorem threaded_empty : empty.Threaded [] := by
  refine ⟨List.nodup_nil, rfl, rfl, ?_, ?_, List.nodup_nil, ?_, rfl⟩
  · intro front back index split
    simp at split
  · intro index listed
    cases listed
  · intro index bound
    cases bound

end Thread

end Rack

end Netlist

import Mathlib.Data.List.Induction
import Mathlib.Data.List.Nodup
import Mathlib.Data.List.TakeWhile
import Netlist.Proofs.Threading

/-!
# A rack is a list of cards

Whatever was done to a rack, its links thread every card once, and its vacant
slots are those without a card.  Read along the thread a rack is a list, each
operation on it is the operation on that list, and an address that finds
nothing changes nothing.
-/

namespace Netlist

namespace Rack

variable {rack next : Rack} {order front back : List Nat} {index : Nat}

/-! ## Cards and addresses along a thread -/

/-- Every slot of the thread holds the card that the deck has in its place. -/
theorem Threaded.reads (threaded : rack.Threaded order) :
    order.map rack.cardAt = rack.toDeck.map some := by
  have along (slots : List Nat) (inside : ∀ index ∈ slots, index ∈ order) :
      slots.map rack.cardAt = (slots.filterMap rack.cardAt).map some := by
    induction slots with
    | nil => rfl
    | cons index rest ih =>
        obtain ⟨card, here⟩ := threaded.occupied (inside index (List.mem_cons_self ..))
        have later := ih fun other member => inside other (List.mem_cons_of_mem _ member)
        simp [here, later]
  have whole : rack.toDeck = order.filterMap rack.cardAt := by
    rw [toDeck, threaded.order_eq]
    rfl
  rw [whole]
  exact along order fun _ member => member

theorem Threaded.toDeck_eq (threaded : rack.Threaded order) {cards : Deck}
    (reads : order.map rack.cardAt = cards.map some) : rack.toDeck = cards := by
  have same := threaded.reads.symm.trans reads
  exact List.map_injective_iff.mpr (fun _ _ => Option.some.inj) same

theorem Threaded.ids_eq (threaded : rack.Threaded order) : rack.ids = order.map rack.idAt := by
  rw [ids, threaded.order_eq]

theorem Threaded.length_toDeck (threaded : rack.Threaded order) :
    rack.toDeck.length = order.length := by
  have lengths := congrArg List.length threaded.reads
  simpa using lengths.symm

/-- The address of a slot of the thread finds the slot. -/
theorem Threaded.slot?_idAt (threaded : rack.Threaded (front ++ index :: back)) :
    ∃ card, rack.cardAt index = some card ∧
      rack.slot? (rack.idAt index) =
        some ⟨some card, (rack.idAt index).generation, front.getLast?, back.head?⟩ := by
  obtain ⟨card, generation, here⟩ := threaded.linked rfl
  exact ⟨card, by simp [cardAt, here], by simp [slot?, idAt, here]⟩

theorem Threaded.mem_of_cardAt (threaded : rack.Threaded order) {card : Card}
    (held : rack.cardAt index = some card) : index ∈ order := by
  obtain ⟨slot, here, -⟩ := Option.bind_eq_some_iff.mp held
  rcases threaded.covered index (Array.getElem?_eq_some_iff.mp here).1 with member | vacant
  · exact member
  · obtain ⟨generation, empty⟩ := threaded.vacated index vacant
    simp [cardAt, empty] at held

/-- An address that finds a slot is the present address of a slot of the thread. -/
theorem Threaded.of_slot? (threaded : rack.Threaded order) {id : CardId} {slot : Slot}
    (found : rack.slot? id = some slot) : id.slot ∈ order ∧ rack.idAt id.slot = id := by
  unfold slot? at found
  split at found
  · cases found
  next here =>
    split at found
    next valid =>
      cases found
      simp only [Bool.and_eq_true, decide_eq_true_eq] at valid
      obtain ⟨card, held⟩ := Option.isSome_iff_exists.mp valid.2
      exact ⟨threaded.mem_of_cardAt (by rw [cardAt, here]; exact held),
        by simp [idAt, here, valid.1]⟩
    · cases found

/-- Just the addresses of the present cards find something. -/
theorem Threaded.slot?_eq_none_iff (threaded : rack.Threaded order) {id : CardId} :
    rack.slot? id = none ↔ id ∉ rack.ids := by
  rw [threaded.ids_eq, List.mem_map]
  constructor
  · rintro nothing ⟨index, member, rfl⟩
    obtain ⟨front, back, rfl⟩ := List.append_of_mem member
    obtain ⟨card, -, found⟩ := threaded.slot?_idAt
    rw [nothing] at found
    cases found
  · intro absent
    cases found : rack.slot? id with
    | none => rfl
    | some slot =>
        obtain ⟨member, same⟩ := threaded.of_slot? found
        exact absurd ⟨id.slot, member, same⟩ absent

/-- The slots in front of and behind the card at a position. -/
theorem Threaded.split (threaded : rack.Threaded order) {position : Nat} {id : CardId}
    (stands : rack.ids[position]? = some id) :
    order = order.take position ++ id.slot :: order.drop (position + 1) ∧
      rack.idAt id.slot = id ∧ position < order.length := by
  rw [threaded.ids_eq, List.getElem?_map, Option.map_eq_some_iff] at stands
  obtain ⟨index, here, rfl⟩ := stands
  obtain ⟨bound, here⟩ := List.getElem?_eq_some_iff.mp here
  refine ⟨?_, rfl, bound⟩
  show order = order.take position ++ index :: order.drop (position + 1)
  rw [← here, ← List.drop_eq_getElem_cons bound, List.take_append_drop]

/-! ## Insertions -/

/-- Cards of the thread stay where they are, and no generation changes. -/
structure Extends (rack : Rack) (order : List Nat) (next : Rack) : Prop where
  cards : ∀ index ∈ order, next.cardAt index = rack.cardAt index
  generations : ∀ (index : Nat) (slot : Slot), rack.slots[index]? = some slot →
    (next.slots[index]?).map Slot.generation = some slot.generation

theorem Extends.idAt_eq (grown : rack.Extends order next) (inside : index < rack.slots.size) :
    next.idAt index = rack.idAt index := by
  have here := Array.getElem?_eq_getElem inside
  unfold idAt
  rw [grown.generations index _ here, here]
  rfl

/-- A deck is put between the slots in front and those behind, in order. -/
theorem Threaded.placeAll (threaded : rack.Threaded (front ++ back)) (cards : Deck) :
    ∃ slots, (rack.placeAll front.getLast? cards).2.Threaded (front ++ slots ++ back) ∧
      slots.map (rack.placeAll front.getLast? cards).2.cardAt = cards.map some ∧
      (rack.placeAll front.getLast? cards).1 = (front ++ slots).getLast? ∧
      rack.Extends (front ++ back) (rack.placeAll front.getLast? cards).2 := by
  induction cards generalizing rack front with
  | nil =>
      refine ⟨[], by simpa [Rack.placeAll] using threaded, rfl, by simp [Rack.placeAll], ?_⟩
      refine ⟨fun _ _ => rfl, ?_⟩
      intro index slot found
      simp [Rack.placeAll, found]
  | cons card rest ih =>
      have placed := threaded.place card
      have outside : (rack.place front.getLast? card).1 ∉ front ++ back :=
        (threaded.allocate card).outside
      have cards := cardAt_place threaded front.getLast? card
      have generations := fun other slot => @generation_place rack _ threaded front.getLast? card
        other slot
      simp only [Rack.placeAll]
      generalize rack.place front.getLast? card = result at placed outside cards generations ⊢
      obtain ⟨index, filled⟩ := result
      have moved : filled.Threaded ((front ++ [index]) ++ back) := by simpa using placed
      obtain ⟨slots, threads, reads, last, grown⟩ := ih moved
      rw [List.getLast?_concat] at threads reads last grown
      refine ⟨index :: slots, by simpa using threads, ?_, by simpa using last, ?_, ?_⟩
      · have here : filled.cardAt index = some card := by simp [cards]
        simp [reads, grown.cards index (by simp), here]
      · intro other member
        have differs : other ≠ index := fun same => outside (same ▸ member)
        rw [grown.cards other (by simp at member ⊢; tauto), cards, if_neg differs]
      · intro other slot found
        obtain ⟨kept, here, same⟩ := Option.map_eq_some_iff.mp (generations other slot found)
        rw [grown.generations other kept here, same]

/-- What an insertion in front of position `n` does to the list and to the addresses. -/
structure Inserts (rack : Rack) (n : Nat) (cards : Deck) (issued : List CardId) (next : Rack) :
    Prop where
  deck : next.toDeck = rack.toDeck.take n ++ cards ++ rack.toDeck.drop n
  addresses : next.ids = rack.ids.take n ++ issued ++ rack.ids.drop n
  length_eq : issued.length = cards.length

theorem Threaded.inserts (threaded : rack.Threaded order) (n : Nat) (cards : Deck) :
    ∃ slots, (rack.placeAll (order.take n).getLast? cards).2.Threaded
        (order.take n ++ slots ++ order.drop n) ∧
      (rack.placeAll (order.take n).getLast? cards).1 = (order.take n ++ slots).getLast? ∧
      rack.Extends order (rack.placeAll (order.take n).getLast? cards).2 ∧
      rack.Inserts n cards (slots.map (rack.placeAll (order.take n).getLast? cards).2.idAt)
        (rack.placeAll (order.take n).getLast? cards).2 := by
  have cut : rack.Threaded (order.take n ++ order.drop n) := by
    rwa [List.take_append_drop]
  obtain ⟨slots, threads, reads, last, grown⟩ := cut.placeAll cards
  rw [List.take_append_drop] at grown
  generalize rack.placeAll (order.take n).getLast? cards = result at threads reads last grown ⊢
  refine ⟨slots, threads, last, grown, ?_, ?_, ?_⟩
  · apply threads.toDeck_eq
    have kept (part : List Nat) (inside : ∀ index ∈ part, index ∈ order) :
        part.map result.2.cardAt = part.map rack.cardAt :=
      List.map_congr_left fun index member => grown.cards index (inside index member)
    rw [List.map_append, List.map_append, reads, kept _ fun _ => List.mem_of_mem_take,
      kept _ fun _ => List.mem_of_mem_drop, List.map_take, List.map_drop, threaded.reads]
    simp
  · have kept (part : List Nat) (inside : ∀ index ∈ part, index ∈ order) :
        part.map result.2.idAt = part.map rack.idAt :=
      List.map_congr_left fun index member =>
        grown.idAt_eq (threaded.lt_size (inside index member))
    rw [threads.ids_eq, threaded.ids_eq, List.map_append, List.map_append,
      kept _ fun _ => List.mem_of_mem_take, kept _ fun _ => List.mem_of_mem_drop,
      List.map_take, List.map_drop]
  · have lengths := congrArg List.length reads
    simpa using lengths

/-- Putting one card in is putting a deck of one card in. -/
theorem place_eq_placeAll (rack : Rack) (anchor : Option Nat) (card : Card) :
    rack.placeAll anchor [card] =
      (some (rack.place anchor card).1, (rack.place anchor card).2) := rfl

/-- A single card is put in, and the address of its slot is told. -/
theorem Threaded.place_inserts (threaded : rack.Threaded order) (n : Nat) (card : Card) :
    ∃ slot, (rack.place (order.take n).getLast? card).1 = slot ∧
      (rack.place (order.take n).getLast? card).2.Threaded
        (order.take n ++ slot :: order.drop n) ∧
      rack.Extends order (rack.place (order.take n).getLast? card).2 ∧
      rack.Inserts n [card] [(rack.place (order.take n).getLast? card).2.idAt slot]
        (rack.place (order.take n).getLast? card).2 := by
  obtain ⟨slots, threads, last, grown, inserts⟩ := threaded.inserts n [card]
  rw [place_eq_placeAll] at threads last grown inserts
  have single : slots.length = 1 := by simpa using inserts.length_eq
  obtain ⟨slot, rfl⟩ := List.length_eq_one_iff.mp single
  rw [List.getLast?_concat] at last
  exact ⟨slot, Option.some.inj last, by simpa using threads, grown, inserts⟩

theorem Threaded.pushBack (threaded : rack.Threaded order) (card : Card) :
    ∃ slot, (rack.pushBack card).2.Threaded (order ++ [slot]) ∧
      rack.Extends order (rack.pushBack card).2 ∧
      rack.Inserts order.length [card] [(rack.pushBack card).1] (rack.pushBack card).2 := by
  obtain ⟨slot, rfl, threads, grown, inserts⟩ := threaded.place_inserts order.length card
  rw [List.take_length, List.drop_length, ← threaded.tail] at threads
  rw [List.take_length, ← threaded.tail] at grown inserts
  exact ⟨_, threads, grown, inserts⟩

theorem Threaded.pushFront (threaded : rack.Threaded order) (card : Card) :
    ∃ slot, (rack.pushFront card).2.Threaded (slot :: order) ∧
      rack.Extends order (rack.pushFront card).2 ∧
      rack.Inserts 0 [card] [(rack.pushFront card).1] (rack.pushFront card).2 := by
  obtain ⟨slot, rfl, threads, grown, inserts⟩ := threaded.place_inserts 0 card
  exact ⟨_, threads, grown, inserts⟩

theorem Threaded.spliceFront (threaded : rack.Threaded order) (cards : Deck) :
    ∃ slots, (rack.spliceFront cards).Threaded (slots ++ order) ∧
      rack.Extends order (rack.spliceFront cards) ∧
      rack.Inserts 0 cards (slots.map (rack.spliceFront cards).idAt) (rack.spliceFront cards) := by
  obtain ⟨slots, threads, -, grown, inserts⟩ := threaded.inserts 0 cards
  exact ⟨slots, threads, grown, inserts⟩

/-- The slots up to a position end in the slot of the card there. -/
theorem Threaded.getLast?_take (threaded : rack.Threaded order) {position : Nat} {id : CardId}
    (stands : rack.ids[position]? = some id) :
    (order.take (position + 1)).getLast? = some id.slot := by
  rw [threaded.ids_eq, List.getElem?_map, Option.map_eq_some_iff] at stands
  obtain ⟨index, here, rfl⟩ := stands
  rw [List.take_add_one, here]
  exact List.getLast?_concat

theorem Threaded.slot?_of_stands (threaded : rack.Threaded order) {position : Nat} {id : CardId}
    (stands : rack.ids[position]? = some id) :
    ∃ card, rack.cardAt id.slot = some card ∧
      rack.slot? id = some ⟨some card, id.generation, (order.take position).getLast?,
        (order.drop (position + 1)).head?⟩ := by
  obtain ⟨whole, same, -⟩ := threaded.split stands
  rw [whole] at threaded
  obtain ⟨card, here, found⟩ := threaded.slot?_idAt
  rw [same] at found
  exact ⟨card, here, found⟩

theorem Threaded.insertAfter (threaded : rack.Threaded order) {position : Nat} {id : CardId}
    (stands : rack.ids[position]? = some id) (card : Card) :
    ∃ new next slot, rack.insertAfter? id card = some (new, next) ∧
      next.Threaded (order.take (position + 1) ++ slot :: order.drop (position + 1)) ∧
      rack.Extends order next ∧ rack.Inserts (position + 1) [card] [new] next := by
  obtain ⟨held, -, found⟩ := threaded.slot?_of_stands stands
  obtain ⟨slot, made, threads, grown, inserts⟩ := threaded.place_inserts (position + 1) card
  rw [threaded.getLast?_take stands] at made threads grown inserts
  subst made
  exact ⟨_, _, _, by rw [insertAfter?, found]; rfl, threads, grown, inserts⟩

theorem Threaded.spliceAfter (threaded : rack.Threaded order) {position : Nat} {id : CardId}
    (stands : rack.ids[position]? = some id) (cards : Deck) :
    ∃ last next slots, rack.spliceAfter? id cards = some (last, next) ∧
      next.Threaded (order.take (position + 1) ++ slots ++ order.drop (position + 1)) ∧
      rack.Extends order next ∧
      rack.Inserts (position + 1) cards (slots.map next.idAt) next ∧
      (rack.ids.take (position + 1) ++ slots.map next.idAt).getLast? = some last := by
  obtain ⟨held, -, found⟩ := threaded.slot?_of_stands stands
  obtain ⟨slots, threads, ends, grown, inserts⟩ := threaded.inserts (position + 1) cards
  have anchored := threaded.getLast?_take stands
  rw [anchored] at threads ends grown inserts
  refine ⟨_, _, slots, by rw [spliceAfter?, found]; rfl, threads, grown, inserts, ?_⟩
  -- the last address is that of the last slot put in, or of the anchor
  have kept : rack.ids.take (position + 1) =
      (order.take (position + 1)).map (rack.placeAll (some id.slot) cards).2.idAt := by
    rw [threaded.ids_eq, List.map_take.symm]
    exact List.map_congr_left fun index member =>
      (grown.idAt_eq (threaded.lt_size (List.mem_of_mem_take member))).symm
  rw [kept, ← List.map_append, List.getLast?_map, ends]
  rw [List.getLast?_append, anchored]
  cases slots.getLast? <;> rfl

/-- The slot of a card stands at the position of the card only. -/
theorem Threaded.apart (threaded : rack.Threaded order) {position : Nat} {id : CardId}
    (stands : rack.ids[position]? = some id) :
    id.slot ∉ order.take position ++ order.drop (position + 1) := by
  have once := threaded.once
  rw [(threaded.split stands).1] at once
  exact (List.nodup_cons.mp (List.perm_middle.nodup_iff.mp once)).1

theorem Threaded.getElem?_toDeck (threaded : rack.Threaded order) {position : Nat} {id : CardId}
    (stands : rack.ids[position]? = some id) :
    rack.toDeck[position]? = rack.cardAt id.slot := by
  have read : (order.map rack.cardAt)[position]? = (rack.toDeck.map some)[position]? := by
    rw [threaded.reads]
  rw [threaded.ids_eq, List.getElem?_map, Option.map_eq_some_iff] at stands
  obtain ⟨index, here, rfl⟩ := stands
  rw [List.getElem?_map, List.getElem?_map, here] at read
  show rack.toDeck[position]? = rack.cardAt index
  cases found : rack.toDeck[position]? with
  | none => simp [found] at read
  | some card => simpa [found] using read.symm

/-! ## Removals and changes -/

theorem idAt_draw {other : Nat} (prev next : Option Nat) (differs : other ≠ index) :
    (rack.draw index prev next).idAt other = rack.idAt other := by
  have apart : ¬ index = other := fun same => differs same.symm
  unfold idAt
  rw [getElem?_draw, Option.map_map]
  congr 3
  funext slot
  simp [apart]

/-- The card at a position is taken out. -/
theorem Threaded.remove (threaded : rack.Threaded order) {position : Nat} {id : CardId}
    (stands : rack.ids[position]? = some id) :
    ∃ card next, rack.remove? id = some (card, next) ∧ rack.toDeck[position]? = some card ∧
      next = rack.draw id.slot (order.take position).getLast? (order.drop (position + 1)).head? ∧
      next.Threaded (order.eraseIdx position) ∧
      next.toDeck = rack.toDeck.eraseIdx position ∧ next.ids = rack.ids.eraseIdx position := by
  obtain ⟨card, here, found⟩ := threaded.slot?_of_stands stands
  obtain ⟨whole, -, bound⟩ := threaded.split stands
  have threads : (rack.draw id.slot (order.take position).getLast?
      (order.drop (position + 1)).head?).Threaded (order.eraseIdx position) := by
    rw [List.eraseIdx_eq_take_drop_succ]
    rw [whole] at threaded
    exact threaded.draw
  have apart : ∀ other ∈ order.eraseIdx position, other ≠ id.slot := by
    rw [List.eraseIdx_eq_take_drop_succ]
    rintro other member rfl
    exact threaded.apart stands member
  refine ⟨card, _, remove?_eq found, by rw [threaded.getElem?_toDeck stands, here], rfl, threads,
    ?_, ?_⟩
  · apply threads.toDeck_eq
    have kept : (order.eraseIdx position).map (rack.draw id.slot (order.take position).getLast?
        (order.drop (position + 1)).head?).cardAt = (order.eraseIdx position).map rack.cardAt := by
      apply List.map_congr_left
      intro other member
      rw [cardAt_draw, if_neg (apart other member)]
    rw [kept, List.eraseIdx_eq_take_drop_succ, List.eraseIdx_eq_take_drop_succ, List.map_append,
      List.map_take, List.map_drop, threaded.reads]
    simp
  · rw [threads.ids_eq, threaded.ids_eq]
    have kept : (order.eraseIdx position).map (rack.draw id.slot (order.take position).getLast?
        (order.drop (position + 1)).head?).idAt = (order.eraseIdx position).map rack.idAt :=
      List.map_congr_left fun other member => idAt_draw _ _ (apart other member)
    rw [kept, List.eraseIdx_eq_take_drop_succ, List.eraseIdx_eq_take_drop_succ, List.map_append,
      List.map_take, List.map_drop]

theorem idAt_edit (rack : Rack) (index : Nat) (change : Card → Card) (other : Nat) :
    (rack.edit index change).idAt other = rack.idAt other := by
  unfold idAt
  rw [generation_edit]

/-- The card at a position is changed. -/
theorem Threaded.modify (threaded : rack.Threaded order) {position : Nat} {id : CardId}
    (stands : rack.ids[position]? = some id) (change : Card → Card) :
    rack.modify? id change = some (rack.edit id.slot change) ∧
      (rack.edit id.slot change).toDeck = rack.toDeck.modify position change ∧
      (rack.edit id.slot change).ids = rack.ids := by
  obtain ⟨card, here, found⟩ := threaded.slot?_of_stands stands
  obtain ⟨whole, -, bound⟩ := threaded.split stands
  have threads := threaded.edit id.slot change
  refine ⟨by rw [modify?, found]; rfl, ?_, ?_⟩
  · have inside : position < rack.toDeck.length := by rwa [threaded.length_toDeck]
    have held : rack.toDeck[position] = card := by
      have read := threaded.getElem?_toDeck stands
      rw [here, List.getElem?_eq_getElem inside] at read
      exact Option.some.inj read
    have kept : ∀ part : List Nat, id.slot ∉ part →
        part.map (rack.edit id.slot change).cardAt = part.map rack.cardAt := by
      intro part absent
      apply List.map_congr_left
      intro other member
      have differs : other ≠ id.slot := fun same => absent (same ▸ member)
      rw [cardAt_edit, if_neg differs]
    have apart : id.slot ∉ order.take position ∧ id.slot ∉ order.drop (position + 1) := by
      simpa using threaded.apart stands
    apply threads.toDeck_eq
    rw [List.modify_eq_take_cons_drop inside, held]
    calc order.map (rack.edit id.slot change).cardAt
        = (order.take position).map rack.cardAt ++
            some (change card) :: (order.drop (position + 1)).map rack.cardAt := by
          conv_lhs => rw [whole]
          rw [List.map_append, List.map_cons, kept _ apart.1, kept _ apart.2, cardAt_edit,
            if_pos rfl, here]
          rfl
      _ = (rack.toDeck.take position ++
            change card :: rack.toDeck.drop (position + 1)).map some := by
          rw [List.map_take, List.map_drop, threaded.reads]
          simp
  · rw [threads.ids_eq, threaded.ids_eq]
    exact List.map_congr_left fun other _ => rack.idAt_edit id.slot change other

/-! ## Copies -/

theorem Threaded.get?_of_stands (threaded : rack.Threaded order) {position : Nat} {id : CardId}
    (stands : rack.ids[position]? = some id) : rack.get? id = rack.toDeck[position]? := by
  obtain ⟨card, here, found⟩ := threaded.slot?_of_stands stands
  rw [threaded.getElem?_toDeck stands, here, get?, found]
  rfl

theorem Threaded.next?_of_stands (threaded : rack.Threaded order) {position : Nat} {id : CardId}
    (stands : rack.ids[position]? = some id) : rack.next? id = rack.ids[position + 1]? := by
  obtain ⟨card, here, found⟩ := threaded.slot?_of_stands stands
  rw [next?, found, threaded.ids_eq, List.getElem?_map]
  simp [List.head?_drop]

theorem Threaded.prev?_of_stands (threaded : rack.Threaded order) {position : Nat} {id : CardId}
    (stands : rack.ids[position]? = some id) :
    rack.prev? id = if position = 0 then none else rack.ids[position - 1]? := by
  obtain ⟨card, here, found⟩ := threaded.slot?_of_stands stands
  rw [prev?, found, threaded.ids_eq, List.getElem?_map]
  cases position with
  | zero => simp
  | succ before =>
      have bound := (threaded.split stands).2.2
      have inside : order[before]? = some order[before] := List.getElem?_eq_getElem (by omega)
      simp [List.getLast?_take, inside]

/-- Walking from a position on meets the cards up to the last one asked for, or all of them. -/
theorem Threaded.walk_eq (threaded : rack.Threaded order) (last : CardId) {bound position : Nat}
    (fits : order.length < bound + position) :
    rack.walk last bound rack.ids[position]? =
      (rack.toDeck.drop position).take ((rack.ids.drop position).idxOf last + 1) := by
  have lengths := threaded.length_toDeck
  have nothing (place : Nat) (past : order.length ≤ place) : rack.toDeck.drop place = [] :=
    List.drop_eq_nil_of_le (by omega)
  induction bound generalizing position with
  | zero =>
      rw [nothing position (by omega), List.take_nil]
      rfl
  | succ bound ih =>
      cases stands : rack.ids[position]? with
      | none =>
          have past : order.length ≤ position := by
            simpa [threaded.ids_eq] using stands
          rw [nothing position past, List.take_nil]
          rfl
      | some id =>
          have later := @ih (position + 1) (by omega)
          obtain ⟨inside, here⟩ := List.getElem?_eq_some_iff.mp stands
          have room : position < rack.toDeck.length := by
            simpa [threaded.ids_eq, lengths] using inside
          rw [walk, threaded.get?_of_stands stands, threaded.next?_of_stands stands, later,
            List.drop_eq_getElem_cons room, List.drop_eq_getElem_cons inside, here,
            List.getElem?_eq_getElem room, List.idxOf_cons]
          by_cases same : id = last
          · simp only [same, if_true, beq_self_eq_true, cond_true]
            rfl
          · simp only [same, if_false, beq_eq_false_iff_ne.mpr same, cond_false,
              List.take_succ_cons]
            rfl

theorem Threaded.foldl_pushBack (threaded : rack.Threaded order) (cards : Deck) :
    ∃ slots, (cards.foldl (fun rack card => (rack.pushBack card).2) rack).Threaded slots ∧
      (cards.foldl (fun rack card => (rack.pushBack card).2) rack).toDeck =
        rack.toDeck ++ cards := by
  induction cards generalizing rack order with
  | nil => exact ⟨order, threaded, by simp⟩
  | cons card rest ih =>
      obtain ⟨slot, threads, -, inserts⟩ := threaded.pushBack card
      obtain ⟨slots, final, whole⟩ := ih threads
      have added : (rack.pushBack card).2.toDeck = rack.toDeck ++ [card] := by
        simpa [← threaded.length_toDeck] using inserts.deck
      exact ⟨slots, final, by rw [List.foldl_cons, whole, added]; simp⟩

theorem threaded_ofDeck (cards : Deck) : ∃ order, (ofDeck cards).Threaded order := by
  obtain ⟨slots, threads, -⟩ := threaded_empty.foldl_pushBack cards
  exact ⟨slots, threads⟩

/-- A deck that is put into a rack is read back. -/
theorem toDeck_ofDeck (cards : Deck) : (ofDeck cards).toDeck = cards := by
  obtain ⟨slots, -, whole⟩ := threaded_empty.foldl_pushBack cards
  exact whole

/-! ## Every state of a rack -/

/-- What may be done to a rack in place. -/
inductive Edit where
  | pushBack (card : Card)
  | pushFront (card : Card)
  | insertAfter (id : CardId) (card : Card)
  | remove (id : CardId)
  /-- Disabling a card, noting an error on it or rewriting it. -/
  | modify (id : CardId) (change : Card → Card)
  | spliceAfter (id : CardId) (cards : Deck)
  | spliceFront (cards : Deck)
  /-- All cards are dropped, and the slots with them. -/
  | clear

/-- The edit puts cards in. -/
def Edit.isInsertion : Edit → Bool
  | .pushBack _ | .pushFront _ | .insertAfter _ _ | .spliceAfter _ _ | .spliceFront _ => true
  | .remove _ | .modify _ _ | .clear => false

/-- The address at which an edit is made. -/
def Edit.target? : Edit → Option CardId
  | .insertAfter id _ | .remove id | .modify id _ | .spliceAfter id _ => some id
  | .pushBack _ | .pushFront _ | .spliceFront _ | .clear => none

/-- The rack after an edit; one at an address that finds nothing is refused. -/
def Edit.apply (rack : Rack) : Edit → Rack
  | .pushBack card => (rack.pushBack card).2
  | .pushFront card => (rack.pushFront card).2
  | .insertAfter id card => ((rack.insertAfter? id card).map Prod.snd).getD rack
  | .remove id => ((rack.remove? id).map Prod.snd).getD rack
  | .modify id change => (rack.modify? id change).getD rack
  | .spliceAfter id cards => ((rack.spliceAfter? id cards).map Prod.snd).getD rack
  | .spliceFront cards => rack.spliceFront cards
  | .clear => empty

/-- The racks there can be.  A plain copy is the rack itself, so it needs no rule. -/
inductive Reachable : Rack → Prop where
  | empty : Reachable empty
  | ofDeck (cards : Deck) : Reachable (ofDeck cards)
  | edit {rack : Rack} (before : Reachable rack) (edit : Edit) : Reachable (edit.apply rack)
  | compact {rack : Rack} (before : Reachable rack) : Reachable rack.compact
  | copyRange {rack : Rack} (before : Reachable rack) (first last : CardId) :
      Reachable (rack.copyRange first last)

/-- The operations at an address that is not that of a present card are refused. -/
theorem Threaded.refused (threaded : rack.Threaded order) {id : CardId} (stale : id ∉ rack.ids) :
    rack.get? id = none ∧ rack.next? id = none ∧ rack.prev? id = none ∧
      (∀ card, rack.insertAfter? id card = none) ∧ rack.remove? id = none ∧
      (∀ change, rack.modify? id change = none) ∧
      (∀ cards, rack.spliceAfter? id cards = none) ∧
      ∀ last, (rack.copyRange id last).toDeck = [] := by
  have nothing := threaded.slot?_eq_none_iff.mpr stale
  have lost : rack.get? id = none := by rw [get?, nothing]; rfl
  have alone : rack.next? id = none := by rw [next?, nothing]; rfl
  refine ⟨lost, alone, ?_, ?_, ?_, ?_, ?_, ?_⟩
  · rw [prev?, nothing]
    rfl
  · intro card
    rw [insertAfter?, nothing]
    rfl
  · rw [remove?, nothing]
  · intro change
    rw [modify?, nothing]
    rfl
  · intro cards
    rw [spliceAfter?, nothing]
    rfl
  · intro last
    rw [copyRange, toDeck_ofDeck, walk, lost, alone]
    cases rack.slots.size <;> simp [walk]

/-- What an edit does to a threaded rack, one rule for each way. -/
inductive Does (rack : Rack) (order : List Nat) : Edit → Rack → Prop where
  /-- Cards are put in, and nothing else changes. -/
  | inserts {edit : Edit} {next : Rack} {slots : List Nat} (inserts : edit.isInsertion = true)
      (threads : next.Threaded slots) (grown : rack.Extends order next) :
      Does rack order edit next
  | removes {id : CardId} {position : Nat} (stands : rack.ids[position]? = some id) :
      Does rack order (.remove id) (rack.draw id.slot (order.take position).getLast?
        (order.drop (position + 1)).head?)
  | modifies {id : CardId} {position : Nat} (change : Card → Card)
      (stands : rack.ids[position]? = some id) :
      Does rack order (.modify id change) (rack.edit id.slot change)
  /-- The address finds nothing, and nothing changes. -/
  | refuses {edit : Edit} {id : CardId} (target : edit.target? = some id)
      (stale : id ∉ rack.ids) : Does rack order edit rack
  | clears : Does rack order .clear empty

theorem Edit.does (edit : Edit) (threaded : rack.Threaded order) :
    Does rack order edit (edit.apply rack) := by
  have placed (id : CardId) : id ∉ rack.ids ∨ ∃ position : Nat, rack.ids[position]? = some id := by
    by_cases present : id ∈ rack.ids
    · exact .inr (List.getElem?_of_mem present)
    · exact .inl present
  cases edit with
  | pushBack card =>
      obtain ⟨slot, threads, grown, -⟩ := threaded.pushBack card
      exact .inserts rfl threads grown
  | pushFront card =>
      obtain ⟨slot, threads, grown, -⟩ := threaded.pushFront card
      exact .inserts rfl threads grown
  | spliceFront cards =>
      obtain ⟨slots, threads, grown, -⟩ := threaded.spliceFront cards
      exact .inserts rfl threads grown
  | clear => exact .clears
  | insertAfter id card =>
      rcases placed id with stale | ⟨position, stands⟩
      · rw [apply, (threaded.refused stale).2.2.2.1 card]
        exact .refuses rfl stale
      · obtain ⟨new, next, slot, made, threads, grown, -⟩ := threaded.insertAfter stands card
        rw [apply, made]
        exact .inserts rfl threads grown
  | spliceAfter id cards =>
      rcases placed id with stale | ⟨position, stands⟩
      · rw [apply, (threaded.refused stale).2.2.2.2.2.2.1 cards]
        exact .refuses rfl stale
      · obtain ⟨last, next, slots, made, threads, grown, -⟩ := threaded.spliceAfter stands cards
        rw [apply, made]
        exact .inserts rfl threads grown
  | remove id =>
      rcases placed id with stale | ⟨position, stands⟩
      · rw [apply, (threaded.refused stale).2.2.2.2.1]
        exact .refuses rfl stale
      · obtain ⟨card, next, made, -, rfl, -⟩ := threaded.remove stands
        rw [apply, made]
        exact .removes stands
  | modify id change =>
      rcases placed id with stale | ⟨position, stands⟩
      · rw [apply, (threaded.refused stale).2.2.2.2.2.1 change]
        exact .refuses rfl stale
      · rw [apply, (threaded.modify stands change).1]
        exact .modifies change stands

theorem Does.threaded {edit : Edit} (does : Does rack order edit next)
    (threaded : rack.Threaded order) : ∃ slots, next.Threaded slots := by
  cases does with
  | inserts inserts threads grown => exact ⟨_, threads⟩
  | removes stands =>
      obtain ⟨card, next, -, -, rfl, threads, -⟩ := threaded.remove stands
      exact ⟨_, threads⟩
  | modifies change stands => exact ⟨order, threaded.edit _ change⟩
  | refuses target stale => exact ⟨order, threaded⟩
  | clears => exact ⟨[], threaded_empty⟩

/-- However a rack came about, it is threaded. -/
theorem Reachable.threaded (reachable : rack.Reachable) : ∃ order, rack.Threaded order := by
  induction reachable with
  | empty => exact ⟨[], threaded_empty⟩
  | ofDeck cards => exact threaded_ofDeck cards
  | edit before edit ih =>
      obtain ⟨order, threaded⟩ := ih
      exact (edit.does threaded).threaded threaded
  | compact before ih => exact threaded_ofDeck _
  | copyRange before first last ih => exact threaded_ofDeck _

/-! ## The shape of a rack -/

/-- Following `link` from a slot on meets these slots and then comes to an end. -/
inductive Follows (link : Nat → Option Nat) : Option Nat → List Nat → Prop where
  | done : Follows link none []
  | step {index : Nat} {rest : List Nat} (tail : Follows link (link index) rest) :
      Follows link (some index) (index :: rest)

/-- The links lead through every card once, forwards and backwards alike, and the vacant slots are
those without a card. -/
structure WellFormed (rack : Rack) : Prop where
  forwards : Follows (fun index => (rack.slots[index]?).bind Slot.next) rack.head rack.order
  backwards :
    Follows (fun index => (rack.slots[index]?).bind Slot.prev) rack.tail rack.order.reverse
  once : rack.order.Nodup
  occupied : ∀ index, index ∈ rack.order ↔ (rack.cardAt index).isSome = true
  vacant_once : rack.vacant.Nodup
  vacant : ∀ index, index ∈ rack.vacant ↔ ∃ slot, rack.slots[index]? = some slot ∧ slot.card = none
  counted : rack.size = rack.order.length

theorem Threaded.forwards (threaded : rack.Threaded (front ++ back)) :
    Follows (fun index => (rack.slots[index]?).bind Slot.next) back.head? back := by
  induction back generalizing front with
  | nil => exact .done
  | cons index rest ih =>
      obtain ⟨card, generation, here⟩ := threaded.linked rfl
      have moved : rack.Threaded ((front ++ [index]) ++ rest) := by simpa using threaded
      refine .step ?_
      simpa [here] using ih moved

theorem Threaded.backwards (threaded : rack.Threaded (front ++ back)) :
    Follows (fun index => (rack.slots[index]?).bind Slot.prev) front.getLast? front.reverse := by
  induction front using List.reverseRecOn generalizing back with
  | nil => exact .done
  | append_singleton before index ih =>
      have moved : rack.Threaded (before ++ index :: back) := by simpa using threaded
      obtain ⟨card, generation, here⟩ := moved.linked rfl
      rw [List.getLast?_concat, List.reverse_append]
      refine .step ?_
      simpa [here] using ih moved

theorem Threaded.wellFormed (threaded : rack.Threaded order) : rack.WellFormed := by
  have whole : rack.Threaded ([] ++ order) := threaded
  have ended : rack.Threaded (order ++ []) := by simpa using threaded
  have same := threaded.order_eq
  refine ⟨?_, ?_, same ▸ threaded.once, ?_, threaded.vacant_once, ?_, same ▸ threaded.counted⟩
  · rw [same, threaded.head]
    exact whole.forwards
  · rw [same, threaded.tail]
    exact ended.backwards
  · intro index
    rw [same]
    constructor
    · intro member
      obtain ⟨card, here⟩ := threaded.occupied member
      rw [here]
      rfl
    · intro held
      obtain ⟨card, here⟩ := Option.isSome_iff_exists.mp held
      exact threaded.mem_of_cardAt here
  · intro index
    constructor
    · intro listed
      obtain ⟨generation, empty⟩ := threaded.vacated index listed
      exact ⟨_, empty, rfl⟩
    · rintro ⟨slot, here, empty⟩
      rcases threaded.covered index (Array.getElem?_eq_some_iff.mp here).1 with member | listed
      · obtain ⟨card, held⟩ := threaded.occupied member
        simp [cardAt, here, empty] at held
      · exact listed

/-- The cards met along the links, up to the first slot that holds none. -/
def iterate (rack : Rack) : Deck :=
  ((rack.order.map rack.cardAt).takeWhile Option.isSome).filterMap id

/-- What is read from a rack agrees with the list of its addresses and the list of its cards. -/
structure ReadsAsList (rack : Rack) : Prop where
  size_eq : rack.size = rack.toDeck.length
  length_ids : rack.ids.length = rack.toDeck.length
  iterate_eq : rack.iterate = rack.toDeck
  first : rack.first? = rack.ids.head?
  last : rack.last? = rack.ids.getLast?
  get {position : Nat} {id : CardId} (stands : rack.ids[position]? = some id) :
    rack.get? id = rack.toDeck[position]?
  next {position : Nat} {id : CardId} (stands : rack.ids[position]? = some id) :
    rack.next? id = rack.ids[position + 1]?
  prev {position : Nat} {id : CardId} (stands : rack.ids[position]? = some id) :
    rack.prev? id = if position = 0 then none else rack.ids[position - 1]?
  /-- A range up to a card that is not in front of its first one has both ends. -/
  range {start stop : Nat} {first last : CardId} (begins : rack.ids[start]? = some first)
    (ends : rack.ids[stop]? = some last) (ordered : start ≤ stop) :
    (rack.copyRange first last).toDeck = (rack.toDeck.take (stop + 1)).drop start
  /-- Any other range goes on to the end. -/
  rest {start : Nat} {first last : CardId} (begins : rack.ids[start]? = some first)
    (missing : ∀ stop, start ≤ stop → rack.ids[stop]? ≠ some last) :
    (rack.copyRange first last).toDeck = rack.toDeck.drop start

/-- What is done to a rack is done to the list of its cards, and the addresses go with the cards. -/
structure EditsAsList (rack : Rack) : Prop where
  pushBack (card : Card) :
    (rack.pushBack card).2.toDeck = rack.toDeck ++ [card] ∧
      (rack.pushBack card).2.ids = rack.ids ++ [(rack.pushBack card).1]
  pushFront (card : Card) :
    (rack.pushFront card).2.toDeck = card :: rack.toDeck ∧
      (rack.pushFront card).2.ids = (rack.pushFront card).1 :: rack.ids
  spliceFront (cards : Deck) :
    (rack.spliceFront cards).toDeck = cards ++ rack.toDeck ∧
      ∃ issued, (rack.spliceFront cards).ids = issued ++ rack.ids
  insertAfter {position : Nat} {id : CardId} (stands : rack.ids[position]? = some id)
    (card : Card) :
    ∃ new next, rack.insertAfter? id card = some (new, next) ∧
      next.toDeck =
        rack.toDeck.take (position + 1) ++ [card] ++ rack.toDeck.drop (position + 1) ∧
      next.ids = rack.ids.take (position + 1) ++ [new] ++ rack.ids.drop (position + 1)
  spliceAfter {position : Nat} {id : CardId} (stands : rack.ids[position]? = some id)
    (cards : Deck) :
    ∃ last next issued, rack.spliceAfter? id cards = some (last, next) ∧
      next.toDeck = rack.toDeck.take (position + 1) ++ cards ++ rack.toDeck.drop (position + 1) ∧
      next.ids = rack.ids.take (position + 1) ++ issued ++ rack.ids.drop (position + 1) ∧
      (rack.ids.take (position + 1) ++ issued).getLast? = some last
  remove {position : Nat} {id : CardId} (stands : rack.ids[position]? = some id) :
    ∃ card next, rack.remove? id = some (card, next) ∧ rack.toDeck[position]? = some card ∧
      next.toDeck = rack.toDeck.eraseIdx position ∧ next.ids = rack.ids.eraseIdx position
  modify {position : Nat} {id : CardId} (stands : rack.ids[position]? = some id)
    (change : Card → Card) :
    ∃ next, rack.modify? id change = some next ∧
      next.toDeck = rack.toDeck.modify position change ∧ next.ids = rack.ids
  compact : rack.compact.toDeck = rack.toDeck
  stale {id : CardId} (stale : id ∉ rack.ids) :
    rack.get? id = none ∧ rack.next? id = none ∧ rack.prev? id = none ∧
      (∀ last, (rack.copyRange id last).toDeck = []) ∧
      ∀ edit : Edit, edit.target? = some id → edit.apply rack = rack

theorem Threaded.toDeck_copyRange (threaded : rack.Threaded order) {start : Nat}
    {first : CardId} (last : CardId) (begins : rack.ids[start]? = some first) :
    (rack.copyRange first last).toDeck =
      (rack.toDeck.drop start).take ((rack.ids.drop start).idxOf last + 1) := by
  have fits : order.length < rack.slots.size + 1 + start := by
    have := threaded.length_le
    omega
  rw [copyRange, toDeck_ofDeck, ← begins, threaded.walk_eq last fits]

theorem Threaded.nodup_ids (threaded : rack.Threaded order) : rack.ids.Nodup := by
  rw [threaded.ids_eq]
  exact List.Nodup.map (fun _ _ same => congrArg CardId.slot same) threaded.once

theorem Threaded.readsAsList (threaded : rack.Threaded order) : rack.ReadsAsList := by
  have lengths := threaded.length_toDeck
  have addresses : rack.ids.length = rack.toDeck.length := by simp [threaded.ids_eq, lengths]
  refine ⟨by rw [threaded.counted, lengths], addresses, ?_, ?_, ?_,
    threaded.get?_of_stands, threaded.next?_of_stands, threaded.prev?_of_stands, ?_, ?_⟩
  · have filled : (rack.toDeck.map some).takeWhile Option.isSome = rack.toDeck.map some :=
      List.takeWhile_eq_self_iff.mpr (by simp)
    rw [iterate, threaded.order_eq, threaded.reads, filled, List.filterMap_map]
    exact List.filterMap_some
  · rw [first?, threaded.head, threaded.ids_eq, List.head?_map]
  · rw [last?, threaded.tail, threaded.ids_eq, List.getLast?_map]
  · intro start stop first last begins ends ordered
    have found : (rack.ids.drop start).idxOf last = stop - start := by
      have there : (rack.ids.drop start)[stop - start]? = some last := by
        rw [List.getElem?_drop, Nat.add_sub_cancel' ordered, ends]
      obtain ⟨inside, rfl⟩ := List.getElem?_eq_some_iff.mp there
      exact List.Nodup.idxOf_getElem (threaded.nodup_ids.drop) _ inside
    rw [threaded.toDeck_copyRange last begins, found, List.drop_take]
    congr 1
    omega
  · intro start first last begins missing
    have absent : last ∉ rack.ids.drop start := by
      intro member
      obtain ⟨offset, there⟩ := List.getElem?_of_mem member
      rw [List.getElem?_drop] at there
      exact missing (start + offset) (Nat.le_add_right ..) there
    rw [threaded.toDeck_copyRange last begins, List.idxOf_eq_length absent]
    apply List.take_of_length_le
    simp [addresses]

theorem Threaded.editsAsList (threaded : rack.Threaded order) : rack.EditsAsList := by
  have ended : order.length = rack.toDeck.length := threaded.length_toDeck.symm
  have addressed : order.length = rack.ids.length := by simp [threaded.ids_eq]
  constructor
  · intro card
    obtain ⟨-, -, -, inserts⟩ := threaded.pushBack card
    exact ⟨by simpa [ended] using inserts.deck, by simpa [addressed] using inserts.addresses⟩
  · intro card
    obtain ⟨-, -, -, inserts⟩ := threaded.pushFront card
    exact ⟨by simpa using inserts.deck, by simpa using inserts.addresses⟩
  · intro cards
    obtain ⟨slots, -, -, inserts⟩ := threaded.spliceFront cards
    exact ⟨by simpa using inserts.deck, _, by simpa using inserts.addresses⟩
  · intro position id stands card
    obtain ⟨new, next, -, made, -, -, inserts⟩ := threaded.insertAfter stands card
    exact ⟨new, next, made, inserts.deck, inserts.addresses⟩
  · intro position id stands cards
    obtain ⟨last, next, slots, made, -, -, inserts, ends⟩ := threaded.spliceAfter stands cards
    exact ⟨last, next, _, made, inserts.deck, inserts.addresses, ends⟩
  · intro position id stands
    obtain ⟨card, next, made, here, -, -, cards, addresses⟩ := threaded.remove stands
    exact ⟨card, next, made, here, cards, addresses⟩
  · intro position id stands change
    obtain ⟨made, cards, addresses⟩ := threaded.modify stands change
    exact ⟨_, made, cards, addresses⟩
  · exact toDeck_ofDeck rack.toDeck
  · intro id stale
    obtain ⟨lost, alone, first, inserted, removed, modified, spliced, copied⟩ :=
      threaded.refused stale
    refine ⟨lost, alone, first, copied, ?_⟩
    intro edit target
    cases edit <;> cases target <;> simp [Edit.apply, inserted, removed, modified, spliced]

/-- A rack is a list of cards.  However it came about, its links are in order, everything that is
read from it is read from the list, and everything that is done to it is done to the list. -/
theorem list_of_reachable (reachable : rack.Reachable) :
    rack.WellFormed ∧ rack.ReadsAsList ∧ rack.EditsAsList ∧
      (∀ cards, (ofDeck cards).toDeck = cards) ∧ empty.toDeck = [] := by
  obtain ⟨order, threaded⟩ := reachable.threaded
  exact ⟨threaded.wellFormed, threaded.readsAsList, threaded.editsAsList, toDeck_ofDeck, rfl⟩

/-- A card is taken out of the middle and two are spliced in, one of them into the slot that
became vacant. -/
theorem list_of_reachable_reused :
    let card (text : String) : Card := { text := text.toList }
    let rack := (Edit.spliceAfter ⟨0, 0⟩ [card "d", card "e"]).apply
      ((Edit.remove ⟨1, 0⟩).apply (ofDeck [card "a", card "b", card "c"]))
    rack.toDeck = [card "a", card "d", card "e", card "c"] ∧ rack.order = [0, 1, 3, 2] ∧
      rack.WellFormed ∧ rack.ReadsAsList ∧ rack.EditsAsList := by
  intro card rack
  have reachable : rack.Reachable := .edit (.edit (.ofDeck _) _) _
  obtain ⟨formed, reads, edits, -⟩ := list_of_reachable reachable
  exact ⟨by decide +kernel, by decide +kernel, formed, reads, edits⟩

end Rack

end Netlist

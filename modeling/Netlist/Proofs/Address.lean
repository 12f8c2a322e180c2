import Netlist.Proofs.RackList

/-!
# What an address denotes

The address of a card goes on denoting that card through every edit of the
rack, until the card is taken out.  From then on it finds nothing, also when
its slot is filled again: each time a card is taken out of a slot the slot is
one generation older, and only after as many removals as there are generations
could an old address come back.  Clearing a rack forgets the generations, and
an address from before may then find a new card.
-/

namespace Netlist

namespace Rack

variable {rack next : Rack} {order : List Nat} {id : CardId}

/-! ## The fate of a card -/

/-- What an edit leaves of the card at an address, if every other card has another address. -/
def Edit.onCard (id : CardId) (card : Card) : Edit → Option Card
  | .remove other => if other = id then none else some card
  | .modify other change => some (if other = id then change card else card)
  | .clear => none
  | .pushBack _ | .pushFront _ | .insertAfter _ _ | .spliceAfter _ _ | .spliceFront _ => some card

theorem Edit.onCard_of_isInsertion {edit : Edit} (inserts : edit.isInsertion = true) (card : Card) :
    edit.onCard id card = some card := by
  cases edit with
  | remove other => cases inserts
  | modify other change => cases inserts
  | clear => cases inserts
  | _ => rfl

/-- What becomes of the card at an address: the edits at this address, until it is removed. -/
def fate (id : CardId) (card : Option Card) (edits : List Edit) : Option Card :=
  edits.foldl (fun card edit => card.bind fun card => edit.onCard id card) card

theorem fate_none (id : CardId) (edits : List Edit) : fate id none edits = none := by
  unfold fate
  induction edits with
  | nil => rfl
  | cons edit rest ih => exact ih

/-- A card that is removed is gone for good. -/
theorem fate_eq_none_of_removed {card : Option Card} {edits : List Edit}
    (removed : Edit.remove id ∈ edits) : fate id card edits = none := by
  induction edits generalizing card with
  | nil => cases removed
  | cons edit rest ih =>
      rcases List.mem_cons.mp removed with rfl | later
      · have gone : (card.bind fun card => (Edit.remove id).onCard id card) = none := by
          cases card <;> simp [Edit.onCard]
        show fate id (card.bind fun card => (Edit.remove id).onCard id card) rest = none
        rw [gone, fate_none]
      · exact ih later

/-! ## Generations -/

/-- The edit takes a card out. -/
def Edit.removes (rack : Rack) : Edit → Bool
  | .remove id => (rack.slot? id).isSome
  | _ => false

/-- How many cards a run of edits takes out. -/
def removals : Rack → List Edit → Nat
  | _, [] => 0
  | rack, edit :: rest => (if edit.removes rack then 1 else 0) + removals (edit.apply rack) rest

/-- The slot of an address is `age` generations on, and holds the card as long as it is none. -/
structure Tracks (rack : Rack) (id : CardId) (card : Option Card) (age : Nat) : Prop where
  generation : (rack.slots[id.slot]?).map Slot.generation =
    some (id.generation + UInt32.ofNat age)
  present : ∀ held, card = some held → age = 0 ∧ rack.cardAt id.slot = some held
  gone : card = none → 0 < age

theorem tracks_of_get? {card : Card} (found : rack.get? id = some card) :
    rack.Tracks id (some card) 0 := by
  obtain ⟨slot, valid, held⟩ := Option.bind_eq_some_iff.mp found
  unfold slot? at valid
  split at valid
  · cases valid
  next here =>
    split at valid
    next current =>
      cases valid
      simp only [Bool.and_eq_true, decide_eq_true_eq] at current
      refine ⟨by simp [here, current.1], ?_, by simp⟩
      rintro other ⟨⟩
      exact ⟨rfl, by simp [cardAt, here, held]⟩
    · cases valid

/-- A slot of the first generation that an address knows has that address now. -/
theorem Tracks.idAt_eq {card : Card} {age : Nat} (tracks : rack.Tracks id (some card) age) :
    rack.idAt id.slot = id := by
  have young := (tracks.present card rfl).1
  have generation := tracks.generation
  rw [young] at generation
  unfold idAt
  rw [generation]
  simp

theorem Tracks.mem_ids {card : Card} {age : Nat} (tracks : rack.Tracks id (some card) age)
    (threaded : rack.Threaded order) : id ∈ rack.ids := by
  rw [threaded.ids_eq, List.mem_map]
  exact ⟨id.slot, threaded.mem_of_cardAt (tracks.present card rfl).2, tracks.idAt_eq⟩

/-- While less than all generations have passed, the address finds the card or nothing. -/
theorem Tracks.get?_eq {card : Option Card} {age : Nat} (tracks : rack.Tracks id card age)
    (young : age < UInt32.size) : rack.get? id = card := by
  obtain ⟨slot, here, generation⟩ := Option.map_eq_some_iff.mp tracks.generation
  cases card with
  | some held =>
      obtain ⟨rfl, occupied⟩ := tracks.present held rfl
      have card_eq : slot.card = some held := by simpa [cardAt, here] using occupied
      have same : slot.generation = id.generation := by simpa using generation
      simp [get?, slot?, here, same, card_eq]
  | none =>
      have aged : slot.generation ≠ id.generation := by
        have old := tracks.gone rfl
        rw [generation]
        intro same
        have zero : UInt32.ofNat age = 0 := by simpa using same
        have wrapped : age % UInt32.size = 0 := congrArg UInt32.toNat zero
        rw [Nat.mod_eq_of_lt young] at wrapped
        omega
      simp [get?, slot?, here, aged]

/-! ## Runs -/

/-- A slot that is neither aged nor changed is tracked as before. -/
theorem Tracks.of_same {card : Option Card} {age : Nat} (tracks : rack.Tracks id card age)
    (generation : (next.slots[id.slot]?).map Slot.generation =
      (rack.slots[id.slot]?).map Slot.generation)
    (cards : ∀ held, card = some held → next.cardAt id.slot = rack.cardAt id.slot) :
    next.Tracks id card age := by
  refine ⟨generation.trans tracks.generation, ?_, tracks.gone⟩
  intro held here
  obtain ⟨young, occupied⟩ := tracks.present held here
  exact ⟨young, (cards held here).trans occupied⟩

/-- Two addresses of one slot are the same if both find a card. -/
theorem Tracks.eq_of_slot {other : CardId} {card : Card} {age position : Nat}
    (tracks : rack.Tracks id (some card) age) (threaded : rack.Threaded order)
    (stands : rack.ids[position]? = some other) (same : other.slot = id.slot) : other = id := by
  rw [← tracks.idAt_eq, ← same, (threaded.split stands).2.1]

/-- A card leaves a slot one generation older and takes the address of no other card with it. -/
theorem Tracks.draw {other : CardId} {card : Option Card} {age position : Nat}
    (tracks : rack.Tracks id card age) (threaded : rack.Threaded order)
    (stands : rack.ids[position]? = some other) (prev behind : Option Nat) :
    ∃ older, (rack.draw other.slot prev behind).Tracks id
        (card.bind fun card => (Edit.remove other).onCard id card) older ∧ older ≤ age + 1 := by
  by_cases same : other.slot = id.slot
  · have gone : (card.bind fun card => (Edit.remove other).onCard id card) = none := by
      cases card with
      | none => rfl
      | some held => simp [Edit.onCard, tracks.eq_of_slot threaded stands same]
    obtain ⟨slot, here, generation⟩ := Option.map_eq_some_iff.mp tracks.generation
    refine ⟨age + 1, ?_, Nat.le_refl _⟩
    rw [gone]
    refine ⟨?_, by simp, fun _ => Nat.succ_pos age⟩
    rw [getElem?_draw, here]
    simp [same, generation, UInt32.ofNat_add, UInt32.add_assoc]
  · have differs : other ≠ id := fun equal => same (congrArg CardId.slot equal)
    have unharmed : (card.bind fun card => (Edit.remove other).onCard id card) = card := by
      cases card <;> simp [Edit.onCard, differs]
    refine ⟨age, ?_, Nat.le_succ age⟩
    rw [unharmed]
    refine tracks.of_same ?_ ?_
    · rw [getElem?_draw, Option.map_map]
      congr 1
      funext slot
      simp [same]
    · intro held _
      rw [cardAt_draw, if_neg fun equal => same equal.symm]

/-- A change reaches the card at its own address and no other. -/
theorem Tracks.edit {other : CardId} {card : Option Card} {age position : Nat}
    (tracks : rack.Tracks id card age) (threaded : rack.Threaded order)
    (stands : rack.ids[position]? = some other) (change : Card → Card) :
    (rack.edit other.slot change).Tracks id
      (card.bind fun card => (Edit.modify other change).onCard id card) age := by
  refine ⟨(generation_edit rack _ _ _).trans tracks.generation, ?_, ?_⟩
  · intro held here
    obtain ⟨before, rfl, changed⟩ := Option.bind_eq_some_iff.mp here
    obtain ⟨young, occupied⟩ := tracks.present before rfl
    have image : (if other = id then change before else before) = held := Option.some.inj changed
    refine ⟨young, ?_⟩
    rw [cardAt_edit, occupied, ← image]
    by_cases same : other.slot = id.slot
    · rw [if_pos same.symm, if_pos (tracks.eq_of_slot threaded stands same)]
      rfl
    · rw [if_neg fun equal => same equal.symm,
        if_neg fun equal => same (congrArg CardId.slot equal)]
  · intro nothing
    apply tracks.gone
    cases card with
    | none => rfl
    | some held => simp [Edit.onCard] at nothing

/-- One edit does to the card at an address what it should, and only a removal ages a slot. -/
theorem Does.tracks {edit : Edit} {card : Option Card} {age : Nat}
    (does : Does rack order edit next) (threaded : rack.Threaded order)
    (kept : edit ≠ .clear) (tracks : rack.Tracks id card age) :
    ∃ older, next.Tracks id (card.bind fun card => edit.onCard id card) older ∧
      older ≤ age + if edit.removes rack then 1 else 0 := by
  cases does with
  | inserts inserts threads grown =>
      have unharmed : (card.bind fun card => edit.onCard id card) = card := by
        cases card with
        | none => rfl
        | some held => exact Edit.onCard_of_isInsertion inserts held
      obtain ⟨slot, here, -⟩ := Option.map_eq_some_iff.mp tracks.generation
      refine ⟨age, ?_, Nat.le_add_right ..⟩
      rw [unharmed]
      refine tracks.of_same (by rw [grown.generations _ slot here, here]; rfl) ?_
      rintro held rfl
      exact grown.cards _ (threaded.mem_of_cardAt (tracks.present held rfl).2)
  | removes stands =>
      obtain ⟨older, aged, bound⟩ := tracks.draw threaded stands _ _
      obtain ⟨held, -, found⟩ := threaded.slot?_of_stands stands
      exact ⟨older, aged, by simpa [Edit.removes, found] using bound⟩
  | modifies change stands =>
      exact ⟨age, tracks.edit threaded stands change, Nat.le_add_right ..⟩
  | @refuses _ other target stale =>
      have unharmed : (card.bind fun card => edit.onCard id card) = card := by
        cases card with
        | none => rfl
        | some held =>
            have differs : other ≠ id := fun same => stale (same ▸ tracks.mem_ids threaded)
            cases edit <;> cases target <;> simp [Edit.onCard, differs]
      exact ⟨age, by rwa [unharmed], Nat.le_add_right ..⟩
  | clears => exact absurd rfl kept

theorem Threaded.foldl (threaded : rack.Threaded order) (edits : List Edit) :
    ∃ slots, (edits.foldl Edit.apply rack).Threaded slots := by
  induction edits generalizing rack order with
  | nil => exact ⟨order, threaded⟩
  | cons edit rest ih =>
      obtain ⟨slots, threads⟩ := (edit.does threaded).threaded threaded
      exact ih threads

/-- Along a run of edits the card at an address meets its fate, and nothing else happens to it. -/
theorem Tracks.foldl {card : Option Card} {age : Nat} (tracks : rack.Tracks id card age)
    (threaded : rack.Threaded order) {edits : List Edit} (kept : Edit.clear ∉ edits) :
    ∃ older, (edits.foldl Edit.apply rack).Tracks id (fate id card edits) older ∧
      older ≤ age + removals rack edits := by
  induction edits generalizing rack order card age with
  | nil => exact ⟨age, tracks, Nat.le_refl _⟩
  | cons edit rest ih =>
      have here : edit ≠ .clear := fun same => kept (same ▸ List.mem_cons_self ..)
      have does := edit.does threaded
      obtain ⟨older, aged, bound⟩ := does.tracks threaded here tracks
      obtain ⟨slots, threads⟩ := does.threaded threaded
      obtain ⟨final, reached, total⟩ :=
        ih aged threads fun member => kept (List.mem_cons_of_mem _ member)
      refine ⟨final, reached, ?_⟩
      rw [removals]
      omega

/-! ## Addresses that are told -/

/-- An operation on a rack tells this address and leaves the rack so. -/
inductive Issues : Rack → CardId → Prop where
  | pushBack {rack : Rack} (before : rack.Reachable) (card : Card) :
      Issues (rack.pushBack card).2 (rack.pushBack card).1
  | pushFront {rack : Rack} (before : rack.Reachable) (card : Card) :
      Issues (rack.pushFront card).2 (rack.pushFront card).1
  | insertAfter {rack next : Rack} {id new : CardId} {card : Card} (before : rack.Reachable)
      (told : rack.insertAfter? id card = some (new, next)) : Issues next new
  | spliceAfter {rack next : Rack} {id last : CardId} {cards : Deck} (before : rack.Reachable)
      (told : rack.spliceAfter? id cards = some (last, next)) : Issues next last
  | ids {rack : Rack} {id : CardId} (before : rack.Reachable) (told : id ∈ rack.ids) :
      Issues rack id
  | first {rack : Rack} {id : CardId} (before : rack.Reachable) (told : rack.first? = some id) :
      Issues rack id
  | last {rack : Rack} {id : CardId} (before : rack.Reachable) (told : rack.last? = some id) :
      Issues rack id
  | next {rack : Rack} {id other : CardId} (before : rack.Reachable)
      (told : rack.next? other = some id) : Issues rack id
  | prev {rack : Rack} {id other : CardId} (before : rack.Reachable)
      (told : rack.prev? other = some id) : Issues rack id

theorem Threaded.stands_of_slot? (threaded : rack.Threaded order) {slot : Slot}
    (found : rack.slot? id = some slot) : ∃ position : Nat, rack.ids[position]? = some id := by
  apply List.getElem?_of_mem
  by_contra absent
  rw [threaded.slot?_eq_none_iff.mpr absent] at found
  cases found

theorem Threaded.not_mem_of_get? (threaded : rack.Threaded order) (nothing : rack.get? id = none) :
    id ∉ rack.ids := by
  intro member
  obtain ⟨position, stands⟩ := List.getElem?_of_mem member
  obtain ⟨card, -, found⟩ := threaded.slot?_of_stands stands
  rw [get?, found] at nothing
  cases nothing

/-- An address that is told is that of a present card. -/
theorem Issues.present (issues : Issues rack id) :
    (∃ order, rack.Threaded order) ∧ id ∈ rack.ids := by
  cases issues with
  | pushBack before card =>
      obtain ⟨order, threaded⟩ := before.threaded
      obtain ⟨slot, threads, -⟩ := threaded.pushBack card
      exact ⟨⟨_, threads⟩, by simp [(threaded.editsAsList.pushBack card).2]⟩
  | pushFront before card =>
      obtain ⟨order, threaded⟩ := before.threaded
      obtain ⟨slot, threads, -⟩ := threaded.pushFront card
      exact ⟨⟨_, threads⟩, by simp [(threaded.editsAsList.pushFront card).2]⟩
  | insertAfter before told =>
      obtain ⟨order, threaded⟩ := before.threaded
      obtain ⟨slot, found, -⟩ := Option.map_eq_some_iff.mp told
      obtain ⟨position, stands⟩ := threaded.stands_of_slot? found
      obtain ⟨new, next, slots, made, threads, -, inserts⟩ := threaded.insertAfter stands _
      obtain ⟨rfl, rfl⟩ := Prod.mk.inj (Option.some.inj (told.symm.trans made))
      exact ⟨⟨_, threads⟩, by simp [inserts.addresses]⟩
  | spliceAfter before told =>
      obtain ⟨order, threaded⟩ := before.threaded
      obtain ⟨slot, found, -⟩ := Option.map_eq_some_iff.mp told
      obtain ⟨position, stands⟩ := threaded.stands_of_slot? found
      obtain ⟨last, next, slots, made, threads, -, inserts, ends⟩ := threaded.spliceAfter stands _
      obtain ⟨rfl, rfl⟩ := Prod.mk.inj (Option.some.inj (told.symm.trans made))
      refine ⟨⟨_, threads⟩, ?_⟩
      rw [inserts.addresses]
      exact List.mem_append_left _ (List.mem_of_getLast? ends)
  | ids before told => exact ⟨before.threaded, told⟩
  | first before told =>
      obtain ⟨order, threaded⟩ := before.threaded
      rw [threaded.readsAsList.first] at told
      exact ⟨⟨order, threaded⟩, List.mem_of_head? told⟩
  | last before told =>
      obtain ⟨order, threaded⟩ := before.threaded
      rw [threaded.readsAsList.last] at told
      exact ⟨⟨order, threaded⟩, List.mem_of_getLast? told⟩
  | next before told =>
      obtain ⟨order, threaded⟩ := before.threaded
      obtain ⟨slot, found, -⟩ := Option.bind_eq_some_iff.mp told
      obtain ⟨position, stands⟩ := threaded.stands_of_slot? found
      rw [threaded.next?_of_stands stands] at told
      exact ⟨⟨order, threaded⟩, List.mem_of_getElem? told⟩
  | prev before told =>
      obtain ⟨order, threaded⟩ := before.threaded
      obtain ⟨slot, found, -⟩ := Option.bind_eq_some_iff.mp told
      obtain ⟨position, stands⟩ := threaded.stands_of_slot? found
      rw [threaded.prev?_of_stands stands] at told
      split at told
      · cases told
      · exact ⟨⟨order, threaded⟩, List.mem_of_getElem? told⟩

theorem isSome_fate {card : Card} {edits : List Edit} (kept : Edit.clear ∉ edits)
    (stays : Edit.remove id ∉ edits) : (fate id (some card) edits).isSome = true := by
  induction edits generalizing card with
  | nil => rfl
  | cons edit rest ih =>
      simp only [List.mem_cons, not_or] at kept stays
      have spared : ∃ held, edit.onCard id card = some held := by
        cases edit with
        | remove other =>
            have differs : other ≠ id := fun same => stays.1 (same ▸ rfl)
            exact ⟨card, by simp [Edit.onCard, differs]⟩
        | clear => exact absurd rfl kept.1
        | _ => exact ⟨_, rfl⟩
      obtain ⟨held, spared⟩ := spared
      show (fate id ((some card).bind fun card => edit.onCard id card) rest).isSome = true
      rw [Option.bind_some, spared]
      exact ih kept.2 stays.2

/-- An address that was told denotes one card.  Through any edits but clearing, and as long as
fewer cards are taken out than there are generations, it finds that card with the changes made at
this address, until the card is removed; from then on every operation at it is refused.  No two
cards have the same address. -/
theorem address_denotes_one_card (issues : Issues rack id) {edits : List Edit}
    (kept : Edit.clear ∉ edits) (few : removals rack edits < UInt32.size) :
    let later := edits.foldl Edit.apply rack
    (∃ card, rack.get? id = some card ∧ later.get? id = fate id (some card) edits) ∧
    (Edit.remove id ∉ edits → (later.get? id).isSome = true) ∧
    (Edit.remove id ∈ edits →
      later.get? id = none ∧ later.next? id = none ∧ later.prev? id = none ∧
        (∀ card, later.insertAfter? id card = none) ∧ later.remove? id = none ∧
        (∀ change, later.modify? id change = none) ∧
        ∀ cards, later.spliceAfter? id cards = none) ∧
    later.ids.Nodup := by
  intro later
  obtain ⟨⟨order, threaded⟩, present⟩ := issues.present
  obtain ⟨position, stands⟩ := List.getElem?_of_mem present
  obtain ⟨card, -, found⟩ := threaded.slot?_of_stands stands
  have held : rack.get? id = some card := by rw [get?, found]; rfl
  obtain ⟨age, tracks, bound⟩ := (tracks_of_get? held).foldl threaded kept
  have met : later.get? id = fate id (some card) edits := tracks.get?_eq (by omega)
  obtain ⟨slots, threads⟩ := threaded.foldl edits
  refine ⟨⟨card, held, met⟩, ?_, ?_, threads.nodup_ids⟩
  · intro stays
    rw [met]
    exact isSome_fate kept stays
  · intro removed
    have stale := threads.not_mem_of_get? (met.trans (fate_eq_none_of_removed removed))
    obtain ⟨lost, alone, first, inserted, gone, modified, spliced, -⟩ := threads.refused stale
    exact ⟨lost, alone, first, inserted, gone, modified, spliced⟩

/-- The slot of the removed card is filled again, and its address stays without a card. -/
theorem address_denotes_one_card_reused :
    let card : Card := { text := "r1 a b 1" }
    let rack := (empty.pushBack card).2
    let edits := [Edit.modify ⟨0, 0⟩ Card.disable, .remove ⟨0, 0⟩, .pushFront card]
    (Edit.remove ⟨0, 0⟩ ∈ edits ∧ removals rack edits < UInt32.size) ∧
      (edits.foldl Edit.apply rack).ids = [⟨0, 1⟩] ∧
      (edits.foldl Edit.apply rack).get? ⟨0, 0⟩ = none := by
  intro card rack edits
  have kept : Edit.clear ∉ edits := by simp [edits]
  have one : removals rack edits = 1 := rfl
  have few : removals rack edits < UInt32.size := by rw [one]; decide
  have removed : Edit.remove ⟨0, 0⟩ ∈ edits := by simp [edits]
  have issued : Issues rack ⟨0, 0⟩ := .pushBack .empty card
  have refilled : (edits.foldl Edit.apply rack).ids = [⟨0, 1⟩] := by decide
  obtain ⟨-, -, refused, -⟩ := address_denotes_one_card issued kept few
  exact ⟨⟨removed, few⟩, refilled, (refused removed).1⟩

/-- After clearing, the address of a card that is gone finds a new card. -/
theorem address_reused_after_clear :
    let old : Card := { text := "a" }
    let new : Card := { text := "b" }
    let rack := (empty.pushBack old).2
    let edits := [Edit.clear, .pushBack new]
    Issues rack ⟨0, 0⟩ ∧ removals rack edits = 0 ∧ rack.get? ⟨0, 0⟩ = some old ∧
      (edits.foldl Edit.apply rack).get? ⟨0, 0⟩ = some new :=
  ⟨.pushBack .empty _, rfl, rfl, rfl⟩

end Rack

end Netlist

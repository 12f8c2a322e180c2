import Mathlib.Data.List.Sort
import Netlist.Proofs.Extraction

/-!
# The outline of a deck

A deck is a sequence of sections: definitions, each with everything in it, and
the cards between them.  Extraction succeeds if every section is sound.  Then
the definitions of the sections are entered in order, and the cards that are
left live are those between the definitions.
-/

namespace Netlist

/-! ## Tables with the same entries -/

namespace NameTable

variable {policy : CasePolicy} {α : Type}

theorem find?_eq_some_of_mem {table : NameTable policy α} {entry : Text × α}
    (member : entry ∈ table.entries) : table.find? entry.1 = some entry := by
  obtain ⟨entries, ascending⟩ := table
  unfold find?
  dsimp only at member ⊢
  induction entries with
  | nil => cases member
  | cons first rest ih =>
      obtain ⟨before, later⟩ := List.pairwise_cons.mp ascending
      rcases List.mem_cons.mp member with here | there
      · rw [here, List.find?_cons_of_pos (by simp)]
      · have differs : policy.fold first.1 ≠ policy.fold entry.1 := fun same =>
          List.lt_irrefl _ (same ▸ before entry there)
        rw [List.find?_cons_of_neg (by simpa using differs)]
        exact ih later there

/-- Tables that find the same entries are equal. -/
theorem ext_find? {first second : NameTable policy α}
    (same : ∀ name, second.find? name = first.find? name) : second = first := by
  have sub {one other : NameTable policy α} (same : ∀ name, other.find? name = one.find? name)
      {entry : Text × α} (member : entry ∈ one.entries) : entry ∈ other.entries := by
    have found := (same entry.1).trans (find?_eq_some_of_mem member)
    exact List.mem_of_find?_eq_some found
  let precedes (one other : Text × α) : Prop := policy.fold one.1 < policy.fold other.1
  have : Std.Antisymm precedes :=
    ⟨fun one other before after => absurd (List.lt_trans before after) (List.lt_irrefl _)⟩
  have : Std.Irrefl precedes := ⟨fun one before => List.lt_irrefl _ before⟩
  apply ext
  refine List.Pairwise.eq_of_mem_iff second.ascending first.ascending ?_
  intro entry
  exact ⟨sub fun name => (same name).symm, sub same⟩

/-- Of the entries with one name, the one that is entered last is found. -/
theorem find?_insertAll (table : NameTable policy α) (entries : List (Text × α)) (name : Text) :
    (table.insertAll entries).find? name =
      (entries.filter fun entry => policy.fold entry.1 == policy.fold name).getLast?.or
        (table.find? name) := by
  induction entries generalizing table with
  | nil => rfl
  | cons first rest ih =>
      unfold insertAll at ih ⊢
      rw [List.foldl_cons, ih, find?_insert]
      by_cases same : policy.fold first.1 = policy.fold name
      · rw [if_pos same, List.filter_cons_of_pos (by simpa using same), List.getLast?_cons]
        cases (rest.filter fun entry => policy.fold entry.1 == policy.fold name).getLast? with
        | none => rfl
        | some last => rfl
      · rw [if_neg same, List.filter_cons_of_neg (by simpa using same)]

/-- Only the order of entries with one name matters. -/
theorem insertAll_congr (table : NameTable policy α) {first second : List (Text × α)}
    (same : ∀ name,
      (second.filter fun entry => policy.fold entry.1 == policy.fold name) =
        first.filter fun entry => policy.fold entry.1 == policy.fold name) :
    table.insertAll second = table.insertAll first := by
  apply ext_find?
  intro name
  rw [find?_insertAll, find?_insertAll, same]

end NameTable

namespace NameSet

theorem contains_foldl_add {policy : CasePolicy} (names : List Text) (set : NameSet policy)
    (name : Text) :
    (names.foldl add set).contains name =
      (set.contains name || names.any fun other => policy.fold other = policy.fold name) := by
  induction names generalizing set with
  | nil => simp
  | cons first rest ih =>
      rw [List.foldl_cons, ih, add, NameTable.contains_insert, List.any_cons]
      cases set.contains name <;> simp

end NameSet

/-! ## Sections -/

/-- A part of a deck: a card outside definitions, a definition with everything in it, or a
definition that is never closed. -/
inductive Section where
  | line (card : Card)
  | block (start : Card) (body : Deck) (stop : Card)
  | unclosed (start : Card) (body : Deck)
deriving DecidableEq, Repr

namespace Section

def cards : Section → Deck
  | line card => [card]
  | block start body stop => start :: body ++ [stop]
  | unclosed start body => start :: body

/-- The name that a definition has, if its start gives one. -/
def name? : Section → Option Text
  | block start _ _ => (Header.read? start.text).map Header.name
  | _ => none

/-- The card of a section that is live and outside definitions. -/
def liveLine? : Section → Option Card
  | line card => if card.isLive then some card else none
  | _ => none

variable (directives : Directives)

/-- The definition of a section under its name. -/
def definition? (policy : CasePolicy) : Section → Option (Text × Definition)
  | block start body _ => (Header.read? start.text).map fun header =>
      (header.name, Definition.build directives policy header body.live start.number)
  | _ => none

/-- The warning about a definition whose name is known already. -/
def redefinition? (known : Text → Bool) : Section → Option Warning
  | block start _ stop => (Header.read? start.text).bind fun header =>
      if known header.name then
        some (.ofCard stop ("subcircuit '" ++ header.name ++ "' redefined, later definition wins"))
      else none
  | _ => none

/-- The warnings about sections whose definitions are entered one after the other. -/
def redefinitions (policy : CasePolicy) (table : DefinitionTable) : List Section → List Warning
  | [] => []
  | first :: rest =>
      (first.redefinition? table.contains).toList ++
        redefinitions policy (table.insertAll (first.definition? directives policy).toList) rest

/-- Definitions are closed and have names, and nothing else is closed. -/
def Sound : Section → Prop
  | line card => card.isLive = true → directives.isEnd card.keyword = false
  | block start _ _ => ∃ header, Header.read? start.text = some header
  | unclosed _ _ => False

end Section

/-- A definition whose end has not been met. -/
structure OpenBlock where
  start : Card
  body : Deck := []
  /-- How many definitions are open, this one included. -/
  nest : Nat := 1

def OpenBlock.push (directives : Directives) (opened : OpenBlock) (card : Card) : OpenBlock :=
  ⟨opened.start, opened.body ++ [card], card.nestAfter directives opened.nest⟩

namespace Deck

variable (directives : Directives)

/-- The sections of what is left of a deck, while a definition may be open. -/
def outlineFrom : Option OpenBlock → Deck → List Section
  | none, [] => []
  | some opened, [] => [.unclosed opened.start opened.body]
  | none, card :: rest =>
      if card.nestAfter directives 0 = 0 then .line card :: outlineFrom none rest
      else outlineFrom (some { start := card }) rest
  | some opened, card :: rest =>
      if card.nestAfter directives opened.nest = 0 then
        .block opened.start opened.body card :: outlineFrom none rest
      else outlineFrom (some (opened.push directives card)) rest

def outline (deck : Deck) : List Section := outlineFrom directives none deck

/-- The sections have all cards of the deck, in order. -/
theorem flatMap_cards_outline (deck : Deck) :
    (deck.outline directives).flatMap Section.cards = deck := by
  have whole (opened : Option OpenBlock) (deck : Deck) :
      (outlineFrom directives opened deck).flatMap Section.cards =
        (opened.map fun block => block.start :: block.body).getD [] ++ deck := by
    induction deck generalizing opened with
    | nil =>
        cases opened with
        | none => rfl
        | some block => simp [outlineFrom, Section.cards]
    | cons card rest ih =>
        cases opened with
        | none =>
            rw [outlineFrom]
            split <;> simp [Section.cards, ih]
        | some block =>
            rw [outlineFrom]
            split <;> simp [Section.cards, OpenBlock.push, ih]
  exact whole none deck

/-- A definition that is open starts the first section. -/
theorem named_of_sound {opened : OpenBlock} {deck : Deck}
    (sound : ∀ part ∈ outlineFrom directives (some opened) deck, part.Sound directives) :
    ∃ header, Header.read? opened.start.text = some header := by
  induction deck generalizing opened with
  | nil => exact absurd (sound _ (List.mem_singleton.mpr rfl)) id
  | cons card rest ih =>
      rw [outlineFrom] at sound
      split at sound
      · exact sound (.block opened.start opened.body card) (List.mem_cons_self ..)
      · obtain ⟨header, named⟩ := ih sound
        exact ⟨header, named⟩

end Deck

/-! ## Extraction -/

namespace Extraction

variable {directives : Directives} {policy : CasePolicy} {phase : Phase}

theorem ofCard_eq_ok_iff {card : Card} {header : Header} :
    Header.ofCard card = .ok header ↔ Header.read? card.text = some header := by
  unfold Header.ofCard
  cases Header.read? card.text <;> simp

/-- The same definition is open in an extraction and in an outline. -/
inductive Follows : Option OpenDefinition → Option OpenBlock → Prop where
  | none : Follows none none
  | some {opened : OpenDefinition} {block : OpenBlock}
      (named : Header.read? block.start.text = .some opened.header)
      (start : opened.start = block.start) (body : opened.body = block.body.live)
      (nest : opened.nest + 1 = block.nest) : Follows (.some opened) (.some block)

/-- A card inside a definition is added to it. -/
theorem Takes.follows_inside {card image : Card} {opened inner : OpenDefinition}
    {table found : DefinitionTable} {warnings : List Warning}
    (takes : Takes directives policy card (some opened) table image (some inner) found warnings)
    {block : OpenBlock} (follows : Follows (some opened) (some block)) :
    Follows (some inner) (some (block.push directives card)) ∧ found = table ∧
      image.isLive = false := by
  cases follows with
  | some named start body nest =>
      have deeper : inner.nest + 1 = card.nestAfter directives block.nest :=
        nest ▸ takes.nesting_eq
      have longer (live : card.isLive = true) :
          opened.body ++ [card] = (block.body ++ [card]).live := by
        simp [Deck.live, body, live]
      cases takes with
      | idle opened table idle =>
          have same : opened.body = (block.push directives card).body.live := by
            simp [Deck.live, OpenBlock.push, body, idle]
          exact ⟨.some named start same deeper, rfl, idle⟩
      | enter opened table live starts =>
          exact ⟨.some named start (longer live) deeper, rfl, rfl⟩
      | leave opened table live notStart ends inner =>
          exact ⟨.some named start (longer live) deeper, rfl, rfl⟩
      | push opened table live notStart notEnd =>
          exact ⟨.some named start (longer live) deeper, rfl, rfl⟩

/-- A card that is taken completes the sections that account for what it adds. -/
theorem Takes.outline {card image : Card} {opened next : Option OpenDefinition}
    {table found : DefinitionTable} {warnings : List Warning}
    (takes : Takes directives policy card opened table image next found warnings)
    {block : Option OpenBlock} (follows : Follows opened block) :
    ∃ parts after, Follows next after ∧
      (∀ rest, Deck.outlineFrom directives block (card :: rest) =
        parts ++ Deck.outlineFrom directives after rest) ∧
      (∀ part ∈ parts, part.Sound directives) ∧
      found = table.insertAll (parts.filterMap (Section.definition? directives policy)) ∧
      Deck.live [image] = parts.filterMap Section.liveLine? ∧
      warnings = Section.redefinitions directives policy table parts := by
  have count := takes.nesting_eq
  cases follows with
  | none =>
      cases takes with
      | idle opened table idle =>
          refine ⟨[.line card], none, .none, ?_, ?_, rfl, ?_⟩
          · intro rest
            rw [Deck.outlineFrom]
            exact if_pos count.symm
          · intro part member
            cases List.mem_singleton.mp member
            intro live
            rw [idle] at live
            cases live
          · exact ⟨by simp [Deck.live, Section.liveLine?, idle], rfl⟩
      | begin table header live starts named =>
          refine ⟨[], some { start := card }, ?_, ?_, ?_, rfl, rfl, rfl⟩
          · exact .some (ofCard_eq_ok_iff.mp named) rfl rfl rfl
          · intro rest
            rw [Deck.outlineFrom, if_neg (count ▸ Nat.one_ne_zero)]
            rfl
          · intro part member
            cases member
      | keep table live notStart notEnd =>
          refine ⟨[.line card], none, .none, ?_, ?_, rfl, ?_⟩
          · intro rest
            rw [Deck.outlineFrom]
            exact if_pos count.symm
          · intro part member
            cases List.mem_singleton.mp member
            exact fun _ => notEnd
          · exact ⟨by simp [Deck.live, Section.liveLine?, live], rfl⟩
  | @some opened block named start body nest =>
      change nesting next = card.nestAfter directives (opened.nest + 1) at count
      rw [nest] at count
      cases next with
      | none =>
          refine ⟨[.block block.start block.body card], none, .none, ?_, ?_, ?_, ?_⟩
          · intro rest
            rw [Deck.outlineFrom]
            exact if_pos count.symm
          · intro part member
            cases List.mem_singleton.mp member
            exact ⟨opened.header, named⟩
          · cases takes with
            | close opened table built live notStart ends outermost whole =>
                rw [whole, body, start]
                simp only [Section.definition?, named, List.filterMap_cons, List.filterMap_nil,
                  Option.map_some]
                rfl
          · cases takes with
            | close opened table built live notStart ends outermost whole =>
                refine ⟨rfl, ?_⟩
                rw [whole]
                simp only [Section.redefinitions, Section.redefinition?, named, List.append_nil,
                  Option.bind_some]
                show redefinition table opened.header.name card = _
                unfold redefinition
                cases NameTable.contains table opened.header.name <;> rfl
      | some inner =>
          obtain ⟨grown, same, idle⟩ := takes.follows_inside (.some named start body nest)
          refine ⟨[], some (block.push directives card), grown, ?_, ?_, same, ?_, ?_⟩
          · intro rest
            rw [Deck.outlineFrom, if_neg (count ▸ Nat.succ_ne_zero inner.nest)]
            rfl
          · intro part member
            cases member
          · simp [Deck.live, idle]
          · cases takes <;> rfl

/-- A card that stops extraction makes a section that is not sound. -/
theorem Stops.not_sound {card : Card} {opened : Option OpenDefinition} {fault : Fault}
    (stops : Stops directives card opened fault) {block : Option OpenBlock}
    (follows : Follows opened block) (rest : Deck) :
    ¬∀ part ∈ Deck.outlineFrom directives block (card :: rest), part.Sound directives := by
  intro sound
  cases stops with
  | unnamed fault live starts unnamed =>
      cases follows
      rw [Deck.outlineFrom, if_neg (by simp [Card.nestAfter, live, starts])] at sound
      obtain ⟨header, named⟩ := Deck.named_of_sound directives sound
      rw [ofCard_eq_ok_iff.mpr named] at unnamed
      cases unnamed
  | stray live notStart ends =>
      cases follows
      rw [Deck.outlineFrom, if_pos (by simp [Card.nestAfter, live, notStart])] at sound
      have within := sound (.line card) (List.mem_cons_self ..) live
      rw [ends] at within
      cases within

/-- Extraction succeeds over sections that are sound; their definitions are entered in order, and
the cards between them stay live. -/
theorem runFrom_of_sound {opened : Option OpenDefinition} {block : Option OpenBlock}
    (follows : Follows opened block) {table : DefinitionTable} {deck : Deck}
    (sound : ∀ part ∈ Deck.outlineFrom directives block deck, part.Sound directives) :
    (runFrom directives policy phase opened table deck).failure = none ∧
    (runFrom directives policy phase opened table deck).definitions =
      table.insertAll ((Deck.outlineFrom directives block deck).filterMap
        (Section.definition? directives policy)) ∧
    (runFrom directives policy phase opened table deck).deck.live =
      (Deck.outlineFrom directives block deck).filterMap Section.liveLine? := by
  induction deck generalizing opened block table with
  | nil =>
      cases follows with
      | none => exact ⟨rfl, rfl, rfl⟩
      | some named start body nest => exact absurd (sound _ (List.mem_singleton.mpr rfl)) id
  | cons card rest ih =>
      -- a card that stops the extraction would be in a section that is not sound
      obtain ⟨image, next, found, warnings, takes⟩ :=
        (takes_or_stops directives policy opened table card).resolve_left fun ⟨fault, stops⟩ =>
          stops.not_sound follows rest sound
      obtain ⟨parts, after, follows, split, -, definitions, lines, -⟩ := takes.outline follows
      rw [split] at sound ⊢
      obtain ⟨ok, made, left⟩ := @ih next after follows found fun part member =>
        sound part (List.mem_append_right parts member)
      rw [takes.runFrom_eq phase, List.filterMap_append, List.filterMap_append, ← lines, ← left]
      refine ⟨ok, ?_, List.filter_append [image] _⟩
      rw [NameTable.insertAll, List.foldl_append]
      exact made.trans (congrArg (NameTable.insertAll · _) definitions)

/-- If extraction succeeds, the sections are sound. -/
theorem sound_of_runFrom {opened : Option OpenDefinition} {block : Option OpenBlock}
    (follows : Follows opened block) {table : DefinitionTable} {deck : Deck}
    (ok : (runFrom directives policy phase opened table deck).failure = none) :
    ∀ part ∈ Deck.outlineFrom directives block deck, part.Sound directives := by
  induction deck generalizing opened block table with
  | nil =>
      cases follows with
      | none =>
          intro part member
          cases member
      | some named start body nest => cases ok
  | cons card rest ih =>
      rcases runFrom_cons directives policy phase opened table card rest with
        ⟨fault, stopped⟩ | ⟨image, next, found, warnings, takes, went⟩
      · rw [stopped] at ok
        cases ok
      · rw [went] at ok
        obtain ⟨parts, after, follows, split, sound, -, -, -⟩ := takes.outline follows
        rw [split]
        intro part member
        rcases List.mem_append.mp member with here | later
        · exact sound part here
        · exact ih follows ok part later

end Extraction

end Netlist

import Netlist.Proofs.Numbering
import Netlist.Proofs.Outline
import Netlist.Proofs.Places

/-!
# The place of a declaration

Definitions and global statements count for the whole top level, wherever they
stand in it.  If they are moved, the expansion succeeds as before and leaves
the same statements, as long as definitions of one name keep their order and
no statement is moved that does something else besides.
-/

namespace Netlist

/-! ## Rearranged decks -/

/-- A live global statement whose keyword states nothing else. -/
def Card.isMereGlobal (directives : Directives) (card : Card) : Bool :=
  card.isLive && directives.isGlobal card.keyword &&
    !(directives.isModel card.keyword || directives.isParam card.keyword ||
      directives.isCall card.keyword)

theorem Card.of_isMereGlobal {directives : Directives} {card : Card}
    (mere : card.isMereGlobal directives = true) :
    card.isLive = true ∧ directives.isGlobal card.keyword = true ∧
      directives.isModel card.keyword = false ∧ directives.isParam card.keyword = false ∧
      directives.isCall card.keyword = false := by
  simp only [isMereGlobal, Bool.and_eq_true, Bool.not_eq_true', Bool.or_eq_false_iff] at mere
  obtain ⟨⟨live, declares⟩, ⟨notModel, notParam⟩, notCall⟩ := mere
  exact ⟨live, declares, notModel, notParam, notCall⟩

namespace Section

/-- The section is neither a definition nor a mere global statement. -/
def isFixed (directives : Directives) : Section → Bool
  | line card => !card.isMereGlobal directives
  | block _ _ _ => false
  | unclosed _ _ => true

/-- The section is a definition of the name, up to letter case. -/
def defines (name : Text) (part : Section) : Bool :=
  part.name?.any fun own => Text.lower own == Text.lower name

theorem length_filter_defines_le (name : Text) {parts : List Section}
    (distinct : ((parts.filterMap name?).map Text.lower).Nodup) :
    (parts.filter (defines name)).length ≤ 1 := by
  induction parts with
  | nil => exact Nat.zero_le 1
  | cons part rest ih =>
      cases own : part.name? with
      | none =>
          rw [List.filterMap_cons_none own] at distinct
          rw [List.filter_cons_of_neg (by simp [defines, own])]
          exact ih distinct
      | some first =>
          rw [List.filterMap_cons_some own, List.map_cons, List.nodup_cons] at distinct
          obtain ⟨fresh, later⟩ := distinct
          by_cases same : Text.lower first = Text.lower name
          · -- no later section can have the name again
            have none : rest.filter (defines name) = [] := by
              rw [List.filter_eq_nil_iff]
              intro other member names
              cases named : other.name? with
              | none => simp [defines, named] at names
              | some second =>
                  have equal : Text.lower second = Text.lower name := by
                    simpa [defines, named] using names
                  apply fresh
                  rw [same, ← equal]
                  exact List.mem_map_of_mem (List.mem_filterMap.mpr ⟨other, member, named⟩)
            rw [List.filter_cons, none]
            split <;> simp
          · rw [List.filter_cons_of_neg (by simp [defines, own, same])]
            exact ih later

/-- The entries of a name are those of the definitions of the name. -/
theorem filter_definition? (directives : Directives) (policy : CasePolicy) (parts : List Section)
    (name : Text) :
    ((parts.filterMap (definition? directives policy)).filter fun entry =>
        CasePolicy.insensitive.fold entry.1 == CasePolicy.insensitive.fold name) =
      (parts.filter (defines name)).filterMap (definition? directives policy) := by
  rw [List.filter_filterMap, List.filterMap_filter]
  apply List.filterMap_congr
  intro part member
  cases part with
  | line card => simp [definition?]
  | unclosed start body => simp [definition?]
  | block start body stop =>
      cases read : Header.read? start.text with
      | none => simp [definition?, read]
      | some header => simp [definition?, defines, name?, read, Option.filter, CasePolicy.fold]

/-- The cards that are no mere global statements stand in sections that are fixed. -/
theorem filter_liveLine? (directives : Directives) (parts : List Section) :
    (parts.filterMap liveLine?).filter (fun card => !card.isMereGlobal directives) =
      (parts.filter (isFixed directives)).filterMap liveLine? := by
  rw [List.filter_filterMap, List.filterMap_filter]
  apply List.filterMap_congr
  intro part member
  cases part with
  | line card =>
      cases live : card.isLive with
      | false => simp [liveLine?, live]
      | true => simp [liveLine?, isFixed, live, Option.filter]
  | block start body stop => rfl
  | unclosed start body => rfl

end Section

namespace Deck

/-- The second deck has the sections of the first.  All but definitions and mere global statements
keep their order, and so do the definitions of each name. -/
structure Rearranged (directives : Directives) (deck other : Deck) : Prop where
  perm : (other.outline directives).Perm (deck.outline directives)
  fixed : (other.outline directives).filter (Section.isFixed directives) =
    (deck.outline directives).filter (Section.isFixed directives)
  blocks : ∀ name, (other.outline directives).filter (Section.defines name) =
    (deck.outline directives).filter (Section.defines name)

namespace Rearranged

variable {directives : Directives} {deck other : Deck}

theorem symm (rearranged : Rearranged directives deck other) : Rearranged directives other deck :=
  ⟨rearranged.perm.symm, rearranged.fixed.symm, fun name => (rearranged.blocks name).symm⟩

/-- Definitions with different names may be moved freely. -/
theorem of_distinct (perm : (other.outline directives).Perm (deck.outline directives))
    (fixed : (other.outline directives).filter (Section.isFixed directives) =
      (deck.outline directives).filter (Section.isFixed directives))
    (distinct : (((deck.outline directives).filterMap Section.name?).map Text.lower).Nodup) :
    Rearranged directives deck other := by
  refine ⟨perm, fixed, ?_⟩
  intro name
  have reordered := perm.filter (Section.defines name)
  have single := Section.length_filter_defines_le name distinct
  match found : (deck.outline directives).filter (Section.defines name) with
  | [] =>
      rw [found] at reordered
      exact reordered.eq_nil
  | [only] =>
      rw [found] at reordered
      exact List.perm_singleton.mp reordered
  | first :: second :: rest =>
      rw [found] at single
      simp at single

/-- The same sections are there, so they are sound as before. -/
theorem sound (rearranged : Rearranged directives deck other)
    (sound : ∀ part ∈ deck.outline directives, part.Sound directives) :
    ∀ part ∈ other.outline directives, part.Sound directives :=
  fun part member => sound part (rearranged.perm.mem_iff.mp member)

/-- The last definition of each name is the same. -/
theorem definitions (rearranged : Rearranged directives deck other) (policy : CasePolicy)
    (table : DefinitionTable) :
    table.insertAll
        ((other.outline directives).filterMap (Section.definition? directives policy)) =
      table.insertAll
        ((deck.outline directives).filterMap (Section.definition? directives policy)) := by
  apply NameTable.insertAll_congr
  intro name
  rw [Section.filter_definition?, Section.filter_definition?, rearranged.blocks]

/-- The live cards between the definitions are the same, and all but mere global statements stand in
the same order. -/
theorem lines (rearranged : Rearranged directives deck other) :
    ((other.outline directives).filterMap Section.liveLine?).Perm
      ((deck.outline directives).filterMap Section.liveLine?) ∧
    ((other.outline directives).filterMap Section.liveLine?).filter
        (fun card => !card.isMereGlobal directives) =
      ((deck.outline directives).filterMap Section.liveLine?).filter
        fun card => !card.isMereGlobal directives := by
  constructor
  · exact rearranged.perm.filterMap _
  · rw [Section.filter_liveLine?, Section.filter_liveLine?, rearranged.fixed]

end Rearranged

/-- Statements of a kind depend on the cards that are no mere global statements, if none of these
are of the kind. -/
theorem statements_congr {directives : Directives} {deck other : Deck}
    (same : (other.live.filter fun card => !card.isMereGlobal directives) =
      deck.live.filter fun card => !card.isMereGlobal directives) {kind : Text → Bool}
    (excluded : ∀ card : Card, card.isMereGlobal directives = true → kind card.keyword = false) :
    other.statements kind = deck.statements kind := by
  have narrow (deck : Deck) : deck.statements kind =
      (deck.live.filter fun card => !card.isMereGlobal directives).filter
        fun card => kind card.keyword := by
    unfold statements
    rw [List.filter_filter]
    apply List.filter_congr
    intro card member
    cases mere : card.isMereGlobal directives with
    | false => simp
    | true => simp [excluded card mere]
  rw [narrow, narrow, same]

/-- The live statements that are not global statements. -/
def plainTexts (directives : Directives) (deck : Deck) : List Text :=
  deck.liveTexts.filter fun text => !directives.isGlobal (Text.firstWord text)

theorem plainTexts_flatMap {α : Type} (directives : Directives) (items : List α)
    (cards : α → Deck) :
    plainTexts directives (items.flatMap cards) =
      items.flatMap fun item => plainTexts directives (cards item) := by
  unfold plainTexts liveTexts live
  rw [List.filter_flatMap, List.map_flatMap, List.filter_flatMap]

/-- Cards that leave nothing can be passed over. -/
theorem flatMap_filter {deck : Deck} {keep : Card → Bool}
    {leave : Card → List Text} (nothing : ∀ card, keep card = false → leave card = []) :
    (deck.filter keep).flatMap leave = deck.flatMap leave := by
  induction deck with
  | nil => rfl
  | cons card rest ih =>
      cases kept : keep card with
      | true => rw [List.filter_cons_of_pos kept, List.flatMap_cons, List.flatMap_cons, ih]
      | false =>
          rw [List.filter_cons_of_neg (by simp [kept]), List.flatMap_cons, nothing card kept, ih]
          rfl

end Deck

namespace Expansion

namespace Visit

variable {config : Config} {catalog : Catalog} {frame : Frame config.casePolicy}
  {bound : Bindings} {deck other : Deck}

/-- The definitions of a rearranged deck can be lifted out as before. -/
theorem extractionOf_rearranged (rearranged : Deck.Rearranged config.directives deck other)
    (lifted : (extractionOf deck (topProgress frame bound)).failure = none) :
    (extractionOf other (topProgress frame bound)).failure = none ∧
    (extractionOf other (topProgress frame bound)).definitions =
      (extractionOf deck (topProgress frame bound)).definitions ∧
    (extractionOf other (topProgress frame bound)).deck.live.Perm
      (extractionOf deck (topProgress frame bound)).deck.live ∧
    ((extractionOf other (topProgress frame bound)).deck.live.filter
        fun card => !card.isMereGlobal config.directives) =
      (extractionOf deck (topProgress frame bound)).deck.live.filter
        fun card => !card.isMereGlobal config.directives := by
  have sound : ∀ part ∈ deck.outline config.directives, part.Sound config.directives :=
    Extraction.sound_of_runFrom .none lifted
  obtain ⟨-, definitions, lines⟩ : _ ∧ (extractionOf deck (topProgress frame bound)).definitions =
      _ ∧ (extractionOf deck (topProgress frame bound)).deck.live = _ :=
    Extraction.runFrom_of_sound .none sound
  obtain ⟨ok, otherDefinitions, otherLines⟩ :
      (extractionOf other (topProgress frame bound)).failure = none ∧
      (extractionOf other (topProgress frame bound)).definitions = _ ∧
      (extractionOf other (topProgress frame bound)).deck.live = _ :=
    Extraction.runFrom_of_sound .none (rearranged.sound sound)
  refine ⟨ok, ?_, ?_, ?_⟩
  · rw [definitions, otherDefinitions]
    exact rearranged.definitions config.casePolicy _
  · rw [lines, otherLines]
    exact rearranged.lines.1
  · rw [lines, otherLines]
    exact rearranged.lines.2

theorem sameStart_of_rearranged (rearranged : Deck.Rearranged config.directives deck other)
    (lifted : (extractionOf deck (topProgress frame bound)).failure = none) :
    SameStart (top frame bound deck : Visit config) (top frame bound other) := by
  obtain ⟨-, definitions, perm, fixed⟩ := extractionOf_rearranged rearranged lifted
  refine sameStart_top definitions (Deck.statements_congr fixed ?_)
    (Deck.statements_congr fixed ?_) ?_
  · intro card mere
    exact (Card.of_isMereGlobal mere).2.2.1
  · intro card mere
    exact (Card.of_isMereGlobal mere).2.2.2.1
  · intro card
    unfold Deck.statements
    rw [List.mem_filter, List.mem_filter, perm.mem_iff]

theorem mem_liftDefinitions_of_rearranged
    (rearranged : Deck.Rearranged config.directives deck other)
    (lifted : (extractionOf deck (topProgress frame bound)).failure = none) {card : Card}
    (live : card.isLive = true) (member : card ∈ other.liftDefinitions config.directives 0) :
    card ∈ deck.liftDefinitions config.directives 0 := by
  obtain ⟨otherLifted, -, perm, -⟩ := extractionOf_rearranged rearranged lifted
  rw [deck_extractionOf lifted, deck_extractionOf otherLifted] at perm
  exact (List.mem_filter.mp (perm.mem_iff.mp (List.mem_filter.mpr ⟨member, live⟩))).1

/-- The calls of a rearranged deck are settled as before. -/
theorem Settled.of_rearranged (rearranged : Deck.Rearranged config.directives deck other)
    (settled : (top frame bound deck : Visit config).Settled catalog) :
    (top frame bound other : Visit config).Settled catalog := by
  have lifted : (extractionOf deck (topProgress frame bound)).failure = none := settled.lifted
  obtain ⟨otherLifted, -⟩ := extractionOf_rearranged rearranged lifted
  exact settled.of_sameStart lifted otherLifted (sameStart_of_rearranged rearranged lifted)
    fun card live member => mem_liftDefinitions_of_rearranged rearranged lifted live member

/-- A card that is disabled or a mere global statement leaves no other statement. -/
theorem plainTexts_place {frame : Frame config.casePolicy} {card : Card}
    (nothing : (card.isLive && !card.isMereGlobal config.directives) = false) :
    Deck.plainTexts config.directives ((top frame bound deck : Visit config).place catalog
      (Deck.takenIn config.directives card)).cards = [] := by
  cases live : card.isLive with
  | false =>
      simp [Deck.takenIn, place, Place.cards, Deck.plainTexts, Deck.liveTexts, Deck.live, live]
  | true =>
      have mere : card.isMereGlobal config.directives = true := by simpa [live] using nothing
      obtain ⟨-, declares, -, notParam, notCall⟩ := Card.of_isMereGlobal mere
      -- no parameters are put into a global statement of the top level
      have same (params : ParamTable) : substituteAt config catalog 0 params card.text =
          card.text := by
        unfold substituteAt substituteTop
        rw [if_pos rfl]
        exact if_pos (by simp only [Bool.or_eq_true]; exact .inl declares)
      have kept : Deck.takenIn config.directives card = card := if_neg (by simp [notParam])
      have here : (top frame bound deck : Visit config).place catalog card = { card } := by
        unfold place
        rw [if_neg (by simp [live]), if_neg (by simp [notCall])]
        exact congrArg (fun text => ({ card := { card with text } } : Place)) (same _)
      have own : config.directives.isGlobal (Text.firstWord card.text) = true := declares
      rw [kept, here]
      simp [Place.cards, Deck.plainTexts, Deck.liveTexts, Deck.live, live, own]

/-- The statements that a top level leaves are those of its cards that matter, in order. -/
theorem plainTexts_places (lifted : (extractionOf deck (topProgress frame bound)).failure = none) :
    Deck.plainTexts config.directives
        (((top frame bound deck : Visit config).places catalog).flatMap Place.cards) =
      ((extractionOf deck (topProgress frame bound)).deck.live.filter
        fun card => !card.isMereGlobal config.directives).flatMap fun card =>
          Deck.plainTexts config.directives ((top frame bound deck : Visit config).place catalog
            (Deck.takenIn config.directives card)).cards := by
  unfold places Deck.live
  rw [List.filter_filter, Deck.flatMap_filter, Deck.plainTexts_flatMap, List.flatMap_map,
    cards_top lifted, List.flatMap_map, deck_extractionOf lifted]
  intro card nothing
  exact plainTexts_place (by rw [Bool.and_comm]; exact nothing)

/-- A rearranged deck leaves the same statements. -/
theorem plainTexts_of_rearranged (rearranged : Deck.Rearranged config.directives deck other)
    (lifted : (extractionOf deck (topProgress frame bound)).failure = none) :
    Deck.plainTexts config.directives
        (((top frame bound other : Visit config).places catalog).flatMap Place.cards) =
      Deck.plainTexts config.directives
        (((top frame bound deck : Visit config).places catalog).flatMap Place.cards) := by
  obtain ⟨otherLifted, -, -, fixed⟩ := extractionOf_rearranged rearranged lifted
  have place_eq : (top frame bound other : Visit config).place catalog =
      (top frame bound deck : Visit config).place catalog :=
    funext fun card => (sameStart_of_rearranged rearranged lifted).place_eq card
  rw [plainTexts_places lifted, plainTexts_places otherLifted, fixed, place_eq]

/-! ## Line numbers are no matter -/

theorem settled_unnumbered_iff :
    (top frame.unnumbered bound deck.unnumbered : Visit config).Settled catalog ↔
      (top frame bound deck : Visit config).Settled catalog := by
  have erased := expand_unnumbered catalog (top frame bound deck : Visit config)
  rw [top_unnumbered] at erased
  constructor
  · intro settled
    obtain ⟨ok, -, nothing⟩ := settled.expand fresh_top
    rw [erased] at ok nothing
    exact settled_of_expand fresh_top (Option.map_eq_none_iff.mp ok)
      (List.map_eq_nil_iff.mp nothing)
  · intro settled
    obtain ⟨ok, -, nothing⟩ := settled.expand fresh_top
    apply settled_of_expand fresh_top
    · rw [erased]
      exact Option.map_eq_none_iff.mpr ok
    · rw [erased]
      exact List.map_eq_nil_iff.mpr nothing

theorem plainTexts_unnumbered (settled : (top frame bound deck : Visit config).Settled catalog) :
    Deck.plainTexts config.directives
        (((top frame.unnumbered bound deck.unnumbered : Visit config).places catalog).flatMap
          Place.cards) =
      Deck.plainTexts config.directives
        (((top frame bound deck : Visit config).places catalog).flatMap Place.cards) := by
  have erased := expand_unnumbered catalog (top frame bound deck : Visit config)
  rw [top_unnumbered] at erased
  rw [← (settled.expand fresh_top).2.1,
    ← ((settled_unnumbered_iff.mpr settled).expand fresh_top).2.1, erased]
  exact congrArg (List.filter _) (Deck.liveTexts_unnumbered _)

end Visit

/-- The place of a declaration does not matter.  Let definitions and global statements of the top
level be moved, so that all other cards keep their order and so do the definitions of one name; the
line numbers may change, and a global statement that is moved is no model or parameter statement and
no call.  Then one deck can be expanded if the other can, and the live statements that are not
global statements are the same in the same order. -/
theorem placement_irrelevant {config : Config} {catalog : Catalog} {store : CacheStore}
    {bound : Bindings} {block : Option Text} {deck other : Deck} {top twin : Visit config}
    (starts : Visit.top? config store bound block deck = some top)
    (twinStarts : Visit.top? config store bound block other = some twin)
    (rearranged : Deck.Rearranged config.directives top.deck.unnumbered twin.deck.unnumbered) :
    ((∃ expansion, run config catalog store bound block other = .ok expansion) ↔
      ∃ expansion, run config catalog store bound block deck = .ok expansion) ∧
    ∀ expansion twinExpansion, run config catalog store bound block deck = .ok expansion →
      run config catalog store bound block other = .ok twinExpansion →
      twinExpansion.deck.plainTexts config.directives =
        expansion.deck.plainTexts config.directives := by
  obtain ⟨frame, bindings, supplied, begins⟩ := Visit.exists_supplied_of_top? starts
  rw [begins] at starts twinStarts
  cases starts
  cases twinStarts
  have moved {one another : Deck}
      (rearranged : Deck.Rearranged config.directives one.unnumbered another.unnumbered)
      (settled : (Visit.top frame bindings one : Visit config).Settled catalog) :
      (Visit.top frame bindings another : Visit config).Settled catalog :=
    Visit.settled_unnumbered_iff.mp
      ((Visit.settled_unnumbered_iff.mpr settled).of_rearranged rearranged)
  refine ⟨⟨?_, ?_⟩, ?_⟩
  · rintro ⟨expansion, ran⟩
    obtain ⟨settled, -⟩ := Visit.settled_of_run (begins other) ran
    obtain ⟨result, done, -⟩ := (moved rearranged.symm settled).run (begins deck)
    exact ⟨result, done⟩
  · rintro ⟨expansion, ran⟩
    obtain ⟨settled, -⟩ := Visit.settled_of_run (begins deck) ran
    obtain ⟨result, done, -⟩ := (moved rearranged settled).run (begins other)
    exact ⟨result, done⟩
  · intro expansion twinExpansion ran twinRan
    obtain ⟨settled, whole⟩ := Visit.settled_of_run (begins deck) ran
    obtain ⟨twinSettled, twinWhole⟩ := Visit.settled_of_run (begins other) twinRan
    rw [whole, twinWhole, ← Visit.plainTexts_unnumbered settled,
      ← Visit.plainTexts_unnumbered twinSettled]
    exact Visit.plainTexts_of_rearranged rearranged
      (Visit.settled_unnumbered_iff.mpr settled).lifted

/-- Two definitions and a global statement are moved, and the lines are numbered anew. -/
theorem placement_irrelevant_swapped :
    let numbered (lines : List String) : Deck :=
      lines.mapIdx fun i line => { text := line.toList, number := i + 1 }
    let deck := numbered [".global vdd", ".subckt s a", "r1 a vdd 1", ".ends", ".subckt t a",
      "c1 a n 2", ".ends", "x1 p s", "x2 q t"]
    let other := numbered ["x1 p s", ".subckt t a", "c1 a n 2", ".ends", "x2 q t", ".subckt s a",
      "r1 a vdd 1", ".ends", ".global vdd"]
    Deck.Rearranged {} deck.unnumbered other.unnumbered ∧
    ∃ expansion, run {} .standard NameTable.empty ⟨.empty, .empty⟩ none deck = .ok expansion ∧
      expansion.deck.plainTexts {} = ["r1_x1 p vdd 1".toList, "c1_x2 q n_x2 2".toList] ∧
      ∃ twin, run {} .standard NameTable.empty ⟨.empty, .empty⟩ none other = .ok twin ∧
        twin.deck.plainTexts {} = expansion.deck.plainTexts {} := by
  intro numbered deck other
  have rearranged : Deck.Rearranged {} deck.unnumbered other.unnumbered :=
    .of_distinct (by decide +kernel) (by decide +kernel) (by decide +kernel)
  refine ⟨rearranged, ?_⟩
  refine exists_of_passes (fun expansion => expansion.deck.plainTexts {} ==
    ["r1_x1 p vdd 1".toList, "c1_x2 q n_x2 2".toList]) (by decide +kernel) ?_
  intro expansion ran texts
  have starts (deck : Deck) : Visit.top? {} NameTable.empty ⟨.empty, .empty⟩ none deck =
      some (Visit.top {} ⟨.empty, .empty⟩ deck) := rfl
  obtain ⟨both, same⟩ :=
    @placement_irrelevant {} .standard _ _ _ deck other _ _ (starts deck) (starts other) rearranged
  obtain ⟨twin, twinRan⟩ := both.mpr ⟨expansion, ran⟩
  exact ⟨by simpa using texts, twin, twinRan, same expansion twin ran twinRan⟩

/-- Where global statements are spelled like parameter statements, the last of them sets the
parameter; and of two definitions that have one name the later one counts. -/
theorem placement_matters_for_params_and_namesakes :
    let card (line : String) : Card := { text := line.toList }
    let definition (start line : String) : Deck := [card start, card line, card ".ends"]
    let texts (config : Config) (deck : Deck) : Option (List Text) :=
      (run config .standard NameTable.empty ⟨.empty, .empty⟩ none deck).toOption.map
        fun expansion => expansion.deck.plainTexts config.directives
    (texts { directives := { global := ".param".toList } }
          [card ".param w=1", card ".param w=2", card "r1 a b w"] =
        some ["r1 a b 2".toList] ∧
      texts { directives := { global := ".param".toList } }
          [card ".param w=2", card ".param w=1", card "r1 a b w"] =
        some ["r1 a b 1".toList]) ∧
    texts {} (definition ".subckt s a" "r1 a 0 1" ++ definition ".subckt S a" "r1 a 0 2" ++
        [card "x1 n s"]) =
      some ["r1_x1 n 0 2".toList] ∧
    texts {} (definition ".subckt S a" "r1 a 0 2" ++ definition ".subckt s a" "r1 a 0 1" ++
        [card "x1 n s"]) =
      some ["r1_x1 n 0 1".toList] := by
  decide +kernel

end Expansion

end Netlist

import Netlist.Proofs.Places

/-!
# Calls beside each other

Disabling some of the calls of a deck takes away what they add and changes
nothing for the others: the expansion still succeeds, and every other card has
the same cards behind it as before.  Only a call whose keyword makes it a
global, model or parameter statement as well can be missed by the others.
-/

namespace Netlist

namespace Card

/-- A live call that stands where `nest` definitions are open, outside all of them, and whose
keyword states nothing else. -/
structure MereCall (directives : Directives) (nest : Nat) (card : Card) : Prop where
  live : card.isLive = true
  outside : card.isLifted directives nest = false
  calls : directives.isCall card.keyword = true
  notGlobal : directives.isGlobal card.keyword = false
  notModel : directives.isModel card.keyword = false
  notParam : directives.isParam card.keyword = false

namespace MereCall

variable {directives : Directives} {nest : Nat} {card : Card}

theorem delimits_nothing (call : card.MereCall directives nest) :
    directives.isStart card.keyword = false ∧ directives.isEnd card.keyword = false ∧
      nest = 0 := by
  have outside := call.outside
  simp only [isLifted, call.live, Bool.true_and, Bool.or_eq_false_iff, bne_eq_false_iff_eq]
    at outside
  exact ⟨outside.1.1, outside.1.2, outside.2⟩

theorem nestAfter_eq (call : card.MereCall directives nest) :
    card.nestAfter directives nest = nest := by
  obtain ⟨notStart, notEnd, -⟩ := call.delimits_nothing
  simp [nestAfter, notStart, notEnd]

end MereCall

end Card

namespace Deck

/-- The second deck is the first with some of its calls disabled, while `nest` definitions are
open. -/
inductive Silences (directives : Directives) : Nat → Deck → Deck → Prop where
  | nil (nest : Nat) : Silences directives nest [] []
  | kept {nest : Nat} {card : Card} {rest quiet : Deck}
      (later : Silences directives (card.nestAfter directives nest) rest quiet) :
      Silences directives nest (card :: rest) (card :: quiet)
  | silenced {nest : Nat} {card : Card} {rest quiet : Deck}
      (call : card.MereCall directives nest) (later : Silences directives nest rest quiet) :
      Silences directives nest (card :: rest) (card.disable :: quiet)

theorem length_liftDefinitions (directives : Directives) (nest : Nat) (deck : Deck) :
    (deck.liftDefinitions directives nest).length = deck.length := by
  induction deck generalizing nest with
  | nil => rfl
  | cons card rest ih => exact congrArg (· + 1) (ih _)

namespace Silences

variable {directives : Directives} {nest : Nat} {deck quiet : Deck}

theorem liftDefinitions_silenced {card : Card} {rest : Deck}
    (call : card.MereCall directives nest) :
    liftDefinitions directives nest (card :: rest) =
        card :: rest.liftDefinitions directives nest ∧
      liftDefinitions directives nest (card.disable :: rest) =
        card.disable :: rest.liftDefinitions directives nest := by
  constructor
  · rw [liftDefinitions, call.nestAfter_eq, if_neg (by simp [call.outside])]
  · rw [liftDefinitions, Card.nestAfter_of_idle directives (Card.isLive_disable card),
      if_neg (by simp [Card.isLifted, Card.isLive_disable])]

/-- Statements that are no calls are all left. -/
theorem statements_eq (silences : Silences directives nest deck quiet) {kind : Text → Bool}
    (other : ∀ nest card, Card.MereCall directives nest card → kind card.keyword = false) :
    (quiet.liftDefinitions directives nest).statements kind =
      (deck.liftDefinitions directives nest).statements kind := by
  unfold statements live
  simp only [List.filter_filter]
  induction silences with
  | nil nest => rfl
  | kept later ih =>
      rw [liftDefinitions, liftDefinitions, List.filter_cons, List.filter_cons, ih]
  | silenced call later ih =>
      rw [(liftDefinitions_silenced call).1, (liftDefinitions_silenced call).2,
        List.filter_cons_of_neg (by simp [Card.isLive_disable]),
        List.filter_cons_of_neg (by simp [other _ _ call]), ih]

/-- A live card that is left was there before. -/
theorem mem_liftDefinitions (silences : Silences directives nest deck quiet) {card : Card}
    (live : card.isLive = true) (member : card ∈ quiet.liftDefinitions directives nest) :
    card ∈ deck.liftDefinitions directives nest := by
  induction silences with
  | nil nest => exact member
  | kept later ih =>
      rw [liftDefinitions] at member ⊢
      rcases List.mem_cons.mp member with here | there
      · exact here ▸ List.mem_cons_self ..
      · exact List.mem_cons_of_mem _ (ih there)
  | silenced call later ih =>
      rw [(liftDefinitions_silenced call).2] at member
      rw [(liftDefinitions_silenced call).1]
      rcases List.mem_cons.mp member with here | there
      · rw [here, Card.isLive_disable] at live
        cases live
      · exact List.mem_cons_of_mem _ (ih there)

/-- A card that is not disabled is treated as before. -/
theorem getElem?_liftDefinitions (silences : Silences directives nest deck quiet) {i : Nat}
    {card : Card} (before : deck[i]? = some card) (after : quiet[i]? = some card) :
    (quiet.liftDefinitions directives nest)[i]? = (deck.liftDefinitions directives nest)[i]? := by
  induction silences generalizing i with
  | nil nest => rfl
  | kept later ih =>
      rw [liftDefinitions, liftDefinitions]
      cases i with
      | zero => rfl
      | succ i => exact ih before after
  | silenced call later ih =>
      rw [(liftDefinitions_silenced call).1, (liftDefinitions_silenced call).2]
      cases i with
      | zero =>
          -- the card would be live in one deck and disabled in the other
          have same := (Option.some.inj before).trans (Option.some.inj after).symm
          have live := call.live
          rw [same, Card.isLive_disable] at live
          cases live
      | succ i => exact ih before after

/-- The same definitions are lifted out. -/
theorem runFrom_eq (silences : Silences directives nest deck quiet) {policy : CasePolicy}
    {phase : Phase} {opened : Option OpenDefinition} {table : DefinitionTable}
    (here : Extraction.nesting opened = nest)
    (ok : (Extraction.runFrom directives policy phase opened table deck).failure = none) :
    (Extraction.runFrom directives policy phase opened table quiet).failure = none ∧
    (Extraction.runFrom directives policy phase opened table quiet).definitions =
      (Extraction.runFrom directives policy phase opened table deck).definitions := by
  induction silences generalizing opened table with
  | nil nest => exact ⟨ok, rfl⟩
  | @kept nest card rest quiet later ih =>
      rcases Extraction.runFrom_cons directives policy phase opened table card rest with
        ⟨fault, stopped⟩ | ⟨image, next, found, warnings, takes, went⟩
      · rw [stopped] at ok
        cases ok
      · rw [went] at ok ⊢
        rw [takes.runFrom_eq phase]
        exact ih (here ▸ takes.nesting_eq) ok
  | @silenced nest card rest quiet call later ih =>
      obtain ⟨notStart, notEnd, outside⟩ := call.delimits_nothing
      cases opened with
      | some inner => exact absurd (here.trans outside) (Nat.succ_ne_zero _)
      | none =>
          have takes : Extraction.Takes directives policy card none table card none table [] :=
            .keep table call.live notStart notEnd
          have passes : Extraction.Takes directives policy card.disable none table card.disable
              none table [] := .idle none table (Card.isLive_disable card)
          rw [takes.runFrom_eq phase] at ok ⊢
          rw [passes.runFrom_eq phase]
          exact ih here ok

end Silences

end Deck

namespace Expansion

variable {config : Config} {catalog : Catalog}

namespace Visit

variable {frame : Frame config.casePolicy} {bound : Bindings} {deck quiet : Deck}

/-- Disabling calls leaves what is known before the walk as it is. -/
theorem sameStart_of_silences (silences : Deck.Silences config.directives 0 deck quiet)
    (lifted : (extractionOf deck (topProgress frame bound)).failure = none) :
    (extractionOf quiet (topProgress frame bound)).failure = none ∧
    SameStart (top frame bound deck : Visit config) (top frame bound quiet) := by
  obtain ⟨quietLifted, definitions⟩ : (extractionOf quiet (topProgress frame bound)).failure =
        none ∧
      (extractionOf quiet (topProgress frame bound)).definitions =
        (extractionOf deck (topProgress frame bound)).definitions :=
    silences.runFrom_eq rfl lifted
  refine ⟨quietLifted, sameStart_top definitions ?_ ?_ ?_⟩
  all_goals rw [deck_extractionOf lifted, deck_extractionOf quietLifted]
  · exact silences.statements_eq fun nest card call => call.notModel
  · exact silences.statements_eq fun nest card call => call.notParam
  · rw [silences.statements_eq fun nest card call => call.notGlobal]
    exact fun card => Iff.rfl

/-- Disabling calls leaves the other calls settled. -/
theorem Settled.of_silences (silences : Deck.Silences config.directives 0 deck quiet)
    (settled : (top frame bound deck : Visit config).Settled catalog) :
    (top frame bound quiet : Visit config).Settled catalog := by
  have lifted : (extractionOf deck (topProgress frame bound)).failure = none := settled.lifted
  obtain ⟨quietLifted, same⟩ := sameStart_of_silences silences lifted
  exact settled.of_sameStart lifted quietLifted same
    fun card live member => silences.mem_liftDefinitions live member

theorem length_places_top (lifted : (extractionOf deck (topProgress frame bound)).failure = none) :
    ((top frame bound deck : Visit config).places catalog).length = deck.length := by
  unfold places
  rw [List.length_map, cards_top lifted, List.length_map, Deck.length_liftDefinitions]

/-- What stands in the place of a card that is not disabled is what stood there before. -/
theorem getElem?_places_of_silences (silences : Deck.Silences config.directives 0 deck quiet)
    (lifted : (extractionOf deck (topProgress frame bound)).failure = none) {i : Nat} {card : Card}
    (before : deck[i]? = some card) (after : quiet[i]? = some card) :
    ((top frame bound quiet : Visit config).places catalog)[i]? =
      ((top frame bound deck : Visit config).places catalog)[i]? := by
  obtain ⟨quietLifted, same⟩ := sameStart_of_silences silences lifted
  have place_eq : (top frame bound quiet : Visit config).place catalog =
      (top frame bound deck : Visit config).place catalog :=
    funext fun card => same.place_eq card
  unfold places
  rw [cards_top lifted, cards_top quietLifted, List.getElem?_map, List.getElem?_map,
    List.getElem?_map, List.getElem?_map, silences.getElem?_liftDefinitions before after, place_eq]

end Visit

/-- Calls beside each other are independent.  If some calls of the top level are disabled in a deck
that can be expanded, none of which is at the same time a global, model or parameter statement, the
result can be expanded too.  In both expansions each card stands in its place with what is added
behind it, and at every card that is the same in both decks these are the same. -/
theorem sibling_calls_independent {store : CacheStore} {bound : Bindings} {block : Option Text}
    {deck quiet : Deck} {top twin : Visit config} {expansion : Expansion config.casePolicy}
    (starts : Visit.top? config store bound block deck = some top)
    (twinStarts : Visit.top? config store bound block quiet = some twin)
    (silences : Deck.Silences config.directives 0 top.deck twin.deck)
    (ran : run config catalog store bound block deck = .ok expansion) :
    ∃ other, run config catalog store bound block quiet = .ok other ∧
      expansion.deck = (top.places catalog).flatMap Place.cards ∧
      other.deck = (twin.places catalog).flatMap Place.cards ∧
      (top.places catalog).length = top.deck.length ∧
      (twin.places catalog).length = twin.deck.length ∧
      ∀ (i : Nat) (card : Card), top.deck[i]? = some card → twin.deck[i]? = some card →
        (twin.places catalog)[i]? = (top.places catalog)[i]? := by
  obtain ⟨settled, whole⟩ := Visit.settled_of_run starts ran
  obtain ⟨frame, bindings, supplied, begins⟩ := Visit.exists_supplied_of_top? starts
  rw [begins] at starts twinStarts
  cases starts
  cases twinStarts
  have quietSettled := settled.of_silences silences
  obtain ⟨other, quietRan, quietWhole⟩ := quietSettled.run (begins quiet)
  exact ⟨other, quietRan, whole, quietWhole, Visit.length_places_top settled.lifted,
    Visit.length_places_top quietSettled.lifted,
    fun i card before after =>
      Visit.getElem?_places_of_silences silences settled.lifted before after⟩

/-- Two calls of a definition, the first of them disabled: the second is replaced as before. -/
theorem sibling_calls_independent_pair :
    let front : Deck := [".subckt s a", "r1 a n 1", ".ends"].map fun line =>
      { text := line.toList }
    let first : Card := { text := "x1 p s".toList }
    let second : Card := { text := "x2 q s".toList }
    let top : Visit {} := .top {} ⟨.empty, .empty⟩ (front ++ [first, second])
    let twin : Visit {} := .top {} ⟨.empty, .empty⟩ (front ++ [first.disable, second])
    Deck.Silences {} 0 top.deck twin.deck ∧
    (∃ other, run {} .standard NameTable.empty ⟨.empty, .empty⟩ none twin.deck = .ok other ∧
      other.deck = (twin.places .standard).flatMap Place.cards) ∧
    (twin.places .standard)[4]? = (top.places .standard)[4]? ∧
    (top.places .standard)[4]? = some
      { card := second.disable, added := [{ text := "r1_x2 q n_x2 1".toList }] } := by
  intro front first second top twin
  have silences : Deck.Silences {} 0 top.deck twin.deck :=
    .kept (.kept (.kept (.silenced
      ⟨by decide, by decide, by decide, by decide, by decide, by decide⟩ (.kept (.nil _)))))
  obtain ⟨expansion, ran, -⟩ : ∃ expansion, run {} .standard NameTable.empty ⟨.empty, .empty⟩ none
      top.deck = .ok expansion ∧ True :=
    exists_of_passes (fun _ => true) (by decide +kernel) fun _ _ _ => trivial
  obtain ⟨other, twinRan, -, twinWhole, -, -, same⟩ :=
    sibling_calls_independent rfl rfl silences ran
  exact ⟨silences, ⟨other, twinRan, twinWhole⟩, same 4 second rfl rfl, by decide +kernel⟩

/-- A call whose keyword declares something as well is missed by the call beside it: a node is no
longer global, a model is no longer declared, a parameter has no value. -/
theorem siblings_depend_on_declaring_calls :
    let definition (line : String) : Deck := [".subckt s a", line, ".ends"].map fun line =>
      { text := line.toList }
    let call : Card := { text := "x1 b s".toList }
    let declares (text : String) : Card := { text := text.toList }
    let expanded (config : Config) (deck : Deck) : Option (List Text) :=
      (run config .standard NameTable.empty ⟨.empty, .empty⟩ none deck).toOption.map
        fun expansion => expansion.deck.liveTexts
    (expanded { directives := { global := "xg".toList } }
          (definition "r1 a n 1" ++ [declares "xg n s", call]) =
        some ["r1_xg n n 1".toList, "r1_x1 b n 1".toList] ∧
      expanded { directives := { global := "xg".toList } }
          (definition "r1 a n 1" ++ [(declares "xg n s").disable, call]) =
        some ["r1_x1 b n_x1 1".toList]) ∧
    (expanded { directives := { model := "xm".toList }, strictModels := true }
          (definition "q1 a a a nm" ++ [declares "xm nm s", call]) =
        some ["q1_xm nm nm nm nm".toList, "q1_x1 b b b nm".toList] ∧
      expanded { directives := { model := "xm".toList }, strictModels := true }
          (definition "q1 a a a nm" ++ [(declares "xm nm s").disable, call]) =
        none) ∧
    expanded { directives := { param := "xp".toList } }
          (definition "r1 a 0 w" ++ [declares "xp w=1", call]) =
        some ["r1_x1 b 0 1".toList] ∧
    expanded { directives := { param := "xp".toList } }
          (definition "r1 a 0 w" ++ [(declares "xp w=1").disable, call]) =
        some ["r1_x1 b 0 w".toList] := by
  decide +kernel

end Expansion

end Netlist

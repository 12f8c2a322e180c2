import Netlist.Proofs.Places

/-!
# Declarations in front of a deck

A deck may begin with cards that only declare: definitions, parameter
statements and model statements.  To expand it is to expand the rest of it
over what those cards declare, and to put them in front of the result.
-/

namespace Netlist

namespace Deck

theorem live_cons_of_live {card : Card} (live : card.isLive = true) (rest : Deck) :
    Deck.live (card :: rest) = card :: rest.live := List.filter_cons_of_pos live

theorem live_cons_of_idle {card : Card} (idle : card.isLive = false) (rest : Deck) :
    Deck.live (card :: rest) = rest.live := List.filter_cons_of_neg (by simp [idle])

theorem live_append (front back : Deck) : (front ++ back).live = front.live ++ back.live :=
  List.filter_append ..

theorem live_live (deck : Deck) : deck.live.live = deck.live := by
  unfold live
  rw [List.filter_filter]
  simp

end Deck

/-! ## Extraction in two parts -/

namespace Extraction

variable {directives : Directives} {policy : CasePolicy} {phase : Phase}

/-- What is extracted from one deck and then from another. -/
def followedBy (front back : Extraction) : Extraction :=
  { deck := front.deck ++ back.deck
    definitions := back.definitions
    warnings := front.warnings ++ back.warnings
    failure := back.failure }

/-- A deck that can be extracted leaves nothing open, so that a deck behind it is extracted by
itself. -/
theorem runFrom_append {opened : Option OpenDefinition} {table : DefinitionTable} {front : Deck}
    (ok : (runFrom directives policy phase opened table front).failure = none) (back : Deck) :
    runFrom directives policy phase opened table (front ++ back) =
      (runFrom directives policy phase opened table front).followedBy
        (runFrom directives policy phase none
          (runFrom directives policy phase opened table front).definitions back) := by
  induction front generalizing opened table with
  | nil =>
      cases opened with
      | none => rfl
      | some opened => cases ok
  | cons card rest ih =>
      rcases takes_or_stops directives policy opened table card with
        ⟨fault, stops⟩ | ⟨image, next, found, warnings, takes⟩
      · rw [stops.runFrom_eq] at ok
        cases ok
      · rw [takes.runFrom_eq] at ok ⊢
        rw [List.cons_append, takes.runFrom_eq, ih ok]
        simp only [followedBy, warn, behind, List.append_assoc, List.cons_append]

/-- Cards that delimit no definition stay as they are. -/
theorem runFrom_of_plain {deck : Deck}
    (plain : ∀ card ∈ deck, card.isLive = true →
      directives.isStart card.keyword = false ∧ directives.isEnd card.keyword = false)
    (table : DefinitionTable) :
    runFrom directives policy phase none table deck = ⟨deck, table, [], none⟩ := by
  induction deck with
  | nil => rfl
  | cons card rest ih =>
      have later := ih fun card member => plain card (List.mem_cons_of_mem _ member)
      cases live : card.isLive with
      | false =>
          have takes : Takes directives policy card none table card none table [] :=
            .idle none table live
          rw [takes.runFrom_eq, later]
          rfl
      | true =>
          obtain ⟨notStart, notEnd⟩ := plain card (List.mem_cons_self ..) live
          have takes : Takes directives policy card none table card none table [] :=
            .keep table live notStart notEnd
          rw [takes.runFrom_eq, later]
          rfl

/-- Cards that are disabled are passed over, and the phase shows only in what is said of a
fault. -/
theorem runFrom_live (other : Phase) (opened : Option OpenDefinition) (table : DefinitionTable)
    (deck : Deck) :
    (runFrom directives policy other opened table deck.live).failure.isNone =
        (runFrom directives policy phase opened table deck).failure.isNone ∧
    (runFrom directives policy other opened table deck.live).definitions =
        (runFrom directives policy phase opened table deck).definitions ∧
    (runFrom directives policy other opened table deck.live).deck.live =
        (runFrom directives policy phase opened table deck).deck.live := by
  induction deck generalizing opened table with
  | nil => cases opened <;> exact ⟨rfl, rfl, rfl⟩
  | cons card rest ih =>
      cases live : card.isLive with
      | false =>
          have takes : Takes directives policy card opened table card opened table [] :=
            .idle opened table live
          obtain ⟨failure, definitions, cards⟩ := ih opened table
          rw [takes.runFrom_eq, Deck.live_cons_of_idle live]
          exact ⟨failure, definitions, cards.trans (Deck.live_cons_of_idle live _).symm⟩
      | true =>
          rw [Deck.live_cons_of_live live]
          rcases takes_or_stops directives policy opened table card with
            ⟨fault, stops⟩ | ⟨image, next, found, warnings, takes⟩
          · rw [stops.runFrom_eq, stops.runFrom_eq]
            refine ⟨rfl, rfl, ?_⟩
            dsimp only
            rw [Deck.live_cons_of_live live, Deck.live_cons_of_live live, Deck.live_live]
          · obtain ⟨failure, definitions, cards⟩ := ih next found
            rw [takes.runFrom_eq, takes.runFrom_eq]
            refine ⟨failure, definitions, ?_⟩
            show Deck.live (image :: _) = Deck.live (image :: _)
            cases left : image.isLive with
            | false =>
                rw [Deck.live_cons_of_idle left, Deck.live_cons_of_idle left]
                exact cards
            | true =>
                rw [Deck.live_cons_of_live left, Deck.live_cons_of_live left]
                exact congrArg (List.cons image) cards

end Extraction

/-! ## Cards that only declare -/

/-- The card states parameters or a model, and nothing else. -/
structure Card.Declares (directives : Directives) (card : Card) : Prop where
  kind : directives.isModel card.keyword = !directives.isParam card.keyword
  notGlobal : directives.isGlobal card.keyword = false
  notCall : directives.isCall card.keyword = false

namespace Deck

variable (directives : Directives)

theorem modelNames_append (front back : Deck) :
    (front ++ back).modelNames directives =
      front.modelNames directives ++ back.modelNames directives := by
  unfold modelNames
  rw [live_append, List.filter_append, List.filterMap_append]

theorem globalNames_append (front back : Deck) :
    (front ++ back).globalNames directives =
      front.globalNames directives ++ back.globalNames directives := by
  unfold globalNames
  rw [live_append, List.filter_append, List.flatMap_append]

theorem collectParams_append (bound : Bindings) (front back : Deck) :
    (front ++ back).collectParams directives bound =
      ((back.collectParams directives (front.collectParams directives bound).1).1,
        (front.collectParams directives bound).2 ++
          (back.collectParams directives (front.collectParams directives bound).1).2) := by
  simp only [collectParams_eq, statements, live_append, List.filter_append, List.foldl_append,
    List.map_append]

variable {directives} in
/-- No node is made global by a declaration. -/
theorem globalNames_of_declares {deck : Deck}
    (declares : ∀ card ∈ deck, card.isLive = true → card.Declares directives) :
    deck.globalNames directives = [] := by
  have none : (deck.live.filter fun card => directives.isGlobal card.keyword) = [] := by
    rw [List.filter_eq_nil_iff]
    intro card member
    obtain ⟨inside, live⟩ := List.mem_filter.mp member
    simp [(declares card inside live).notGlobal]
  unfold globalNames
  rw [none]
  rfl

end Deck

namespace Progress

variable {policy : CasePolicy}

/-- What was gathered, with further warnings in front of the others. -/
def behindWarnings (warnings : List Warning) (progress : Progress policy) : Progress policy :=
  { progress with warnings := warnings ++ progress.warnings }

theorem recordAll_behindWarnings (warnings : List Warning) (progress : Progress policy)
    (entries : List Entry) :
    (progress.behindWarnings warnings).recordAll entries =
      (progress.recordAll entries).behindWarnings warnings := by
  induction entries generalizing progress with
  | nil => rfl
  | cons entry rest ih =>
      have here : (progress.behindWarnings warnings).record entry =
          (progress.record entry).behindWarnings warnings := by
        cases entry with
        | warnings more =>
            exact congrArg (fun warnings => { progress with warnings })
              (List.append_assoc warnings progress.warnings more)
        | functions functions => rfl
        | step step => rfl
        | unknown name card => rfl
      unfold recordAll at ih ⊢
      rw [List.foldl_cons, List.foldl_cons, here, ih]

end Progress

namespace Expansion

variable {config : Config} {catalog : Catalog} {frame : Frame config.casePolicy} {bound : Bindings}
  {front : Deck}

/-- A declaration as it is left: parameter statements are taken in, and parameters are put into
model statements. -/
def stated (config : Config) (catalog : Catalog) (params : ParamTable) (card : Card) : Card :=
  let card := Deck.takenIn config.directives card
  if card.isLive then { card with text := substituteTop config catalog params card.text } else card

/-- The expansion with declarations in front of its cards. -/
def behind (catalog : Catalog) (front : Extraction) (expansion : Expansion config.casePolicy) :
    Expansion config.casePolicy :=
  { expansion with
    deck := front.deck.map (stated config catalog expansion.bindings.params) ++ expansion.deck
    warnings := front.warnings ++ expansion.warnings }

/-- The parameters and functions that are known behind the declarations. -/
def boundAfter (frame : Frame config.casePolicy) (bound : Bindings) (front : Deck) : Bindings :=
  ((extractionOf front (topProgress frame bound)).deck.collectParams config.directives bound).1

/-- A walk over declarations only puts parameters into them. -/
theorem walk_declarations {below : Option (Expander config)} {params : ParamTable} {deck : Deck}
    (declares : ∀ card ∈ deck, card.isLive = true → card.Declares config.directives)
    (progress : Progress config.casePolicy) :
    walk catalog below 0 params (deck.map (Deck.takenIn config.directives)) progress =
      ⟨progress, params, deck.map (stated config catalog params), none⟩ := by
  induction deck with
  | nil => rfl
  | cons card rest ih =>
      have later := ih fun card member => declares card (List.mem_cons_of_mem _ member)
      rw [List.map_cons, walk, later, List.map_cons]
      cases live : (Deck.takenIn config.directives card).isLive with
      | false =>
          have here : stated config catalog params card = Deck.takenIn config.directives card :=
            if_neg (by simp [live])
          rw [if_pos (by simp), here]
          rfl
      | true =>
          have here : stated config catalog params card =
              { Deck.takenIn config.directives card with
                text := substituteTop config catalog params
                  (Deck.takenIn config.directives card).text } := if_pos live
          obtain ⟨same, -⟩ := Deck.eq_of_takenIn live
          rw [same] at live here ⊢
          have notCall := (declares card (List.mem_cons_self ..) live).notCall
          rw [if_neg (by simp), if_neg (by simp [notCall]), here]
          rfl

/-- The parameters in force do not change during a walk. -/
theorem params_walk (below : Option (Expander config)) (depth : Nat) (params : ParamTable)
    (deck : Deck) (progress : Progress config.casePolicy) :
    (walk catalog below depth params deck progress).params = params := by
  induction deck generalizing progress with
  | nil => rfl
  | cons card rest ih =>
      rw [walk]
      split
      · exact ih progress
      · split
        · split
          · rfl
          next middle cards replaced => exact ih middle
        · exact ih progress

/-- Warnings that were given before are still there after a walk, and make no difference to it. -/
theorem walk_behindWarnings (depth : Nat) (params : ParamTable) (deck : Deck)
    (progress : Progress config.casePolicy) (warnings : List Warning) :
    let level := walk catalog (some (expandAt catalog (depth + 1))) depth params deck progress
    walk catalog (some (expandAt catalog (depth + 1))) depth params deck
        (progress.behindWarnings warnings) =
      { level with progress := level.progress.behindWarnings warnings } := by
  have alike : progress.Alike (progress.behindWarnings warnings) := ⟨rfl, fun _ => rfl⟩
  rcases walk_sideBySide catalog depth params (fun less _ => steady_expandAt catalog less depth)
    deck alike rfl (Nat.le_refl _) with ⟨less, -⟩ | same
  · exact absurd less (Nat.lt_irrefl _)
  generalize walk catalog (some (expandAt catalog (depth + 1))) depth params deck
    (progress.behindWarnings warnings) = other at same ⊢
  intro level
  obtain ⟨entries, gathered, otherGathered⟩ := same.gathered
  rw [Progress.recordAll_behindWarnings, ← gathered] at otherGathered
  rw [← otherGathered, ← same.params, ← same.deck, ← same.failure]

/-- What the top level starts its walk with. -/
theorem opening_top (deck : Deck) :
    opening 0 bound.params deck (topProgress frame bound) =
      let lifted := extractionOf deck (topProgress frame bound)
      let (known, cards) := lifted.deck.collectParams config.directives bound
      ({ scopes :=
          (Scopes.start config.maxDepth).withTop (openingFrame deck (topProgress frame bound))
         globals := (lifted.deck.globalNames config.directives).foldl .add .empty
         functions := known.functions
         warnings := lifted.warnings },
        known.params, cards) := rfl

/-- A top level whose definitions cannot be lifted out has no result. -/
theorem toOption_of_failed {deck : Deck} {diagnosis : Diagnosis}
    (failed : (extractionOf deck (topProgress frame bound)).failure = some diagnosis) :
    (ofLevel config ((Visit.top frame bound deck).expand catalog)).toOption = none := by
  cases ok : ((Visit.top frame bound deck : Visit config).expand catalog).failure with
  | none =>
      have lifted : (extractionOf deck (topProgress frame bound)).failure = none :=
        Visit.lifted_of_expand ok
      rw [failed] at lifted
      cases lifted
  | some _ =>
      unfold ofLevel
      rw [ok]
      rfl

/-- Cards and warnings in front do not decide whether a level has a result. -/
theorem toOption_ofLevel_behind (front : Extraction) (level : Level config.casePolicy) :
    (ofLevel config
        { progress := level.progress.behindWarnings front.warnings
          params := level.params
          deck := front.deck.map (stated config catalog level.params) ++ level.deck
          failure := level.failure }).toOption =
      (ofLevel config level).toOption.map (behind catalog front) := by
  obtain ⟨⟨_, _, _, _, _, unresolved, _⟩, _, _, failure⟩ := level
  cases failure with
  | some diagnosis => rfl
  | none => cases unresolved <;> rfl

/-- Of declarations, the models are left live. -/
theorem liveTexts_stated {deck : Deck} (params : ParamTable)
    (declares : ∀ card ∈ deck, card.isLive = true → card.Declares config.directives) :
    Deck.liveTexts (deck.map (stated config catalog params)) =
      (deck.statements config.directives.isModel).map fun card =>
        substituteTop config catalog params card.text := by
  induction deck with
  | nil => rfl
  | cons card rest ih =>
      have later := ih fun card member => declares card (List.mem_cons_of_mem _ member)
      unfold Deck.liveTexts Deck.statements at later ⊢
      rw [List.map_cons]
      cases live : card.isLive with
      | false =>
          have image : stated config catalog params card = card := by
            simp [stated, Deck.takenIn, live]
          rw [image, Deck.live_cons_of_idle live, Deck.live_cons_of_idle live]
          exact later
      | true =>
          have kind := (declares card (List.mem_cons_self ..) live).kind
          rw [Deck.live_cons_of_live live]
          cases param : config.directives.isParam card.keyword with
          | true =>
              have image : stated config catalog params card = card.disable := by
                simp [stated, Deck.takenIn, live, param, Card.isLive_disable]
              rw [image, Deck.live_cons_of_idle card.isLive_disable,
                List.filter_cons_of_neg (by simp [kind, param])]
              exact later
          | false =>
              have image : stated config catalog params card =
                  { card with text := substituteTop config catalog params card.text } := by
                simp [stated, Deck.takenIn, live, param]
              have still : Card.isLive { card with
                  text := substituteTop config catalog params card.text } = true := live
              rw [image, Deck.live_cons_of_live still,
                List.filter_cons_of_pos (by simp [kind, param])]
              exact congrArg (List.cons _) later

section Front

variable (ok : (extractionOf front (topProgress frame bound)).failure = none)

include ok

/-- The definitions behind declarations are extracted over those of the declarations. -/
theorem extractionOf_append (main : Deck) :
    extractionOf (front ++ main) (topProgress frame bound) =
      (extractionOf front (topProgress frame bound)).followedBy
        (extractionOf main (topProgress (openingFrame front (topProgress frame bound))
          (boundAfter frame bound front))) :=
  Extraction.runFrom_append ok main

/-- A deck behind declarations starts as it would over what they declare. -/
theorem opening_append
    (declares : ∀ card ∈ (extractionOf front (topProgress frame bound)).deck,
      card.isLive = true → card.Declares config.directives) (main : Deck) :
    opening 0 bound.params (front ++ main) (topProgress frame bound) =
      let behind := opening 0 (boundAfter frame bound front).params main
        (topProgress (openingFrame front (topProgress frame bound)) (boundAfter frame bound front))
      (behind.1.behindWarnings (extractionOf front (topProgress frame bound)).warnings,
        behind.2.1,
        (extractionOf front (topProgress frame bound)).deck.map
          (Deck.takenIn config.directives) ++ behind.2.2) := by
  have split := extractionOf_append ok main
  have frames : openingFrame (front ++ main) (topProgress frame bound) =
      openingFrame main (topProgress (openingFrame front (topProgress frame bound))
        (boundAfter frame bound front)) := by
    unfold openingFrame
    rw [split, Extraction.followedBy, Deck.modelNames_append, List.foldl_append]
    rfl
  have globals : (extractionOf front (topProgress frame bound)).deck.globalNames
      config.directives = [] := Deck.globalNames_of_declares declares
  have taken : ((extractionOf front (topProgress frame bound)).deck.collectParams
      config.directives bound).2 = (extractionOf front (topProgress frame bound)).deck.map
        (Deck.takenIn config.directives) := congrArg Prod.snd (Deck.collectParams_eq ..)
  dsimp only
  rw [opening_top, opening_top, frames, split]
  simp only [Extraction.followedBy, Deck.globalNames_append, globals, List.nil_append,
    Deck.collectParams_append, Progress.behindWarnings]
  rw [taken]
  rfl

/-- A deck behind declarations that can be extracted is expanded as it would be over what they
declare. -/
theorem expand_append
    (declares : ∀ card ∈ (extractionOf front (topProgress frame bound)).deck,
      card.isLive = true → card.Declares config.directives) {main : Deck}
    (lifted : (extractionOf main (topProgress (openingFrame front (topProgress frame bound))
      (boundAfter frame bound front))).failure = none) :
    let level := (Visit.top (openingFrame front (topProgress frame bound))
      (boundAfter frame bound front) main : Visit config).expand catalog
    (Visit.top frame bound (front ++ main) : Visit config).expand catalog =
      { progress := level.progress.behindWarnings
          (extractionOf front (topProgress frame bound)).warnings
        params := level.params
        deck := (extractionOf front (topProgress frame bound)).deck.map
          (stated config catalog level.params) ++ level.deck
        failure := level.failure } := by
  have whole : (extractionOf (front ++ main) (topProgress frame bound)).failure = none := by
    rw [extractionOf_append ok]
    exact lifted
  intro level
  have walked : level = _ := Visit.expand_eq lifted
  rw [Visit.expand_eq whole]
  unfold Visit.walkFrom Visit.start Visit.inForce Visit.cards Visit.top at walked ⊢
  dsimp only at walked ⊢
  rw [opening_append ok declares main]
  dsimp only
  have passed := @walk_declarations config catalog (some (expandAt catalog 1))
    (opening 0 (boundAfter frame bound front).params main (topProgress
      (openingFrame front (topProgress frame bound)) (boundAfter frame bound front))).2.1
    _ declares
  have params : level.params = _ := walked ▸ params_walk ..
  rw [walk_append catalog (by rw [passed]), passed, walk_behindWarnings, ← walked, ← params]
  rfl

/-- To expand a deck behind declarations is to expand it over what they declare and to put them in
front of the result. -/
theorem expandFrom_append
    (declares : ∀ card ∈ (extractionOf front (topProgress frame bound)).deck,
      card.isLive = true → card.Declares config.directives) (main : Deck) :
    (expandFrom config catalog frame bound (front ++ main)).toOption =
      (expandFrom config catalog (openingFrame front (topProgress frame bound))
        (boundAfter frame bound front) main).toOption.map
          (behind catalog (extractionOf front (topProgress frame bound))) := by
  rw [Visit.expandFrom_eq, Visit.expandFrom_eq]
  cases lifted : (extractionOf main (topProgress (openingFrame front (topProgress frame bound))
      (boundAfter frame bound front))).failure with
  | none =>
      rw [expand_append ok declares lifted]
      exact toOption_ofLevel_behind ..
  | some diagnosis =>
      have whole : (extractionOf (front ++ main) (topProgress frame bound)).failure =
          some diagnosis := by
        rw [extractionOf_append ok]
        exact lifted
      rw [toOption_of_failed whole, toOption_of_failed lifted]
      rfl

end Front

end Expansion

end Netlist

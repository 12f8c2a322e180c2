import Netlist.Proofs.UnknownCalls

/-!
# Faults that the deck shows

A failure names its faults and gives back the deck as far as the expansion got.
The message of the first fault stands on a card of that deck, whatever the
fault is and however deep it was met, with one exception: if the definitions of
the top level cannot be lifted out, no card has a note.
-/

namespace Netlist

/-- The deck of the failure shows the message of the first diagnosis. -/
def Failure.Visible (failure : Failure) : Prop :=
  ∃ cards first, failure.deck = some cards ∧ failure.diagnoses.head? = some first ∧
    ∃ card ∈ cards, card.note = some first.fault.message

theorem Failure.not_visible_of_unmarked {diagnoses : List Diagnosis} {cards : Deck}
    (clean : cards.Unmarked) : ¬ Visible ⟨diagnoses, some cards⟩ := by
  rintro ⟨_, first, ⟨⟩, -, card, member, noted⟩
  rw [clean card member] at noted
  cases noted

namespace Expansion

variable {config : Config} (catalog : Catalog) {store : CacheStore} {bound : Bindings}
  {block : Option Text} {deck : Deck} {top : Visit config} {failure : Failure}

/-- A fatal fault of a walk is noted on the call that led to it. -/
theorem visible_of_stopped (clean : CleanStart store block deck)
    (starts : Visit.top? config store bound block deck = some top)
    (lifted : (extractionOf top.deck top.progress).failure = none) {diagnosis : Diagnosis}
    (stopped : (top.expand catalog).failure = some diagnosis) :
    Failure.Visible ⟨[diagnosis], some (top.expand catalog).deck⟩ := by
  obtain ⟨unnoted, scopes⟩ := clean.top starts
  rw [Visit.expand_eq lifted] at stopped ⊢
  obtain ⟨front, card, back, next, stops⟩ := exists_stopsAt stopped
  have inside : card ∈ top.cards := by
    rw [stops.whole]
    exact List.mem_append_right _ (List.mem_cons_self ..)
  have bare : card.note = none := (unmarked_opening unnoted scopes).1 card inside
  refine ⟨_, diagnosis, rfl, rfl, card.annotate diagnosis.fault.message, ?_, ?_⟩
  · unfold Visit.walkFrom
    rw [stops.walk_eq]
    exact List.mem_append_right _ (List.mem_cons_self ..)
  · rw [Card.annotate, bare]
    rfl

/-- The first unknown call is the first that is reported, and it is noted on its card. -/
theorem visible_of_unresolved (clean : CleanStart store block deck)
    (starts : Visit.top? config store bound block deck = some top)
    (whole : (top.expand catalog).failure = none)
    (reported : (top.expand catalog).progress.unresolved ≠ []) :
    Failure.Visible ⟨(top.expand catalog).progress.unresolved,
      some (top.expand catalog).deck⟩ := by
  obtain ⟨unresolved, shown⟩ := unresolved_of_whole catalog clean starts whole
  rw [unresolved] at reported ⊢
  cases calls : unknownCalls config store bound block deck with
  | nil =>
      rw [calls] at reported
      exact absurd rfl reported
  | cons met rest =>
      rw [calls] at shown
      obtain ⟨card, cards, visible, -, noted⟩ := List.forall₂_cons_left_iff.mp shown
      have member : card ∈ (top.expand catalog).deck.noted := by
        rw [noted]
        exact List.mem_cons_self ..
      exact ⟨_, met.diagnosis, rfl, rfl, card, (List.mem_filter.mp member).1, visible.fields.1⟩

/-- If the definitions cannot be lifted out, that is the one fault, and the cards are given back as
far as they have been read. -/
theorem run_of_unlifted {diagnosis : Diagnosis}
    (failed : (Extraction.run config.directives config.casePolicy .expand .empty deck).failure =
      some diagnosis) :
    run config catalog store bound none deck =
      .error ⟨[diagnosis], some
        (Extraction.run config.directives config.casePolicy .expand .empty deck).deck⟩ := by
  let progress : Progress config.casePolicy := topProgress {} bound
  have stopped : (extractionOf deck progress).failure = some diagnosis := failed
  have starts : Visit.top? config store bound none deck = some (.top {} bound deck) := rfl
  rw [Visit.run_of_top? catalog starts, Visit.expand, expandAt_eq, Visit.top,
    levelWith_of_failed catalog stopped]
  rfl

/-- A run that fails on a deck without notes gives a deck back.  The message of its first fault is
noted there just in case the definitions of the deck could be lifted out.  Where they could not, the
one fault is that of lifting them out, and no card has a note. -/
theorem first_fault_visible_iff_lifted (clean : deck.Unmarked)
    (failed : run config catalog store bound none deck = .error failure) :
    let extraction :=
      Extraction.run config.directives config.casePolicy .expand .empty deck
    (failure.Visible ↔ extraction.failure = none) ∧
    ∀ diagnosis, extraction.failure = some diagnosis →
      failure = ⟨[diagnosis], some extraction.deck⟩ ∧ extraction.deck.Unmarked := by
  intro extraction
  cases lifted : extraction.failure with
  | some diagnosis =>
      have unnoted : extraction.deck.Unmarked :=
        (Extraction.unmarked_run clean Definition.allUnmarked_empty).1
      rw [run_of_unlifted catalog lifted] at failed
      cases failed
      constructor
      · simpa using Failure.not_visible_of_unmarked unnoted
      · rintro _ ⟨⟩
        exact ⟨rfl, unnoted⟩
  | none =>
      have start : CleanStart store none deck := ⟨clean, fun _ _ named => by cases named⟩
      have starts : Visit.top? config store bound none deck = some (.top {} bound deck) := rfl
      refine ⟨⟨fun _ => rfl, fun _ => ?_⟩, by simp⟩
      rw [Visit.run_of_top? catalog starts, ofLevel] at failed
      split at failed
      next diagnosis stopped =>
        cases failed
        exact visible_of_stopped catalog start starts lifted stopped
      next whole =>
        split at failed
        · cases failed
        next told =>
          cases failed
          refine visible_of_unresolved catalog start starts whole ?_
          intro nothing
          rw [nothing] at told
          exact told rfl

/-- The inner definition has no name, which is noticed only where the outer one is called. -/
theorem first_fault_visible_iff_lifted_nested :
    let deck : Deck := [".subckt outer a", ".subckt", ".ends", ".ends", "x1 n outer"].map
      fun line => { text := line.toList }
    (Extraction.run {} .insensitive .expand .empty deck).failure = none ∧
      ∃ failure, run {} .standard .empty ⟨.empty, .empty⟩ none deck = .error failure ∧
        failure.diagnoses.map Diagnosis.fault = [.missingName ".subckt".toList] ∧
        failure.Visible := by
  intro deck
  have lifted : (Extraction.run {} .insensitive .expand .empty deck).failure = none := by
    decide +kernel
  have told : faults (run {} .standard .empty ⟨.empty, .empty⟩ none deck) =
      [.missingName ".subckt".toList] := by
    decide +kernel
  refine ⟨lifted, ?_⟩
  cases ran : run {} .standard .empty ⟨.empty, .empty⟩ none deck with
  | ok expansion =>
      rw [ran] at told
      cases told
  | error failure =>
      rw [ran] at told
      have unnoted : deck.Unmarked := by
        intro card member
        obtain ⟨line, -, rfl⟩ := List.mem_map.mp member
        rfl
      exact ⟨failure, rfl, told,
        (first_fault_visible_iff_lifted .standard unnoted ran).1.mpr lifted⟩

/-- An end without a start is reported, and the deck shows nothing of it. -/
theorem stray_end_not_visible :
    let card : Card := { text := ".ends".toList, number := 1 }
    ∃ failure, run {} .standard .empty ⟨.empty, .empty⟩ none [card] = .error failure ∧
      failure.diagnoses.map Diagnosis.fault = [.endWithoutStart ".ends".toList] ∧
      failure.deck = some [card] ∧ ¬ failure.Visible := by
  intro card
  let diagnosis : Diagnosis := .ofCard .expand (.endWithoutStart ".ends".toList) card
  refine ⟨⟨[diagnosis], some [card]⟩, by rfl, rfl, rfl, ?_⟩
  exact Failure.not_visible_of_unmarked (Deck.unmarked_singleton.mpr rfl)

end Expansion

end Netlist

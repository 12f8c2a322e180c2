import Netlist.Proofs.Descent

/-!
# What a call leaves behind

However a call ends, the frames are those from before it: the level below
works in a frame of its own, and that frame is left on every way out.  A call
that meets a fault leaves the cards of its level alone.  The level then notes
the fault on the card of the call, and nothing else about its cards changes.
-/

namespace Netlist

namespace Expansion

variable {config : Config} (catalog : Catalog)

/-! ## Frames -/

/-- The expander changes the innermost frame at most, whether it fails or not. -/
def Contained (expand : Expander config) : Prop :=
  ∀ params deck progress, ∃ top,
    (expand params deck progress).progress.scopes = progress.scopes.withTop top

section Frames

variable {catalog} {below : Option (Expander config)} {depth : Nat} {params : ParamTable}

/-- The frame of a call is left on every way out, and with it whatever was put into it. -/
theorem scopes_finishCall {card : Card} {call : Call} {definition : Definition}
    {pins : Pins config.casePolicy} {scopes inner : Scopes config.casePolicy}
    (entered : scopes.enter? = some inner) {level : Level config.casePolicy}
    (contained : ∃ top, level.progress.scopes = inner.withTop top) :
    (finishCall catalog depth card call definition pins level).1.scopes = scopes := by
  obtain ⟨top, changed⟩ := contained
  have left (last : Frame config.casePolicy) :
      (level.progress.scopes.withTop last).leave = scopes := by
    rw [changed]
    exact Scopes.leave_withTop entered last
  unfold finishCall
  cases level.failure with
  | some diagnosis => exact left level.progress.scopes.top
  | none =>
      dsimp only
      split
      · exact left _
      · exact left _

/-- A call leaves the scopes as it found them, whatever comes of it. -/
theorem scopes_expandCall (contained : ∀ expand, below = some expand → Contained expand)
    (card : Card) (progress : Progress config.casePolicy) :
    (expandCall catalog below depth params card progress).1.scopes = progress.scopes := by
  unfold expandCall
  split
  · rfl
  next call read =>
    dsimp only
    split
    · unfold unresolvedCall
      split <;> rfl
    next definition known =>
      split
      · rfl
      · unfold enterCall
        split
        · rfl
        next pins connected =>
          split
          next expand inner entered =>
            exact scopes_finishCall entered (contained expand rfl _ _ _)
          · rfl

theorem scopes_walk (contained : ∀ expand, below = some expand → Contained expand) (deck : Deck)
    (progress : Progress config.casePolicy) :
    (walk catalog below depth params deck progress).progress.scopes = progress.scopes := by
  induction deck generalizing progress with
  | nil => rfl
  | cons card rest ih =>
      rw [walk]
      split
      · exact ih progress
      · split
        · have kept : (expandCall catalog below depth params card progress).1.scopes =
              progress.scopes := scopes_expandCall contained card progress
          split
          next middle diagnosis replaced =>
            rw [replaced] at kept
            exact kept
          next middle cards replaced =>
            rw [replaced] at kept
            exact (ih middle).trans kept
        · exact ih progress

variable (catalog) in
/-- A level puts its definitions and models into the innermost frame and changes no other. -/
theorem contained_levelWith (contained : ∀ expand, below = some expand → Contained expand) :
    Contained (levelWith catalog below depth : Expander config) := by
  intro params deck progress
  cases lifted : (extractionOf deck progress).failure with
  | some diagnosis =>
      rw [levelWith_of_failed catalog lifted]
      exact ⟨_, rfl⟩
  | none =>
      rw [levelWith_of_lifted catalog lifted, scopes_walk contained, scopes_opening]
      exact ⟨_, rfl⟩

end Frames

/-- What expands the calls of a level that may go `room` levels deeper, if anything does. -/
def deeper (room depth : Nat) : Option (Expander config) :=
  match room with
  | 0 => none
  | room + 1 => some (expandLevel catalog room (depth + 1))

theorem expandLevel_eq (room depth : Nat) :
    (expandLevel catalog room depth : Expander config) =
      levelWith catalog (deeper catalog room depth) depth := by
  cases room <;> rfl

theorem contained_deeper (room depth : Nat) (expand : Expander config)
    (here : deeper catalog room depth = some expand) : Contained expand := by
  induction room generalizing depth expand with
  | zero => cases here
  | succ room ih =>
      cases here
      rw [expandLevel_eq]
      exact contained_levelWith catalog (ih (depth + 1))

/-! ## Cards -/

/-- A walk over a deck passes the cards in front of a call, and the call then meets a fault. -/
structure StopsAt (below : Option (Expander config)) (depth : Nat) (params : ParamTable)
    (deck : Deck) (progress : Progress config.casePolicy) (front : Deck) (card : Card)
    (back : Deck) (next : Progress config.casePolicy) (diagnosis : Diagnosis) : Prop where
  whole : deck = front ++ card :: back
  passed : (walk catalog below depth params front progress).failure = none
  live : card.isLive = true
  calls : config.directives.isCall card.keyword = true
  fails : expandCall catalog below depth params card
    (walk catalog below depth params front progress).progress = (next, .error diagnosis)

section Cards

variable {catalog} {below : Option (Expander config)} {depth : Nat} {params : ParamTable}
  {progress next : Progress config.casePolicy} {diagnosis : Diagnosis} {deck front back : Deck}
  {card : Card}

/-- The cards in front of the call are as the walk left them, the call has the fault noted on it,
and the cards behind it are untouched. -/
theorem StopsAt.walk_eq
    (stops : StopsAt catalog below depth params deck progress front card back next diagnosis) :
    walk catalog below depth params deck progress =
      ⟨next, params,
        (walk catalog below depth params front progress).deck ++
          card.annotate diagnosis.fault.message :: back,
        some diagnosis⟩ := by
  have awake : ¬ (!card.isLive) = true := by simp [stops.live]
  rw [stops.whole, walk_append catalog stops.passed, walk, if_neg awake, if_pos stops.calls,
    stops.fails]
  rfl

/-- A card that the walk passes belongs to the cards in front of the call. -/
theorem StopsAt.cons {first : Card}
    (ok : (walk catalog below depth params [first] progress).failure = none)
    (later : StopsAt catalog below depth params deck
      (walk catalog below depth params [first] progress).progress front card back next diagnosis) :
    StopsAt catalog below depth params (first :: deck) progress (first :: front) card back next
      diagnosis := by
  have through := walk_append catalog ok front
  rw [List.singleton_append] at through
  constructor
  · rw [later.whole, List.cons_append]
  · rw [through]
    exact later.passed
  · exact later.live
  · exact later.calls
  · rw [through]
    exact later.fails

/-- A card that stops the walk is a call. -/
theorem StopsAt.head {first : Card} (rest : Deck)
    (failed : (walk catalog below depth params [first] progress).failure = some diagnosis) :
    ∃ next, StopsAt catalog below depth params (first :: rest) progress [] first rest next
      diagnosis := by
  rw [walk] at failed
  split at failed
  · cases failed
  next awake =>
    split at failed
    next calls =>
      split at failed
      next middle fault replaced =>
        cases failed
        exact ⟨middle, rfl, rfl, by simpa using awake, calls, replaced⟩
      · cases failed
    · cases failed

/-- A walk that fails has stopped at one of its calls. -/
theorem exists_stopsAt
    (failed : (walk catalog below depth params deck progress).failure = some diagnosis) :
    ∃ front card back next, StopsAt catalog below depth params deck progress front card back next
      diagnosis := by
  induction deck generalizing progress with
  | nil => cases failed
  | cons first rest ih =>
      cases here : (walk catalog below depth params [first] progress).failure with
      | none =>
          have through := walk_append catalog here rest
          rw [List.singleton_append] at through
          rw [through] at failed
          obtain ⟨front, card, back, next, later⟩ := ih failed
          exact ⟨first :: front, card, back, next, later.cons here⟩
      | some fault =>
          obtain ⟨next, stops⟩ := StopsAt.head rest here
          rw [stops.walk_eq] at failed
          cases failed
          exact ⟨[], first, rest, next, stops⟩

end Cards

/-- Whatever comes of a call, the scopes are those from before it.  A walk fails only at a call
that fails, and then the one change to the cards is the note on that call. -/
theorem scopes_and_cards_after_call (room depth : Nat) (params : ParamTable) (deck : Deck)
    (progress : Progress config.casePolicy) :
    (∀ card, (expandCall catalog (deeper catalog room depth) depth params card progress).1.scopes =
      progress.scopes) ∧
    (∀ front card back next diagnosis,
      StopsAt catalog (deeper catalog room depth) depth params deck progress front card back next
          diagnosis →
        walk catalog (deeper catalog room depth) depth params deck progress =
          ⟨next, params,
            (walk catalog (deeper catalog room depth) depth params front progress).deck ++
              card.annotate diagnosis.fault.message :: back,
            some diagnosis⟩) ∧
    (∀ diagnosis,
      (walk catalog (deeper catalog room depth) depth params deck progress).failure =
          some diagnosis →
        ∃ front card back next,
          StopsAt catalog (deeper catalog room depth) depth params deck progress front card back
            next diagnosis) ∧
    ((extractionOf deck progress).failure = none →
      expandLevel catalog room depth params deck progress =
        walk catalog (deeper catalog room depth) depth (opening depth params deck progress).2.1
          (opening depth params deck progress).2.2 (opening depth params deck progress).1) := by
  refine ⟨?_, ?_, ?_, ?_⟩
  · intro card
    exact scopes_expandCall (contained_deeper catalog room depth) card progress
  · intro front card back next diagnosis stops
    exact stops.walk_eq
  · intro diagnosis failed
    exact exists_stopsAt failed
  · intro lifted
    rw [expandLevel_eq, levelWith_of_lifted catalog lifted]

/-- Two definitions are known: the first calls the second, in which a call names no subcircuit. -/
def brokenPair : Progress .insensitive :=
  (@opening {} 0 .empty ([".subckt outer a", "x2 a inner", ".ends", ".subckt inner b", "r1 b 0 1",
    "x3", ".ends"].map fun line => { text := line.toList }) { scopes := .start 4 }).1

/-- The fault of a call two levels down is noted on the call at the top, between cards that stay
as they are, and the scopes know what they knew before. -/
theorem scopes_and_cards_after_call_nested :
    let cards : Deck := ["r5 n 0 1", "x1 n outer", "r6 n 0 1"].map fun line =>
      { text := line.toList }
    let fault := Fault.malformedCall "missing subcircuit name".toList
    (@walk {} .standard (deeper .standard 3 0) 0 .empty cards brokenPair).deck =
        [{ text := "r5 n 0 1".toList },
          { text := "x1 n outer".toList, note := some fault.message },
          { text := "r6 n 0 1".toList }] ∧
      (∃ front card back next,
        @StopsAt {} .standard (deeper .standard 3 0) 0 .empty cards brokenPair front card back next
          ⟨.expand, fault, .card 0 "x3".toList⟩) ∧
      ∀ card ∈ cards,
        (@expandCall {} .standard (deeper .standard 3 0) 0 .empty card brokenPair).1.scopes =
          brokenPair.scopes := by
  intro cards fault
  obtain ⟨scopes, -, stops, -⟩ :=
    @scopes_and_cards_after_call {} .standard 3 0 .empty cards brokenPair
  refine ⟨by decide +kernel, stops _ (by decide +kernel), ?_⟩
  intro card _
  exact scopes card

end Expansion

end Netlist

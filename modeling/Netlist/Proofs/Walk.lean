import Netlist.Expansion
import Netlist.Proofs.Extraction

/-!
# Walks that succeed

What a call becomes, what a walk does with each card and what a level does
before its walk are relations here, one rule for each case.  Every invariant
of an expansion follows from them by one induction over the cards of a level
and one over the levels.
-/

namespace Netlist

namespace Expansion

variable {config : Config} (catalog : Catalog)

section Calls

variable (below : Option (Expander config)) (depth : Nat) (params : ParamTable)

/-- A call whose definition has a body that can be expanded one level deeper. -/
structure Inlining (card : Card) (progress : Progress config.casePolicy) where
  call : Call
  definition : Definition
  pins : Pins config.casePolicy
  expand : Expander config
  scopes : Scopes config.casePolicy
  read : Call.read? card.text = some call
  known : progress.scopes.definition? (call.target params) = some definition
  nonempty : definition.isEmpty = false
  connected : Pins.connect definition.name definition.formals call.actuals = .ok pins
  deeper : below = some expand
  entered : progress.scopes.enter? = some scopes

namespace Inlining

variable {below depth params} {card : Card} {progress : Progress config.casePolicy}
  (inlining : Inlining below params card progress)

/-- The body of the definition, expanded. -/
def level : Level config.casePolicy :=
  inlining.expand
    (Call.layer config.merge params inlining.definition.defaults inlining.call.assignments)
    inlining.definition.body (progress.withScopes inlining.scopes)

def renamer : Renamer config :=
  { catalog
    inst := inlining.call.inst
    pins := inlining.pins
    params := inlining.level.params
    globals := inlining.level.progress.globals }

/-- The body, expanded and renamed for the instance. -/
def body : Renamer.Result config.casePolicy :=
  (inlining.renamer catalog).body inlining.level.progress.scopes inlining.level.deck

variable (depth)

/-- The step that records the call. -/
def step : Step :=
  { depth
    inst := inlining.call.inst
    subcircuit := inlining.definition.name
    call := card.text
    expanded := (inlining.body catalog).deck.liveTexts }

/-- What has been gathered once the call is replaced. -/
def after : Progress config.casePolicy :=
  { inlining.level.progress with
    scopes := (inlining.body catalog).scopes.leave
    functions := inlining.level.progress.functions.update inlining.definition.functions
    trace := inlining.level.progress.trace ++ [inlining.step catalog depth] }

end Inlining

/-- What a call may become, one rule for each way. -/
inductive Replaces (card : Card) (progress : Progress config.casePolicy) :
    Progress config.casePolicy → Deck → Prop where
  /-- The subcircuit is unknown, and the name of the instance stands for a device. -/
  | device (call : Call) (letter : Char) (read : Call.read? card.text = some call)
      (unknown : progress.scopes.definition? (call.target params) = none)
      (mapped : config.deviceLetter? call.inst = some letter) :
      Replaces card progress progress
        [{ card with
            text := substituteAt config catalog depth params
              (letter :: Text.trimStart card.text) }]
  /-- The subcircuit is unknown, and that is noted. -/
  | unknown (call : Call) (read : Call.read? card.text = some call)
      (unknown : progress.scopes.definition? (call.target params) = none)
      (unmapped : config.deviceLetter? call.inst = none) :
      Replaces card progress (progress.reportUnknown (call.target params) card)
        [card.annotate (Fault.unknownSubcircuit (call.target params)).message]
  /-- The definition has no live statement. -/
  | dropped (call : Call) (definition : Definition) (warning : Warning)
      (read : Call.read? card.text = some call)
      (known : progress.scopes.definition? (call.target params) = some definition)
      (empty : definition.isEmpty = true) :
      Replaces card progress (progress.warn [warning]) [card.disable]
  /-- The body of the definition is expanded one level deeper and renamed. -/
  | inlined (inlining : Inlining below params card progress)
      (whole : inlining.level.failure = none)
      (renamed : (inlining.body catalog).failure = none) :
      Replaces card progress (inlining.after catalog depth)
        (card.disable :: (inlining.body catalog).deck)

/-- A call that is replaced without a fault follows one of the rules. -/
theorem replaces_of_expandCall {card : Card} {progress next : Progress config.casePolicy}
    {cards : Deck}
    (done : expandCall catalog below depth params card progress = (next, .ok cards)) :
    Replaces catalog below depth params card progress next cards := by
  unfold expandCall at done
  split at done
  · cases done
  next call read =>
    dsimp only at done
    split at done
    next unknown =>
      unfold unresolvedCall at done
      split at done
      next letter mapped =>
        cases done
        exact .device call letter read unknown mapped
      next unmapped =>
        cases done
        exact .unknown call read unknown unmapped
    next definition known =>
      split at done
      next empty =>
        cases done
        exact .dropped call definition _ read known empty
      next full =>
        have nonempty : definition.isEmpty = false := by simpa using full
        unfold enterCall at done
        split at done
        · cases done
        next pins connected =>
          split at done
          next expand scopes entered =>
            unfold finishCall at done
            dsimp only at done
            split at done
            · cases done
            next whole =>
              split at done
              · cases done
              next renamed =>
                cases done
                exact .inlined ⟨call, definition, pins, expand, scopes, read, known, nonempty,
                  connected, rfl, entered⟩ whole renamed
          · cases done

/-- A walk over the cards of a level that meets no fatal fault, one rule for each card. -/
inductive Walks : Deck → Progress config.casePolicy → Deck → Progress config.casePolicy →
    Prop where
  | nil (progress : Progress config.casePolicy) : Walks [] progress [] progress
  | idle {card : Card} {rest out : Deck} {progress next : Progress config.casePolicy}
      (idle : card.isLive = false) (tail : Walks rest progress out next) :
      Walks (card :: rest) progress (card :: out) next
  | call {card : Card} {rest cards out : Deck}
      {progress middle next : Progress config.casePolicy} (live : card.isLive = true)
      (calls : config.directives.isCall card.keyword = true)
      (replaces : Replaces catalog below depth params card progress middle cards)
      (tail : Walks rest middle out next) :
      Walks (card :: rest) progress (cards ++ out) next
  | statement {card : Card} {rest out : Deck} {progress next : Progress config.casePolicy}
      (live : card.isLive = true) (other : config.directives.isCall card.keyword = false)
      (tail : Walks rest progress out next) :
      Walks (card :: rest) progress
        ({ card with text := substituteAt config catalog depth params card.text } :: out) next

/-- A walk without a failure follows the rules and keeps the parameters. -/
theorem walks_of_walk {deck : Deck} {progress : Progress config.casePolicy}
    (ok : (walk catalog below depth params deck progress).failure = none) :
    Walks catalog below depth params deck progress
      (walk catalog below depth params deck progress).deck
      (walk catalog below depth params deck progress).progress ∧
    (walk catalog below depth params deck progress).params = params := by
  induction deck generalizing progress with
  | nil => exact ⟨.nil progress, rfl⟩
  | cons card rest ih =>
      generalize walked : walk catalog below depth params (card :: rest) progress = level at ok ⊢
      rw [walk.eq_def] at walked
      dsimp only at walked
      split at walked
      next idle =>
        subst walked
        obtain ⟨tail, kept⟩ := ih ok
        exact ⟨.idle (by simpa using idle) tail, kept⟩
      next awake =>
        have live : card.isLive = true := by simpa using awake
        split at walked
        next calls =>
          split at walked
          · subst walked
            cases ok
          next middle cards done =>
            subst walked
            obtain ⟨tail, kept⟩ := ih ok
            exact ⟨.call live calls (replaces_of_expandCall catalog below depth params done) tail,
              kept⟩
        next other =>
          subst walked
          obtain ⟨tail, kept⟩ := ih ok
          exact ⟨.statement live (by simpa using other) tail, kept⟩

end Calls

/-! ## Levels -/

/-- The definitions that a level lifts out of its cards. -/
def extractionOf (deck : Deck) (progress : Progress config.casePolicy) : Extraction :=
  Extraction.run config.directives config.casePolicy .expand progress.scopes.top.definitions deck

theorem deck_extractionOf {deck : Deck} {progress : Progress config.casePolicy}
    (lifted : (extractionOf deck progress).failure = none) :
    (extractionOf deck progress).deck = deck.liftDefinitions config.directives 0 :=
  Extraction.deck_runFrom .expand lifted

/-- What has been gathered when the definitions of a level are lifted out and its models known. -/
def progressBefore (deck : Deck) (progress : Progress config.casePolicy) :
    Progress config.casePolicy :=
  ((progress.withScopes
      (progress.scopes.withTop
        { progress.scopes.top with definitions := (extractionOf deck progress).definitions })).warn
    (extractionOf deck progress).warnings).seedModels
    ((extractionOf deck progress).deck.modelNames config.directives)

/-- What a level starts its walk with: what was gathered, the parameters and the cards. -/
def opening (depth : Nat) (params : ParamTable) (deck : Deck)
    (progress : Progress config.casePolicy) : Progress config.casePolicy × ParamTable × Deck :=
  collect depth params (extractionOf deck progress).deck (progressBefore deck progress)

/-- A level without a failure has lifted its definitions out and walked the rest. -/
theorem walks_of_levelWith {below : Option (Expander config)} {depth : Nat}
    {params : ParamTable} {deck : Deck} {progress : Progress config.casePolicy}
    (ok : (levelWith catalog below depth params deck progress).failure = none) :
    (extractionOf deck progress).failure = none ∧
    Walks catalog below depth (opening depth params deck progress).2.1
      (opening depth params deck progress).2.2 (opening depth params deck progress).1
      (levelWith catalog below depth params deck progress).deck
      (levelWith catalog below depth params deck progress).progress ∧
    (levelWith catalog below depth params deck progress).params =
      (opening depth params deck progress).2.1 := by
  generalize made : levelWith catalog below depth params deck progress = level at ok ⊢
  unfold levelWith at made
  dsimp only at made
  split at made
  · subst made
    cases ok
  next lifted =>
    have walked : walk catalog below depth (opening depth params deck progress).2.1
        (opening depth params deck progress).2.2 (opening depth params deck progress).1 =
        level := made
    subst walked
    exact ⟨lifted, walks_of_walk catalog below depth _ ok⟩

/-! ## What a level leaves alone -/

/-- The innermost frame of a level once its definitions are lifted out and its models known. -/
def openingFrame (deck : Deck) (progress : Progress config.casePolicy) :
    Frame config.casePolicy :=
  { definitions := (extractionOf deck progress).definitions
    models := ((extractionOf deck progress).deck.modelNames config.directives).foldl .seed
      progress.scopes.top.models }

theorem scopes_opening (depth : Nat) (params : ParamTable) (deck : Deck)
    (progress : Progress config.casePolicy) :
    (opening depth params deck progress).1.scopes =
      progress.scopes.withTop (openingFrame deck progress) := by
  unfold opening collect
  split <;> rfl

end Expansion

namespace Progress

variable {policy : CasePolicy}

/-- A name is on record as reported only if there is a report. -/
def Consistent (progress : Progress policy) : Prop :=
  progress.unresolved = [] → progress.reported = .empty

/-- Reporting an unknown subcircuit leaves a report. -/
theorem Consistent.reportUnknown {progress : Progress policy} (consistent : progress.Consistent)
    (name : Text) (card : Card) : (progress.reportUnknown name card).unresolved ≠ [] := by
  intro nothing
  simp only [Progress.reportUnknown] at nothing
  split at nothing
  next known =>
    rw [consistent nothing] at known
    cases known
  · simp at nothing

/-- What was gathered is kept, and the steps that are added stand at least this deep. -/
structure Grows (depth : Nat) (progress next : Progress policy) : Prop where
  trace : ∃ steps, next.trace = progress.trace ++ steps ∧ ∀ step ∈ steps, depth ≤ step.depth
  unresolved : next.unresolved = [] → progress.unresolved = []
  consistent : progress.Consistent → next.Consistent

/-- The same steps and reports, whatever else has changed. -/
theorem grows_of_eq {depth : Nat} {progress next : Progress policy}
    (trace : next.trace = progress.trace) (unresolved : next.unresolved = progress.unresolved)
    (reported : next.reported = progress.reported) : Grows depth progress next := by
  refine ⟨⟨[], by rw [trace, List.append_nil], by simp⟩, ?_, ?_⟩
  · rw [unresolved]
    exact id
  · unfold Consistent
    rw [unresolved, reported]
    exact id

theorem Grows.trans {depth : Nat} {progress middle next : Progress policy}
    (first : Grows depth progress middle) (second : Grows depth middle next) :
    Grows depth progress next := by
  obtain ⟨early, grown, deepEarly⟩ := first.trace
  obtain ⟨late, grownLater, deepLate⟩ := second.trace
  refine ⟨⟨early ++ late, ?_, ?_⟩, ?_, ?_⟩
  · rw [grownLater, grown, List.append_assoc]
  · intro step member
    rcases List.mem_append.mp member with before | after
    · exact deepEarly step before
    · exact deepLate step after
  · intro nothing
    exact first.unresolved (second.unresolved nothing)
  · intro consistent
    exact second.consistent (first.consistent consistent)

theorem grows_reportUnknown {depth : Nat} {progress : Progress policy} (name : Text)
    (card : Card) : Grows depth progress (progress.reportUnknown name card) := by
  refine ⟨⟨[], (List.append_nil _).symm, by simp⟩, ?_, ?_⟩
  · intro nothing
    simp only [reportUnknown] at nothing
    split at nothing
    · exact nothing
    · simp at nothing
  · intro consistent nothing
    exact absurd nothing (consistent.reportUnknown name card)

end Progress

namespace Expansion

variable {config : Config} (catalog : Catalog)

/-- What an expander for a depth leaves alone: the outer frames, and what was gathered before. -/
structure Tame (depth : Nat) (expand : Expander config) : Prop where
  scopes : ∀ params deck progress, (expand params deck progress).failure = none →
    ∃ top, (expand params deck progress).progress.scopes = progress.scopes.withTop top
  grows : ∀ params deck progress, (expand params deck progress).failure = none →
    Progress.Grows depth progress (expand params deck progress).progress

/-- What expands the calls of a level, if anything does, is tame. -/
def TameBelow (depth : Nat) (below : Option (Expander config)) : Prop :=
  ∀ expand, below = some expand → Tame depth expand

section Tame

variable {catalog} {below : Option (Expander config)} {depth : Nat} {params : ParamTable}

/-- A call leaves the scopes as it found them. -/
theorem Replaces.scopes_eq {card : Card} {progress next : Progress config.casePolicy}
    {cards : Deck} (tame : TameBelow (depth + 1) below)
    (replaces : Replaces catalog below depth params card progress next cards) :
    next.scopes = progress.scopes := by
  cases replaces with
  | device call letter read unknown mapped => rfl
  | unknown call read unknown unmapped => rfl
  | dropped call definition warning read known empty => rfl
  | inlined inlining whole renamed =>
      obtain ⟨top, kept⟩ := (tame inlining.expand inlining.deeper).scopes _ _ _ whole
      -- renaming changes the innermost frame at most, and that one is left
      show (inlining.level.progress.scopes.withModels _).leave = progress.scopes
      rw [Inlining.level, kept]
      exact Scopes.leave_withTop inlining.entered _

/-- The body of a call adds deeper steps only, and the call its own step behind them. -/
theorem Inlining.trace_after (catalog : Catalog) {card : Card}
    {progress : Progress config.casePolicy}
    (tame : TameBelow (depth + 1) below)
    (inlining : Inlining below params card progress) (whole : inlining.level.failure = none) :
    ∃ inner, (inlining.after catalog depth).trace =
        progress.trace ++ inner ++ [inlining.step catalog depth] ∧
      ∀ step ∈ inner, depth < step.depth := by
  obtain ⟨inner, grown, deep⟩ :=
    ((tame inlining.expand inlining.deeper).grows _ _ _ whole).trace
  refine ⟨inner, ?_, deep⟩
  show inlining.level.progress.trace ++ _ = _
  rw [Inlining.level, grown]
  rfl

theorem Replaces.grows {card : Card} {progress next : Progress config.casePolicy}
    {cards : Deck} (tame : TameBelow (depth + 1) below)
    (replaces : Replaces catalog below depth params card progress next cards) :
    Progress.Grows depth progress next := by
  cases replaces with
  | device call letter read unknown mapped => exact Progress.grows_of_eq rfl rfl rfl
  | unknown call read unknown unmapped => exact Progress.grows_reportUnknown _ card
  | dropped call definition warning read known empty => exact Progress.grows_of_eq rfl rfl rfl
  | inlined inlining whole renamed =>
      have grown := (tame inlining.expand inlining.deeper).grows _ _ _ whole
      obtain ⟨inner, traced, deep⟩ := inlining.trace_after catalog tame whole
      refine ⟨⟨inner ++ [inlining.step catalog depth], ?_, ?_⟩, grown.unresolved,
        grown.consistent⟩
      · rw [traced, List.append_assoc]
      · intro step member
        rcases List.mem_append.mp member with below | here
        · exact Nat.le_of_lt (deep step below)
        · rw [List.mem_singleton.mp here]
          exact Nat.le_refl depth

/-- A walk leaves the scopes as it found them and adds to what was gathered. -/
theorem Walks.tame {deck out : Deck} {progress next : Progress config.casePolicy}
    (tame : TameBelow (depth + 1) below)
    (walks : Walks catalog below depth params deck progress out next) :
    next.scopes = progress.scopes ∧ Progress.Grows depth progress next := by
  induction walks with
  | nil progress => exact ⟨rfl, Progress.grows_of_eq rfl rfl rfl⟩
  | idle idle tail ih => exact ih
  | call live calls replaces tail ih =>
      exact ⟨ih.1.trans (replaces.scopes_eq tame), (replaces.grows tame).trans ih.2⟩
  | statement live other tail ih => exact ih

/-- The step records a call that was inlined over these scopes, and its body stands in the deck. -/
def Recorded (catalog : Catalog) (below : Option (Expander config)) (depth : Nat)
    (params : ParamTable) (scopes : Scopes config.casePolicy) (step : Step) (deck : Deck) : Prop :=
  ∃ card progress, ∃ inlining : Inlining below params card progress,
    progress.scopes = scopes ∧ inlining.level.failure = none ∧
    (inlining.body catalog).failure = none ∧ step = inlining.step catalog depth ∧
    ∀ image ∈ (inlining.body catalog).deck, image ∈ deck

theorem Recorded.mono {scopes : Scopes config.casePolicy} {step : Step} {deck larger : Deck}
    (recorded : Recorded catalog below depth params scopes step deck)
    (grows : ∀ image ∈ deck, image ∈ larger) :
    Recorded catalog below depth params scopes step larger := by
  obtain ⟨card, progress, inlining, same, whole, renamed, records, kept⟩ := recorded
  exact ⟨card, progress, inlining, same, whole, renamed, records,
    fun image inside => grows image (kept image inside)⟩

theorem Replaces.recorded {card : Card} {progress next : Progress config.casePolicy}
    {cards : Deck} (tame : TameBelow (depth + 1) below)
    (replaces : Replaces catalog below depth params card progress next cards) {step : Step}
    (member : step ∈ next.trace) (here : step.depth = depth) :
    step ∈ progress.trace ∨ Recorded catalog below depth params progress.scopes step cards := by
  cases replaces with
  | device call letter read unknown mapped => exact .inl member
  | unknown call read unknown unmapped => exact .inl member
  | dropped call definition warning read known empty => exact .inl member
  | inlined inlining whole renamed =>
      obtain ⟨inner, traced, deep⟩ := inlining.trace_after catalog tame whole
      rw [traced] at member
      rcases List.mem_append.mp member with earlier | last
      · rcases List.mem_append.mp earlier with known | below
        · exact .inl known
        · exact absurd (here ▸ deep step below) (Nat.lt_irrefl _)
      · refine .inr ⟨card, progress, inlining, rfl, whole, renamed,
          List.mem_singleton.mp last, ?_⟩
        intro image inside
        exact List.mem_cons_of_mem _ inside

/-- A step of the depth of a walk records a call of the walk. -/
theorem Walks.recorded {deck out : Deck} {progress next : Progress config.casePolicy}
    (tame : TameBelow (depth + 1) below)
    (walks : Walks catalog below depth params deck progress out next) {step : Step}
    (member : step ∈ next.trace) (here : step.depth = depth) :
    step ∈ progress.trace ∨ Recorded catalog below depth params progress.scopes step out := by
  induction walks with
  | nil progress => exact .inl member
  | idle idle tail ih =>
      rcases ih member with before | recorded
      · exact .inl before
      · exact .inr (recorded.mono fun image => List.mem_cons_of_mem _)
  | call live calls replaces tail ih =>
      rcases ih member with before | recorded
      · rcases replaces.recorded tame before here with earlier | recorded
        · exact .inl earlier
        · exact .inr (recorded.mono fun image => List.mem_append_left _)
      · rw [replaces.scopes_eq tame] at recorded
        exact .inr (recorded.mono fun image => List.mem_append_right _)
  | statement live other tail ih =>
      rcases ih member with before | recorded
      · exact .inl before
      · exact .inr (recorded.mono fun image => List.mem_cons_of_mem _)

theorem grows_opening (depth : Nat) (params : ParamTable) (deck : Deck)
    (progress : Progress config.casePolicy) :
    Progress.Grows depth progress (opening depth params deck progress).1 := by
  unfold opening collect
  split <;> exact Progress.grows_of_eq rfl rfl rfl

/-- A level changes the innermost frame only, and that before its walk. -/
theorem scopes_levelWith {deck : Deck} {progress : Progress config.casePolicy}
    (tame : TameBelow (depth + 1) below)
    (ok : (levelWith catalog below depth params deck progress).failure = none) :
    (levelWith catalog below depth params deck progress).progress.scopes =
      progress.scopes.withTop (openingFrame deck progress) := by
  obtain ⟨-, walks, -⟩ := walks_of_levelWith catalog ok
  rw [(walks.tame tame).1, scopes_opening]

theorem tame_levelWith (tame : TameBelow (depth + 1) below) :
    Tame depth (levelWith catalog below depth) := by
  constructor
  · intro params deck progress ok
    exact ⟨_, scopes_levelWith tame ok⟩
  · intro params deck progress ok
    obtain ⟨-, walks, -⟩ := walks_of_levelWith catalog ok
    exact (grows_opening depth params deck progress).trans (walks.tame tame).2

end Tame

/-! ## Induction over the levels -/

/-- Every level is expanded like this: what is below it, if anything, is a level again. -/
theorem expandLevel_cases (room depth : Nat) :
    ∃ below : Option (Expander config),
      expandLevel catalog room depth = levelWith catalog below depth ∧
      ∀ expand, below = some expand →
        ∃ less < room, expand = expandLevel catalog less (depth + 1) := by
  cases room with
  | zero =>
      refine ⟨none, rfl, ?_⟩
      intro expand impossible
      cases impossible
  | succ room =>
      refine ⟨some (expandLevel catalog room (depth + 1)), rfl, ?_⟩
      rintro expand ⟨⟩
      exact ⟨room, Nat.lt_succ_self room, rfl⟩

theorem tame_expandLevel (room depth : Nat) :
    Tame depth (expandLevel catalog room depth : Expander config) := by
  induction room using Nat.strongRecOn generalizing depth with
  | ind room ih =>
      obtain ⟨below, shape, deeper⟩ := @expandLevel_cases config catalog room depth
      rw [shape]
      apply tame_levelWith
      intro expand here
      obtain ⟨less, smaller, rfl⟩ := deeper expand here
      exact ih less smaller (depth + 1)

/-- What holds of every level if it holds wherever it holds one level deeper. -/
theorem expandLevel_induction
    {motive : Nat → ParamTable → Deck → Progress config.casePolicy →
      Level config.casePolicy → Prop}
    (step : ∀ (below : Option (Expander config)) (depth : Nat),
      TameBelow (depth + 1) below →
      (∀ expand, below = some expand → ∀ params deck progress,
        (expand params deck progress).failure = none →
        motive (depth + 1) params deck progress (expand params deck progress)) →
      ∀ params deck progress,
        (levelWith catalog below depth params deck progress).failure = none →
        motive depth params deck progress (levelWith catalog below depth params deck progress))
    (room depth : Nat) (params : ParamTable) (deck : Deck)
    (progress : Progress config.casePolicy)
    (ok : (expandLevel catalog room depth params deck progress).failure = none) :
    motive depth params deck progress (expandLevel catalog room depth params deck progress) := by
  induction room using Nat.strongRecOn generalizing depth params deck progress with
  | ind room ih =>
      obtain ⟨below, shape, deeper⟩ := @expandLevel_cases config catalog room depth
      rw [shape] at ok ⊢
      refine step below depth ?_ ?_ params deck progress ok
      · intro expand here
        obtain ⟨less, -, rfl⟩ := deeper expand here
        exact tame_expandLevel catalog less (depth + 1)
      · intro expand here params deck progress whole
        obtain ⟨less, smaller, rfl⟩ := deeper expand here
        exact ih less smaller (depth + 1) params deck progress whole

/-! ## The top level -/

/-- What is known before the top level is expanded. -/
def topProgress (frame : Frame config.casePolicy) (bound : Bindings) :
    Progress config.casePolicy :=
  { scopes := (Scopes.start config.maxDepth).withTop frame
    functions := bound.functions }

def topLevel (frame : Frame config.casePolicy) (bound : Bindings) (deck : Deck) :
    Level config.casePolicy :=
  expandLevel catalog ((topProgress frame bound).scopes.capacity - 1) 0 bound.params deck
    (topProgress frame bound)

/-- A top level without a failure is a walk, and what is below it are levels. -/
theorem walks_of_topLevel {frame : Frame config.casePolicy} {bound : Bindings} {deck : Deck}
    (whole : (topLevel catalog frame bound deck).failure = none) :
    ∃ below : Option (Expander config),
      (∀ expand, below = some expand → ∃ room, expand = expandLevel catalog room 1) ∧
      (extractionOf deck (topProgress frame bound : Progress config.casePolicy)).failure = none ∧
      Walks catalog below 0 (opening 0 bound.params deck (topProgress frame bound)).2.1
        (opening 0 bound.params deck (topProgress frame bound)).2.2
        (opening 0 bound.params deck (topProgress frame bound)).1
        (topLevel catalog frame bound deck).deck (topLevel catalog frame bound deck).progress ∧
      (topLevel catalog frame bound deck).params =
        (opening 0 bound.params deck (topProgress frame bound)).2.1 := by
  unfold topLevel at whole ⊢
  generalize (topProgress frame bound : Progress config.casePolicy).scopes.capacity - 1 = room
    at whole ⊢
  obtain ⟨below, shape, deeper⟩ := @expandLevel_cases config catalog room 0
  rw [shape] at whole ⊢
  refine ⟨below, ?_, walks_of_levelWith catalog whole⟩
  intro expand here
  obtain ⟨less, -, expands⟩ := deeper expand here
  exact ⟨less, expands⟩

theorem tame_of_levels {below : Option (Expander config)} {depth : Nat}
    (levels : ∀ expand, below = some expand → ∃ room, expand = expandLevel catalog room depth) :
    TameBelow depth below := by
  intro expand here
  obtain ⟨room, rfl⟩ := levels expand here
  exact tame_expandLevel catalog room depth

/-- An expansion that succeeds is a top level without a failure and without reports. -/
theorem topLevel_of_expandFrom {frame : Frame config.casePolicy} {bound : Bindings} {deck : Deck}
    {expansion : Expansion config.casePolicy}
    (ran : expandFrom config catalog frame bound deck = .ok expansion) :
    (topLevel catalog frame bound deck).failure = none ∧
    (topLevel catalog frame bound deck).progress.unresolved = [] ∧
    expansion =
      { deck := (topLevel catalog frame bound deck).deck
        bindings := ⟨(topLevel catalog frame bound deck).params,
          (topLevel catalog frame bound deck).progress.functions⟩
        globals := (topLevel catalog frame bound deck).progress.globals
        warnings := (topLevel catalog frame bound deck).progress.warnings
        trace := (topLevel catalog frame bound deck).progress.trace } := by
  change ofLevel config (topLevel catalog frame bound deck) = .ok expansion at ran
  unfold ofLevel at ran
  split at ran
  · cases ran
  next whole =>
    split at ran
    next quiet =>
      exact ⟨whole, List.isEmpty_iff.mp quiet, (Except.ok.inj ran).symm⟩
    · cases ran

/-- The expansion succeeds and passes the test. -/
def passes {policy : CasePolicy} (test : Expansion policy → Bool) :
    Except Failure (Expansion policy) → Bool
  | .error _ => false
  | .ok expansion => test expansion

theorem exists_of_passes {policy : CasePolicy} (test : Expansion policy → Bool)
    {result : Except Failure (Expansion policy)} {Rest : Expansion policy → Prop}
    (passed : passes test result = true)
    (rest : ∀ expansion, result = .ok expansion → test expansion = true → Rest expansion) :
    ∃ expansion, result = .ok expansion ∧ Rest expansion := by
  cases result with
  | error failure => cases passed
  | ok expansion => exact ⟨expansion, rfl, rest expansion rfl passed⟩

end Expansion

end Netlist

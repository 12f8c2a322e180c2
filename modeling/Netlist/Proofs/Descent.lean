import Mathlib.Logic.Relation
import Netlist.Proofs.Body
import Netlist.Proofs.Walk

/-!
# How deep an expansion goes

Levels are nested as deep as the scopes have room.  The room that an expansion
counts down is always that of the scopes, so it decides nothing by itself:
every level is expanded by the same rule, and a call is refused just in case
the scopes are full.  A level that is opened has less room than the one it is
opened from, so the nesting comes to an end whatever the definitions call.
-/

namespace Netlist

namespace Scopes

variable {policy : CasePolicy}

/-- How many frames may still be added. -/
def room (scopes : Scopes policy) : Nat := scopes.capacity - scopes.depth

theorem room_withTop (scopes : Scopes policy) (top : Frame policy) :
    (scopes.withTop top).room = scopes.room := rfl

theorem enter?_eq_none_iff (scopes : Scopes policy) :
    scopes.enter? = none ↔ scopes.room = 0 := by
  unfold enter? room
  split <;> simp <;> omega

theorem depth_enter? {scopes inner : Scopes policy} (entered : scopes.enter? = some inner) :
    inner.depth = scopes.depth + 1 := by
  unfold depth
  rw [frames_enter? entered, List.length_cons]

theorem depth_lt_capacity_of_enter? {scopes inner : Scopes policy}
    (entered : scopes.enter? = some inner) : scopes.depth < scopes.capacity := by
  unfold enter? at entered
  split at entered
  next room => exact room
  · cases entered

theorem room_enter? {scopes inner : Scopes policy} (entered : scopes.enter? = some inner) :
    inner.room + 1 = scopes.room := by
  have fits := depth_lt_capacity_of_enter? entered
  unfold room
  rw [capacity_enter? entered, depth_enter? entered]
  omega

end Scopes

namespace Expansion

variable {config : Config} (catalog : Catalog)

/-! ## The rule of every level -/

/-- Expands a level that stands `depth` calls deep, as far as the scopes have room. -/
def expandAt (depth : Nat) : Expander config := fun params deck progress =>
  expandLevel catalog progress.scopes.room depth params deck progress

section Congruence

variable {catalog} {below other : Option (Expander config)} {depth : Nat} {params : ParamTable}

/-- A call depends on what is below it only where there is room for a frame. -/
theorem expandCall_congr {card : Card} {progress : Progress config.casePolicy}
    (agree : ∀ inner, progress.scopes.enter? = some inner →
      ∃ expand twin, below = some expand ∧ other = some twin ∧ ∀ params deck,
        expand params deck (progress.withScopes inner) =
          twin params deck (progress.withScopes inner)) :
    expandCall catalog below depth params card progress =
      expandCall catalog other depth params card progress := by
  have enterCall_eq (call : Call) (definition : Definition) :
      enterCall catalog below depth params card call definition progress =
        enterCall catalog other depth params card call definition progress := by
    unfold enterCall
    cases entered : progress.scopes.enter? with
    | none => cases below <;> cases other <;> rfl
    | some inner =>
        obtain ⟨expand, twin, rfl, rfl, same⟩ := agree inner entered
        dsimp only
        rw [same]
  unfold expandCall
  simp only [enterCall_eq]

/-- Two ways to expand calls that agree over the given scopes give the same walk. -/
theorem walk_congr {scopes : Scopes config.casePolicy} (tame : TameBelow (depth + 1) below)
    (agree : ∀ card progress, progress.scopes = scopes →
      expandCall catalog below depth params card progress =
        expandCall catalog other depth params card progress)
    (deck : Deck) {progress : Progress config.casePolicy} (here : progress.scopes = scopes) :
    walk catalog below depth params deck progress =
      walk catalog other depth params deck progress := by
  induction deck generalizing progress with
  | nil => rfl
  | cons card rest ih =>
      rw [walk, walk, ← agree card progress here, ih here]
      cases replaced : expandCall catalog below depth params card progress with
      | mk middle outcome =>
          cases outcome with
          | error diagnosis => rfl
          | ok cards =>
              have kept := (replaces_of_expandCall catalog below depth params replaced).scopes_eq
                tame
              dsimp only
              rw [ih (kept.trans here)]

theorem levelWith_congr (tame : TameBelow (depth + 1) below) {deck : Deck}
    {progress : Progress config.casePolicy}
    (agree : ∀ params card now,
      now.scopes = progress.scopes.withTop (openingFrame deck progress) →
      expandCall catalog below depth params card now =
        expandCall catalog other depth params card now) :
    levelWith catalog below depth params deck progress =
      levelWith catalog other depth params deck progress := by
  unfold levelWith
  dsimp only
  split
  · rfl
  · exact walk_congr tame (agree _) _ (scopes_opening depth params deck progress)

end Congruence

theorem levelWith_of_failed {below : Option (Expander config)} {depth : Nat}
    {params : ParamTable} {deck : Deck} {progress : Progress config.casePolicy}
    {diagnosis : Diagnosis} (failed : (extractionOf deck progress).failure = some diagnosis) :
    levelWith catalog below depth params deck progress =
      ⟨progress.withScopes (progress.scopes.withTop
          { progress.scopes.top with definitions := (extractionOf deck progress).definitions }),
        params, (extractionOf deck progress).deck, some diagnosis⟩ := by
  unfold extractionOf at failed ⊢
  unfold levelWith
  dsimp only
  rw [failed]

theorem levelWith_of_lifted {below : Option (Expander config)} {depth : Nat}
    {params : ParamTable} {deck : Deck} {progress : Progress config.casePolicy}
    (lifted : (extractionOf deck progress).failure = none) :
    levelWith catalog below depth params deck progress =
      walk catalog below depth (opening depth params deck progress).2.1
        (opening depth params deck progress).2.2 (opening depth params deck progress).1 := by
  unfold extractionOf at lifted
  unfold levelWith
  dsimp only
  rw [lifted]
  rfl

/-- The room that is counted down is that of the scopes, so every level follows the same rule. -/
theorem expandAt_eq (depth : Nat) :
    (expandAt catalog depth : Expander config) =
      levelWith catalog (some (expandAt catalog (depth + 1))) depth := by
  funext params deck progress
  unfold expandAt
  cases room : progress.scopes.room with
  | zero =>
      apply levelWith_congr
      · intro expand impossible
        cases impossible
      · intro params card now same
        apply expandCall_congr
        intro inner entered
        have smaller := Scopes.room_enter? entered
        rw [same, Scopes.room_withTop, room] at smaller
        cases smaller
  | succ less =>
      apply levelWith_congr
      · rintro expand ⟨⟩
        exact tame_expandLevel catalog less (depth + 1)
      · intro params card now same
        apply expandCall_congr
        intro inner entered
        have smaller := Scopes.room_enter? entered
        rw [same, Scopes.room_withTop, room] at smaller
        refine ⟨_, _, rfl, rfl, ?_⟩
        intro params deck
        have left : (now.withScopes inner).scopes.room = less := Nat.succ.inj smaller
        rw [left]

theorem tame_expandAt (depth : Nat) : Tame depth (expandAt catalog depth : Expander config) := by
  constructor
  · intro params deck progress
    exact (tame_expandLevel catalog progress.scopes.room depth).scopes params deck progress
  · intro params deck progress
    exact (tame_expandLevel catalog progress.scopes.room depth).grows params deck progress

theorem tameBelow_expandAt (depth : Nat) :
    TameBelow depth (some (expandAt catalog depth : Expander config)) := by
  rintro expand ⟨⟩
  exact tame_expandAt catalog depth

/-- Nothing else follows that rule: the rule alone says what becomes of every level. -/
theorem eq_expandAt {expand : Nat → Expander config}
    (rule : ∀ depth, expand depth = levelWith catalog (some (expand (depth + 1))) depth) :
    expand = expandAt catalog := by
  have agree (room : Nat) : ∀ depth params deck (progress : Progress config.casePolicy),
      progress.scopes.room = room →
      expandAt catalog depth params deck progress = expand depth params deck progress := by
    -- the levels below have less room than the level itself
    induction room using Nat.strongRecOn with
    | ind room ih =>
        intro depth params deck progress here
        rw [rule, expandAt_eq]
        apply levelWith_congr (tameBelow_expandAt catalog (depth + 1))
        intro params card now same
        apply expandCall_congr
        intro inner entered
        have smaller := Scopes.room_enter? entered
        rw [same, Scopes.room_withTop, here] at smaller
        refine ⟨_, _, rfl, rfl, ?_⟩
        intro params deck
        exact ih inner.room (by omega) (depth + 1) params deck (now.withScopes inner) rfl
  funext depth params deck progress
  exact (agree _ depth params deck progress rfl).symm

/-- A walk over more cards goes on where the walk over the first of them ends. -/
theorem walk_append {below : Option (Expander config)} {depth : Nat} {params : ParamTable}
    {front : Deck} {progress : Progress config.casePolicy}
    (ok : (walk catalog below depth params front progress).failure = none) (back : Deck) :
    walk catalog below depth params (front ++ back) progress =
      (walk catalog below depth params back
        (walk catalog below depth params front progress).progress).behind
        (walk catalog below depth params front progress).deck := by
  induction front generalizing progress with
  | nil => rfl
  | cons card rest ih =>
      have behind_behind (first second : Deck) (level : Level config.casePolicy) :
          (level.behind second).behind first = level.behind (first ++ second) := by
        unfold Level.behind
        rw [List.append_assoc]
      rw [walk] at ok
      rw [List.cons_append, walk, walk]
      split
      next idle =>
        rw [if_pos idle] at ok
        rw [ih ok, behind_behind]
        rfl
      next awake =>
        rw [if_neg awake] at ok
        split
        next calls =>
          rw [if_pos calls] at ok
          cases replaced : expandCall catalog below depth params card progress with
          | mk middle outcome =>
              rw [replaced] at ok
              cases outcome with
              | error diagnosis => cases ok
              | ok cards =>
                  dsimp only at ok ⊢
                  rw [ih ok, behind_behind]
                  rfl
        next other =>
          rw [if_neg other] at ok
          rw [ih ok, behind_behind]
          rfl

/-! ## Levels that are opened -/

/-- A level to be expanded: how deep it stands and what it starts with. -/
structure Visit (config : Config) where
  depth : Nat
  params : ParamTable
  deck : Deck
  progress : Progress config.casePolicy

/-- The card calls a definition with a body and as many formals as the call has actuals. -/
structure Ready {policy : CasePolicy} (params : ParamTable) (scopes : Scopes policy) (card : Card)
    (call : Call) (definition : Definition) : Prop where
  read : Call.read? card.text = some call
  known : scopes.definition? (call.target params) = some definition
  nonempty : definition.isEmpty = false
  counted : call.actuals.length = definition.formals.length

namespace Visit

variable (visit : Visit config)

def expand : Level config.casePolicy :=
  expandAt catalog visit.depth visit.params visit.deck visit.progress

/-- What has been gathered before the walk of the level. -/
def start : Progress config.casePolicy :=
  (opening visit.depth visit.params visit.deck visit.progress).1

/-- The parameters in force during the walk. -/
def inForce : ParamTable := (opening visit.depth visit.params visit.deck visit.progress).2.1

/-- The cards that are walked. -/
def cards : Deck := (opening visit.depth visit.params visit.deck visit.progress).2.2

/-- The walk over some cards of the level, when `now` has been gathered. -/
def walkFrom (now : Progress config.casePolicy) (deck : Deck) : Level config.casePolicy :=
  walk catalog (some (expandAt catalog (visit.depth + 1))) visit.depth visit.inForce deck now

/-- What the level does with a call, when `now` has been gathered. -/
def replace (card : Card) (now : Progress config.casePolicy) : Replacement config :=
  expandCall catalog (some (expandAt catalog (visit.depth + 1))) visit.depth visit.inForce card now

/-- The walk of the level meets a live call, when `now` has been gathered. -/
structure Meets (card : Card) (now : Progress config.casePolicy) : Prop where
  lifted : (extractionOf visit.deck visit.progress).failure = none
  passed : ∃ front back, visit.cards = front ++ card :: back ∧
    (visit.walkFrom catalog visit.start front).failure = none ∧
    (visit.walkFrom catalog visit.start front).progress = now
  live : card.isLive = true
  calls : config.directives.isCall card.keyword = true

/-- The level that a call of a definition opens. -/
def inner (call : Call) (definition : Definition) (progress : Progress config.casePolicy) :
    Visit config :=
  { depth := visit.depth + 1
    params := Call.layer config.merge visit.inForce definition.defaults call.assignments
    deck := definition.body
    progress }

/-- One level is opened for a call of another: the call is met and there is room for a frame. -/
inductive Opens (outer : Visit config) : Visit config → Prop where
  | call {card : Card} {now : Progress config.casePolicy} {call : Call} {definition : Definition}
      {scopes : Scopes config.casePolicy} (met : outer.Meets catalog card now)
      (ready : Ready outer.inForce now.scopes card call definition)
      (entered : now.scopes.enter? = some scopes) :
      Opens outer (outer.inner call definition (now.withScopes scopes))

variable {catalog} {visit}

theorem expand_eq (lifted : (extractionOf visit.deck visit.progress).failure = none) :
    visit.expand catalog = visit.walkFrom catalog visit.start visit.cards := by
  unfold expand
  rw [expandAt_eq, levelWith_of_lifted catalog lifted]
  rfl

theorem lifted_of_expand (ok : (visit.expand catalog).failure = none) :
    (extractionOf visit.deck visit.progress).failure = none := by
  unfold expand at ok
  rw [expandAt_eq] at ok
  exact (walks_of_levelWith catalog ok).1

/-- A call is met over the scopes of the level, with its definitions and models known. -/
theorem Meets.scopes_eq {card : Card} {now : Progress config.casePolicy}
    (met : visit.Meets catalog card now) :
    now.scopes = visit.progress.scopes.withTop (openingFrame visit.deck visit.progress) := by
  obtain ⟨front, back, -, ok, rfl⟩ := met.passed
  have walks := (walks_of_walk catalog _ _ _ ok).1
  rw [← scopes_opening visit.depth visit.params]
  exact (walks.tame (tameBelow_expandAt catalog (visit.depth + 1))).1

/-- A fault in a call that is met is what the level fails with. -/
theorem Meets.failure_expand {card : Card} {now next : Progress config.casePolicy}
    (met : visit.Meets catalog card now) {diagnosis : Diagnosis}
    (failed : visit.replace catalog card now = (next, .error diagnosis)) :
    (visit.expand catalog).failure = some diagnosis := by
  obtain ⟨front, back, whole, ok, rfl⟩ := met.passed
  unfold replace at failed
  rw [expand_eq met.lifted, whole]
  unfold walkFrom at ok failed ⊢
  rw [walk_append catalog ok, walk, if_neg (by simp [met.live]), if_pos met.calls, failed]
  rfl

/-- A level that is opened has one frame more, under the same capacity. -/
theorem Opens.scopes {outer inner : Visit config} (opens : outer.Opens catalog inner) :
    outer.progress.scopes.depth < outer.progress.scopes.capacity ∧
    inner.progress.scopes.depth = outer.progress.scopes.depth + 1 ∧
    inner.progress.scopes.capacity = outer.progress.scopes.capacity := by
  cases opens with
  | call met ready entered =>
      have fits := Scopes.depth_lt_capacity_of_enter? entered
      have deeper := Scopes.depth_enter? entered
      have same := Scopes.capacity_enter? entered
      rw [met.scopes_eq] at fits deeper same
      exact ⟨fits, deeper, same⟩

theorem Opens.depth_eq {outer inner : Visit config} (opens : outer.Opens catalog inner) :
    inner.depth = outer.depth + 1 := by
  cases opens with
  | call met ready entered => rfl

variable (catalog) in
/-- Levels cannot be nested without end. -/
theorem wellFounded_opens :
    WellFounded fun inner outer : Visit config => outer.Opens catalog inner := by
  apply Subrelation.wf (r := InvImage (· < ·) fun visit => visit.progress.scopes.room) _
    (InvImage.wf _ Nat.lt_wfRel.wf)
  intro inner outer opens
  obtain ⟨fits, deeper, same⟩ := opens.scopes
  show inner.progress.scopes.room < outer.progress.scopes.room
  unfold Scopes.room
  omega

end Visit

/-! ## The guard -/

section Trace

variable {catalog} {below : Option (Expander config)} {depth : Nat} {params : ParamTable}

/-- Every step that is added stands at least two frames below the limit. -/
def AddsWithin (limit : Nat) (progress next : Progress config.casePolicy) : Prop :=
  ∀ step ∈ next.trace, step ∈ progress.trace ∨ step.depth + 2 ≤ limit

theorem AddsWithin.trans {limit : Nat} {progress middle next : Progress config.casePolicy}
    (first : AddsWithin limit progress middle) (second : AddsWithin limit middle next) :
    AddsWithin limit progress next := by
  intro step member
  rcases second step member with before | within
  · exact first step before
  · exact .inr within

/-- An expander that adds steps within the capacity, if the frames are as many as they should be. -/
def KeepsWithin (depth : Nat) (expand : Expander config) : Prop :=
  ∀ params deck progress, (expand params deck progress).failure = none →
    progress.scopes.depth = depth + 1 →
    AddsWithin progress.scopes.capacity progress (expand params deck progress).progress

theorem Replaces.addsWithin
    (deeper : ∀ expand, below = some expand → KeepsWithin (depth + 1) expand)
    {card : Card} {progress next : Progress config.casePolicy} {cards : Deck}
    (frames : progress.scopes.depth = depth + 1)
    (replaces : Replaces catalog below depth params card progress next cards) :
    AddsWithin progress.scopes.capacity progress next := by
  cases replaces with
  | device call letter read unknown mapped => exact fun step member => .inl member
  | unknown call read unknown unmapped => exact fun step member => .inl member
  | dropped call definition warning read known empty => exact fun step member => .inl member
  | inlined inlining whole renamed =>
      have fits := Scopes.depth_lt_capacity_of_enter? inlining.entered
      have one : inlining.scopes.depth = depth + 1 + 1 := by
        rw [Scopes.depth_enter? inlining.entered, frames]
      have inner := deeper inlining.expand inlining.deeper _ _ _ whole one
      intro step member
      rcases List.mem_append.mp member with before | here
      · rw [← Scopes.capacity_enter? inlining.entered]
        exact inner step before
      · rw [List.mem_singleton.mp here]
        right
        show depth + 2 ≤ _
        omega

theorem Walks.addsWithin (tame : TameBelow (depth + 1) below)
    (deeper : ∀ expand, below = some expand → KeepsWithin (depth + 1) expand)
    {deck out : Deck} {progress next : Progress config.casePolicy}
    (frames : progress.scopes.depth = depth + 1)
    (walks : Walks catalog below depth params deck progress out next) :
    AddsWithin progress.scopes.capacity progress next := by
  induction walks with
  | nil progress => exact fun step member => .inl member
  | idle idle tail ih => exact ih frames
  | call live calls replaces tail ih =>
      have same := replaces.scopes_eq tame
      have later := ih (by rw [same]; exact frames)
      rw [same] at later
      exact (replaces.addsWithin deeper frames).trans later
  | statement live other tail ih => exact ih frames

variable (catalog) in
/-- No step of a level stands deeper than there is room for its frame. -/
theorem keepsWithin_expandAt (depth : Nat) :
    KeepsWithin depth (expandAt catalog depth : Expander config) := by
  intro params deck progress ok
  refine expandLevel_induction catalog
    (motive := fun depth _ _ progress level => progress.scopes.depth = depth + 1 →
      AddsWithin progress.scopes.capacity progress level.progress)
    ?_ progress.scopes.room depth params deck progress ok
  intro below depth tame deeper params deck progress ok frames
  obtain ⟨-, walks, -⟩ := walks_of_levelWith catalog ok
  have opened := walks.addsWithin tame deeper (by rw [scopes_opening]; exact frames)
  rw [scopes_opening] at opened
  have started : (opening depth params deck progress).1.trace = progress.trace := by
    unfold opening collect
    split <;> rfl
  intro step member
  rw [← started]
  exact opened step member

end Trace

namespace Visit

/-- What a limit means for a level: it has a frame for each level it stands in, and a call that
could be replaced is refused at the limit and opens a level before it. -/
structure Guarded (limit : Nat) (visit : Visit config) : Prop where
  frames : visit.progress.scopes.depth = visit.depth + 1
  within : visit.depth + 1 ≤ limit
  refuses {card : Card} {now : Progress config.casePolicy} {call : Call} {definition : Definition}
    (met : visit.Meets catalog card now)
    (ready : Ready visit.inForce now.scopes card call definition)
    (full : visit.depth + 1 = limit) :
    visit.replace catalog card now =
        (now, .error (.ofCard .expand (.maxCallDepth limit card.text) card)) ∧
      (visit.expand catalog).failure =
        some (.ofCard .expand (.maxCallDepth limit card.text) card)
  descends {card : Card} {now : Progress config.casePolicy} {call : Call} {definition : Definition}
    (met : visit.Meets catalog card now)
    (ready : Ready visit.inForce now.scopes card call definition)
    (free : visit.depth + 1 ≠ limit) :
    ∃ pins scopes, now.scopes.enter? = some scopes ∧
      visit.Opens catalog (visit.inner call definition (now.withScopes scopes)) ∧
      visit.replace catalog card now = finishCall catalog visit.depth card call definition pins
        ((visit.inner call definition (now.withScopes scopes)).expand catalog)

/-- A call that is ready is decided by the room for a frame alone. -/
theorem replace_of_ready {visit : Visit config} {card : Card} {now : Progress config.casePolicy}
    {call : Call} {definition : Definition}
    (ready : Ready visit.inForce now.scopes card call definition) :
    visit.replace catalog card now =
      match now.scopes.enter? with
      | none => (now, .error (.ofCard .expand (.maxCallDepth now.scopes.capacity card.text) card))
      | some scopes => finishCall catalog visit.depth card call definition
          ⟨definition.formals.zip call.actuals⟩
          ((visit.inner call definition (now.withScopes scopes)).expand catalog) := by
  unfold replace expandCall
  rw [ready.read]
  dsimp only
  rw [ready.known]
  dsimp only
  rw [if_neg (by simp [ready.nonempty]), enterCall, Pins.connect_of_counted ready.counted]
  cases now.scopes.enter? with
  | none => rfl
  | some scopes => rfl

/-- A level with as many frames as it should have is guarded by the capacity of its scopes. -/
theorem guarded_of_frames {visit : Visit config}
    (frames : visit.progress.scopes.depth = visit.depth + 1)
    (within : visit.progress.scopes.depth ≤ visit.progress.scopes.capacity) :
    visit.Guarded catalog visit.progress.scopes.capacity := by
  have decided {card : Card} {now : Progress config.casePolicy}
      (met : visit.Meets catalog card now) :
      now.scopes.capacity = visit.progress.scopes.capacity ∧
      (now.scopes.enter? = none ↔ visit.depth + 1 = visit.progress.scopes.capacity) := by
    rw [met.scopes_eq, Scopes.enter?_eq_none_iff, Scopes.room_withTop, Scopes.room]
    constructor
    · rfl
    · omega
  refine ⟨frames, by omega, ?_, ?_⟩
  · intro card now call definition met ready full
    obtain ⟨limit, none⟩ := decided met
    have refused := replace_of_ready catalog ready
    rw [none.mpr full, limit] at refused
    exact ⟨refused, met.failure_expand refused⟩
  · intro card now call definition met ready free
    cases entered : now.scopes.enter? with
    | none => exact absurd ((decided met).2.mp entered) free
    | some scopes =>
        have made := replace_of_ready catalog ready
        rw [entered] at made
        exact ⟨_, scopes, rfl, .call met ready entered, made⟩

/-- Every level of an expansion is guarded by the capacity that the top level starts with. -/
theorem guarded_of_reached {top visit : Visit config}
    (frames : top.progress.scopes.depth = top.depth + 1)
    (within : top.progress.scopes.depth ≤ top.progress.scopes.capacity)
    (reached : Relation.ReflTransGen (Opens catalog) top visit) :
    visit.Guarded catalog top.progress.scopes.capacity := by
  have counted : visit.progress.scopes.depth = visit.depth + 1 ∧
      visit.progress.scopes.depth ≤ visit.progress.scopes.capacity ∧
      visit.progress.scopes.capacity = top.progress.scopes.capacity := by
    induction reached with
    | refl => exact ⟨frames, within, rfl⟩
    | tail earlier opens ih =>
        obtain ⟨fits, deeper, same⟩ := opens.scopes
        have depth := opens.depth_eq
        omega
  rw [← counted.2.2]
  exact guarded_of_frames catalog counted.1 counted.2.1

/-- The top level over the definitions and bindings known before. -/
def top (frame : Frame config.casePolicy) (bound : Bindings) (deck : Deck) : Visit config :=
  { depth := 0, params := bound.params, deck, progress := topProgress frame bound }

variable (config) in
/-- The top level that a run expands, unless it names a block that is not in the store. -/
def top? (store : CacheStore) (bound : Bindings) (block : Option Text) (deck : Deck) :
    Option (Visit config) :=
  match block with
  | none => some (top {} bound deck)
  | some name => (store.get? name).map fun cached =>
      top { definitions := cached.definitions }
        ⟨cached.bindings.params.update bound.params,
          cached.bindings.functions.update bound.functions⟩
        (cached.modelCards ++ deck)

variable {store : CacheStore} {bound : Bindings} {block : Option Text} {deck : Deck}

theorem exists_top_of_top? {first : Visit config}
    (starts : top? config store bound block deck = some first) :
    ∃ (frame : Frame config.casePolicy) (bindings : Bindings) (cards : Deck),
      first = top frame bindings cards := by
  unfold top? at starts
  split at starts
  · cases starts
    exact ⟨_, _, _, rfl⟩
  · obtain ⟨cached, -, rfl⟩ := Option.map_eq_some_iff.mp starts
    exact ⟨_, _, _, rfl⟩

theorem expandFrom_eq (frame : Frame config.casePolicy) (bound : Bindings) (deck : Deck) :
    expandFrom config catalog frame bound deck =
      ofLevel config ((top frame bound deck).expand catalog) := rfl

theorem run_of_top? {first : Visit config}
    (starts : top? config store bound block deck = some first) :
    run config catalog store bound block deck = ofLevel config (first.expand catalog) := by
  cases block with
  | none =>
      cases starts
      rfl
  | some name =>
      obtain ⟨cached, found, rfl⟩ := Option.map_eq_some_iff.mp starts
      simp only [run, found]
      rfl

end Visit

/-- What went wrong in an expansion. -/
def faults {policy : CasePolicy} : Except Failure (Expansion policy) → List Fault
  | .error failure => failure.diagnoses.map Diagnosis.fault
  | .ok _ => []

/-- The guard against nesting is exact, and expansion comes to an end.  The rule of a level has
one solution, which a run computes, and levels cannot be nested without end.  Every level that is
expanded has a frame for each level it stands in, and these are within the limit.  A call of a
definition with a body and the right number of nodes is refused at the limit, and one level more is
opened for it before.  No step of an expansion that succeeds stands deeper than that. -/
theorem depth_guard_exact {store : CacheStore} {bound : Bindings} {block : Option Text}
    {deck : Deck} {top : Visit config}
    (starts : Visit.top? config store bound block deck = some top) :
    run config catalog store bound block deck = ofLevel config (top.expand catalog) ∧
    (∀ expand : Nat → Expander config,
      (∀ depth, expand depth = levelWith catalog (some (expand (depth + 1))) depth) ↔
        expand = expandAt catalog) ∧
    (WellFounded fun inner outer : Visit config => outer.Opens catalog inner) ∧
    (∀ visit, Relation.ReflTransGen (Visit.Opens catalog) top visit →
      visit.Guarded catalog (max config.maxDepth 1)) ∧
    ∀ expansion, run config catalog store bound block deck = .ok expansion →
      ∀ step ∈ expansion.trace, step.depth + 2 ≤ max config.maxDepth 1 := by
  refine ⟨Visit.run_of_top? catalog starts, ?_, Visit.wellFounded_opens catalog, ?_, ?_⟩
  · intro expand
    refine ⟨eq_expandAt catalog, ?_⟩
    rintro rfl depth
    exact expandAt_eq catalog depth
  · intro visit reached
    obtain ⟨frame, bindings, cards, rfl⟩ := Visit.exists_top_of_top? starts
    refine Visit.guarded_of_reached catalog ?_ ?_ reached
    · rfl
    · exact Nat.le_max_right ..
  · intro expansion ran step member
    obtain ⟨frame, bindings, cards, rfl⟩ := Visit.exists_top_of_top? starts
    rw [Visit.run_of_top? catalog starts, ← Visit.expandFrom_eq] at ran
    obtain ⟨whole, -, rfl⟩ := topLevel_of_expandFrom catalog ran
    rcases keepsWithin_expandAt catalog 0 _ _ _ whole rfl step member with before | within
    · cases before
    · exact within

/-- A definition within a definition: three frames are needed, and with two of them the inner call
is refused. -/
theorem depth_guard_exact_nested :
    let deck : Deck := [".subckt top p", ".subckt inner q", "r1 q 0 1", ".ends", "x2 p inner",
      ".ends", "x1 n top"].map fun line => { text := line.toList }
    (∃ expansion, run { maxDepth := 3 } .standard NameTable.empty ⟨.empty, .empty⟩ none deck =
        .ok expansion ∧ expansion.trace.map Step.depth = [1, 0] ∧
        ∀ step ∈ expansion.trace, step.depth + 2 ≤ 3) ∧
    faults (run { maxDepth := 2 } .standard NameTable.empty ⟨.empty, .empty⟩ none deck) =
      [.maxCallDepth 2 "x2 p inner".toList] ∧
    ∀ visit, Relation.ReflTransGen (Visit.Opens .standard)
        (Visit.top {} ⟨.empty, .empty⟩ deck : Visit { maxDepth := 2 }) visit →
      visit.Guarded .standard 2 := by
  intro deck
  refine ⟨?_, by decide +kernel, ?_⟩
  · refine exists_of_passes (fun expansion => expansion.trace.map Step.depth == [1, 0])
      (by decide +kernel) ?_
    intro expansion ran passed
    have starts : Visit.top? { maxDepth := 3 } NameTable.empty ⟨.empty, .empty⟩ none deck =
        some (Visit.top {} ⟨.empty, .empty⟩ deck) := rfl
    exact ⟨by simpa using passed,
      (depth_guard_exact .standard starts).2.2.2.2 expansion ran⟩
  · have starts : Visit.top? { maxDepth := 2 } NameTable.empty ⟨.empty, .empty⟩ none deck =
        some (Visit.top {} ⟨.empty, .empty⟩ deck) := rfl
    exact (depth_guard_exact .standard starts).2.2.2.1

end Expansion

end Netlist

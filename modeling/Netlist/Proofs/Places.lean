import Netlist.Proofs.Lockstep
import Netlist.Proofs.Outline

/-!
# What stands in the place of each card

A top level that is expanded without a fault has the cards of its deck in
order, each with the cards behind it that were added for it.  What stands in
the place of a card can be told from the card and from what was known before
the walk, and the expansion succeeds just in case every call can be replaced
by itself.
-/

namespace Netlist

/-! ## Records without reports -/

namespace Progress

variable {policy : CasePolicy}

/-- No unknown subcircuit is reported in the entries. -/
def Quiet (entries : List Entry) : Prop := ∀ name card, Entry.unknown name card ∉ entries

theorem grows_recordAll (progress : Progress policy) (entries : List Entry) :
    Grows 0 progress (progress.recordAll entries) := by
  induction entries generalizing progress with
  | nil => exact grows_of_eq rfl rfl rfl
  | cons entry rest ih =>
      have here : Grows 0 progress (progress.record entry) := by
        cases entry with
        | warnings warnings => exact grows_of_eq rfl rfl rfl
        | functions functions => exact grows_of_eq rfl rfl rfl
        | step step => exact ⟨⟨[step], rfl, fun _ _ => Nat.zero_le _⟩, id, id⟩
        | unknown name card => exact grows_reportUnknown name card
      exact here.trans (ih (progress.record entry))

theorem unresolved_recordAll {entries : List Entry} (quiet : Quiet entries)
    (progress : Progress policy) :
    (progress.recordAll entries).unresolved = progress.unresolved := by
  induction entries generalizing progress with
  | nil => rfl
  | cons entry rest ih =>
      have here : (progress.record entry).unresolved = progress.unresolved := by
        cases entry with
        | unknown name card => exact absurd (List.mem_cons_self ..) (quiet name card)
        | warnings warnings => rfl
        | functions functions => rfl
        | step step => rfl
      have later : Quiet rest := fun name card member =>
        quiet name card (List.mem_cons_of_mem _ member)
      exact (ih later (progress.record entry)).trans here

/-- Entries that leave no report contain none. -/
theorem quiet_of_unresolved {entries : List Entry} {progress : Progress policy}
    (consistent : progress.Consistent) (nothing : (progress.recordAll entries).unresolved = []) :
    Quiet entries := by
  induction entries generalizing progress with
  | nil =>
      intro name card member
      cases member
  | cons entry rest ih =>
      have here : (progress.record entry).unresolved = [] :=
        (grows_recordAll (progress.record entry) rest).unresolved nothing
      have later : Quiet rest :=
        ih ((grows_recordAll progress [entry]).consistent consistent) nothing
      intro name card member
      rcases List.mem_cons.mp member with rfl | behind
      · exact consistent.reportUnknown name card here
      · exact later name card behind

theorem Alike.later {first second : Progress policy} (alike : Alike first second)
    (entries : List Entry) : Alike first (second.recordAll entries) := by
  constructor
  · rw [scopes_recordAll]
    exact alike.frames
  · rw [globals_recordAll]
    exact alike.globals

end Progress

namespace Expansion

variable {config : Config} (catalog : Catalog)

/-! ## Places -/

/-- A card as it is left, and the cards that are added behind it. -/
structure Place where
  card : Card
  added : Deck := []
deriving DecidableEq, Repr

namespace Place

def cards (place : Place) : Deck := place.card :: place.added

end Place

namespace Visit

variable (visit : Visit config)

/-- What stands in the place of a card, by what is known before the walk of the level. -/
def place (card : Card) : Place :=
  if !card.isLive then { card }
  else if config.directives.isCall card.keyword then
    match (visit.replace catalog card visit.start).2 with
    | .ok (image :: added) => { card := image, added }
    | _ => { card }
  else
    { card :=
        { card with text := substituteAt config catalog visit.depth visit.inForce card.text } }

/-- What stands in the place of each card that is walked. -/
def places : List Place := visit.cards.map (visit.place catalog)

/-- The call can be replaced by itself, and nothing unknown is met. -/
def Settles (card : Card) : Prop :=
  ∃ next cards, visit.replace catalog card visit.start = (next, .ok cards) ∧
    next.unresolved = []

/-- Nothing has been reported before the walk of the level. -/
structure Fresh : Prop where
  unresolved : visit.start.unresolved = []
  reported : visit.start.reported = .empty

variable {catalog visit}

theorem Fresh.consistent (fresh : visit.Fresh) : visit.start.Consistent :=
  fun _ => fresh.reported

/-- A call that is met later is replaced as it would have been before the walk. -/
theorem sameReplacement_replace {now : Progress config.casePolicy}
    (alike : visit.start.Alike now)
    (capacity : now.scopes.capacity = visit.start.scopes.capacity) (card : Card) :
    SameReplacement visit.start now (visit.replace catalog card visit.start)
      (visit.replace catalog card now) := by
  rcases expandCall_sameReplacement
    (fun less _ => steady_expandAt catalog less visit.depth) card alike rfl
    (Nat.le_of_eq capacity.symm) with ⟨less, -⟩ | same
  · omega
  · exact same

/-- The card of a call stays in front of what replaces it. -/
theorem exists_cons_of_replace {card : Card} {now next : Progress config.casePolicy}
    {cards : Deck} (replaced : visit.replace catalog card now = (next, .ok cards)) :
    ∃ image added, cards = image :: added := by
  cases replaces_of_expandCall catalog _ _ _ replaced with
  | device call letter read unknown mapped => exact ⟨_, _, rfl⟩
  | unknown call read unknown unmapped => exact ⟨_, _, rfl⟩
  | dropped call definition warning read known empty => exact ⟨_, _, rfl⟩
  | inlined inlining whole renamed => exact ⟨_, _, rfl⟩

/-- A place that is a call holds what replaces the call. -/
theorem cards_place_of_replace {card : Card} (live : card.isLive = true)
    (calls : config.directives.isCall card.keyword = true)
    {next : Progress config.casePolicy} {cards : Deck}
    (replaced : visit.replace catalog card visit.start = (next, .ok cards)) :
    (visit.place catalog card).cards = cards := by
  obtain ⟨image, added, rfl⟩ := exists_cons_of_replace replaced
  unfold place
  rw [if_neg (by simp [live]), if_pos calls, replaced]
  rfl

/-- A call that can be replaced by itself is replaced by what belongs in its place. -/
theorem Settles.replace (fresh : visit.Fresh) {card : Card} (settles : visit.Settles catalog card)
    (live : card.isLive = true) (calls : config.directives.isCall card.keyword = true)
    {now : Progress config.casePolicy} (alike : visit.start.Alike now)
    (capacity : now.scopes.capacity = visit.start.scopes.capacity) :
    ∃ entries, Progress.Quiet entries ∧ visit.replace catalog card now =
      (now.recordAll entries, .ok (visit.place catalog card).cards) := by
  obtain ⟨next, cards, replaced, nothing⟩ := settles
  obtain ⟨outcome, entries, gathered, twinGathered⟩ :=
    @sameReplacement_replace config catalog visit now alike capacity card
  rw [replaced] at outcome gathered
  change next = visit.start.recordAll entries at gathered
  rw [gathered] at nothing
  refine ⟨entries, Progress.quiet_of_unresolved fresh.consistent nothing, ?_⟩
  rw [cards_place_of_replace live calls replaced]
  exact Prod.ext twinGathered outcome

/-- A call that is replaced without a report can be replaced by itself. -/
theorem settles_of_replace (fresh : visit.Fresh) {card : Card}
    {now next : Progress config.casePolicy} {cards : Deck} (alike : visit.start.Alike now)
    (capacity : now.scopes.capacity = visit.start.scopes.capacity) (consistent : now.Consistent)
    (replaced : visit.replace catalog card now = (next, .ok cards))
    (nothing : next.unresolved = []) : visit.Settles catalog card := by
  obtain ⟨outcome, entries, gathered, twinGathered⟩ :=
    @sameReplacement_replace config catalog visit now alike capacity card
  rw [replaced] at outcome twinGathered
  change next = now.recordAll entries at twinGathered
  rw [twinGathered] at nothing
  refine ⟨visit.start.recordAll entries, cards, Prod.ext gathered outcome.symm, ?_⟩
  rw [Progress.unresolved_recordAll (Progress.quiet_of_unresolved consistent nothing)]
  exact fresh.unresolved

/-- If every call can be replaced by itself, a walk puts each card in its place. -/
theorem walkFrom_of_settled (fresh : visit.Fresh) {deck : Deck}
    (settled : ∀ card ∈ deck, card.isLive = true →
      config.directives.isCall card.keyword = true → visit.Settles catalog card)
    {now : Progress config.casePolicy} (alike : visit.start.Alike now)
    (capacity : now.scopes.capacity = visit.start.scopes.capacity) :
    (visit.walkFrom catalog now deck).failure = none ∧
    (visit.walkFrom catalog now deck).deck =
      (deck.map (visit.place catalog)).flatMap Place.cards ∧
    (visit.walkFrom catalog now deck).progress.unresolved = now.unresolved := by
  induction deck generalizing now with
  | nil => exact ⟨rfl, rfl, rfl⟩
  | cons card rest ih =>
      have others : ∀ card ∈ rest, card.isLive = true →
          config.directives.isCall card.keyword = true → visit.Settles catalog card :=
        fun card member => settled card (List.mem_cons_of_mem _ member)
      rw [List.map_cons, List.flatMap_cons]
      unfold walkFrom
      rw [walk]
      split
      next idle =>
        obtain ⟨ok, left, quiet⟩ := ih others alike capacity
        have here : visit.place catalog card = { card } := by
          unfold place
          rw [if_pos idle]
        rw [here]
        exact ⟨ok, congrArg (List.cons card) left, quiet⟩
      next awake =>
        have live : card.isLive = true := by simpa using awake
        split
        next calls =>
          have here := settled card (List.mem_cons_self ..) live calls
          obtain ⟨entries, none, replaced⟩ := here.replace fresh live calls alike capacity
          unfold replace at replaced
          rw [replaced]
          -- what the call has recorded is not read by the calls behind it
          obtain ⟨ok, left, quiet⟩ := ih others (alike.later entries)
            (by rw [Progress.scopes_recordAll]; exact capacity)
          rw [Progress.unresolved_recordAll none] at quiet
          exact ⟨ok, congrArg (_ ++ ·) left, quiet⟩
        next other =>
          obtain ⟨ok, left, quiet⟩ := ih others alike capacity
          have here : (visit.place catalog card).cards = [{ card with
              text := substituteAt config catalog visit.depth visit.inForce card.text }] := by
            unfold place
            rw [if_neg awake, if_neg other]
            rfl
          rw [here]
          exact ⟨ok, congrArg (List.cons _) left, quiet⟩

/-- In a walk that succeeds without reports, every call can be replaced by itself. -/
theorem settled_of_walkFrom (fresh : visit.Fresh) {deck : Deck}
    {now : Progress config.casePolicy} (alike : visit.start.Alike now)
    (capacity : now.scopes.capacity = visit.start.scopes.capacity) (consistent : now.Consistent)
    (ok : (visit.walkFrom catalog now deck).failure = none)
    (nothing : (visit.walkFrom catalog now deck).progress.unresolved = []) :
    ∀ card ∈ deck, card.isLive = true → config.directives.isCall card.keyword = true →
      visit.Settles catalog card := by
  induction deck generalizing now with
  | nil =>
      intro card member
      cases member
  | cons first rest ih =>
      unfold walkFrom at ok nothing
      rw [walk] at ok nothing
      intro card member live calls
      split at ok
      next idle =>
        rw [if_pos idle] at nothing
        rcases List.mem_cons.mp member with rfl | later
        · simp [live] at idle
        · exact ih alike capacity consistent ok nothing card later live calls
      next awake =>
        rw [if_neg awake] at nothing
        split at ok
        next here =>
          rw [if_pos here] at nothing
          cases replaced : visit.replace catalog first now with
          | mk middle outcome =>
              have grown := (@sameReplacement_replace config catalog visit now alike capacity
                first).gathered
              unfold replace at replaced
              rw [replaced] at ok nothing
              cases outcome with
              | error diagnosis => cases ok
              | ok cards =>
                  have quiet : middle.unresolved = [] :=
                    ((walks_of_walk catalog _ _ _ ok).1.tame
                      (tameBelow_expandAt catalog (visit.depth + 1))).2.unresolved nothing
                  obtain ⟨entries, -, gathered⟩ := grown
                  unfold replace at gathered
                  rw [replaced] at gathered
                  change middle = now.recordAll entries at gathered
                  subst gathered
                  rcases List.mem_cons.mp member with rfl | later
                  · exact settles_of_replace fresh alike capacity consistent replaced quiet
                  · exact ih (alike.later entries)
                      (by rw [Progress.scopes_recordAll]; exact capacity)
                      ((Progress.grows_recordAll now entries).consistent consistent) ok nothing
                      card later live calls
        next other =>
          rw [if_neg other] at nothing
          rcases List.mem_cons.mp member with rfl | later
          · exact absurd calls other
          · exact ih alike capacity consistent ok nothing card later live calls

/-- The definitions of the level can be lifted out, and every call can be replaced by itself. -/
structure Settled (catalog : Catalog) (visit : Visit config) : Prop where
  lifted : (extractionOf visit.deck visit.progress).failure = none
  calls : ∀ card ∈ visit.cards, card.isLive = true →
    config.directives.isCall card.keyword = true → visit.Settles catalog card

theorem Settled.expand (fresh : visit.Fresh) (settled : visit.Settled catalog) :
    (visit.expand catalog).failure = none ∧
    (visit.expand catalog).deck = (visit.places catalog).flatMap Place.cards ∧
    (visit.expand catalog).progress.unresolved = [] := by
  rw [expand_eq settled.lifted, ← fresh.unresolved]
  exact walkFrom_of_settled fresh settled.calls ⟨rfl, fun _ => rfl⟩ rfl

theorem settled_of_expand (fresh : visit.Fresh) (ok : (visit.expand catalog).failure = none)
    (nothing : (visit.expand catalog).progress.unresolved = []) : visit.Settled catalog := by
  have lifted : (extractionOf visit.deck visit.progress).failure = none := by
    unfold expand at ok
    rw [expandAt_eq] at ok
    exact (walks_of_levelWith catalog ok).1
  rw [expand_eq lifted] at ok nothing
  exact ⟨lifted, settled_of_walkFrom fresh ⟨rfl, fun _ => rfl⟩ rfl fresh.consistent ok nothing⟩

/-! ## Levels that start alike -/

/-- The walks of two levels start with the same parameters, frames and global nodes. -/
structure SameStart (visit twin : Visit config) : Prop where
  depth : twin.depth = visit.depth
  inForce : twin.inForce = visit.inForce
  alike : visit.start.Alike twin.start
  capacity : twin.start.scopes.capacity = visit.start.scopes.capacity

namespace SameStart

variable {twin : Visit config}

theorem replace_eq (same : SameStart visit twin) (card : Card)
    (now : Progress config.casePolicy) :
    twin.replace catalog card now = visit.replace catalog card now := by
  unfold replace
  rw [same.depth, same.inForce]

theorem place_eq (same : SameStart visit twin) (card : Card) :
    twin.place catalog card = visit.place catalog card := by
  have outcome := (@sameReplacement_replace config catalog visit twin.start same.alike
    same.capacity card).outcome
  unfold place
  rw [same.depth, same.inForce, same.replace_eq, outcome]

theorem settles (same : SameStart visit twin) (fresh : visit.Fresh) (twinFresh : twin.Fresh)
    {card : Card} (live : card.isLive = true)
    (calls : config.directives.isCall card.keyword = true)
    (settles : visit.Settles catalog card) : twin.Settles catalog card := by
  obtain ⟨entries, quiet, replaced⟩ := settles.replace fresh live calls same.alike same.capacity
  refine ⟨_, _, (same.replace_eq card twin.start).trans replaced, ?_⟩
  rw [Progress.unresolved_recordAll quiet]
  exact twinFresh.unresolved

end SameStart

end Visit

end Expansion

/-! ## The top level -/

namespace Deck

/-- The live cards whose keywords are of a kind. -/
def statements (kind : Text → Bool) (deck : Deck) : Deck :=
  deck.live.filter fun card => kind card.keyword

/-- What is left of a card when the parameter statements are taken in. -/
def takenIn (directives : Directives) (card : Card) : Card :=
  if card.isLive && directives.isParam card.keyword then card.disable else card

theorem collectParams_eq (directives : Directives) (bound : Bindings) (deck : Deck) :
    deck.collectParams directives bound =
      ((deck.statements directives.isParam).foldl (fun bound card => bound.state card.operand)
          bound,
        deck.map (takenIn directives)) := by
  unfold statements live
  induction deck generalizing bound with
  | nil => rfl
  | cons card rest ih =>
      rw [collectParams, List.map_cons, List.filter_filter]
      rw [List.filter_filter] at ih
      unfold takenIn
      split
      next taken =>
        rw [List.filter_cons_of_pos (by rw [Bool.and_comm]; exact taken), List.foldl_cons, ih]
        rfl
      next other =>
        rw [List.filter_cons_of_neg (by rw [Bool.and_comm]; exact other), ih]
        rfl

/-- A card that is live behind the intake was there before, and it states no parameters. -/
theorem eq_of_takenIn {directives : Directives} {card : Card}
    (live : (takenIn directives card).isLive = true) :
    takenIn directives card = card ∧ directives.isParam card.keyword = false := by
  unfold takenIn at live ⊢
  split at live
  · rw [Card.isLive_disable] at live
    cases live
  next other =>
    rw [if_neg other]
    exact ⟨rfl, by simpa [live] using other⟩

end Deck

namespace Expansion

namespace Visit

variable {config : Config} {catalog : Catalog} {store : CacheStore} {bound : Bindings}
  {block : Option Text} {deck other : Deck} {frame : Frame config.casePolicy}

theorem fresh_top : (top frame bound deck : Visit config).Fresh := ⟨rfl, rfl⟩

/-- What a run starts from does not depend on the deck, which comes behind what is supplied. -/
theorem exists_supplied_of_top? {first : Visit config}
    (starts : top? config store bound block deck = some first) :
    ∃ (frame : Frame config.casePolicy) (bindings : Bindings) (supplied : Deck), ∀ other,
      top? config store bound block other = some (top frame bindings (supplied ++ other)) := by
  cases block with
  | none => exact ⟨{}, bound, [], fun other => rfl⟩
  | some name =>
      obtain ⟨cached, found, -⟩ := Option.map_eq_some_iff.mp starts
      refine ⟨{ definitions := cached.definitions },
        ⟨cached.bindings.params.update bound.params,
          cached.bindings.functions.update bound.functions⟩, cached.modelCards, ?_⟩
      intro other
      exact Option.map_eq_some_iff.mpr ⟨cached, found, rfl⟩

/-- The cards that are walked at the top level. -/
theorem cards_top (lifted : (extractionOf deck (topProgress frame bound)).failure = none) :
    (top frame bound deck : Visit config).cards =
      (deck.liftDefinitions config.directives 0).map (Deck.takenIn config.directives) := by
  rw [← deck_extractionOf lifted]
  exact congrArg Prod.snd (Deck.collectParams_eq ..)

/-- Top levels with the same definitions, models, parameters and global nodes start alike. -/
theorem sameStart_top
    (definitions : (extractionOf other (topProgress frame bound)).definitions =
      (extractionOf deck (topProgress frame bound)).definitions)
    (models : (extractionOf other (topProgress frame bound)).deck.statements
        config.directives.isModel =
      (extractionOf deck (topProgress frame bound)).deck.statements config.directives.isModel)
    (params : (extractionOf other (topProgress frame bound)).deck.statements
        config.directives.isParam =
      (extractionOf deck (topProgress frame bound)).deck.statements config.directives.isParam)
    (globals : ∀ card,
      card ∈ (extractionOf other (topProgress frame bound)).deck.statements
        config.directives.isGlobal ↔
      card ∈ (extractionOf deck (topProgress frame bound)).deck.statements
        config.directives.isGlobal) :
    SameStart (top frame bound deck : Visit config) (top frame bound other) := by
  have frames : openingFrame other (topProgress frame bound : Progress config.casePolicy) =
      openingFrame deck (topProgress frame bound) := by
    have names : (extractionOf other (topProgress frame bound)).deck.modelNames
          config.directives =
        (extractionOf deck (topProgress frame bound)).deck.modelNames config.directives :=
      congrArg (List.filterMap fun card : Card => Text.declaredName? card.text) models
    unfold openingFrame
    rw [definitions, names]
  refine ⟨rfl, ?_, ⟨?_, ?_⟩, rfl⟩
  · unfold inForce top opening collect
    rw [if_pos rfl, if_pos rfl, Deck.collectParams_eq, Deck.collectParams_eq, params]
    rfl
  · unfold start
    rw [scopes_opening, scopes_opening]
    exact congrArg (List.cons · []) frames
  · intro name
    show (((extractionOf other (topProgress frame bound)).deck.globalNames
        config.directives).foldl NameSet.add .empty).contains name =
      (((extractionOf deck (topProgress frame bound)).deck.globalNames
        config.directives).foldl NameSet.add .empty).contains name
    rw [NameSet.contains_foldl_add, NameSet.contains_foldl_add, Bool.eq_iff_iff]
    unfold Deck.globalNames
    unfold Deck.statements at globals
    simp only [Bool.or_eq_true, List.any_eq_true, List.mem_flatMap, globals]

/-- If top levels start alike and every live card of the second is one of the first, the calls of
the second are settled with those of the first. -/
theorem Settled.of_sameStart {frame : Frame config.casePolicy}
    (settled : (top frame bound deck : Visit config).Settled catalog)
    (lifted : (extractionOf deck (topProgress frame bound)).failure = none)
    (otherLifted : (extractionOf other (topProgress frame bound)).failure = none)
    (same : SameStart (top frame bound deck : Visit config) (top frame bound other))
    (there : ∀ card : Card, card.isLive = true →
      card ∈ other.liftDefinitions config.directives 0 →
      card ∈ deck.liftDefinitions config.directives 0) :
    (top frame bound other : Visit config).Settled catalog := by
  refine ⟨otherLifted, ?_⟩
  intro card member live calls
  rw [cards_top otherLifted] at member
  obtain ⟨source, inside, rfl⟩ := List.mem_map.mp member
  obtain ⟨unchanged, -⟩ := Deck.eq_of_takenIn live
  rw [unchanged] at live calls ⊢
  refine same.settles fresh_top fresh_top live calls (settled.calls source ?_ live calls)
  rw [cards_top lifted]
  exact List.mem_map.mpr ⟨source, there source live inside, unchanged⟩

/-- A run succeeds just in case its top level is settled; then each card stands in its place. -/
theorem settled_of_run {first : Visit config}
    (starts : top? config store bound block deck = some first)
    {expansion : Expansion config.casePolicy}
    (ran : run config catalog store bound block deck = .ok expansion) :
    first.Settled catalog ∧ expansion.deck = (first.places catalog).flatMap Place.cards := by
  rw [run_of_top? catalog starts] at ran
  obtain ⟨frame, bindings, cards, rfl⟩ := exists_top_of_top? starts
  rw [← expandFrom_eq] at ran
  obtain ⟨ok, nothing, rfl⟩ := topLevel_of_expandFrom catalog ran
  have settled : (top frame bindings cards).Settled catalog :=
    settled_of_expand fresh_top ok nothing
  exact ⟨settled, (settled.expand fresh_top).2.1⟩

theorem Settled.run {first : Visit config}
    (starts : top? config store bound block deck = some first)
    (settled : first.Settled catalog) :
    ∃ expansion, run config catalog store bound block deck = .ok expansion ∧
      expansion.deck = (first.places catalog).flatMap Place.cards := by
  obtain ⟨frame, bindings, cards, rfl⟩ := exists_top_of_top? starts
  obtain ⟨ok, left, nothing⟩ := settled.expand fresh_top
  rw [run_of_top? catalog starts]
  unfold ofLevel
  rw [ok, nothing]
  exact ⟨_, rfl, left⟩

end Visit

end Expansion

end Netlist

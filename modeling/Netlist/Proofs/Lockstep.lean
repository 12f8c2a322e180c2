import Netlist.Proofs.Body
import Netlist.Proofs.Descent

/-!
# Expansions side by side

What becomes of a call depends on the frames of the scopes, on the parameters
and on which nodes are global.  Whatever else was gathered before makes no
difference: two expansions that start alike put the same things on record,
leave the same cards and fail alike.  If one of them may nest deeper than the
other, they can come apart only where the other is refused a frame.
-/

namespace Netlist

/-! ## Renaming -/

namespace Scopes

variable {policy : CasePolicy} {scopes twin : Scopes policy}

/-- The model aliases of all frames, from the inside out. -/
def models (scopes : Scopes policy) : List (ModelAliases policy) := scopes.frames.map Frame.models

theorem model_congr (models : twin.models = scopes.models) (name : Text) :
    twin.model name = scopes.model name := by
  have same (first second : List (Frame policy))
      (models : first.map Frame.models = second.map Frame.models) :
      modelIn first name = modelIn second name := by
    induction first generalizing second with
    | nil =>
        cases second with
        | nil => rfl
        | cons frame outer => cases models
    | cons frame outer ih =>
        cases second with
        | nil => cases models
        | cons other rest =>
            obtain ⟨here, there⟩ := List.cons.inj models
            rw [modelIn, modelIn, here, ih rest there]
  exact same twin.frames scopes.frames models

theorem localModel_congr (models : twin.models = scopes.models) (name : Text) :
    twin.localModel name = scopes.localModel name := by
  have here : twin.top.models = scopes.top.models := (List.cons.inj models).1
  unfold localModel
  rw [here]

end Scopes

namespace DeviceLine

variable {policy : CasePolicy} {scopes twin : Scopes policy}

theorem nodeRun_congr (models : twin.models = scopes.models) (kind : DeviceKind) (count : Nat)
    (words : List Word) : nodeRun twin kind count words = nodeRun scopes kind count words := by
  induction words generalizing count with
  | nil => rfl
  | cons first rest ih =>
      rw [nodeRun, nodeRun, ih, slotModel, slotModel, Scopes.model_congr models]

theorem valueLayout_congr (models : twin.models = scopes.models) (words : List Word) :
    valueLayout twin words = valueLayout scopes words := by
  unfold valueLayout
  cases words with
  | nil => rfl
  | cons first rest => rw [valueModel, valueModel, Scopes.localModel_congr models]

theorem modelLayout_congr (models : twin.models = scopes.models) (strict : Bool)
    (kind : DeviceKind) (name : Text) (words : List Word) :
    modelLayout strict twin kind name words = modelLayout strict scopes kind name words := by
  unfold modelLayout
  rw [valueLayout_congr models]
  cases words with
  | nil => rfl
  | cons first rest => rw [modelPart, modelPart, Scopes.model_congr models]

/-- The layout of a device line depends on the models of the scopes alone. -/
theorem layout_congr (models : twin.models = scopes.models) (strict : Bool)
    (kind : Option DeviceKind) (name : Text) (words : List Word) :
    layout strict twin kind name words = layout strict scopes kind name words := by
  cases kind with
  | none => exact valueLayout_congr models words
  | some kind =>
      unfold layout behindNodes
      simp only [nodeRun_congr models, modelLayout_congr models]

end DeviceLine

namespace Renamer

variable {config : Config} (renamer : Renamer config) {globals : NameSet config.casePolicy}
  {scopes twin : Scopes config.casePolicy}

/-- Of the global nodes it matters only which ones there are, not how they are spelled. -/
theorem byRole_congr (same : ∀ name, globals.contains name = renamer.globals.contains name) :
    { renamer with globals }.byRole = renamer.byRole := by
  have node (name : Text) : { renamer with globals }.node name = renamer.node name := by
    show (renamer.pins.outside? globals (renamer.nodeName name)).getD _ = renamer.node name
    unfold Renamer.node Pins.outside?
    rw [same]
    rfl
  funext role name
  cases role with
  | node => exact node name
  | device => rfl

theorem deviceLine_congr (same : ∀ name, globals.contains name = renamer.globals.contains name)
    (models : twin.models = scopes.models) (text : Text) :
    { renamer with globals }.deviceLine twin text = renamer.deviceLine scopes text := by
  have roles := renamer.byRole_congr same
  have parts : { renamer with globals }.part = renamer.part := by
    funext part
    cases part with
    | node name => exact congrArg (fun rename => [rename Role.node name]) roles
    | controls role dimension names =>
        unfold part
        rw [roles]
    | device name => rfl
    | reference name => rfl
    | model name => rfl
  unfold deviceLine finish
  simp only [DeviceLine.layout_congr models, parts, roles]

theorem bodyCards_congr (same : ∀ name, globals.contains name = renamer.globals.contains name)
    (models : twin.models = scopes.models) (deck : Deck) :
    { renamer with globals }.bodyCards twin deck = renamer.bodyCards scopes deck := by
  induction deck with
  | nil => rfl
  | cons card rest ih =>
      have here : { renamer with globals }.bodyCard twin card = renamer.bodyCard scopes card := by
        unfold bodyCard controlLine finish
        rw [renamer.deviceLine_congr same models, renamer.byRole_congr same]
      rw [bodyCards, bodyCards, ih, here]

/-- A renamed body depends on the models of the scopes and on which nodes are global. -/
theorem body_congr (same : ∀ name, globals.contains name = renamer.globals.contains name)
    (models : twin.models = scopes.models) (deck : Deck) :
    ({ renamer with globals }.body twin deck).deck = (renamer.body scopes deck).deck ∧
    ({ renamer with globals }.body twin deck).failure = (renamer.body scopes deck).failure := by
  have named (aliases : ModelAliases config.casePolicy) (deck : Deck) :
      { renamer with globals }.modelCards aliases deck = renamer.modelCards aliases deck := by
    induction deck generalizing aliases with
    | nil => rfl
    | cons card rest ih =>
        rw [modelCards, modelCards]
        simp only [ih]
        rfl
  have top : twin.top.models = scopes.top.models := (List.cons.inj models).1
  have inside : ({ renamer with globals }.bodyScopes twin deck).models =
      (renamer.bodyScopes scopes deck).models := by
    unfold bodyScopes Scopes.withModels
    rw [named, top]
    exact congrArg (List.cons _) (List.cons.inj models).2
  rw [body_eq, body_eq, renamer.bodyCards_congr same inside]
  exact ⟨rfl, rfl⟩

end Renamer

/-! ## What is put on record -/

/-- What an expansion may put on record. -/
inductive Entry where
  | warnings (warnings : List Warning)
  | functions (functions : FunctionTable)
  | step (step : Step)
  | unknown (name : Text) (card : Card)

namespace Progress

variable {policy : CasePolicy}

def record (progress : Progress policy) : Entry → Progress policy
  | .warnings warnings => progress.warn warnings
  | .functions functions =>
      { progress with functions := progress.functions.update functions }
  | .step step => { progress with trace := progress.trace ++ [step] }
  | .unknown name card => progress.reportUnknown name card

/-- Puts entries on record, one after the other. -/
def recordAll (progress : Progress policy) (entries : List Entry) : Progress policy :=
  entries.foldl record progress

def withTop (progress : Progress policy) (top : Frame policy) : Progress policy :=
  progress.withScopes (progress.scopes.withTop top)

theorem recordAll_append (progress : Progress policy) (first second : List Entry) :
    progress.recordAll (first ++ second) = (progress.recordAll first).recordAll second :=
  List.foldl_append ..

/-- Entries go into the record whatever the scopes are. -/
theorem recordAll_withScopes (progress : Progress policy) (scopes : Scopes policy)
    (entries : List Entry) :
    (progress.withScopes scopes).recordAll entries =
      (progress.recordAll entries).withScopes scopes := by
  induction entries generalizing progress with
  | nil => rfl
  | cons entry rest ih =>
      have here : (progress.withScopes scopes).record entry =
          (progress.record entry).withScopes scopes := by
        cases entry <;> rfl
      unfold recordAll at ih ⊢
      rw [List.foldl_cons, List.foldl_cons, here, ih]

@[simp] theorem scopes_recordAll (progress : Progress policy) (entries : List Entry) :
    (progress.recordAll entries).scopes = progress.scopes := by
  rw [show progress = progress.withScopes progress.scopes from rfl, recordAll_withScopes]
  rfl

@[simp] theorem globals_recordAll (progress : Progress policy) (entries : List Entry) :
    (progress.recordAll entries).globals = progress.globals := by
  induction entries generalizing progress with
  | nil => rfl
  | cons entry rest ih =>
      have here : (progress.record entry).globals = progress.globals := by
        cases entry <;> rfl
      exact (ih (progress.record entry)).trans here

/-- The same frames and the same global nodes, whatever else was gathered. -/
structure Alike (first second : Progress policy) : Prop where
  frames : second.scopes.frames = first.scopes.frames
  globals : ∀ name, second.globals.contains name = first.globals.contains name

theorem Alike.recordAll {first second : Progress policy} (alike : Alike first second)
    (entries : List Entry) : Alike (first.recordAll entries) (second.recordAll entries) := by
  constructor
  · rw [scopes_recordAll, scopes_recordAll]
    exact alike.frames
  · rw [globals_recordAll, globals_recordAll]
    exact alike.globals

theorem Alike.withTop {first second : Progress policy} (alike : Alike first second)
    (top : Frame policy) : Alike (first.withTop top) (second.withTop top) := by
  refine ⟨?_, alike.globals⟩
  exact congrArg (List.cons top) (List.cons.inj alike.frames).2

theorem Alike.enter {first second : Progress policy} (alike : Alike first second)
    {inner twin : Scopes policy} (entered : first.scopes.enter? = some inner)
    (other : second.scopes.enter? = some twin) :
    Alike (first.withScopes inner) (second.withScopes twin) := by
  refine ⟨?_, alike.globals⟩
  show twin.frames = inner.frames
  rw [Scopes.frames_enter? entered, Scopes.frames_enter? other, alike.frames]

end Progress

/-! ## Levels and calls -/

namespace Level

variable {policy : CasePolicy}

/-- Two levels that come out the same and add the same entries to what was gathered before. -/
structure SideBySide (first second : Progress policy) (level twin : Level policy) : Prop where
  deck : twin.deck = level.deck
  params : twin.params = level.params
  failure : twin.failure = level.failure
  gathered : ∃ entries, level.progress = first.recordAll entries ∧
    twin.progress = second.recordAll entries

/-- A call of the level, or below it, was refused a frame. -/
def TooDeep (level : Level policy) : Prop :=
  ∃ diagnosis, level.failure = some diagnosis ∧ diagnosis.fault.category = .depth

theorem SideBySide.behind {first second : Progress policy} {level twin : Level policy}
    (same : SideBySide first second level twin) (cards : Deck) :
    SideBySide first second (level.behind cards) (twin.behind cards) :=
  ⟨congrArg (cards ++ ·) same.deck, same.params, same.failure, same.gathered⟩

/-- What was put on record before counts among the entries. -/
theorem SideBySide.after {first second : Progress policy} {level twin : Level policy}
    {entries : List Entry}
    (same : SideBySide (first.recordAll entries) (second.recordAll entries) level twin) :
    SideBySide first second level twin := by
  obtain ⟨more, added, twinAdded⟩ := same.gathered
  refine ⟨same.deck, same.params, same.failure, entries ++ more, ?_, ?_⟩
  · rw [added, Progress.recordAll_append]
  · rw [twinAdded, Progress.recordAll_append]

end Level

namespace Expansion

variable {config : Config} {catalog : Catalog}

/-- Two calls with the same outcome that add the same entries to what was gathered before. -/
structure SameReplacement (first second : Progress config.casePolicy)
    (result twin : Replacement config) : Prop where
  outcome : twin.2 = result.2
  gathered : ∃ entries, result.1 = first.recordAll entries ∧ twin.1 = second.recordAll entries

/-- Over scopes with the given room, the expander makes no difference between starts that are
alike, unless the first may nest less deep than the second. -/
def Steady (room : Nat) (expand : Expander config) : Prop :=
  ∀ params deck first second, Progress.Alike first second → first.scopes.room = room →
    first.scopes.capacity ≤ second.scopes.capacity →
    (first.scopes.capacity < second.scopes.capacity ∧ (expand params deck first).TooDeep) ∨
    ∃ top, Level.SideBySide (first.withTop top) (second.withTop top) (expand params deck first)
      (expand params deck second)

section Calls

variable {below : Expander config} {depth : Nat} {params : ParamTable}
  {first second : Progress config.casePolicy}

/-- When a frame is left, what was gathered before is there again, with the entries added. -/
theorem leave_recordAll {inner : Scopes config.casePolicy}
    (entered : first.scopes.enter? = some inner) (top last : Frame config.casePolicy)
    (entries : List Entry) :
    (((first.withScopes inner).withTop top).recordAll entries).withScopes
      (inner.withTop last).leave = first.recordAll entries := by
  have back := first.recordAll_withScopes (inner.withTop top) entries
  show ((first.withScopes (inner.withTop top)).recordAll entries).withScopes _ = _
  rw [back, Scopes.leave_withTop entered, ← Progress.scopes_recordAll first entries]
  rfl

/-- What a call becomes whose body has been expanded over what was gathered before. -/
theorem finishCall_of_gathered (depth : Nat) (card : Card) (call : Call) (definition : Definition)
    (pins : Pins config.casePolicy) {inner : Scopes config.casePolicy}
    (entered : first.scopes.enter? = some inner) {top : Frame config.casePolicy}
    {entries : List Entry} {level : Level config.casePolicy}
    (gathered : level.progress = ((first.withScopes inner).withTop top).recordAll entries) :
    finishCall catalog depth card call definition pins level =
      match level.failure with
      | some diagnosis => (first.recordAll entries, .error diagnosis)
      | none =>
          let renamed := Renamer.body
            ⟨catalog, call.inst, pins, level.params, level.progress.globals⟩
            level.progress.scopes level.deck
          match renamed.failure with
          | some diagnosis => (first.recordAll entries, .error diagnosis)
          | none =>
              (first.recordAll (entries ++
                  [.functions definition.functions,
                    .step ⟨depth, call.inst, definition.name, card.text, renamed.deck.liveTexts⟩]),
                .ok (card.disable :: renamed.deck)) := by
  have scopes : level.progress.scopes = inner.withTop top := by
    rw [gathered, Progress.scopes_recordAll]
    rfl
  have left (last : Frame config.casePolicy) :
      level.progress.withScopes (inner.withTop last).leave = first.recordAll entries := by
    rw [gathered]
    exact leave_recordAll entered top last entries
  have back (renamer : Renamer config) :
      level.progress.withScopes
        (renamer.body level.progress.scopes level.deck).scopes.leave =
          first.recordAll entries := by
    rw [scopes]
    exact left _
  unfold finishCall
  cases level.failure with
  | some diagnosis =>
      dsimp only
      rw [scopes, left]
  | none =>
      dsimp only
      rw [back, Progress.recordAll_append]
      generalize Renamer.body ⟨catalog, call.inst, pins, level.params, level.progress.globals⟩
        level.progress.scopes level.deck = renamed
      cases renamed.failure with
      | some diagnosis => rfl
      | none => rfl

/-- Calls whose bodies come out the same are replaced the same. -/
theorem finishCall_sameReplacement {card : Card} {call : Call} {definition : Definition}
    {pins : Pins config.casePolicy} {inner twinInner : Scopes config.casePolicy}
    (alike : first.Alike second) (entered : first.scopes.enter? = some inner)
    (twinEntered : second.scopes.enter? = some twinInner) {top : Frame config.casePolicy}
    {level twin : Level config.casePolicy}
    (same : Level.SideBySide ((first.withScopes inner).withTop top)
      ((second.withScopes twinInner).withTop top) level twin) :
    SameReplacement first second (finishCall catalog depth card call definition pins level)
      (finishCall catalog depth card call definition pins twin) := by
  obtain ⟨entries, gathered, twinGathered⟩ := same.gathered
  have start := ((alike.enter entered twinEntered).withTop top).recordAll entries
  rw [← gathered, ← twinGathered] at start
  obtain ⟨cards, fault⟩ := Renamer.body_congr
    ⟨catalog, call.inst, pins, level.params, level.progress.globals⟩ start.globals
    (congrArg (List.map Frame.models) start.frames) level.deck
  rw [finishCall_of_gathered depth card call definition pins entered gathered,
    finishCall_of_gathered depth card call definition pins twinEntered twinGathered,
    same.failure, same.deck, same.params]
  cases level.failure with
  | some diagnosis => exact ⟨rfl, entries, rfl, rfl⟩
  | none =>
      dsimp only at cards fault ⊢
      rw [cards, fault]
      split
      · exact ⟨rfl, entries, rfl, rfl⟩
      · exact ⟨rfl, _, rfl, rfl⟩

/-- A call of a definition with a body, met in two expansions that are alike. -/
theorem enterCall_sameReplacement {room : Nat} (deeper : ∀ less < room, Steady less below)
    (card : Card) (call : Call) (definition : Definition) (alike : first.Alike second)
    (here : first.scopes.room = room) (fits : first.scopes.capacity ≤ second.scopes.capacity) :
    (first.scopes.capacity < second.scopes.capacity ∧
      ∃ diagnosis, (enterCall catalog (some below) depth params card call definition first).2 =
        .error diagnosis ∧ diagnosis.fault.category = .depth) ∨
    SameReplacement first second
      (enterCall catalog (some below) depth params card call definition first)
      (enterCall catalog (some below) depth params card call definition second) := by
  have depths : second.scopes.depth = first.scopes.depth := by
    unfold Scopes.depth
    rw [alike.frames]
  unfold enterCall
  cases (Pins.connect definition.name definition.formals call.actuals :
      Except Fault (Pins config.casePolicy)) with
  | error fault => exact .inr ⟨rfl, [], rfl, rfl⟩
  | ok pins =>
      cases entered : first.scopes.enter? with
      | none =>
          rcases Nat.lt_or_eq_of_le fits with less | equal
          · exact .inl ⟨less, _, rfl, rfl⟩
          · have refused : second.scopes.enter? = none := by
              rw [Scopes.enter?_eq_none_iff, Scopes.room] at entered ⊢
              omega
            rw [refused]
            dsimp only
            rw [equal]
            exact .inr ⟨rfl, [], rfl, rfl⟩
      | some inner =>
          have room := Scopes.depth_lt_capacity_of_enter? entered
          have smaller := Scopes.room_enter? entered
          cases twinEntered : second.scopes.enter? with
          | none =>
              rw [Scopes.enter?_eq_none_iff, Scopes.room] at twinEntered
              omega
          | some twin =>
              have capacity := Scopes.capacity_enter? entered
              have twinCapacity := Scopes.capacity_enter? twinEntered
              dsimp only
              rcases deeper inner.room (by omega) _ _ _ _ (alike.enter entered twinEntered) rfl
                (capacity ▸ twinCapacity ▸ fits) with ⟨less, diagnosis, failed, deep⟩ | ⟨top, same⟩
              · refine .inl ⟨capacity ▸ twinCapacity ▸ less, diagnosis, ?_, deep⟩
                unfold finishCall
                rw [failed]
              · exact .inr (finishCall_sameReplacement alike entered twinEntered same)

/-- Starts that are alike make no difference to a call. -/
theorem expandCall_sameReplacement {room : Nat} (deeper : ∀ less < room, Steady less below)
    (card : Card) (alike : first.Alike second) (here : first.scopes.room = room)
    (fits : first.scopes.capacity ≤ second.scopes.capacity) :
    (first.scopes.capacity < second.scopes.capacity ∧
      ∃ diagnosis, (expandCall catalog (some below) depth params card first).2 = .error diagnosis ∧
        diagnosis.fault.category = .depth) ∨
    SameReplacement first second (expandCall catalog (some below) depth params card first)
      (expandCall catalog (some below) depth params card second) := by
  have definitions (name : Text) :
      second.scopes.definition? name = first.scopes.definition? name := by
    unfold Scopes.definition?
    rw [alike.frames]
  unfold expandCall
  cases Call.read? card.text with
  | none => exact .inr ⟨rfl, [], rfl, rfl⟩
  | some call =>
      dsimp only
      rw [definitions]
      cases first.scopes.definition? (call.target params) with
      | none =>
          right
          dsimp only
          unfold unresolvedCall
          split
          · exact ⟨rfl, [], rfl, rfl⟩
          · exact ⟨rfl, [.unknown _ _], rfl, rfl⟩
      | some definition =>
          dsimp only
          split
          · exact .inr ⟨rfl, [.warnings _], rfl, rfl⟩
          · exact enterCall_sameReplacement deeper card call definition alike here fits

variable (catalog depth params) in
/-- Starts that are alike make no difference to a walk. -/
theorem walk_sideBySide {room : Nat} (deeper : ∀ less < room, Steady less below) (deck : Deck)
    (alike : first.Alike second) (here : first.scopes.room = room)
    (fits : first.scopes.capacity ≤ second.scopes.capacity) :
    (first.scopes.capacity < second.scopes.capacity ∧
      (walk catalog (some below) depth params deck first).TooDeep) ∨
    Level.SideBySide first second (walk catalog (some below) depth params deck first)
      (walk catalog (some below) depth params deck second) := by
  induction deck generalizing first second with
  | nil => exact .inr ⟨rfl, rfl, rfl, [], rfl, rfl⟩
  | cons card rest ih =>
      rw [walk, walk]
      split
      · exact (ih alike here fits).imp_right fun same => same.behind _
      · split
        · rcases expandCall_sameReplacement deeper card alike here fits with
            ⟨less, diagnosis, failed, deep⟩ | ⟨outcome, entries, gathered, twinGathered⟩
          · left
            refine ⟨less, diagnosis, ?_, deep⟩
            cases replaced : expandCall catalog (some below) depth params card first with
            | mk middle result =>
                rw [replaced] at failed
                cases failed
                rfl
          · cases replaced : expandCall catalog (some below) depth params card first with
            | mk middle result =>
                cases twinReplaced : expandCall catalog (some below) depth params card second with
                | mk twinMiddle twinResult =>
                    rw [replaced, twinReplaced] at outcome
                    rw [replaced] at gathered
                    rw [twinReplaced] at twinGathered
                    dsimp only at outcome gathered twinGathered
                    subst outcome gathered twinGathered
                    cases twinResult with
                    | error diagnosis => exact .inr ⟨rfl, rfl, rfl, entries, rfl, rfl⟩
                    | ok cards =>
                        have later := ih (alike.recordAll entries)
                          (by rw [Progress.scopes_recordAll]; exact here)
                          (by rw [Progress.scopes_recordAll, Progress.scopes_recordAll]; exact fits)
                        rw [Progress.scopes_recordAll, Progress.scopes_recordAll] at later
                        exact later.imp_right fun same => same.after.behind cards
        · exact (ih alike here fits).imp_right fun same => same.behind _

end Calls

/-! ## Every level -/

variable (catalog) in
/-- Below the top level, starts that are alike make no difference to a level. -/
theorem steady_expandAt (room depth : Nat) :
    Steady room (expandAt catalog (depth + 1) : Expander config) := by
  -- on the room and not on the depth: a level that is opened has less of it
  induction room using Nat.strongRecOn generalizing depth with
  | ind room ih =>
      intro params deck first second alike here fits
      obtain ⟨top, outer⟩ := List.cons.inj alike.frames
      rw [expandAt_eq]
      unfold levelWith
      dsimp only
      rw [top]
      split
      · exact .inr ⟨_, rfl, rfl, rfl, [], rfl, rfl⟩
      next lifted =>
        have frame := alike.withTop (openingFrame deck first)
        have known := frame.recordAll [.warnings (extractionOf deck first).warnings]
        rcases walk_sideBySide catalog (depth + 1) params
          (fun less smaller => ih less smaller (depth + 1)) (extractionOf deck first).deck known
          here fits with tooDeep | same
        · exact .inl tooDeep
        · exact .inr ⟨openingFrame deck first, same.after⟩

end Expansion

end Netlist

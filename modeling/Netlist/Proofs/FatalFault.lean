import Netlist.Proofs.Unwinding

/-!
# Faults that stop an expansion

Only the walk itself knows of unknown subcircuits, and it goes on after them.
Every fault that ends an extraction, a call, the renaming of a body or a level
is fatal.  A device line has few of the faults there are: those of its models
and of its controlling names.
-/

namespace Netlist

namespace Fault

/-- A fault in the words of a device line. -/
def isInLine : Fault → Bool
  | .malformedPoly _ | .unknownModel _ _ | .ambiguousModel _ _ | .missingModel _ => true
  | _ => false

/-- A fault of a call by itself, whatever its definition has in its body. -/
def isOfCall : Fault → Bool
  | .malformedCall _ | .tooManyArguments _ _ _ | .tooFewArguments _ _ _ | .maxCallDepth _ _ => true
  | _ => false

theorem isFatal_of_isInLine {fault : Fault} (inLine : fault.isInLine = true) :
    fault.isFatal = true := by
  cases fault with
  | unknownSubcircuit name => cases inLine
  | _ => rfl

theorem isFatal_of_isOfCall {fault : Fault} (ofCall : fault.isOfCall = true) :
    fault.isFatal = true := by
  cases fault with
  | unknownSubcircuit name => cases ofCall
  | _ => rfl

end Fault

/-- Whatever goes wrong here is a fault in the words of a line. -/
def FailsInLine {α : Type} (result : Except Fault α) : Prop :=
  ∀ fault, result = .error fault → fault.isInLine = true

theorem failsInLine_ok {α : Type} (value : α) : FailsInLine (.ok value) := by
  intro fault failed
  cases failed

theorem failsInLine_error {α : Type} {fault : Fault} (inLine : fault.isInLine = true) :
    FailsInLine (.error fault : Except Fault α) := by
  rintro _ ⟨⟩
  exact inLine

/-! ## Models -/

theorem failsInLine_lookup {policy : CasePolicy} (aliases : ModelAliases policy) (name : Text) :
    FailsInLine (aliases.lookup name) := by
  unfold ModelAliases.lookup
  split
  · exact failsInLine_ok _
  · split
    · exact failsInLine_ok _
    · split
      · exact failsInLine_ok _
      · exact failsInLine_ok _
      · exact failsInLine_error rfl

theorem failsInLine_modelIn {policy : CasePolicy} (frames : List (Frame policy)) (name : Text) :
    FailsInLine (Scopes.modelIn frames name) := by
  induction frames with
  | nil => exact failsInLine_ok _
  | cons frame outer ih =>
      have here := failsInLine_lookup frame.models name
      rw [Scopes.modelIn]
      split
      next fault failed => exact failsInLine_error (here fault failed)
      · exact failsInLine_ok _
      · exact ih

/-! ## Device lines -/

namespace DeviceLine

variable {policy : CasePolicy} (scopes : Scopes policy)

theorem failsInLine_splitDimension (first : Word) (rest : List Word) :
    FailsInLine (splitDimension first rest) := by
  unfold splitDimension
  split
  · exact failsInLine_ok _
  · split
    · exact failsInLine_error rfl
    · exact failsInLine_ok _

theorem failsInLine_splitPoly (role : Role) (first : Word) (rest : List Word) :
    FailsInLine (splitPoly role first rest) := by
  have dimension := failsInLine_splitDimension first rest
  unfold splitPoly
  split
  next fault failed => exact failsInLine_error (dimension fault failed)
  · split
    · exact failsInLine_error rfl
    · split
      · exact failsInLine_error rfl
      · dsimp only
        split
        · exact failsInLine_error rfl
        · exact failsInLine_ok _

theorem failsInLine_slotModel (kind : DeviceKind) (count : Nat) (word : Text) :
    FailsInLine (slotModel scopes kind count word) := by
  unfold slotModel
  split
  · exact failsInLine_modelIn _ word
  · exact failsInLine_ok _

theorem failsInLine_nodeRun (kind : DeviceKind) (count : Nat) (words : List Word) :
    FailsInLine (nodeRun scopes kind count words) := by
  induction words generalizing count with
  | nil => exact failsInLine_ok _
  | cons first rest ih =>
      have poly := failsInLine_splitPoly .node first rest
      have model := failsInLine_slotModel scopes kind count first.text
      rw [nodeRun]
      split
      · exact failsInLine_ok _
      · split
        · split
          next fault failed => exact failsInLine_error (poly fault failed)
          · exact failsInLine_ok _
        · split
          next fault failed => exact failsInLine_error (model fault failed)
          · exact failsInLine_ok _
          · split
            next fault failed => exact failsInLine_error (ih (count + 1) fault failed)
            · exact failsInLine_ok _

theorem failsInLine_referenceRun (count : Nat) (words : List Word) :
    FailsInLine (referenceRun count words) := by
  induction words generalizing count with
  | nil => cases count <;> exact failsInLine_ok _
  | cons first rest ih =>
      cases count with
      | zero => exact failsInLine_ok _
      | succ count =>
          have poly := failsInLine_splitPoly .device first rest
          rw [referenceRun]
          split
          · exact failsInLine_ok _
          · split
            · split
              next fault failed => exact failsInLine_error (poly fault failed)
              · exact failsInLine_ok _
            · split
              next fault failed => exact failsInLine_error (ih count fault failed)
              · exact failsInLine_ok _

theorem failsInLine_modelPart (strict : Bool) (name : Text) (words : List Word) :
    FailsInLine (modelPart strict scopes name words) := by
  cases words with
  | nil => exact failsInLine_error rfl
  | cons first rest =>
      have model := failsInLine_modelIn scopes.frames first.text
      rw [modelPart]
      split
      · exact failsInLine_error rfl
      · split
        next fault failed => exact failsInLine_error (model fault failed)
        · exact failsInLine_ok _
        · split
          · exact failsInLine_error rfl
          · exact failsInLine_ok _

theorem failsInLine_valueModel (words : List Word) : FailsInLine (valueModel scopes words) := by
  cases words with
  | nil => exact failsInLine_ok _
  | cons first rest =>
      have model := failsInLine_lookup scopes.top.models first.text
      rw [valueModel]
      split
      · exact failsInLine_ok _
      · split
        · split
          next fault failed => exact failsInLine_error (model fault failed)
          · exact failsInLine_ok _
          · exact failsInLine_ok _
        · exact failsInLine_ok _

theorem failsInLine_valueLayout (words : List Word) :
    FailsInLine (valueLayout scopes words) := by
  have value := failsInLine_valueModel scopes words
  unfold valueLayout
  split
  next fault failed => exact failsInLine_error (value fault failed)
  · exact failsInLine_ok _

theorem failsInLine_modelLayout (strict : Bool) (kind : DeviceKind) (name : Text)
    (words : List Word) : FailsInLine (modelLayout strict scopes kind name words) := by
  have model := failsInLine_modelPart scopes strict name words
  unfold modelLayout
  split
  · split
    next fault failed => exact failsInLine_error (model fault failed)
    · exact failsInLine_ok _
  · exact failsInLine_valueLayout scopes words

theorem failsInLine_behindNodes (strict : Bool) (kind : DeviceKind) (name : Text) (run : Run) :
    FailsInLine (behindNodes strict scopes kind name run) := by
  have references := failsInLine_referenceRun kind.references run.rest
  have model := failsInLine_modelLayout scopes strict kind name
  unfold behindNodes
  split
  · exact failsInLine_ok _
  · exact model run.rest
  · split
    next fault failed => exact failsInLine_error (references fault failed)
    next parts words read =>
      split
      next fault failed => exact failsInLine_error (model words fault failed)
      · exact failsInLine_ok _

theorem failsInLine_layout (strict : Bool) (kind : Option DeviceKind) (name : Text)
    (words : List Word) : FailsInLine (layout strict scopes kind name words) := by
  cases kind with
  | none => exact failsInLine_valueLayout scopes words
  | some kind =>
      have nodes := failsInLine_nodeRun scopes kind 0 words
      have behind := failsInLine_behindNodes scopes strict kind name
      unfold layout
      dsimp only
      split
      next fault failed => exact failsInLine_error (nodes fault failed)
      next run read =>
        split
        next fault failed => exact failsInLine_error (behind run fault failed)
        · exact failsInLine_ok _

end DeviceLine

/-! ## Bodies -/

namespace Renamer

variable {config : Config} (renamer : Renamer config) (scopes : Scopes config.casePolicy)

theorem failsInLine_deviceLine (text : Text) :
    FailsInLine (renamer.deviceLine scopes text) := by
  unfold deviceLine
  split
  · exact failsInLine_ok _
  next name words whole =>
    have laid := DeviceLine.failsInLine_layout scopes config.strictModels
      (DeviceLine.kind? renamer.catalog name.text) name.text words
    split
    next fault failed => exact failsInLine_error (laid fault failed)
    · exact failsInLine_ok _

theorem failsInLine_bodyCard (card : Card) : FailsInLine (renamer.bodyCard scopes card) := by
  have device := renamer.failsInLine_deviceLine scopes card.text
  unfold bodyCard
  split
  · exact failsInLine_ok _
  · split
    · split
      next fault failed => exact failsInLine_error (device fault failed)
      · exact failsInLine_ok _
    · split <;> exact failsInLine_ok _

theorem isInLine_of_bodyCards {deck : Deck} {diagnosis : Diagnosis}
    (failed : (renamer.bodyCards scopes deck).2 = some diagnosis) :
    diagnosis.fault.isInLine = true := by
  induction deck with
  | nil => cases failed
  | cons card rest ih =>
      have here := renamer.failsInLine_bodyCard scopes card
      rw [bodyCards] at failed
      split at failed
      next fault stopped =>
        cases failed
        exact here fault stopped
      · exact ih failed

end Renamer

/-! ## Extraction -/

theorem Extraction.isFatal_of_runFrom {directives : Directives} {policy : CasePolicy}
    {phase : Phase} {opened : Option OpenDefinition} {table : DefinitionTable} {deck : Deck}
    {diagnosis : Diagnosis}
    (failed : (runFrom directives policy phase opened table deck).failure = some diagnosis) :
    diagnosis.fault.isFatal = true := by
  induction deck generalizing opened table with
  | nil =>
      obtain ⟨inner, -, rfl⟩ := Option.map_eq_some_iff.mp failed
      rfl
  | cons card rest ih =>
      rcases takes_or_stops directives policy opened table card with
        ⟨fault, stops⟩ | ⟨image, next, found, warnings, takes⟩
      · rw [stops.runFrom_eq phase] at failed
        cases failed
        cases stops with
        | unnamed fault live starts unnamed =>
            unfold Header.ofCard at unnamed
            split at unnamed
            · cases unnamed
            · cases unnamed
              rfl
        | stray live notStart ends => rfl
      · rw [takes.runFrom_eq phase] at failed
        exact ih failed

/-! ## Levels -/

namespace Expansion

variable {config : Config} (catalog : Catalog)

/-- A level ends with a fatal fault, if it fails. -/
def EndsFatally (expand : Expander config) : Prop :=
  ∀ params deck progress diagnosis, (expand params deck progress).failure = some diagnosis →
    diagnosis.fault.isFatal = true

section Levels

variable {catalog} {below : Option (Expander config)} {depth : Nat} {params : ParamTable}
  {progress next : Progress config.casePolicy} {diagnosis : Diagnosis}

variable (below progress diagnosis) in
/-- Why a call fails: for itself, in a line of its expanded body, or in the level below. -/
inductive CallFails : Prop where
  | call (ofCall : diagnosis.fault.isOfCall = true)
  | line (inLine : diagnosis.fault.isInLine = true)
  | level {name : Text} {definition : Definition} {expand : Expander config}
      {scopes : Scopes config.casePolicy} {inner : ParamTable}
      (known : progress.scopes.definition? name = some definition)
      (deeper : below = some expand) (entered : progress.scopes.enter? = some scopes)
      (fails : (expand inner definition.body (progress.withScopes scopes)).failure =
        some diagnosis)

theorem callFails_of_enterCall {card : Card} {call : Call} {name : Text} {definition : Definition}
    (known : progress.scopes.definition? name = some definition)
    (failed : enterCall catalog below depth params card call definition progress =
      (next, .error diagnosis)) : CallFails below progress diagnosis := by
  unfold enterCall at failed
  split at failed
  next fault apart =>
    cases failed
    unfold Pins.connect at apart
    split at apart
    · cases apart
      exact .call rfl
    · split at apart
      · cases apart
        exact .call rfl
      · cases apart
  next pins connected =>
    split at failed
    next expand scopes entered =>
      unfold finishCall at failed
      dsimp only at failed
      split at failed
      next fault stopped =>
        cases failed
        exact .level known rfl entered stopped
      · split at failed
        next fault stopped =>
          cases failed
          exact .line (Renamer.isInLine_of_bodyCards _ _ stopped)
        · cases failed
    · cases failed
      exact .call rfl

theorem callFails_of_expandCall {card : Card}
    (failed : expandCall catalog below depth params card progress = (next, .error diagnosis)) :
    CallFails below progress diagnosis := by
  unfold expandCall at failed
  split at failed
  · cases failed
    exact .call rfl
  · dsimp only at failed
    split at failed
    · unfold unresolvedCall at failed
      split at failed <;> cases failed
    next definition known =>
      split at failed
      · cases failed
      · exact callFails_of_enterCall known failed

theorem CallFails.isFatal (ends : ∀ expand, below = some expand → EndsFatally expand)
    (fails : CallFails below progress diagnosis) : diagnosis.fault.isFatal = true := by
  cases fails with
  | call ofCall => exact Fault.isFatal_of_isOfCall ofCall
  | line inLine => exact Fault.isFatal_of_isInLine inLine
  | level known deeper entered fails => exact ends _ deeper _ _ _ _ fails

theorem endsFatally_levelWith (ends : ∀ expand, below = some expand → EndsFatally expand) :
    EndsFatally (levelWith catalog below depth) := by
  intro params deck progress diagnosis failed
  cases lifted : (extractionOf deck progress).failure with
  | some fault =>
      rw [levelWith_of_failed catalog lifted] at failed
      cases failed
      exact Extraction.isFatal_of_runFrom lifted
  | none =>
      rw [levelWith_of_lifted catalog lifted] at failed
      obtain ⟨front, card, back, next, stops⟩ := exists_stopsAt failed
      exact (callFails_of_expandCall stops.fails).isFatal ends

end Levels

/-- Unknown subcircuits never stop a level. -/
theorem endsFatally_expandLevel (room depth : Nat) :
    EndsFatally (expandLevel catalog room depth : Expander config) := by
  induction room using Nat.strongRecOn generalizing depth with
  | ind room ih =>
      obtain ⟨below, shape, deeper⟩ := @expandLevel_cases config catalog room depth
      rw [shape]
      apply endsFatally_levelWith
      intro expand here
      obtain ⟨less, smaller, rfl⟩ := deeper expand here
      exact ih less smaller (depth + 1)

end Expansion

end Netlist

import Netlist.Proofs.Lockstep

/-!
# Raising the depth limit

The depth limit is read once, when the scopes are made.  A run that is refused
no frame under one limit is the same run under every higher one, as long as
memory has room for all the frames that the higher limit allows.
-/

namespace Netlist

variable {config : Config} (limit : Nat)

/-! ## The limit is not read again -/

namespace Renamer

/-- The same renamer under another depth limit. -/
def underLimit (renamer : Renamer config) : Renamer { config with maxDepth := limit } :=
  ⟨renamer.catalog, renamer.inst, renamer.pins, renamer.params, renamer.globals⟩

theorem body_underLimit (renamer : Renamer config) (scopes : Scopes config.casePolicy)
    (deck : Deck) : (renamer.underLimit limit).body scopes deck = renamer.body scopes deck := by
  have models (aliases : ModelAliases config.casePolicy) (deck : Deck) :
      (renamer.underLimit limit).modelCards aliases deck = renamer.modelCards aliases deck := by
    induction deck generalizing aliases with
    | nil => rfl
    | cons card rest ih =>
        rw [modelCards, modelCards]
        simp only [ih]
        rfl
  have cards (scopes : Scopes config.casePolicy) (deck : Deck) :
      (renamer.underLimit limit).bodyCards scopes deck = renamer.bodyCards scopes deck := by
    induction deck with
    | nil => rfl
    | cons card rest ih =>
        rw [bodyCards, bodyCards, ih]
        rfl
  unfold body
  rw [models]
  simp only [cards]

end Renamer

namespace Expansion

variable (catalog : Catalog)

theorem finishCall_underLimit (depth : Nat) (card : Card) (call : Call) (definition : Definition)
    (pins : Pins config.casePolicy) (level : Level config.casePolicy) :
    @finishCall { config with maxDepth := limit } catalog depth card call definition pins level =
      @finishCall config catalog depth card call definition pins level := by
  have renamed : Renamer.body (⟨catalog, call.inst, pins, level.params, level.progress.globals⟩ :
        Renamer { config with maxDepth := limit }) level.progress.scopes level.deck =
      Renamer.body (⟨catalog, call.inst, pins, level.params, level.progress.globals⟩ :
        Renamer config) level.progress.scopes level.deck :=
    Renamer.body_underLimit limit ⟨catalog, call.inst, pins, level.params, level.progress.globals⟩
      level.progress.scopes level.deck
  unfold finishCall
  simp only [renamed]

theorem enterCall_underLimit (below : Option (Expander config)) (depth : Nat)
    (params : ParamTable) (card : Card) (call : Call) (definition : Definition)
    (progress : Progress config.casePolicy) :
    @enterCall { config with maxDepth := limit } catalog below depth params card call definition
        progress =
      @enterCall config catalog below depth params card call definition progress := by
  unfold enterCall
  cases (Pins.connect definition.name definition.formals call.actuals :
      Except Fault (Pins config.casePolicy)) with
  | error fault => rfl
  | ok pins =>
      cases below with
      | none => rfl
      | some expand =>
          cases progress.scopes.enter? with
          | none => rfl
          | some scopes => exact finishCall_underLimit limit catalog ..

theorem walk_underLimit (below : Option (Expander config)) (depth : Nat) (params : ParamTable)
    (deck : Deck) (progress : Progress config.casePolicy) :
    @walk { config with maxDepth := limit } catalog below depth params deck progress =
      @walk config catalog below depth params deck progress := by
  have called (card : Card) (progress : Progress config.casePolicy) :
      @expandCall { config with maxDepth := limit } catalog below depth params card progress =
        @expandCall config catalog below depth params card progress := by
    unfold expandCall
    simp only [enterCall_underLimit limit catalog]
    rfl
  induction deck generalizing progress with
  | nil => rfl
  | cons card rest ih =>
      rw [walk, walk, called]
      simp only [ih]
      rcases @expandCall config catalog below depth params card progress with
        ⟨middle, diagnosis | cards⟩
      · rfl
      · rfl

/-- A level is expanded the same under every limit, as long as the scopes are the same. -/
theorem expandLevel_underLimit (room depth : Nat) (params : ParamTable) (deck : Deck)
    (progress : Progress config.casePolicy) :
    @expandLevel { config with maxDepth := limit } catalog room depth params deck progress =
      @expandLevel config catalog room depth params deck progress := by
  have level (below : Option (Expander config)) (depth : Nat) (params : ParamTable) (deck : Deck)
      (progress : Progress config.casePolicy) :
      @levelWith { config with maxDepth := limit } catalog below depth params deck progress =
        @levelWith config catalog below depth params deck progress := by
    unfold levelWith
    simp only [walk_underLimit limit catalog]
    rfl
  induction room generalizing depth params deck progress with
  | zero => exact level none depth params deck progress
  | succ room ih =>
      have below : @expandLevel { config with maxDepth := limit } catalog room (depth + 1) =
          @expandLevel config catalog room (depth + 1) := by
        funext params deck progress
        exact ih (depth + 1) params deck progress
      rw [expandLevel, expandLevel, below]
      exact level _ depth params deck progress

/-! ## Two limits -/

/-- What a run under the given limit has gathered before its top level. -/
def limitedStart (frame : Frame config.casePolicy) (bound : Bindings) :
    Progress config.casePolicy :=
  { scopes := (Scopes.start limit).withTop frame, functions := bound.functions }

theorem expandFrom_underLimit (frame : Frame config.casePolicy) (bound : Bindings) (deck : Deck) :
    expandFrom { config with maxDepth := limit } catalog frame bound deck =
      ofLevel config (expandAt catalog 0 bound.params deck (limitedStart limit frame bound)) :=
  congrArg (ofLevel config) (expandLevel_underLimit limit catalog _ 0 bound.params deck
    (limitedStart limit frame bound))

/-- What a level leaves matters to the result, but not how many frames its scopes may have. -/
theorem ofLevel_withScopes {level twin : Level config.casePolicy}
    {scopes : Scopes config.casePolicy} (deck : twin.deck = level.deck)
    (params : twin.params = level.params) (failure : twin.failure = level.failure)
    (progress : twin.progress = level.progress.withScopes scopes) :
    ofLevel config twin = ofLevel config level := by
  unfold ofLevel
  rw [failure, deck, params, progress]
  rfl

/-- At the top level, a higher limit makes no difference unless a call is refused a frame. -/
theorem ofLevel_eq_of_le {lower higher : Nat} (order : lower ≤ higher)
    (frame : Frame config.casePolicy) (bound : Bindings) (deck : Deck) :
    (expandAt catalog 0 bound.params deck
        (limitedStart lower frame bound : Progress config.casePolicy)).TooDeep ∨
    ofLevel config (expandAt catalog 0 bound.params deck (limitedStart higher frame bound)) =
      ofLevel config (expandAt catalog 0 bound.params deck (limitedStart lower frame bound)) := by
  have rule := @expandAt_eq config catalog 0
  rw [rule]
  cases lifted : (extractionOf deck
      (limitedStart lower frame bound : Progress config.casePolicy)).failure with
  | some diagnosis =>
      right
      rw [levelWith_of_failed catalog lifted,
        @levelWith_of_failed config catalog _ _ _ deck (limitedStart higher frame bound) diagnosis
          lifted]
      exact ofLevel_withScopes rfl rfl rfl rfl
  | none =>
      rw [levelWith_of_lifted catalog lifted,
        @levelWith_of_lifted config catalog _ _ _ deck (limitedStart higher frame bound) lifted]
      have alike : Progress.Alike
          (opening 0 bound.params deck
            (limitedStart lower frame bound : Progress config.casePolicy)).1
          (opening 0 bound.params deck (limitedStart higher frame bound)).1 :=
        ⟨rfl, fun _ => rfl⟩
      have fits : max lower 1 ≤ max higher 1 := by omega
      rcases walk_sideBySide catalog 0 _ (fun less _ => steady_expandAt catalog less 0) _ alike rfl
        fits with ⟨-, tooDeep⟩ | same
      · exact .inl tooDeep
      · right
        obtain ⟨entries, gathered, twinGathered⟩ := same.gathered
        have progress := twinGathered.trans (Progress.recordAll_withScopes
          (opening 0 bound.params deck (limitedStart lower frame bound)).1
          (opening 0 bound.params deck (limitedStart higher frame bound)).1.scopes entries)
        rw [← gathered] at progress
        exact ofLevel_withScopes same.deck same.params same.failure progress

/-- Under a higher limit a run has the same result, unless it is refused a frame. -/
theorem run_underLimit_of_le {lower higher : Nat} (order : lower ≤ higher) (store : CacheStore)
    (bound : Bindings) (block : Option Text) (deck : Deck) :
    (∃ failure,
      run { config with maxDepth := lower } catalog store bound block deck = .error failure ∧
      ∃ diagnosis ∈ failure.diagnoses, diagnosis.fault.category = .depth) ∨
    run { config with maxDepth := higher } catalog store bound block deck =
      run { config with maxDepth := lower } catalog store bound block deck := by
  have expanded (frame : Frame config.casePolicy) (bound : Bindings) (deck : Deck) :
      (∃ failure,
        expandFrom { config with maxDepth := lower } catalog frame bound deck = .error failure ∧
        ∃ diagnosis ∈ failure.diagnoses, diagnosis.fault.category = .depth) ∨
      expandFrom { config with maxDepth := higher } catalog frame bound deck =
        expandFrom { config with maxDepth := lower } catalog frame bound deck := by
    rw [expandFrom_underLimit, expandFrom_underLimit]
    rcases ofLevel_eq_of_le catalog order frame bound deck with
      ⟨diagnosis, failed, deep⟩ | same
    · left
      unfold ofLevel
      rw [failed]
      exact ⟨_, rfl, diagnosis, List.mem_singleton.mpr rfl, deep⟩
    · exact .inr same
  unfold run
  cases block with
  | none => exact expanded {} bound deck
  | some name =>
      dsimp only
      cases store.get? name with
      | none => exact .inr rfl
      | some cached => exact expanded _ _ _

theorem run?_of_reserves {room : Nat}
    (roomy : Scopes.reserves room config.maxDepth = true) (store : CacheStore) (bound : Bindings)
    (block : Option Text) (deck : Deck) :
    run? config catalog room store bound block deck =
      some (run config catalog store bound block deck) :=
  if_pos roomy

theorem run?_of_not_reserves {room : Nat}
    (full : Scopes.reserves room config.maxDepth = false) (store : CacheStore) (bound : Bindings)
    (block : Option Text) (deck : Deck) :
    run? config catalog room store bound block deck = none := by
  rw [run?, full]
  rfl

theorem run_of_run? {room : Nat} {store : CacheStore} {bound : Bindings}
    {block : Option Text} {deck : Deck} {result : Except Failure (Expansion config.casePolicy)}
    (ran : run? config catalog room store bound block deck = some result) :
    run config catalog store bound block deck = result := by
  rw [run?] at ran
  split at ran
  · exact Option.some.inj ran
  · cases ran

/-- Raising the depth limit changes nothing in an expansion that succeeds, and nothing in one that
fails for other reasons than its depth, if memory has room for the frames of the higher limit.
Without that room there is no result under the higher limit at all. -/
theorem run_stable_of_raised_limit {lower higher : Nat} (order : lower ≤ higher) (room : Nat)
    (store : CacheStore) (bound : Bindings) (block : Option Text) (deck : Deck) :
    (Scopes.reserves room higher = true →
      (∀ expansion,
        run? { config with maxDepth := lower } catalog room store bound block deck =
          some (.ok expansion) →
        run? { config with maxDepth := higher } catalog room store bound block deck =
          some (.ok expansion)) ∧
      ∀ failure,
        run? { config with maxDepth := lower } catalog room store bound block deck =
          some (.error failure) →
        (∀ diagnosis ∈ failure.diagnoses, diagnosis.fault.category ≠ .depth) →
        run? { config with maxDepth := higher } catalog room store bound block deck =
          some (.error failure)) ∧
    (Scopes.reserves room higher = false →
      run? { config with maxDepth := higher } catalog room store bound block deck = none) := by
  constructor
  · intro roomy
    have raised : run? { config with maxDepth := higher } catalog room store bound block deck =
        some (run { config with maxDepth := higher } catalog store bound block deck) :=
      run?_of_reserves catalog roomy store bound block deck
    rcases run_underLimit_of_le catalog order store bound block deck with
      ⟨failure, failed, diagnosis, member, deep⟩ | same
    · constructor
      · intro expansion ran
        rw [run_of_run? catalog ran] at failed
        cases failed
      · intro other ran shallow
        rw [run_of_run? catalog ran] at failed
        cases failed
        exact absurd deep (shallow diagnosis member)
    · constructor
      · intro expansion ran
        rw [raised, same, run_of_run? catalog ran]
      · intro failure ran _
        rw [raised, same, run_of_run? catalog ran]
  · intro full
    exact run?_of_not_reserves catalog full store bound block deck

theorem exists_failure_of_faults {policy : CasePolicy} {result : Except Failure (Expansion policy)}
    {first : Fault} {rest : List Fault} (failed : faults result = first :: rest) :
    ∃ failure, result = .error failure ∧ failure.diagnoses.map Diagnosis.fault = first :: rest := by
  cases result with
  | error failure => exact ⟨failure, rfl, failed⟩
  | ok expansion => cases failed

theorem exists_run?_of_passes {room : Nat} {store : CacheStore} {bound : Bindings}
    {block : Option Text} {deck : Deck} (roomy : Scopes.reserves room config.maxDepth = true)
    (passed : passes (fun _ => true) (run config catalog store bound block deck) = true) :
    ∃ expansion, run? config catalog room store bound block deck = some (.ok expansion) := by
  have reserved := run?_of_reserves catalog roomy store bound block deck
  obtain ⟨expansion, -, ran⟩ := exists_of_passes (fun _ => true) passed
    fun _ ran _ => reserved.trans (congrArg some ran)
  exact ⟨expansion, ran⟩

/-- A nested call that just fits, and an unknown subcircuit that is no matter of depth. -/
theorem run_stable_of_raised_limit_nested :
    let nested : Deck := [".subckt top p", ".subckt inner q", "r1 q 0 1", ".ends", "x2 p inner",
      ".ends", "x1 n top"].map fun line => { text := line.toList }
    let broken : Deck := [".subckt top p", "x2 p nowhere", ".ends", "x1 n top"].map
      fun line => { text := line.toList }
    Scopes.reserves Scopes.mostFrames 1000 = true ∧
    (∃ expansion, run? { maxDepth := 3 } .standard Scopes.mostFrames NameTable.empty
          ⟨.empty, .empty⟩ none nested = some (.ok expansion) ∧
      run? { maxDepth := 1000 } .standard Scopes.mostFrames NameTable.empty ⟨.empty, .empty⟩ none
        nested = some (.ok expansion)) ∧
    ∃ failure, run? { maxDepth := 2 } .standard Scopes.mostFrames NameTable.empty
          ⟨.empty, .empty⟩ none broken = some (.error failure) ∧
      failure.diagnoses.map Diagnosis.fault = [.unknownSubcircuit "nowhere".toList] ∧
      run? { maxDepth := 1000 } .standard Scopes.mostFrames NameTable.empty ⟨.empty, .empty⟩ none
        broken = some (.error failure) := by
  intro nested broken
  have roomy : Scopes.reserves Scopes.mostFrames 1000 = true := by decide
  refine ⟨roomy, ?_, ?_⟩
  · obtain ⟨expansion, ran⟩ : ∃ expansion, run? { maxDepth := 3 } .standard Scopes.mostFrames
        NameTable.empty ⟨.empty, .empty⟩ none nested = some (.ok expansion) :=
      exists_run?_of_passes .standard (by decide) (by decide +kernel)
    refine ⟨expansion, ran, ?_⟩
    exact ((@run_stable_of_raised_limit {} .standard 3 1000 (by decide) Scopes.mostFrames
      NameTable.empty ⟨.empty, .empty⟩ none nested).1 roomy).1 expansion ran
  · have unknown : faults (run { maxDepth := 2 } .standard NameTable.empty ⟨.empty, .empty⟩ none
        broken) = [.unknownSubcircuit "nowhere".toList] := by decide +kernel
    obtain ⟨failure, failed, faults⟩ := exists_failure_of_faults unknown
    have failedHere : run? { maxDepth := 2 } .standard Scopes.mostFrames NameTable.empty
        ⟨.empty, .empty⟩ none broken = some (.error failure) :=
      (run?_of_reserves .standard (by decide) ..).trans (congrArg some failed)
    refine ⟨failure, failedHere, faults, ?_⟩
    apply ((@run_stable_of_raised_limit {} .standard 2 1000 (by decide) Scopes.mostFrames
      NameTable.empty ⟨.empty, .empty⟩ none broken).1 roomy).2 failure failedHere
    intro diagnosis member
    have listed := List.mem_map_of_mem (f := Diagnosis.fault) member
    rw [faults] at listed
    rw [List.mem_singleton.mp listed]
    decide

/-- A call that is expanded under the usual limit has no result under the largest one. -/
theorem no_result_under_largest_limit :
    let deck : Deck := [".subckt s a", "r1 a 0 1k", ".ends", "x1 n s"].map
      fun line => { text := line.toList }
    (∃ expansion, run? { maxDepth := 16 } .standard Scopes.mostFrames NameTable.empty
      ⟨.empty, .empty⟩ none deck = some (.ok expansion)) ∧
    run? { maxDepth := Nat.pow 2 64 - 1 } .standard Scopes.mostFrames NameTable.empty
      ⟨.empty, .empty⟩ none deck = none := by
  intro deck
  constructor
  · exact exists_run?_of_passes .standard (by decide) (by decide +kernel)
  · exact run?_of_not_reserves .standard (by decide) NameTable.empty ⟨.empty, .empty⟩ none deck

end Expansion

end Netlist

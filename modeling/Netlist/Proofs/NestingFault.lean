import Netlist.Proofs.BalancedBodies
import Netlist.Proofs.CacheHistory
import Netlist.Proofs.DepthLimit
import Netlist.Proofs.FatalFault
import Netlist.Proofs.Library

/-!
# Where faults of nesting come from

An end without a start and a definition that is never closed are met where
definitions are lifted out.  The bodies of definitions are balanced, so during
expansion these faults come from the deck of the top level or from the text of
a cache block, and never from a level below.
-/

namespace Netlist

theorem Fault.not_isOfNesting {fault : Fault}
    (other : fault.isOfCall = true ∨ fault.isInLine = true) : fault.isOfNesting = false := by
  cases fault with
  | endWithoutStart directive => simp [isOfCall, isInLine] at other
  | unterminated name => simp [isOfCall, isInLine] at other
  | _ => rfl

/-! ## Expansion -/

namespace Expansion

variable {config : Config} (catalog : Catalog)

/-- A fault of nesting that ends a level is met where the definitions of the level are lifted out,
or those of the body of a definition that was given, if all others have balanced bodies. -/
def TracesNesting (given : Definition → Prop) (expand : Expander config) : Prop :=
  ∀ params deck progress diagnosis,
    progress.scopes.Every (fun known => given known ∨ known.body.Balanced config.directives) →
    (expand params deck progress).failure = some diagnosis →
    diagnosis.fault.isOfNesting = true →
      (extractionOf deck progress).failure = some diagnosis ∨
      ∃ definition table, given definition ∧
        (Extraction.run config.directives config.casePolicy .expand table
          definition.body).failure = some diagnosis

section Levels

variable {given : Definition → Prop} {below : Option (Expander config)}

theorem every_opening (dotted : config.directives.Dotted) (depth : Nat) (params : ParamTable)
    (deck : Deck) {progress : Progress config.casePolicy}
    (known : progress.scopes.Every fun known =>
      given known ∨ known.body.Balanced config.directives) :
    (opening depth params deck progress).1.scopes.Every fun known =>
      given known ∨ known.body.Balanced config.directives := by
  rw [scopes_opening]
  apply known.withTop
  exact Extraction.sourced_of_run dotted (known progress.scopes.top (List.mem_cons_self ..)) deck

theorem tracesNesting_levelWith (dotted : config.directives.Dotted)
    (contained : ∀ expand, below = some expand → Contained expand)
    (traces : ∀ expand, below = some expand → TracesNesting given expand) (depth : Nat) :
    TracesNesting given (levelWith catalog below depth) := by
  intro params deck progress diagnosis known failed nesting
  cases lifted : (extractionOf deck progress).failure with
  | some fault =>
      rw [levelWith_of_failed catalog lifted] at failed
      exact .inl failed
  | none =>
      right
      rw [levelWith_of_lifted catalog lifted] at failed
      obtain ⟨front, card, back, next, stops⟩ := exists_stopsAt failed
      cases callFails_of_expandCall stops.fails with
      | call ofCall =>
          rw [Fault.not_isOfNesting (.inl ofCall)] at nesting
          cases nesting
      | line inLine =>
          rw [Fault.not_isOfNesting (.inr inLine)] at nesting
          cases nesting
      | level found deeper entered fails =>
          have frames := every_opening dotted depth params deck known
          rw [← scopes_walk contained front] at frames
          rcases traces _ deeper _ _ _ _ (frames.enter? entered) fails nesting with body | inside
          · -- a balanced body has no such fault, so the body is one that was given
            rcases frames.definition? found with supplied | balanced
            · exact ⟨_, _, supplied, body⟩
            · rw [Extraction.not_isOfNesting_of_balanced balanced body] at nesting
              cases nesting
          · exact inside

end Levels

theorem tracesNesting_expandLevel (dotted : config.directives.Dotted) (given : Definition → Prop)
    (room depth : Nat) :
    TracesNesting given (expandLevel catalog room depth : Expander config) := by
  induction room generalizing depth with
  | zero =>
      apply tracesNesting_levelWith catalog dotted <;>
      · intro expand impossible
        cases impossible
  | succ room ih =>
      apply tracesNesting_levelWith catalog dotted (contained_deeper catalog (room + 1) depth)
      rintro _ ⟨⟩
      exact ih (depth + 1)

/-- Only unknown subcircuits are reported. -/
def OnlyUnknown (progress : Progress config.casePolicy) : Prop :=
  ∀ diagnosis ∈ progress.unresolved, ∃ name, diagnosis.fault = .unknownSubcircuit name

theorem OnlyUnknown.reportUnknown {progress : Progress config.casePolicy}
    (only : OnlyUnknown progress) (name : Text) (card : Card) :
    OnlyUnknown (progress.reportUnknown name card) := by
  intro diagnosis member
  rw [Progress.reportUnknown] at member
  dsimp only at member
  split at member
  · exact only diagnosis member
  · rcases List.mem_append.mp member with before | here
    · exact only diagnosis before
    · rw [List.mem_singleton.mp here]
      exact ⟨name, rfl⟩

theorem Walks.onlyUnknown {below : Option (Expander config)} {depth : Nat} {params : ParamTable}
    {deck out : Deck} {progress next : Progress config.casePolicy}
    (walks : Walks catalog below depth params deck progress out next)
    (deeper : ∀ expand, below = some expand → ∀ params deck progress,
      (expand params deck progress).failure = none → OnlyUnknown progress →
        OnlyUnknown (expand params deck progress).progress)
    (only : OnlyUnknown progress) : OnlyUnknown next := by
  induction walks with
  | nil progress => exact only
  | idle idle tail ih => exact ih only
  | statement live other tail ih => exact ih only
  | call live calls replaces tail ih =>
      apply ih
      cases replaces with
      | device call letter read unknown mapped => exact only
      | unknown call read unknown unmapped => exact only.reportUnknown _ _
      | dropped call definition warning read known empty => exact only
      | inlined inlining whole renamed =>
          exact deeper _ inlining.deeper _ _ _ whole only

theorem onlyUnknown_expandLevel (room depth : Nat) (params : ParamTable) (deck : Deck)
    (progress : Progress config.casePolicy)
    (whole : (expandLevel catalog room depth params deck progress).failure = none)
    (only : OnlyUnknown progress) :
    OnlyUnknown (expandLevel catalog room depth params deck progress).progress := by
  refine expandLevel_induction catalog
    (motive := fun _ _ _ progress level => OnlyUnknown progress → OnlyUnknown level.progress)
    ?_ room depth params deck progress whole only
  intro below depth tame deeper params deck progress ok only
  obtain ⟨-, walks, -⟩ := walks_of_levelWith catalog ok
  apply walks.onlyUnknown catalog deeper
  intro diagnosis member
  apply only diagnosis
  unfold opening collect at member
  split at member <;> exact member

/-- The cards in which a fault of nesting can be met: the deck behind the models of a cache block,
or a body in the block as it was stored. -/
inductive Given (store : CacheStore) (deck : Deck) : Option Text → Deck → Prop where
  | plain : Given store deck none deck
  | behind {name : Text} {cached : CacheBlock} (found : store.get? name = some cached) :
      Given store deck (some name) (cached.modelCards ++ deck)
  | body {name : Text} {cached : CacheBlock} {entry : Text × Definition}
      (found : store.get? name = some cached) (member : entry ∈ cached.definitions.entries) :
      Given store deck (some name) entry.2.body

theorem nesting_fault_of_expandFrom (dotted : config.directives.Dotted)
    {frame : Frame config.casePolicy} {bound : Bindings} {deck : Deck} {failure : Failure}
    (failed : expandFrom config catalog frame bound deck = .error failure) {diagnosis : Diagnosis}
    (member : diagnosis ∈ failure.diagnoses) (nesting : diagnosis.fault.isOfNesting = true) :
    ∃ table cards, (cards = deck ∨ ∃ entry ∈ frame.definitions.entries, entry.2.body = cards) ∧
      (Extraction.run config.directives config.casePolicy .expand table cards).failure =
        some diagnosis := by
  change ofLevel config (topLevel catalog frame bound deck) = .error failure at failed
  rw [ofLevel] at failed
  split at failed
  next stopped fails =>
    cases failed
    cases List.mem_singleton.mp member
    let given (definition : Definition) : Prop :=
      ∃ entry ∈ frame.definitions.entries, entry.2 = definition
    have known : (topProgress frame bound : Progress config.casePolicy).scopes.Every fun known =>
        given known ∨ known.body.Balanced config.directives := by
      intro inner here entry inside
      rw [List.mem_singleton.mp here] at inside
      exact .inl ⟨entry, inside, rfl⟩
    rcases tracesNesting_expandLevel catalog dotted given _ _ _ _ _ _ known fails nesting with
      top | ⟨definition, table, ⟨entry, inside, rfl⟩, body⟩
    · exact ⟨_, deck, .inl rfl, top⟩
    · exact ⟨table, _, .inr ⟨entry, inside, rfl⟩, body⟩
  next whole =>
    split at failed
    · cases failed
    · cases failed
      have nothing : OnlyUnknown (topProgress frame bound : Progress config.casePolicy) := by
        intro reported impossible
        cases impossible
      obtain ⟨name, fault⟩ := onlyUnknown_expandLevel catalog _ _ _ _ _ whole nothing _ member
      rw [fault] at nesting
      cases nesting

theorem nesting_fault_of_run (dotted : config.directives.Dotted) {store : CacheStore}
    {bound : Bindings} {block : Option Text} {deck : Deck} {failure : Failure}
    (failed : run config catalog store bound block deck = .error failure) {diagnosis : Diagnosis}
    (member : diagnosis ∈ failure.diagnoses) (nesting : diagnosis.fault.isOfNesting = true) :
    ∃ table cards, Given store deck block cards ∧
      (Extraction.run config.directives config.casePolicy .expand table cards).failure =
        some diagnosis := by
  unfold run at failed
  split at failed
  · obtain ⟨table, cards, rfl | ⟨entry, impossible, -⟩, fails⟩ :=
      nesting_fault_of_expandFrom catalog dotted failed member nesting
    · exact ⟨table, cards, .plain, fails⟩
    · cases impossible
  next name =>
    split at failed
    · cases failed
      cases List.mem_singleton.mp member
      cases nesting
    next cached found =>
      obtain ⟨table, cards, rfl | ⟨entry, inside, rfl⟩, fails⟩ :=
        nesting_fault_of_expandFrom catalog dotted failed member nesting
      · exact ⟨table, _, .behind found, fails⟩
      · exact ⟨table, _, .body found inside, fails⟩

end Expansion

/-! ## Cache blocks -/

theorem NameTable.mem_insertAll {policy : CasePolicy} {α : Type} {table : NameTable policy α}
    {entries : List (Text × α)} {entry : Text × α}
    (member : entry ∈ (table.insertAll entries).entries) :
    entry ∈ table.entries ∨ entry ∈ entries := by
  induction entries generalizing table with
  | nil => exact .inl member
  | cons first rest ih =>
      rcases @ih (table.insert first.1 first.2) member with known | later
      · rcases mem_enter known with here | there
        · exact .inr (here ▸ List.mem_cons_self ..)
        · exact .inl there
      · exact .inr (List.mem_cons_of_mem _ later)

namespace CacheBlock

variable {config : Config} {name : Text} {deck : Deck} {bound : Bindings} {block : CacheBlock}

theorem failure_of_build {diagnosis : Diagnosis}
    (failed : build config name deck bound = .error diagnosis) :
    (Extraction.run config.directives config.casePolicy .cache .empty deck).failure =
      some diagnosis := by
  unfold build at failed
  dsimp only at failed
  split at failed
  next stopped fails => exact fails.trans (congrArg some (Except.error.inj failed))
  · cases failed

theorem balanced_of_build (dotted : config.directives.Dotted)
    (built : build config name deck bound = .ok block) :
    ∀ entry ∈ block.definitions.entries, entry.2.body.Balanced config.directives := by
  unfold build at built
  dsimp only at built
  split at built
  · cases built
  · cases built
    intro entry member
    have known := @Extraction.sourced_of_run _ config.casePolicy .cache dotted (fun _ => False)
      .empty (fun _ impossible => by cases impossible) deck
    exact (known entry member).resolve_left id

/-- The models of a block stood outside its definitions, so they delimit none. -/
theorem plain_of_mem_modelCards (built : build config name deck bound = .ok block) {card : Card}
    (member : card ∈ block.modelCards) :
    config.directives.isStart card.keyword = false ∧
      config.directives.isEnd card.keyword = false := by
  unfold build at built
  dsimp only at built
  split at built
  · cases built
  next whole =>
    cases built
    obtain ⟨entry, listed, rfl⟩ := List.mem_map.mp member
    have entered := (Text.sortByName_perm _).mem_iff.mp listed
    rw [Deck.models_eq] at entered
    rcases NameTable.mem_insertAll entered with impossible | stated
    · cases impossible
    · obtain ⟨text, inside, declares⟩ := List.mem_filterMap.mp stated
      obtain ⟨declared, -, rfl⟩ := Option.map_eq_some_iff.mp declares
      obtain ⟨source, lives, rfl⟩ := List.mem_map.mp (List.mem_filter.mp inside).1
      obtain ⟨among, live⟩ := List.mem_filter.mp lives
      have left := (Expansion.mem_collectParams among live).1
      rw [Extraction.run, Extraction.deck_runFrom .cache whole] at left
      have outside := Deck.not_delimits_of_mem_liftDefinitions config.directives left live
      exact outside

end CacheBlock

theorem Expansion.nesting_fault_of_stored {config : Config} (dotted : config.directives.Dotted)
    {store : CacheStore} (history : store.StoredUnder config.directives) {block : Option Text}
    {deck cards : Deck} (given : Given store deck block cards) {table : DefinitionTable}
    {diagnosis : Diagnosis} (nesting : diagnosis.fault.isOfNesting = true)
    (failed : (Extraction.run config.directives config.casePolicy .expand table cards).failure =
      some diagnosis) :
    (Extraction.run config.directives config.casePolicy .expand table deck).failure =
      some diagnosis := by
  cases given with
  | plain => exact failed
  | @behind name cached found =>
      obtain ⟨entry, member, rfl⟩ := NameTable.exists_mem_of_get? found
      obtain ⟨other, name, cards, bound, spellings, built⟩ := history.built entry member
      have plain : ∀ card ∈ entry.2.modelCards, card.isLive = true →
          config.directives.isStart card.keyword = false ∧
            config.directives.isEnd card.keyword = false := by
        intro card inside _
        rw [← spellings]
        exact CacheBlock.plain_of_mem_modelCards built inside
      have models := @Extraction.runFrom_of_plain _ config.casePolicy .expand _ plain table
      rw [Extraction.run, Extraction.runFrom_append (by rw [models]), models] at failed
      exact failed
  | @body name cached known found member =>
      obtain ⟨entry, inside, rfl⟩ := NameTable.exists_mem_of_get? found
      obtain ⟨other, name, cards, bound, spellings, built⟩ := history.built entry inside
      rw [← spellings] at dotted
      have balanced := CacheBlock.balanced_of_build dotted built known member
      rw [spellings] at balanced
      rw [Extraction.not_isOfNesting_of_balanced balanced failed] at nesting
      cases nesting

/-! ## Sources -/

namespace CacheStore

theorem Attempt.mem_of_mem_made {attempt : Attempt} {attempts : List Attempt} {store : CacheStore}
    (member : attempt ∈ made store attempts) : attempt ∈ attempts := by
  induction attempts generalizing store with
  | nil => cases member
  | cons first rest ih =>
      rw [made] at member
      split at member
      · exact List.mem_singleton.mp member ▸ List.mem_cons_self ..
      · rcases List.mem_cons.mp member with here | there
        · exact here ▸ List.mem_cons_self ..
        · exact List.mem_cons_of_mem _ (ih there)

/-- Attempts under the directives of a store keep to them. -/
theorem StoredUnder.allAfter {directives : Directives} {store : CacheStore}
    (history : StoredUnder directives store) {attempts : List Attempt}
    (spellings : ∀ attempt ∈ attempts, attempt.config.directives = directives) :
    StoredUnder directives (Attempt.allAfter attempts store) := by
  induction attempts generalizing store with
  | nil => exact history
  | cons attempt rest ih =>
      obtain ⟨here, later⟩ := List.forall_mem_cons.mp spellings
      refine ih ?_ later
      show StoredUnder directives (attempt.after store)
      rw [Attempt.after]
      split
      next stored next done =>
        exact .add attempt.config attempt.name attempt.deck attempt.bound here done history
      · exact history

end CacheStore

namespace Pipeline

variable {pipeline : Pipeline}

theorem storedUnder_loadFrom {store : CacheStore}
    (history : store.StoredUnder pipeline.config.directives) (last : Option Text)
    (opened : Option OpenBlock) (deck : Deck) :
    (pipeline.loadFrom store last opened deck).store.StoredUnder pipeline.config.directives := by
  rw [store_loadFrom]
  apply history.allAfter
  intro attempt member
  obtain ⟨block, -, rfl⟩ := List.mem_map.mp (CacheStore.Attempt.mem_of_mem_made member)
  rfl

theorem failure_of_add {store : CacheStore} {block : OpenBlock} {diagnosis : Diagnosis}
    (failed : store.add pipeline.config block.name block.body pipeline.bound = .error diagnosis) :
    (Extraction.run pipeline.config.directives pipeline.config.casePolicy .cache .empty
      block.body).failure = some diagnosis := by
  unfold CacheStore.add at failed
  split at failed
  · cases failed
  · split at failed
    next stopped built =>
      cases failed
      exact CacheBlock.failure_of_build built
    · cases failed

/-- The blocks of a source cannot be stored if one has no name or cannot be extracted. -/
theorem failure_of_loadFrom {store : CacheStore} {last : Option Text} {opened : Option OpenBlock}
    {deck : Deck} {diagnosis : Diagnosis}
    (failed : (pipeline.loadFrom store last opened deck).failure = some diagnosis) :
    (∃ keyword, diagnosis.fault = .missingName keyword) ∨
    ∃ block ∈ pipeline.blocks opened deck,
      (Extraction.run pipeline.config.directives pipeline.config.casePolicy .cache .empty
        block.body).failure = some diagnosis := by
  fun_induction loadFrom pipeline store last opened deck with
  | case1 store last => cases failed
  | case2 store last block stopped added =>
      cases failed
      exact .inr ⟨block, List.mem_singleton.mpr rfl, failure_of_add added⟩
  | case3 store last block stored next added => cases failed
  | case4 store last opened card rest idle ih =>
      rw [blocks.eq_def]
      dsimp only
      rw [if_pos idle]
      exact ih failed
  | case5 store last card rest directives live starts unnamed =>
      cases failed
      exact .inl ⟨_, rfl⟩
  | case6 store last card rest directives live starts name named ih =>
      rw [blocks, if_neg live, if_pos starts, named]
      exact ih failed
  | case7 store last card rest directives live plain ih =>
      rw [blocks, if_neg live, if_neg plain]
      exact ih failed
  | case8 store last card rest directives live block ends stopped added =>
      cases failed
      rw [blocks, if_neg live, if_pos ends]
      exact .inr ⟨block, List.mem_cons_self .., failure_of_add added⟩
  | case9 store last card rest directives live block ends stored next added ih =>
      rw [blocks, if_neg live, if_pos ends]
      rcases ih failed with unnamed | ⟨later, member, fails⟩
      · exact .inl unnamed
      · exact .inr ⟨later, List.mem_cons_of_mem _ member, fails⟩
  | case10 store last card rest directives live block inside ih =>
      rw [blocks, if_neg live, if_neg inside]
      exact ih failed

end Pipeline

namespace Extraction

/-- The body of every definition that is stored from a deck, or from such a body, to any depth, is
balanced, and its extraction meets no fault of nesting.  An expansion meets such a fault only in
the deck of its top level or in the text of a cache block, and not in the block if that was stored
under the same directives.  A run of a source meets one only where a cache block of the source or
the rest of the source is extracted. -/
theorem bodies_stay_balanced {directives : Directives} (dotted : directives.Dotted) :
    (∀ deck definition, Nested directives deck definition →
      definition.body.Balanced directives ∧
      ∀ policy phase table diagnosis,
        (run directives policy phase table definition.body).failure = some diagnosis →
          diagnosis.fault.isOfNesting = false) ∧
    (∀ (config : Config) catalog store bound block deck failure,
      config.directives = directives →
      Expansion.run config catalog store bound block deck = .error failure →
      ∀ diagnosis ∈ failure.diagnoses, diagnosis.fault.isOfNesting = true →
        ∃ table cards, Expansion.Given store deck block cards ∧
          (run directives config.casePolicy .expand table cards).failure = some diagnosis ∧
          (store.StoredUnder directives →
            (run directives config.casePolicy .expand table deck).failure = some diagnosis)) ∧
    (∀ (pipeline : Pipeline) store source failure,
      pipeline.config.directives = directives → store.StoredUnder directives →
      (pipeline.run store source).2 = .error failure →
      ∀ diagnosis ∈ failure.diagnoses, diagnosis.fault.isOfNesting = true →
        (∃ block ∈ pipeline.blocks none (pipeline.read source).2,
          (run directives pipeline.config.casePolicy .cache .empty block.body).failure =
            some diagnosis) ∨
        ∃ table, (run directives pipeline.config.casePolicy .expand table
          (pipeline.loadFrom store none none (pipeline.read source).2).deck).failure =
            some diagnosis) := by
  refine ⟨?_, ?_, ?_⟩
  · intro deck definition nested
    refine ⟨nested.balanced dotted, ?_⟩
    intro policy phase table diagnosis failed
    exact not_isOfNesting_of_balanced (nested.balanced dotted) failed
  · rintro config catalog store bound block deck failure rfl failed diagnosis member nesting
    obtain ⟨table, cards, given, fails⟩ :=
      Expansion.nesting_fault_of_run catalog dotted failed member nesting
    refine ⟨table, cards, given, fails, ?_⟩
    intro history
    exact Expansion.nesting_fault_of_stored dotted history given nesting fails
  · rintro pipeline store source failure rfl history failed diagnosis member nesting
    change (pipeline.conclude _ (pipeline.loadFrom store none none _)).2 = _ at failed
    rw [Pipeline.conclude] at failed
    dsimp only at failed
    split at failed
    next stopped fails =>
      cases failed
      cases List.mem_singleton.mp member
      rcases Pipeline.failure_of_loadFrom fails with ⟨keyword, unnamed⟩ | unbalanced
      · rw [unnamed] at nesting
        cases nesting
      · exact .inl unbalanced
    · split at failed
      next stopped fails =>
        cases failed
        obtain ⟨table, cards, given, met⟩ :=
          Expansion.nesting_fault_of_run _ dotted fails member nesting
        have stored := Pipeline.storedUnder_loadFrom history none none (pipeline.read source).2
        exact .inr ⟨table, Expansion.nesting_fault_of_stored dotted stored given nesting met⟩
      · cases failed

/-- A definition within another, with a repeated formal and a parameter statement, and a stray end
behind both: the definitions are stored and balanced, and the fault of the expansion is that of the
deck. -/
theorem bodies_stay_balanced_nested :
    let deck : Deck := [".subckt s a a", ".param w=1", ".subckt t b", "r1 b 0 w", ".ends", ".ends",
      ".ends"].map fun line => { text := line.toList }
    let stored (deck : Deck) (name : String) :=
      (run {} .insensitive .extract .empty deck).definitions.get? name.toList
    (∃ outer inner, stored deck "s" = some outer ∧ stored outer.body "t" = some inner ∧
      outer.body.Balanced {} ∧ inner.body.Balanced {}) ∧
    ∃ failure, Expansion.run {} .standard .empty ⟨.empty, .empty⟩ none deck = .error failure ∧
      failure.diagnoses.map Diagnosis.fault = [.endWithoutStart ".ends".toList] ∧
      ∀ diagnosis ∈ failure.diagnoses, ∃ table,
        (run {} .insensitive .expand table deck).failure = some diagnosis := by
  intro deck stored
  obtain ⟨bodies, expansions, -⟩ := @bodies_stay_balanced {} (by decide)
  constructor
  · have both : ((stored deck "s").bind fun outer => stored outer.body "t").isSome = true := by
      decide +kernel
    obtain ⟨inner, found⟩ := Option.isSome_iff_exists.mp both
    obtain ⟨outer, around, inside⟩ := Option.bind_eq_some_iff.mp found
    have nested : Nested {} deck outer := .outermost (stores_of_get? around)
    exact ⟨outer, inner, around, inside, (bodies deck outer nested).1,
      (bodies deck inner (.inner nested (stores_of_get? inside))).1⟩
  · obtain ⟨failure, failed, told⟩ := Expansion.exists_failure_of_faults
      (show Expansion.faults (Expansion.run {} .standard .empty ⟨.empty, .empty⟩ none deck) =
        [.endWithoutStart ".ends".toList] by decide +kernel)
    refine ⟨failure, failed, told, ?_⟩
    intro diagnosis member
    have fault := List.mem_map_of_mem (f := Diagnosis.fault) member
    rw [told, List.mem_singleton] at fault
    obtain ⟨table, cards, -, -, met⟩ := expansions {} .standard .empty ⟨.empty, .empty⟩ none deck
      failure rfl failed diagnosis member (by rw [fault]; rfl)
    exact ⟨table, met .empty⟩

end Extraction

end Netlist

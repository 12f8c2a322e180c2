import Mathlib.Data.List.Find
import Mathlib.Data.List.Nodup
import Netlist.Proofs.Lockstep
import Netlist.Proofs.ModelAlias

/-!
# Models in another order

The aliases of a frame stand in the order in which the models were declared.
That order shows only in what is said of an ambiguous reference, so a frame
with the same aliases in another order answers every reference that can be
resolved at all.  An expansion that succeeds over some frames therefore
succeeds in the same way over frames that answer what they answer.
-/

namespace Netlist

/-! ## References -/

namespace ModelAliases

variable {policy : CasePolicy}

/-- What a binned model with the given base is called now, without its bin. -/
def binnedBase? (policy : CasePolicy) (base : Text) (entry : Text × Text) : Option Text :=
  match Model.splitBin entry.1 with
  | (nameBase, some _) =>
      if policy.same nameBase base then some (Model.splitBin entry.2).1 else none
  | (_, none) => none

theorem binnedBases_eq (aliases : ModelAliases policy) (base : Text) :
    aliases.binnedBases base =
      (aliases.entries.filterMap (binnedBase? policy base)).foldl addBase [] := by
  unfold binnedBases
  rw [List.foldl_filterMap]
  congr 1
  funext bases ⟨name, image⟩
  unfold binnedBase?
  dsimp only
  cases Model.splitBin name with
  | mk nameBase bin =>
      cases bin with
      | none => rfl
      | some bin =>
          dsimp only
          split <;> rfl

theorem mem_foldl_addBase (more bases : List Text) (base : Text) :
    base ∈ more.foldl addBase bases ↔ base ∈ bases ∨ base ∈ more := by
  induction more generalizing bases with
  | nil => simp
  | cons first rest ih =>
      rw [List.foldl_cons, ih, addBase]
      split
      next known =>
        have inside : first ∈ bases := List.contains_iff_mem.mp known
        constructor
        · rintro (here | later)
          · exact .inl here
          · exact .inr (List.mem_cons_of_mem _ later)
        · rintro (here | later)
          · exact .inl here
          · rcases List.mem_cons.mp later with rfl | later
            · exact .inl inside
            · exact .inr later
      · simp [or_assoc]

theorem nodup_foldl_addBase (more : List Text) {bases : List Text} (distinct : bases.Nodup) :
    (more.foldl addBase bases).Nodup := by
  induction more generalizing bases with
  | nil => exact distinct
  | cons first rest ih =>
      apply ih
      unfold addBase
      split
      · exact distinct
      next new =>
        have absent : first ∉ bases := fun member => new (List.contains_iff_mem.mpr member)
        refine List.nodup_append.mpr ⟨distinct, by simp, ?_⟩
        intro base member other last same
        rw [same, List.mem_singleton.mp last] at member
        exact absent member

variable {aliases twin : ModelAliases policy}

theorem binnedBases_perm (order : twin.entries.Perm aliases.entries) (base : Text) :
    (twin.binnedBases base).Perm (aliases.binnedBases base) := by
  rw [binnedBases_eq, binnedBases_eq]
  refine (List.perm_ext_iff_of_nodup (nodup_foldl_addBase _ List.nodup_nil)
    (nodup_foldl_addBase _ List.nodup_nil)).mpr ?_
  intro other
  rw [mem_foldl_addBase, mem_foldl_addBase, (order.filterMap (binnedBase? policy base)).mem_iff]

/-- The second aliases are the first in another order, and of several entries for one name both
have the same one in front. -/
structure Reordered (aliases twin : ModelAliases policy) : Prop where
  order : twin.entries.Perm aliases.entries
  find? : ∀ name, twin.entries.find? (fun entry => policy.same entry.1 name) =
    aliases.entries.find? fun entry => policy.same entry.1 name

theorem reordered_of_perm (distinct : aliases.Distinct)
    (order : twin.entries.Perm aliases.entries) : aliases.Reordered twin := by
  refine ⟨order, ?_⟩
  intro name
  rw [List.find?_eq_find?_of_perm order]
  rintro first ⟨inside, same⟩ second ⟨there, other⟩
  have names := (policy.same_iff _ _).mp same
  have otherNames := (policy.same_iff _ _).mp other
  exact List.inj_on_of_nodup_map distinct (order.mem_iff.mp inside) (order.mem_iff.mp there)
    (names.trans otherNames.symm)

theorem Reordered.direct? (reordered : aliases.Reordered twin) (name : Text) :
    twin.direct? name = aliases.direct? name := by
  unfold ModelAliases.direct?
  rw [reordered.find?]

/-- A reference that can be resolved is resolved alike, whatever the order of the aliases. -/
theorem Reordered.lookup (reordered : aliases.Reordered twin) {name : Text} {found : Option Text}
    (resolved : aliases.lookup name = .ok found) : twin.lookup name = .ok found := by
  unfold ModelAliases.lookup at resolved ⊢
  rw [reordered.direct?]
  cases here : aliases.direct? name with
  | some image =>
      rw [here] at resolved
      exact resolved
  | none =>
      rw [here] at resolved
      dsimp only at resolved ⊢
      cases split : Model.splitBin name with
      | mk base bin =>
          rw [split] at resolved
          cases bin with
          | some bin =>
              dsimp only at resolved ⊢
              rw [reordered.direct?]
              exact resolved
          | none =>
              dsimp only at resolved ⊢
              have same := binnedBases_perm reordered.order base
              split at resolved
              next none =>
                rw [none] at same
                rw [same.eq_nil]
                exact resolved
              next only alone =>
                rw [alone] at same
                rw [List.perm_singleton.mp same]
                exact resolved
              · cases resolved

/-! ### Declarations -/

theorem seed_perm (order : twin.entries.Perm aliases.entries) (name : Text) :
    (twin.seed name).entries.Perm (aliases.seed name).entries := by
  have absent : twin.direct? name = none ↔ aliases.direct? name = none := by
    unfold direct?
    simp only [Option.map_eq_none_iff, List.find?_eq_none, order.mem_iff]
  unfold seed
  cases here : aliases.direct? name with
  | none =>
      rw [absent.mpr here]
      exact order.append_right _
  | some image =>
      cases there : twin.direct? name with
      | none =>
          rw [absent.mp there] at here
          cases here
      | some _ => exact order

theorem foldl_seed_perm (order : twin.entries.Perm aliases.entries) (names : List Text) :
    (names.foldl .seed twin).entries.Perm (names.foldl .seed aliases).entries := by
  induction names generalizing twin aliases with
  | nil => exact order
  | cons name rest ih => exact ih (seed_perm order name)

/-- Models with different names are declared one after the other. -/
theorem entries_foldl_seed {names : List Text} (aliases : ModelAliases policy)
    (distinct : ((aliases.entries.map Prod.fst ++ names).map policy.fold).Nodup) :
    (names.foldl .seed aliases).entries =
      aliases.entries ++ names.map fun name => (name, name) := by
  induction names generalizing aliases with
  | nil => simp
  | cons name rest ih =>
      have unknown : aliases.direct? name = none := by
        unfold direct?
        rw [Option.map_eq_none_iff, List.find?_eq_none]
        intro entry member same
        rw [List.map_append, List.nodup_append] at distinct
        refine distinct.2.2 (policy.fold entry.1) ?_ (policy.fold name) ?_
          ((policy.same_iff _ _).mp same)
        · exact List.mem_map_of_mem (List.mem_map_of_mem member)
        · exact List.mem_map_of_mem (List.mem_cons_self ..)
      have declared : aliases.seed name = ⟨aliases.entries ++ [(name, name)]⟩ := by
        rw [seed, unknown]
      rw [List.foldl_cons, declared, ih]
      · simp
      · simpa using distinct

end ModelAliases

/-! ## Frames -/

/-- The second frame has the definitions of the first and resolves what the first resolves. -/
structure Frame.Answers {policy : CasePolicy} (frame twin : Frame policy) : Prop where
  definitions : twin.definitions = frame.definitions
  lookup : ∀ {name : Text} {found : Option Text}, frame.models.lookup name = .ok found →
    twin.models.lookup name = .ok found

theorem Frame.Answers.refl {policy : CasePolicy} (frame : Frame policy) : frame.Answers frame :=
  ⟨rfl, id⟩

namespace Scopes

variable {policy : CasePolicy} {scopes twin : Scopes policy}

theorem definition?_of_answers (answers : List.Forall₂ Frame.Answers scopes.frames twin.frames)
    (name : Text) : twin.definition? name = scopes.definition? name := by
  unfold definition?
  generalize scopes.frames = frames at answers ⊢
  generalize twin.frames = others at answers ⊢
  induction answers with
  | nil => rfl
  | cons here _ ih => rw [List.findSome?_cons, List.findSome?_cons, here.definitions, ih]

theorem model_of_answers (answers : List.Forall₂ Frame.Answers scopes.frames twin.frames)
    {name : Text} {found : Option Text} (resolved : scopes.model name = .ok found) :
    twin.model name = .ok found := by
  unfold model at resolved ⊢
  generalize scopes.frames = frames at answers resolved
  generalize twin.frames = others at answers ⊢
  induction answers with
  | nil => exact resolved
  | @cons frame other outer rest here _ ih =>
      rw [modelIn] at resolved ⊢
      cases known : frame.models.lookup name with
      | error fault =>
          rw [known] at resolved
          cases resolved
      | ok image =>
          rw [known] at resolved
          rw [here.lookup known]
          cases image with
          | some image => exact resolved
          | none => exact ih resolved

theorem localModel_of_answers (answers : List.Forall₂ Frame.Answers scopes.frames twin.frames)
    {name : Text} {found : Option Text} (resolved : scopes.localModel name = .ok found) :
    twin.localModel name = .ok found := by
  obtain ⟨here, -⟩ := List.forall₂_cons.mp answers
  exact here.lookup resolved

end Scopes

/-! ## Renaming -/

namespace DeviceLine

variable {policy : CasePolicy} {scopes twin : Scopes policy}
  (answers : List.Forall₂ Frame.Answers scopes.frames twin.frames)

include answers

theorem slotModel_of_answers {kind : DeviceKind} {count : Nat} {word : Text}
    {found : Option Text} (resolved : slotModel scopes kind count word = .ok found) :
    slotModel twin kind count word = .ok found := by
  unfold slotModel at resolved ⊢
  by_cases slot : (kind.hasModel && decide (kind.minNodes ≤ count)) = true
  · rw [if_pos slot] at resolved ⊢
    exact Scopes.model_of_answers answers resolved
  · rw [if_neg slot] at resolved ⊢
    exact resolved

theorem nodeRun_of_answers {kind : DeviceKind} {count : Nat} {words : List Word} {run : Run}
    (read : nodeRun scopes kind count words = .ok run) :
    nodeRun twin kind count words = .ok run := by
  induction words generalizing count run with
  | nil => exact read
  | cons first rest ih =>
      rw [nodeRun] at read ⊢
      by_cases ended : (decide (kind.maxNodes ≤ count) || isAssignment first rest) = true
      · rw [if_pos ended] at read ⊢
        exact read
      rw [if_neg ended] at read ⊢
      by_cases poly : isPoly first.text = true
      · rw [if_pos poly] at read ⊢
        exact read
      rw [if_neg poly] at read ⊢
      cases slot : slotModel scopes kind count first.text with
      | error fault =>
          rw [slot] at read
          cases read
      | ok found =>
          rw [slot] at read
          rw [slotModel_of_answers answers slot]
          cases found with
          | some name => exact read
          | none =>
              dsimp only at read ⊢
              cases later : nodeRun scopes kind (count + 1) rest with
              | error fault =>
                  rw [later] at read
                  cases read
              | ok behind =>
                  rw [later] at read
                  rw [ih later]
                  exact read

theorem valueModel_of_answers {words : List Word} {result : List Part × List Word}
    (read : valueModel scopes words = .ok result) : valueModel twin words = .ok result := by
  cases words with
  | nil => exact read
  | cons first rest =>
      rw [valueModel] at read ⊢
      by_cases assigns : isAssignment first rest = true
      · rw [if_pos assigns] at read ⊢
        exact read
      rw [if_neg assigns] at read ⊢
      by_cases letter : (first.text.head?.map Char.isAlpha).getD false = true
      · rw [if_pos letter] at read ⊢
        cases known : scopes.localModel first.text with
        | error fault =>
            rw [known] at read
            cases read
        | ok found =>
            rw [known] at read
            rw [Scopes.localModel_of_answers answers known]
            exact read
      · rw [if_neg letter] at read ⊢
        exact read

theorem valueLayout_of_answers {words : List Word} {layout : Layout}
    (read : valueLayout scopes words = .ok layout) : valueLayout twin words = .ok layout := by
  unfold valueLayout at read ⊢
  cases value : valueModel scopes words with
  | error fault =>
      rw [value] at read
      cases read
  | ok result =>
      rw [value] at read
      rw [valueModel_of_answers answers value]
      exact read

theorem modelPart_of_answers {strict : Bool} {name : Text} {words : List Word}
    {result : Part × List Word} (read : modelPart strict scopes name words = .ok result) :
    modelPart strict twin name words = .ok result := by
  cases words with
  | nil => exact read
  | cons first rest =>
      rw [modelPart] at read ⊢
      by_cases assigns : isAssignment first rest = true
      · rw [if_pos assigns] at read ⊢
        exact read
      rw [if_neg assigns] at read ⊢
      cases known : scopes.model first.text with
      | error fault =>
          rw [known] at read
          cases read
      | ok found =>
          rw [known] at read
          rw [Scopes.model_of_answers answers known]
          exact read

theorem modelLayout_of_answers {strict : Bool} {kind : DeviceKind} {name : Text}
    {words : List Word} {layout : Layout}
    (read : modelLayout strict scopes kind name words = .ok layout) :
    modelLayout strict twin kind name words = .ok layout := by
  unfold modelLayout at read ⊢
  by_cases model : kind.hasModel = true
  · rw [if_pos model] at read ⊢
    cases part : modelPart strict scopes name words with
    | error fault =>
        rw [part] at read
        cases read
    | ok result =>
        rw [part] at read
        rw [modelPart_of_answers answers part]
        exact read
  · rw [if_neg model] at read ⊢
    exact valueLayout_of_answers answers read

theorem behindNodes_of_answers {strict : Bool} {kind : DeviceKind} {name : Text} {run : Run}
    {layout : Layout} (read : behindNodes strict scopes kind name run = .ok layout) :
    behindNodes strict twin kind name run = .ok layout := by
  unfold behindNodes at read ⊢
  cases ending : run.ending with
  | model =>
      rw [ending] at read
      exact read
  | poly =>
      rw [ending] at read
      exact modelLayout_of_answers answers read
  | «open» =>
      rw [ending] at read
      dsimp only at read ⊢
      cases references : referenceRun kind.references run.rest with
      | error fault =>
          rw [references] at read
          cases read
      | ok result =>
          rw [references] at read
          dsimp only at read ⊢
          cases later : modelLayout strict scopes kind name result.2 with
          | error fault =>
              rw [later] at read
              cases read
          | ok behind =>
              rw [later] at read
              rw [modelLayout_of_answers answers later]
              exact read

/-- A device line that can be laid out is laid out alike. -/
theorem layout_of_answers {strict : Bool} {kind : Option DeviceKind} {name : Text}
    {words : List Word} {result : Layout}
    (read : layout strict scopes kind name words = .ok result) :
    layout strict twin kind name words = .ok result := by
  cases kind with
  | none => exact valueLayout_of_answers answers read
  | some kind =>
      unfold layout at read ⊢
      dsimp only at read ⊢
      cases nodes : nodeRun scopes kind 0 words with
      | error fault =>
          rw [nodes] at read
          cases read
      | ok run =>
          rw [nodes] at read
          rw [nodeRun_of_answers answers nodes]
          dsimp only at read ⊢
          cases later : behindNodes strict scopes kind name run with
          | error fault =>
              rw [later] at read
              cases read
          | ok behind =>
              rw [later] at read
              rw [behindNodes_of_answers answers later]
              exact read

end DeviceLine

namespace Renamer

variable {config : Config} (renamer : Renamer config) {scopes twin : Scopes config.casePolicy}

theorem bodyCard_of_answers (answers : List.Forall₂ Frame.Answers scopes.frames twin.frames)
    {card image : Card} (renamed : renamer.bodyCard scopes card = .ok image) :
    renamer.bodyCard twin card = .ok image := by
  unfold bodyCard at renamed ⊢
  by_cases idle : (!card.isLive) = true
  · rw [if_pos idle] at renamed ⊢
    exact renamed
  rw [if_neg idle] at renamed ⊢
  by_cases device : startsDevice card.keyword = true
  · rw [if_pos device] at renamed ⊢
    unfold deviceLine at renamed ⊢
    cases words : Word.split card.text with
    | nil =>
        rw [words] at renamed
        exact renamed
    | cons name rest =>
        rw [words] at renamed
        dsimp only at renamed ⊢
        cases read : DeviceLine.layout config.strictModels scopes
            (DeviceLine.kind? renamer.catalog name.text) name.text rest with
        | error fault =>
            rw [read] at renamed
            cases renamed
        | ok layout =>
            rw [read] at renamed
            rw [DeviceLine.layout_of_answers answers read]
            exact renamed
  · rw [if_neg device] at renamed ⊢
    exact renamed

theorem bodyCards_of_answers (answers : List.Forall₂ Frame.Answers scopes.frames twin.frames)
    {deck : Deck} (renamed : (renamer.bodyCards scopes deck).2 = none) :
    renamer.bodyCards twin deck = renamer.bodyCards scopes deck := by
  induction deck with
  | nil => rfl
  | cons card rest ih =>
      rw [bodyCards] at renamed
      rw [bodyCards, bodyCards]
      cases here : renamer.bodyCard scopes card with
      | error fault =>
          rw [here] at renamed
          cases renamed
      | ok image =>
          rw [here] at renamed
          rw [renamer.bodyCard_of_answers answers here, ih renamed]

/-- A body that can be renamed is renamed alike, if the innermost frames are the same. -/
theorem body_of_answers (top : twin.top = scopes.top)
    (answers : List.Forall₂ Frame.Answers scopes.outer twin.outer) {deck : Deck}
    (renamed : (renamer.body scopes deck).failure = none) :
    (renamer.body twin deck).deck = (renamer.body scopes deck).deck ∧
    (renamer.body twin deck).failure = none := by
  rw [body_eq] at renamed ⊢
  rw [body_eq]
  have inside : List.Forall₂ Frame.Answers (renamer.bodyScopes scopes deck).frames
      (renamer.bodyScopes twin deck).frames := by
    refine .cons ?_ answers
    unfold bodyScopes Scopes.withModels Scopes.withTop
    rw [top]
    exact .refl _
  rw [renamer.bodyCards_of_answers inside renamed]
  exact ⟨rfl, renamed⟩

end Renamer

/-! ## Expansions -/

namespace Progress

variable {policy : CasePolicy}

/-- Each frame of the second answers what the frame of the first in its place answers. -/
structure Answered (first second : Progress policy) : Prop where
  capacity : second.scopes.capacity = first.scopes.capacity
  frames : List.Forall₂ Frame.Answers first.scopes.frames second.scopes.frames
  globals : second.globals = first.globals

namespace Answered

variable {first second : Progress policy}

theorem depth (answered : first.Answered second) :
    second.scopes.depth = first.scopes.depth := answered.frames.length_eq.symm

theorem outer (answered : first.Answered second) :
    List.Forall₂ Frame.Answers first.scopes.outer second.scopes.outer :=
  (List.forall₂_cons.mp answered.frames).2

theorem recordAll (answered : first.Answered second) (entries : List Entry) :
    (first.recordAll entries).Answered (second.recordAll entries) := by
  constructor
  · rw [scopes_recordAll, scopes_recordAll]
    exact answered.capacity
  · rw [scopes_recordAll, scopes_recordAll]
    exact answered.frames
  · rw [globals_recordAll, globals_recordAll]
    exact answered.globals

theorem withTop (answered : first.Answered second) (top : Frame policy) :
    (first.withTop top).Answered (second.withTop top) :=
  ⟨answered.capacity, .cons (.refl top) answered.outer, answered.globals⟩

/-- Where one may add a frame the other may, and the new frames are the same. -/
theorem enter (answered : first.Answered second) {inner : Scopes policy}
    (entered : first.scopes.enter? = some inner) :
    ∃ twin, second.scopes.enter? = some twin ∧ twin.top = inner.top ∧
      (first.withScopes inner).Answered (second.withScopes twin) := by
  have fits : second.scopes.depth < second.scopes.capacity := by
    rw [answered.depth, answered.capacity]
    exact Scopes.depth_lt_capacity_of_enter? entered
  unfold Scopes.enter? at entered ⊢
  rw [if_pos (answered.depth ▸ answered.capacity ▸ fits)] at entered
  cases entered
  exact ⟨_, if_pos fits, rfl, answered.capacity, .cons (.refl _) answered.frames,
    answered.globals⟩

end Answered

end Progress

namespace Expansion

variable {config : Config} {catalog : Catalog}

/-- Over scopes with the given room, what the expander does over some frames without a failure it
does over frames that answer the same. -/
def Carries (room : Nat) (expand : Expander config) : Prop :=
  ∀ params deck first second, Progress.Answered first second → first.scopes.room = room →
    second.scopes.top = first.scopes.top → (expand params deck first).failure = none →
    ∃ top, Level.SideBySide (first.withTop top) (second.withTop top) (expand params deck first)
      (expand params deck second)

section Calls

variable {below : Expander config} {depth : Nat} {params : ParamTable}
  {first second next : Progress config.casePolicy} {card : Card} {cards : Deck}

theorem finishCall_of_answered {call : Call} {definition : Definition}
    {pins : Pins config.casePolicy} {inner twinInner : Scopes config.casePolicy}
    (entered : first.scopes.enter? = some inner)
    (twinEntered : second.scopes.enter? = some twinInner)
    (answered : (first.withScopes inner).Answered (second.withScopes twinInner))
    {top : Frame config.casePolicy} {level twin : Level config.casePolicy}
    (same : Level.SideBySide ((first.withScopes inner).withTop top)
      ((second.withScopes twinInner).withTop top) level twin)
    (done : finishCall catalog depth card call definition pins level = (next, .ok cards)) :
    ∃ entries, next = first.recordAll entries ∧
      finishCall catalog depth card call definition pins twin =
        (second.recordAll entries, .ok cards) := by
  obtain ⟨entries, gathered, twinGathered⟩ := same.gathered
  have start := (answered.withTop top).recordAll entries
  have tops : twin.progress.scopes.top = level.progress.scopes.top := by
    rw [gathered, twinGathered, Progress.scopes_recordAll, Progress.scopes_recordAll]
    rfl
  rw [← gathered, ← twinGathered] at start
  rw [finishCall_of_gathered depth card call definition pins entered gathered] at done
  rw [finishCall_of_gathered depth card call definition pins twinEntered twinGathered,
    same.failure, same.deck, same.params, start.globals]
  cases whole : level.failure with
  | some diagnosis =>
      rw [whole] at done
      cases done
  | none =>
      rw [whole] at done
      dsimp only at done ⊢
      split at done
      · cases done
      next renamed =>
        cases done
        obtain ⟨same, twinRenamed⟩ := Renamer.body_of_answers _ tops start.outer renamed
        rw [twinRenamed, same]
        exact ⟨_, rfl, rfl⟩

theorem enterCall_of_answered {room : Nat} (deeper : ∀ less < room, Carries less below)
    {call : Call} {definition : Definition} (answered : first.Answered second)
    (here : first.scopes.room = room)
    (done : enterCall catalog (some below) depth params card call definition first =
      (next, .ok cards)) :
    ∃ entries, next = first.recordAll entries ∧
      enterCall catalog (some below) depth params card call definition second =
        (second.recordAll entries, .ok cards) := by
  unfold enterCall at done ⊢
  cases connected : (Pins.connect definition.name definition.formals call.actuals :
      Except Fault (Pins config.casePolicy)) with
  | error fault =>
      rw [connected] at done
      cases done
  | ok pins =>
      rw [connected] at done
      dsimp only at done ⊢
      cases entered : first.scopes.enter? with
      | none =>
          rw [entered] at done
          cases done
      | some inner =>
          rw [entered] at done
          dsimp only at done
          obtain ⟨twin, twinEntered, top, inside⟩ := answered.enter entered
          rw [twinEntered]
          dsimp only
          have whole : (below
              (Call.layer config.merge params definition.defaults call.assignments)
              definition.body (first.withScopes inner)).failure = none := by
            cases failed : (below
              (Call.layer config.merge params definition.defaults call.assignments)
              definition.body (first.withScopes inner)).failure with
            | none => rfl
            | some diagnosis =>
                unfold finishCall at done
                rw [failed] at done
                cases done
          have smaller := Scopes.room_enter? entered
          obtain ⟨frame, same⟩ := deeper inner.room (by omega) _ _ _ _ inside rfl top whole
          exact finishCall_of_answered entered twinEntered inside same done

/-- A call that is replaced over some frames is replaced alike over frames that answer the same. -/
theorem expandCall_of_answered {room : Nat} (deeper : ∀ less < room, Carries less below)
    (answered : first.Answered second) (here : first.scopes.room = room)
    (done : expandCall catalog (some below) depth params card first = (next, .ok cards)) :
    ∃ entries, next = first.recordAll entries ∧
      expandCall catalog (some below) depth params card second =
        (second.recordAll entries, .ok cards) := by
  unfold expandCall at done ⊢
  cases read : Call.read? card.text with
  | none =>
      rw [read] at done
      cases done
  | some call =>
      rw [read] at done
      dsimp only at done ⊢
      rw [Scopes.definition?_of_answers answered.frames]
      cases known : first.scopes.definition? (call.target params) with
      | none =>
          rw [known] at done
          unfold unresolvedCall at done ⊢
          dsimp only at done ⊢
          cases mapped : config.deviceLetter? call.inst with
          | some letter =>
              rw [mapped] at done
              cases done
              exact ⟨[], rfl, rfl⟩
          | none =>
              rw [mapped] at done
              cases done
              exact ⟨[.unknown _ _], rfl, rfl⟩
      | some definition =>
          rw [known] at done
          dsimp only at done ⊢
          by_cases empty : definition.isEmpty = true
          · rw [if_pos empty] at done ⊢
            cases done
            exact ⟨[.warnings _], rfl, rfl⟩
          · rw [if_neg empty] at done ⊢
            exact enterCall_of_answered deeper answered here done

variable (catalog depth params) in
theorem walk_of_answered {room : Nat} (deeper : ∀ less < room, Carries less below) {deck : Deck}
    (answered : first.Answered second) (here : first.scopes.room = room)
    (ok : (walk catalog (some below) depth params deck first).failure = none) :
    Level.SideBySide first second (walk catalog (some below) depth params deck first)
      (walk catalog (some below) depth params deck second) := by
  induction deck generalizing first second with
  | nil => exact ⟨rfl, rfl, rfl, [], rfl, rfl⟩
  | cons card rest ih =>
      rw [walk] at ok
      rw [walk, walk]
      by_cases idle : (!card.isLive) = true
      · rw [if_pos idle] at ok ⊢
        rw [if_pos idle]
        exact (ih answered here ok).behind _
      rw [if_neg idle] at ok ⊢
      rw [if_neg idle]
      by_cases calls : config.directives.isCall card.keyword = true
      · rw [if_pos calls] at ok ⊢
        rw [if_pos calls]
        cases replaced : expandCall catalog (some below) depth params card first with
        | mk middle outcome =>
            rw [replaced] at ok
            cases outcome with
            | error diagnosis => cases ok
            | ok cards =>
                obtain ⟨entries, rfl, twinReplaced⟩ :=
                  expandCall_of_answered deeper answered here replaced
                rw [twinReplaced]
                have room : (first.recordAll entries).scopes.room = room := by
                  rw [Progress.scopes_recordAll]
                  exact here
                exact (ih (answered.recordAll entries) room ok).after.behind cards
      · rw [if_neg calls] at ok ⊢
        rw [if_neg calls]
        exact (ih answered here ok).behind _

end Calls

variable (catalog) in
theorem carries_expandAt (room depth : Nat) :
    Carries room (expandAt catalog (depth + 1) : Expander config) := by
  induction room using Nat.strongRecOn generalizing depth with
  | ind room ih =>
      intro params deck first second answered here top ok
      rw [expandAt_eq] at ok ⊢
      unfold levelWith at ok ⊢
      dsimp only at ok ⊢
      rw [top]
      split
      next diagnosis failed =>
        rw [failed] at ok
        cases ok
      next lifted =>
        rw [lifted] at ok
        have known := (answered.withTop (openingFrame deck first)).recordAll
          [.warnings (extractionOf deck first).warnings]
        exact ⟨openingFrame deck first, (walk_of_answered catalog (depth + 1) params
          (fun less smaller => ih less smaller (depth + 1)) known here ok).after⟩

/-! ## The top level -/

section Top

variable {frame twin : Frame config.casePolicy} {bound : Bindings} {deck : Deck}

/-- The opening of a top level depends on the definitions of its frame; the models it finds are
declared after those of the frame. -/
theorem opening_of_definitions (definitions : twin.definitions = frame.definitions) :
    opening 0 bound.params deck (topProgress twin bound) =
      ((opening 0 bound.params deck (topProgress frame bound)).1.withTop
          (openingFrame deck (topProgress twin bound)),
        (opening 0 bound.params deck (topProgress frame bound)).2.1,
        (opening 0 bound.params deck (topProgress frame bound) : _ × _ × Deck).2.2) := by
  have same : extractionOf deck (topProgress twin bound : Progress config.casePolicy) =
      extractionOf deck (topProgress frame bound) :=
    congrArg (Extraction.run config.directives config.casePolicy .expand · deck) definitions
  unfold opening collect openingFrame progressBefore
  rw [same]
  rfl

theorem answered_opening {names : List Text} (seeded : frame.models.Seeded names)
    (definitions : twin.definitions = frame.definitions)
    (order : twin.models.entries.Perm frame.models.entries) :
    (opening 0 bound.params deck (topProgress frame bound)).1.Answered
      (opening 0 bound.params deck (topProgress twin bound)).1 := by
  have same : extractionOf deck (topProgress twin bound : Progress config.casePolicy) =
      extractionOf deck (topProgress frame bound) :=
    congrArg (Extraction.run config.directives config.casePolicy .expand · deck) definitions
  rw [opening_of_definitions definitions]
  refine ⟨rfl, ?_, rfl⟩
  rw [scopes_opening]
  refine .cons ⟨?_, ?_⟩ .nil
  · unfold openingFrame
    rw [same]
    rfl
  · intro name found resolved
    let more := (extractionOf deck (topProgress frame bound)).deck.modelNames config.directives
    have known : frame.models.Seeded (names ++ more) := by
      refine ⟨seeded.distinct, ?_⟩
      intro entry member
      obtain ⟨kept, declared⟩ := seeded.kept entry member
      exact ⟨kept, List.mem_append_left _ declared⟩
    have declared : ∀ name ∈ more, name ∈ names ++ more := fun name member =>
      List.mem_append_right _ member
    have distinct := (known.foldl_seed declared).distinct
    refine (ModelAliases.reordered_of_perm distinct ?_).lookup resolved
    unfold openingFrame
    rw [same]
    exact ModelAliases.foldl_seed_perm order more

/-- A level is judged without regard to its scopes. -/
theorem ofLevel_of_sideBySide {first : Progress config.casePolicy} {top : Frame config.casePolicy}
    {level other : Level config.casePolicy}
    (same : Level.SideBySide first (first.withTop top) level other) :
    ofLevel config other = ofLevel config level := by
  obtain ⟨entries, gathered, otherGathered⟩ := same.gathered
  have scopes : (first.withTop top).recordAll entries =
      (first.recordAll entries).withScopes (first.scopes.withTop top) :=
    first.recordAll_withScopes _ entries
  unfold ofLevel
  rw [same.failure, same.deck, same.params, gathered, otherGathered, scopes]
  rfl

/-- The order in which the models known before were declared makes no difference to an expansion
that succeeds. -/
theorem expandFrom_of_reordered {names : List Text} (seeded : frame.models.Seeded names)
    (definitions : twin.definitions = frame.definitions)
    (order : twin.models.entries.Perm frame.models.entries)
    {expansion : Expansion config.casePolicy}
    (ran : expandFrom config catalog frame bound deck = .ok expansion) :
    expandFrom config catalog twin bound deck = .ok expansion := by
  obtain ⟨ok, -, -⟩ := topLevel_of_expandFrom catalog ran
  change ((Visit.top frame bound deck).expand catalog).failure = none at ok
  have lifted := Visit.lifted_of_expand ok
  have otherLifted : (extractionOf deck (topProgress twin bound)).failure = none := by
    unfold extractionOf
    rw [show (topProgress twin bound : Progress config.casePolicy).scopes.top.definitions =
      frame.definitions from definitions]
    exact lifted
  have answered := @answered_opening config frame twin bound deck names seeded definitions order
  have opened := @opening_of_definitions config frame twin bound deck definitions
  rw [Visit.expandFrom_eq, Visit.expand_eq lifted] at ran
  rw [Visit.expand_eq lifted] at ok
  rw [Visit.expandFrom_eq, Visit.expand_eq otherLifted, ← ran]
  have same := walk_of_answered catalog 0 _
    (fun less _ => carries_expandAt catalog less 0) answered rfl ok
  rw [opened] at same
  unfold Visit.walkFrom Visit.start Visit.inForce Visit.cards Visit.top
  dsimp only
  rw [opened]
  exact ofLevel_of_sideBySide same

end Top

end Expansion

end Netlist

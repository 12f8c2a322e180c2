import Netlist.Proofs.ModelOrder
import Netlist.Proofs.ModelReference

/-!
# Recorded models

Before the devices of a body are renamed, each of its model cards records the
new name of its model.  Recording replaces the first alias of a name or adds
one at the end, so the order of the cards shows in the order of the new aliases
alone.  If no two cards declare the same model, the cards of a body may be
rearranged: every one of them still becomes what it became before.
-/

namespace Netlist

namespace ModelAliases

variable {policy : CasePolicy}

/-- Records a new name for each of the models, in order. -/
def record (rename : Text → Text) (aliases : ModelAliases policy) (names : List Text) :
    ModelAliases policy :=
  names.foldl (fun aliases name => aliases.insert name (rename name)) aliases

/-! ## The first entry of a name -/

/-- A change concerns the entries of one name; the entry in front keeps its spelling. -/
theorem find?_put (name image other : Text) (entries : List (Text × Text)) :
    (put policy name image entries).find? (fun entry => policy.same entry.1 other) =
      if policy.same name other then
        some (((entries.find? fun entry => policy.same entry.1 name).map Prod.fst).getD name, image)
      else entries.find? fun entry => policy.same entry.1 other := by
  induction entries with
  | nil => by_cases same : policy.same name other = true <;> simp [put, same]
  | cons first rest ih =>
      rw [put]
      by_cases here : policy.same first.1 name = true
      · have alike := policy.same_congr here other
        rw [if_pos here]
        by_cases same : policy.same name other = true <;> simp [here, alike, same]
      · rw [if_neg here, List.find?_cons, ih]
        by_cases same : policy.same name other = true
        · have apart : policy.same first.1 other = false := by
            rw [policy.same_comm, ← policy.same_congr same, policy.same_comm]
            exact Bool.eq_false_iff.mpr here
          simp [here, apart, same]
        · simp [same, List.find?_cons]

/-- A change takes the entry in front away and adds one. -/
theorem put_perm (name image : Text) (entries : List (Text × Text)) :
    (put policy name image entries).Perm
      ((((entries.find? fun entry => policy.same entry.1 name).map Prod.fst).getD name, image) ::
        entries.eraseP fun entry => policy.same entry.1 name) := by
  induction entries with
  | nil => exact .refl _
  | cons first rest ih =>
      rw [put]
      by_cases here : policy.same first.1 name = true
      · simp [here]
      · rw [if_neg here, List.find?_cons, List.eraseP_cons]
        simp only [here]
        exact (ih.cons first).trans (.swap _ _ _)

/-- Changes of different names may be made in either order. -/
theorem put_put_perm {first second : Text} (apart : policy.same first second = false)
    (image other : Text) (entries : List (Text × Text)) :
    (put policy second other (put policy first image entries)).Perm
      (put policy first image (put policy second other entries)) := by
  induction entries with
  | nil =>
      have back := (policy.same_comm second first).trans apart
      simp only [put, apart, back, Bool.false_eq_true, if_false]
      exact .swap _ _ _
  | cons entry rest ih =>
      by_cases here : policy.same entry.1 first = true
      · have elsewhere := (policy.same_congr here second).trans apart
        simp [put, here, elsewhere]
      · by_cases there : policy.same entry.1 second = true
        · simp [put, here, there]
        · simpa [put, here, there] using ih

namespace Reordered

variable {aliases twin third : ModelAliases policy}

theorem refl (aliases : ModelAliases policy) : aliases.Reordered aliases :=
  ⟨.refl _, fun _ => rfl⟩

theorem trans (left : aliases.Reordered twin) (right : twin.Reordered third) :
    aliases.Reordered third :=
  ⟨right.order.trans left.order, fun name => (right.find? name).trans (left.find? name)⟩

/-- What is left without the entry in front is the same but for the order. -/
theorem eraseP (reordered : aliases.Reordered twin) (name : Text) :
    (twin.entries.eraseP fun entry => policy.same entry.1 name).Perm
      (aliases.entries.eraseP fun entry => policy.same entry.1 name) := by
  cases found : aliases.entries.find? fun entry => policy.same entry.1 name with
  | none =>
      have unknown := (reordered.find? name).trans found
      rw [List.eraseP_of_forall_not (List.find?_eq_none.mp unknown),
        List.eraseP_of_forall_not (List.find?_eq_none.mp found)]
      exact reordered.order
  | some entry =>
      have cut {entries : List (Text × Text)}
          (front : (entries.find? fun entry => policy.same entry.1 name) = some entry) :
          entries.Perm (entry :: entries.eraseP fun entry => policy.same entry.1 name) := by
        obtain ⟨same, before, behind, rfl, others⟩ := List.find?_eq_some_iff_append.mp front
        have passed : ∀ other ∈ before, ¬ policy.same other.1 name = true := by
          intro other member
          simpa using others other member
        rw [List.eraseP_append_right _ passed, List.eraseP_cons, same]
        exact List.perm_middle
      exact ((cut ((reordered.find? name).trans found)).symm.trans
        (reordered.order.trans (cut found))).cons_inv

theorem insert (reordered : aliases.Reordered twin) (name image : Text) :
    (aliases.insert name image).Reordered (twin.insert name image) := by
  constructor
  · refine (put_perm name image twin.entries).trans
      (.trans ?_ (put_perm name image aliases.entries).symm)
    rw [reordered.find?]
    exact (reordered.eraseP name).cons _
  · intro other
    refine (find?_put name image other twin.entries).trans
      (.trans ?_ (find?_put name image other aliases.entries).symm)
    rw [reordered.find?, reordered.find?]

theorem record (reordered : aliases.Reordered twin) (rename : Text → Text) (names : List Text) :
    (aliases.record rename names).Reordered (twin.record rename names) := by
  induction names generalizing aliases twin with
  | nil => exact reordered
  | cons name rest ih => exact ih (reordered.insert name (rename name))

end Reordered

/-- Of two different models either may be recorded first. -/
theorem reordered_insert_insert (aliases : ModelAliases policy) {first second : Text}
    (apart : policy.same first second = false) (image other : Text) :
    ((aliases.insert second other).insert first image).Reordered
      ((aliases.insert first image).insert second other) := by
  have back := (policy.same_comm second first).trans apart
  constructor
  · exact put_put_perm apart image other aliases.entries
  · intro name
    simp only [insert, find?_put, apart, back, Bool.false_eq_true, if_false]
    by_cases here : policy.same first name = true
    · have elsewhere : policy.same second name = false := by
        rw [policy.same_comm, ← policy.same_congr here, apart]
      simp [here, elsewhere]
    · simp [here]

/-- Different models may be recorded in any order. -/
theorem record_perm (rename : Text → Text) {names moved : List Text} (order : moved.Perm names)
    (apart : names.Pairwise fun first second => policy.same first second = false)
    (aliases : ModelAliases policy) :
    (aliases.record rename names).Reordered (aliases.record rename moved) := by
  have symmetric {first second : Text} (different : policy.same first second = false) :
      policy.same second first = false := (policy.same_comm second first).trans different
  induction order generalizing aliases with
  | nil => exact .refl _
  | cons name _ ih => exact ih (List.pairwise_cons.mp apart).2 (aliases.insert name (rename name))
  | swap first second rest =>
      have different := (List.pairwise_cons.mp apart).1 second List.mem_cons_self
      exact (reordered_insert_insert aliases (symmetric different) (rename second)
        (rename first)).record rename rest
  | trans _ later ihEarlier ihLater =>
      have between := later.symm.pairwise apart symmetric
      exact (ihLater apart aliases).trans (ihEarlier between aliases)

end ModelAliases

namespace Deck

theorem modelNames_cons (directives : Directives) (card : Card) (rest : Deck) :
    modelNames directives (card :: rest) =
      (if card.isLive && directives.isModel card.keyword then
        (Text.declaredName? card.text).toList else []) ++ modelNames directives rest := by
  cases awake : card.isLive with
  | false => simp [modelNames, live, awake]
  | true =>
      cases model : directives.isModel card.keyword with
      | false => simp [modelNames, live, awake, model]
      | true =>
          cases named : Text.declaredName? card.text <;>
            simp [modelNames, live, awake, model, named]

theorem modelNames_perm (directives : Directives) {deck twin : Deck} (order : twin.Perm deck) :
    (modelNames directives twin).Perm (modelNames directives deck) :=
  ((order.filter _).filter _).filterMap _

end Deck

namespace Renamer

variable {config : Config} (renamer : Renamer config)

theorem modelLine?_eq (text : Text) :
    (renamer.modelLine? text).map (fun line => (line.1, line.2.1)) =
      (Text.declaredName? text).map fun name => (name, renamer.joint.model name renamer.inst) := by
  rw [modelLine?, Text.declaredName?]
  match Word.split text with
  | [] => rfl
  | [_] => rfl
  | _ :: _ :: _ => rfl

/-- The model cards of a body record the new names of the models they declare, in order. -/
theorem fst_modelCards_eq (models : ModelAliases config.casePolicy) (deck : Deck) :
    (renamer.modelCards models deck).1 =
      models.record (renamer.joint.model · renamer.inst) (deck.modelNames config.directives) := by
  induction deck generalizing models with
  | nil => rfl
  | cons card rest ih =>
      have step : (renamer.modelCard models card).1 =
          models.record (renamer.joint.model · renamer.inst)
            (if card.isLive && config.directives.isModel card.keyword then
              (Text.declaredName? card.text).toList else []) := by
        rw [modelCard]
        split
        · have line := renamer.modelLine?_eq card.text
          cases made : renamer.modelLine? card.text with
          | none =>
              rw [made] at line
              rw [Option.map_eq_none_iff.mp line.symm]
              rfl
          | some triple =>
              obtain ⟨first, image, _⟩ := triple
              rw [made] at line
              obtain ⟨name, named, pair⟩ := Option.map_eq_some_iff.mp line.symm
              obtain ⟨rfl, rfl⟩ := Prod.mk.inj pair
              rw [named]
              rfl
        · rfl
      calc (renamer.modelCards models (card :: rest)).1
          = (renamer.modelCards (renamer.modelCard models card).1 rest).1 := rfl
        _ = (renamer.modelCard models card).1.record (renamer.joint.model · renamer.inst)
              (Deck.modelNames config.directives rest) := ih _
        _ = _ := by
            rw [step, Deck.modelNames_cons, ModelAliases.record, ModelAliases.record,
              ← List.foldl_append]
            rfl

/-! ## Cards in another order -/

/-- What becomes of a card in these scopes; a card with a fault stays. -/
def imageIn (scopes : Scopes config.casePolicy) (card : Card) : Card :=
  (renamer.bodyCard scopes card).toOption.getD card

theorem bodyCard_eq_imageIn {scopes : Scopes config.casePolicy} {deck : Deck}
    (renamed : (renamer.bodyCards scopes deck).2 = none) {card : Card} (member : card ∈ deck) :
    renamer.bodyCard scopes card = .ok (renamer.imageIn scopes card) := by
  obtain ⟨image, -, made⟩ := renamer.exists_image_of_mem renamed member
  rw [imageIn, made]
  rfl

theorem bodyCards_eq_map {scopes : Scopes config.casePolicy} {deck : Deck} {image : Card → Card}
    (each : ∀ card ∈ deck, renamer.bodyCard scopes card = .ok (image card)) :
    renamer.bodyCards scopes deck = (deck.map image, none) := by
  induction deck with
  | nil => rfl
  | cons card rest ih =>
      have later := ih fun other member => each other (List.mem_cons_of_mem card member)
      rw [bodyCards, each card List.mem_cons_self, later]
      rfl

/-- The frames that two arrangements of a body leave answer the same references. -/
theorem answers_of_moved (scopes : Scopes config.casePolicy) {deck twin : Deck}
    (apart : (deck.modelNames config.directives).Pairwise fun first second =>
      config.casePolicy.same first second = false)
    (moved : twin.Perm deck) :
    List.Forall₂ Frame.Answers (renamer.bodyScopes scopes deck).frames
      (renamer.bodyScopes scopes twin).frames := by
  refine .cons ⟨rfl, ?_⟩ (List.forall₂_same.mpr fun frame _ => .refl frame)
  intro name found resolved
  have recorded := ModelAliases.record_perm (renamer.joint.model · renamer.inst)
    (Deck.modelNames_perm config.directives moved) apart scopes.top.models
  rw [← fst_modelCards_eq, ← fst_modelCards_eq] at recorded
  exact recorded.lookup resolved

/-- The order of the cards of a body does not matter, in particular not where its model cards
stand, as long as they declare different models: if the body can be renamed, so can every
rearrangement of it, and each card becomes the same card in both. -/
theorem models_in_any_order (scopes : Scopes config.casePolicy) {deck twin : Deck}
    (apart : (deck.modelNames config.directives).Pairwise fun first second =>
      config.casePolicy.same first second = false)
    (moved : twin.Perm deck) (renamed : (renamer.body scopes deck).failure = none) :
    (renamer.body scopes twin).failure = none ∧
      ∃ image : Card → Card, (renamer.body scopes deck).deck = deck.map image ∧
        (renamer.body scopes twin).deck = twin.map image := by
  have answers := renamer.answers_of_moved scopes apart moved
  rw [body_eq] at renamed
  let image := renamer.imageIn (renamer.bodyScopes scopes deck)
  have here : ∀ card ∈ deck.map renamer.namedCard,
      renamer.bodyCard (renamer.bodyScopes scopes deck) card = .ok (image card) :=
    fun card member => renamer.bodyCard_eq_imageIn renamed member
  have there : ∀ card ∈ twin.map renamer.namedCard,
      renamer.bodyCard (renamer.bodyScopes scopes twin) card = .ok (image card) := by
    intro card member
    exact renamer.bodyCard_of_answers answers (here card ((moved.map _).mem_iff.mp member))
  rw [body_eq, body_eq, renamer.bodyCards_eq_map here, renamer.bodyCards_eq_map there]
  exact ⟨rfl, image ∘ renamer.namedCard, List.map_map, List.map_map⟩

/-- A model with a bin and one without, both declared before under these names, moved behind the
devices that refer to them. -/
theorem models_in_any_order_behind :
    let renamer : Renamer ({} : Config) := ⟨.standard, "x1", ⟨[("d", "p")]⟩, .empty, .empty⟩
    let scopes : Scopes ({} : Config).casePolicy :=
      (Scopes.start 2).withModels ⟨[("PM", "PM"), ("nm.1", "nm.1")]⟩
    let deck : Deck := [{ text := ".model nm.1 nmos" }, { text := ".model pm pmos" },
      { text := "m1 d g 0 0 NM" }, { text := "m2 d g 0 0 pm.3" }]
    let twin : Deck := [{ text := "m1 d g 0 0 NM" }, { text := "m2 d g 0 0 pm.3" },
      { text := ".model pm pmos" }, { text := ".model nm.1 nmos" }]
    (renamer.body scopes deck).failure = none ∧
      twin.map Card.text ≠ deck.map Card.text ∧
      (renamer.body scopes twin).deck.map Card.text =
        (["m1_x1 p g_x1 0 0 nm_x1", "m2_x1 p g_x1 0 0 pm_x1.3", ".model pm_x1 pmos",
          ".model nm_x1.1 nmos"] : List Text) ∧
      (renamer.body scopes twin).failure = none ∧
      ∃ image : Card → Card, (renamer.body scopes deck).deck = deck.map image ∧
        (renamer.body scopes twin).deck = twin.map image := by
  intro renamer scopes deck twin
  have renamed : (renamer.body scopes deck).failure = none :=
    Option.isNone_iff_eq_none.mp (by decide +kernel)
  have moved : twin.Perm deck := by decide +kernel
  exact ⟨renamed, by decide +kernel, by decide +kernel,
    renamer.models_in_any_order scopes (by decide +kernel) moved renamed⟩

end Renamer

end Netlist

import Netlist.Renamer

/-!
# Renamed bodies

A body is renamed card by card: first its model cards, then all others in the
scopes that the models leave.  Every card of the result is the image of a card
of the body, and every card of the body has an image.
-/

namespace Netlist

/-- Formals and actuals are connected in order. -/
theorem Pins.entries_of_connect {policy : CasePolicy} {subcircuit : Text}
    {formals actuals : List Text} {pins : Pins policy}
    (connected : connect subcircuit formals actuals = .ok pins) :
    pins.entries = formals.zip actuals := by
  unfold connect at connected
  split at connected
  · cases connected
  · split at connected
    · cases connected
    · rw [← Except.ok.inj connected]

/-- A name that is neither ground nor global nor a formal is internal. -/
theorem Pins.outside?_eq_none {policy : CasePolicy} {pins : Pins policy}
    {globals : NameSet policy} {name : Text} (notGround : name ≠ ground)
    (notGlobal : globals.contains name = false)
    (notFormal : ∀ entry ∈ pins.entries, policy.same entry.1 name = false) :
    pins.outside? globals name = none := by
  unfold outside?
  rw [if_neg (by simp [notGround, notGlobal]), Option.map_eq_none_iff, List.find?_eq_none]
  intro entry member
  simp [notFormal entry member]

theorem Pins.connect_of_counted {policy : CasePolicy} {subcircuit : Text}
    {formals actuals : List Text} (counted : actuals.length = formals.length) :
    (connect subcircuit formals actuals : Except Fault (Pins policy)) =
      .ok ⟨formals.zip actuals⟩ := by
  unfold connect
  rw [if_neg (by omega), if_neg (by omega)]

namespace Renamer

variable {config : Config} (renamer : Renamer config)

/-- The card with its model named for the instance, if it declares one. -/
def namedCard (card : Card) : Card := (renamer.modelCard {} card).2

theorem modelCard_snd (models : ModelAliases config.casePolicy) (card : Card) :
    (renamer.modelCard models card).2 = renamer.namedCard card := by
  unfold namedCard modelCard
  split
  · split <;> rfl
  · rfl

theorem modelCards_snd (models : ModelAliases config.casePolicy) (deck : Deck) :
    (renamer.modelCards models deck).2 = deck.map renamer.namedCard := by
  induction deck generalizing models with
  | nil => rfl
  | cons card rest ih =>
      simp only [modelCards, List.map_cons]
      rw [modelCard_snd, ih]

/-- Naming a model changes the text of a card at most. -/
theorem namedCard_cases (card : Card) :
    renamer.namedCard card = card ∨
      ∃ name image line, card.isLive = true ∧
        config.directives.isModel card.keyword = true ∧
        renamer.modelLine? card.text = some (name, image, line) ∧
        renamer.namedCard card = { card with text := line } := by
  unfold namedCard modelCard
  split
  next declares =>
    have parts := Bool.and_eq_true_iff.mp declares
    split
    next name image line named => exact .inr ⟨name, image, line, parts.1, parts.2, named, rfl⟩
    · exact .inl rfl
  · exact .inl rfl

theorem isLive_namedCard (card : Card) : (renamer.namedCard card).isLive = card.isLive := by
  rcases renamer.namedCard_cases card with same | ⟨name, image, line, -, -, -, named⟩
  · rw [same]
  · rw [named]
    rfl

/-- What becomes of a card that is not a model: it is left alone, or it is a device line or a
plain control line that is rewritten. -/
theorem bodyCard_cases {scopes : Scopes config.casePolicy} {card image : Card}
    (renamed : renamer.bodyCard scopes card = .ok image) :
    image = card ∨
    (card.isLive = true ∧ startsDevice card.keyword = true ∧
      ∃ text, renamer.deviceLine scopes card.text = .ok text ∧ image = { card with text }) ∨
    (card.isLive = true ∧ card.keyword.head? = some '.' ∧
      image = { card with text := renamer.controlLine card.text }) := by
  unfold bodyCard at renamed
  split at renamed
  · cases renamed
    exact .inl rfl
  next awake =>
    have live : card.isLive = true := by simpa using awake
    split at renamed
    next device =>
      split at renamed
      · cases renamed
      next text made =>
        cases renamed
        exact .inr (.inl ⟨live, device, text, made, rfl⟩)
    · split at renamed
      next control =>
        cases renamed
        have point : card.keyword.head? = some '.' := by
          simpa using (Bool.and_eq_true_iff.mp control).1
        exact .inr (.inr ⟨live, point, rfl⟩)
      · cases renamed
        exact .inl rfl

theorem isLive_bodyCard {scopes : Scopes config.casePolicy} {card image : Card}
    (renamed : renamer.bodyCard scopes card = .ok image) : image.isLive = card.isLive := by
  rcases renamer.bodyCard_cases renamed with
    same | ⟨-, -, text, -, made⟩ | ⟨-, -, made⟩
  · rw [same]
  · rw [made]
    rfl
  · rw [made]
    rfl

/-- The cards of a body that is renamed without a fault are images of its cards. -/
theorem exists_source_of_mem_bodyCards {scopes : Scopes config.casePolicy} {deck : Deck}
    (ok : (renamer.bodyCards scopes deck).2 = none) {image : Card}
    (member : image ∈ (renamer.bodyCards scopes deck).1) :
    ∃ card ∈ deck, renamer.bodyCard scopes card = .ok image := by
  induction deck with
  | nil => cases member
  | cons card rest ih =>
      rw [bodyCards] at ok member
      split at ok
      · cases ok
      next here renamed =>
        rw [renamed] at member
        rcases List.mem_cons.mp member with found | later
        · exact ⟨card, List.mem_cons_self .., found ▸ renamed⟩
        · obtain ⟨source, inside, made⟩ := ih ok later
          exact ⟨source, List.mem_cons_of_mem _ inside, made⟩

/-- Every card of a body that is renamed without a fault has an image. -/
theorem exists_image_of_mem {scopes : Scopes config.casePolicy} {deck : Deck}
    (ok : (renamer.bodyCards scopes deck).2 = none) {card : Card} (member : card ∈ deck) :
    ∃ image ∈ (renamer.bodyCards scopes deck).1, renamer.bodyCard scopes card = .ok image := by
  induction deck with
  | nil => cases member
  | cons first rest ih =>
      rw [bodyCards] at ok ⊢
      split at ok
      · cases ok
      next here renamed =>
        rcases List.mem_cons.mp member with found | later
        · exact ⟨here, List.mem_cons_self .., found ▸ renamed⟩
        · obtain ⟨image, inside, made⟩ := ih ok later
          exact ⟨image, List.mem_cons_of_mem _ inside, made⟩

/-- The scopes in which the cards of a body are renamed. -/
def bodyScopes (scopes : Scopes config.casePolicy) (deck : Deck) : Scopes config.casePolicy :=
  scopes.withModels (renamer.modelCards scopes.top.models deck).1

theorem body_eq (scopes : Scopes config.casePolicy) (deck : Deck) :
    renamer.body scopes deck =
      ⟨(renamer.bodyCards (renamer.bodyScopes scopes deck) (deck.map renamer.namedCard)).1,
        renamer.bodyScopes scopes deck,
        (renamer.bodyCards (renamer.bodyScopes scopes deck) (deck.map renamer.namedCard)).2⟩ := by
  unfold body bodyScopes
  rw [← renamer.modelCards_snd scopes.top.models]

/-- Where a card of a renamed body comes from. -/
theorem exists_source_of_mem_body {scopes : Scopes config.casePolicy} {deck : Deck}
    (ok : (renamer.body scopes deck).failure = none) {image : Card}
    (member : image ∈ (renamer.body scopes deck).deck) :
    ∃ card ∈ deck, renamer.bodyCard (renamer.bodyScopes scopes deck)
      (renamer.namedCard card) = .ok image := by
  rw [body_eq] at ok member
  obtain ⟨named, inside, renamed⟩ := renamer.exists_source_of_mem_bodyCards ok member
  obtain ⟨card, source, rfl⟩ := List.mem_map.mp inside
  exact ⟨card, source, renamed⟩

end Renamer

end Netlist

import Netlist.Proofs.Flatness

/-!
# Decks without notes

Lifting definitions out of a deck and taking in its parameters disables cards
and notes nothing on them.  So where a deck and the known definitions come
without notes, every level is walked over cards without notes.
-/

namespace Netlist

namespace Deck

/-- No card has an error noted on it. -/
def Unmarked (deck : Deck) : Prop := ∀ card ∈ deck, card.note = none

theorem unmarked_nil : Unmarked [] := by
  intro card member
  cases member

theorem unmarked_cons {card : Card} {rest : Deck} :
    Unmarked (card :: rest) ↔ card.note = none ∧ rest.Unmarked := List.forall_mem_cons

theorem unmarked_singleton {card : Card} : Unmarked [card] ↔ card.note = none :=
  List.forall_mem_singleton

theorem unmarked_append {front back : Deck} :
    Unmarked (front ++ back) ↔ front.Unmarked ∧ back.Unmarked := List.forall_mem_append

theorem Unmarked.collectParams {directives : Directives} {deck : Deck} (clean : deck.Unmarked)
    (bound : Bindings) : (deck.collectParams directives bound).2.Unmarked := by
  induction deck generalizing bound with
  | nil => exact unmarked_nil
  | cons card rest ih =>
      obtain ⟨here, later⟩ := unmarked_cons.mp clean
      rw [Deck.collectParams]
      split <;> exact unmarked_cons.mpr ⟨here, ih later _⟩

end Deck

/-! ## Definitions -/

namespace Definition

theorem unmarked_takeParams {directives : Directives} {nest : Nat} {bound : Bindings}
    {deck : Deck} (clean : deck.Unmarked) :
    (takeParams directives nest bound deck).2.Unmarked := by
  induction deck generalizing nest bound with
  | nil => exact Deck.unmarked_nil
  | cons card rest ih =>
      obtain ⟨here, later⟩ := Deck.unmarked_cons.mp clean
      rw [takeParams_cons]
      refine Deck.unmarked_cons.mpr ⟨?_, ih later⟩
      split <;> exact here

/-- The cards that are added to a body have no notes either. -/
theorem unmarked_build (directives : Directives) (policy : CasePolicy) (header : Header)
    {body : Deck} (clean : body.Unmarked) (number : Nat) :
    (build directives policy header body number).body.Unmarked := by
  refine Deck.unmarked_append.mpr ⟨?_, unmarked_takeParams clean⟩
  intro card member
  obtain ⟨count, formal, image, rfl⟩ := Formals.exists_tie_of_mem_separateFrom member
  rfl

/-- No body of a table has a note in it. -/
def AllUnmarked (table : DefinitionTable) : Prop :=
  ∀ entry ∈ table.entries, entry.2.body.Unmarked

theorem allUnmarked_empty : AllUnmarked .empty := by
  intro entry member
  cases member

end Definition

namespace Extraction

variable {directives : Directives} {policy : CasePolicy}

/-- What has been read of an open definition has no notes. -/
def CleanSoFar (opened : Option OpenDefinition) : Prop :=
  ∀ inner, opened = some inner → inner.body.Unmarked

theorem CleanSoFar.push {opened : OpenDefinition} (clean : CleanSoFar (some opened))
    {card : Card} (here : card.note = none) : (opened.push card).body.Unmarked :=
  Deck.unmarked_append.mpr ⟨clean opened rfl, Deck.unmarked_singleton.mpr here⟩

/-- A card without a note leaves none, on itself, in the open definition or in the table. -/
theorem Takes.unmarked {card image : Card} {opened next : Option OpenDefinition}
    {table found : DefinitionTable} {warnings : List Warning}
    (takes : Takes directives policy card opened table image next found warnings)
    (here : card.note = none) (clean : CleanSoFar opened)
    (known : Definition.AllUnmarked table) :
    image.note = none ∧ CleanSoFar next ∧ Definition.AllUnmarked found := by
  cases takes with
  | idle opened table idle => exact ⟨here, clean, known⟩
  | begin table header live starts named =>
      refine ⟨here, ?_, known⟩
      rintro inner ⟨⟩
      exact Deck.unmarked_nil
  | enter opened table live starts =>
      refine ⟨here, ?_, known⟩
      rintro inner ⟨⟩
      exact clean.push here
  | close opened table built live notStart ends outermost whole =>
      refine ⟨here, ?_, ?_⟩
      · rintro inner ⟨⟩
      · intro entry member
        rcases NameTable.mem_enter member with new | old
        · rw [new, whole]
          exact Definition.unmarked_build directives policy _ (clean opened rfl) _
        · exact known entry old
  | leave opened table live notStart ends inner =>
      refine ⟨here, ?_, known⟩
      rintro inner ⟨⟩
      exact clean.push here
  | push opened table live notStart notEnd =>
      refine ⟨here, ?_, known⟩
      rintro inner ⟨⟩
      exact clean.push here
  | keep table live notStart notEnd => exact ⟨here, clean, known⟩

theorem unmarked_runFrom {phase : Phase} {opened : Option OpenDefinition}
    {table : DefinitionTable} {deck : Deck} (clean : deck.Unmarked)
    (soFar : CleanSoFar opened) (known : Definition.AllUnmarked table) :
    (runFrom directives policy phase opened table deck).deck.Unmarked ∧
      Definition.AllUnmarked (runFrom directives policy phase opened table deck).definitions := by
  induction deck generalizing opened table with
  | nil => exact ⟨Deck.unmarked_nil, known⟩
  | cons card rest ih =>
      obtain ⟨here, later⟩ := Deck.unmarked_cons.mp clean
      rcases runFrom_cons directives policy phase opened table card rest with
        ⟨fault, stopped⟩ | ⟨image, next, found, warnings, takes, went⟩
      · rw [stopped]
        exact ⟨clean, known⟩
      · rw [went]
        obtain ⟨image, soFar, known⟩ := takes.unmarked here soFar known
        obtain ⟨cards, definitions⟩ := ih later soFar known
        exact ⟨Deck.unmarked_cons.mpr ⟨image, cards⟩, definitions⟩

theorem unmarked_run {phase : Phase} {table : DefinitionTable} {deck : Deck}
    (clean : deck.Unmarked) (known : Definition.AllUnmarked table) :
    (run directives policy phase table deck).deck.Unmarked ∧
      Definition.AllUnmarked (run directives policy phase table deck).definitions := by
  apply unmarked_runFrom clean ?_ known
  rintro inner ⟨⟩

end Extraction

/-- A block that is built from a deck without notes defines bodies without notes. -/
theorem CacheBlock.allUnmarked_build {config : Config} {name : Text} {deck : Deck}
    {bound : Bindings} {block : CacheBlock} (clean : deck.Unmarked)
    (built : build config name deck bound = .ok block) :
    Definition.AllUnmarked block.definitions := by
  unfold build at built
  dsimp only at built
  split at built
  · cases built
  · cases built
    exact (Extraction.unmarked_run clean Definition.allUnmarked_empty).2

namespace CacheStore

/-- No block of the store has a note in a body. -/
def Unmarked (store : CacheStore) : Prop :=
  ∀ entry ∈ store.entries, Definition.AllUnmarked entry.2.definitions

theorem unmarked_empty : Unmarked .empty := by
  intro entry member
  cases member

/-- Decks without notes bring no notes into a store. -/
theorem Unmarked.add {store next : CacheStore} {stored : Bool} {config : Config} {name : Text}
    {deck : Deck} {bound : Bindings} (before : store.Unmarked) (clean : deck.Unmarked)
    (added : store.add config name deck bound = .ok (stored, next)) : next.Unmarked := by
  unfold CacheStore.add at added
  split at added
  · cases added
    exact before
  · split at added
    · cases added
    next block built =>
      cases added
      intro entry member
      rcases NameTable.mem_enter member with here | there
      · rw [here]
        exact CacheBlock.allUnmarked_build clean built
      · exact before entry there

end CacheStore

/-! ## Scopes -/

namespace Scopes

variable {policy : CasePolicy} {scopes inner : Scopes policy}

/-- No body that a frame defines has a note in it. -/
def Unmarked (scopes : Scopes policy) : Prop :=
  ∀ frame ∈ scopes.frames, Definition.AllUnmarked frame.definitions

theorem unmarked_iff_every :
    scopes.Unmarked ↔ scopes.Every fun definition => definition.body.Unmarked := Iff.rfl

theorem Unmarked.definition? (clean : scopes.Unmarked) {name : Text} {definition : Definition}
    (known : scopes.definition? name = some definition) : definition.body.Unmarked :=
  (unmarked_iff_every.mp clean).definition? known

theorem Unmarked.enter? (clean : scopes.Unmarked) (entered : scopes.enter? = some inner) :
    inner.Unmarked :=
  unmarked_iff_every.mpr ((unmarked_iff_every.mp clean).enter? entered)

theorem Unmarked.withTop (clean : scopes.Unmarked) {top : Frame policy}
    (here : Definition.AllUnmarked top.definitions) : (scopes.withTop top).Unmarked :=
  unmarked_iff_every.mpr ((unmarked_iff_every.mp clean).withTop here)

end Scopes

namespace Expansion

variable {config : Config}

theorem unmarked_extractionOf {deck : Deck} {progress : Progress config.casePolicy}
    (clean : deck.Unmarked) (known : progress.scopes.Unmarked) :
    (extractionOf deck progress).deck.Unmarked ∧
      Definition.AllUnmarked (extractionOf deck progress).definitions :=
  Extraction.unmarked_run clean (known progress.scopes.top (List.mem_cons_self ..))

/-- A level over a clean deck and clean scopes is walked over clean cards and clean scopes. -/
theorem unmarked_opening {depth : Nat} {params : ParamTable} {deck : Deck}
    {progress : Progress config.casePolicy} (clean : deck.Unmarked)
    (known : progress.scopes.Unmarked) :
    (opening depth params deck progress).2.2.Unmarked ∧
      (opening depth params deck progress).1.scopes.Unmarked := by
  obtain ⟨cards, definitions⟩ := unmarked_extractionOf clean known
  constructor
  · unfold opening collect
    split
    · exact cards.collectParams _
    · exact cards
  · rw [scopes_opening]
    exact known.withTop definitions

end Expansion

end Netlist

import Netlist.Proofs.Directive
import Netlist.Proofs.Outline
import Netlist.Proofs.Preface
import Netlist.Proofs.Reading

/-!
# Libraries

A library is a deck of whole definitions, parameter statements and model
statements.  What it declares can be told from the texts of its live cards:
the parameters and functions, and the models with the names they go by.
-/

namespace Netlist

/-! ## Tables of different names -/

namespace NameTable

variable {policy : CasePolicy} {α : Type}

theorem enter_perm {name : Text} {entries : List (Text × α)}
    (fresh : ∀ entry ∈ entries, policy.fold entry.1 ≠ policy.fold name) (value : α) :
    (enter policy name value entries).Perm ((name, value) :: entries) := by
  induction entries with
  | nil => exact .refl _
  | cons first rest ih =>
      have other := fresh first (List.mem_cons_self ..)
      rw [enter]
      split
      · exact .refl _
      · rw [if_neg fun same => other same.symm]
        exact ((ih fun entry member => fresh entry (List.mem_cons_of_mem _ member)).cons
          first).trans (.swap ..)

/-- Entries with different names are all kept. -/
theorem entries_insertAll_perm (table : NameTable policy α) {entries : List (Text × α)}
    (distinct : ((table.entries ++ entries).map fun entry => policy.fold entry.1).Nodup) :
    (table.insertAll entries).entries.Perm (table.entries ++ entries) := by
  induction entries generalizing table with
  | nil => exact .of_eq (List.append_nil _).symm
  | cons first rest ih =>
      have fresh : ∀ entry ∈ table.entries, policy.fold entry.1 ≠ policy.fold first.1 := by
        intro entry member same
        rw [List.map_append, List.nodup_append] at distinct
        exact distinct.2.2 _ (List.mem_map_of_mem member) _
          (List.mem_map_of_mem (List.mem_cons_self ..)) same
      have entered : (table.insert first.1 first.2).entries.Perm (first :: table.entries) :=
        enter_perm fresh first.2
      have moved : (first :: table.entries ++ rest).Perm (table.entries ++ first :: rest) :=
        List.perm_middle.symm
      have order := (entered.append_right rest).trans moved
      exact (ih (table.insert first.1 first.2)
        ((order.map fun entry => policy.fold entry.1).nodup_iff.mpr distinct)).trans order

end NameTable

namespace Text

variable {α : Type} {first second : List (Text × α)}

theorem sortByName_perm (pairs : List (Text × α)) : (sortByName pairs).Perm pairs :=
  List.mergeSort_perm ..

/-- Pairs with different names are sorted to one list, in whatever order they stand. -/
theorem sortByName_of_perm (distinct : (first.map Prod.fst).Nodup) (order : second.Perm first) :
    sortByName second = sortByName first := by
  have sorted (pairs : List (Text × α)) :
      (sortByName pairs).Pairwise fun one other => (!decide (other.1 < one.1)) = true := by
    refine List.pairwise_mergeSort ?_ ?_ pairs
    · intro one other third
      simp only [Bool.not_eq_true', decide_eq_false_iff_not, List.not_lt]
      exact fun before after => List.le_trans before after
    · intro one other
      simp only [Bool.or_eq_true, Bool.not_eq_true', decide_eq_false_iff_not, List.not_lt]
      exact List.le_total ..
  have both := ((sortByName_perm second).trans order).trans (sortByName_perm first).symm
  refine both.eq_of_pairwise ?_ (sorted second) (sorted first)
  intro one other here there before after
  simp only [Bool.not_eq_true', decide_eq_false_iff_not, List.not_lt] at before after
  have names : one.1 = other.1 := List.le_antisymm before after
  have inside : one ∈ first := order.mem_iff.mp ((sortByName_perm second).mem_iff.mp here)
  exact List.inj_on_of_nodup_map distinct inside ((sortByName_perm first).mem_iff.mp there) names

end Text

/-! ## What the live statements of a deck tell -/

namespace Deck

variable {directives : Directives} {deck other : Deck}

/-- The names and texts of the model statements among some texts. -/
def modelLines (directives : Directives) (texts : List Text) : List (Text × Text) :=
  (texts.filter fun text => directives.isModel (Text.firstWord text)).filterMap fun text =>
    (Text.declaredName? text).map fun name => (name, text)

theorem of_mem_modelLines {texts : List Text} {model : Text × Text}
    (member : model ∈ modelLines directives texts) :
    directives.isModel (Text.firstWord model.2) = true ∧
      Text.declaredName? model.2 = some model.1 := by
  obtain ⟨text, inside, declares⟩ := List.mem_filterMap.mp member
  obtain ⟨name, named, rfl⟩ := Option.map_eq_some_iff.mp declares
  exact ⟨(List.mem_filter.mp inside).2, named⟩

/-- The texts of models tell the models. -/
theorem modelLines_texts {models : List (Text × Text)}
    (declared : ∀ model ∈ models, directives.isModel (Text.firstWord model.2) = true ∧
      Text.declaredName? model.2 = some model.1) :
    modelLines directives (models.map Prod.snd) = models := by
  induction models with
  | nil => rfl
  | cons model rest ih =>
      obtain ⟨isModel, named⟩ := declared model (List.mem_cons_self ..)
      have later := ih fun model member => declared model (List.mem_cons_of_mem _ member)
      unfold modelLines at later ⊢
      rw [List.map_cons, List.filter_cons, if_pos isModel, List.filterMap_cons, named, later]
      rfl

/-- The texts of models with names are the model statements themselves. -/
theorem map_snd_modelLines {texts : List Text}
    (named : ∀ text ∈ texts, directives.isModel (Text.firstWord text) = true →
      (Text.declaredName? text).isSome = true) :
    (modelLines directives texts).map Prod.snd =
      texts.filter fun text => directives.isModel (Text.firstWord text) := by
  unfold modelLines
  rw [List.map_filterMap]
  refine (List.filterMap_congr ?_).trans List.filterMap_some
  intro text member
  obtain ⟨inside, model⟩ := List.mem_filter.mp member
  obtain ⟨name, declared⟩ := Option.isSome_iff_exists.mp (named text inside model)
  rw [declared]
  rfl

theorem liveTexts_append (front back : Deck) :
    (front ++ back).liveTexts = front.liveTexts ++ back.liveTexts := by
  unfold liveTexts
  rw [live_append, List.map_append]

theorem liveTexts_of_idle (idle : ∀ card ∈ deck, card.isLive = false) : deck.liveTexts = [] := by
  have none : deck.live = [] :=
    List.filter_eq_nil_iff.mpr fun card member => by simp [idle card member]
  unfold liveTexts
  rw [none]
  rfl

theorem texts_statements (kind : Text → Bool) (deck : Deck) :
    (deck.statements kind).map Card.text =
      deck.liveTexts.filter fun text => kind (Text.firstWord text) := by
  unfold statements liveTexts
  rw [List.filter_map]
  rfl

theorem modelNames_eq (directives : Directives) (deck : Deck) :
    deck.modelNames directives = (modelLines directives deck.liveTexts).map Prod.fst := by
  unfold modelLines
  rw [← texts_statements, List.filterMap_map, List.map_filterMap]
  refine List.filterMap_congr fun card _ => ?_
  dsimp only [Function.comp]
  cases Text.declaredName? card.text <;> rfl

theorem models_eq (directives : Directives) (policy : CasePolicy) (deck : Deck) :
    deck.models directives policy =
      NameTable.empty.insertAll (modelLines directives deck.liveTexts) := by
  unfold modelLines NameTable.insertAll
  rw [← texts_statements, List.filterMap_map, List.foldl_filterMap]
  unfold models statements
  congr 1
  funext table card
  dsimp only [Function.comp]
  cases Text.declaredName? card.text <;> rfl

/-- The bindings of a deck can be told from its live statements. -/
theorem fst_collectParams_eq (directives : Directives) (deck : Deck) (bound : Bindings) :
    (deck.collectParams directives bound).1 =
      (deck.liveTexts.filter fun text => directives.isParam (Text.firstWord text)).foldl
        (fun bound text => bound.state (Card.operand { text })) bound := by
  rw [collectParams_eq, ← texts_statements, List.foldl_map]
  rfl

/-- The intake of parameters leaves the model statements alone. -/
theorem statements_takenIn
    (apart : ∀ keyword, directives.isModel keyword = true → directives.isParam keyword = false)
    (deck : Deck) :
    Deck.statements directives.isModel (deck.map (takenIn directives)) =
      deck.statements directives.isModel := by
  unfold statements
  induction deck with
  | nil => rfl
  | cons card rest ih =>
      rw [List.map_cons]
      by_cases taken : (card.isLive && directives.isParam card.keyword) = true
      · obtain ⟨live, param⟩ := Bool.and_eq_true_iff.mp taken
        have other : ¬ directives.isModel card.keyword = true := fun model =>
          absurd (apart _ model) (by simp [param])
        have image : takenIn directives card = card.disable := if_pos taken
        rw [image, live_cons_of_idle card.isLive_disable, live_cons_of_live live,
          List.filter_cons_of_neg (by simpa using other)]
        exact ih
      · have image : takenIn directives card = card := if_neg taken
        rw [image]
        cases live : card.isLive with
        | false =>
            rw [live_cons_of_idle live, live_cons_of_idle live]
            exact ih
        | true =>
            rw [live_cons_of_live live, live_cons_of_live live, List.filter_cons, List.filter_cons,
              ih]

theorem modelLines_takenIn
    (apart : ∀ keyword, directives.isModel keyword = true → directives.isParam keyword = false)
    (deck : Deck) :
    modelLines directives (Deck.liveTexts (deck.map (takenIn directives))) =
      modelLines directives deck.liveTexts := by
  unfold modelLines
  rw [← texts_statements, ← texts_statements, statements_takenIn apart]

end Deck

/-! ## Directives that declare -/

namespace Directives

variable {keyword : Text}

/-- A keyword has one spelling only. -/
theorem not_sameLetters {spelling other : Text} (spelled : Text.sameLetters spelling keyword = true)
    (apart : Text.lower spelling ≠ Text.lower other) : Text.sameLetters other keyword = false := by
  cases again : Text.sameLetters other keyword with
  | false => rfl
  | true =>
      exact absurd (((Text.sameLetters_iff _ _).mp spelled).trans
        ((Text.sameLetters_iff _ _).mp again).symm) apart

/-- What a keyword that declares is not, by default. -/
structure Declaring (directives : Directives) (keyword : Text) : Prop where
  notStart : directives.isStart keyword = false
  notEnd : directives.isEnd keyword = false
  notGlobal : directives.isGlobal keyword = false
  notCall : directives.isCall keyword = false

theorem declaring_of_spelled {spelling : Text} (spelled : Text.sameLetters spelling keyword = true)
    (point : spelling.head? = some '.')
    (apart : ∀ other ∈ [".subckt", ".macro", ".ends", ".eom", ".global"].map String.toList,
      Text.lower spelling ≠ Text.lower other) : Declaring {} keyword := by
  obtain ⟨letters, rfl⟩ := List.head?_eq_some_iff.mp point
  have lead := Text.head?_of_sameLetters_point spelled
  obtain ⟨rest, rfl⟩ := List.head?_eq_some_iff.mp lead
  simp only [List.map_cons, List.map_nil, List.forall_mem_cons] at apart
  obtain ⟨subckt, macros, ends, eom, global, -⟩ := apart
  constructor
  · simp only [isStart, List.any_cons, List.any_nil, Bool.or_false, Bool.or_eq_false_iff]
    exact ⟨not_sameLetters spelled subckt, not_sameLetters spelled macros⟩
  · simp only [isEnd, List.any_cons, List.any_nil, Bool.or_false, Bool.or_eq_false_iff]
    exact ⟨not_sameLetters spelled ends, not_sameLetters spelled eom⟩
  · exact not_sameLetters spelled global
  · simp [isCall, Text.opensWith]

variable {directives : Directives} (spellings : directives = {})

include spellings

theorem declaring_of_isModel (model : directives.isModel keyword = true) :
    Declaring directives keyword := by
  subst spellings
  exact declaring_of_spelled model rfl (by decide)

theorem declaring_of_isParam (param : directives.isParam keyword = true) :
    Declaring directives keyword := by
  subst spellings
  exact declaring_of_spelled param rfl (by decide)

theorem declares_of_isModel {card : Card} (model : directives.isModel card.keyword = true) :
    card.Declares directives := by
  have declaring := declaring_of_isModel spellings model
  have notParam := (modelKeyword_of_isModel spellings model).notParam
  exact ⟨by rw [model, notParam]; rfl, declaring.notGlobal, declaring.notCall⟩

theorem declares_of_isParam {card : Card} (param : directives.isParam card.keyword = true) :
    card.Declares directives := by
  have declaring := declaring_of_isParam spellings param
  refine ⟨?_, declaring.notGlobal, declaring.notCall⟩
  cases model : directives.isModel card.keyword with
  | false =>
      rw [param]
      rfl
  | true =>
      rw [(modelKeyword_of_isModel spellings model).notParam] at param
      cases param

end Directives

/-! ## Libraries -/

/-- A definition, a card that is disabled, a parameter statement or a model under a name. -/
def Section.declares (directives : Directives) : Section → Bool
  | line card =>
      !card.isLive || directives.isParam card.keyword ||
        (directives.isModel card.keyword && (Text.declaredName? card.text).isSome)
  | block .. => true
  | unclosed .. => false

namespace Deck

variable {directives : Directives} {policy : CasePolicy} {deck : Deck}

/-- The live cards that stand outside definitions. -/
def outside (directives : Directives) (deck : Deck) : Deck :=
  (deck.outline directives).filterMap Section.liveLine?

/-- The names and texts of the models that are declared outside definitions. -/
def declaredModels (directives : Directives) (deck : Deck) : List (Text × Text) :=
  modelLines directives ((deck.outside directives).map Card.text)

/-- A model that is declared outside definitions has its name in its text. -/
theorem of_mem_declaredModels {model : Text × Text}
    (member : model ∈ Text.sortByName (deck.declaredModels directives)) :
    directives.isModel (Text.firstWord model.2) = true ∧
      Text.declaredName? model.2 = some model.1 :=
  of_mem_modelLines ((Text.sortByName_perm _).mem_iff.mp member)

/-- A deck of whole definitions, parameter statements and models with different names. -/
structure IsLibrary (directives : Directives) (policy : CasePolicy) (deck : Deck) : Prop where
  declares : ∀ part ∈ deck.outline directives, part.declares directives = true
  distinct : ((deck.declaredModels directives).map fun model => policy.fold model.1).Nodup

instance : Decidable (deck.IsLibrary directives policy) :=
  decidable_of_iff
    ((∀ part ∈ deck.outline directives, part.declares directives = true) ∧
      ((deck.declaredModels directives).map fun model => policy.fold model.1).Nodup)
    ⟨fun ⟨declares, distinct⟩ => ⟨declares, distinct⟩,
      fun library => ⟨library.declares, library.distinct⟩⟩

/-- Behind a deck that leaves nothing open, the sections are those of what follows. -/
theorem outlineFrom_append {opened : Option OpenBlock} {front : Deck}
    (closed : ∀ part ∈ outlineFrom directives opened front, part.declares directives = true)
    (back : Deck) :
    outlineFrom directives opened (front ++ back) =
      outlineFrom directives opened front ++ outlineFrom directives none back := by
  induction front generalizing opened with
  | nil =>
      cases opened with
      | none => rfl
      | some block => cases closed _ (List.mem_singleton.mpr rfl)
  | cons card rest ih =>
      -- the step is the same, whether a definition is open or not
      rcases opened with _ | block
      all_goals
        rw [outlineFrom] at closed
        rw [List.cons_append, outlineFrom, outlineFrom]
        split at closed
        next outer =>
          rw [if_pos outer, if_pos outer,
            ih fun part member => closed part (List.mem_cons_of_mem _ member)]
          rfl
        next inner =>
          rw [if_neg inner, if_neg inner, ih closed]

/-- A live card outside the definitions of a library is a parameter statement or a named model. -/
theorem IsLibrary.of_mem_outside (library : deck.IsLibrary directives policy) {card : Card}
    (member : card ∈ deck.outside directives) :
    card.isLive = true ∧
      (directives.isParam card.keyword = true ∨
        directives.isModel card.keyword = true ∧ (Text.declaredName? card.text).isSome = true) := by
  obtain ⟨part, inside, here⟩ := List.mem_filterMap.mp member
  have declares := library.declares part inside
  cases part with
  | line other =>
      rw [Section.liveLine?] at here
      split at here
      next live =>
        cases here
        simpa [Section.declares, live] using declares
      · cases here
  | block start body stop => cases here
  | unclosed start body => cases here

/-- Extraction without a fault leaves the cards outside definitions live. -/
theorem live_run {phase : Phase} {table : DefinitionTable}
    (ok : (Extraction.run directives policy phase table deck).failure = none) :
    (Extraction.run directives policy phase table deck).deck.live = deck.outside directives :=
  (Extraction.runFrom_of_sound .none (Extraction.sound_of_runFrom .none ok)).2.2

theorem IsLibrary.declares_run (spellings : directives = {})
    (library : deck.IsLibrary directives policy) {phase : Phase} {table : DefinitionTable}
    (ok : (Extraction.run directives policy phase table deck).failure = none) {card : Card}
    (member : card ∈ (Extraction.run directives policy phase table deck).deck)
    (live : card.isLive = true) : card.Declares directives := by
  have inside : card ∈ deck.outside directives := by
    rw [← live_run ok]
    exact List.mem_filter.mpr ⟨member, live⟩
  rcases (library.of_mem_outside inside).2 with param | ⟨model, -⟩
  · exact Directives.declares_of_isParam spellings param
  · exact Directives.declares_of_isModel spellings model

/-- The models that a library declares have names. -/
theorem IsLibrary.named (library : deck.IsLibrary directives policy)
    (apart : ∀ keyword, directives.isModel keyword = true → directives.isParam keyword = false)
    {text : Text} (member : text ∈ (deck.outside directives).map Card.text)
    (model : directives.isModel (Text.firstWord text) = true) :
    (Text.declaredName? text).isSome = true := by
  obtain ⟨card, inside, rfl⟩ := List.mem_map.mp member
  rcases (library.of_mem_outside inside).2 with param | ⟨-, named⟩
  · exact absurd (param.symm.trans (apart _ model)) (by decide)
  · exact named

/-- A library that can be extracted in front of a deck can be extracted by itself. -/
theorem IsLibrary.failure_of_append (library : deck.IsLibrary directives policy) {phase : Phase}
    {table : DefinitionTable} {main : Deck}
    (ok : (Extraction.run directives policy phase table (deck ++ main)).failure = none) :
    (Extraction.run directives policy phase table deck).failure = none := by
  have sound := Extraction.sound_of_runFrom .none ok
  rw [outlineFrom_append library.declares] at sound
  exact (Extraction.runFrom_of_sound .none fun part member =>
    sound part (List.mem_append_left _ member)).1

/-- A statement that begins with a plus declares nothing. -/
theorem not_isLibrary_of_plus (spellings : directives = {}) {card : Card}
    (live : card.isLive = true) (plus : card.text.head? = some '+') (rest : Deck) :
    ¬ IsLibrary directives policy (card :: rest) := by
  obtain ⟨letters, spelled⟩ := List.head?_eq_some_iff.mp plus
  have lead : card.keyword.head? = some '+' := by
    unfold Card.keyword
    rw [Text.head?_firstWord, spelled]
    rfl
  have flat : directives.Flat card.keyword :=
    spellings ▸ Directives.flat_default_of_lead lead (by decide) (by decide)
  have notModel : directives.isModel card.keyword = false := by
    subst spellings
    cases model : Directives.isModel {} card.keyword with
    | false => rfl
    | true => exact absurd (lead.symm.trans (Text.head?_of_sameLetters_point model)) (by decide)
  have first : outline directives (card :: rest) = .line card :: outline directives rest := by
    unfold outline
    rw [outlineFrom, if_pos]
    simp [Card.nestAfter, flat.notStart, flat.notEnd]
  intro library
  have declares := library.declares (.line card) (first ▸ List.mem_cons_self ..)
  simp [Section.declares, live, flat.notParam, notModel] at declares

/-- The first line of a library begins a statement. -/
theorem IsLibrary.begins {lines : List Text} {number : Nat} (spellings : directives = {})
    (library : (readFrom [] number lines).IsLibrary directives policy) :
    continues lines = false := by
  induction lines generalizing number with
  | nil => rfl
  | cons line rest ih =>
      rw [readFrom] at library
      rw [continues]
      split at library
      next blank =>
        rw [if_pos blank]
        exact ih library
      next filled =>
        rw [if_neg filled]
        by_cases plus : (Text.trim line).head? = some '+'
        · obtain ⟨letters, trimmed⟩ := List.head?_eq_some_iff.mp plus
          rw [trimmed] at library
          obtain ⟨more, cards, read⟩ :=
            readFrom_singleton (Card.ofLine ('+' :: letters) number) (number + 1) rest
          exact absurd (read ▸ library) (not_isLibrary_of_plus spellings rfl rfl cards)
        · simpa using plus

end Deck

end Netlist

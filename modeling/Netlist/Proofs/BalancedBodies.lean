import Netlist.Proofs.Flatness
import Netlist.Proofs.Partition

/-!
# Balanced bodies

The body of a definition that extraction stores is balanced: it has the cards
between a start and the end that matches it, and neither the ties in front nor
the parameter statements that are taken out change which inner definitions are
open.  So a further extraction of the body meets no end without a start and no
definition that is never closed, and the same is true of the definitions in
it.
-/

namespace Netlist

/-- Starts and ends are spelled with a point in front. -/
def Directives.Dotted (directives : Directives) : Prop :=
  ∀ spelling ∈ directives.starts ++ directives.ends, spelling.head? = some '.'

instance (directives : Directives) : Decidable directives.Dotted :=
  inferInstanceAs (Decidable (∀ spelling ∈ directives.starts ++ directives.ends, _))

/-- A keyword without a point in front starts and ends nothing. -/
theorem Directives.Dotted.plain {directives : Directives} (dotted : directives.Dotted)
    {keyword : Text} (pointless : keyword.head? ≠ some '.') :
    directives.isStart keyword = false ∧ directives.isEnd keyword = false := by
  have unspelled {spellings : List Text}
      (among : ∀ spelling ∈ spellings, spelling ∈ directives.starts ++ directives.ends) :
      spellings.any (fun spelling => Text.sameLetters spelling keyword) = false := by
    rw [List.any_eq_false]
    intro spelling member same
    obtain ⟨letters, rfl⟩ := List.head?_eq_some_iff.mp (dotted spelling (among spelling member))
    exact pointless (Text.head?_of_sameLetters_point same)
  constructor
  · exact unspelled fun spelling member => List.mem_append_left _ member
  · exact unspelled fun spelling member => List.mem_append_right _ member

/-- A fault of how definitions are nested: an end too many or an end too few. -/
def Fault.isOfNesting : Fault → Bool
  | .endWithoutStart _ | .unterminated _ => true
  | _ => false

/-! ## Bodies -/

namespace Deck

variable {directives : Directives}

/-- Cards that delimit nothing may stand in front. -/
theorem BalancedFrom.behind {nest : Nat} {front back : Deck}
    (balanced : back.BalancedFrom directives nest)
    (plain : ∀ card ∈ front, card.opens directives = false ∧ card.closes directives = false) :
    (front ++ back).BalancedFrom directives nest := by
  induction front with
  | nil => exact balanced
  | cons card rest ih =>
      obtain ⟨⟨notOpens, notCloses⟩, later⟩ := List.forall_mem_cons.mp plain
      apply balancedFrom_cons_iff.mpr
      rw [Card.nestAfter_of_neither notOpens notCloses]
      constructor
      · intro closes
        rw [notCloses] at closes
        cases closes
      · exact ih later

/-- Taking the parameter statements out leaves the starts and the ends. -/
theorem BalancedFrom.takeParams {nest : Nat} {deck : Deck}
    (balanced : deck.BalancedFrom directives nest) (bound : Bindings) :
    (Definition.takeParams directives nest bound deck).2.BalancedFrom directives nest := by
  induction deck generalizing nest bound with
  | nil => exact balanced
  | cons card rest ih =>
      obtain ⟨within, later⟩ := balancedFrom_cons_iff.mp balanced
      rw [Definition.takeParams_cons]
      dsimp only
      split
      next own =>
        -- the statement is disabled, and where it stood as many definitions are open as before
        rw [Definition.nestAfter_of_isOwnParam directives own] at later ⊢
        apply balancedFrom_cons_iff.mpr
        rw [Card.nestAfter_of_idle directives (Card.isLive_disable card)]
        constructor
        · intro closes
          simp [Card.closes, Card.isLive_disable] at closes
        · exact ih later _
      · exact balancedFrom_cons_iff.mpr ⟨within, ih later _⟩

end Deck

theorem Formals.plain_of_mem_separate {directives : Directives} (dotted : directives.Dotted)
    {policy : CasePolicy} {formals : List Text} {card : Card}
    (member : card ∈ (separate policy formals).2) :
    card.opens directives = false ∧ card.closes directives = false := by
  obtain ⟨count, formal, image, rfl⟩ := exists_tie_of_mem_separateFrom member
  have pointless : (tie count formal image).keyword.head? ≠ some '.' := by
    rw [head?_keyword_tie]
    decide
  obtain ⟨notStart, notEnd⟩ := dotted.plain pointless
  simp [Card.opens, Card.closes, notStart, notEnd]

/-- A definition that is built from balanced cards has a balanced body. -/
theorem Definition.balanced_build {directives : Directives} (dotted : directives.Dotted)
    {body : Deck} (balanced : body.Balanced directives) (policy : CasePolicy) (header : Header)
    (number : Nat) : (build directives policy header body number).body.Balanced directives := by
  apply (balanced.takeParams ⟨header.defaults, .empty⟩).behind
  intro card member
  exact Formals.plain_of_mem_separate dotted member

/-! ## Extraction -/

/-- The cards of an open definition so far. -/
def OpenDefinition.block (opened : OpenDefinition) : OpenBlock :=
  ⟨opened.start, opened.body, opened.nest + 1⟩

namespace Extraction

variable {directives : Directives} {policy : CasePolicy} {phase : Phase}

/-- In what is open, no inner definition ends too early. -/
def ProperSoFar (directives : Directives) (opened : Option OpenDefinition) : Prop :=
  ∀ inner, opened = some inner → inner.block.Proper directives

/-- The definition was built from balanced cards. -/
def BuiltBalanced (directives : Directives) (definition : Definition) : Prop :=
  ∃ policy header body number, body.Balanced directives ∧
    definition = Definition.build directives policy header body number

/-- A live card inside a definition is added to its cards. -/
theorem Takes.block_eq {card image : Card} {opened inner : OpenDefinition}
    {table found : DefinitionTable} {warnings : List Warning}
    (takes : Takes directives policy card (some opened) table image (some inner) found warnings)
    (live : card.isLive = true) : inner.block = opened.block.push directives card := by
  have count : inner.nest + 1 = card.nestAfter directives (opened.nest + 1) := takes.nesting_eq
  unfold OpenDefinition.block OpenBlock.push
  rw [count]
  cases takes with
  | idle opened table idle =>
      rw [idle] at live
      cases live
  | enter => rfl
  | leave => rfl
  | push => rfl

theorem Takes.proper_inside {card image : Card} {opened inner : OpenDefinition}
    {table found : DefinitionTable} {warnings : List Warning}
    (takes : Takes directives policy card (some opened) table image (some inner) found warnings)
    (live : card.isLive = true) (proper : ProperSoFar directives (some opened)) :
    ProperSoFar directives (some inner) := by
  have count : inner.nest + 1 = card.nestAfter directives (opened.nest + 1) := takes.nesting_eq
  rintro _ ⟨⟩
  rw [takes.block_eq live]
  apply (proper opened rfl).push
  show card.nestAfter directives (opened.nest + 1) ≠ 0
  omega

/-- A card leaves what is open proper.  Where it closes a definition, the cards inside are
balanced. -/
theorem Takes.proper {card image : Card} {opened next : Option OpenDefinition}
    {table found : DefinitionTable} {warnings : List Warning}
    (takes : Takes directives policy card opened table image next found warnings)
    (proper : ProperSoFar directives opened) :
    ProperSoFar directives next ∧
      ∀ entry ∈ found.entries, entry ∈ table.entries ∨ BuiltBalanced directives entry.2 := by
  have taken := takes
  cases takes with
  | idle opened table idle => exact ⟨proper, fun entry member => .inl member⟩
  | begin table header live starts named =>
      refine ⟨?_, fun entry member => .inl member⟩
      rintro _ ⟨⟩
      exact OpenBlock.proper_start (by simp [Card.opens, live, starts])
  | enter opened table live starts =>
      exact ⟨taken.proper_inside live proper, fun entry member => .inl member⟩
  | close opened table built live notStart ends outermost whole =>
      have last : card.nestAfter directives opened.block.nest = 0 := by
        simp [OpenDefinition.block, Card.nestAfter, live, notStart, ends, outermost]
      obtain ⟨-, balanced⟩ := (proper opened rfl).closed last
      constructor
      · intro inner impossible
        cases impossible
      · intro entry member
        rcases NameTable.mem_enter member with here | there
        · rw [here]
          exact .inr ⟨policy, opened.header, opened.body, opened.start.number, balanced, whole⟩
        · exact .inl there
  | leave opened table live notStart ends inner =>
      exact ⟨taken.proper_inside live proper, fun entry member => .inl member⟩
  | push opened table live notStart notEnd =>
      exact ⟨taken.proper_inside live proper, fun entry member => .inl member⟩
  | keep table live notStart notEnd => exact ⟨proper, fun entry member => .inl member⟩

/-- Whatever extraction enters, it has built from balanced cards, also if it fails later on. -/
theorem builtBalanced_of_mem_runFrom {opened : Option OpenDefinition} {table : DefinitionTable}
    {deck : Deck} (proper : ProperSoFar directives opened) {entry : Text × Definition}
    (member : entry ∈ (runFrom directives policy phase opened table deck).definitions.entries) :
    entry ∈ table.entries ∨ BuiltBalanced directives entry.2 := by
  induction deck generalizing opened table with
  | nil => exact .inl member
  | cons card rest ih =>
      rcases runFrom_cons directives policy phase opened table card rest with
        ⟨fault, stopped⟩ | ⟨image, next, found, warnings, takes, went⟩
      · rw [stopped] at member
        exact .inl member
      · rw [went] at member
        obtain ⟨further, entered⟩ := takes.proper proper
        rcases ih further member with known | built
        · exact entered entry known
        · exact .inr built

theorem ofCard_eq_error {card : Card} {fault : Fault} (failed : Header.ofCard card = .error fault) :
    fault = .missingName card.keyword := by
  unfold Header.ofCard at failed
  split at failed
  · cases failed
  · exact (Except.error.inj failed).symm

/-- Extraction of balanced cards fails for want of a name at most. -/
theorem not_isOfNesting_of_balanced {opened : Option OpenDefinition} {table : DefinitionTable}
    {deck : Deck} (balanced : deck.BalancedFrom directives (nesting opened))
    {diagnosis : Diagnosis}
    (failed : (runFrom directives policy phase opened table deck).failure = some diagnosis) :
    diagnosis.fault.isOfNesting = false := by
  induction deck generalizing opened table with
  | nil =>
      have closed := Deck.balancedFrom_nil_iff.mp balanced
      cases opened with
      | none => cases failed
      | some opened => cases closed
  | cons card rest ih =>
      obtain ⟨within, later⟩ := Deck.balancedFrom_cons_iff.mp balanced
      rcases takes_or_stops directives policy opened table card with
        ⟨fault, stops⟩ | ⟨image, next, found, warnings, takes⟩
      · rw [stops.runFrom_eq phase] at failed
        cases failed
        cases stops with
        | unnamed fault live starts unnamed =>
            rw [ofCard_eq_error unnamed]
            rfl
        | stray live notStart ends =>
            have closes : card.closes directives = true := by
              simp [Card.closes, live, notStart, ends]
            exact absurd (within closes) (Nat.lt_irrefl 0)
      · rw [takes.runFrom_eq phase] at failed
        rw [← takes.nesting_eq] at later
        exact ih later failed

/-- The table has the definition once some cards of the deck are taken, and did not have it
before: extraction stores the definition, whatever becomes of it and of the rest of the deck. -/
def Stores (directives : Directives) (deck : Deck) (definition : Definition) : Prop :=
  ∃ policy phase table front, front <+: deck ∧
    ∃ entry ∈ (run directives policy phase table front).definitions.entries,
      entry ∉ table.entries ∧ entry.2 = definition

/-- A definition that is stored from a deck, or from the body of such a definition, to any
depth. -/
inductive Nested (directives : Directives) (deck : Deck) : Definition → Prop where
  | outermost {definition : Definition} (stores : Stores directives deck definition) :
      Nested directives deck definition
  | inner {outer definition : Definition} (around : Nested directives deck outer)
      (stores : Stores directives outer.body definition) : Nested directives deck definition

theorem Stores.balanced (dotted : directives.Dotted) {deck : Deck} {definition : Definition}
    (stores : Stores directives deck definition) : definition.body.Balanced directives := by
  obtain ⟨policy, phase, table, front, -, entry, member, unknown, rfl⟩ := stores
  have closed : ProperSoFar directives none := by
    intro inner impossible
    cases impossible
  rcases builtBalanced_of_mem_runFrom closed member with known | built
  · exact absurd known unknown
  · obtain ⟨policy, header, body, number, balanced, whole⟩ := built
    rw [whole]
    exact Definition.balanced_build dotted balanced policy header number

theorem Nested.balanced (dotted : directives.Dotted) {deck : Deck} {definition : Definition}
    (nested : Nested directives deck definition) : definition.body.Balanced directives := by
  cases nested with
  | outermost stores => exact stores.balanced dotted
  | inner around stores => exact stores.balanced dotted

theorem stores_of_get? {deck : Deck} {name : Text} {definition : Definition}
    (found : (run directives policy phase .empty deck).definitions.get? name = some definition) :
    Stores directives deck definition := by
  obtain ⟨entry, member, rfl⟩ := NameTable.exists_mem_of_get? found
  exact ⟨policy, phase, .empty, deck, List.prefix_refl _, entry, member, List.not_mem_nil, rfl⟩

theorem sourced_of_run (dotted : directives.Dotted) {given : Definition → Prop}
    {table : DefinitionTable}
    (known : ∀ entry ∈ table.entries, given entry.2 ∨ entry.2.body.Balanced directives)
    (deck : Deck) :
    ∀ entry ∈ (run directives policy phase table deck).definitions.entries,
      given entry.2 ∨ entry.2.body.Balanced directives := by
  intro entry member
  by_cases before : entry ∈ table.entries
  · exact known entry before
  · have stores : Stores directives deck entry.2 :=
      ⟨policy, phase, table, deck, List.prefix_refl _, entry, member, before, rfl⟩
    exact .inr (stores.balanced dotted)

end Extraction

end Netlist

import Netlist.Proofs.Outline

/-!
# Balanced decks

Live start and end cards are like parentheses.  Extraction accepts a deck just
in case these are balanced and every outermost start carries a name.
-/

namespace Netlist

namespace Card

variable (directives : Directives)

/-- A live card that starts a definition. -/
def opens (card : Card) : Bool := card.isLive && directives.isStart card.keyword

/-- A live card that ends a definition; one that also starts one counts as a start. -/
def closes (card : Card) : Bool :=
  card.isLive && !directives.isStart card.keyword && directives.isEnd card.keyword

/-- Behind the keyword and before the assignments there is a word that means something. -/
def carriesName (card : Card) : Bool :=
  !(Word.operands ((Word.split (Text.positional card.text)).drop 1)).isEmpty

theorem carriesName_iff {card : Card} :
    card.carriesName = true ↔ ∃ header, Header.read? card.text = some header := by
  unfold carriesName Header.read?
  cases Word.operands ((Word.split (Text.positional card.text)).drop 1) <;> simp

variable {directives} {card : Card}

theorem closes_of_opens (opens : card.opens directives = true) :
    card.closes directives = false := by
  unfold Card.opens at opens
  rw [Bool.and_eq_true] at opens
  simp [closes, opens.2]

theorem nestAfter_of_opens (opens : card.opens directives = true) (nest : Nat) :
    card.nestAfter directives nest = nest + 1 := by
  unfold Card.opens at opens
  rw [Bool.and_eq_true] at opens
  simp [nestAfter, opens.1, opens.2]

theorem nestAfter_of_closes (closes : card.closes directives = true) (nest : Nat) :
    card.nestAfter directives nest = nest - 1 := by
  simp only [Card.closes, Bool.and_eq_true, Bool.not_eq_true'] at closes
  simp [nestAfter, closes.1.1, closes.1.2, closes.2]

theorem nestAfter_of_neither (notOpens : card.opens directives = false)
    (notCloses : card.closes directives = false) (nest : Nat) :
    card.nestAfter directives nest = nest := by
  unfold nestAfter
  cases live : card.isLive with
  | false => rfl
  | true =>
      have notStart : directives.isStart card.keyword = false := by
        simpa [opens, live] using notOpens
      have notEnd : directives.isEnd card.keyword = false := by
        simpa [closes, live, notStart] using notCloses
      simp [notStart, notEnd]

end Card

namespace Deck

variable (directives : Directives)

/-- How many live cards start a definition. -/
def starts (deck : Deck) : Nat := deck.countP (Card.opens directives)

/-- How many live cards end a definition. -/
def ends (deck : Deck) : Nat := deck.countP (Card.closes directives)

/-- Behind `nest` starts no end comes too early, and in the end all starts are matched. -/
structure BalancedFrom (nest : Nat) (deck : Deck) : Prop where
  prefixes : ∀ front : Deck, front <+: deck → front.ends directives ≤ nest + front.starts directives
  total : deck.ends directives = nest + deck.starts directives

/-- Every part in front has at least as many starts as ends, and the whole has equally many. -/
abbrev Balanced (deck : Deck) : Prop := deck.BalancedFrom directives 0

/-- Behind `nest` starts, every start that stands where all are matched carries a name. -/
def OutermostNamed (nest : Nat) (deck : Deck) : Prop :=
  ∀ (before : Deck) start after, deck = before ++ start :: after → start.opens directives = true →
    before.ends directives = nest + before.starts directives → start.carriesName = true

variable {directives}

/-- What a card adds to the starts or the ends, it adds to the nesting or takes away from it. -/
theorem count_cons {nest : Nat} {card : Card} (within : card.closes directives = true → 0 < nest)
    (front : Deck) :
    nest + starts directives (card :: front) + front.ends directives =
      card.nestAfter directives nest + front.starts directives +
        ends directives (card :: front) := by
  unfold starts ends
  rw [List.countP_cons, List.countP_cons]
  cases opens : card.opens directives with
  | true =>
      rw [Card.closes_of_opens opens, Card.nestAfter_of_opens opens]
      simp only [if_true, Bool.false_eq_true, if_false]
      omega
  | false =>
      cases closes : card.closes directives with
      | true =>
          have some := within closes
          rw [Card.nestAfter_of_closes closes]
          simp only [Bool.false_eq_true, if_false, if_true]
          omega
      | false =>
          rw [Card.nestAfter_of_neither opens closes]
          simp only [Bool.false_eq_true, if_false]
          omega

theorem balancedFrom_nil_iff {nest : Nat} : BalancedFrom directives nest [] ↔ nest = 0 := by
  constructor
  · intro balanced
    exact (Nat.add_eq_zero_iff.mp balanced.total.symm).1
  · rintro rfl
    refine ⟨?_, rfl⟩
    intro front isPrefix
    rw [List.prefix_nil.mp isPrefix]
    exact Nat.le_refl 0

theorem balancedFrom_cons_iff {nest : Nat} {card : Card} {rest : Deck} :
    BalancedFrom directives nest (card :: rest) ↔
      (card.closes directives = true → 0 < nest) ∧
        rest.BalancedFrom directives (card.nestAfter directives nest) := by
  constructor
  · intro balanced
    have within : card.closes directives = true → 0 < nest := by
      intro closes
      have here := balanced.prefixes [card] (List.prefix_append [card] rest)
      have notOpens : card.opens directives = false := by
        cases opens : card.opens directives with
        | false => rfl
        | true => rw [Card.closes_of_opens opens] at closes; cases closes
      have counted : 1 ≤ nest := by simpa [starts, ends, closes, notOpens] using here
      exact counted
    refine ⟨within, ?_, ?_⟩
    · intro front isPrefix
      have longer := balanced.prefixes (card :: front) (List.cons_prefix_cons.mpr ⟨rfl, isPrefix⟩)
      have step := count_cons within front
      omega
    · have whole := balanced.total
      have step := count_cons within rest
      omega
  · rintro ⟨within, balanced⟩
    constructor
    · intro front isPrefix
      rcases List.prefix_cons_iff.mp isPrefix with rfl | ⟨later, rfl, isLater⟩
      · exact Nat.zero_le _
      · have shorter := balanced.prefixes later isLater
        have step := count_cons within later
        omega
    · have whole := balanced.total
      have step := count_cons within rest
      omega

theorem outermostNamed_nil {nest : Nat} : OutermostNamed directives nest [] := by
  intro before start after cut
  simp at cut

theorem outermostNamed_cons_iff {nest : Nat} {card : Card} {rest : Deck}
    (within : card.closes directives = true → 0 < nest) :
    OutermostNamed directives nest (card :: rest) ↔
      (card.opens directives = true → nest = 0 → card.carriesName = true) ∧
        rest.OutermostNamed directives (card.nestAfter directives nest) := by
  constructor
  · intro named
    constructor
    · rintro opens rfl
      exact named [] card rest rfl opens rfl
    · intro before start after cut opens outermost
      apply named (card :: before) start after (by rw [cut]; rfl) opens
      have step := count_cons within before
      omega
  · rintro ⟨here, later⟩ before start after cut opens outermost
    cases before with
    | nil =>
        cases cut
        exact here opens (Nat.add_eq_zero_iff.mp outermost.symm).1
    | cons first before =>
        obtain ⟨rfl, tail⟩ := List.cons.inj cut
        apply later before start after tail opens
        have step := count_cons within before
        omega

/-- Cards that are not live do not matter for the balance. -/
theorem BalancedFrom.live {nest : Nat} {deck : Deck}
    (balanced : deck.BalancedFrom directives nest) :
    deck.live.BalancedFrom directives nest := by
  induction deck generalizing nest with
  | nil => exact balanced
  | cons card rest ih =>
      obtain ⟨within, later⟩ := balancedFrom_cons_iff.mp balanced
      cases live : card.isLive with
      | true =>
          rw [Deck.live, List.filter_cons_of_pos live]
          exact balancedFrom_cons_iff.mpr ⟨within, ih later⟩
      | false =>
          rw [Card.nestAfter_of_idle directives live] at later
          rw [Deck.live, List.filter_cons_of_neg (by simp [live])]
          exact ih later

end Deck

/-! ## Which decks are accepted -/

namespace Extraction

variable {directives : Directives} {policy : CasePolicy} {phase : Phase}

theorem Takes.within {card image : Card} {opened next : Option OpenDefinition}
    {table found : DefinitionTable} {warnings : List Warning}
    (takes : Takes directives policy card opened table image next found warnings) :
    card.closes directives = true → 0 < nesting opened := by
  intro closes
  simp only [Card.closes, Bool.and_eq_true, Bool.not_eq_true'] at closes
  obtain ⟨⟨live, notStart⟩, ends⟩ := closes
  cases takes with
  | idle opened table idle => rw [idle] at live; cases live
  | begin table header live starts named => rw [starts] at notStart; cases notStart
  | keep table live notStart notEnd => rw [notEnd] at ends; cases ends
  | enter => exact Nat.succ_pos _
  | close => exact Nat.succ_pos _
  | leave => exact Nat.succ_pos _
  | push => exact Nat.succ_pos _

theorem Takes.named {card image : Card} {opened next : Option OpenDefinition}
    {table found : DefinitionTable} {warnings : List Warning}
    (takes : Takes directives policy card opened table image next found warnings) :
    card.opens directives = true → nesting opened = 0 → card.carriesName = true := by
  intro opens outermost
  simp only [Card.opens, Bool.and_eq_true] at opens
  obtain ⟨live, starts⟩ := opens
  cases takes with
  | idle opened table idle => rw [idle] at live; cases live
  | begin table header live starts named =>
      exact Card.carriesName_iff.mpr ⟨header, ofCard_eq_ok_iff.mp named⟩
  | keep table live notStart notEnd => rw [notStart] at starts; cases starts
  | enter => cases outermost
  | close => cases outermost
  | leave => cases outermost
  | push => cases outermost

/-- A card that stops extraction breaks the balance or is an outermost start without a name. -/
theorem Stops.unbalanced {card : Card} {opened : Option OpenDefinition} {fault : Fault}
    (stops : Stops directives card opened fault) {rest : Deck} :
    ¬ (Deck.BalancedFrom directives (nesting opened) (card :: rest) ∧
      Deck.OutermostNamed directives (nesting opened) (card :: rest)) := by
  rintro ⟨balanced, named⟩
  obtain ⟨within, -⟩ := Deck.balancedFrom_cons_iff.mp balanced
  cases stops with
  | unnamed fault live starts unnamed =>
      have opens : card.opens directives = true := by simp [Card.opens, live, starts]
      have carries := ((Deck.outermostNamed_cons_iff within).mp named).1 opens rfl
      obtain ⟨header, read⟩ := Card.carriesName_iff.mp carries
      rw [ofCard_eq_ok_iff.mpr read] at unnamed
      cases unnamed
  | stray live notStart ends =>
      have closes : card.closes directives = true := by simp [Card.closes, live, notStart, ends]
      exact absurd (within closes) (Nat.lt_irrefl 0)

theorem failure_runFrom_eq_none_iff {opened : Option OpenDefinition} {table : DefinitionTable}
    {deck : Deck} :
    (runFrom directives policy phase opened table deck).failure = none ↔
      deck.BalancedFrom directives (nesting opened) ∧
        deck.OutermostNamed directives (nesting opened) := by
  induction deck generalizing opened table with
  | nil =>
      have closed : (runFrom directives policy phase opened table []).failure = none ↔
          nesting opened = 0 := by
        cases opened <;> simp [runFrom, nesting]
      rw [closed, Deck.balancedFrom_nil_iff]
      exact ⟨fun none => ⟨none, Deck.outermostNamed_nil⟩, And.left⟩
  | cons card rest ih =>
      rcases takes_or_stops directives policy opened table card with
        ⟨fault, stops⟩ | ⟨image, next, found, warnings, takes⟩
      · rw [stops.runFrom_eq phase table rest]
        constructor
        · intro impossible
          cases impossible
        · intro accepted
          exact absurd accepted stops.unbalanced
      · rw [takes.runFrom_eq phase rest, Deck.balancedFrom_cons_iff,
          Deck.outermostNamed_cons_iff takes.within, ← takes.nesting_eq]
        constructor
        · intro ok
          obtain ⟨balanced, named⟩ := ih.mp ok
          exact ⟨⟨takes.within, balanced⟩, takes.named, named⟩
        · rintro ⟨⟨-, balanced⟩, -, named⟩
          exact ih.mpr ⟨balanced, named⟩

end Extraction

end Netlist

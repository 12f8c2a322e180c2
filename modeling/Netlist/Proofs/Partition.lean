import Netlist.Proofs.Balance

/-!
# What extraction makes of a balanced deck

A balanced deck falls into sections: cards that delimit nothing, and whole
definitions, from an outermost start to the end that matches it.  Extraction
disables the live cards of the definitions and nothing else.  It enters one
definition for each of them, whose body has the live cards between start and
end, and warns of every name that was known before.
-/

namespace Netlist

/-- An open definition in which no inner one ends too early. -/
structure OpenBlock.Proper (directives : Directives) (opened : OpenBlock) : Prop where
  starts : opened.start.opens directives = true
  prefixes : ∀ front : Deck, front <+: opened.body →
    front.ends directives ≤ front.starts directives
  nest_eq : opened.nest + opened.body.ends directives = opened.body.starts directives + 1

namespace OpenBlock

variable {directives : Directives} {opened : OpenBlock}

theorem Proper.pos (proper : opened.Proper directives) : 0 < opened.nest := by
  have whole := proper.prefixes opened.body (List.prefix_refl _)
  have count := proper.nest_eq
  omega

theorem proper_start {card : Card} (opens : card.opens directives = true) :
    Proper directives { start := card } := by
  refine ⟨opens, ?_, rfl⟩
  intro front isPrefix
  rw [List.prefix_nil.mp isPrefix]
  exact Nat.le_refl 0

theorem Proper.push (proper : opened.Proper directives) {card : Card}
    (stays : card.nestAfter directives opened.nest ≠ 0) :
    (opened.push directives card).Proper directives := by
  have counted : card.nestAfter directives opened.nest +
      Deck.ends directives (opened.body ++ [card]) =
        Deck.starts directives (opened.body ++ [card]) + 1 := by
    have step : opened.nest + Deck.starts directives [card] =
        card.nestAfter directives opened.nest + Deck.ends directives [card] :=
      Deck.count_cons (fun _ => proper.pos) []
    have before := proper.nest_eq
    unfold Deck.starts Deck.ends at step before ⊢
    rw [List.countP_append, List.countP_append]
    omega
  refine ⟨proper.starts, ?_, counted⟩
  intro front isPrefix
  rcases List.prefix_concat_iff.mp isPrefix with rfl | shorter
  · omega
  · exact proper.prefixes front shorter

/-- Where the last open definition ends, the cards in it are balanced. -/
theorem Proper.closed (proper : opened.Proper directives) {card : Card}
    (last : card.nestAfter directives opened.nest = 0) :
    card.closes directives = true ∧ opened.body.Balanced directives := by
  have some := proper.pos
  have closes : card.closes directives = true := by
    cases opens : card.opens directives with
    | true =>
        rw [Card.nestAfter_of_opens opens] at last
        cases last
    | false =>
        cases closes : card.closes directives with
        | true => rfl
        | false =>
            rw [Card.nestAfter_of_neither opens closes] at last
            omega
  rw [Card.nestAfter_of_closes closes] at last
  have count := proper.nest_eq
  refine ⟨closes, ?_, by omega⟩
  intro front isPrefix
  have inside := proper.prefixes front isPrefix
  omega

end OpenBlock

namespace Section

variable (directives : Directives)

/-- A card that delimits no definition, or a whole definition: its start, cards that are balanced
and its end. -/
def Proper : Section → Prop
  | line card => card.opens directives = false ∧ card.closes directives = false
  | block start body stop =>
      start.opens directives = true ∧ body.Balanced directives ∧ stop.closes directives = true
  | unclosed _ _ => False

/-- The cards of a section once its definition is lifted out. -/
def left : Section → Deck
  | line card => [card]
  | block start body stop => (start :: body ++ [stop]).map Card.disable
  | unclosed start body => (start :: body).map Card.disable

end Section

namespace Deck

variable {directives : Directives}

theorem opens_of_nestAfter {card : Card} (deeper : card.nestAfter directives 0 ≠ 0) :
    card.opens directives = true := by
  cases opens : card.opens directives with
  | true => rfl
  | false =>
      cases closes : card.closes directives with
      | true =>
          rw [Card.nestAfter_of_closes closes] at deeper
          exact absurd rfl deeper
      | false =>
          rw [Card.nestAfter_of_neither opens closes] at deeper
          exact absurd rfl deeper

/-- A card of its own in an outline delimits nothing. -/
theorem proper_line {card : Card} (outside : card.nestAfter directives 0 = 0)
    (sound : (Section.line card).Sound directives) : (Section.line card).Proper directives := by
  constructor
  · cases opens : card.opens directives with
    | false => rfl
    | true =>
        rw [Card.nestAfter_of_opens opens] at outside
        cases outside
  · cases closes : card.closes directives with
    | false => rfl
    | true =>
        simp only [Card.closes, Bool.and_eq_true] at closes
        have notEnd := sound closes.1.1
        rw [closes.2] at notEnd
        cases notEnd

theorem proper_of_sound {opened : Option OpenBlock} {deck : Deck}
    (proper : ∀ block, opened = some block → block.Proper directives)
    (sound : ∀ part ∈ outlineFrom directives opened deck, part.Sound directives) :
    ∀ part ∈ outlineFrom directives opened deck, part.Proper directives := by
  induction deck generalizing opened with
  | nil =>
      cases opened with
      | none => intro part member; cases member
      | some block => exact absurd (sound _ (List.mem_singleton.mpr rfl)) id
  | cons card rest ih =>
      cases opened with
      | none =>
          rw [outlineFrom] at sound ⊢
          split at sound
          next outside =>
            rw [if_pos outside]
            have later := @ih none (fun _ none => by cases none) fun part member =>
              sound part (List.mem_cons_of_mem _ member)
            intro part member
            rcases List.mem_cons.mp member with rfl | behind
            · exact proper_line outside (sound _ (List.mem_cons_self ..))
            · exact later part behind
          next deeper =>
            rw [if_neg deeper]
            refine ih ?_ sound
            rintro block ⟨⟩
            exact OpenBlock.proper_start (opens_of_nestAfter deeper)
      | some block =>
          have inside := proper block rfl
          rw [outlineFrom] at sound ⊢
          split at sound
          next last =>
            rw [if_pos last]
            have later := @ih none (fun _ none => by cases none) fun part member =>
              sound part (List.mem_cons_of_mem _ member)
            intro part member
            rcases List.mem_cons.mp member with rfl | behind
            · obtain ⟨closes, balanced⟩ := inside.closed last
              exact ⟨inside.starts, balanced, closes⟩
            · exact later part behind
          next stays =>
            rw [if_neg stays]
            refine ih ?_ sound
            rintro next ⟨⟩
            exact inside.push stays

theorem disable_of_isLifted (directives : Directives) {nest : Nat} (inside : 0 < nest)
    (card : Card) :
    (if card.isLifted directives nest then card.disable else card) = card.disable := by
  have deep : (nest != 0) = true := by simpa using Nat.ne_of_gt inside
  cases live : card.isLive with
  | true => simp [Card.isLifted, live, deep]
  | false =>
      have disabled : card.disabled = true := by simpa [Card.isLive] using live
      obtain ⟨text, number, note, flag⟩ := card
      cases disabled
      simp [Card.disable]

/-- What is left of the sections is the deck with the cards of definitions disabled. -/
theorem flatMap_left_outlineFrom {opened : Option OpenBlock} {deck : Deck}
    (proper : ∀ block, opened = some block → block.Proper directives)
    (sound : ∀ part ∈ outlineFrom directives opened deck, part.Sound directives) :
    (outlineFrom directives opened deck).flatMap Section.left =
      (opened.map fun block => (block.start :: block.body).map Card.disable).getD [] ++
        deck.liftDefinitions directives ((opened.map OpenBlock.nest).getD 0) := by
  induction deck generalizing opened with
  | nil =>
      cases opened with
      | none => rfl
      | some block => exact absurd (sound _ (List.mem_singleton.mpr rfl)) id
  | cons card rest ih =>
      cases opened with
      | none =>
          rw [outlineFrom] at sound ⊢
          rw [liftDefinitions]
          split at sound
          next outside =>
            obtain ⟨notOpens, notCloses⟩ := proper_line outside (sound _ (List.mem_cons_self ..))
            have later := @ih none (fun _ none => by cases none) fun part member =>
              sound part (List.mem_cons_of_mem _ member)
            have kept : card.isLifted directives 0 = false := by
              cases live : card.isLive with
              | false => simp [Card.isLifted, live]
              | true =>
                  have notStart : directives.isStart card.keyword = false := by
                    simpa [Card.opens, live] using notOpens
                  have notEnd : directives.isEnd card.keyword = false := by
                    simpa [Card.closes, live, notStart] using notCloses
                  simp [Card.isLifted, notStart, notEnd]
            rw [if_pos outside, List.flatMap_cons, later]
            simp [kept, outside, Section.left]
          next deeper =>
            have opens := opens_of_nestAfter deeper
            have later := @ih (some { start := card })
              (by rintro block ⟨⟩; exact OpenBlock.proper_start opens) sound
            have lifted : card.isLifted directives 0 = true := by
              simp only [Card.opens, Bool.and_eq_true] at opens
              simp [Card.isLifted, opens.1, opens.2]
            rw [if_neg deeper, later]
            simp [lifted, Card.nestAfter_of_opens opens]
      | some block =>
          have inside := proper block rfl
          have lifted := disable_of_isLifted directives inside.pos card
          rw [outlineFrom] at sound ⊢
          rw [liftDefinitions]
          split at sound
          next last =>
            have later := @ih none (fun _ none => by cases none) fun part member =>
              sound part (List.mem_cons_of_mem _ member)
            rw [if_pos last, List.flatMap_cons, later]
            simp [Section.left, lifted, last]
          next stays =>
            have later := @ih (some (block.push directives card))
              (by rintro next ⟨⟩; exact inside.push stays) sound
            rw [if_neg stays, later]
            simp [OpenBlock.push, lifted]

end Deck

/-! ## Definitions and warnings -/

namespace NameTable

variable {policy : CasePolicy} {α : Type}

theorem insertAll_append (table : NameTable policy α) (first second : List (Text × α)) :
    table.insertAll (first ++ second) = (table.insertAll first).insertAll second :=
  List.foldl_append

theorem contains_insertAll (table : NameTable policy α) (entries : List (Text × α)) (name : Text) :
    (table.insertAll entries).contains name =
      (table.contains name ||
        entries.any fun entry => decide (policy.fold entry.1 = policy.fold name)) := by
  induction entries generalizing table with
  | nil => simp [insertAll]
  | cons first rest ih =>
      calc (table.insertAll (first :: rest)).contains name
          = ((table.insert first.1 first.2).insertAll rest).contains name := rfl
        _ = _ := by
            rw [ih, contains_insert, List.any_cons, Bool.or_left_comm, Bool.or_assoc]

end NameTable

namespace Section

variable {directives : Directives} {policy : CasePolicy}

theorem filterMap_definition?_cons (first : Section) (rest : List Section) :
    (first :: rest).filterMap (definition? directives policy) =
      (first.definition? directives policy).toList ++
        rest.filterMap (definition? directives policy) := by
  rw [List.filterMap_cons]
  cases first.definition? directives policy <;> rfl

theorem redefinitions_append (table : DefinitionTable) (front back : List Section) :
    redefinitions directives policy table (front ++ back) =
      redefinitions directives policy table front ++
        redefinitions directives policy
          (table.insertAll (front.filterMap (definition? directives policy))) back := by
  induction front generalizing table with
  | nil => rfl
  | cons first rest ih =>
      rw [List.cons_append, redefinitions, ih, redefinitions, List.append_assoc,
        filterMap_definition?_cons, NameTable.insertAll_append]

/-- A name is known behind sections if the table has it or one of them defines it. -/
def known (table : DefinitionTable) (before : List Section) (name : Text) : Bool :=
  table.contains name || (before.filterMap name?).any fun own => Text.sameLetters own name

theorem contains_eq_known (table : DefinitionTable) (before : List Section) (name : Text) :
    (table.insertAll (before.filterMap (definition? directives policy))).contains name =
      known table before name := by
  have names : before.filterMap name? =
      (before.filterMap (definition? directives policy)).map Prod.fst := by
    rw [List.map_filterMap]
    apply List.filterMap_congr
    intro part _
    cases part with
    | block start body stop =>
        simp only [name?, definition?, Option.map_map]
        rfl
    | line card => rfl
    | unclosed start body => rfl
  rw [NameTable.contains_insertAll, known, names, List.any_map]
  congr 2
  funext entry
  rw [Bool.eq_iff_iff, decide_eq_true_iff]
  exact (Text.sameLetters_iff _ _).symm

/-- Each definition is judged by the table and the sections before it. -/
theorem redefinitions_eq (table : DefinitionTable) (before after : List Section) :
    redefinitions directives policy
        (table.insertAll (before.filterMap (definition? directives policy))) after =
      (after.zipIdx before.length).filterMap fun (part, i) =>
        part.redefinition? (known table ((before ++ after).take i)) := by
  induction after generalizing before with
  | nil => rfl
  | cons part rest ih =>
      have further := ih (before ++ [part])
      rw [List.filterMap_append, NameTable.insertAll_append, List.append_assoc,
        List.length_append] at further
      have judged : NameTable.contains
          (table.insertAll (before.filterMap (definition? directives policy))) =
          known table ((before ++ part :: rest).take before.length) := by
        funext name
        rw [List.take_left, contains_eq_known]
      have single : [part].filterMap (definition? directives policy) =
          (part.definition? directives policy).toList :=
        (filterMap_definition?_cons part []).trans (List.append_nil _)
      rw [single] at further
      rw [redefinitions, further, judged, List.zipIdx_cons, List.filterMap_cons]
      dsimp only
      cases part.redefinition? (known table ((before ++ part :: rest).take before.length)) <;> rfl

end Section

namespace Extraction

variable {directives : Directives} {policy : CasePolicy} {phase : Phase}

theorem warnings_runFrom {opened : Option OpenDefinition} {block : Option OpenBlock}
    (follows : Follows opened block) {table : DefinitionTable} {deck : Deck}
    (ok : (runFrom directives policy phase opened table deck).failure = none) :
    (runFrom directives policy phase opened table deck).warnings =
      Section.redefinitions directives policy table (Deck.outlineFrom directives block deck) := by
  induction deck generalizing opened block table with
  | nil =>
      cases follows with
      | none => rfl
      | some named start body nest => cases ok
  | cons card rest ih =>
      rcases runFrom_cons directives policy phase opened table card rest with
        ⟨fault, stopped⟩ | ⟨image, next, found, warnings, takes, went⟩
      · rw [stopped] at ok
        cases ok
      · rw [went] at ok ⊢
        obtain ⟨parts, after, follows, split, -, definitions, -, told⟩ := takes.outline follows
        rw [split, Section.redefinitions_append, ← told, ← definitions]
        exact congrArg (warnings ++ ·) (ih follows ok)

end Extraction

/-! ## Bodies -/

/-- A live parameter statement that stands where the cards before it leave no definition open. -/
def Card.isOuterParam (directives : Directives) (nest : Nat) (before : Deck) (card : Card) : Bool :=
  card.isLive && !card.opens directives && !card.closes directives &&
    directives.isParam card.keyword &&
    decide (before.ends directives = nest + before.starts directives)

namespace Definition

variable {directives : Directives}

theorem isOuterParam_nil (nest : Nat) (card : Card) :
    card.isOuterParam directives nest [] = isOwnParam directives nest card := by
  unfold Card.isOuterParam isOwnParam Card.isLifted Card.opens Card.closes Deck.starts Deck.ends
  cases card.isLive <;> cases directives.isStart card.keyword <;>
    cases directives.isEnd card.keyword <;> cases directives.isParam card.keyword <;>
    cases nest <;> rfl

theorem isOuterParam_cons {nest : Nat} {first : Card}
    (within : first.closes directives = true → 0 < nest) (before : Deck) (card : Card) :
    card.isOuterParam directives nest (first :: before) =
      card.isOuterParam directives (first.nestAfter directives nest) before := by
  have step := Deck.count_cons within before
  unfold Card.isOuterParam
  congr 2
  apply propext
  constructor
  · intro outermost
    omega
  · intro outermost
    omega

/-- Of a balanced body exactly the outer parameter statements are taken out. -/
theorem snd_takeParams {nest : Nat} {bound : Bindings} {deck : Deck}
    (balanced : deck.BalancedFrom directives nest) :
    (takeParams directives nest bound deck).2 = deck.mapIdx fun i card =>
      if card.isOuterParam directives nest (deck.take i) then card.disable else card := by
  induction deck generalizing nest bound with
  | nil => rfl
  | cons card rest ih =>
      obtain ⟨within, later⟩ := Deck.balancedFrom_cons_iff.mp balanced
      rw [takeParams_cons]
      dsimp only
      rw [ih later, List.mapIdx_cons, List.take_zero, isOuterParam_nil]
      congr 2
      funext i other
      rw [List.take_succ_cons, isOuterParam_cons within]

end Definition

namespace Extraction

/-- Extraction accepts a deck just in case its starts and ends are balanced and every outermost
start carries a name.  The deck then falls into sections; the live cards of definitions are
disabled, and nothing else changes.  A name has the definition of the last section that defines
it, or else the one it had.  A body has the live cards inside, behind the ties of repeated formals,
and of these the outer parameter statements are disabled.  There is one warning for each
definition whose name the table or a section before has. -/
theorem partitions_balanced_deck (directives : Directives) (policy : CasePolicy) (phase : Phase)
    (table : DefinitionTable) (deck : Deck) :
    ((run directives policy phase table deck).failure = none ↔
      deck.Balanced directives ∧ deck.OutermostNamed directives 0) ∧
    ((run directives policy phase table deck).failure = none →
      ∃ parts : List Section,
        (parts.flatMap Section.cards = deck ∧ ∀ part ∈ parts, part.Proper directives) ∧
        (run directives policy phase table deck).deck = parts.flatMap Section.left ∧
        (∀ name, (run directives policy phase table deck).definitions.find? name =
          ((parts.filterMap (Section.definition? directives policy)).filter fun entry =>
            Text.sameLetters entry.1 name).getLast?.or (table.find? name)) ∧
        (∀ start body stop, .block start body stop ∈ parts →
          ∃ header, Header.read? start.text = some header ∧
            (Definition.build directives policy header body.live start.number).body =
              (Formals.separate policy header.formals).2 ++ body.live.mapIdx fun i card =>
                if card.isOuterParam directives 0 (body.live.take i) then card.disable
                else card) ∧
        (run directives policy phase table deck).warnings =
          parts.zipIdx.filterMap fun (part, i) =>
            part.redefinition? (Section.known table (parts.take i))) := by
  refine ⟨failure_runFrom_eq_none_iff, ?_⟩
  intro ok
  have sound := sound_of_runFrom .none ok
  have closed : ∀ block : OpenBlock, none = some block → block.Proper directives := by
    intro block impossible
    cases impossible
  have proper := Deck.proper_of_sound closed sound
  refine ⟨deck.outline directives, ⟨Deck.flatMap_cards_outline directives deck, proper⟩,
    ?_, ?_, ?_, ?_⟩
  · exact (deck_runFrom phase ok).trans (Deck.flatMap_left_outlineFrom closed sound).symm
  · intro name
    have same : (fun entry : Text × Definition => Text.sameLetters entry.1 name) =
        fun entry => CasePolicy.insensitive.fold entry.1 == CasePolicy.insensitive.fold name := by
      funext entry
      rw [Bool.eq_iff_iff, beq_iff_eq]
      exact Text.sameLetters_iff _ _
    rw [run, (runFrom_of_sound .none sound).2.1, same]
    exact NameTable.find?_insertAll table _ name
  · intro start body stop member
    obtain ⟨-, balanced, -⟩ := proper _ member
    obtain ⟨header, named⟩ := sound _ member
    refine ⟨header, named, ?_⟩
    exact congrArg (_ ++ ·) (Definition.snd_takeParams balanced.live)
  · exact (warnings_runFrom .none ok).trans (Section.redefinitions_eq table [] _)

/-- A definition within another, a comment and a second definition in other letters: only the
second one is warned of, and the card between the two stays live. -/
theorem partitions_balanced_deck_nested :
    let deck := Deck.ofSource (".subckt s a\n*r0 a 0 1\n.param w=1\n.subckt t b\n.param v=2\n" ++
      ".ends\n.ends\nr1 a b 1\n.SUBCKT S c c\nr2 c 0 1\n.eom\n")
    let result := run {} .insensitive .extract .empty deck
    result.warnings.map Warning.number = [11] ∧
      result.deck.live.map Card.number = [8] ∧
      deck.Balanced {} ∧ deck.OutermostNamed {} 0 ∧
      ∃ parts : List Section,
        (parts.flatMap Section.cards = deck ∧ ∀ part ∈ parts, part.Proper {}) ∧
        result.deck = parts.flatMap Section.left := by
  intro deck result
  have ok : result.failure = none := by decide +kernel
  obtain ⟨accepted, falls⟩ := partitions_balanced_deck {} .insensitive .extract .empty deck
  obtain ⟨balanced, named⟩ := accepted.mp ok
  obtain ⟨parts, whole, left, -⟩ := falls ok
  exact ⟨by decide +kernel, by decide +kernel, balanced, named, parts, whole, left⟩

end Extraction

end Netlist

import Netlist.Proofs.Reading

/-!
# Decks that are printed and read again

A deck is printed with each card on a line of its own.  In a deck that was read
from a source, every comment ends with its last character that is not blank,
every statement begins with a character that is neither blank nor a star, and a
statement that begins with a plus has no statement right above it.  So no line
of the printed deck vanishes, turns into a comment or continues another one,
and reading it gives the same cards again.
-/

namespace Netlist

namespace Text

/-! ## Trimmed lines -/

theorem mem_of_mem_trim {text : Text} {c : Char} (member : c ∈ trim text) : c ∈ text := by
  have front : trim text <+: trimStart text := List.rdropWhile_prefix ..
  exact (List.dropWhile_suffix isBlank).subset (front.subset member)

theorem stops_trim (text : Text) : Stops isBlank (trim text) := by
  obtain ⟨cut, whole⟩ : trim text <+: trimStart text := List.rdropWhile_prefix ..
  have stops := trimStart_stops text
  rw [← whole] at stops
  exact stops.of_append

theorem trimEnd_trim (text : Text) : trimEnd (trim text) = trim text :=
  List.rdropWhile_idempotent ..

theorem trim_of_stops {text : Text} (stops : Stops isBlank text) : trim text = trimEnd text := by
  rw [trim, trimStart_of_stops stops]

theorem trimEnd_cons {c : Char} (solid : isBlank c = false) (rest : Text) :
    trimEnd (c :: rest) = c :: trimEnd rest := by
  rw [trimEnd, trimEnd, List.reverse_cons, List.dropWhile_append]
  split
  next nothing => simp [List.isEmpty_iff.mp nothing, solid]
  next => rw [List.reverse_append, List.reverse_singleton, List.singleton_append]

theorem trim_concat {c : Char} (blank : isBlank c = true) (text : Text) :
    trim (text ++ [c]) = trim text := by
  rw [trim, trim, trimStart, trimStart, List.dropWhile_append]
  split
  next nothing => simp [List.isEmpty_iff.mp nothing, blank]
  next => exact List.rdropWhile_concat_pos _ _ _ blank

/-! ## Lines of a text -/

theorem trim_closeLine (reversed : Text) : trim (closeLine reversed) = trim reversed.reverse := by
  unfold closeLine
  split
  next rest =>
    rw [List.reverse_cons]
    exact (trim_concat rfl _).symm
  next => rfl

theorem mem_of_mem_closeLine {reversed : Text} {c : Char} (member : c ∈ closeLine reversed) :
    c ∈ reversed := by
  unfold closeLine at member
  split at member
  next rest => exact List.mem_cons_of_mem _ (List.mem_reverse.mp member)
  next => exact List.mem_reverse.mp member

theorem newline_notMem_linesFrom {reversed : Text} (unfinished : '\n' ∉ reversed) (text : Text) :
    ∀ line ∈ linesFrom reversed text, '\n' ∉ line := by
  induction text generalizing reversed with
  | nil =>
      intro line member
      rw [linesFrom] at member
      split at member
      · cases member
      · rw [List.mem_singleton.mp member, List.mem_reverse]
        exact unfinished
  | cons c rest ih =>
      rw [linesFrom]
      split
      next =>
        refine List.forall_mem_cons.mpr ⟨?_, ih List.not_mem_nil⟩
        exact fun member => unfinished (mem_of_mem_closeLine member)
      next other =>
        refine ih fun member => ?_
        rcases List.mem_cons.mp member with same | later
        · exact other same.symm
        · exact unfinished later

/-- A newline ends the line that stands in front of it. -/
theorem linesFrom_append {line : Text} (whole : '\n' ∉ line) (reversed rest : Text) :
    linesFrom reversed (line ++ '\n' :: rest) =
      closeLine (line.reverse ++ reversed) :: linesFrom [] rest := by
  induction line generalizing reversed with
  | nil => rw [List.nil_append, linesFrom, if_pos rfl, List.reverse_nil, List.nil_append]
  | cons c more ih =>
      rw [List.mem_cons, not_or] at whole
      rw [List.cons_append, linesFrom, if_neg (Ne.symm whole.1), ih whole.2, List.reverse_cons,
        List.append_assoc, List.singleton_append]

end Text

namespace Card

theorem ofLine_statement {c : Char} (other : c ≠ '*') (rest : Text) (number : Nat) :
    ofLine (c :: rest) number = { text := c :: rest, number } := by
  unfold ofLine
  split
  next same => exact absurd (List.cons.inj same).1 other
  next => rfl

/-- The line that a card is printed on, without its newline. -/
def printedLine (card : Card) : Text := Text.closeLine card.render.reverse

theorem trim_printedLine (card : Card) : Text.trim card.printedLine = Text.trim card.render := by
  rw [printedLine, Text.trim_closeLine, List.reverse_reverse]

/-- What is read from the line that a card is printed on. -/
def reread (card : Card) (number : Nat) : Card :=
  { text := if card.disabled then card.text else Text.trimEnd card.text
    number
    disabled := card.disabled }

end Card

namespace Deck

/-! ## Decks that were read -/

/-- Cards that can be told from the lines they are printed on, last one first. -/
inductive Legible : (reversed : List Card) → Prop where
  | nil : Legible []
  | comment {text : Text} {number : Nat} {note : Option Text} {before : List Card}
      (above : Legible before) (oneLine : '\n' ∉ text)
      (ends : Text.trimEnd ('*' :: text) = '*' :: text) :
      Legible ({ text, number, note, disabled := true } :: before)
  | statement {c : Char} {rest : Text} {number : Nat} {note : Option Text} {before : List Card}
      (above : Legible before) (oneLine : '\n' ∉ c :: rest) (solid : Netlist.isBlank c = false)
      (unstarred : c ≠ '*') (apart : c = '+' → ∀ last ∈ before.head?, last.isLive = false) :
      Legible ({ text := c :: rest, number, note } :: before)

/-- A line that begins with a plus is a card of its own where no live card stands above it. -/
theorem addLine_of_apart {line : Text} {reversed : List Card}
    (apart : line.head? = some '+' → ∀ last ∈ reversed.head?, last.isLive = false)
    (number : Nat) : addLine reversed number line = Card.ofLine line number :: reversed := by
  by_cases plus : line.head? = some '+'
  · obtain ⟨rest, rfl⟩ := List.head?_eq_some_iff.mp plus
    cases reversed with
    | nil => rfl
    | cons last before => rw [addLine_plus, apart plus last rfl, if_neg Bool.false_ne_true]
  · exact addLine_of_fresh plus reversed number

namespace Legible

variable {reversed : List Card}

theorem newline_notMem (legible : Legible reversed) : ∀ card ∈ reversed, '\n' ∉ card.text := by
  induction legible with
  | nil => simp
  | comment _ oneLine _ ih => exact List.forall_mem_cons.mpr ⟨oneLine, ih⟩
  | statement _ oneLine _ _ _ ih => exact List.forall_mem_cons.mpr ⟨oneLine, ih⟩

/-- A line that is no continuation is a card that can be told from its own line. -/
theorem ofLine (legible : Legible reversed) {line : Text} (oneLine : '\n' ∉ line)
    (filled : Text.trim line ≠ [])
    (apart : (Text.trim line).head? = some '+' → ∀ last ∈ reversed.head?, last.isLive = false)
    (number : Nat) : Legible (Card.ofLine (Text.trim line) number :: reversed) := by
  obtain ⟨c, rest, trimmed⟩ := List.exists_cons_of_ne_nil filled
  have inside : '\n' ∉ c :: rest := by
    intro member
    rw [← trimmed] at member
    exact oneLine (Text.mem_of_mem_trim member)
  have ends := Text.trimEnd_trim line
  have begins := Text.stops_trim line
  rw [trimmed] at ends begins apart ⊢
  by_cases star : c = '*'
  · subst star
    exact .comment legible (fun member => inside (List.mem_cons_of_mem _ member)) ends
  · rw [Card.ofLine_statement star]
    refine .statement legible inside (Text.stops_cons.mp begins) star fun plus => ?_
    exact apart (congrArg some plus)

/-- Each line keeps the cards such that they can be told from their lines. -/
theorem addLine (legible : Legible reversed) {line : Text} (oneLine : '\n' ∉ line)
    (filled : Text.trim line ≠ []) (number : Nat) :
    Legible (Deck.addLine reversed number (Text.trim line)) := by
  by_cases apart :
      (Text.trim line).head? = some '+' → ∀ last ∈ reversed.head?, last.isLive = false
  · rw [addLine_of_apart apart]
    exact legible.ofLine oneLine filled apart number
  · simp only [Classical.not_forall] at apart
    obtain ⟨plus, last, top, live⟩ := apart
    obtain ⟨added, trimmed⟩ := List.head?_eq_some_iff.mp plus
    cases legible with
    | nil => cases top
    | comment =>
        cases top
        exact absurd rfl live
    | @statement c rest _ _ _ above inside solid unstarred apart =>
        -- the statement goes on at its end, so what it begins with stays
        have joined : '\n' ∉ c :: rest ++ " ".toList ++ Text.trim added := by
          simp only [List.mem_append, not_or]
          refine ⟨⟨inside, by decide⟩, fun member => oneLine (Text.mem_of_mem_trim ?_)⟩
          rw [trimmed]
          exact List.mem_cons_of_mem _ (Text.mem_of_mem_trim member)
        rw [trimmed, addLine_plus]
        exact .statement above joined solid unstarred apart

/-- Decks that are read can be told from their lines. -/
theorem readFrom (legible : Legible reversed) (number : Nat) {lines : List Text}
    (oneLine : ∀ line ∈ lines, '\n' ∉ line) :
    Legible (Deck.readFrom reversed number lines).reverse := by
  induction lines generalizing reversed number with
  | nil => rwa [Deck.readFrom, List.reverse_reverse]
  | cons line rest ih =>
      obtain ⟨here, there⟩ := List.forall_mem_cons.mp oneLine
      rw [Deck.readFrom]
      split
      next => exact ih legible _ there
      next filled =>
        refine ih (legible.addLine here ?_ number) _ there
        exact fun nothing => filled (List.isEmpty_iff.mpr nothing)

end Legible

/-! ## Printed decks -/

theorem lines_render {deck : Deck} (oneLine : ∀ card ∈ deck, '\n' ∉ card.text) :
    Text.lines deck.render = deck.map Card.printedLine := by
  induction deck with
  | nil => rfl
  | cons card rest ih =>
      obtain ⟨here, there⟩ := List.forall_mem_cons.mp oneLine
      have whole : '\n' ∉ card.render := by
        unfold Card.render
        split
        · simp [here]
        · exact here
      have cut := Text.linesFrom_append whole [] (render rest)
      rw [List.append_nil] at cut
      have printed : render (card :: rest) = card.render ++ '\n' :: render rest := by
        simp [render]
      rw [Text.lines, printed, cut, List.map_cons]
      exact congrArg _ (ih there)

/-- The cards that are read from a printed deck. -/
def reread (deck : Deck) : Deck := deck.mapIdx fun index card => card.reread (index + 1)

theorem reread_concat (deck : Deck) (card : Card) :
    reread (deck ++ [card]) = deck.reread ++ [card.reread (deck.length + 1)] :=
  List.mapIdx_concat

/-- The line of one more card is read as that card, if it is a line of its own. -/
theorem readFrom_concat {deck : Deck} {card : Card} {line : Text}
    (above : readFrom [] 1 (deck.map Card.printedLine) = deck.reread)
    (trimmed : Text.trim card.render = line) (filled : line ≠ [])
    (apart : line.head? = some '+' → ∀ last ∈ deck.getLast?, last.isLive = false)
    (same : ∀ number, Card.ofLine line number = card.reread number) :
    readFrom [] 1 ((deck ++ [card]).map Card.printedLine) = reread (deck ++ [card]) := by
  have top : line.head? = some '+' → ∀ last ∈ deck.reread.reverse.head?, last.isLive = false := by
    intro plus last found
    rw [List.head?_reverse, reread, List.getLast?_mapIdx] at found
    obtain ⟨card, above, rfl⟩ := Option.map_eq_some_iff.mp found
    exact apart plus card above
  rw [List.map_append, readFrom_append, above, List.map_singleton, readFrom,
    Card.trim_printedLine, trimmed, if_neg (by simpa using filled), addLine_of_apart top, same,
    readFrom, List.reverse_cons, List.reverse_reverse, reread_concat, List.length_map,
    Nat.add_comm]

namespace Legible

theorem readFrom_lines {reversed : List Card} (legible : Legible reversed) :
    Deck.readFrom [] 1 (reversed.reverse.map Card.printedLine) = reread reversed.reverse := by
  -- the last card is read last, and it looks back at the one above it alone
  induction legible with
  | nil => rfl
  | @comment text _ _ _ _ _ ends ih =>
      rw [List.reverse_cons]
      have begins : Text.Stops Netlist.isBlank ('*' :: text) := Text.stops_cons.mpr rfl
      refine readFrom_concat ih ((Text.trim_of_stops begins).trans ends) (by simp) (by simp) ?_
      exact fun _ => rfl
  | @statement c rest _ _ _ _ _ solid unstarred apart ih =>
      rw [List.reverse_cons]
      have begins : Text.Stops Netlist.isBlank (c :: rest) := Text.stops_cons.mpr solid
      have trimmed := (Text.trim_of_stops begins).trans (Text.trimEnd_cons solid rest)
      refine readFrom_concat ih trimmed (by simp) ?_ fun number => ?_
      · rw [List.getLast?_reverse]
        exact fun plus => apart (Option.some.inj plus)
      · rw [Card.ofLine_statement unstarred, ← Text.trimEnd_cons solid]
        rfl

end Legible

/-- A printed deck is read as the same cards in the same order: comments with their texts, and
statements with theirs up to blanks at the end. -/
theorem ofSource_render (source : Text) :
    ofSource (render (ofSource source)) =
      (ofSource source).mapIdx fun index card =>
        { text := if card.disabled then card.text else Text.trimEnd card.text
          number := index + 1
          disabled := card.disabled } := by
  have legible : Legible (ofSource source).reverse :=
    Legible.nil.readFrom 1 (Text.newline_notMem_linesFrom List.not_mem_nil source)
  have oneLine : ∀ card ∈ ofSource source, '\n' ∉ card.text :=
    fun card member => legible.newline_notMem card (List.mem_reverse.mpr member)
  have lines := legible.readFrom_lines
  rw [List.reverse_reverse, ← lines_render oneLine] at lines
  exact lines

end Deck

end Netlist

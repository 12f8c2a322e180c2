import Mathlib.Data.List.DropRight
import Netlist.Proofs.Numbering
import Netlist.Proofs.Word

/-!
# Lines of a source

A source is read line by line.  Only the lines that continue a statement look
back, and only at the card above them, so that lines which begin a statement
of their own are read apart from what stands before them.  Where they stand
shows in their numbers alone.
-/

namespace Netlist

namespace Text

/-- What is left of a trimmed line begins with its first word. -/
theorem head?_trim (line : Text) : (trim line).head? = (firstWord (trim line)).head? := by
  have front : trim line <+: trimStart line := List.rdropWhile_prefix ..
  rw [head?_firstWord]
  cases trimmed : trim line with
  | nil => rfl
  | cons c rest =>
      obtain ⟨cut, whole⟩ := front
      have stops := trimStart_stops line
      rw [← whole, trimmed] at stops
      rw [trimStart_of_stops (stops_cons.mpr (stops_cons.mp stops))]

end Text

namespace Deck

/-- Whether the first line that is not blank continues what stands before it. -/
def continues : List Text → Bool
  | [] => false
  | first :: rest =>
      if (Text.trim first).isEmpty then continues rest else (Text.trim first).head? == some '+'

theorem continues_append {front back : List Text} (fresh : continues front = false)
    (behind : continues back = false) : continues (front ++ back) = false := by
  induction front with
  | nil => exact behind
  | cons line rest ih =>
      rw [continues] at fresh
      rw [List.cons_append, continues]
      split at fresh
      next blank =>
        rw [if_pos blank]
        exact ih fresh
      next filled =>
        rw [if_neg filled]
        exact fresh

theorem readFrom_append (reversed : List Card) (number : Nat) (front back : List Text) :
    readFrom reversed number (front ++ back) =
      readFrom (readFrom reversed number front).reverse (number + front.length) back := by
  induction front generalizing reversed number with
  | nil => rw [List.nil_append, readFrom, List.reverse_reverse, List.length_nil, Nat.add_zero]
  | cons line rest ih =>
      rw [List.cons_append, readFrom, readFrom, List.length_cons, Nat.add_comm rest.length,
        ← Nat.add_assoc]
      split
      · exact ih ..
      · exact ih ..

/-- A line that continues nothing is a card of its own. -/
theorem addLine_of_fresh {line : Text} (fresh : line.head? ≠ some '+') (reversed : List Card)
    (number : Nat) : addLine reversed number line = Card.ofLine line number :: reversed := by
  have nothing : continuation? line reversed = none := by
    unfold continuation?
    split
    · exact absurd rfl fresh
    · rfl
  rw [addLine, nothing]

/-- A line that begins with a plus is added to the card above it, if that one is live. -/
theorem addLine_plus (last : Card) (before : List Card) (number : Nat) (rest : Text) :
    addLine (last :: before) number ('+' :: rest) =
      if last.isLive then { last with text := last.text ++ " " ++ Text.trim rest } :: before
      else Card.ofLine ('+' :: rest) number :: last :: before := by
  unfold addLine continuation?
  cases live : last.isLive <;> simp [live]

/-- A line looks back at the last card only. -/
theorem addLine_cons (last : Card) (before : List Card) (number : Nat) (line : Text) :
    ∃ next reversed, addLine [last] number line = next :: reversed ∧
      addLine (last :: before) number line = next :: (reversed ++ before) := by
  by_cases plus : line.head? = some '+'
  · obtain ⟨rest, rfl⟩ := List.head?_eq_some_iff.mp plus
    rw [addLine_plus, addLine_plus]
    split
    · exact ⟨_, [], rfl, rfl⟩
    · exact ⟨_, [last], rfl, rfl⟩
  · rw [addLine_of_fresh plus, addLine_of_fresh plus]
    exact ⟨_, [last], rfl, rfl⟩

/-- What stands before the last card is left as it is. -/
theorem readFrom_cons (last : Card) (before : List Card) (number : Nat) (lines : List Text) :
    readFrom (last :: before) number lines = before.reverse ++ readFrom [last] number lines := by
  induction lines generalizing last before number with
  | nil => simp [readFrom]
  | cons line rest ih =>
      rw [readFrom, readFrom]
      split
      · exact ih ..
      · obtain ⟨next, reversed, single, whole⟩ := addLine_cons last before number (Text.trim line)
        rw [single, whole, ih, ih next reversed, List.reverse_append, List.append_assoc]

/-- Lines only add to the end of a card that is there already. -/
theorem readFrom_singleton (last : Card) (number : Nat) (lines : List Text) :
    ∃ more rest,
      readFrom [last] number lines = { last with text := last.text ++ more } :: rest := by
  induction lines generalizing last number with
  | nil =>
      refine ⟨[], [], ?_⟩
      rw [List.append_nil]
      rfl
  | cons line lines ih =>
      have apart (card : Card) : ∃ more rest, readFrom [card, last] (number + 1) lines =
          { last with text := last.text ++ more } :: rest := by
        refine ⟨[], readFrom [card] (number + 1) lines, ?_⟩
        rw [readFrom_cons, List.append_nil]
        rfl
      rw [readFrom]
      split
      · exact ih ..
      · by_cases plus : (Text.trim line).head? = some '+'
        · obtain ⟨added, trimmed⟩ := List.head?_eq_some_iff.mp plus
          rw [trimmed, addLine_plus]
          split
          · obtain ⟨more, rest, read⟩ :=
              ih { last with text := last.text ++ " " ++ Text.trim added } (number + 1)
            refine ⟨" " ++ Text.trim added ++ more, rest, ?_⟩
            simpa only [List.append_assoc] using read
          · exact apart _
        · rw [addLine_of_fresh plus]
          exact apart _

/-- Lines that begin a statement of their own are read apart from what stands before them. -/
theorem readFrom_of_fresh {lines : List Text} (fresh : continues lines = false)
    (reversed : List Card) (number : Nat) :
    readFrom reversed number lines = reversed.reverse ++ readFrom [] number lines := by
  induction lines generalizing number with
  | nil => simp [readFrom]
  | cons line rest ih =>
      rw [continues] at fresh
      rw [readFrom, readFrom]
      split at fresh
      next blank =>
        rw [if_pos blank, if_pos blank]
        exact ih fresh _
      next filled =>
        have plain : (Text.trim line).head? ≠ some '+' := by simpa using fresh
        rw [if_neg filled, if_neg filled, addLine_of_fresh plain, addLine_of_fresh plain,
          readFrom_cons]

/-- Lines in two parts, of which the second begins a statement of its own. -/
theorem readFrom_append_of_fresh {back : List Text} (fresh : continues back = false)
    (reversed : List Card) (number : Nat) (front : List Text) :
    readFrom reversed number (front ++ back) =
      readFrom reversed number front ++ readFrom [] (number + front.length) back := by
  rw [readFrom_append, readFrom_of_fresh fresh, List.reverse_reverse]

section Directive

variable {line : Text} (point : (Text.firstWord (Text.trim line)).head? = some '.')

include point

theorem continues_of_point (rest : List Text) : continues (line :: rest) = false := by
  have lead := (Text.head?_trim line).trans point
  obtain ⟨letters, trimmed⟩ := List.head?_eq_some_iff.mp lead
  rw [continues, trimmed]
  rfl

/-- A directive is read as a live card of its own. -/
theorem readFrom_of_point (number : Nat) {rest : List Text} (fresh : continues rest = false) :
    readFrom [] number (line :: rest) =
      { text := Text.trim line, number } :: readFrom [] (number + 1) rest := by
  have lead := (Text.head?_trim line).trans point
  obtain ⟨letters, trimmed⟩ := List.head?_eq_some_iff.mp lead
  have plain : (Text.trim line).head? ≠ some '+' := by simp [lead]
  rw [readFrom, if_neg (by simp [trimmed]), addLine_of_fresh plain, readFrom_of_fresh fresh,
    trimmed]
  rfl

end Directive

/-- Lines between two directives, and the lines behind them. -/
theorem readFrom_block {opening closing : Text} {body main : List Text}
    (startPoint : (Text.firstWord (Text.trim opening)).head? = some '.')
    (stopPoint : (Text.firstWord (Text.trim closing)).head? = some '.')
    (bodyBegins : continues body = false) (mainBegins : continues main = false) :
    readFrom [] 1 (opening :: (body ++ closing :: main)) =
      { text := Text.trim opening, number := 1 } :: (readFrom [] 2 body ++
        { text := Text.trim closing, number := 2 + body.length } ::
          readFrom [] (2 + body.length + 1) main) := by
  have fresh := continues_of_point stopPoint main
  rw [readFrom_of_point startPoint 1 (continues_append bodyBegins fresh),
    readFrom_append_of_fresh fresh, readFrom_of_point stopPoint _ mainBegins]

/-! ## Line numbers -/

/-- What does not look at line numbers holds of cards wherever they stand. -/
theorem forall_of_renumbered {property : Card → Prop}
    (blind : ∀ card : Card, property card.unnumbered ↔ property card) {deck twin : Deck}
    (same : twin.unnumbered = deck.unnumbered) (all : ∀ card ∈ deck, property card) :
    ∀ card ∈ twin, property card := by
  intro card member
  have inside : card.unnumbered ∈ deck.unnumbered := same ▸ List.mem_map_of_mem member
  obtain ⟨other, here, alike⟩ := List.mem_map.mp inside
  rw [← blind, ← alike, blind]
  exact all other here

theorem addLine_unnumbered {first second : List Card}
    (same : Deck.unnumbered first = Deck.unnumbered second) (number other : Nat) (line : Text) :
    Deck.unnumbered (addLine first number line) = Deck.unnumbered (addLine second other line) := by
  have own : (Card.ofLine line number).unnumbered = (Card.ofLine line other).unnumbered := by
    unfold Card.ofLine
    split <;> rfl
  by_cases plus : line.head? = some '+'
  · obtain ⟨rest, rfl⟩ := List.head?_eq_some_iff.mp plus
    cases first with
    | nil =>
        cases second with
        | nil => exact congrArg (fun card => [card]) own
        | cons last before => cases same
    | cons last before =>
        cases second with
        | nil => cases same
        | cons twin others =>
            obtain ⟨here, there⟩ := List.cons.inj same
            have live : twin.isLive = last.isLive := by
              rw [← Card.isLive_unnumbered twin, ← here, Card.isLive_unnumbered]
            rw [addLine_plus, addLine_plus, live]
            split
            · refine List.cons_eq_cons.mpr ⟨?_, there⟩
              exact congrArg (fun card : Card =>
                { card with text := card.text ++ " " ++ Text.trim rest }) here
            · exact List.cons_eq_cons.mpr ⟨own, same⟩
  · rw [addLine_of_fresh plus, addLine_of_fresh plus]
    exact List.cons_eq_cons.mpr ⟨own, same⟩

/-- Where lines stand shows in their numbers alone. -/
theorem readFrom_unnumbered {first second : List Card}
    (same : Deck.unnumbered first = Deck.unnumbered second) (number other : Nat)
    (lines : List Text) :
    (readFrom first number lines).unnumbered = (readFrom second other lines).unnumbered := by
  induction lines generalizing first second number other with
  | nil =>
      unfold readFrom Deck.unnumbered at *
      rw [List.map_reverse, List.map_reverse, same]
  | cons line rest ih =>
      rw [readFrom, readFrom]
      split
      · exact ih same ..
      · exact ih (addLine_unnumbered same ..) ..

end Deck

end Netlist

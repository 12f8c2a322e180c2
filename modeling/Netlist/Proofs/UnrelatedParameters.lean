import Mathlib.Algebra.Group.Nat.Even
import Netlist.Proofs.Accessor
import Netlist.Proofs.ParameterChains
import Netlist.Proofs.RenamedNames

/-!
# Parameters that a text does not mention

A parameter changes a text only through the identifiers of the text and of the
values that it reaches.  In a statement the text behind the first word is read
on its own; its identifiers are those of the statement as long as no string
begins in the first word and ends behind it.
-/

namespace Netlist

namespace Text

/-- A blank ends every run of characters that are not blank. -/
theorem Stops.of_blank {inner : Char → Bool} (solid : ∀ c, inner c = true → isBlank c = false)
    {text : Text} (led : Stops (fun c => !isBlank c) text) : Stops inner text := by
  intro c found
  cases inside : inner c with
  | false => rfl
  | true =>
      have blank : (!isBlank c) = false := led c found
      rw [solid c inside] at blank
      cases blank

/-- The text behind the first word. -/
def behindFirstWord (text : Text) : Text := (trimStart text).dropWhile fun c => !isBlank c

theorem firstWord_append_behind (text : Text) :
    text = text.takeWhile isBlank ++ firstWord text ++ behindFirstWord text := by
  rw [List.append_assoc, firstWord, behindFirstWord, List.takeWhile_append_dropWhile,
    blanks_append_trimStart]

theorem firstWord_ne_nil {text : Text} (something : behindFirstWord text ≠ []) :
    firstWord text ≠ [] := by
  intro nothing
  have head := head?_firstWord text
  rw [nothing] at head
  have trimmed : trimStart text = [] := List.head?_eq_none_iff.mp head.symm
  rw [behindFirstWord, trimmed] at something
  exact something rfl

end Text

namespace Token

/-- An identifier of the text is the name, up to letter case. -/
def Mentions (text name : Text) : Prop :=
  ∃ token ∈ scan text, token.kind = .ident ∧ Text.sameLetters token.text name = true

instance (text name : Text) : Decidable (Mentions text name) :=
  inferInstanceAs (Decidable (∃ token ∈ scan text, _))

/-! ## Tokens in front of a blank -/

theorem not_isBlank_of_continuesIdent {c : Char} (inside : continuesIdent c = true) :
    isBlank c = false :=
  Word.not_isBlank_of_isInner (Renamer.isInner_of_continuesIdent inside)

theorem not_isBlank_of_inMantissa {c : Char} (inside : inMantissa c = true) :
    isBlank c = false := by
  rcases Bool.or_eq_true_iff.mp inside with digit | point
  · exact not_isBlank_of_isDigit digit
  · rw [beq_iff_eq.mp point]
    decide

theorem not_isBlank_of_inExponent {c : Char} (inside : inExponent c = true) :
    isBlank c = false := by
  simp only [inExponent, Bool.or_eq_true, beq_iff_eq] at inside
  rcases inside with (((digit | rfl) | rfl) | rfl) | rfl
  · exact not_isBlank_of_isDigit digit
  all_goals decide

/-- A number does not go on behind a blank. -/
theorem numberTail_append_blank (rest : Text) {more : Text}
    (led : Text.Stops (fun c => !isBlank c) more) :
    numberTail (rest ++ more) = ((numberTail rest).1, (numberTail rest).2 ++ more) := by
  have mantissa := led.of_blank fun _ => not_isBlank_of_inMantissa
  have power := led.of_blank fun _ => not_isBlank_of_inExponent
  have letters : Text.Stops inSuffix more := led.of_blank fun _ => not_isBlank_of_startsIdent
  simp only [numberTail, Text.takeWhile_append_of_stops rest mantissa,
    Text.dropWhile_append_of_stops rest mantissa, exponent_append_of_stops _ power,
    Text.takeWhile_append_of_stops _ letters, Text.dropWhile_append_of_stops _ letters]

/-- What opens a string is closed behind it, unless the text ends there. -/
theorem Form.even_quotes {token : Token} {behind : Text} (form : Form token behind) :
    Even (token.text.count '"') ∨ behind = [] := by
  by_cases string : token.kind = .str
  · cases form with
    | closed inside =>
        left
        rw [List.count_cons_self, List.count_append, List.count_eq_zero.mpr inside]
        decide
    | unclosed => exact .inr rfl
    | single => exact absurd string (singleKind_cases rfl).2.2.2
    | _ => cases string
  · rw [List.count_eq_zero.mpr (form.quote_notMem string)]
    exact .inl Even.zero

/-- A token keeps its form in front of a blank, unless it is a space or an open string itself. -/
theorem Form.append_blank {token : Token} {behind more : Text} (form : Form token behind)
    (led : Text.Stops (fun c => !isBlank c) more)
    (other : behind = [] → token.kind ≠ .space ∧ Even (token.text.count '"')) :
    Form token (behind ++ more) := by
  cases form with
  | space starts inside stops =>
      exact .space starts inside (stops.append fun nothing => absurd rfl (other nothing).1)
  | ident starts inside stops =>
      exact .ident starts inside
        (stops.append fun _ => led.of_blank fun _ => not_isBlank_of_continuesIdent)
  | number starts read =>
      refine .number starts ?_
      rw [← List.append_assoc, numberTail_append_blank _ led, read]
  | closed inside => exact .closed inside
  | unclosed inside =>
      have even := (other rfl).2
      rw [List.count_cons_self, List.count_eq_zero.mpr inside] at even
      exact absurd even (by decide)
  | single solid letter unnumbered unquoted =>
      refine .single solid letter ?_ unquoted
      rw [startsNumber, opensWithDigit_append _ (led.of_blank fun _ => not_isBlank_of_isDigit)]
      exact unnumbered

/-- A text is scanned on its own behind a text that leaves no string open and ends with no
blank. -/
theorem scan_append_blank {front more : Text} (even : Even (front.count '"'))
    (solid : ∀ c, front.getLast? = some c → isBlank c = false)
    (led : Text.Stops (fun c => !isBlank c) more) :
    scan (front ++ more) = scan front ++ scan more := by
  induction scanned : scan front generalizing front with
  | nil =>
      have nothing := render_scan front
      rw [scanned] at nothing
      rw [← nothing]
      rfl
  | cons first rest ih =>
      obtain ⟨whole, form, later⟩ := form_of_scan_cons scanned
      rw [whole, List.count_append] at even
      rw [whole, List.getLast?_append] at solid
      have own : Even (first.text.count '"') := by
        rcases form.even_quotes with closed | nothing
        · exact closed
        · rwa [nothing, List.count_nil, Nat.add_zero] at even
      have kept : Form first (render rest ++ more) := by
        refine form.append_blank led fun nothing => ⟨?_, own⟩
        intro space
        obtain ⟨c, run, text, starts, inside, -⟩ := form.isBlank_head space
        have blank : ∀ d ∈ first.text, isBlank d = true :=
          text ▸ List.forall_mem_cons.mpr ⟨starts, inside⟩
        have last := List.getLast?_eq_some_getLast form.text_ne_nil
        have outside := solid _ (by rw [nothing, last]; rfl)
        rw [blank _ (List.getLast_mem form.text_ne_nil)] at outside
        cases outside
      have behind := ih ((Nat.even_add.mp even).mp own) (fun c found => solid c (by simp [found]))
        later
      rw [whole, List.append_assoc, kept.scan_append, behind]
      rfl

/-- The identifiers behind the first word are identifiers of the statement, if the first word
leaves no string open. -/
theorem Mentions.of_behindFirstWord {text name : Text}
    (even : Even ((Text.firstWord text).count '"'))
    (mentions : Mentions (Text.behindFirstWord text) name) : Mentions text name := by
  obtain ⟨token, member, ident, same⟩ := mentions
  have led := Text.stops_dropWhile (fun c => !isBlank c) (Text.trimStart text)
  have quotes : Even ((text.takeWhile isBlank ++ Text.firstWord text).count '"') := by
    have none : '"' ∉ text.takeWhile isBlank := by
      intro quote
      exact absurd (Text.mem_takeWhile quote) (by decide)
    rwa [List.count_append, List.count_eq_zero.mpr none, Nat.zero_add]
  have solid : ∀ c, (text.takeWhile isBlank ++ Text.firstWord text).getLast? = some c →
      isBlank c = false := by
    have some : Text.behindFirstWord text ≠ [] := by
      intro nothing
      rw [nothing, scan_nil] at member
      cases member
    have last := List.getLast?_eq_some_getLast (Text.firstWord_ne_nil some)
    intro c found
    rw [List.getLast?_append, last] at found
    cases found
    exact Text.solid_firstWord text _ (List.getLast_mem _)
  have cut := scan_append_blank quotes solid led
  rw [← Text.behindFirstWord, ← Text.firstWord_append_behind] at cut
  refine ⟨token, ?_, ident, same⟩
  rw [cut]
  exact List.mem_append_right _ member

end Token

/-! ## Substitution -/

theorem replaceReferences_congr_of_mem {resolve other : Text → Option Text}
    {tokens : List Token}
    (same : ∀ token ∈ tokens, token.kind = .ident → resolve token.text = other token.text)
    (previous : Option Token) :
    replaceReferences resolve previous tokens = replaceReferences other previous tokens := by
  induction tokens generalizing previous with
  | nil => rfl
  | cons first rest ih =>
      have behind := ih (fun token member => same token (List.mem_cons_of_mem _ member))
      rw [replaceReferences, replaceReferences, behind]
      by_cases ident : first.kind = .ident
      · rw [same first (List.mem_cons_self ..) ident]
      · simp [ident]

namespace ParamTable

/-- A parameter that neither the text nor a value mentions does not matter, at any depth. -/
theorem substituteWithin_insert {table : ParamTable} {name : Text}
    (values : ∀ entry ∈ table.entries, ¬Token.Mentions entry.2 name) (value : Text)
    (steps : Nat) {text : Text} (absent : ¬Token.Mentions text name) :
    substituteWithin (table.insert name value) steps text =
      table.substituteWithin steps text := by
  induction steps generalizing text with
  | zero => rfl
  | succ steps ih =>
      rw [substituteWithin_succ, substituteWithin_succ]
      refine replaceReferences_congr_of_mem ?_ none
      intro token member ident
      have differs :
          CasePolicy.fold .insensitive name ≠ CasePolicy.fold .insensitive token.text := by
        intro same
        exact absent ⟨token, member, ident, (Text.sameLetters_iff _ _).mpr same.symm⟩
      rw [NameTable.get?_insert, if_neg differs]
      cases found : table.get? token.text with
      | none => rfl
      | some own =>
          obtain ⟨entry, listed, rfl⟩ := NameTable.exists_mem_of_get? found
          exact congrArg some (ih (values entry listed))

theorem substituteLine_eq (table : ParamTable) (text : Text) :
    table.substituteLine text =
      text.takeWhile isBlank ++ Text.firstWord text ++
        table.substitute (Text.behindFirstWord text) := rfl

/-- A parameter whose name is no identifier of the text or of a value in force changes nothing: not
where the whole text is substituted, and behind the first word of a statement not if the first word
leaves no string open, or else if the name is no identifier of the text behind it.  A table without
entries is no exception: its shortcut gives what the tokens give. -/
theorem unrelated_parameter_ignored (table : ParamTable) (name value text : Text)
    (values : ∀ entry ∈ table.entries, ¬Token.Mentions entry.2 name)
    (absent : ¬Token.Mentions text name) :
    substitute (table.insert name value) text = table.substitute text ∧
    (Even ((Text.firstWord text).count '"') ∨
        ¬Token.Mentions (Text.behindFirstWord text) name →
      substituteLine (table.insert name value) text = table.substituteLine text) ∧
    table.substitute text =
      replaceReferences (fun other => (table.get? other).map (table.substituteWithin 8)) none
        (Token.scan text) := by
  refine ⟨substituteWithin_insert values value _ absent, ?_, substituteWithin_succ table 8 text⟩
  intro closed
  have behind : ¬Token.Mentions (Text.behindFirstWord text) name := by
    rcases closed with even | behind
    · exact fun mentions => absent (mentions.of_behindFirstWord even)
    · exact behind
  rw [substituteLine_eq, substituteLine_eq, substitute, substitute,
    substituteWithin_insert values value _ behind]

/-- A statement with a closed string in its first word, and with the name in another string. -/
theorem unrelated_parameter_ignored_closed :
    let table := ofAssignments "w=u+1 u=2"
    let text : Text := "r\"q\" w*2 \"a b\""
    (∀ entry ∈ table.entries, ¬Token.Mentions entry.2 "B") ∧ ¬Token.Mentions text "B" ∧
      Even ((Text.firstWord text).count '"') ∧
      substituteLine (table.insert "B" "7") text = "r\"q\" 2+1*2 \"a b\"" := by
  intro table text
  have values : ∀ entry ∈ table.entries, ¬Token.Mentions entry.2 "B" := by decide +kernel
  have absent : ¬Token.Mentions text "B" := by decide +kernel
  have even : Even ((Text.firstWord text).count '"') := by decide +kernel
  have same := (unrelated_parameter_ignored table "B" "7" text values absent).2.1 (.inl even)
  exact ⟨values, absent, even, same.trans (by decide +kernel)⟩

/-- A string that begins in the first word is read from its middle behind it, so that a name inside
the string is taken for a reference. -/
theorem unrelated_parameter_in_open_string :
    let text : Text := "r\"a b c\""
    ¬Token.Mentions text "b" ∧
      substituteLine NameTable.empty text = text ∧
      substitute (NameTable.insert NameTable.empty "b" "5") text = text ∧
      substituteLine (NameTable.insert NameTable.empty "b" "5") text = "r\"a 5 c\"" := by
  decide +kernel

end ParamTable

end Netlist

import Mathlib.Data.List.Chain
import Mathlib.Data.List.TakeWhile
import Netlist.Proofs.Keyword

/-!
# Forms of tokens

A token is determined by its form and by what may stand behind it: a run of
characters ends where the next character does not belong to it, a string ends
with its quote, and every other character is a token by itself.  So a text is
cut into tokens just where the forms say, each token is read as itself when it
stands alone, and some kinds of tokens never meet.
-/

namespace Netlist

namespace Token

theorem render_append (front back : List Token) :
    render (front ++ back) = render front ++ render back := List.flatMap_append

/-! ## Characters -/

theorem not_startsIdent_of_isDigit {c : Char} (digit : c.isDigit = true) :
    startsIdent c = false := by
  have bounds := bounds_of_isDigit digit
  have other : c ≠ '_' := by
    rintro rfl
    exact absurd digit (by decide)
  simp [startsIdent, not_isAlpha_of_isDigit digit, other]

theorem not_isBlank_of_isDigit {c : Char} (digit : c.isDigit = true) : isBlank c = false := by
  cases blank : isBlank c with
  | false => rfl
  | true =>
      have bounds := bounds_of_isDigit digit
      simp only [isBlank, blankRanges, List.any_cons, List.any_nil, Bool.or_false,
        Bool.or_eq_true, Bool.and_eq_true, decide_eq_true_eq] at blank
      omega

theorem not_isBlank_of_startsIdent {c : Char} (starts : startsIdent c = true) :
    isBlank c = false := by
  cases blank : isBlank c with
  | false => rfl
  | true =>
      rw [not_startsIdent_of_isBlank blank] at starts
      cases starts

theorem not_inMantissa_of_startsIdent {c : Char} (starts : startsIdent c = true) :
    inMantissa c = false := by
  cases digit : c.isDigit with
  | true =>
      rw [not_startsIdent_of_isDigit digit] at starts
      cases starts
  | false =>
      have other : c ≠ '.' := by
        rintro rfl
        exact absurd starts (by decide)
      simp [inMantissa, digit, other]

theorem not_isDigit_of_startsIdent {c : Char} (starts : startsIdent c = true) :
    c.isDigit = false :=
  (Bool.or_eq_false_iff.mp (not_inMantissa_of_startsIdent starts)).1

theorem kindFrom_of_startsIdent {c : Char} (starts : startsIdent c = true) (rest : Text) :
    kindFrom c rest = .ident := by
  simp [kindFrom, not_isBlank_of_startsIdent starts, starts]

theorem kindFrom_quote (rest : Text) : kindFrom '"' rest = .str := rfl

theorem kindFrom_single {c : Char} {rest : Text} (solid : isBlank c = false)
    (other : startsIdent c = false) (unnumbered : startsNumber c rest = false)
    (unquoted : c ≠ '"') : kindFrom c rest = singleKind c := by
  simp [kindFrom, solid, other, unnumbered, unquoted]

theorem tailOf_singleKind (c : Char) (rest : Text) : tailOf (singleKind c) rest = ([], rest) := by
  unfold singleKind
  repeat' split
  all_goals rfl

/-- A number starts with a digit or a point, and neither starts a token of another kind. -/
theorem kindFrom_of_startsNumber {first : Char} {rest : Text}
    (starts : startsNumber first rest = true) : kindFrom first rest = .number := by
  rcases Bool.or_eq_true_iff.mp starts with digit | point
  · simp [kindFrom, not_isBlank_of_isDigit digit, not_startsIdent_of_isDigit digit, starts]
  · obtain ⟨same, opens⟩ := Bool.and_eq_true_iff.mp point
    obtain rfl := beq_iff_eq.mp same
    rw [kindFrom_point, if_pos opens]

/-! ## Exponents -/

def isSign (c : Char) : Bool := c == '+' || c == '-'

/-- An exponent that is there: its mark, at most one sign, and digits. -/
inductive Power : Text → Prop where
  | plain {mark digit : Char} {digits : Text} (marked : (mark == 'e' || mark == 'E') = true)
      (starts : digit.isDigit = true) (inside : ∀ c ∈ digits, c.isDigit = true) :
      Power (mark :: digit :: digits)
  | signed {mark sign digit : Char} {digits : Text}
      (marked : (mark == 'e' || mark == 'E') = true)
      (signs : isSign sign = true)
      (starts : digit.isDigit = true) (inside : ∀ c ∈ digits, c.isDigit = true) :
      Power (mark :: sign :: digit :: digits)

theorem startsIdent_of_mark {mark : Char} (marked : (mark == 'e' || mark == 'E') = true) :
    startsIdent mark = true := by
  rcases Bool.or_eq_true_iff.mp marked with lower | upper
  · rw [beq_iff_eq.mp lower]
    decide
  · rw [beq_iff_eq.mp upper]
    decide

/-- A sign starts no identifier and stands in no digits. -/
theorem apart_of_isSign {sign : Char} (signs : isSign sign = true) :
    startsIdent sign = false ∧ inMantissa sign = false ∧ sign.isDigit = false := by
  rcases Bool.or_eq_true_iff.mp signs with plus | minus
  · rw [beq_iff_eq.mp plus]
    decide
  · rw [beq_iff_eq.mp minus]
    decide

/-- An exponent is read as a whole, or there is none. -/
theorem exponent_cases (text : Text) :
    exponent text = ([], text) ∨
      ∃ power rest, exponent text = (power, rest) ∧ Power power := by
  unfold exponent
  split
  · exact .inl rfl
  · exact .inl rfl
  next mark next rest =>
    split
    next marked =>
      split
      next digit =>
        exact .inr ⟨_, _, rfl, .plain marked digit fun _ member => Text.mem_takeWhile member⟩
      next other =>
        split
        next signed =>
          obtain ⟨signs, opens⟩ := Bool.and_eq_true_iff.mp signed
          cases rest with
          | nil => cases opens
          | cons digit digits =>
              have starts : digit.isDigit = true := opens
              rw [List.takeWhile_cons_of_pos starts]
              exact .inr ⟨_, _, rfl,
                .signed marked signs starts fun _ member => Text.mem_takeWhile member⟩
        · exact .inl rfl
    · exact .inl rfl

theorem Power.exponent_append {power : Text} (given : Power power) {rest : Text}
    (stops : Text.Stops Char.isDigit rest) : exponent (power ++ rest) = (power, rest) := by
  cases given with
  | plain marked starts inside =>
      simp only [List.cons_append, exponent, marked, starts, if_true,
        Text.takeWhile_append_stops inside stops, Text.dropWhile_append_stops inside stops]
  | @signed mark sign digit digits marked signs starts inside =>
      have all : ∀ c ∈ digit :: digits, c.isDigit = true :=
        List.forall_mem_cons.mpr ⟨starts, inside⟩
      have taken := Text.takeWhile_append_stops all stops
      have dropped := Text.dropWhile_append_stops all stops
      rw [List.cons_append] at taken dropped
      have opens : opensWithDigit (digit :: (digits ++ rest)) = true := starts
      rw [isSign] at signs
      simp only [List.cons_append, exponent, marked, signs, opens, (apart_of_isSign signs).2.2,
        Bool.and_self, if_true, Bool.false_eq_true, if_false, taken, dropped]

/-- Letters alone make no exponent. -/
theorem exponent_letters {letters : Text} (inside : ∀ c ∈ letters, inSuffix c = true) :
    exponent letters = ([], letters) := by
  rcases exponent_cases letters with nothing | ⟨power, rest, read, given⟩
  · exact nothing
  have split := Token.exponent_append letters
  rw [read] at split
  have digit {c : Char} (member : c ∈ power) : c.isDigit = false :=
    not_isDigit_of_startsIdent (inside c (split ▸ List.mem_append_left rest member))
  cases given with
  | plain marked starts _ =>
      rw [digit (List.mem_cons_of_mem _ (List.mem_cons_self ..))] at starts
      cases starts
  | signed marked signs starts _ =>
      rw [digit (List.mem_cons_of_mem _ (List.mem_cons_of_mem _ (List.mem_cons_self ..)))] at starts
      cases starts

/-! ## Numbers -/

/-- What follows the first character of a number: digits and points, an exponent, letters. -/
structure NumberParts (digits power letters : Text) : Prop where
  digits : ∀ c ∈ digits, inMantissa c = true
  power : power = [] ∨ Power power
  letters : ∀ c ∈ letters, inSuffix c = true

theorem exists_numberParts (rest : Text) :
    ∃ digits power letters, NumberParts digits power letters ∧
      (numberTail rest).1 = digits ++ (power ++ letters) := by
  refine ⟨_, (exponent (rest.dropWhile inMantissa)).1, _,
    ⟨fun _ member => Text.mem_takeWhile member, ?_, fun _ member => Text.mem_takeWhile member⟩, rfl⟩
  rcases exponent_cases (rest.dropWhile inMantissa) with nothing | ⟨power, behind, read, given⟩
  · rw [nothing]
    exact .inl rfl
  · rw [read]
    exact .inr given

theorem stops_of_forall_startsIdent {inner : Char → Bool}
    (apart : ∀ c, startsIdent c = true → inner c = false) {text : Text}
    (starts : ∀ c, text.head? = some c → startsIdent c = true) : Text.Stops inner text :=
  fun c found => apart c (starts c found)

/-- A number that stands alone is read to its end. -/
theorem NumberParts.numberTail_eq {digits power letters : Text}
    (parts : NumberParts digits power letters) :
    numberTail (digits ++ (power ++ letters)) = (digits ++ (power ++ letters), []) := by
  have lettersLead : ∀ c, letters.head? = some c → startsIdent c = true :=
    fun c found => parts.letters c (List.mem_of_mem_head? found)
  have lead : ∀ c, (power ++ letters).head? = some c → startsIdent c = true := by
    intro c found
    rcases parts.power with rfl | given
    · exact lettersLead c found
    · cases given with
      | plain marked =>
          cases found
          exact startsIdent_of_mark marked
      | signed marked =>
          cases found
          exact startsIdent_of_mark marked
  have mantissa : Text.Stops inMantissa (power ++ letters) :=
    stops_of_forall_startsIdent (fun _ => not_inMantissa_of_startsIdent) lead
  have read : exponent (power ++ letters) = (power, letters) := by
    rcases parts.power with rfl | given
    · exact exponent_letters parts.letters
    · exact given.exponent_append
        (stops_of_forall_startsIdent (fun _ => not_isDigit_of_startsIdent) lettersLead)
  rw [numberTail, Text.takeWhile_append_stops parts.digits mantissa,
    Text.dropWhile_append_stops parts.digits mantissa, read,
    List.takeWhile_eq_self_iff.mpr parts.letters, List.dropWhile_eq_nil_iff.mpr parts.letters]

/-! ## Forms -/

/-- A token and a text that leaves it as it is when it follows. -/
inductive Form : Token → (behind : Text) → Prop where
  | space {first : Char} {run behind : Text} (starts : isBlank first = true)
      (inside : ∀ c ∈ run, isBlank c = true) (stops : Text.Stops isBlank behind) :
      Form ⟨.space, first :: run⟩ behind
  | ident {first : Char} {run behind : Text} (starts : startsIdent first = true)
      (inside : ∀ c ∈ run, continuesIdent c = true) (stops : Text.Stops continuesIdent behind) :
      Form ⟨.ident, first :: run⟩ behind
  | number {first : Char} {run behind : Text} (starts : startsNumber first run = true)
      (read : numberTail (run ++ behind) = (run, behind)) :
      Form ⟨.number, first :: run⟩ behind
  | closed {body behind : Text} (inside : '"' ∉ body) :
      Form ⟨.str, '"' :: (body ++ ['"'])⟩ behind
  | unclosed {body : Text} (inside : '"' ∉ body) :
      Form ⟨.str, '"' :: body⟩ []
  | single {c : Char} {behind : Text} (solid : isBlank c = false) (other : startsIdent c = false)
      (unnumbered : startsNumber c behind = false) (unquoted : c ≠ '"') :
      Form ⟨singleKind c, [c]⟩ behind

theorem stringTail_append_of_notMem {rest : Text} (unclosed : '"' ∉ rest) (more : Text) :
    stringTail (rest ++ more) = (rest ++ (stringTail more).1, (stringTail more).2) := by
  induction rest with
  | nil => rfl
  | cons c rest ih =>
      rw [List.mem_cons, not_or] at unclosed
      rw [List.cons_append, stringTail, if_neg (Ne.symm unclosed.1), ih unclosed.2]
      rfl

theorem stringTail_of_notMem {rest : Text} (unclosed : '"' ∉ rest) :
    stringTail rest = (rest, []) := by
  simpa [stringTail] using stringTail_append_of_notMem unclosed []

theorem stringTail_of_closed {body : Text} (inside : '"' ∉ body) (behind : Text) :
    stringTail (body ++ '"' :: behind) = (body ++ ['"'], behind) := by
  rw [stringTail_append_of_notMem inside, stringTail, if_pos rfl]

/-- A string goes to its closing quote, or to the end. -/
theorem stringTail_cases (rest : Text) :
    (∃ body behind, '"' ∉ body ∧ stringTail rest = (body ++ ['"'], behind)) ∨
    '"' ∉ rest ∧ stringTail rest = (rest, []) := by
  by_cases closed : '"' ∈ rest
  · left
    obtain ⟨body, behind, rfl, inside⟩ := List.eq_append_cons_of_mem closed
    exact ⟨body, behind, inside, stringTail_of_closed inside behind⟩
  · exact .inr ⟨closed, stringTail_of_notMem closed⟩

theorem startsNumber_of_append {first : Char} {run behind : Text}
    (starts : startsNumber first (run ++ behind) = true)
    (read : numberTail (run ++ behind) = (run, behind)) : startsNumber first run = true := by
  rcases Bool.or_eq_true_iff.mp starts with digit | point
  · simp [startsNumber, digit]
  cases run with
  | cons d more => exact starts
  | nil =>
      -- the digit behind the point belongs to the number, so something of it is read
      cases behind with
      | nil => exact starts
      | cons d more =>
          have digit : d.isDigit = true := (Bool.and_eq_true_iff.mp point).2
          have taken := congrArg Prod.fst read
          simp [numberTail, inMantissa, digit] at taken

/-- The first token of a text has its form, and is cut off where the form says. -/
theorem form_first (c : Char) (rest : Text) :
    Form ⟨kindFrom c rest, c :: (tailOf (kindFrom c rest) rest).1⟩
      (tailOf (kindFrom c rest) rest).2 := by
  have whole := tailOf_append (kindFrom c rest) rest
  by_cases blank : isBlank c = true
  · rw [kindFrom_of_isBlank blank]
    exact .space blank (fun _ member => Text.mem_takeWhile member) (Text.stops_dropWhile _ _)
  have solid : isBlank c = false := by simpa using blank
  by_cases starts : startsIdent c = true
  · rw [kindFrom_of_startsIdent starts]
    exact .ident starts (fun _ member => Text.mem_takeWhile member) (Text.stops_dropWhile _ _)
  have other : startsIdent c = false := by simpa using starts
  by_cases number : startsNumber c rest = true
  · have kind := kindFrom_of_startsNumber number
    rw [kind] at whole ⊢
    have read : numberTail ((tailOf .number rest).1 ++ (tailOf .number rest).2) =
        ((tailOf .number rest).1, (tailOf .number rest).2) := by
      rw [whole]
      rfl
    rw [← whole] at number
    exact .number (startsNumber_of_append number read) read
  have unnumbered : startsNumber c rest = false := by simpa using number
  by_cases quote : c = '"'
  · subst quote
    rw [kindFrom_quote, tailOf]
    rcases stringTail_cases rest with ⟨body, behind, inside, read⟩ | ⟨inside, read⟩
    · rw [read]
      exact .closed inside
    · rw [read]
      exact .unclosed inside
  · rw [kindFrom_single solid other unnumbered quote, tailOf_singleKind]
    exact .single solid other unnumbered quote

theorem form_of_scan_cons {text : Text} {first : Token} {rest : List Token}
    (scanned : scan text = first :: rest) :
    text = first.text ++ render rest ∧ Form first (render rest) ∧ scan (render rest) = rest := by
  have whole := render_scan text
  rw [scanned, render_cons] at whole
  cases text with
  | nil =>
      rw [scan_nil] at scanned
      cases scanned
  | cons c more =>
      rw [scan_cons] at scanned
      obtain ⟨head, tail⟩ := List.cons.inj scanned
      have form := form_first c more
      rw [head] at form
      have behind : render rest = (tailOf (kindFrom c more) more).2 := by rw [← tail, render_scan]
      rw [← behind] at form tail
      exact ⟨whole.symm, form, tail⟩

/-- Every token of a text has its form in front of the tokens that follow it. -/
theorem form_of_scan {text : Text} {front back : List Token} {token : Token}
    (scanned : scan text = front ++ token :: back) :
    Form token (render back) ∧ scan (token.text ++ render back) = token :: back := by
  induction front generalizing text with
  | nil =>
      obtain ⟨whole, form, -⟩ := form_of_scan_cons scanned
      exact ⟨form, whole ▸ scanned⟩
  | cons first front ih =>
      obtain ⟨-, -, later⟩ := form_of_scan_cons scanned
      exact ih later

namespace Form

variable {token : Token} {behind : Text}

theorem exists_cons (form : Form token behind) : ∃ first run, token.text = first :: run := by
  cases form <;> exact ⟨_, _, rfl⟩

theorem text_ne_nil (form : Form token behind) : token.text ≠ [] := by
  obtain ⟨first, run, text⟩ := form.exists_cons
  rw [text]
  exact List.cons_ne_nil first run

/-- A token keeps its form when nothing stands behind it. -/
theorem alone (form : Form token behind) : Form token [] := by
  cases form with
  | space starts inside => exact .space starts inside (Text.stops_nil _)
  | ident starts inside => exact .ident starts inside (Text.stops_nil _)
  | @number first run _ starts read =>
      obtain ⟨digits, power, letters, parts, same⟩ := exists_numberParts (run ++ behind)
      rw [read] at same
      have whole := parts.numberTail_eq
      rw [← show run = _ from same] at whole
      exact .number starts (by rwa [List.append_nil])
  | closed inside => exact .closed inside
  | unclosed inside => exact .unclosed inside
  | single solid other unnumbered unquoted =>
      refine .single solid other ?_ unquoted
      rw [startsNumber, Bool.or_eq_false_iff] at unnumbered
      simp [startsNumber, unnumbered.1, opensWithDigit]

/-- A text that begins with a token and what leaves it as it is has that token first. -/
theorem scan_append (form : Form token behind) :
    scan (token.text ++ behind) = token :: scan behind := by
  cases form with
  | space starts inside stops =>
      rw [List.cons_append, scan_cons, kindFrom_of_isBlank starts, tailOf,
        Text.takeWhile_append_stops inside stops, Text.dropWhile_append_stops inside stops]
  | ident starts inside stops =>
      rw [List.cons_append, scan_cons, kindFrom_of_startsIdent starts, tailOf,
        Text.takeWhile_append_stops inside stops, Text.dropWhile_append_stops inside stops]
  | @number first run _ starts read =>
      have still : startsNumber first (run ++ behind) = true := by
        cases run with
        | cons d more => exact starts
        | nil =>
            rw [startsNumber, opensWithDigit, Bool.and_false, Bool.or_false] at starts
            simp [startsNumber, starts]
      rw [List.cons_append, scan_cons, kindFrom_of_startsNumber still, tailOf, read]
  | closed inside =>
      rw [List.cons_append, scan_cons, kindFrom_quote, tailOf, List.append_assoc,
        List.singleton_append, stringTail_of_closed inside]
  | unclosed inside =>
      rw [List.append_nil, scan_cons, kindFrom_quote, tailOf, stringTail_of_notMem inside]
  | single solid other unnumbered unquoted =>
      rw [List.singleton_append, scan_cons, kindFrom_single solid other unnumbered unquoted,
        tailOf_singleKind]

end Form

/-- A token that is read alone is read as itself. -/
theorem scan_text_of_mem {text : Text} {token : Token} (member : token ∈ scan text) :
    scan token.text = [token] := by
  obtain ⟨front, back, scanned⟩ := List.append_of_mem member
  have read := (form_of_scan scanned).1.alone.scan_append
  rwa [List.append_nil, scan_nil] at read

/-! ## Neighbours -/

/-- Spaces do not meet, and an identifier follows neither an identifier nor a number. -/
def MayMeet (first second : Token) : Prop :=
  ¬(first.kind = .space ∧ second.kind = .space) ∧
    (second.kind = .ident → first.kind ≠ .ident ∧ first.kind ≠ .number)

theorem singleKind_cases {c : Char} {kind : TokenKind} (same : singleKind c = kind) :
    kind ≠ .space ∧ kind ≠ .ident ∧ kind ≠ .number ∧ kind ≠ .str := by
  subst same
  unfold singleKind
  repeat' split
  all_goals decide

theorem Form.startsIdent_head {token : Token} {behind : Text} (form : Form token behind)
    (ident : token.kind = .ident) : ∃ first run, token.text = first :: run ∧
      startsIdent first = true ∧ (∀ c ∈ run, continuesIdent c = true) ∧
      Text.Stops continuesIdent behind := by
  cases form with
  | ident starts inside stops => exact ⟨_, _, rfl, starts, inside, stops⟩
  | single => exact absurd ident (singleKind_cases rfl).2.1
  | _ => cases ident

theorem Form.stops_of_ident {token : Token} {behind : Text} (form : Form token behind)
    (ident : token.kind = .ident) : Text.Stops continuesIdent behind := by
  obtain ⟨-, -, -, -, -, stops⟩ := form.startsIdent_head ident
  exact stops

theorem Form.isBlank_head {token : Token} {behind : Text} (form : Form token behind)
    (space : token.kind = .space) : ∃ first run, token.text = first :: run ∧
      isBlank first = true ∧ (∀ c ∈ run, isBlank c = true) ∧ Text.Stops isBlank behind := by
  cases form with
  | space starts inside stops => exact ⟨_, _, rfl, starts, inside, stops⟩
  | single => exact absurd space (singleKind_cases rfl).1
  | _ => cases space

/-- No letter follows a number. -/
theorem Form.stops_of_number {token : Token} {behind : Text} (form : Form token behind)
    (number : token.kind = .number) : Text.Stops startsIdent behind := by
  cases form with
  | @number first run _ starts read =>
      have rest := congrArg Prod.snd read
      rw [← show _ = behind from rest]
      exact Text.stops_dropWhile _ _
  | single => exact absurd number (singleKind_cases rfl).2.2.1
  | _ => cases number

/-- The parts of a whole number: the first character belongs to its digits and points. -/
theorem Form.exists_parts {token : Token} {behind : Text} (form : Form token behind)
    (number : token.kind = .number) :
    ∃ first run digits power letters, token.text = first :: run ∧
      startsNumber first run = true ∧ NumberParts digits power letters ∧
      token.text = digits ++ (power ++ letters) := by
  cases form with
  | @number first run _ starts read =>
      obtain ⟨digits, power, letters, parts, same⟩ := exists_numberParts (run ++ behind)
      rw [read] at same
      have leads : inMantissa first = true := by
        rcases Bool.or_eq_true_iff.mp starts with digit | point
        · simp [inMantissa, digit]
        · simp [inMantissa, (Bool.and_eq_true_iff.mp point).1]
      refine ⟨first, run, first :: digits, power, letters, rfl, starts, ?_, ?_⟩
      · exact ⟨List.forall_mem_cons.mpr ⟨leads, parts.digits⟩, parts.power, parts.letters⟩
      · exact congrArg (first :: ·) same
  | single => exact absurd number (singleKind_cases rfl).2.2.1
  | _ => cases number

theorem isDigit_of_mem_digits {digit : Char} {digits : Text} (starts : digit.isDigit = true)
    (inside : ∀ c ∈ digits, c.isDigit = true) {c : Char} (member : c ∈ digit :: digits) :
    c.isDigit = true := by
  rcases List.mem_cons.mp member with rfl | later
  · exact starts
  · exact inside c later

theorem Power.startsIdent_or_isDigit_or_sign {power : Text} (given : Power power) {c : Char}
    (member : c ∈ power) :
    startsIdent c = true ∨ c.isDigit = true ∨ isSign c = true := by
  cases given with
  | plain marked starts inside =>
      rcases List.mem_cons.mp member with rfl | later
      · exact .inl (startsIdent_of_mark marked)
      · exact .inr (.inl (isDigit_of_mem_digits starts inside later))
  | signed marked signs starts inside =>
      rcases List.mem_cons.mp member with rfl | later
      · exact .inl (startsIdent_of_mark marked)
      rcases List.mem_cons.mp later with rfl | digits
      · exact .inr (.inr signs)
      · exact .inr (.inl (isDigit_of_mem_digits starts inside digits))

/-- Behind its digits and points a number has letters, digits and signs. -/
theorem NumberParts.mem_behind {digits power letters : Text}
    (parts : NumberParts digits power letters) {c : Char} (member : c ∈ power ++ letters) :
    startsIdent c = true ∨ c.isDigit = true ∨ isSign c = true := by
  rcases List.mem_append.mp member with inPower | inLetters
  · rcases parts.power with rfl | given
    · cases inPower
    · exact given.startsIdent_or_isDigit_or_sign inPower
  · exact .inl (parts.letters c inLetters)

/-- The characters of a number. -/
theorem Form.mem_number {token : Token} {behind : Text} (form : Form token behind)
    (number : token.kind = .number) {c : Char} (member : c ∈ token.text) :
    inMantissa c = true ∨ startsIdent c = true ∨ isSign c = true := by
  obtain ⟨-, -, digits, power, letters, -, -, parts, whole⟩ := form.exists_parts number
  rw [whole] at member
  rcases List.mem_append.mp member with inDigits | later
  · exact .inl (parts.digits c inDigits)
  · rcases parts.mem_behind later with letter | digit | sign
    · exact .inr (.inl letter)
    · exact .inl (by simp [inMantissa, digit])
    · exact .inr (.inr sign)

/-- In front of a point a number has digits and points only. -/
theorem Form.inMantissa_of_point {token : Token} {behind front back : Text}
    (form : Form token behind) (number : token.kind = .number)
    (split : token.text = front ++ '.' :: back) : ∀ c ∈ front, inMantissa c = true := by
  obtain ⟨-, -, digits, power, letters, -, -, parts, whole⟩ := form.exists_parts number
  rcases List.append_eq_append_iff.mp (split.symm.trans whole) with
    ⟨more, same, -⟩ | ⟨more, -, same⟩
  · intro c member
    exact parts.digits c (same ▸ List.mem_append_left more member)
  · have point : '.' ∈ power ++ letters := same ▸ List.mem_append_right more (List.mem_cons_self ..)
    exact absurd (parts.mem_behind point) (by decide)

theorem NumberParts.isDigit_behind_sign {digits power letters front back : Text} {sign c : Char}
    (parts : NumberParts digits power letters) (signs : isSign sign = true)
    (split : power ++ letters = front ++ sign :: c :: back) : c.isDigit = true := by
  obtain ⟨letterless, -, digitless⟩ := apart_of_isSign signs
  have unlike {d : Char} (other : startsIdent d = true ∨ d.isDigit = true) : sign ≠ d := by
    rintro rfl
    simp [letterless, digitless] at other
  have absent {first : Char} {run : Text} (starts : first.isDigit = true)
      (inside : ∀ d ∈ run, d.isDigit = true) : sign ∉ first :: (run ++ letters) := by
    rw [← List.cons_append]
    intro member
    rcases List.mem_append.mp member with inDigits | inLetters
    · exact unlike (.inr (isDigit_of_mem_digits starts inside inDigits)) rfl
    · exact unlike (.inl (parts.letters sign inLetters)) rfl
  have present (front : Text) : sign ∈ front ++ sign :: c :: back :=
    List.mem_append_right front (List.mem_cons_self ..)
  rcases parts.power with rfl | given
  · have member := present front
    rw [← split] at member
    exact absurd rfl (unlike (.inl (parts.letters sign member)))
  cases given with
  | plain marked starts inside =>
      have member := present front
      rw [← split] at member
      rcases List.mem_cons.mp member with same | later
      · exact absurd same (unlike (.inl (startsIdent_of_mark marked)))
      · exact absurd later (absent starts inside)
  | signed marked _ starts inside =>
      rw [List.cons_append, List.cons_append, List.cons_append] at split
      match front with
      | [] =>
          exact absurd (List.cons.inj split).1.symm (unlike (.inl (startsIdent_of_mark marked)))
      | [_] =>
          obtain ⟨-, rest⟩ := List.cons.inj split
          exact (List.cons.inj (List.cons.inj rest).2).1 ▸ starts
      | _ :: _ :: front =>
          have later := present front
          rw [List.cons_append, List.cons_append, List.cons.injEq, List.cons.injEq] at split
          rw [← split.2.2] at later
          exact absurd later (absent starts inside)

/-- A sign in a number stands before a digit. -/
theorem Form.isDigit_behind_sign {token : Token} {behind front back : Text} {sign c : Char}
    (form : Form token behind) (number : token.kind = .number) (signs : isSign sign = true)
    (split : token.text = front ++ sign :: c :: back) : c.isDigit = true := by
  obtain ⟨-, -, digits, power, letters, -, -, parts, whole⟩ := form.exists_parts number
  rcases List.append_eq_append_iff.mp (split.symm.trans whole) with
    ⟨more, same, rest⟩ | ⟨more, -, rest⟩
  · cases more with
    | nil =>
        have leading : power ++ letters = [] ++ sign :: c :: back := rest.symm
        exact parts.isDigit_behind_sign signs leading
    | cons d more =>
        have inside := parts.digits d (same ▸ List.mem_append_right front (List.mem_cons_self ..))
        rw [← (List.cons.inj rest).1, (apart_of_isSign signs).2.1] at inside
        cases inside
  · exact parts.isDigit_behind_sign signs rest

/-- Only strings have quotes. -/
theorem Form.quote_notMem {token : Token} {behind : Text} (form : Form token behind)
    (other : token.kind ≠ .str) : '"' ∉ token.text := by
  intro member
  cases form with
  | space starts inside =>
      have blank : isBlank '"' = true := by
        rcases List.mem_cons.mp member with rfl | later
        · exact starts
        · exact inside _ later
      exact absurd blank (by decide)
  | ident starts inside =>
      have inner : continuesIdent '"' = true := by
        rcases List.mem_cons.mp member with rfl | later
        · exact continuesIdent_of_startsIdent starts
        · exact inside _ later
      exact absurd inner (by decide)
  | number starts read =>
      exact absurd ((Form.number starts read).mem_number rfl member) (by decide)
  | closed => exact other rfl
  | unclosed => exact other rfl
  | single _ _ _ unquoted => exact unquoted (List.mem_singleton.mp member).symm

theorem Form.mayMeet {first second : Token} {behind : Text}
    (left : Form first (second.text ++ behind)) (right : Form second behind) :
    MayMeet first second := by
  constructor
  · rintro ⟨firstSpace, secondSpace⟩
    obtain ⟨-, -, -, -, -, stops⟩ := left.isBlank_head firstSpace
    obtain ⟨c, run, text, blank, -⟩ := right.isBlank_head secondSpace
    rw [text, List.cons_append, Text.stops_cons, blank] at stops
    cases stops
  · intro ident
    obtain ⟨c, run, text, starts, -⟩ := right.startsIdent_head ident
    constructor
    · intro firstIdent
      have stops := left.stops_of_ident firstIdent
      rw [text, List.cons_append, Text.stops_cons, continuesIdent_of_startsIdent starts] at stops
      cases stops
    · intro number
      have stops := left.stops_of_number number
      rw [text, List.cons_append, Text.stops_cons, starts] at stops
      cases stops

theorem mayMeet_of_scan {text : Text} {front back : List Token} {first second : Token}
    (scanned : scan text = front ++ first :: second :: back) : MayMeet first second := by
  have later : scan text = (front ++ [first]) ++ second :: back := by simpa using scanned
  exact (form_of_scan scanned).1.mayMeet (form_of_scan later).1

/-! ## Positions -/

/-- A token starts at the first byte behind the tokens in front of it. -/
theorem start_of_scanFrom {start : Nat} {text : Text} {token : PlacedToken}
    {front back : List PlacedToken} (scanned : scanFrom start text = front ++ token :: back) :
    token.start = start + Text.byteSize (render (front.map PlacedToken.toToken)) := by
  induction text using scan_induction generalizing start front with
  | nil =>
      rw [scanFrom] at scanned
      simp at scanned
  | cons first rest ih =>
      rw [scanFrom] at scanned
      cases front with
      | nil =>
          rw [← (List.cons.inj scanned).1]
          rfl
      | cons other front =>
          obtain ⟨rfl, later⟩ := List.cons.inj scanned
          rw [ih later, List.map_cons, render_cons, Text.byteSize_append, ← Nat.add_assoc]
          rfl

/-- The tokens of a text are not empty and stand side by side: put together they are the text, and
each starts at the byte where the ones in front of it end, between two characters of the text.
A token that is read alone is read as itself.  Spaces do not meet, and an identifier follows
neither an identifier nor a number. -/
theorem scan_tiles (text : Text) :
    render (scan text) = text ∧
    (∀ token ∈ scan text, token.text ≠ [] ∧ scan token.text = [token]) ∧
    (∀ front token back, scanFrom 0 text = front ++ token :: back →
      scan text = front.map PlacedToken.toToken ++
        token.toToken :: back.map PlacedToken.toToken ∧
      token.start = Text.byteSize (render (front.map PlacedToken.toToken)) ∧
      Text.takeBytes token.start text = render (front.map PlacedToken.toToken) ∧
      Text.dropBytes token.start text =
        token.text ++ render (back.map PlacedToken.toToken)) ∧
    (scan text).IsChain MayMeet := by
  refine ⟨render_scan text, ?_, ?_, ?_⟩
  · intro token member
    obtain ⟨front, back, scanned⟩ := List.append_of_mem member
    exact ⟨(form_of_scan scanned).1.text_ne_nil, scan_text_of_mem member⟩
  · intro front token back scanned
    have split : scan text = front.map PlacedToken.toToken ++
        token.toToken :: back.map PlacedToken.toToken := by
      rw [scan, scanned, List.map_append, List.map_cons]
    have position : token.start = Text.byteSize (render (front.map PlacedToken.toToken)) := by
      rw [start_of_scanFrom scanned, Nat.zero_add]
    have whole : text = render (front.map PlacedToken.toToken) ++
        (token.text ++ render (back.map PlacedToken.toToken)) := by
      rw [← render_cons, ← render_append, ← split, render_scan]
    refine ⟨split, position, ?_, ?_⟩
    · rw [position, whole, Text.takeBytes_byteSize_append]
    · rw [position, whole, Text.dropBytes_byteSize_append]
  · exact List.isChain_iff_forall_rel_of_append_cons_cons.mpr
      fun _ _ _ _ scanned => mayMeet_of_scan scanned

end Token

end Netlist

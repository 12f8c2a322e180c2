import Mathlib.Data.List.Induction
import Netlist.Proofs.UnrelatedParameters

/-!
# Scanning a text again

A text is put together from tokens that do not have to be its own tokens: where
two of them meet, a number may go on across the border, and the tokens behind it
are then cut elsewhere.  Still, an identifier of the text is one of these tokens,
or it stands behind a point, or it is the part of one of them behind a mark; and
that part is cut off only by a number that takes in the points before it.
-/

namespace Netlist

namespace Token

/-- The point that is a token by itself. -/
def point : Token := ⟨.punct, ['.']⟩

/-- The characters that go on with an identifier but neither start nor end anything else. -/
def isMark (c : Char) : Bool := c == '#' || c == '$' || c == ':' || c == '!'

/-- Holds of every token with the token before it and the tokens behind it. -/
def Throughout (holds : Option Token → Token → List Token → Prop) :
    Option Token → List Token → Prop
  | _, [] => True
  | before, first :: rest => holds before first rest ∧ Throughout holds (some first) rest

theorem Throughout.at_split {holds : Option Token → Token → List Token → Prop}
    {before : Option Token} {front back : List Token} {token : Token}
    (all : Throughout holds before (front ++ token :: back)) :
    holds (front.getLast?.or before) token back := by
  induction front generalizing before with
  | nil => exact all.1
  | cons first front ih =>
      have later := ih all.2
      cases front with
      | nil => exact later
      | cons second front => exact later

theorem Throughout.mono {holds weaker : Option Token → Token → List Token → Prop}
    (imp : ∀ {before first rest}, holds before first rest → weaker before first rest)
    {before : Option Token} {tokens : List Token} (all : Throughout holds before tokens) :
    Throughout weaker before tokens := by
  induction tokens generalizing before with
  | nil => trivial
  | cons first rest ih => exact ⟨imp all.1, ih all.2⟩

/-- A token among others that a text is put together from. -/
structure Fits (before : Option Token) (first : Token) (rest : List Token) : Prop where
  alone : Form first []
  kept : first.kind = .ident ∨ first.kind = .str → Form first (render rest)
  apart : first.kind = .ident → ∀ token, before = some token → token.isName = false

/-- The token in which a character of a text stands. -/
theorem exists_token_over {tokens : List Token} {front back : Text} {c : Char}
    (split : render tokens = front ++ c :: back) :
    ∃ before token behind lead rest, tokens = before ++ token :: behind ∧
      token.text = lead ++ c :: rest ∧ front = render before ++ lead ∧
      back = rest ++ render behind := by
  induction tokens generalizing front with
  | nil => simp at split
  | cons first tail ih =>
      have later {more : Text} (same : front = first.text ++ more)
          (rest : render tail = more ++ c :: back) :
          ∃ before token behind lead rest, first :: tail = before ++ token :: behind ∧
            token.text = lead ++ c :: rest ∧ front = render before ++ lead ∧
            back = rest ++ render behind := by
        obtain ⟨before, token, behind, lead, other, cut, text, start, stop⟩ := ih rest
        refine ⟨first :: before, token, behind, lead, other, ?_, text, ?_, stop⟩
        · rw [cut]
          rfl
        · rw [same, start, render_cons, List.append_assoc]
      rw [render_cons] at split
      rcases List.append_eq_append_iff.mp split with ⟨more, same, rest⟩ | ⟨more, same, rest⟩
      · exact later same rest
      · cases more with
        | nil =>
            have whole : render tail = [] ++ c :: back := rest.symm
            exact later (by rw [same, List.append_nil, List.append_nil]) whole
        | cons d more =>
            obtain ⟨rfl, rfl⟩ := List.cons.inj rest
            exact ⟨[], first, tail, front, more, rfl, same, rfl, rfl⟩

/-- A text put together from `pieces` has a token that begins between `lead` and `rest`, the two
parts of one of the pieces. -/
structure CutIn (pieces front back before : List Token) (piece : Token) (behind : List Token)
    (lead rest : Text) : Prop where
  scanned : scan (render pieces) = front ++ back
  split : pieces = before ++ piece :: behind
  text : piece.text = lead ++ rest
  cut : render front = render before ++ lead

theorem CutIn.render_back {pieces front back before behind : List Token} {piece : Token}
    {lead rest : Text} (within : CutIn pieces front back before piece behind lead rest) :
    render back = rest ++ render behind := by
  have whole := render_scan (render pieces)
  rw [within.scanned, render_append, within.cut, within.split, render_append, render_cons,
    within.text, List.append_assoc, List.append_assoc] at whole
  exact List.append_cancel_left (List.append_cancel_left whole)

/-- Every token of the text begins in one of the pieces. -/
theorem exists_cutIn {pieces front back : List Token} {c : Char} {more : Text}
    (scanned : scan (render pieces) = front ++ back) (starts : render back = c :: more) :
    ∃ before piece behind lead rest,
      CutIn pieces front back before piece behind lead (c :: rest) := by
  have whole := render_scan (render pieces)
  rw [scanned, render_append, starts] at whole
  obtain ⟨before, piece, behind, lead, rest, split, text, cut, -⟩ := exists_token_over whole.symm
  exact ⟨before, piece, behind, lead, rest, scanned, split, text, cut⟩

/-! ## Strings -/

/-- A string has a second quote only at its end. -/
theorem Form.eq_nil_of_quote {token : Token} {behind body more : Text} (form : Form token behind)
    (string : token.kind = .str) (text : token.text = '"' :: (body ++ '"' :: more)) :
    more = [] := by
  cases form with
  | @closed inner _ inside =>
      rcases List.append_eq_append_iff.mp (List.cons.inj text).2 with
        ⟨rest, -, back⟩ | ⟨rest, rfl, back⟩
      · cases rest with
        | nil => exact (List.cons.inj back).2.symm
        | cons c rest => simp at back
      · cases rest with
        | nil => exact (List.cons.inj back).2
        | cons c rest =>
            obtain ⟨rfl, -⟩ := List.cons.inj back
            exact absurd (List.mem_append_right body (List.mem_cons_self ..)) inside
  | unclosed inside =>
      rw [(List.cons.inj text).2] at inside
      exact absurd (List.mem_append_right body (List.mem_cons_self ..)) inside
  | single => exact absurd string (singleKind_cases rfl).2.2.2
  | _ => cases string

/-- A string with something behind it is closed. -/
theorem Form.exists_body {token : Token} {behind : Text} (form : Form token behind)
    (string : token.kind = .str) (something : behind ≠ []) :
    ∃ body, token.text = '"' :: (body ++ ['"']) := by
  cases form with
  | closed => exact ⟨_, rfl⟩
  | unclosed => exact absurd rfl something
  | single => exact absurd string (singleKind_cases rfl).2.2.2
  | _ => cases string

/-- A string does not go on behind a closed one. -/
theorem Form.eq_nil_of_closed {short long : Token} {behind after more : Text}
    (form : Form short behind) (closed : short.kind = .str) (something : behind ≠ [])
    (outer : Form long after) (string : long.kind = .str)
    (text : long.text = short.text ++ more) : more = [] := by
  obtain ⟨body, quoted⟩ := form.exists_body closed something
  have twice : long.text = '"' :: (body ++ '"' :: more) := by
    rw [text, quoted]
    simp
  exact outer.eq_nil_of_quote string twice

theorem Form.starts_with_quote {token : Token} {behind : Text} (form : Form token behind)
    (string : token.kind = .str) : ∃ body, token.text = '"' :: body := by
  cases form with
  | closed => exact ⟨_, rfl⟩
  | unclosed => exact ⟨_, rfl⟩
  | single => exact absurd string (singleKind_cases rfl).2.2.2
  | _ => cases string

theorem Form.kind_eq_str {token : Token} {behind : Text} (form : Form token behind)
    (quote : '"' ∈ token.text) : token.kind = .str := by
  by_contra other
  exact form.quote_notMem other quote

/-- No token of the text begins inside a string that the text is put together from. -/
theorem CutIn.lead_eq_nil_of_str {pieces : List Token} (fits : Throughout Fits none pieces)
    {front back before behind : List Token} {string : Token} {lead rest : Text}
    (within : CutIn pieces front back before string behind lead rest)
    (kind : string.kind = .str) (something : rest ≠ []) : lead = [] := by
  induction count : front.length using Nat.strong_induction_on
    generalizing front back before behind string lead rest with
  | _ bound ih =>
      cases lead with
      | nil => rfl
      | cons c lead =>
          exfalso
          have form : Form string (render behind) :=
            (within.split ▸ fits).at_split.kept (.inr kind)
          obtain ⟨body, starts⟩ := form.starts_with_quote kind
          obtain rfl : '"' = c := (List.cons.inj (starts.symm.trans within.text)).1
          -- the token that takes in the opening quote is a string, too
          obtain ⟨early, cover, late, first, second, cutFront, coverText, beforeText, leadText⟩ :=
            exists_token_over within.cut
          have scanned := within.scanned
          rw [cutFront, List.append_assoc, List.cons_append] at scanned
          have coverForm := (form_of_scan scanned).1
          have coverKind : cover.kind = .str :=
            coverForm.kind_eq_str (coverText ▸ List.mem_append_right first (List.mem_cons_self ..))
          cases first with
          | nil =>
              -- it begins there and is closed where the piece is closed
              have further : render (late ++ back) ≠ [] := by
                rw [render_append, within.render_back]
                simp [something]
              have whole : string.text = cover.text ++ (render late ++ rest) := by
                rw [within.text, leadText, coverText]
                simp
              have nothing := coverForm.eq_nil_of_closed coverKind further form kind whole
              exact something (List.append_eq_nil_iff.mp nothing).2
          | cons d first =>
              -- it begins earlier, at a quote of another piece
              obtain ⟨inner, quoted⟩ := coverForm.starts_with_quote coverKind
              obtain rfl : '"' = d := (List.cons.inj (quoted.symm.trans coverText)).1
              obtain ⟨front', other, back', lead', rest', cutBefore, otherText, earlyText,
                firstText⟩ := exists_token_over beforeText
              have split : pieces = front' ++ other :: (back' ++ string :: behind) := by
                rw [within.split, cutBefore, List.append_assoc, List.cons_append]
              have otherFits := (split ▸ fits).at_split
              have otherKind : other.kind = .str :=
                otherFits.alone.kind_eq_str
                  (otherText ▸ List.mem_append_right lead' (List.mem_cons_self ..))
              have shorter : early.length < bound := by
                rw [← count, cutFront, List.length_append]
                simp
              have start := ih early.length shorter ⟨scanned, split, otherText, earlyText⟩ otherKind
                (List.cons_ne_nil _ _) rfl
              have further : render (back' ++ string :: behind) ≠ [] := by
                rw [render_append, render_cons, starts]
                simp
              have whole : cover.text = other.text ++ (render back' ++ '"' :: second) := by
                rw [coverText, firstText, otherText, start]
                simp
              have nothing := (otherFits.kept (.inr otherKind)).eq_nil_of_closed otherKind further
                coverForm coverKind whole
              simp at nothing

/-! ## What stands before an identifier -/

/-- The last character of a token that is neither a name nor an open string. -/
theorem Form.last_cases {token : Token} {behind front : Text} {c : Char} (form : Form token behind)
    (something : token.kind = .str → behind ≠ []) (other : token.isName = false)
    (text : token.text = front ++ [c]) :
    isBlank c = true ∨ c = '"' ∨
      (token = ⟨singleKind c, [c]⟩ ∧ startsIdent c = false ∧ c.isDigit = false) := by
  have last : token.text.getLast? = some c := by rw [text, List.getLast?_concat]
  cases form with
  | @space first run _ starts inside =>
      have blank : ∀ d ∈ first :: run, isBlank d = true := List.forall_mem_cons.mpr ⟨starts, inside⟩
      exact .inl (blank c (List.mem_of_getLast? last))
  | ident => cases other
  | number => cases other
  | closed inside =>
      rw [← List.cons_append, List.getLast?_concat] at last
      exact .inr (.inl (Option.some.inj last).symm)
  | unclosed => exact absurd rfl (something rfl)
  | single solid letter unnumbered =>
      obtain rfl := Option.some.inj last
      exact .inr (.inr ⟨rfl, letter, (Bool.or_eq_false_iff.mp unnumbered).1⟩)

/-- The last token of a text takes in the last character. -/
theorem exists_concat_of_render {tokens : List Token} {front : Text} {c : Char}
    (nonempty : ∀ token ∈ tokens, token.text ≠ []) (text : render tokens = front ++ [c]) :
    ∃ before last lead, tokens = before ++ [last] ∧ last.text = lead ++ [c] := by
  rcases List.eq_nil_or_concat' tokens with rfl | ⟨before, last, rfl⟩
  · exact absurd text.symm (List.append_ne_nil_of_right_ne_nil _ (List.cons_ne_nil _ _))
  · rcases List.eq_nil_or_concat' last.text with nothing | ⟨lead, d, own⟩
    · exact absurd nothing (nonempty last (by simp))
    · rw [render_append, render_cons, render_nil, List.append_nil, own, ← List.append_assoc] at text
      obtain ⟨-, same⟩ := List.append_inj' text rfl
      exact ⟨before, last, lead, rfl, by rw [own, same]⟩

theorem text_ne_nil_of_mem_scan {text : Text} {token : Token} (member : token ∈ scan text) :
    token.text ≠ [] := by
  obtain ⟨front, back, scanned⟩ := List.append_of_mem member
  exact (form_of_scan scanned).1.text_ne_nil

/-- A character before an identifier that belongs to no space and to no string is a token by
itself. -/
theorem getLast?_of_ident {text : Text} {front back : List Token} {token : Token} {lead : Text}
    {c : Char} (scanned : scan text = front ++ token :: back) (ident : token.kind = .ident)
    (ends : render front = lead ++ [c]) (solid : isBlank c = false) (unquoted : c ≠ '"') :
    front.getLast? = some ⟨singleKind c, [c]⟩ ∧ startsIdent c = false ∧ c.isDigit = false := by
  have nonempty : ∀ token ∈ front, token.text ≠ [] := fun token member =>
    text_ne_nil_of_mem_scan (scanned ▸ List.mem_append_left _ member)
  obtain ⟨before, last, own, rfl, lastText⟩ := exists_concat_of_render nonempty ends
  rw [List.append_assoc, List.singleton_append] at scanned
  obtain ⟨notIdent, notNumber⟩ := (mayMeet_of_scan scanned).2 ident
  have other : last.isName = false := by simp [isName, notIdent, notNumber]
  have form := (form_of_scan scanned).1
  have something : render (token :: back) ≠ [] := by
    have own : token ∈ scan text := scanned ▸ by simp
    rw [render_cons]
    simp [text_ne_nil_of_mem_scan own]
  rcases form.last_cases (fun _ => something) other lastText with
    blank | quote | ⟨single, letter, digit⟩
  · rw [solid] at blank
    cases blank
  · exact absurd quote unquoted
  · exact ⟨by rw [List.getLast?_concat, single], letter, digit⟩

/-- The tokens of a list are some tokens and then points, of which the former do not end with
another one. -/
theorem exists_points (tokens : List Token) :
    ∃ front points, tokens = front ++ points ∧ (∀ token ∈ points, token = point) ∧
      ∀ last, front.getLast? = some last → last ≠ point := by
  induction tokens using List.reverseRecOn with
  | nil => exact ⟨[], [], rfl, by simp, by simp⟩
  | append_singleton tokens last ih =>
      by_cases same : last = point
      · obtain ⟨front, points, rfl, all, ends⟩ := ih
        refine ⟨front, points ++ [last], List.append_assoc .., ?_, ends⟩
        intro token member
        rcases List.mem_append.mp member with inside | own
        · exact all token inside
        · exact (List.mem_singleton.mp own).trans same
      · refine ⟨tokens ++ [last], [], (List.append_nil _).symm, by simp, ?_⟩
        intro other found
        rw [List.getLast?_concat] at found
        exact Option.some.inj found ▸ same

/-! ## Where an identifier is cut -/

theorem Fits.last_cases {before : Option Token} {first : Token} {rest : List Token} {front : Text}
    {c : Char} (fits : Fits before first rest) (something : render rest ≠ [])
    (other : first.isName = false) (text : first.text = front ++ [c]) :
    isBlank c = true ∨ c = '"' ∨
      (first = ⟨singleKind c, [c]⟩ ∧ startsIdent c = false ∧ c.isDigit = false) := by
  by_cases string : first.kind = .str
  · exact (fits.kept (.inr string)).last_cases (fun _ => something) other text
  · exact fits.alone.last_cases (fun same => absurd same string) other text

/-- A letter belongs to an identifier, to a number or to a string. -/
theorem Form.kind_of_startsIdent {token : Token} {behind : Text} {c : Char}
    (form : Form token behind) (member : c ∈ token.text) (starts : startsIdent c = true) :
    token.kind = .ident ∨ token.kind = .number ∨ token.kind = .str := by
  cases form with
  | @space first run _ blank inside =>
      have all : ∀ d ∈ first :: run, isBlank d = true := List.forall_mem_cons.mpr ⟨blank, inside⟩
      rw [not_startsIdent_of_isBlank (all c member)] at starts
      cases starts
  | ident => exact .inl rfl
  | number => exact .inr (.inl rfl)
  | closed => exact .inr (.inr rfl)
  | unclosed => exact .inr (.inr rfl)
  | single _ other =>
      rw [List.mem_singleton.mp member, other] at starts
      cases starts

/-- Before a letter a number has more than points. -/
theorem Form.not_points_before_letter {token : Token} {behind front back : Text} {c : Char}
    (form : Form token behind) (number : token.kind = .number)
    (text : token.text = front ++ c :: back) (letter : startsIdent c = true) :
    ¬∀ d ∈ front, d = '.' := by
  intro points
  obtain ⟨first, run, -, -, -, whole, starts, -, -⟩ := form.exists_parts number
  rw [text] at whole
  have digitless := not_isDigit_of_startsIdent letter
  cases front with
  | nil =>
      have point : c ≠ '.' := by
        rintro rfl
        exact absurd letter (by decide)
      obtain ⟨rfl, rfl⟩ := List.cons.inj whole
      simp [startsNumber, digitless, point] at starts
  | cons d front =>
      obtain ⟨rfl, same⟩ := List.cons.inj whole
      obtain ⟨rfl, later⟩ := List.forall_mem_cons.mp points
      have opens : opensWithDigit run = true := by simpa [startsNumber] using starts
      rw [← same] at opens
      cases front with
      | nil =>
          have digit : c.isDigit = true := opens
          rw [digitless] at digit
          cases digit
      | cons e front =>
          have digit : e.isDigit = true := opens
          rw [later e (List.mem_cons_self ..)] at digit
          exact absurd digit (by decide)

theorem Form.continuesIdent_of_mem {token : Token} {behind : Text} (form : Form token behind)
    (ident : token.kind = .ident) {c : Char} (member : c ∈ token.text) :
    continuesIdent c = true := by
  obtain ⟨first, run, text, starts, inside, -⟩ := form.startsIdent_head ident
  rw [text] at member
  rcases List.mem_cons.mp member with rfl | later
  · exact continuesIdent_of_startsIdent starts
  · exact inside c later

/-- An identifier is cut by a token that begins before it, and this is a number. -/
theorem CutIn.exists_number_over {pieces : List Token} (fits : Throughout Fits none pieces)
    {front back before behind : List Token} {name : Token} {c : Char} {lead rest : Text}
    (within : CutIn pieces front back before name behind (c :: lead) rest)
    (ident : name.kind = .ident) (something : rest ≠ []) :
    ∃ early cover late first second, front = early ++ cover :: late ∧
      cover.text = first ++ c :: second ∧ render before = render early ++ first ∧
      Form cover (render (late ++ back)) ∧ cover.kind = .number ∧ startsIdent c = true := by
  have form := (within.split ▸ fits).at_split.kept (.inl ident)
  obtain ⟨early, cover, late, first, second, cutFront, coverText, beforeText, leadText⟩ :=
    exists_token_over within.cut
  have scanned := within.scanned
  rw [cutFront, List.append_assoc, List.cons_append] at scanned
  have coverForm := (form_of_scan scanned).1
  have inner {d : Char} (member : d ∈ c :: second ++ (render late ++ rest)) :
      continuesIdent d = true := by
    refine form.continuesIdent_of_mem ident ?_
    rw [within.text, leadText]
    simpa using member
  have starts : startsIdent c = true := by
    obtain ⟨d, run, text, starts, -⟩ := form.startsIdent_head ident
    rw [(List.cons.inj (within.text.symm.trans text)).1]
    exact starts
  have behindCover : render (late ++ back) = (render late ++ rest) ++ render behind := by
    rw [render_append, within.render_back, List.append_assoc]
  refine ⟨early, cover, late, first, second, cutFront, coverText, beforeText, coverForm, ?_, starts⟩
  have own : c ∈ cover.text := coverText ▸ List.mem_append_right first (List.mem_cons_self ..)
  rcases coverForm.kind_of_startsIdent own starts with name | number | string
  · -- an identifier would take in the rest of the piece
    exfalso
    have stops := coverForm.stops_of_ident name
    rw [behindCover] at stops
    obtain ⟨d, more, further⟩ := List.exists_cons_of_ne_nil
      (List.append_ne_nil_of_right_ne_nil (render late) something)
    rw [further, List.cons_append, Text.stops_cons,
      inner (List.mem_append_right _ (further ▸ List.mem_cons_self ..))] at stops
    cases stops
  · exact number
  · -- a string would end with a quote inside the piece
    exfalso
    have further : render (late ++ back) ≠ [] := by
      rw [behindCover]
      simp [something]
    obtain ⟨body, closed⟩ := coverForm.exists_body string further
    have last : (first ++ c :: second).getLast? = some '"' := by
      rw [← coverText, closed, ← List.cons_append, List.getLast?_concat]
    rw [List.getLast?_append_of_ne_nil _ (List.cons_ne_nil _ _)] at last
    exact absurd (inner (List.mem_append_left _ (List.mem_of_getLast? last))) (by decide)

theorem not_isBlank_of_inNumber {c : Char}
    (inside : inMantissa c = true ∨ startsIdent c = true ∨ isSign c = true) :
    isBlank c = false := by
  rcases inside with mantissa | letter | sign
  · exact not_isBlank_of_inMantissa mantissa
  · exact not_isBlank_of_startsIdent letter
  · rcases Bool.or_eq_true_iff.mp sign with plus | minus
    · rw [beq_iff_eq.mp plus]
      decide
    · rw [beq_iff_eq.mp minus]
      decide

theorem mem_render_points {points : List Token} (all : ∀ token ∈ points, token = point) {c : Char}
    (member : c ∈ render points) : c = '.' := by
  obtain ⟨token, inside, own⟩ := List.mem_flatMap.mp member
  rw [all token inside] at own
  exact List.mem_singleton.mp own

/-- A piece that is followed by a point and ends with a digit or a point is a number or a point. -/
theorem Fits.number_of_last {before : Option Token} {first : Token} {rest : List Token}
    {front more : Text} {c : Char} (fits : Fits before first rest)
    (behind : render rest = '.' :: more) (text : first.text = front ++ [c])
    (mantissa : inMantissa c = true) (other : first ≠ point) : first.kind = .number := by
  by_contra unnumbered
  have unnamed : first.kind ≠ .ident := by
    intro ident
    have stops := (fits.kept (.inl ident)).stops_of_ident ident
    rw [behind, Text.stops_cons] at stops
    exact absurd stops (by decide)
  have something : render rest ≠ [] := behind ▸ List.cons_ne_nil '.' more
  rcases fits.last_cases something (by simp [isName, unnumbered, unnamed]) text with
    blank | rfl | ⟨single, -, digitless⟩
  · rw [not_isBlank_of_inMantissa mantissa] at blank
    cases blank
  · exact absurd mantissa (by decide)
  · obtain rfl : c = '.' := by simpa [inMantissa, digitless] using mantissa
    exact other single

theorem Throughout.text_ne_nil {before : Option Token} {pieces : List Token}
    (fits : Throughout Fits before pieces) {token : Token} (member : token ∈ pieces) :
    token.text ≠ [] := by
  obtain ⟨front, back, rfl⟩ := List.append_of_mem member
  exact fits.at_split.alone.text_ne_nil

/-- A number that goes on with an identifier takes in a point before it. -/
theorem Throughout.getLast?_before_name {before behind : List Token} {name cover : Token}
    (fits : Throughout Fits none (before ++ name :: behind)) (ident : name.kind = .ident)
    {front first second after : Text} {c : Char} (ends : render before = front ++ first)
    (form : Form cover after) (number : cover.kind = .number)
    (text : cover.text = first ++ c :: second) (letter : startsIdent c = true) :
    before.getLast? = some point ∧ ∀ d ∈ first, inMantissa d = true := by
  rcases List.eq_nil_or_concat' first with rfl | ⟨first, d, rfl⟩
  · exact absurd (by simp) (form.not_points_before_letter number text letter)
  rw [← List.append_assoc] at ends
  obtain ⟨early, last, own, rfl, lastText⟩ := exists_concat_of_render
    (fun token member => fits.text_ne_nil (List.mem_append_left _ member)) ends
  have other : last.isName = false :=
    fits.at_split.apart ident last (by simp)
  rw [List.append_assoc, List.singleton_append] at fits
  have something : render (name :: behind) ≠ [] := by
    have nonempty : name.text ≠ [] := fits.text_ne_nil (by simp)
    simp [render_cons, nonempty]
  have member : d ∈ cover.text := by simp [text]
  have kinds := form.mem_number number member
  rcases fits.at_split.last_cases something other lastText with
    blank | rfl | ⟨single, letterless, digitless⟩
  · rw [not_isBlank_of_inNumber kinds] at blank
    cases blank
  · exact absurd kinds (by decide)
  rw [List.append_assoc, List.singleton_append] at text
  rcases kinds with mantissa | starts | sign
  · obtain rfl : d = '.' := by simpa [inMantissa, digitless] using mantissa
    refine ⟨by rw [List.getLast?_concat, single]; rfl, ?_⟩
    intro e inside
    rcases List.mem_append.mp inside with earlier | same
    · exact form.inMantissa_of_point number text e earlier
    · exact List.mem_singleton.mp same ▸ mantissa
  · rw [letterless] at starts
    cases starts
  · have digit := form.isDigit_behind_sign number sign text
    rw [not_isDigit_of_startsIdent letter] at digit
    cases digit

/-- What the number that cuts an identifier takes in before it: points, and before these the end of
another number. -/
theorem CutIn.exists_number_before {pieces : List Token} (fits : Throughout Fits none pieces)
    {front back before behind : List Token} {name : Token} {lead rest : Text}
    (within : CutIn pieces front back before name behind lead rest)
    (ident : name.kind = .ident) (inside : lead ≠ []) (something : rest ≠ []) :
    ∃ early number points start c, before = early ++ number :: points ∧
      number.kind = .number ∧ number.text = start ++ [c] ∧ inMantissa c = true ∧
      ∀ token ∈ points, token = point := by
  obtain ⟨c, lead, rfl⟩ := List.exists_cons_of_ne_nil inside
  obtain ⟨early, cover, late, first, second, -, coverText, beforeText, coverForm, coverNumber,
    letter⟩ := within.exists_number_over fits ident something
  have fits := within.split ▸ fits
  obtain ⟨last, mantissa⟩ :=
    fits.getLast?_before_name ident beforeText coverForm coverNumber coverText letter
  obtain ⟨start, points, rfl, all, ends⟩ := exists_points before
  obtain ⟨d, further, rfl⟩ : ∃ d further, points = d :: further := by
    cases points with
    | nil =>
        rw [List.append_nil] at last
        exact absurd rfl (ends point last)
    | cons d further => exact ⟨d, further, rfl⟩
  -- with points only, the number would not be one
  have more : ¬∀ e ∈ first, e = '.' :=
    coverForm.not_points_before_letter coverNumber coverText letter
  rw [render_append] at beforeText
  rcases List.append_eq_append_iff.mp beforeText with ⟨dots, -, same⟩ | ⟨dots, text, same⟩
  · exact absurd (fun e member => mem_render_points all (same ▸ List.mem_append_right dots member))
      more
  rcases List.eq_nil_or_concat' dots with rfl | ⟨dots, e, rfl⟩
  · exact absurd (fun e member => mem_render_points all (by simpa [same] using member)) more
  rw [← List.append_assoc] at text
  obtain ⟨earlier, number, own, rfl, numberText⟩ := exists_concat_of_render
    (fun token member => fits.text_ne_nil
      (List.mem_append_left _ (List.mem_append_left _ member))) text
  have single : inMantissa e = true := mantissa e (by simp [same])
  rw [List.append_assoc, List.append_assoc, List.singleton_append] at fits
  have behindNumber : render ((d :: further) ++ name :: behind) =
      '.' :: (render further ++ render (name :: behind)) := by
    rw [all d (List.mem_cons_self ..), List.cons_append, render_cons, render_append]
    rfl
  have kind := fits.at_split.number_of_last behindNumber numberText single
    (ends number (List.getLast?_concat ..))
  exact ⟨earlier, number, d :: further, own, e, by simp, kind, numberText, single, all⟩

/-! ## Where an identifier comes from -/

theorem isMark_of_continuesIdent {c : Char} (continues : continuesIdent c = true)
    (letterless : startsIdent c = false) (digitless : c.isDigit = false) (point : c ≠ '.') :
    isMark c = true := by
  obtain ⟨alpha, underscore⟩ := Bool.or_eq_false_iff.mp letterless
  simpa [continuesIdent, isMark, Char.isAlphanum, alpha, underscore, digitless, point, or_assoc]
    using continues

/-- An identifier that begins where a run of an identifier's characters does takes in the run. -/
theorem Form.run_unique {token : Token} {c : Char} {rest after behind : Text}
    (form : Form token after) (ident : token.kind = .ident)
    (same : token.text ++ after = c :: rest ++ behind)
    (inside : ∀ d ∈ rest, continuesIdent d = true) (stops : Text.Stops continuesIdent behind) :
    token.text = c :: rest ∧ after = behind := by
  obtain ⟨first, run, text, -, own, ends⟩ := form.startsIdent_head ident
  rw [text, List.cons_append, List.cons_append] at same
  obtain ⟨rfl, more⟩ := List.cons.inj same
  have taken := congrArg (List.takeWhile continuesIdent) more
  have dropped := congrArg (List.dropWhile continuesIdent) more
  rw [Text.takeWhile_append_stops own ends, Text.takeWhile_append_stops inside stops] at taken
  rw [Text.dropWhile_append_stops own ends, Text.dropWhile_append_stops inside stops] at dropped
  exact ⟨by rw [text, taken], dropped⟩

/-- Where an identifier of a text comes from that is put together from tokens: it is one of them, in
its place, or it follows a point, or it is what one of them has behind a mark, and then a number and
points stand before that one. -/
theorem ident_of_rescan {pieces front back : List Token} {token : Token}
    (fits : Throughout Fits none pieces) (scanned : scan (render pieces) = front ++ token :: back)
    (ident : token.kind = .ident) :
    (∃ before behind, pieces = before ++ token :: behind ∧ render before = render front ∧
      render behind = render back) ∨
    front.getLast? = some point ∨
    ∃ early number points name behind start c lead mark,
      pieces = early ++ number :: (points ++ name :: behind) ∧
      number.kind = .number ∧ number.text = start ++ [c] ∧ inMantissa c = true ∧
      (∀ token ∈ points, token = point) ∧ name.kind = .ident ∧
      name.text = lead ++ mark :: token.text ∧ isMark mark = true := by
  obtain ⟨form, -⟩ := form_of_scan scanned
  obtain ⟨c, run, text, letter, -⟩ := form.startsIdent_head ident
  have starts : render (token :: back) = c :: (run ++ render back) := by
    rw [render_cons, text, List.cons_append]
  obtain ⟨before, piece, behind, lead, rest, within⟩ := exists_cutIn scanned starts
  have fit := (within.split ▸ fits).at_split
  have own : c ∈ piece.text := within.text ▸ List.mem_append_right lead (List.mem_cons_self ..)
  rcases fit.alone.kind_of_startsIdent own letter with named | number | string
  · have pieceForm := fit.kept (.inl named)
    have inside {d : Char} (member : d ∈ piece.text) : continuesIdent d = true :=
      pieceForm.continuesIdent_of_mem named member
    have stops := pieceForm.stops_of_ident named
    have restText := within.render_back
    rw [render_cons] at restText
    obtain ⟨tokenText, same⟩ := form.run_unique ident restText
      (fun d member => inside (within.text ▸ by simp [member])) stops
    have pieceText := within.text
    rw [← tokenText] at pieceText
    rcases List.eq_nil_or_concat' lead with rfl | ⟨lead, d, rfl⟩
    · have equal : piece = token :=
        congr (congrArg Token.mk (named.trans ident.symm)) pieceText
      exact .inl ⟨before, behind, equal ▸ within.split, by simp [within.cut], same.symm⟩
    · have ends := within.cut
      rw [← List.append_assoc] at ends
      have continues : continuesIdent d = true := inside (pieceText ▸ by simp)
      have unquoted : d ≠ '"' := by
        rintro rfl
        exact absurd continues (by decide)
      obtain ⟨last, letterless, digitless⟩ := getLast?_of_ident scanned ident ends
        (not_isBlank_of_continuesIdent continues) unquoted
      by_cases point : d = '.'
      · subst point
        exact .inr (.inl last)
      · obtain ⟨early, number, points, start, e, split, kind, numberText, mantissa, all⟩ :=
          within.exists_number_before fits named (by simp) (List.cons_ne_nil _ _)
        refine .inr (.inr ⟨early, number, points, piece, behind, start, e, lead, d, ?_, kind,
          numberText, mantissa, all, named, ?_, ?_⟩)
        · rw [within.split, split, List.append_assoc, List.cons_append]
        · rw [pieceText, List.append_assoc, List.singleton_append]
        · exact isMark_of_continuesIdent continues letterless digitless point
  · rcases List.eq_nil_or_concat' lead with rfl | ⟨lead, d, rfl⟩
    · exact absurd (by simp) (fit.alone.not_points_before_letter number within.text letter)
    have pieceText := within.text
    have ends := within.cut
    rw [← List.append_assoc] at ends
    rw [List.append_assoc, List.singleton_append] at pieceText
    have kinds := fit.alone.mem_number number (pieceText ▸ by simp : d ∈ piece.text)
    have unquoted : d ≠ '"' := by
      rintro rfl
      exact absurd kinds (by decide)
    obtain ⟨last, letterless, digitless⟩ := getLast?_of_ident scanned ident ends
      (not_isBlank_of_inNumber kinds) unquoted
    rcases kinds with mantissa | starts | sign
    · obtain rfl : d = '.' := by simpa [inMantissa, digitless] using mantissa
      exact .inr (.inl last)
    · rw [letterless] at starts
      cases starts
    · have digit := fit.alone.isDigit_behind_sign number sign pieceText
      rw [not_isDigit_of_startsIdent letter] at digit
      cases digit
  · have nothing := within.lead_eq_nil_of_str fits string (List.cons_ne_nil _ _)
    obtain ⟨body, quoted⟩ := fit.alone.starts_with_quote string
    have same := quoted.symm.trans within.text
    rw [nothing] at same
    obtain ⟨rfl, -⟩ := List.cons.inj same
    exact absurd letter (by decide)

end Token

end Netlist

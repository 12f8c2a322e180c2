import Netlist.Proofs.Rescanning

/-!
# Substituting again

Where no value mentions a parameter, substitution leaves no reference behind, and
so a second substitution changes nothing.  A name that was called or assigned
still is, and one behind a point or `@` still follows it, although the values are
read together with what stands next to them.  Only a number that is cut again
could bring out a name, from behind a mark of the identifier that follows it.
-/

namespace Netlist

namespace Token

/-! ## Calls and assignments -/

/-- What makes the identifier before it a function or the target of an assignment. -/
inductive Claims : Text → Prop where
  | call {blanks rest : Text} (blank : ∀ c ∈ blanks, isBlank c = true) :
      Claims (blanks ++ '(' :: rest)
  | assignment {blanks rest : Text} (blank : ∀ c ∈ blanks, isBlank c = true)
      (single : rest.head? ≠ some '=') : Claims (blanks ++ '=' :: rest)

theorem scan_paren (rest : Text) : scan ('(' :: rest) = ⟨.parenOpen, ['(']⟩ :: scan rest := by
  rw [scan_cons]
  rfl

theorem scan_equals (rest : Text) : scan ('=' :: rest) = ⟨.equals, ['=']⟩ :: scan rest := by
  rw [scan_cons]
  rfl

/-- Blanks in front of a text are at most one token. -/
theorem exists_spaces {blanks text : Text} (blank : ∀ c ∈ blanks, isBlank c = true)
    (stops : Text.Stops isBlank text) :
    ∃ spaces, scan (blanks ++ text) = spaces ++ scan text ∧ render spaces = blanks ∧
      ∀ token ∈ spaces, token.kind = .space := by
  cases blanks with
  | nil => exact ⟨[], rfl, rfl, by simp⟩
  | cons first run =>
      obtain ⟨starts, inside⟩ := List.forall_mem_cons.mp blank
      refine ⟨[⟨.space, first :: run⟩], (Form.space starts inside stops).scan_append, ?_, by simp⟩
      rw [render_cons, render_nil, List.append_nil]

theorem skipSpace_append {spaces : List Token} (all : ∀ token ∈ spaces, token.kind = .space)
    (tokens : List Token) : skipSpace (spaces ++ tokens) = skipSpace tokens :=
  List.dropWhile_append_of_pos fun token member => decide_eq_true (all token member)

theorem skipSpace_scan {text : Text} (stops : Text.Stops isBlank text) :
    skipSpace (scan text) = scan text := by
  cases scanned : scan text with
  | nil => rfl
  | cons first rest =>
      obtain ⟨whole, form, -⟩ := form_of_scan_cons scanned
      refine List.dropWhile_cons_of_neg ?_
      intro space
      obtain ⟨c, run, own, blank, -⟩ := form.isBlank_head (of_decide_eq_true space)
      rw [whole, own, List.cons_append, Text.stops_cons, blank] at stops
      cases stops

theorem skipSpace_scan_append {blanks text : Text} (blank : ∀ c ∈ blanks, isBlank c = true)
    (stops : Text.Stops isBlank text) : skipSpace (scan (blanks ++ text)) = scan text := by
  obtain ⟨spaces, scanned, -, all⟩ := exists_spaces blank stops
  rw [scanned, skipSpace_append all, skipSpace_scan stops]

theorem eq_of_singleKind {c : Char} :
    (singleKind c = .parenOpen → c = '(') ∧ (singleKind c = .equals → c = '=') := by
  unfold singleKind
  repeat' split
  all_goals simp [*]

/-- A token of a single character's kind is a single character. -/
theorem Form.exists_single {token : Token} {behind : Text} {d : Char} (form : Form token behind)
    (kind : token.kind = singleKind d) :
    ∃ c, token = ⟨singleKind c, [c]⟩ ∧ isBlank c = false ∧ c ≠ '"' := by
  obtain ⟨space, ident, number, string⟩ := singleKind_cases kind.symm
  cases form with
  | space => exact absurd rfl space
  | ident => exact absurd rfl ident
  | number => exact absurd rfl number
  | closed => exact absurd rfl string
  | unclosed => exact absurd rfl string
  | single solid _ _ unquoted => exact ⟨_, rfl, solid, unquoted⟩

theorem Form.text_of_paren {token : Token} {behind : Text} (form : Form token behind)
    (paren : token.kind = .parenOpen) : token.text = ['('] := by
  have kind : token.kind = singleKind '(' := paren
  obtain ⟨c, rfl, -⟩ := form.exists_single kind
  rw [eq_of_singleKind.1 paren]

theorem Form.text_of_equals {token : Token} {behind : Text} (form : Form token behind)
    (equals : token.kind = .equals) : token.text = ['='] := by
  have kind : token.kind = singleKind '=' := equals
  obtain ⟨c, rfl, -⟩ := form.exists_single kind
  rw [eq_of_singleKind.2 equals]

/-- An identifier in front of a text is no reference just if it follows `@` or a point, or if the
text makes it a function or the target of an assignment. -/
theorem isReference_scan_eq_false_iff (previous : Option Token) (text : Text) :
    isReference previous (scan text) = false ↔ isGuardedBy previous = true ∨ Claims text := by
  by_cases guarded : isGuardedBy previous = true
  · simp [isReference, guarded]
  rw [isReference, if_neg guarded, nextTokens]
  constructor
  · intro claimed
    have blank : ∀ c ∈ text.takeWhile isBlank, isBlank c = true :=
      fun _ member => Text.mem_takeWhile member
    right
    rw [← Text.blanks_append_trimStart text] at claimed ⊢
    rw [skipSpace_scan_append blank (Text.trimStart_stops text)] at claimed
    cases scanned : scan (Text.trimStart text) with
    | nil =>
        rw [scanned] at claimed
        cases claimed
    | cons first rest =>
        obtain ⟨whole, form, later⟩ := form_of_scan_cons scanned
        rw [scanned] at claimed
        dsimp only at claimed
        split at claimed
        next paren =>
          rw [whole, form.text_of_paren paren]
          exact .call blank
        split at claimed
        next equals =>
          rw [whole, form.text_of_equals equals, List.singleton_append]
          refine .assignment blank ?_
          intro doubled
          obtain ⟨more, second⟩ := List.head?_eq_some_iff.mp doubled
          rw [← later, second, scan_equals] at claimed
          cases claimed
        · cases claimed
  · rintro (guards | claims)
    · exact absurd guards guarded
    · cases claims with
      | @call _ rest blank =>
          have stops : Text.Stops isBlank ('(' :: rest) := Text.stops_cons.mpr (by decide)
          rw [skipSpace_scan_append blank stops, scan_paren]
          rfl
      | @assignment _ rest blank single =>
          have stops : Text.Stops isBlank ('=' :: rest) := Text.stops_cons.mpr (by decide)
          rw [skipSpace_scan_append blank stops, scan_equals]
          cases scanned : scan rest with
          | nil => rfl
          | cons first more =>
              obtain ⟨whole, form, -⟩ := form_of_scan_cons scanned
              have other : first.kind ≠ .equals := by
                intro equals
                rw [whole, form.text_of_equals equals] at single
                exact single rfl
              simp [other]

/-! ## What is put together -/

/-- The tokens of a text with the tokens of its value in the place of every reference. -/
def splice (bound : Text → Option Text) (previous : Option Token) : List Token → List Token
  | [] => []
  | first :: rest =>
      (match referent? bound previous first rest with
        | none => [first]
        | some value => scan value) ++ splice bound (some first) rest

variable {bound : Text → Option Text}

theorem splice_of_none {previous : Option Token} {first : Token} {rest : List Token}
    (other : referent? bound previous first rest = none) :
    splice bound previous (first :: rest) = first :: splice bound (some first) rest := by
  rw [splice, other]
  rfl

theorem splice_of_some {previous : Option Token} {first : Token} {rest : List Token} {value : Text}
    (found : referent? bound previous first rest = some value) :
    splice bound previous (first :: rest) = scan value ++ splice bound (some first) rest := by
  rw [splice, found]

theorem render_splice (previous : Option Token) (tokens : List Token) :
    render (splice bound previous tokens) =
      replaceReferences (fun name => (bound name).map id) previous tokens := by
  induction tokens generalizing previous with
  | nil => rfl
  | cons first rest ih =>
      rw [replaceReferences_cons]
      cases found : referent? bound previous first rest with
      | none => rw [splice_of_none found, render_cons, ih]; rfl
      | some value => rw [splice_of_some found, render_append, render_scan, ih]; rfl

theorem referent?_of_kind {previous : Option Token} {first : Token} {rest : List Token}
    (other : first.kind ≠ .ident) : referent? bound previous first rest = none := by
  simp [referent?, other]

theorem referent?_of_guarded {previous : Option Token} {first : Token} {rest : List Token}
    (guarded : isGuardedBy previous = true) : referent? bound previous first rest = none := by
  simp [referent?, isReference, guarded]

theorem splice_append_of_kind {front : List Token} (other : ∀ token ∈ front, token.kind ≠ .ident)
    (previous : Option Token) (tokens : List Token) :
    ∃ last, splice bound previous (front ++ tokens) = front ++ splice bound last tokens := by
  induction front generalizing previous with
  | nil => exact ⟨previous, rfl⟩
  | cons first front ih =>
      obtain ⟨own, later⟩ := List.forall_mem_cons.mp other
      obtain ⟨last, rest⟩ := ih later (some first)
      refine ⟨last, ?_⟩
      rw [List.cons_append, splice_of_none (referent?_of_kind own), rest, List.cons_append]

/-- A value that mentions nothing bound and opens neither a comparison nor a string. -/
structure Settled (bound : Text → Option Text) (value : Text) : Prop where
  nonempty : value ≠ []
  unassigned : value.head? ≠ some '='
  unquoted : '"' ∉ value
  unbound : ∀ token ∈ scan value, token.kind = .ident → bound token.text = none

instance (bound : Text → Option Text) (value : Text) : Decidable (Settled bound value) :=
  decidable_of_iff (value ≠ [] ∧ value.head? ≠ some '=' ∧ '"' ∉ value ∧
      ∀ token ∈ scan value, token.kind = .ident → bound token.text = none)
    ⟨fun ⟨nonempty, unassigned, unquoted, unbound⟩ => ⟨nonempty, unassigned, unquoted, unbound⟩,
      fun settled => ⟨settled.nonempty, settled.unassigned, settled.unquoted, settled.unbound⟩⟩

/-- Where no identifier stood, none begins. -/
theorem stops_render_splice (previous : Option Token) {text : Text}
    (stops : Text.Stops continuesIdent text) :
    Text.Stops continuesIdent (render (splice bound previous (scan text))) := by
  rw [render_splice]
  exact stops.congr (head?_replaceReferences _ previous (stops_startsIdent_of_continuesIdent stops))

section Values

variable (values : ∀ {name value : Text}, bound name = some value → Settled bound value)

include values

theorem head?_splice_ne_equals (previous : Option Token) {text : Text}
    (other : text.head? ≠ some '=') :
    (render (splice bound previous (scan text))).head? ≠ some '=' := by
  cases scanned : scan text with
  | nil => simp [splice]
  | cons first rest =>
      obtain ⟨whole, form, -⟩ := form_of_scan_cons scanned
      cases found : referent? bound previous first rest with
      | none =>
          rw [splice_of_none found, render_cons, List.head?_append_of_ne_nil _ form.text_ne_nil]
          rwa [whole, List.head?_append_of_ne_nil _ form.text_ne_nil] at other
      | some value =>
          have settled := values (refersFrom_of_referent? found).1
          rw [splice_of_some found, render_append, render_scan,
            List.head?_append_of_ne_nil _ settled.nonempty]
          exact settled.unassigned

/-- A call stays a call, and an assignment an assignment. -/
theorem Claims.splice {text : Text} (claims : Claims text) (previous : Option Token) :
    Claims (render (splice bound previous (scan text))) := by
  have spaced {blanks tail : Text} (blank : ∀ c ∈ blanks, isBlank c = true)
      (stops : Text.Stops isBlank tail) :
      ∃ last, render (Token.splice bound previous (scan (blanks ++ tail))) =
        blanks ++ render (Token.splice bound last (scan tail)) := by
    obtain ⟨spaces, scanned, rendered, all⟩ := exists_spaces blank stops
    obtain ⟨last, spliced⟩ := splice_append_of_kind
      (fun token member => by simp [all token member]) previous (scan tail)
    exact ⟨last, by rw [scanned, spliced, render_append, rendered]⟩
  cases claims with
  | @call _ rest blank =>
      have stops : Text.Stops isBlank ('(' :: rest) := Text.stops_cons.mpr (by decide)
      obtain ⟨last, rendered⟩ := spaced blank stops
      rw [rendered, scan_paren, splice_of_none (referent?_of_kind (by decide)), render_cons]
      exact .call blank
  | @assignment _ rest blank single =>
      have stops : Text.Stops isBlank ('=' :: rest) := Text.stops_cons.mpr (by decide)
      obtain ⟨last, rendered⟩ := spaced blank stops
      rw [rendered, scan_equals, splice_of_none (referent?_of_kind (by decide)), render_cons]
      exact .assignment blank (head?_splice_ne_equals values _ single)

end Values

/-! ## Identifiers behind numbers -/

/-- The identifier that tokens begin with, behind points. -/
def nameBehindPoints? (tokens : List Token) : Option Text :=
  match tokens with
  | [] => none
  | first :: rest =>
      if first = point then nameBehindPoints? rest
      else if first.kind = .ident then some first.text
      else none

/-- The parts of a text that stand behind its marks. -/
def behindMarks : Text → List Text
  | [] => []
  | c :: rest => if isMark c then rest :: behindMarks rest else behindMarks rest

/-- A number that ends with a digit or a point has no identifier behind it, across points, with
something bound behind a mark. -/
def IntactBehind (bound : Text → Option Text) (first : Token) (rest : List Token) : Prop :=
  first.kind = .number → first.text.getLast?.any inMantissa = true →
    ∀ name ∈ nameBehindPoints? rest, ∀ part ∈ behindMarks name, bound part = none

instance (bound : Text → Option Text) (first : Token) (rest : List Token) :
    Decidable (IntactBehind bound first rest) :=
  inferInstanceAs (Decidable (_ → _ → ∀ name ∈ nameBehindPoints? rest, _))

/-- No number among the tokens may be cut again in front of an identifier with something bound
behind a mark. -/
def Intact (bound : Text → Option Text) : List Token → Prop
  | [] => True
  | first :: rest => IntactBehind bound first rest ∧ Intact bound rest

instance decidableIntact (bound : Text → Option Text) :
    (tokens : List Token) → Decidable (Intact bound tokens)
  | [] => inferInstanceAs (Decidable True)
  | _ :: rest =>
      have := decidableIntact bound rest
      inferInstanceAs (Decidable (_ ∧ _))

theorem mem_behindMarks {mark : Char} (marked : isMark mark = true) (lead part : Text) :
    part ∈ behindMarks (lead ++ mark :: part) := by
  induction lead with
  | nil => simp [behindMarks, marked]
  | cons c lead ih =>
      rw [List.cons_append, behindMarks]
      split
      · exact List.mem_cons_of_mem _ ih
      · exact ih

theorem nameBehindPoints?_of_points {points behind : List Token} {name : Token}
    (all : ∀ token ∈ points, token = point) (ident : name.kind = .ident) :
    nameBehindPoints? (points ++ name :: behind) = some name.text := by
  induction points with
  | nil =>
      have other : name ≠ point := by
        rintro rfl
        cases ident
      rw [List.nil_append, nameBehindPoints?, if_neg other, if_pos ident]
  | cons first points ih =>
      obtain ⟨own, later⟩ := List.forall_mem_cons.mp all
      rw [List.cons_append, nameBehindPoints?, if_pos own, ih later]

/-- No reference is replaced behind points. -/
theorem nameBehindPoints?_splice {previous : Option Token} {tokens : List Token}
    (kept : isGuardedBy previous = true ∨
      ∀ first, tokens.head? = some first → first.kind ≠ .ident) :
    nameBehindPoints? (splice bound previous tokens) = nameBehindPoints? tokens := by
  induction tokens generalizing previous with
  | nil => rfl
  | cons first rest ih =>
      have same : referent? bound previous first rest = none := by
        rcases kept with guarded | other
        · exact referent?_of_guarded guarded
        · exact referent?_of_kind (other first rfl)
      rw [splice_of_none same, nameBehindPoints?, nameBehindPoints?]
      by_cases own : first = point
      · rw [if_pos own, if_pos own, ih (.inl (own ▸ rfl))]
      · rw [if_neg own, if_neg own]

theorem nameBehindPoints?_append {tokens more : List Token}
    (nothing : nameBehindPoints? more = none) :
    nameBehindPoints? (tokens ++ more) = nameBehindPoints? tokens := by
  induction tokens with
  | nil => exact nothing
  | cons first rest ih =>
      rw [List.cons_append, nameBehindPoints?, nameBehindPoints?, ih]

theorem nameBehindPoints?_of_stops {before : Option Token} {tokens : List Token}
    (fits : Throughout Fits before tokens) (stops : Text.Stops continuesIdent (render tokens)) :
    nameBehindPoints? tokens = none := by
  cases tokens with
  | nil => rfl
  | cons first rest =>
      rw [render_cons] at stops
      have other : first ≠ point := by
        rintro rfl
        exact absurd (Text.stops_cons.mp stops) (by decide)
      have unnamed : first.kind ≠ .ident := by
        intro ident
        obtain ⟨c, run, text, starts, -⟩ := fits.1.alone.startsIdent_head ident
        rw [text, List.cons_append, Text.stops_cons, continuesIdent_of_startsIdent starts] at stops
        cases stops
      rw [nameBehindPoints?, if_neg other, if_neg unnamed]

/-! ## What substitution puts together -/

/-- A token among others that substitution puts together. -/
structure Kept (bound : Text → Option Text) (before : Option Token) (first : Token)
    (rest : List Token) : Prop extends Fits before first rest where
  claimed : first.kind = .ident → bound first.text ≠ none →
    isGuardedBy before = true ∨ Claims (render rest)
  intact : IntactBehind bound first rest

/-- The first of the tokens follows no name, if it is an identifier. -/
def Begins (before : Option Token) (tokens : List Token) : Prop :=
  ∀ first, tokens.head? = some first → first.kind = .ident →
    ∀ token, before = some token → token.isName = false

theorem begins_of_scan {first : Token} {rest : List Token}
    (scanned : scan (render (first :: rest)) = first :: rest) : Begins (some first) rest := by
  rintro second found ident token same
  cases same
  obtain ⟨more, rfl⟩ := List.head?_eq_some_iff.mp found
  have split : scan (render (first :: second :: more)) = [] ++ first :: second :: more := scanned
  obtain ⟨notIdent, notNumber⟩ := (mayMeet_of_scan split).2 ident
  simp [isName, notIdent, notNumber]

theorem Form.of_stops {token : Token} {behind other : Text} (form : Form token behind)
    (ident : token.kind = .ident) (stops : Text.Stops continuesIdent other) :
    Form token other := by
  cases form with
  | ident starts inside => exact .ident starts inside stops
  | single => exact absurd ident (singleKind_cases rfl).2.1
  | _ => cases ident

theorem Form.of_string {token : Token} {behind other : Text} (form : Form token behind)
    (string : token.kind = .str) (ends : behind = [] → other = []) : Form token other := by
  cases form with
  | closed inside => exact .closed inside
  | unclosed inside =>
      rw [ends rfl]
      exact .unclosed inside
  | single => exact absurd string (singleKind_cases rfl).2.2.2
  | _ => cases string

/-- The tokens of a value fit in front of what does not go on with an identifier. -/
theorem kept_append {before : Option Token} {tokens more : List Token}
    (scanned : scan (render tokens) = tokens) (unquoted : '"' ∉ render tokens)
    (unbound : ∀ token ∈ tokens, token.kind = .ident → bound token.text = none)
    (intact : Intact bound tokens)
    (begins : Begins before tokens) (stops : Text.Stops continuesIdent (render more))
    (rest : Throughout (Kept bound) (tokens.getLast?.or before) more) :
    Throughout (Kept bound) before (tokens ++ more) := by
  have nothing := nameBehindPoints?_of_stops (rest.mono Kept.toFits) stops
  induction tokens generalizing before with
  | nil => exact rest
  | cons first tail ih =>
      obtain ⟨-, form, later⟩ := form_of_scan_cons scanned
      obtain ⟨own, behind⟩ := List.forall_mem_cons.mp unbound
      rw [render_cons, List.mem_append, not_or] at unquoted
      rw [List.cons_append]
      refine ⟨⟨⟨form.alone, ?_, begins first rfl⟩, ?_, ?_⟩, ?_⟩
      · rintro (ident | string)
        · refine form.of_stops ident ?_
          have ends := form.stops_of_ident ident
          rw [render_append]
          exact ends.append fun _ => stops
        · obtain ⟨body, text⟩ := form.starts_with_quote string
          exact absurd (text ▸ List.mem_cons_self ..) unquoted.1
      · intro ident given
        exact absurd (own ident) given
      · intro number ends
        rw [nameBehindPoints?_append nothing]
        exact intact.1 number ends
      · refine ih later unquoted.2 behind intact.2 (begins_of_scan scanned) ?_
        cases tail with
        | nil => exact rest
        | cons second tail => exact rest

section Splice

variable (values : ∀ {name value : Text}, bound name = some value →
  Settled bound value ∧ Intact bound (scan value))

include values

/-- A token that is no reference is put where it was. -/
theorem kept_of_none {before previous : Option Token} {first : Token} {rest : List Token}
    (scanned : scan (render (first :: rest)) = first :: rest)
    (other : referent? bound previous first rest = none) (begins : Begins before (first :: rest))
    (guarded : isGuardedBy previous = true → isGuardedBy before = true)
    (intact : IntactBehind bound first rest) :
    Kept bound before first (splice bound (some first) rest) := by
  obtain ⟨-, form, later⟩ := form_of_scan_cons scanned
  refine ⟨⟨form.alone, ?_, begins first rfl⟩, ?_, ?_⟩
  · rintro (ident | string)
    · have stops := form.stops_of_ident ident
      rw [← later]
      exact form.of_stops ident (stops_render_splice (some first) stops)
    · refine form.of_string string ?_
      intro nothing
      rw [nothing, scan_nil] at later
      rw [← later]
      rfl
  · intro ident given
    have unreferred : isReference previous rest = false := by
      cases reference : isReference previous rest with
      | false => rfl
      | true => simp [referent?, ident, reference, given] at other
    rw [← later, isReference_scan_eq_false_iff] at unreferred
    rcases unreferred with guards | claims
    · exact .inl (guarded guards)
    · rw [← later]
      exact .inr (claims.splice (fun found => (values found).1) (some first))
  · intro number ends
    rw [nameBehindPoints?_splice (.inr ?_)]
    · exact intact number ends
    · intro second found ident
      have unnamed := begins_of_scan scanned second found ident first rfl
      simp [isName, number] at unnamed

/-- What substitution puts together from the tokens of a text. -/
theorem kept_splice {before previous : Option Token} {tokens : List Token}
    (scanned : scan (render tokens) = tokens) (begins : Begins before tokens)
    (guarded : isGuardedBy previous = true → isGuardedBy before = true)
    (intact : Intact bound tokens) :
    Throughout (Kept bound) before (splice bound previous tokens) := by
  -- `before` is the token put last and `previous` the last one of the text: behind a value they
  -- differ, but there no identifier follows
  induction tokens generalizing before previous with
  | nil => trivial
  | cons first rest ih =>
      obtain ⟨-, form, later⟩ := form_of_scan_cons scanned
      have next := begins_of_scan scanned
      cases found : referent? bound previous first rest with
      | none =>
          rw [splice_of_none found]
          exact ⟨kept_of_none values scanned found begins guarded intact.1,
            ih later next id intact.2⟩
      | some value =>
          obtain ⟨settled, whole⟩ := values (refersFrom_of_referent? found).1
          have ident : first.kind = .ident := by
            by_contra other
            rw [referent?_of_kind other] at found
            cases found
          have stops := form.stops_of_ident ident
          have behind : Throughout (Kept bound) ((scan value).getLast?.or before)
              (splice bound (some first) rest) := by
            refine ih later ?_ ?_ intact.2
            · intro second head name
              have unnamed := next second head name first rfl
              simp [isName, ident] at unnamed
            · simp [isGuardedBy, ident]
          rw [splice_of_some found]
          refine kept_append ?_ ?_ settled.unbound whole (fun _ _ _ => begins first rfl ident) ?_
            behind
          · rw [render_scan]
          · rw [render_scan]
            exact settled.unquoted
          · rw [← later]
            exact stops_render_splice (some first) stops

end Splice

/-- A guard is a single character. -/
theorem Form.exists_single_of_guard {token : Token} {behind : Text} (form : Form token behind)
    (guards : isGuardedBy (some token) = true) :
    ∃ c, token = ⟨singleKind c, [c]⟩ ∧ isBlank c = false ∧ c ≠ '"' := by
  simp only [isGuardedBy, Bool.or_eq_true, Bool.and_eq_true, decide_eq_true_eq] at guards
  rcases guards with sign | ⟨punct, -⟩
  · have kind : token.kind = singleKind '@' := sign
    exact form.exists_single kind
  · have kind : token.kind = singleKind '.' := punct
    exact form.exists_single kind

/-- An identifier that was guarded is guarded in the text that is put together. -/
theorem Throughout.guarded_of_scan {text : Text} {before behind front back : List Token}
    {token : Token} (fits : Throughout Fits none (before ++ token :: behind))
    (guarded : isGuardedBy before.getLast? = true) (scanned : scan text = front ++ token :: back)
    (ident : token.kind = .ident) (same : render before = render front) :
    isGuardedBy front.getLast? = true := by
  rcases List.eq_nil_or_concat' before with rfl | ⟨early, last, rfl⟩
  · cases guarded
  rw [List.getLast?_concat] at guarded
  rw [List.append_assoc, List.singleton_append] at fits
  obtain ⟨c, rfl, solid, unquoted⟩ := fits.at_split.alone.exists_single_of_guard guarded
  rw [render_append, render_cons, render_nil, List.append_nil] at same
  rw [(getLast?_of_ident scanned ident same.symm solid unquoted).1]
  exact guarded

theorem exists_reference {name : Text} {previous : Option Token} {tokens : List Token}
    (refers : RefersFrom name previous tokens) :
    ∃ front token back, tokens = front ++ token :: back ∧ token.kind = .ident ∧
      isReference (front.getLast?.or previous) back = true ∧
      Text.sameLetters token.text name = true := by
  induction tokens generalizing previous with
  | nil => cases refers
  | cons first rest ih =>
      rcases refers with ⟨ident, reference, same⟩ | later
      · exact ⟨[], first, rest, rfl, ident, reference, same⟩
      · obtain ⟨front, token, back, rfl, ident, reference, same⟩ := ih later
        refine ⟨first :: front, token, back, rfl, ident, ?_, same⟩
        cases front with
        | nil => exact reference
        | cons second front => exact reference

/-- What is put together refers to nothing that is bound. -/
theorem unbound_of_kept {pieces : List Token} (kept : Throughout (Kept bound) none pieces)
    {front back : List Token} {token : Token}
    (scanned : scan (render pieces) = front ++ token :: back) (ident : token.kind = .ident)
    (reference : isReference front.getLast? back = true) : bound token.text = none := by
  have fits := kept.mono Kept.toFits
  have later : scan (render back) = back := (form_of_scan_cons (form_of_scan scanned).2).2.2
  have referred : ¬(isGuardedBy front.getLast? = true ∨ Claims (render back)) := by
    rw [← isReference_scan_eq_false_iff, later, reference]
    simp
  rw [not_or] at referred
  rcases ident_of_rescan fits scanned ident with
    ⟨before, behind, split, same, rest⟩ | point |
    ⟨early, number, points, name, behind, start, c, lead, mark, split, kind, text, mantissa, all,
      named, nameText, marked⟩
  · by_contra given
    have claimed := (split ▸ kept).at_split.claimed ident given
    rw [Option.or_none] at claimed
    rcases claimed with guarded | claims
    · exact referred.1 ((split ▸ fits).guarded_of_scan guarded scanned ident same)
    · exact referred.2 (rest ▸ claims)
  · exact absurd (by rw [point]; rfl) referred.1
  · have intact := (split ▸ kept).at_split.intact kind (by simp [text, mantissa])
    exact intact name.text (nameBehindPoints?_of_points all named) token.text
      (nameText ▸ mem_behindMarks marked lead token.text)

end Token

namespace ParamTable

variable {table : ParamTable}

theorem get?_of_refersTo {text name : Text} (refers : RefersTo text name)
    (unbound : ∀ {front back : List Token} {token : Token},
      Token.scan text = front ++ token :: back → token.kind = .ident →
        isReference front.getLast? back = true → table.get? token.text = none) :
    table.get? name = none := by
  obtain ⟨front, token, back, scanned, ident, reference, same⟩ := Token.exists_reference refers
  rw [Option.or_none] at reference
  rw [← table.get?_of_sameLetters same]
  exact unbound scanned ident reference

/-- A text without references to what is bound is resolved. -/
theorem substituteWithin_of_unbound {text : Text}
    (unbound : ∀ name, RefersTo text name → table.get? name = none) (steps : Nat) :
    table.substituteWithin steps text = text := by
  cases steps with
  | zero => rfl
  | succ steps =>
      rw [substituteWithin_succ, replaceReferences_of_unbound _ unbound, Token.render_scan]

theorem substituteWithin_of_settled {value : Text} (settled : Token.Settled table.get? value)
    (steps : Nat) : table.substituteWithin steps value = value := by
  refine substituteWithin_of_unbound ?_ steps
  intro name refers
  refine get?_of_refersTo refers ?_
  intro front back token scanned ident _
  exact settled.unbound token (scanned ▸ by simp) ident

theorem substitute_eq_render_splice
    (values : ∀ entry ∈ table.entries, Token.Settled table.get? entry.2) (text : Text) :
    table.substitute text = Token.render (Token.splice table.get? none (Token.scan text)) := by
  have resolve : (fun name => (table.get? name).map (table.substituteWithin 8)) =
      fun name => (table.get? name).map id := by
    funext name
    cases found : table.get? name with
    | none => rfl
    | some value =>
        obtain ⟨entry, member, rfl⟩ := NameTable.exists_mem_of_get? found
        exact congrArg some (substituteWithin_of_settled (values entry member) 8)
  rw [Token.render_splice, substitute, longestChain, substituteWithin_succ, resolve]

/-- A table whose values are settled leaves no reference in a text, so that a second substitution
changes nothing: as long as neither in the text nor in a value a number may be cut again in front
of an identifier with something bound behind a mark. -/
theorem substitute_idempotent (table : ParamTable) (text : Text)
    (values : ∀ entry ∈ table.entries, Token.Settled table.get? entry.2)
    (intact : Token.Intact table.get? (Token.scan text))
    (intactValues : ∀ entry ∈ table.entries, Token.Intact table.get? (Token.scan entry.2)) :
    (∀ name, RefersTo (table.substitute text) name → table.get? name = none) ∧
      table.substitute (table.substitute text) = table.substitute text := by
  have inner {name value : Text} (found : table.get? name = some value) :
      Token.Settled table.get? value ∧ Token.Intact table.get? (Token.scan value) := by
    obtain ⟨entry, member, rfl⟩ := NameTable.exists_mem_of_get? found
    exact ⟨values entry member, intactValues entry member⟩
  have kept : Token.Throughout (Token.Kept table.get?) none
      (Token.splice table.get? none (Token.scan text)) := by
    refine Token.kept_splice inner ?_ ?_ id intact
    · rw [Token.render_scan]
    · intro first _ _ token same
      cases same
  have unbound : ∀ name, RefersTo (table.substitute text) name → table.get? name = none := by
    intro name refers
    rw [substitute_eq_render_splice values] at refers
    exact get?_of_refersTo refers (Token.unbound_of_kept kept)
  exact ⟨unbound, substituteWithin_of_unbound unbound longestChain⟩

/-- Numbers that grow together with a value, names that are called, assigned and guarded, and a
name that is free behind a mark. -/
theorem substitute_idempotent_fused :
    let table := ofAssignments "w=1e b=7 n=5e3.a#c"
    let text : Text := "w-5e3.a#c+1e-n*b(b) b=b ==.b@b \"b\""
    (∀ entry ∈ table.entries, Token.Settled table.get? entry.2) ∧
      Token.Intact table.get? (Token.scan text) ∧
      (∀ entry ∈ table.entries, Token.Intact table.get? (Token.scan entry.2)) ∧
      table.substitute text = "1e-5e3.a#c+1e-5e3.a#c*b(7) b=7 ==.b@b \"b\"" ∧
      table.substitute (table.substitute text) = table.substitute text := by
  intro table text
  have values : ∀ entry ∈ table.entries, Token.Settled table.get? entry.2 := by decide +kernel
  have intact : Token.Intact table.get? (Token.scan text) := by decide +kernel
  have intactValues : ∀ entry ∈ table.entries,
      Token.Intact table.get? (Token.scan entry.2) := by
    decide +kernel
  exact ⟨values, intact, intactValues, by decide +kernel,
    (substitute_idempotent table text values intact intactValues).2⟩

/-- The exponent that a value completes ends before the next one, and what was an identifier behind
a point falls apart: its last part is a reference then. -/
theorem substitute_again_of_cut_number :
    let table := ofAssignments "w=1e b=7"
    (∀ entry ∈ table.entries, Token.Settled table.get? entry.2) ∧
      table.substitute "w-5e3.a#b" = "1e-5e3.a#b" ∧
      table.substitute (table.substitute "w-5e3.a#b") = "1e-5e3.a#7" := by
  decide +kernel

end ParamTable

end Netlist

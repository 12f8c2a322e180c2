import Netlist.Word

/-!
# Words of composed texts

A text that is put together from blanks, a word and something behind it has
that word first.  Conversely, every word of a text cuts the text in three, and
its byte positions are those of the cuts.
-/

namespace Netlist

namespace Text

/-- Nothing behind, or something that does not extend a run of characters in `inner`. -/
def Stops (inner : Char → Bool) (text : Text) : Prop :=
  ∀ c, text.head? = some c → inner c = false

theorem stops_nil (inner : Char → Bool) : Stops inner [] := by
  intro c found
  cases found

theorem stops_cons {inner : Char → Bool} {c : Char} {rest : Text} :
    Stops inner (c :: rest) ↔ inner c = false := by
  constructor
  · intro stops
    exact stops c rfl
  · intro outside d found
    cases found
    exact outside

/-- Where a run ends depends on the first character behind it only. -/
theorem Stops.congr {inner : Char → Bool} {first second : Text} (stops : Stops inner first)
    (same : second.head? = first.head?) : Stops inner second := by
  intro c found
  exact stops c (same ▸ found)

theorem Stops.append {inner : Char → Bool} {first second : Text} (left : Stops inner first)
    (right : first = [] → Stops inner second) : Stops inner (first ++ second) := by
  cases first with
  | nil => exact right rfl
  | cons c rest => exact left

theorem Stops.of_append {inner : Char → Bool} {first second : Text}
    (stops : Stops inner (first ++ second)) : Stops inner first := by
  intro c found
  exact stops c (by rw [List.head?_append, found]; rfl)

theorem stops_dropWhile (inner : Char → Bool) (text : Text) :
    Stops inner (text.dropWhile inner) := by
  intro c found
  have held := List.head?_dropWhile_not inner text
  rw [found] at held
  exact held

theorem takeWhile_append_stops {inner : Char → Bool} {run behind : Text}
    (inside : ∀ c ∈ run, inner c = true) (stops : Stops inner behind) :
    (run ++ behind).takeWhile inner = run := by
  rw [List.takeWhile_append_of_pos inside]
  cases behind with
  | nil => simp
  | cons c rest =>
      have outside := stops_cons.mp stops
      simp [outside]

theorem dropWhile_append_stops {inner : Char → Bool} {run behind : Text}
    (inside : ∀ c ∈ run, inner c = true) (stops : Stops inner behind) :
    (run ++ behind).dropWhile inner = behind := by
  rw [List.dropWhile_append_of_pos inside]
  cases behind with
  | nil => rfl
  | cons c rest =>
      have outside := stops_cons.mp stops
      simp [outside]

theorem mem_takeWhile {inner : Char → Bool} {text : Text} {c : Char}
    (member : c ∈ text.takeWhile inner) : inner c = true :=
  List.all_eq_true.mp List.all_takeWhile c member

theorem takeBytes_append {count : Nat} {front : Text} (fits : byteSize front ≤ count)
    (back : Text) :
    takeBytes count (front ++ back) = front ++ takeBytes (count - byteSize front) back := by
  induction front generalizing count with
  | nil => simp
  | cons c rest ih =>
      rw [byteSize_cons] at fits
      have here : c.utf8Size ≤ count := by omega
      have there : byteSize rest ≤ count - c.utf8Size := by omega
      simp only [List.cons_append, takeBytes, here, if_true, ih there, byteSize_cons,
        Nat.sub_sub]

theorem join_cons_cons (between first second : Text) (rest : List Text) :
    join between (first :: second :: rest) = first ++ (between ++ join between (second :: rest)) :=
  List.append_assoc ..

theorem exists_join_cons (between first : Text) (rest : List Text) :
    ∃ more, join between (first :: rest) = first ++ more := by
  cases rest with
  | nil => exact ⟨[], (List.append_nil first).symm⟩
  | cons second behind => exact ⟨_, join_cons_cons ..⟩

/-- The blanks in front of a text, and what follows them. -/
theorem blanks_append_trimStart (text : Text) :
    text.takeWhile isBlank ++ trimStart text = text :=
  List.takeWhile_append_dropWhile

theorem trimStart_stops (text : Text) : Stops isBlank (trimStart text) :=
  stops_dropWhile isBlank text

theorem trimStart_of_stops {text : Text} (stops : Stops isBlank text) :
    trimStart text = text := by
  have nothing : ∀ c ∈ ([] : Text), isBlank c = true := by simp
  exact dropWhile_append_stops nothing stops

theorem trimStart_append {blanks : Text} (blank : ∀ c ∈ blanks, isBlank c = true)
    (text : Text) : trimStart (blanks ++ text) = trimStart text :=
  List.dropWhile_append_of_pos blank

/-- The first word begins with the first character that is not blank. -/
theorem head?_firstWord (text : Text) :
    (firstWord text).head? = (trimStart text).head? := by
  have stops := trimStart_stops text
  unfold firstWord
  cases trimmed : trimStart text with
  | nil => rfl
  | cons c rest =>
      rw [trimmed] at stops
      have outside := stops_cons.mp stops
      simp [outside]

/-- The first word of a text put together from blanks, a word and what follows. -/
theorem firstWord_append {blanks word behind : Text} (blank : ∀ c ∈ blanks, isBlank c = true)
    (solid : ∀ c ∈ word, isBlank c = false) (nonempty : word ≠ [])
    (stops : Stops (fun c => !isBlank c) behind) :
    firstWord (blanks ++ (word ++ behind)) = word := by
  obtain ⟨c, rest, rfl⟩ := List.exists_cons_of_ne_nil nonempty
  have front : Stops isBlank (c :: rest ++ behind) :=
    stops_cons.mpr (solid c (List.mem_cons_self ..))
  unfold firstWord
  rw [trimStart_append blank, trimStart_of_stops front]
  apply takeWhile_append_stops _ stops
  intro d member
  simp [solid d member]

/-- Every text is blanks, its first word and something that ends the word. -/
theorem firstWord_cut (text : Text) :
    ∃ blanks behind, text = blanks ++ (firstWord text ++ behind) ∧
      (∀ c ∈ blanks, isBlank c = true) ∧ Stops (fun c => !isBlank c) behind := by
  refine ⟨text.takeWhile isBlank, (trimStart text).dropWhile fun c => !isBlank c, ?_, ?_, ?_⟩
  · rw [firstWord, List.takeWhile_append_dropWhile, blanks_append_trimStart]
  · intro c member
    exact mem_takeWhile member
  · exact stops_dropWhile _ _

theorem solid_firstWord (text : Text) : ∀ c ∈ firstWord text, isBlank c = false := by
  intro c member
  exact not_isBlank_of_mem_firstWord member

end Text

namespace Word

theorem isSeparator_of_isBlank {c : Char} (blank : isBlank c = true) :
    isSeparator c = true := by
  simp [isSeparator, blank]

theorem not_isBlank_of_isInner {c : Char} (inner : isInner c = true) : isBlank c = false := by
  cases blank : isBlank c with
  | false => rfl
  | true => simp [isInner, isSeparator_of_isBlank blank] at inner

/-- A text that can be a word: not empty and free of separators. -/
structure Solid (text : Text) : Prop where
  nonempty : text ≠ []
  inner : ∀ c ∈ text, isInner c = true

theorem Solid.append {first second : Text} (left : Solid first)
    (right : ∀ c ∈ second, isInner c = true) : Solid (first ++ second) := by
  constructor
  · simp [left.nonempty]
  · intro c member
    rcases List.mem_append.mp member with here | there
    · exact left.inner c here
    · exact right c there

/-- Separators in front of the words only shift them. -/
theorem splitFrom_separators (start : Nat) {separators : Text}
    (separate : ∀ c ∈ separators, isSeparator c = true) (text : Text) :
    splitFrom start (separators ++ text) =
      splitFrom (start + Text.byteSize separators) text := by
  induction separators generalizing start with
  | nil => simp
  | cons c rest ih =>
      have here := separate c (List.mem_cons_self ..)
      have there : ∀ d ∈ rest, isSeparator d = true := by
        intro d member
        exact separate d (List.mem_cons_of_mem _ member)
      rw [List.cons_append, splitFrom, if_pos here, ih _ there, Text.byteSize_cons,
        Nat.add_assoc]

/-- A word with something behind it that ends it. -/
theorem splitFrom_word (start : Nat) {word behind : Text} (solid : Solid word)
    (stops : Text.Stops isInner behind) :
    splitFrom start (word ++ behind) =
      ⟨word, start⟩ :: splitFrom (start + Text.byteSize word) behind := by
  obtain ⟨c, rest, rfl⟩ := List.exists_cons_of_ne_nil solid.nonempty
  have here : isSeparator c = false := by
    simpa [isInner] using solid.inner c (List.mem_cons_self ..)
  have inside : ∀ d ∈ rest, isInner d = true := by
    intro d member
    exact solid.inner d (List.mem_cons_of_mem _ member)
  rw [List.cons_append, splitFrom, here]
  simp only [Bool.false_eq_true, if_false, Text.takeWhile_append_stops inside stops,
    Text.dropWhile_append_stops inside stops]

/-- Where a word stands in its text. -/
structure Cut (start : Nat) (text : Text) (word : Word) (front back : Text) : Prop where
  whole : text = front ++ (word.text ++ back)
  start_eq : word.start = start + Text.byteSize front
  solid : Solid word.text
  stops : Text.Stops isInner back

theorem exists_cut {start : Nat} {text : Text} {word : Word}
    (member : word ∈ splitFrom start text) : ∃ front back, Cut start text word front back := by
  induction start, text using splitFrom.induct with
  | case1 start => simp [splitFrom] at member
  | case2 start c rest separator ih =>
      rw [splitFrom, if_pos separator] at member
      obtain ⟨front, back, cut⟩ := ih member
      refine ⟨c :: front, back, by simp [cut.whole], ?_, cut.solid, cut.stops⟩
      rw [cut.start_eq, Text.byteSize_cons, Nat.add_assoc]
  | case3 start c rest inner body ih =>
      rw [splitFrom, if_neg inner] at member
      have whole : c :: rest = body ++ rest.dropWhile isInner := by simp [body]
      rcases List.mem_cons.mp member with here | there
      · refine ⟨[], rest.dropWhile isInner, by simp [here], by simp [here], ?_,
          Text.stops_dropWhile _ _⟩
        subst here
        refine ⟨by simp, ?_⟩
        intro d found
        rcases List.mem_cons.mp found with first | later
        · simpa [first, isInner] using inner
        · exact Text.mem_takeWhile later
      · obtain ⟨front, back, cut⟩ := ih there
        refine ⟨body ++ front, back, ?_, ?_, cut.solid, cut.stops⟩
        · rw [whole, cut.whole, List.append_assoc]
        · rw [cut.start_eq, Text.byteSize_append, Nat.add_assoc]

namespace Cut

variable {start : Nat} {text : Text} {word : Word} {front back : Text}

theorem stop_eq (cut : Cut start text word front back) :
    word.stop = start + Text.byteSize (front ++ word.text) := by
  rw [stop, cut.start_eq, Text.byteSize_append, Nat.add_assoc]

end Cut

theorem solid_of_mem_split {text : Text} {word : Word} (member : word ∈ split text) :
    Solid word.text := by
  obtain ⟨front, back, cut⟩ := exists_cut member
  exact cut.solid

/-- Every text is separators, its first word and the rest that is split from there on. -/
theorem split_cons {start : Nat} {text : Text} {word : Word} {words : List Word}
    (found : splitFrom start text = word :: words) :
    ∃ separators behind, Cut start text word separators behind ∧
      (∀ c ∈ separators, isSeparator c = true) ∧ words = splitFrom word.stop behind := by
  induction start, text using splitFrom.induct with
  | case1 start => simp [splitFrom] at found
  | case2 start c rest separator ih =>
      rw [splitFrom, if_pos separator] at found
      obtain ⟨separators, behind, cut, separate, rest_eq⟩ := ih found
      refine ⟨c :: separators, behind,
        ⟨by simp [cut.whole], ?_, cut.solid, cut.stops⟩, ?_, rest_eq⟩
      · rw [cut.start_eq, Text.byteSize_cons, Nat.add_assoc]
      · intro d member
        rcases List.mem_cons.mp member with here | there
        · exact here ▸ separator
        · exact separate d there
  | case3 start c rest inner body ih =>
      have member : (⟨body, start⟩ : Word) ∈ splitFrom start (c :: rest) := by
        rw [splitFrom, if_neg inner]
        exact List.mem_cons_self ..
      obtain ⟨front, back, cut⟩ := exists_cut member
      rw [splitFrom, if_neg inner] at found
      cases found
      refine ⟨[], rest.dropWhile isInner, ⟨by simp, by simp, cut.solid,
        Text.stops_dropWhile _ _⟩, by simp, rfl⟩

/-- The texts of the words do not depend on where the text starts. -/
theorem map_text_splitFrom (start : Nat) (text : Text) :
    (splitFrom start text).map Word.text = (split text).map Word.text := by
  suffices general : ∀ other, (splitFrom start text).map Word.text =
      (splitFrom other text).map Word.text from general 0
  intro other
  induction start, text using splitFrom.induct generalizing other with
  | case1 start => simp [splitFrom]
  | case2 start c rest separator ih =>
      rw [splitFrom, if_pos separator, splitFrom, if_pos separator]
      exact ih _
  | case3 start c rest inner body ih =>
      rw [splitFrom, if_neg inner, splitFrom, if_neg inner]
      exact congrArg (body :: ·) (ih _)

/-- Blanks, a keyword, separators, a name and the rest: what a declaring statement is made of. -/
structure Declaration (text : Text) (name : Word) (blanks gap back : Text) : Prop where
  whole : text = blanks ++ (Text.firstWord text ++ (gap ++ (name.text ++ back)))
  blank : ∀ c ∈ blanks, isBlank c = true
  separate : ∀ c ∈ gap, isSeparator c = true
  opens : ∃ c, gap.head? = some c ∧ isBlank c = true
  solid : Solid name.text
  stops : Text.Stops isInner back
  stop_eq : name.stop =
    Text.byteSize (blanks ++ (Text.firstWord text ++ (gap ++ name.text)))

theorem stops_isInner_of_solid {behind : Text} (stops : Text.Stops (fun c => !isBlank c) behind) :
    Text.Stops isInner behind := by
  intro c found
  have blank : isBlank c = true := by simpa using stops c found
  simp [isInner, isSeparator_of_isBlank blank]

theorem split_keyword {text : Text} (solid : Solid (Text.firstWord text)) :
    ∃ blanks behind, text = blanks ++ (Text.firstWord text ++ behind) ∧
      (∀ c ∈ blanks, isBlank c = true) ∧ Text.Stops (fun c => !isBlank c) behind ∧
      split text = ⟨Text.firstWord text, Text.byteSize blanks⟩ ::
        splitFrom (Text.byteSize blanks + Text.byteSize (Text.firstWord text)) behind := by
  obtain ⟨blanks, behind, whole, blank, stops⟩ := Text.firstWord_cut text
  refine ⟨blanks, behind, whole, blank, stops, ?_⟩
  have separate : ∀ c ∈ blanks, isSeparator c = true := by
    intro c member
    exact isSeparator_of_isBlank (blank c member)
  calc split text
      = splitFrom 0 (blanks ++ (Text.firstWord text ++ behind)) := by rw [← whole, split]
    _ = splitFrom (Text.byteSize blanks) (Text.firstWord text ++ behind) := by
        rw [splitFrom_separators 0 separate, Nat.zero_add]
    _ = _ := splitFrom_word _ solid (stops_isInner_of_solid stops)

/-- The second word of a statement stands behind its keyword. -/
theorem exists_declaration {text : Text} (solid : Solid (Text.firstWord text)) {name : Word}
    (second : (split text)[1]? = some name) :
    ∃ blanks gap back, Declaration text name blanks gap back := by
  obtain ⟨blanks, behind, whole, blank, stops, parts⟩ := split_keyword solid
  rw [parts, List.getElem?_cons_succ, ← List.head?_eq_getElem?] at second
  obtain ⟨words, found⟩ := List.head?_eq_some_iff.mp second
  obtain ⟨gap, back, cut, separate, -⟩ := split_cons found
  refine ⟨blanks, gap, back, ?_, blank, separate, ?_, cut.solid, cut.stops, ?_⟩
  · rw [← cut.whole, ← whole]
  · -- the gap is not empty, because something ends the keyword and the name does not
    rw [cut.whole] at stops
    cases gap with
    | nil =>
        obtain ⟨c, rest, shape⟩ := List.exists_cons_of_ne_nil cut.solid.nonempty
        have inside := cut.solid.inner c (by rw [shape]; exact List.mem_cons_self ..)
        have ends := stops c (by simp [shape])
        simp [not_isBlank_of_isInner inside] at ends
    | cons c rest =>
        refine ⟨c, rfl, ?_⟩
        simpa using stops c rfl
  · rw [cut.stop_eq]
    simp only [Text.byteSize_append]
    omega

namespace Declaration

variable {text : Text} {name : Word} {blanks gap back : Text}

theorem front_append (declared : Declaration text name blanks gap back) :
    text = (blanks ++ (Text.firstWord text ++ (gap ++ name.text))) ++ back := by
  simpa only [List.append_assoc] using declared.whole

theorem takeBytes_stop (declared : Declaration text name blanks gap back) :
    Text.takeBytes name.stop text =
      blanks ++ (Text.firstWord text ++ (gap ++ name.text)) := by
  have whole := declared.front_append
  rw [declared.stop_eq]
  generalize blanks ++ (Text.firstWord text ++ (gap ++ name.text)) = front at whole ⊢
  rw [whole, Text.takeBytes_byteSize_append]

theorem stops_gap (declared : Declaration text name blanks gap back) (behind : Text) :
    Text.Stops (fun c => !isBlank c) (gap ++ behind) := by
  obtain ⟨c, opens, blank⟩ := declared.opens
  obtain ⟨rest, shape⟩ := List.head?_eq_some_iff.mp opens
  rw [shape]
  exact Text.stops_cons.mpr (by simp [blank])

end Declaration

end Word

end Netlist

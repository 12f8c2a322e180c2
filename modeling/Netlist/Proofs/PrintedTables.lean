import Netlist.Proofs.Layering
import Netlist.Proofs.Library
import Netlist.Proofs.RepeatedSubstitution

/-!
# Printed parameter tables

A parameter table is printed as assignments with blanks between them.  A value
comes to its end at a blank or comma where nothing is open.  So a value that
has such a character only inside parentheses, brackets, braces or quotes, and
that closes all of them, is read just as it stands, whatever assignment follows
it, and the printed table is read back as the same table.
-/

namespace Netlist

/-! ## What is open -/

/-- What is open behind some part of a value. -/
structure Nesting where
  /-- How many parentheses, brackets and braces; a closing one of any kind closes the last. -/
  depth : Nat := 0
  /-- Single quotes. -/
  quoted : Bool := false
  /-- A string in double quotes. -/
  string : Bool := false
deriving DecidableEq, Repr

namespace Nesting

def opens (c : Char) : Bool := c == '(' || c == '[' || c == '\x7b'

def closes (c : Char) : Bool := c == ')' || c == ']' || c == '\x7d'

/-- What is open behind one more character.  In a string only its end counts. -/
def after (nesting : Nesting) (c : Char) : Nesting :=
  if nesting.string then { nesting with string := c != '"' }
  else if c == '"' then { nesting with string := true }
  else if opens c then { nesting with depth := nesting.depth + 1 }
  else if closes c then { nesting with depth := nesting.depth - 1 }
  else if c == '\'' then { nesting with quoted := !nesting.quoted }
  else nesting

def behind (nesting : Nesting) (text : Text) : Nesting := text.foldl after nesting

theorem behind_cons (nesting : Nesting) (c : Char) (rest : Text) :
    nesting.behind (c :: rest) = (nesting.after c).behind rest := rfl

theorem behind_append (nesting : Nesting) (front back : Text) :
    nesting.behind (front ++ back) = (nesting.behind front).behind back := List.foldl_append

/-- No blank or comma stands where nothing is open, and nothing is left open. -/
def contains (nesting : Nesting) : Text → Bool
  | [] => nesting = {}
  | c :: rest => !(Word.isSeparator c && nesting = {}) && (nesting.after c).contains rest

theorem contains_append {nesting : Nesting} {front back : Text}
    (contained : nesting.contains (front ++ back) = true) :
    (nesting.behind front).contains back = true := by
  induction front generalizing nesting with
  | nil => exact contained
  | cons c rest ih =>
      rw [List.cons_append, contains, Bool.and_eq_true] at contained
      exact ih contained.2

theorem behind_of_contains {nesting : Nesting} {text : Text}
    (contained : nesting.contains text = true) : nesting.behind text = {} := by
  rw [← List.append_nil text] at contained
  exact of_decide_eq_true (contains_append contained)

/-- A separator stands inside something. -/
theorem ne_of_contains {nesting : Nesting} {c : Char} {rest : Text}
    (contained : nesting.contains (c :: rest) = true) (separator : Word.isSeparator c = true) :
    nesting ≠ {} := by
  rintro rfl
  rw [contains, separator] at contained
  cases contained

/-- The characters that change what is open. -/
def marks : List Char := ['(', ')', '[', ']', '\x7b', '\x7d', '"', '\'']

theorem after_of_notMem {nesting : Nesting} (outside : nesting.string = false) {c : Char}
    (plain : c ∉ marks) : nesting.after c = nesting := by
  simp only [marks, List.mem_cons, List.not_mem_nil, or_false, not_or] at plain
  simp [after, outside, opens, closes, plain]

theorem behind_of_notMem {nesting : Nesting} (outside : nesting.string = false) {text : Text}
    (plain : ∀ c ∈ text, c ∉ marks) : nesting.behind text = nesting := by
  induction text with
  | nil => rfl
  | cons c rest ih =>
      obtain ⟨here, there⟩ := List.forall_mem_cons.mp plain
      rw [behind_cons, after_of_notMem outside here]
      exact ih there

/-- A class of characters without marks. -/
theorem notMem_marks {inner : Char → Bool} (none : (marks.all fun mark => !inner mark) = true)
    {c : Char} (inside : inner c = true) : c ∉ marks := by
  intro mark
  have outside := List.all_eq_true.mp none c mark
  rw [inside] at outside
  cases outside

/-- A run of characters that are no marks leaves open what is. -/
theorem behind_run {nesting : Nesting} (outside : nesting.string = false)
    {starts inner : Char → Bool} (noStart : (marks.all fun mark => !starts mark) = true)
    (noInner : (marks.all fun mark => !inner mark) = true) {first : Char} {run : Text}
    (begins : starts first = true) (inside : ∀ c ∈ run, inner c = true) :
    nesting.behind (first :: run) = nesting := by
  refine behind_of_notMem outside (List.forall_mem_cons.mpr ⟨notMem_marks noStart begins, ?_⟩)
  exact fun c member => notMem_marks noInner (inside c member)

/-- Inside a string nothing changes until the string is closed. -/
theorem behind_string {nesting : Nesting} (inside : nesting.string = true) {body : Text}
    (unclosed : '"' ∉ body) : nesting.behind body = nesting := by
  induction body with
  | nil => rfl
  | cons c rest ih =>
      rw [List.mem_cons, not_or] at unclosed
      have same : nesting.after c = nesting := by
        have other : (c != '"') = true := by simpa using Ne.symm unclosed.1
        rw [after, if_pos inside, other, ← inside]
      rw [behind_cons, same]
      exact ih unclosed.2

theorem after_of_isBlank (nesting : Nesting) {c : Char} (blank : isBlank c = true) :
    nesting.after c = nesting := by
  have plain : c ∉ marks := notMem_marks (by decide) blank
  cases inside : nesting.string with
  | true =>
      have other : c ≠ '"' := fun same => plain (same ▸ by decide)
      exact behind_string inside (List.mem_singleton.not.mpr other.symm)
  | false => exact after_of_notMem inside plain

theorem string_after (nesting : Nesting) (c : Char) :
    (nesting.after c).string = (nesting.string ^^ c == '"') := by
  cases inside : nesting.string with
  | true => simp [after, inside, bne]
  | false =>
      by_cases quote : c = '"'
      · simp [after, inside, quote]
      · unfold after
        repeat' split
        all_goals simp_all

/-- A string is closed behind a text just if the text has its quotes in pairs. -/
theorem string_behind (nesting : Nesting) (text : Text) :
    (nesting.behind text).string = nesting.string ↔ Even (text.count '"') := by
  induction text generalizing nesting with
  | nil => simp [behind]
  | cons c rest ih =>
      have later := ih (nesting.after c)
      rw [string_after] at later
      rw [behind_cons]
      by_cases quote : c = '"'
      · subst quote
        rw [List.count_cons_self, Nat.even_add_one, ← later]
        cases nesting.string <;> simp
      · rw [beq_false_of_ne quote, Bool.xor_false] at later
        rwa [List.count_cons_of_ne quote]

end Nesting

/-! ## Values as tokens -/

namespace Assignment

open Nesting Token

theorem notMem_marks_of_number {c : Char}
    (inside : inMantissa c = true ∨ startsIdent c = true ∨ isSign c = true) : c ∉ marks := by
  rcases inside with digit | letter | sign
  · exact notMem_marks (by decide) digit
  · exact notMem_marks (by decide) letter
  · exact notMem_marks (by decide) sign

theorem after_single {c : Char} (unquoted : c ≠ '"') (depth : Nat) (quoted : Bool) :
    Nesting.after ⟨depth, quoted, false⟩ c =
      ⟨depthAfter depth ⟨singleKind c, [c]⟩, quotedAfter quoted ⟨singleKind c, [c]⟩, false⟩ := by
  by_cases mark : c ∈ marks
  · simp only [marks, List.mem_cons, List.not_mem_nil, or_false] at mark
    rcases mark with rfl | rfl | rfl | rfl | rfl | rfl | rfl | rfl
    case inr.inr.inr.inr.inr.inr.inl => exact absurd rfl unquoted
    all_goals rfl
  · rw [after_of_notMem rfl mark]
    simp only [marks, List.mem_cons, List.not_mem_nil, or_false, not_or] at mark
    simp only [singleKind, mark, if_false]
    repeat' split
    all_goals simp [depthAfter, quotedAfter, mark]

/-- A token changes what is open as its characters do, unless it is a string that the text
leaves open. -/
theorem behind_token {token : Token} {rest : Text} (form : Form token rest) (depth : Nat)
    (quoted : Bool) :
    Nesting.behind ⟨depth, quoted, false⟩ token.text =
        ⟨depthAfter depth token, quotedAfter quoted token, false⟩ ∨
      rest = [] ∧ (Nesting.behind ⟨depth, quoted, false⟩ token.text).string = true := by
  cases form with
  | space starts inside => exact .inl (behind_run rfl (by decide) (by decide) starts inside)
  | ident starts inside => exact .inl (behind_run rfl (by decide) (by decide) starts inside)
  | number starts read =>
      refine .inl (behind_of_notMem rfl fun c member => ?_)
      exact notMem_marks_of_number ((Form.number starts read).mem_number rfl member)
  | @closed body _ inside =>
      have opened : Nesting.behind ⟨depth, quoted, true⟩ body = ⟨depth, quoted, true⟩ :=
        behind_string rfl inside
      left
      rw [behind_cons, behind_append]
      exact congrArg (Nesting.after · '"') opened
  | unclosed inside => exact .inr ⟨rfl, congrArg Nesting.string (behind_string rfl inside)⟩
  | single _ _ _ unquoted => exact .inl (after_single unquoted depth quoted)

/-- A token that may end a value begins with a separator. -/
theorem separator_of_endsValue {depth : Nat} {quoted : Bool} {token : Token} {rest : Text}
    (form : Form token rest) (ends : endsValue depth quoted token = true) :
    depth = 0 ∧ quoted = false ∧
      ∃ c run, token.text = c :: run ∧ Word.isSeparator c = true := by
  simp only [endsValue, Bool.and_eq_true, Bool.or_eq_true, decide_eq_true_eq,
    Bool.not_eq_true'] at ends
  obtain ⟨⟨depth, quoted⟩, space | comma⟩ := ends
  · obtain ⟨c, run, text, blank, -⟩ := form.isBlank_head space
    exact ⟨depth, quoted, c, run, text, Word.isSeparator_of_isBlank blank⟩
  · have kind : token.kind = singleKind ',' := comma
    obtain ⟨c, rfl, -⟩ := form.exists_single kind
    refine ⟨depth, quoted, c, [], rfl, ?_⟩
    have same : c = ',' := by
      have single : singleKind c = .comma := comma
      unfold singleKind at single
      grind
    rw [same]
    rfl

/-- A value that has its separators inside something ends where the tokens behind it end a
value. -/
theorem splitValue_scan {nesting : Nesting} (outside : nesting.string = false) {value : Text}
    (contained : nesting.contains value = true) {more : List Token}
    (ends : ∀ token, more.head? = some token → endsValue 0 false token = true) :
    splitValue nesting.depth nesting.quoted (scan value ++ more) = (scan value, more) := by
  -- along the tokens, with what is open in front of each as the characters tell
  induction scanned : scan value generalizing nesting value with
  | nil =>
      have nothing : value = [] := by rw [← render_scan value, scanned, render_nil]
      subst nothing
      obtain rfl : nesting = {} := of_decide_eq_true contained
      cases more with
      | nil => rfl
      | cons token rest => simp [splitValue, ends token rfl]
  | cons first rest ih =>
      obtain ⟨whole, form, later⟩ := form_of_scan_cons scanned
      obtain ⟨depth, quoted, string⟩ := nesting
      cases outside
      have goes : endsValue depth quoted first = false := by
        by_contra stops
        obtain ⟨rfl, rfl, c, run, text, separator⟩ :=
          separator_of_endsValue form (Bool.not_eq_false _ ▸ stops)
        rw [whole, text] at contained
        exact ne_of_contains contained separator rfl
      rw [whole] at contained
      have behind := contains_append contained
      rcases behind_token form depth quoted with same | ⟨nothing, opened⟩
      · rw [same] at behind
        have tail := ih rfl behind later
        simp only [List.cons_append, splitValue, goes, Bool.false_eq_true, if_false, tail]
      · -- a string that the last token leaves open is open behind the value
        rw [nothing] at behind
        rw [of_decide_eq_true behind] at opened
        cases opened

/-! ## Printed assignments -/

theorem ofTokens_assigned {first : Token} {rest remaining : List Token} {value : Text}
    (assignable : isAssignable first = true)
    (found : afterName? rest = some (none, value, remaining)) :
    ofTokens (first :: rest) = ⟨first.text, none, value⟩ :: ofTokens remaining := by
  rw [ofTokens, if_pos assignable]
  split
  next same =>
    rw [found] at same
    cases same
    rfl
  next none =>
    rw [found] at none
    cases none

theorem read_nil : read [] = [] := by
  rw [read, scan_nil, ofTokens]

/-- A blank in front of assignments is passed over. -/
theorem read_blank {text : Text} (stops : Text.Stops isBlank text) :
    read (' ' :: text) = read text := by
  have form : Form ⟨.space, [' ']⟩ text := .space rfl (by simp) stops
  have scanned : scan (' ' :: text) = ⟨.space, [' ']⟩ :: scan text := form.scan_append
  rw [read, scanned, ofTokens]
  rfl

end Assignment

/-- An entry that can be told from the text it is printed as: the name is one identifier and
not the introducing word, and the value is closed and has its separators inside something. -/
structure Printable (entry : Text × Text) : Prop where
  ident : Token.scan entry.1 = [⟨.ident, entry.1⟩]
  plain : Word.introduces entry.1 = false
  nonempty : entry.2 ≠ []
  contained : Nesting.contains {} entry.2 = true

instance (entry : Text × Text) : Decidable (Printable entry) :=
  decidable_of_iff (Token.scan entry.1 = [⟨.ident, entry.1⟩] ∧ Word.introduces entry.1 = false ∧
      entry.2 ≠ [] ∧ Nesting.contains {} entry.2 = true)
    ⟨fun ⟨ident, plain, nonempty, contained⟩ => ⟨ident, plain, nonempty, contained⟩,
      fun ⟨ident, plain, nonempty, contained⟩ => ⟨ident, plain, nonempty, contained⟩⟩

namespace Printable

open Token

variable {entry : Text × Text}

theorem stops_value (printable : Printable entry) (more : Text) :
    Text.Stops isBlank (entry.2 ++ more) := by
  obtain ⟨c, rest, value⟩ := List.exists_cons_of_ne_nil printable.nonempty
  have contained := printable.contained
  rw [value] at contained
  rw [value, List.cons_append, Text.stops_cons]
  cases blank : isBlank c with
  | false => rfl
  | true => exact absurd rfl (Nesting.ne_of_contains contained (Word.isSeparator_of_isBlank blank))

/-- A value does not end with a blank: where it would, nothing may be open. -/
theorem solid_getLast (printable : Printable entry) {c : Char}
    (last : entry.2.getLast? = some c) : isBlank c = false := by
  obtain ⟨front, value⟩ := List.getLast?_eq_some_iff.mp last
  have contained := printable.contained
  rw [value] at contained
  have ending := Nesting.contains_append contained
  cases blank : isBlank c with
  | false => rfl
  | true =>
      have closed := Nesting.behind_of_contains ending
      rw [Nesting.behind_cons, Nesting.after_of_isBlank _ blank] at closed
      exact absurd closed (Nesting.ne_of_contains ending (Word.isSeparator_of_isBlank blank))

theorem scan_value (printable : Printable entry) {more : Text}
    (led : Text.Stops (fun c => !isBlank c) more) :
    scan (entry.2 ++ more) = scan entry.2 ++ scan more := by
  refine scan_append_blank ?_ (fun c last => printable.solid_getLast last) led
  rw [← Nesting.string_behind {}, Nesting.behind_of_contains printable.contained]

theorem scan_name (printable : Printable entry) (more : Text) :
    scan (entry.1 ++ '=' :: more) = ⟨.ident, entry.1⟩ :: ⟨.equals, ['=']⟩ :: scan more := by
  have form := (form_of_scan_cons printable.ident).2.1
  have stops : Text.Stops continuesIdent ('=' :: more) := Text.stops_cons.mpr rfl
  rw [← scan_equals]
  exact (form.of_stops rfl stops).scan_append

theorem stops_name (printable : Printable entry) (more : Text) :
    Text.Stops isBlank (entry.1 ++ more) := by
  obtain ⟨first, run, name, starts, -⟩ :=
    (form_of_scan_cons printable.ident).2.1.startsIdent_head rfl
  have name : entry.1 = first :: run := name
  rw [name, List.cons_append, Text.stops_cons]
  exact not_isBlank_of_startsIdent starts

theorem endsValue_of_led {more : Text} (led : Text.Stops (fun c => !isBlank c) more)
    {token : Token} (found : (scan more).head? = some token) :
    Assignment.endsValue 0 false token = true := by
  cases more with
  | nil =>
      rw [scan_nil] at found
      cases found
  | cons c rest =>
      have blank : isBlank c = true := by simpa using Text.stops_cons.mp led
      rw [scan_cons, kindFrom_of_isBlank blank] at found
      cases found
      rfl

theorem afterName?_entry (printable : Printable entry) {more : Text}
    (led : Text.Stops (fun c => !isBlank c) more) :
    Assignment.afterName? (⟨.equals, ['=']⟩ :: scan (entry.2 ++ more)) =
      some (none, entry.2, scan more) := by
  have spaces := skipSpace_scan (printable.stops_value more)
  have value := Assignment.splitValue_scan rfl printable.contained
    fun _ => endsValue_of_led led
  change some (none, render (Assignment.splitValue 0 false (skipSpace _)).1,
    (Assignment.splitValue 0 false (skipSpace _)).2) = _
  rw [spaces, printable.scan_value led, value, render_scan]

/-- A printed entry is read as the assignment it stands for, whatever follows behind a blank. -/
theorem read_entry (printable : Printable entry) {more : Text}
    (led : Text.Stops (fun c => !isBlank c) more) :
    Assignment.read (entry.1 ++ "=" ++ entry.2 ++ more) =
      ⟨entry.1, none, entry.2⟩ :: Assignment.read more := by
  have assignable : Assignment.isAssignable ⟨.ident, entry.1⟩ = true := by
    simp [Assignment.isAssignable, printable.plain]
  have text : entry.1 ++ "=" ++ entry.2 ++ more = entry.1 ++ '=' :: (entry.2 ++ more) := by simp
  rw [Assignment.read, text, printable.scan_name,
    Assignment.ofTokens_assigned assignable (printable.afterName?_entry led)]
  rfl

end Printable

namespace ParamTable

/-- Printed entries are read back in the order they stand. -/
theorem read_join {entries : List (Text × Text)}
    (printable : ∀ entry ∈ entries, Printable entry) :
    Assignment.read (Text.join " " (entries.map fun entry => entry.1 ++ "=" ++ entry.2)) =
      entries.map fun entry => ⟨entry.1, none, entry.2⟩ := by
  induction entries with
  | nil => exact Assignment.read_nil
  | cons first rest ih =>
      obtain ⟨here, there⟩ := List.forall_mem_cons.mp printable
      cases rest with
      | nil =>
          have read := here.read_entry (Text.stops_nil _)
          rwa [List.append_nil, Assignment.read_nil] at read
      | cons second behind =>
          have stops : Text.Stops isBlank (Text.join " "
              ((second :: behind).map fun entry => entry.1 ++ "=" ++ entry.2)) := by
            obtain ⟨more, text⟩ := Text.exists_join_cons " " (second.1 ++ "=" ++ second.2)
              (behind.map fun entry => entry.1 ++ "=" ++ entry.2)
            rw [List.map_cons, text, List.append_assoc, List.append_assoc]
            exact (there second (List.mem_cons_self ..)).stops_name _
          rw [List.map_cons, List.map_cons, Text.join_cons_cons]
          refine (here.read_entry (Text.stops_cons.mpr rfl)).trans (congrArg _ ?_)
          exact (Assignment.read_blank stops).trans (ih there)

theorem ofAssignments_eq_insertAll {text : Text} {entries : List (Text × Text)}
    (read : Assignment.read text = entries.map fun entry => ⟨entry.1, none, entry.2⟩) :
    ofAssignments text = NameTable.insertAll NameTable.empty entries := by
  rw [ofAssignments, read, List.foldl_map]
  rfl

end ParamTable

/-- A table is made again of its entries, in whatever order they are entered. -/
theorem NameTable.insertAll_of_perm {policy : CasePolicy} {α : Type} (table : NameTable policy α)
    {entries : List (Text × α)} (order : entries.Perm table.entries) :
    NameTable.empty.insertAll entries = table := by
  rw [insertAll_perm_of_apart _ table.apart_entries order]
  apply ext_find?
  intro name
  exact (find?_update empty table name).trans Option.or_none

namespace ParamTable

/-- A printed table is read back as the same table. -/
theorem ofAssignments_render (table : ParamTable)
    (printable : ∀ entry ∈ table.entries, Printable entry) :
    ofAssignments table.render = table := by
  have order : table.toList.Perm table.entries := Text.sortByName_perm table.entries
  have listed : ∀ entry ∈ table.toList, Printable entry :=
    fun entry member => printable entry (order.mem_iff.mp member)
  rw [render, ofAssignments_eq_insertAll (read_join listed)]
  exact table.insertAll_of_perm order

/-- Calls, quotes, a string with a brace in it, and a bracket that closes nothing. -/
theorem ofAssignments_render_nested :
    let table : ParamTable := NameTable.insertAll NameTable.empty
      [("w", "max(a, [1 2])"), ("L", "'x, y'*\x7b2 * w\x7d"), ("s.1", "\"a \x7b=\""), ("k", "]=3")]
    (∀ entry ∈ table.entries, Printable entry) ∧ table.size = 4 ∧
      ofAssignments table.render = table := by
  intro table
  have printable : ∀ entry ∈ table.entries, Printable entry := by decide +kernel
  exact ⟨printable, by decide, ofAssignments_render table printable⟩

/-- The introducing word is passed over in every letter case, and a bracket closes a parenthesis:
the blank behind it ends the value. -/
theorem ofAssignments_render_lost :
    let upper : ParamTable := NameTable.insert NameTable.empty "PARAMS:" "1"
    let crossed : ParamTable := NameTable.insert NameTable.empty "a" "(] b)"
    Token.scan "PARAMS:" = [⟨.ident, "PARAMS:"⟩] ∧
      ofAssignments upper.render = NameTable.empty ∧
      ofAssignments crossed.render = NameTable.insert NameTable.empty "a" "(]".toList := by
  intro upper crossed
  have first : upper.toList = [("PARAMS:".toList, "1".toList)] := List.mergeSort_singleton _
  have second : crossed.toList = [("a".toList, "(] b)".toList)] := List.mergeSort_singleton _
  rw [render, render, first, second]
  decide +kernel

end ParamTable

end Netlist

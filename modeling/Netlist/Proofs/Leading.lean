import Netlist.Parameter.Table
import Netlist.Proofs.Word
import Netlist.Reference

/-!
# What rewriting keeps in front

Substitution replaces identifiers and renaming replaces references.  Both copy
the other tokens, so what stands in front of a text stays there: spaces, a
point with the identifier behind it, and the character that ends it.
-/

namespace Netlist

namespace Token

theorem kindFrom_of_isBlank {c : Char} (blank : isBlank c = true) (rest : Text) :
    kindFrom c rest = .space := by
  simp [kindFrom, blank]

theorem startsIdent_of_kindFrom {c : Char} {rest : Text} (ident : kindFrom c rest = .ident) :
    startsIdent c = true := by
  unfold kindFrom at ident
  split at ident
  · cases ident
  · split at ident
    · assumption
    · split at ident
      · cases ident
      · split at ident
        · cases ident
        · unfold singleKind at ident
          repeat' split at ident
          all_goals cases ident

theorem startsIdent_of_isAlpha {c : Char} (letter : c.isAlpha = true) :
    startsIdent c = true := by
  simp [startsIdent, letter]

theorem continuesIdent_of_startsIdent {c : Char} (starts : startsIdent c = true) :
    continuesIdent c = true := by
  rcases Bool.or_eq_true_iff.mp starts with letter | underscore
  · simp [continuesIdent, Char.isAlphanum, letter]
  · simp [continuesIdent, underscore]

/-- The code points of the letters. -/
theorem bounds_of_isAlpha {c : Char} (letter : c.isAlpha = true) :
    (65 ≤ c.toNat ∧ c.toNat ≤ 90) ∨ (97 ≤ c.toNat ∧ c.toNat ≤ 122) := by
  rcases Bool.or_eq_true_iff.mp letter with upper | lower
  · exact .inl (of_decide_eq_true upper)
  · obtain ⟨low, high⟩ := Bool.and_eq_true_iff.mp lower
    exact .inr ⟨of_decide_eq_true low, of_decide_eq_true high⟩

/-- The code points of the digits. -/
theorem bounds_of_isDigit {c : Char} (digit : c.isDigit = true) :
    48 ≤ c.toNat ∧ c.toNat ≤ 57 := by
  obtain ⟨low, high⟩ := Bool.and_eq_true_iff.mp digit
  exact ⟨of_decide_eq_true low, of_decide_eq_true high⟩

theorem not_startsIdent_of_isBlank {c : Char} (blank : isBlank c = true) :
    startsIdent c = false := by
  cases starts : startsIdent c with
  | false => rfl
  | true =>
      rcases Bool.or_eq_true_iff.mp starts with letter | underscore
      · have bounds := bounds_of_isAlpha letter
        simp only [isBlank, blankRanges, List.any_cons, List.any_nil, Bool.or_false,
          Bool.or_eq_true, Bool.and_eq_true, decide_eq_true_eq] at blank
        omega
      · have point : c = '_' := by simpa using underscore
        rw [point] at blank
        exact absurd blank (by decide)

theorem not_isBlank_of_isAlpha {c : Char} (letter : c.isAlpha = true) : isBlank c = false := by
  cases blank : isBlank c with
  | false => rfl
  | true =>
      have outside := not_startsIdent_of_isBlank blank
      rw [startsIdent_of_isAlpha letter] at outside
      cases outside

/-- A point starts a number before a digit, and is a token by itself otherwise. -/
theorem kindFrom_point (rest : Text) :
    kindFrom '.' rest = if opensWithDigit rest then .number else .punct := by
  cases digit : opensWithDigit rest <;>
    simp [kindFrom, startsNumber, digit, singleKind] <;> decide

end Token

/-! ## Substitution -/

theorem replaceReferences_none (previous : Option Token) (tokens : List Token) :
    replaceReferences (fun _ => none) previous tokens = Token.render tokens := by
  induction tokens generalizing previous with
  | nil => rfl
  | cons first rest ih => simp [replaceReferences, ih]

theorem NameTable.get?_of_isEmpty {policy : CasePolicy} {α : Type} {table : NameTable policy α}
    (empty : table.isEmpty = true) (name : Text) : table.get? name = none := by
  have nothing : table.entries = [] := List.isEmpty_iff.mp empty
  simp [get?, find?, nothing]

namespace ParamTable

/-- An empty table needs no case of its own. -/
theorem substituteWithin_succ (table : ParamTable) (steps : Nat) (text : Text) :
    table.substituteWithin (steps + 1) text =
      replaceReferences (fun name => (table.get? name).map (table.substituteWithin steps))
        none (Token.scan text) := by
  rw [substituteWithin]
  split
  next empty =>
    have nothing : (fun name => (table.get? name).map (table.substituteWithin steps)) =
        fun _ => none := by
      funext name
      rw [NameTable.get?_of_isEmpty empty]
      rfl
    rw [nothing, replaceReferences_none, Token.render_scan]
  · rfl

theorem exists_resolve (table : ParamTable) :
    ∃ resolve, ∀ text, table.substitute text =
      replaceReferences resolve none (Token.scan text) :=
  ⟨_, fun text => substituteWithin_succ table 8 text⟩

end ParamTable

/-- A token that is no reference to a parameter is copied. -/
theorem replaceReferences_scan (resolve : Text → Option Text) (previous : Option Token)
    (c : Char) (rest : Text)
    (kept : Token.startsIdent c = false ∨ isGuardedBy previous = true) :
    replaceReferences resolve previous (Token.scan (c :: rest)) =
      (c :: (Token.tailOf (Token.kindFrom c rest) rest).1) ++
        replaceReferences resolve
          (some ⟨Token.kindFrom c rest, c :: (Token.tailOf (Token.kindFrom c rest) rest).1⟩)
          (Token.scan (Token.tailOf (Token.kindFrom c rest) rest).2) := by
  rw [Token.scan_cons, replaceReferences]
  rcases kept with other | guarded
  · have kind : Token.kindFrom c rest ≠ .ident := by
      intro ident
      rw [Token.startsIdent_of_kindFrom ident] at other
      cases other
    simp [kind]
  · simp [isReference, guarded]

theorem head?_replaceReferences (resolve : Text → Option Text) (previous : Option Token)
    {text : Text} (kept : Text.Stops Token.startsIdent text) :
    (replaceReferences resolve previous (Token.scan text)).head? = text.head? := by
  cases text with
  | nil => rw [Token.scan_nil, replaceReferences]
  | cons c rest =>
      rw [replaceReferences_scan resolve previous c rest (.inl (Text.stops_cons.mp kept))]
      rfl

/-- Substitution keeps a first character that starts no identifier. -/
theorem ParamTable.head?_substitute (table : ParamTable) {text : Text}
    (kept : Text.Stops Token.startsIdent text) :
    (table.substitute text).head? = text.head? := by
  obtain ⟨resolve, substituted⟩ := table.exists_resolve
  rw [substituted]
  exact head?_replaceReferences resolve none kept

/-! ## Renaming of references -/

namespace Reference

/-- A token at this place is copied. -/
def Place.copies : Place → Bool
  | .outside _ => true
  | .entering _ => true
  | .inside _ => false
  | .addressed => false

/-- The text that the references behind a place are renamed in. -/
def renameFrom (rename : Role → Text → Text) (place : Place) (text : Text) : Text :=
  (tagFrom place (Token.scan text)).flatMap (image rename)

theorem renameAll_eq (rename : Role → Text → Text) (text : Text) :
    renameAll rename text = renameFrom rename (.outside false) text := rfl

theorem step_copies {place : Place} (copies : place.copies = true) (first : Token)
    (rest : List Token) : (step place first rest).1 = none := by
  cases place with
  | outside afterName =>
      simp only [step]
      split
      · rfl
      · split <;> rfl
  | entering role => rfl
  | inside role => cases copies
  | addressed => cases copies

theorem renameFrom_cons (rename : Role → Text → Text) {place : Place}
    (copies : place.copies = true) (c : Char) (rest : Text) :
    renameFrom rename place (c :: rest) =
      (c :: (Token.tailOf (Token.kindFrom c rest) rest).1) ++
        renameFrom rename
          (step place ⟨Token.kindFrom c rest, c :: (Token.tailOf (Token.kindFrom c rest) rest).1⟩
            (Token.scan (Token.tailOf (Token.kindFrom c rest) rest).2)).2
          (Token.tailOf (Token.kindFrom c rest) rest).2 := by
  unfold renameFrom
  rw [Token.scan_cons, tagFrom, List.flatMap_cons, step_copies copies]
  rfl

theorem head?_renameFrom (rename : Role → Text → Text) {place : Place}
    (copies : place.copies = true) (text : Text) :
    (renameFrom rename place text).head? = text.head? := by
  cases text with
  | nil => simp [renameFrom, Token.scan_nil, tagFrom]
  | cons c rest =>
      rw [renameFrom_cons rename copies]
      rfl

/-- Renaming keeps the first character. -/
theorem head?_renameAll (rename : Role → Text → Text) (text : Text) :
    (renameAll rename text).head? = text.head? :=
  head?_renameFrom rename rfl text

/-- Behind an accessor its arguments open; behind another identifier nothing does. -/
theorem step_ident_copies (afterName : Bool) {first : Token} (ident : first.kind = .ident)
    (rest : List Token) : (step (.outside afterName) first rest).2.copies = true := by
  simp only [step]
  split
  · rfl
  · simp [ident, Place.copies]

end Reference

end Netlist

import Netlist.Proofs.Keyword

/-!
# Directives in their default spelling

By default a directive is a point with letters behind it, in either case.  So
the first character of a keyword tells much: a keyword that begins with a
letter other than `x` asks for no expansion, and the keyword of a model
statement is a word by itself.
-/

namespace Netlist

namespace Text

/-- Lower case is the character itself, or 32 code points up for a capital. -/
theorem toLower_cases (c : Char) :
    c.toLower = c ∨ (65 ≤ c.toNat ∧ c.toNat ≤ 90 ∧ c.toLower.toNat = c.toNat + 32) := by
  unfold Char.toLower
  split
  next upper =>
    right
    have low : 65 ≤ c.toNat := upper.1
    have high : c.toNat ≤ 90 := upper.2
    refine ⟨low, high, ?_⟩
    show (c.val + ('a'.val - 'A'.val)).toNat = c.toNat + 32
    rw [UInt32.toNat_add]
    have size : c.val.toNat = c.toNat := rfl
    have shift : ('a'.val - 'A'.val).toNat = 32 := by decide
    omega
  · exact .inl rfl

theorem eq_point_of_toLower {c : Char} (same : c.toLower = '.') : c = '.' := by
  rcases toLower_cases c with plain | ⟨low, high, shifted⟩
  · rw [← plain, same]
  · rw [same] at shifted
    have code : '.'.toNat = 46 := by decide
    omega

theorem toLower_ne_x {c : Char} (small : c ≠ 'x') (capital : c ≠ 'X') : c.toLower ≠ 'x' := by
  intro same
  rcases toLower_cases c with plain | ⟨low, high, shifted⟩
  · exact small (plain ▸ same)
  · rw [same] at shifted
    have code : 'x'.toNat = 120 := by decide
    apply capital
    apply Char.toNat_inj.mp
    have capitalCode : 'X'.toNat = 88 := by decide
    omega

theorem head?_of_sameLetters_point {letters keyword : Text}
    (same : sameLetters ('.' :: letters) keyword = true) : keyword.head? = some '.' := by
  cases keyword with
  | nil => cases same
  | cons c rest =>
      simp only [sameLetters, Bool.and_eq_true, beq_iff_eq] at same
      rw [eq_point_of_toLower same.1.symm]
      rfl

end Text

namespace Directives

/-- A keyword that asks for no expansion. -/
structure Flat (directives : Directives) (keyword : Text) : Prop where
  notCall : directives.isCall keyword = false
  notStart : directives.isStart keyword = false
  notEnd : directives.isEnd keyword = false
  notParam : directives.isParam keyword = false

/-- By default a directive is a point with letters behind it. -/
theorem flat_default_iff_of_point {keyword : Text} (point : keyword.head? = some '.') :
    Flat {} keyword ↔
      ∀ letters ∈ ["subckt", "macro", "ends", "eom", "param"].map String.toList,
        Text.sameLetters ('.' :: letters) keyword = false := by
  obtain ⟨rest, rfl⟩ := List.head?_eq_some_iff.mp point
  constructor
  · intro flat
    have starts := flat.notStart
    have ends := flat.notEnd
    have params := flat.notParam
    simp only [isStart, isEnd, isParam, List.any_cons, List.any_nil, Bool.or_false,
      Bool.or_eq_false_iff] at starts ends params
    simp only [List.map_cons, List.map_nil, List.forall_mem_cons]
    exact ⟨starts.1, starts.2, ends.1, ends.2, params, by simp⟩
  · intro spelled
    simp only [List.map_cons, List.map_nil, List.forall_mem_cons] at spelled
    obtain ⟨subckt, macros, ends, eom, param, -⟩ := spelled
    refine ⟨by simp [isCall, Text.opensWith], ?_, ?_, param⟩
    · simp only [isStart, List.any_cons, List.any_nil, Bool.or_false, Bool.or_eq_false_iff]
      exact ⟨subckt, macros⟩
    · simp only [isEnd, List.any_cons, List.any_nil, Bool.or_false, Bool.or_eq_false_iff]
      exact ⟨ends, eom⟩

theorem flat_default_of_lead {keyword : Text} {c : Char} (lead : keyword.head? = some c)
    (notPoint : c ≠ '.') (notX : c.toLower ≠ 'x') : Flat {} keyword := by
  have unspelled (letters : Text) : Text.sameLetters ('.' :: letters) keyword = false := by
    cases same : Text.sameLetters ('.' :: letters) keyword with
    | false => rfl
    | true =>
        rw [Text.head?_of_sameLetters_point same] at lead
        exact absurd (Option.some.inj lead).symm notPoint
  obtain ⟨rest, rfl⟩ := List.head?_eq_some_iff.mp lead
  have distinct : ¬ 'x' = c.toLower := fun same => notX same.symm
  refine ⟨?_, ?_, ?_, unspelled _⟩
  · simp [isCall, Text.opensWith, distinct]
  · simp only [isStart, List.any_cons, List.any_nil, Bool.or_false, Bool.or_eq_false_iff]
    exact ⟨unspelled _, unspelled _⟩
  · simp only [isEnd, List.any_cons, List.any_nil, Bool.or_false, Bool.or_eq_false_iff]
    exact ⟨unspelled _, unspelled _⟩

theorem Flat.toLower_ne_x {keyword : Text} {c : Char} (flat : Flat {} keyword)
    (lead : keyword.head? = some c) : c.toLower ≠ 'x' := by
  obtain ⟨rest, rfl⟩ := List.head?_eq_some_iff.mp lead
  intro same
  have small : 'x'.toLower = 'x' := by decide
  have calls := flat.notCall
  simp [isCall, Text.opensWith, same, small] at calls

/-- A statement that spells what a flat one spells is flat. -/
theorem Flat.of_spellsAlike {text image : Text} (flat : Flat {} (Text.firstWord text))
    (point : (Text.firstWord text).head? = some '.') (alike : Text.SpellsAlike text image) :
    Flat {} (Text.firstWord image) := by
  apply (flat_default_iff_of_point alike.point).mpr
  intro letters member
  have alphabetic : ∀ c ∈ letters, c.toLower.isAlpha = true := by
    simp only [List.map_cons, List.map_nil, List.mem_cons, List.not_mem_nil, or_false] at member
    rcases member with rfl | rfl | rfl | rfl | rfl <;>
      exact List.all_eq_true.mp (by decide)
  rw [alike.spells letters alphabetic]
  exact (flat_default_iff_of_point point).mp flat letters member

/-- A statement that begins with the same letter as a flat one is flat. -/
theorem Flat.of_letter {keyword other : Text} {c : Char} (flat : Flat {} keyword)
    (lead : keyword.head? = some c) (letter : c.isAlpha = true)
    (same : other.head? = keyword.head?) : Flat {} other := by
  have notPoint : c ≠ '.' := by
    rintro rfl
    exact absurd letter (by decide)
  exact flat_default_of_lead (same.trans lead) notPoint (flat.toLower_ne_x lead)

/-- What can be told of the keyword of a model statement. -/
structure ModelKeyword (directives : Directives) (keyword : Text) : Prop where
  solid : Word.Solid keyword
  notDevice : Renamer.startsDevice keyword = false
  notCall : directives.isCall keyword = false
  notParam : directives.isParam keyword = false

theorem modelKeyword_of_isModel {directives : Directives} (spellings : directives = {})
    {keyword : Text} (model : directives.isModel keyword = true) :
    ModelKeyword directives keyword := by
  subst spellings
  have notParam : isParam {} keyword = false := by
    cases param : isParam {} keyword with
    | false => rfl
    | true =>
        have both := ((Text.sameLetters_iff _ _).mp model).trans
          ((Text.sameLetters_iff _ _).mp param).symm
        exact absurd both (by decide)
  obtain ⟨rest, rfl⟩ := List.head?_eq_some_iff.mp (Text.head?_of_sameLetters_point model)
  have parts : ('.'.toLower == '.'.toLower && Text.sameLetters "model".toList rest) = true :=
    model
  have alpha := Text.isAlpha_of_sameLetters (List.all_eq_true.mp (by decide))
    (Bool.and_eq_true_iff.mp parts).2
  refine ⟨⟨by simp, ?_⟩, by rfl, by simp [isCall, Text.opensWith], notParam⟩
  intro c member
  rcases List.mem_cons.mp member with here | there
  · rw [here]
    decide
  · exact Renamer.isInner_of_isAlpha (alpha c there)

end Directives

end Netlist

import Netlist.Proofs.TokenForms

/-!
# Chains of parameters

The value of a parameter may refer to other parameters, their values to further
ones, and so on.  Resolution without a bound replaces every reference by the
resolved value of its parameter; it exists just where no chain of references
goes on for ever.  Substitution follows nine names of a chain.  So it is the
resolution wherever no chain has more names, and of a longer chain it leaves
the tenth name behind.
-/

namespace Netlist

/-- The value that a token refers to, if it is a reference to something bound. -/
def referent? (bound : Text → Option Text) (previous : Option Token) (first : Token)
    (rest : List Token) : Option Text :=
  if first.kind = .ident && isReference previous rest then bound first.text else none

theorem replaceReferences_cons (bound : Text → Option Text) (image : Text → Text)
    (previous : Option Token) (first : Token) (rest : List Token) :
    replaceReferences (fun name => (bound name).map image) previous (first :: rest) =
      ((referent? bound previous first rest).map image).getD first.text ++
        replaceReferences (fun name => (bound name).map image) (some first) rest := by
  rw [replaceReferences, referent?]
  split <;> rfl

/-- The name stands among the tokens as a reference, up to letter case. -/
def RefersFrom (name : Text) : Option Token → List Token → Prop
  | _, [] => False
  | previous, first :: rest =>
      (first.kind = .ident ∧ isReference previous rest = true ∧
        Text.sameLetters first.text name = true) ∨
      RefersFrom name (some first) rest

instance decidableRefersFrom (name : Text) :
    (previous : Option Token) → (tokens : List Token) → Decidable (RefersFrom name previous tokens)
  | _, [] => inferInstanceAs (Decidable False)
  | _, first :: rest =>
      have := decidableRefersFrom name (some first) rest
      inferInstanceAs (Decidable (_ ∨ _))

/-- The text refers to the name. -/
def RefersTo (text name : Text) : Prop := RefersFrom name none (Token.scan text)

instance (text name : Text) : Decidable (RefersTo text name) :=
  inferInstanceAs (Decidable (RefersFrom _ _ _))

theorem refersFrom_of_referent? {bound : Text → Option Text} {previous : Option Token}
    {first : Token} {rest : List Token} {value : Text}
    (found : referent? bound previous first rest = some value) :
    bound first.text = some value ∧ RefersFrom first.text previous (first :: rest) := by
  unfold referent? at found
  split at found
  next reference =>
    obtain ⟨ident, refers⟩ := Bool.and_eq_true_iff.mp reference
    have own : Text.sameLetters first.text first.text = true :=
      (Text.sameLetters_iff _ _).mpr rfl
    exact ⟨found, .inl ⟨of_decide_eq_true ident, refers, own⟩⟩
  · cases found

/-- Tokens among which nothing bound is referred to are copied. -/
theorem replaceReferences_of_unbound {bound : Text → Option Text} (image : Text → Text)
    {previous : Option Token} {tokens : List Token}
    (unbound : ∀ name, RefersFrom name previous tokens → bound name = none) :
    replaceReferences (fun name => (bound name).map image) previous tokens =
      Token.render tokens := by
  induction tokens generalizing previous with
  | nil => rfl
  | cons first rest ih =>
      have other : referent? bound previous first rest = none := by
        cases found : referent? bound previous first rest with
        | none => rfl
        | some value =>
            obtain ⟨given, refers⟩ := refersFrom_of_referent? found
            rw [unbound _ refers] at given
            cases given
      rw [replaceReferences_cons, other, ih fun name refers => unbound name (.inr refers)]
      rfl

theorem ParamTable.get?_of_sameLetters (table : ParamTable) {name other : Text}
    (same : Text.sameLetters name other = true) : table.get? name = table.get? other :=
  table.get?_congr ((CasePolicy.same_iff .insensitive name other).mp same)

/-- The image of a value stands where its parameter is referred to. -/
theorem ParamTable.isInfix_replaceReferences (table : ParamTable) (image : Text → Text)
    {name value : Text} (found : table.get? name = some value) {previous : Option Token}
    {tokens : List Token} (refers : RefersFrom name previous tokens) :
    image value <:+:
      replaceReferences (fun name => (table.get? name).map image) previous tokens := by
  induction tokens generalizing previous with
  | nil => cases refers
  | cons first rest ih =>
      rw [replaceReferences_cons]
      rcases refers with ⟨ident, reference, same⟩ | later
      · have here : referent? table.get? previous first rest = some value := by
          rw [referent?, ident, reference, table.get?_of_sameLetters same, found]
          rfl
        rw [here]
        exact (List.prefix_append _ _).isInfix
      · exact (ih later).trans (List.suffix_append _ _).isInfix

/-- What is referred to is spelled in the tokens. -/
theorem exists_spelling {name : Text} {previous : Option Token} {tokens : List Token}
    (refers : RefersFrom name previous tokens) :
    ∃ spelling, Text.sameLetters spelling name = true ∧ spelling <:+: Token.render tokens := by
  induction tokens generalizing previous with
  | nil => cases refers
  | cons first rest ih =>
      rw [Token.render_cons]
      rcases refers with ⟨-, -, same⟩ | later
      · exact ⟨first.text, same, (List.prefix_append _ _).isInfix⟩
      · obtain ⟨spelling, same, inside⟩ := ih later
        exact ⟨spelling, same, inside.trans (List.suffix_append _ _).isInfix⟩

namespace ParamTable

variable (table : ParamTable)

/-- Parameters of which each is referred to by the value of the one before it. -/
structure ReferenceChain (names : List Text) : Prop where
  bound : ∀ name ∈ names, (table.get? name).isSome = true
  linked : names.IsChain fun name next => ∃ value, value ∈ table.get? name ∧ RefersTo value next

instance (names : List Text) : Decidable (table.ReferenceChain names) :=
  decidable_of_iff
    ((∀ name ∈ names, (table.get? name).isSome = true) ∧
      names.IsChain fun name next => ∃ value, value ∈ table.get? name ∧ RefersTo value next)
    ⟨fun both => ⟨both.1, both.2⟩, fun chain => ⟨chain.bound, chain.linked⟩⟩

/-- Resolution of a token stream without a bound: what is referred to is resolved, and everything
else is copied. -/
inductive Resolves : Option Token → List Token → Text → Prop where
  | done (previous : Option Token) : Resolves previous [] []
  | copied {previous : Option Token} {first : Token} {rest : List Token} {more : Text}
      (other : referent? table.get? previous first rest = none)
      (behind : Resolves (some first) rest more) :
      Resolves previous (first :: rest) (first.text ++ more)
  | resolved {previous : Option Token} {first : Token} {rest : List Token}
      {value image more : Text} (found : referent? table.get? previous first rest = some value)
      (inner : Resolves none (Token.scan value) image)
      (behind : Resolves (some first) rest more) :
      Resolves previous (first :: rest) (image ++ more)

variable {table}

theorem Resolves.unique {previous : Option Token} {tokens : List Token} {first second : Text}
    (left : table.Resolves previous tokens first) (right : table.Resolves previous tokens second) :
    first = second := by
  induction left generalizing second with
  | done => cases right; rfl
  | copied other behind ih =>
      cases right with
      | copied _ later => rw [ih later]
      | resolved found =>
          rw [other] at found
          cases found
  | resolved found inner behind ihInner ihBehind =>
      cases right with
      | copied other =>
          rw [other] at found
          cases found
      | resolved again innerAgain later =>
          obtain rfl := Option.some.inj (found.symm.trans again)
          rw [ihInner innerAgain, ihBehind later]

/-- One round of replacement resolves a stream, if it resolves the values referred to. -/
theorem resolves_replaceReferences {image : Text → Text} {previous : Option Token}
    {tokens : List Token}
    (values : ∀ name value, RefersFrom name previous tokens → table.get? name = some value →
      table.Resolves none (Token.scan value) (image value)) :
    table.Resolves previous tokens
      (replaceReferences (fun name => (table.get? name).map image) previous tokens) := by
  induction tokens generalizing previous with
  | nil => exact .done previous
  | cons first rest ih =>
      have behind := ih fun name value refers => values name value (.inr refers)
      rw [replaceReferences_cons]
      cases found : referent? table.get? previous first rest with
      | none => exact .copied found behind
      | some value =>
          obtain ⟨given, refers⟩ := refersFrom_of_referent? found
          exact .resolved found (values _ _ refers given) behind

/-- As many steps as a chain has names are enough to resolve a text. -/
theorem resolves_substituteWithin {steps : Nat} {text : Text}
    (short : ∀ name names, RefersTo text name → table.ReferenceChain (name :: names) →
      (name :: names).length ≤ steps) :
    table.Resolves none (Token.scan text) (table.substituteWithin steps text) := by
  induction steps generalizing text with
  | zero =>
      have unbound (name : Text) (refers : RefersTo text name) : table.get? name = none := by
        cases found : table.get? name with
        | none => rfl
        | some value =>
            have chain : table.ReferenceChain [name] :=
              ⟨by simp [found], .singleton name⟩
            exact absurd (short name [] refers chain) (by simp)
      have resolved : table.Resolves none (Token.scan text)
          (replaceReferences (fun name => (table.get? name).map id) none (Token.scan text)) := by
        refine resolves_replaceReferences ?_
        intro name value refers found
        rw [unbound name refers] at found
        cases found
      rwa [replaceReferences_of_unbound id unbound, Token.render_scan] at resolved
  | succ steps ih =>
      rw [substituteWithin_succ]
      refine resolves_replaceReferences ?_
      intro name value refers found
      refine ih ?_
      intro next names refersNext chain
      have longer : table.ReferenceChain (name :: next :: names) := by
        constructor
        · simpa [found] using chain.bound
        · exact .cons_cons ⟨value, found, refersNext⟩ chain.linked
      exact Nat.le_of_succ_le_succ (short name _ refers longer)

/-- The value of the last of as many names as there are steps is taken over as it is written. -/
theorem isInfix_substituteWithin {text name : Text} {names : List Text} {last value : Text}
    (refers : RefersTo text name) (chain : table.ReferenceChain (name :: names))
    (ends : (name :: names).getLast? = some last) (found : table.get? last = some value) :
    value <:+: table.substituteWithin (name :: names).length text := by
  induction names generalizing text name with
  | nil =>
      cases ends
      rw [List.length_singleton, substituteWithin_succ]
      exact table.isInfix_replaceReferences (table.substituteWithin 0) found refers
  | cons next names ih =>
      obtain ⟨⟨own, given, refersNext⟩, linked⟩ := List.isChain_cons_cons.mp chain.linked
      have rest : table.ReferenceChain (next :: names) :=
        ⟨fun other member => chain.bound other (List.mem_cons_of_mem _ member), linked⟩
      have inner := ih refersNext rest (by simpa using ends)
      rw [List.length_cons, substituteWithin_succ]
      exact inner.trans (table.isInfix_replaceReferences _ given refers)

/-- A text is resolved by substitution wherever no chain of references has more than nine names:
what is put for it is its resolution, and its only one.  Where a text refers to the first of ten
names of a chain, the value of the ninth is taken over as written, and so the tenth name stays. -/
theorem chains_of_nine_resolved (table : ParamTable) :
    ((∀ names, table.ReferenceChain names → names.length ≤ 9) →
      ∀ text result, table.Resolves none (Token.scan text) result ↔
        result = table.substitute text) ∧
    (∀ text first names ninth tenth, RefersTo text first →
      table.ReferenceChain (first :: names ++ [ninth, tenth]) → names.length = 7 →
      ∃ value spelling, table.get? ninth = some value ∧ RefersTo value tenth ∧
        value <:+: table.substitute text ∧
        Text.sameLetters spelling tenth = true ∧ spelling <:+: value) := by
  constructor
  · intro short text result
    have resolved : table.Resolves none (Token.scan text) (table.substitute text) :=
      resolves_substituteWithin fun name names _ chain => short (name :: names) chain
    constructor
    · intro given
      exact given.unique resolved
    · rintro rfl
      exact resolved
  · intro text first names ninth tenth refers chain count
    obtain ⟨front, back⟩ := List.isChain_split.mp chain.linked
    obtain ⟨value, found, refersTenth⟩ := (List.isChain_cons_cons.mp back).1
    have nine : table.ReferenceChain (first :: (names ++ [ninth])) := by
      refine ⟨fun name member => chain.bound name ?_, front⟩
      simp only [List.mem_cons, List.mem_append, List.cons_append] at member ⊢
      tauto
    have ends : (first :: (names ++ [ninth])).getLast? = some ninth := by
      rw [← List.cons_append, List.getLast?_concat]
    have written := isInfix_substituteWithin refers nine ends found
    obtain ⟨spelling, same, inside⟩ := exists_spelling refersTenth
    rw [Token.render_scan] at inside
    rw [List.length_cons, List.length_append, count] at written
    exact ⟨value, spelling, found, refersTenth, written, same, inside⟩

/-- A value that refers twice to another parameter, and a chain of ten names. -/
theorem chains_of_nine_resolved_pair :
    let short := ofAssignments "a=b+b b=3"
    let long := ofAssignments "a=b b=c c=d d=e e=f f=g g=h h=i i=2*j j=7"
    (∀ names, short.ReferenceChain names → names.length ≤ 9) ∧
      short.Resolves none (Token.scan "w={a}") "w={3+3}" ∧
      long.ReferenceChain ["a", "b", "c", "d", "e", "f", "g", "h", "i", "j"] ∧
      long.substitute "a" = "2*j" ∧
      ∃ value spelling, long.get? "i" = some value ∧ RefersTo value "j" ∧
        value <:+: long.substitute "a" ∧
        Text.sameLetters spelling "j" = true ∧ spelling <:+: value := by
  intro short long
  have bounded (names : List Text) (chain : short.ReferenceChain names) : names.length ≤ 9 := by
    have values {name value : Text} (found : value ∈ short.get? name) :
        value = "b+b" ∨ value = "3" := by
      have listed : ∀ entry ∈ short.entries, entry.2 = "b+b" ∨ entry.2 = "3" := by
        decide +kernel
      obtain ⟨entry, member, rfl⟩ := NameTable.exists_mem_of_get? found
      exact listed entry member
    have constant (next : Text) : ¬RefersTo "3" next := by
      rw [RefersTo, show Token.scan "3" = [⟨.number, "3"⟩] by decide +kernel]
      simp [RefersFrom]
    have next {name : Text} (refers : RefersTo "b+b" name) : short.get? name = some "3" := by
      rw [RefersTo, show Token.scan "b+b" = [⟨.ident, "b"⟩, ⟨.punct, "+"⟩, ⟨.ident, "b"⟩] by
        decide +kernel] at refers
      have same : Text.sameLetters "b" name = true := by
        rcases refers with ⟨-, -, same⟩ | ⟨punct, -⟩ | ⟨-, -, same⟩ | nothing
        · exact same
        · cases punct
        · exact same
        · cases nothing
      rw [← short.get?_of_sameLetters same]
      decide +kernel
    match names, chain.linked with
    | [], _ | [_], _ | [_, _], _ => simp
    | first :: second :: third :: _, linked =>
        obtain ⟨⟨value, found, refers⟩, rest⟩ := List.isChain_cons_cons.mp linked
        obtain ⟨⟨other, given, further⟩, -⟩ := List.isChain_cons_cons.mp rest
        rcases values found with rfl | rfl
        · cases (next refers).symm.trans given
          exact absurd further (constant third)
        · exact absurd refers (constant second)
  have ten : long.ReferenceChain ["a", "b", "c", "d", "e", "f", "g", "h", "i", "j"] := by
    decide +kernel
  refine ⟨bounded, ?_, ten, by decide +kernel, ?_⟩
  · exact ((chains_of_nine_resolved short).1 bounded _ _).mpr (by decide +kernel)
  · exact (chains_of_nine_resolved long).2 "a" "a" ["b", "c", "d", "e", "f", "g", "h"] "i" "j"
      (by decide +kernel) ten rfl

end ParamTable

end Netlist

import Netlist.Proofs.RepeatedFormals

/-!
# Names of a body and new formals

The new name of a repeated formal is unlike every formal, but nothing keeps it
from being a name of the body.  A name of the body that is neither ground nor
global nor a formal stays inside unless it is one of the new names; then it is
connected to the actual of the repetition.  All new names are variants of
repeated formals.
-/

namespace Netlist

namespace Formals

variable {policy : CasePolicy} {formals : List Text}

/-- The new names of repeated formals. -/
def synthesized (policy : CasePolicy) (formals : List Text) : List Text :=
  (repeats policy [] formals).map ((separate policy formals).1.getD · [])

/-- A variant of a formal that is repeated. -/
def IsVariant (policy : CasePolicy) (formals : List Text) (name : Text) : Prop :=
  ∃ j formal n, formals[j]? = some formal ∧ j ∈ repeats policy [] formals ∧ 2 ≤ n ∧
    name = variant formal n

theorem lt_of_mem_repeats {j : Nat} (old : j ∈ repeats policy [] formals) : j < formals.length :=
  List.mem_range.mp (List.mem_filter.mp old).1

theorem isVariant_of_mem_synthesized {name : Text} (made : name ∈ synthesized policy formals) :
    IsVariant policy formals name ∧ Unused policy formals name := by
  obtain ⟨j, old, rfl⟩ := List.mem_map.mp made
  have stands : formals[j]? = some (formals.get ⟨j, lt_of_mem_repeats old⟩) :=
    List.getElem?_eq_getElem _
  obtain ⟨image, placed, n, above, rfl, unused, -⟩ :=
    (disambiguated_separate policy formals).renamed j _ stands old
  have image : (separate policy formals).1.getD j [] =
      variant (formals.get ⟨j, lt_of_mem_repeats old⟩) n := by
    rw [List.getD_eq_getElem?_getD, placed]
    rfl
  rw [image]
  constructor
  · exact ⟨j, _, n, stands, old, above, rfl⟩
  · exact fun other member => unused other (List.mem_append_left _ member)

/-- Every formal is one of the given ones or a new name. -/
theorem mem_of_mem_separate {name : Text} (member : name ∈ (separate policy formals).1) :
    name ∈ formals ∨ name ∈ synthesized policy formals := by
  have faithful := disambiguated_separate policy formals
  obtain ⟨j, inside, rfl⟩ := List.getElem_of_mem member
  have within : j < formals.length := faithful.length_eq ▸ inside
  by_cases old : j ∈ repeats policy [] formals
  · right
    refine List.mem_map.mpr ⟨j, old, ?_⟩
    rw [List.getD_eq_getElem?_getD, List.getElem?_eq_getElem inside]
    rfl
  · left
    have kept := faithful.kept j _ (List.getElem?_eq_getElem within) old
    rw [(List.getElem?_eq_some_iff.mp kept).2]
    exact List.getElem_mem within

end Formals

/-- The words of the live cards. -/
def Deck.liveWords (deck : Deck) : List Text :=
  deck.live.flatMap fun card => (Word.split card.text).map Word.text

namespace Definition

open Formals

/-- The new names of repeated formals are unlike all formals, but not unlike all names of the body.
A word that is neither ground nor global nor a formal stays internal if it is no new name, and
otherwise it is captured: it stands for the actual of the repetition.  In a body without variants
of repeated formals nothing is captured. -/
theorem capture_only_by_new_names (directives : Directives) (policy : CasePolicy) (header : Header)
    (body : Deck) (number : Nat) :
    let built := build directives policy header body number
    let made := synthesized policy header.formals
    (∀ name ∈ made, IsVariant policy header.formals name ∧ Unused policy header.formals name) ∧
    (∀ subcircuit actuals globals pins,
      (Pins.connect subcircuit built.formals actuals : Except Fault (Pins policy)) = .ok pins →
      ∀ word, word ≠ ground → globals.contains word = false →
        Unused policy header.formals word →
        (Unused policy made word → pins.outside? globals word = none) ∧
        ∀ (j : Nat) name actual, built.formals[j]? = some name → policy.same name word = true →
          actuals[j]? = some actual → pins.outside? globals word = some actual) ∧
    ((∀ word ∈ body.liveWords, ∀ name, IsVariant policy header.formals name →
        policy.same name word = false) →
      ∀ word ∈ body.liveWords, Unused policy made word) := by
  intro built made
  have faithful := disambiguated_separate policy header.formals
  refine ⟨fun name member => isVariant_of_mem_synthesized member, ?_, ?_⟩
  · intro subcircuit actuals globals pins connected word notGround notGlobal notFormal
    have entries : pins.entries = built.formals.zip actuals := Pins.entries_of_connect connected
    constructor
    · intro unused
      apply Pins.outside?_eq_none notGround notGlobal
      intro entry member
      rw [entries] at member
      rcases mem_of_mem_separate (List.of_mem_zip member).1 with given | new
      · exact notFormal entry.1 given
      · exact unused entry.1 new
    · intro j name actual placed same given
      have meaning : Pins.StandsFor ⟨built.formals.zip actuals⟩ globals word actual :=
        Pins.standsFor_of_same faithful.apart globals placed given same
      rw [Pins.StandsFor, if_neg (by simp [notGround, notGlobal]), ← entries] at meaning
      exact meaning
  · intro without word member name new
    exact without word member name (isVariant_of_mem_synthesized new).1

/-- Words that are too short for a variant stay internal. -/
theorem capture_only_by_new_names_short :
    let header : Header := ⟨"s", ["a", "a"], .empty⟩
    let body : Deck := [{ text := "r1 a b 1k" }]
    ∃ pins : Pins .insensitive,
      Pins.connect "s" (build {} .insensitive header body 1).formals ["p", "q"] = .ok pins ∧
      pins.outside? .empty "b" = none ∧ pins.outside? .empty "A__2" = some "q".toList ∧
      ∀ word ∈ body.liveWords, Unused .insensitive ["a__2"] word := by
  intro header body
  obtain ⟨-, stays, without⟩ := capture_only_by_new_names {} .insensitive header body 1
  have made : synthesized .insensitive header.formals = (["a__2"] : List Text) := by decide +kernel
  have connected : Pins.connect "s" (build {} .insensitive header body 1).formals ["p", "q"] =
      .ok (⟨[("a", "p"), ("a__2", "q")]⟩ : Pins .insensitive) := by decide +kernel
  rw [made] at stays without
  refine ⟨_, connected, ?_, ?_, ?_⟩
  · exact (stays "s" _ .empty _ connected "b" (by decide) rfl (by decide)).1 (by decide)
  · exact (stays "s" _ .empty _ connected "A__2" (by decide) rfl (by decide)).2 1 "a__2" "q"
      (by decide +kernel) (by decide) rfl
  · apply without
    rintro word member name ⟨j, formal, n, stands, -, -, rfl⟩
    have short : ∀ word ∈ body.liveWords, word.length ≤ 2 := by decide +kernel
    have named : ∀ formal ∈ header.formals, formal.length = 1 := by decide
    have long : 3 ≤ (variant formal n).length := by
      rw [variant, List.length_append, List.length_append,
        named formal (List.mem_of_getElem? stands)]
      exact Nat.le_add_right 3 _
    rw [Bool.eq_false_iff, Ne, CasePolicy.same_iff, CasePolicy.fold_eq_map,
      CasePolicy.fold_eq_map]
    intro same
    have lengths : (variant formal n).length = word.length := by
      simpa using congrArg List.length same
    have few := short word member
    omega

/-- A node of the body that has the name of a variant is connected to the second actual. -/
theorem variant_in_body_captured :
    let header : Header := ⟨"s", ["a", "a"], .empty⟩
    let body : Deck := [{ text := "r1 a__2 0 1k" }]
    ∃ word ∈ body.liveWords,
      (∃ name ∈ synthesized .insensitive header.formals,
        CasePolicy.insensitive.same name word = true) ∧
      ∃ pins : Pins .insensitive,
        Pins.connect "s" (build {} .insensitive header body 1).formals ["p", "q"] = .ok pins ∧
          pins.outside? .empty word = some "q".toList := by
  intro header body
  have connected : Pins.connect "s" (build {} .insensitive header body 1).formals ["p", "q"] =
      .ok (⟨[("a", "p"), ("a__2", "q")]⟩ : Pins .insensitive) := by decide +kernel
  exact ⟨"a__2", by decide +kernel, by decide +kernel, _, connected, by decide⟩

end Definition

end Netlist

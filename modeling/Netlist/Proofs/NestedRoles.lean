import Netlist.Proofs.LeadingParts
import Netlist.Proofs.RenamedNames

/-!
# Roles of words on nested levels

A device line that one level has renamed is read again by the level around it.
The renamed names contain no equals sign, are no `poly` and stand in the same
places, so the outer level gives every leading word the role that the inner
level gave it, and the two renamings compose.  Only a word that starts with an
equals sign right behind a polynomial can spoil this.
-/

namespace Netlist

/-- A success is found by its value alone. -/
theorem eq_ok_of_toOption {α : Type} {result : Except Fault α} {value : α}
    (found : result.toOption = some value) : result = .ok value := by
  cases result with
  | error fault => cases found
  | ok own => exact congrArg Except.ok (Option.some.inj found)

namespace Text

theorem strip_eq_self {drop : Char → Bool} {text : Text} (kept : ∀ c ∈ text, drop c = false) :
    strip drop text = text := by
  have whole {other : Text} (kept : ∀ c ∈ other, drop c = false) :
      other.dropWhile drop = other := by
    cases other with
    | nil => rfl
    | cons c rest => rw [List.dropWhile_cons_of_neg (by simp [kept c List.mem_cons_self])]
  have kept_reverse : ∀ c ∈ text.reverse, drop c = false := by
    intro c member
    exact kept c (List.mem_reverse.mp member)
  rw [strip, whole kept, whole kept_reverse, List.reverse_reverse]

theorem trimStart_eq_nil_of_trim {text : Text} (nothing : trim text = []) :
    trimStart text = [] := by
  have blank : ∀ c ∈ (trimStart text).reverse, isBlank c = true := by
    have dropped : (trimStart text).reverse.dropWhile isBlank = [] :=
      List.reverse_eq_nil_iff.mp nothing
    intro c member
    rw [← List.takeWhile_append_dropWhile (p := isBlank) (l := (trimStart text).reverse), dropped,
      List.append_nil] at member
    exact mem_takeWhile member
  cases shape : trimStart text with
  | nil => rfl
  | cons c rest =>
      have first := trimStart_stops text c (by rw [shape]; rfl)
      rw [blank c (by simp [shape])] at first
      cases first

end Text

namespace Word

theorem texts_trimStart (text : Text) :
    (split (Text.trimStart text)).map Word.text = (split text).map Word.text := by
  have separate : ∀ c ∈ text.takeWhile isBlank, isSeparator c = true := by
    intro c member
    exact isSeparator_of_isBlank (Text.mem_takeWhile member)
  have shifted := splitFrom_separators 0 separate (Text.trimStart text)
  rw [Text.blanks_append_trimStart] at shifted
  rw [split.eq_1 text, shifted, map_text_splitFrom]

theorem exists_split_of_head {text : Text} {c : Char} (head : text.head? = some c)
    (inner : isInner c = true) :
    ∃ word words, split text = word :: words ∧ word.text.head? = some c := by
  cases text with
  | nil => cases head
  | cons first rest =>
      cases head
      have noSeparator : ¬isSeparator c = true := by simpa [isInner] using inner
      rw [split, splitFrom, if_neg noSeparator]
      exact ⟨_, _, rfl, rfl⟩

end Word

/-! ## The text behind the leading words -/

/-- The text starts with a character of a word that is no equals sign. -/
def Text.StartsWord (text : Text) : Prop :=
  ∃ c, text.head? = some c ∧ Word.isInner c = true ∧ c ≠ '='

theorem Text.StartsWord.append {first : Text} (starts : StartsWord first) (second : Text) :
    StartsWord (first ++ second) := by
  obtain ⟨c, head, inner, noEquals⟩ := starts
  obtain ⟨rest, rfl⟩ := List.head?_eq_some_iff.mp head
  exact ⟨c, rfl, inner, noEquals⟩

/-- Where every value starts a word, substitution puts nothing else in front of one. -/
theorem ParamTable.startsWord_substituteWithin {table : ParamTable}
    (values : ∀ name value, table.get? name = some value → Text.StartsWord value) (steps : Nat)
    {text : Text} (starts : Text.StartsWord text) :
    Text.StartsWord (table.substituteWithin steps text) := by
  induction steps generalizing text with
  | zero => exact starts
  | succ steps ih =>
      obtain ⟨c, head, inner, noEquals⟩ := starts
      obtain ⟨rest, rfl⟩ := List.head?_eq_some_iff.mp head
      rw [substituteWithin_succ, Token.scan_cons, replaceReferences]
      apply Text.StartsWord.append
      split
      · cases found : table.get? (c :: (Token.tailOf (Token.kindFrom c rest) rest).1) with
        | none => exact ⟨c, rfl, inner, noEquals⟩
        | some value => exact ih (values _ value found)
      · exact ⟨c, rfl, inner, noEquals⟩

namespace DeviceLine

variable {policy : CasePolicy} {scopes : Scopes policy}

theorem ledByEquals_split {text : Text} (starts : Text.StartsWord text) :
    ledByEquals ((Word.split text).map Word.text) = false := by
  obtain ⟨c, head, inner, noEquals⟩ := starts
  obtain ⟨word, words, split, lead⟩ := Word.exists_split_of_head head inner
  rw [split, List.map_cons, ledByEquals, lead]
  simpa using noEquals

theorem startsWord_textFrom {text : Text} {first : Word} (rest : List Word)
    (member : first ∈ Word.split text) (unled : ledByEquals [first.text] = false) :
    Text.StartsWord (textFrom text (first :: rest)) := by
  obtain ⟨front, back, cut⟩ := Word.exists_cut member
  have start : first.start = Text.byteSize front := cut.start_eq.trans (Nat.zero_add _)
  have behind : textFrom text (first :: rest) = first.text ++ back := by
    rw [textFrom, start]
    conv => lhs; rw [cut.whole]
    exact Text.dropBytes_byteSize_append front _
  rw [behind]
  apply Text.StartsWord.append
  obtain ⟨c, more, shape⟩ := List.exists_cons_of_ne_nil cut.solid.nonempty
  refine ⟨c, by rw [shape]; rfl, cut.solid.inner c (by simp [shape]), ?_⟩
  rintro rfl
  rw [shape] at unled
  cases unled

end DeviceLine

/-- Every model is known under a name that is a word and starts with no equals sign. -/
def Scopes.WellNamed {policy : CasePolicy} (scopes : Scopes policy) : Prop :=
  ∀ reference image, scopes.model reference = .ok (some image) →
    Word.Solid image ∧ DeviceLine.ledByEquals [image] = false

theorem Scopes.model_of_localModel {policy : CasePolicy} {scopes : Scopes policy}
    {reference image : Text} (found : scopes.localModel reference = .ok (some image)) :
    scopes.model reference = .ok (some image) := by
  unfold localModel at found
  simp [model, frames, modelIn, found]

theorem Scopes.wellNamed_start {policy : CasePolicy} (capacity : Nat) :
    (Scopes.start capacity : Scopes policy).WellNamed := by
  intro reference image found
  have unknown : ({} : Frame policy).models.lookup reference = .ok none := by
    unfold ModelAliases.lookup
    generalize Model.splitBin reference = parts
    rcases parts with ⟨base, _ | bin⟩ <;> rfl
  unfold Scopes.model Scopes.frames Scopes.start Scopes.modelIn at found
  rw [unknown] at found
  cases found

namespace DeviceLine

variable {policy : CasePolicy} {scopes : Scopes policy}

theorem ModelRead.image (named : scopes.WellNamed) {behind : List Word} {tail : Layout}
    (read : ModelRead scopes behind tail) (solid : ∀ word ∈ behind, Word.Solid word.text)
    {image : Text} (member : .model image ∈ tail.parts) :
    Word.Solid image ∧ ledByEquals [image] = false := by
  cases read with
  | nothing => cases member
  | @model first rest own unassigned known =>
      cases List.mem_singleton.mp member
      rcases known with rfl | known | known
      · exact ⟨solid first List.mem_cons_self,
          ledByEquals_cons_of_notMem (isAssignment_eq_false_iff.mp unassigned).1 []⟩
      · exact named _ _ known
      · exact named _ _ (Scopes.model_of_localModel known)

end DeviceLine

namespace Renamer

variable {config : Config} {renamer : Renamer config} {scopes : Scopes config.casePolicy}

/-- The text that the parameters of a line become. -/
def tail (renamer : Renamer config) (text : Text) (rest : List Word) : Text :=
  renamer.finish (renamer.params.substitute (DeviceLine.textFrom text rest))

/-- The words behind the leading ones start with no equals sign if they did not before. -/
theorem ledByEquals_tail
    (values : ∀ name value, renamer.params.get? name = some value → Text.StartsWord value)
    (named : scopes.WellNamed) {text : Text} {behind : List Word} {tail : DeviceLine.Layout}
    (read : DeviceLine.ModelRead scopes behind tail)
    (listed : ∀ word ∈ behind, word ∈ Word.split text)
    (unled : DeviceLine.ledByEquals (behind.map Word.text) = false) :
    DeviceLine.ledByEquals (tail.parts.flatMap renamer.part ++
      (Word.split (renamer.tail text tail.rest)).map Word.text) = false := by
  have solid : ∀ word ∈ behind, Word.Solid word.text :=
    fun word member => Word.solid_of_mem_split (listed word member)
  have images : ∀ image, .model image ∈ tail.parts → DeviceLine.ledByEquals [image] = false :=
    fun image member => (read.image named solid member).2
  cases read with
  | model unassigned known => exact images _ List.mem_cons_self
  | nothing =>
      cases behind with
      | nil =>
          have head : (renamer.tail text []).head? = none :=
            (Reference.head?_renameAll _ _).trans
              (ParamTable.head?_substitute _ (Text.stops_nil _))
          show DeviceLine.ledByEquals ((Word.split (renamer.tail text [])).map Word.text) = false
          rw [List.head?_eq_none_iff.mp head, Word.split, Word.splitFrom]
          rfl
      | cons first rest =>
          have start := DeviceLine.startsWord_textFrom rest (listed first List.mem_cons_self) unled
          obtain ⟨c, head, inner, noEquals⟩ :=
            ParamTable.startsWord_substituteWithin values ParamTable.longestChain start
          apply DeviceLine.ledByEquals_split
          exact ⟨c, (Reference.head?_renameAll _ _).trans head, inner, noEquals⟩

/-- A line that is put together has its leading words and the words of the text behind. -/
theorem texts_assemble {front : List Text} (some : front ≠ [])
    (solid : ∀ word ∈ front, Word.Solid word) (tail : Text) :
    (Word.split (assemble front tail)).map Word.text =
      front ++ (Word.split tail).map Word.text := by
  induction front with
  | nil => exact absurd rfl some
  | cons first rest ih =>
      obtain ⟨solidFirst, solidRest⟩ := List.forall_mem_cons.mp solid
      cases rest with
      | cons next rest =>
          obtain ⟨behind, whole, stops, further⟩ := assemble_cons first (next :: rest) tail
          rw [whole, Word.texts_word_append solidFirst stops, further (List.cons_ne_nil _ _),
            Word.texts_space, ih (List.cons_ne_nil _ _) solidRest]
          rfl
      | nil =>
          unfold assemble
          split
          next blank =>
            have alone := Word.texts_word_append solidFirst (Text.stops_nil _)
            rw [List.append_nil] at alone
            rw [Text.join, alone, ← Word.texts_trimStart tail,
              Text.trimStart_eq_nil_of_trim (List.isEmpty_iff.mp blank)]
            rfl
          · have space : Text.Stops Word.isInner (' ' :: Text.trimStart tail) :=
              Text.stops_cons.mpr (by decide)
            have apart := Word.texts_word_append solidFirst space
            rw [Word.texts_space, Word.texts_trimStart] at apart
            rw [Text.join, List.append_assoc]
            exact apart

end Renamer

/-! ## Reading the leading words again -/

/-- The names that stand in a part behind the device. -/
def Part.names : Part → List Text
  | .node name => [name]
  | .controls _ _ names => names
  | .reference name => [name]
  | _ => []

/-- A part with its names renamed. -/
def Renamer.image {config : Config} (renamer : Renamer config) : Part → Part
  | .device name => .device (renamer.device name)
  | .node name => .node (renamer.node name)
  | .controls role dimension names => .controls role dimension (names.map (renamer.byRole role))
  | .reference name => .reference (renamer.device name)
  | .model name => .model name

theorem Renamer.part_eq_words {config : Config} (renamer : Renamer config) (part : Part) :
    renamer.part part = (renamer.image part).words := by
  cases part <;> rfl

namespace DeviceLine

theorem nodeParts_eq_map (nodes : List Word) :
    nodeParts nodes = (nodes.map Word.text).map Part.node := (List.map_map).symm

theorem referenceParts_eq_map (references : List Word) :
    referenceParts references = (references.map Word.text).map Part.reference :=
  (List.map_map).symm

/-- A run of names is read again if the renamed names are no assignments and no polynomials. -/
theorem NameRun.renamed {names images again : List Word} {rename : Text → Text}
    (same : images.map Word.text = names.map fun name => rename name.text)
    (plain : ∀ name ∈ names, '=' ∉ rename name.text)
    (unmarked : ∀ name ∈ names, isPoly (rename name.text) = false)
    (follows : names ≠ [] → ledByEquals (again.map Word.text) = false) :
    NameRun images again := by
  have origin : ∀ image ∈ images, ∃ name ∈ names, image.text = rename name.text := by
    intro image member
    have text := List.mem_map_of_mem (f := Word.text) member
    rw [same] at text
    obtain ⟨name, found, equal⟩ := List.mem_map.mp text
    exact ⟨name, found, equal.symm⟩
  refine ⟨?_, ?_, ?_⟩
  · intro image member
    obtain ⟨name, found, equal⟩ := origin image member
    rw [equal]
    exact plain name found
  · intro image member
    obtain ⟨name, found, equal⟩ := origin image member
    rw [equal]
    exact unmarked name found
  · intro some
    apply follows
    rintro rfl
    exact some (List.map_eq_nil_iff.mp same)

theorem takeNames_append {names : List Word} (behind : List Word)
    (bare : ∀ name ∈ names, name.text ≠ [] ∧ ∀ c ∈ name.text, isParenthesis c = false) :
    takeNames names.length (names ++ behind) = (names.map Word.text, behind) := by
  induction names with
  | nil => simp [takeNames]
  | cons first rest ih =>
      obtain ⟨⟨nonempty, unparenthesized⟩, others⟩ := List.forall_mem_cons.mp bare
      rw [List.cons_append, List.length_cons, takeNames, Text.strip_eq_self unparenthesized,
        if_neg (by simp [nonempty]), ih others]
      rfl

theorem polyMark_facts : ∀ dimension < maxDimension + 1,
    isPoly (Renamer.polyMark dimension) = true ∧ '=' ∉ Renamer.polyMark dimension ∧
      innerDimension? (Renamer.polyMark dimension) = some (Text.ofNat dimension) ∧
      Numeral.count? (Text.ofNat dimension) = some dimension := by
  decide +kernel

/-- The words that a polynomial is written as are read as this polynomial. -/
theorem polyRead_of_words {role : Role} {mark : Word} {dimension : Nat}
    {controls behind : List Word} (written : mark.text = Renamer.polyMark dimension)
    (inRange : dimension ≤ maxDimension)
    (enough : controls.length = namesPerDimension role * dimension)
    (bare : ∀ name ∈ controls, name.text ≠ [] ∧ ∀ c ∈ name.text, isParenthesis c = false)
    (follows : ledByEquals ((controls ++ behind).map Word.text) = false) :
    PolyRead role mark (controls ++ behind) dimension (controls.map Word.text) behind := by
  obtain ⟨marked, plain, inner, counted⟩ := polyMark_facts dimension (Nat.lt_succ_of_le inRange)
  have split : splitDimension mark (controls ++ behind) =
      .ok (Text.ofNat dimension, controls ++ behind) := by
    unfold splitDimension
    rw [written, inner]
  refine ⟨isAssignment_eq_false_iff.mpr ⟨written ▸ plain, follows⟩, written ▸ marked, ?_⟩
  rw [splitPoly, split]
  dsimp only
  rw [counted]
  dsimp only
  rw [if_neg (Nat.not_lt.mpr inRange), ← enough, takeNames_append behind bare]
  simp

end DeviceLine

namespace Renamer

open DeviceLine

variable {config : Config} {renamer : Renamer config}

theorem flatMap_part_referenceParts (references : List Word) :
    (referenceParts references).flatMap renamer.part =
      references.map fun reference => renamer.device reference.text := by
  induction references with
  | nil => rfl
  | cons first rest ih => exact congrArg (renamer.device first.text :: ·) ih

/-- No name in the parts has a parenthesis in it. -/
def Unparenthesized (parts : List Part) : Prop :=
  ∀ part ∈ parts, ∀ name ∈ part.names, ∀ c ∈ name, isParenthesis c = false

instance (parts : List Part) : Decidable (Unparenthesized parts) :=
  decidable_of_iff
    (parts.all (fun part => part.names.all fun name => name.all (!isParenthesis ·)) = true)
    (by simp [Unparenthesized])

theorem unparenthesized_nodes {nodes : List Word} (bare : Unparenthesized (nodeParts nodes)) :
    ∀ node ∈ nodes, ∀ c ∈ node.text, isParenthesis c = false := by
  intro node member
  exact bare _ (List.mem_map_of_mem member) node.text List.mem_cons_self

theorem unparenthesized_references {references : List Word}
    (bare : Unparenthesized (referenceParts references)) :
    ∀ reference ∈ references, ∀ c ∈ reference.text, isParenthesis c = false := by
  intro reference member
  exact bare _ (List.mem_map_of_mem member) reference.text List.mem_cons_self

theorem map_image_nodeParts {nodes images : List Word}
    (same : images.map Word.text = nodes.map fun node => renamer.node node.text) :
    (nodeParts nodes).map renamer.image = nodeParts images := by
  rw [nodeParts_eq_map images, same, nodeParts, List.map_map, List.map_map]
  rfl

theorem map_image_referenceParts {references images : List Word}
    (same : images.map Word.text = references.map fun reference => renamer.device reference.text) :
    (referenceParts references).map renamer.image = referenceParts images := by
  rw [referenceParts_eq_map images, same, referenceParts, List.map_map, List.map_map]
  rfl

theorem length_eq_of_texts {names images : List Word} {rename : Text → Text}
    (same : images.map Word.text = names.map fun name => rename name.text) :
    images.length = names.length := by
  simpa using congrArg List.length same

section Again

variable (joins : Joins config) (tidy : Tidy renamer)
include joins tidy

theorem nameRun_byRole (role : Role) {names behind images again : List Word}
    (run : NameRun names behind)
    (bare : ∀ name ∈ names, ∀ c ∈ name.text, isParenthesis c = false)
    (same : images.map Word.text = names.map fun name => renamer.byRole role name.text)
    (follows : names ≠ [] → ledByEquals (again.map Word.text) = false) :
    NameRun images again := by
  refine .renamed same ?_ ?_ follows
  · intro name member
    exact noEquals_byRole joins tidy (run.plain name member) role
  · intro name member
    exact isPoly_byRole joins tidy (run.unmarked name member) (bare name member) role

theorem polyRead_byRole {role : Role} {mark : Word} {rest behind : List Word} {dimension : Nat}
    {names : List Text} (poly : PolyRead role mark rest dimension names behind)
    (solid : ∀ word ∈ rest, Word.Solid word.text)
    (bare : ∀ name ∈ names, ∀ c ∈ name, isParenthesis c = false)
    {written : Word} (marked : written.text = polyMark dimension) {controls again : List Word}
    (same : controls.map Word.text = names.map (renamer.byRole role))
    (follows : ledByEquals (names.map (renamer.byRole role) ++ again.map Word.text) = false) :
    PolyRead role written (controls ++ again) dimension (names.map (renamer.byRole role))
      again := by
  obtain ⟨inRange, enough, -, -⟩ := poly.facts
  have images : ∀ name ∈ controls, name.text ≠ [] ∧ ∀ c ∈ name.text, isParenthesis c = false := by
    intro name member
    have text := List.mem_map_of_mem (f := Word.text) member
    rw [same] at text
    obtain ⟨own, listed, equal⟩ := List.mem_map.mp text
    have solidOwn := poly.solid_words solid own (List.mem_cons_of_mem _ listed)
    rw [← equal]
    exact ⟨((tidy.wordy joins).byRole joins.off solidOwn role).nonempty,
      unparenthesized_byRole joins tidy (bare own listed) role⟩
  have count : controls.length = namesPerDimension role * dimension := by
    rw [← enough, ← List.length_map (f := Word.text), same, List.length_map]
  rw [← same] at follows ⊢
  rw [← List.map_append] at follows
  exact polyRead_of_words marked inRange count images follows

/-- Renamed leading parts are read as such, with the same roles. -/
theorem leads_byRole {kind : DeviceKind} {words behind : List Word} {parts : List Part}
    (leads : Leads kind words parts behind) (solid : ∀ word ∈ words, Word.Solid word.text)
    (bare : Unparenthesized parts) {front again : List Word}
    (same : front.map Word.text = parts.flatMap renamer.part)
    (passes : ledByEquals (behind.map Word.text) = false →
      ledByEquals (again.map Word.text) = false)
    (followed : ∀ role dimension names, .controls role dimension names ∈ parts →
      ledByEquals (names.map (renamer.byRole role) ++ again.map Word.text) = false) :
    Leads kind (front ++ again) (parts.map renamer.image) again := by
  cases leads with
  | @names nodes references _ nodeRun full referenceRun all =>
      have bareNodes := unparenthesized_nodes fun part member =>
        bare part (List.mem_append_left _ member)
      have bareReferences := unparenthesized_references fun part member =>
        bare part (List.mem_append_right _ member)
      rw [flatMap_part_nodeParts, flatMap_part_referenceParts] at same
      obtain ⟨newNodes, newReferences, rfl, sameNodes, sameReferences⟩ :=
        List.map_eq_append_iff.mp same
      have newReferenceRun := nameRun_byRole joins tidy .device referenceRun bareReferences
        sameReferences fun some => passes (referenceRun.unassigned some)
      have newNodeRun := nameRun_byRole joins tidy .node nodeRun bareNodes sameNodes
        fun some => newReferenceRun.unled_append fun none => by
          have alone : references = [] := by simpa [none] using sameReferences
          have unled := nodeRun.unassigned some
          rw [alone] at unled
          exact passes unled
      rw [List.map_append, map_image_nodeParts sameNodes, map_image_referenceParts sameReferences,
        List.append_assoc]
      exact .names newNodeRun (by rw [length_eq_of_texts sameNodes, full]) newReferenceRun
        (by rw [length_eq_of_texts sameReferences, all])
  | @nodePoly nodes rest _ mark dimension names nodeRun fewer poly =>
      have bareNodes := unparenthesized_nodes fun part member =>
        bare part (List.mem_append_left _ member)
      have last : .controls .node dimension names ∈
          nodeParts nodes ++ [.controls .node dimension names] := by simp
      rw [flatMap_part_nodeParts, List.flatMap_singleton] at same
      obtain ⟨newNodes, group, rfl, sameNodes, sameGroup⟩ := List.map_eq_append_iff.mp same
      obtain ⟨newMark, controls, rfl, written, sameControls⟩ := List.map_eq_cons_iff.mp sameGroup
      have newPoly := polyRead_byRole joins tidy poly
        (fun word member => solid word (by simp [member])) (bare _ last) written sameControls
        (followed _ _ _ last)
      have newNodeRun := nameRun_byRole joins tidy .node nodeRun bareNodes sameNodes
        fun _ => newPoly.unled
      rw [List.map_append, map_image_nodeParts sameNodes, List.append_assoc]
      exact .nodePoly newNodeRun (by rw [length_eq_of_texts sameNodes]; exact fewer) newPoly
  | @devicePoly nodes references rest _ mark dimension names nodeRun full referenceRun fewer poly =>
      have bareNodes := unparenthesized_nodes fun part member =>
        bare part (List.mem_append_left _ member)
      have bareReferences := unparenthesized_references fun part member =>
        bare part (List.mem_append_right _ (List.mem_append_left _ member))
      have last : .controls .device dimension names ∈
          nodeParts nodes ++
            (referenceParts references ++ [.controls .device dimension names]) := by
        simp
      rw [flatMap_part_nodeParts, List.flatMap_append, flatMap_part_referenceParts,
        List.flatMap_singleton] at same
      obtain ⟨newNodes, others, rfl, sameNodes, sameOthers⟩ := List.map_eq_append_iff.mp same
      obtain ⟨newReferences, group, rfl, sameReferences, sameGroup⟩ :=
        List.map_eq_append_iff.mp sameOthers
      obtain ⟨newMark, controls, rfl, written, sameControls⟩ := List.map_eq_cons_iff.mp sameGroup
      have newPoly := polyRead_byRole joins tidy poly
        (fun word member => solid word (by simp [member])) (bare _ last) written sameControls
        (followed _ _ _ last)
      have newReferenceRun := nameRun_byRole joins tidy .device referenceRun bareReferences
        sameReferences fun _ => newPoly.unled
      have newNodeRun := nameRun_byRole joins tidy .node nodeRun bareNodes sameNodes
        fun _ => newReferenceRun.unled_append fun _ => newPoly.unled
      rw [List.map_append, List.map_append, map_image_nodeParts sameNodes,
        map_image_referenceParts sameReferences, List.append_assoc, List.append_assoc]
      exact .devicePoly newNodeRun (by rw [length_eq_of_texts sameNodes, full]) newReferenceRun
        (by rw [length_eq_of_texts sameReferences]; exact fewer) newPoly

end Again

theorem Wordy.words_image (wordy : Wordy renamer) (off : config.substituteNodes = false)
    {part : Part} (spelled : ∀ word ∈ part.words, Word.Solid word) :
    ∀ word ∈ (renamer.image part).words, Word.Solid word := by
  intro word member
  cases part with
  | device name =>
      rw [List.mem_singleton.mp member]
      exact wordy.device (spelled name List.mem_cons_self)
  | node name =>
      rw [List.mem_singleton.mp member]
      exact wordy.node off (spelled name List.mem_cons_self)
  | reference name =>
      rw [List.mem_singleton.mp member]
      exact wordy.device (spelled name List.mem_cons_self)
  | model name => exact spelled word member
  | controls role dimension names =>
      rcases List.mem_cons.mp member with rfl | later
      · exact solid_polyMark dimension
      · obtain ⟨name, found, rfl⟩ := List.mem_map.mp later
        exact wordy.byRole off (spelled name (List.mem_cons_of_mem _ found)) role

/-- What a device line is renamed to, by its layout. -/
theorem exists_layout_of_deviceLine {scopes : Scopes config.casePolicy} {text line : Text}
    {name : Word} {words : List Word} (split : Word.split text = name :: words)
    (made : renamer.deviceLine scopes text = .ok line) :
    ∃ laid, layout config.strictModels scopes (kind? renamer.catalog name.text) name.text words =
        .ok laid ∧
      line = assemble ((.device name.text :: laid.parts).flatMap renamer.part)
        (renamer.tail text laid.rest) := by
  unfold deviceLine at made
  rw [split] at made
  dsimp only at made
  split at made
  · cases made
  next laid read =>
    cases made
    exact ⟨laid, read, rfl⟩

/-- A renamed line is split into the device, the leading words, a model and the words behind. -/
theorem words_between (wordy : Wordy renamer) (off : config.substituteNodes = false)
    {scopes : Scopes config.casePolicy} (named : scopes.WellNamed) {text name : Text}
    {behind : List Word} {parts : List Part} {tail : Layout}
    (model : ModelRead scopes behind tail) (listed : ∀ word ∈ behind, word ∈ Word.split text)
    (spelled : ∀ part ∈ Part.device name :: parts, ∀ word ∈ part.words, Word.Solid word) :
    ∃ newName front again,
      Word.split (assemble ((.device name :: (tail.after parts).parts).flatMap renamer.part)
        (renamer.tail text (tail.after parts).rest)) = newName :: (front ++ again) ∧
      newName.text = renamer.device name ∧ front.map Word.text = parts.flatMap renamer.part ∧
      again.map Word.text = tail.parts.flatMap renamer.part ++
        (Word.split (renamer.tail text tail.rest)).map Word.text := by
  have solid : ∀ word ∈ (.device name :: (tail.after parts).parts).flatMap renamer.part,
      Word.Solid word := by
    intro word member
    obtain ⟨part, listedPart, inside⟩ := List.mem_flatMap.mp member
    rw [part_eq_words] at inside
    rw [Layout.after, ← List.cons_append] at listedPart
    rcases List.mem_append.mp listedPart with leading | last
    · exact wordy.words_image off (spelled part leading) word inside
    · obtain ⟨image, rfl⟩ := model.eq_model last
      rw [List.mem_singleton.mp inside]
      exact (model.image named (fun word member => Word.solid_of_mem_split (listed word member))
        last).1
  have head : (.device name :: (tail.after parts).parts).flatMap renamer.part =
      renamer.device name :: (parts.flatMap renamer.part ++ tail.parts.flatMap renamer.part) := by
    rw [List.flatMap_cons]
    exact congrArg (renamer.device name :: ·) List.flatMap_append
  rw [head] at solid ⊢
  have texts := texts_assemble (List.cons_ne_nil _ _) solid
    (renamer.tail text (tail.after parts).rest)
  rw [List.cons_append, List.append_assoc] at texts
  obtain ⟨newName, words, split, newText, same⟩ := List.map_eq_cons_iff.mp texts
  obtain ⟨front, again, rfl, sameFront, sameAgain⟩ := List.map_eq_append_iff.mp same
  exact ⟨newName, front, again, split, newText, sameFront, sameAgain⟩

/-- The outer of two nested levels gives every leading word of a device line the role that the
inner one gave it, so that its name is renamed by both: the line is read in full, its kind has a
fixed number of nodes, names have no parentheses, and no word right behind a polynomial starts
with an equals sign. -/
theorem nested_roles_compose {inner outer : Renamer config} (joins : Joins config)
    (tidy : Tidy inner) (wordy : Wordy outer) (catalog : outer.catalog = inner.catalog)
    (values : ∀ name value, inner.params.get? name = some value → Text.StartsWord value)
    {scopes outerScopes : Scopes config.casePolicy} (named : scopes.WellNamed) {text : Text}
    {name : Word} {words : List Word} (split : Word.split text = name :: words)
    {kind : DeviceKind} (known : kind? inner.catalog name.text = some kind)
    (fixed : kind.minNodes = kind.maxNodes) {laid : Layout}
    (read : layout config.strictModels scopes (some kind) name.text words = .ok laid)
    (complete : Part.Complete kind laid.parts) (bare : Unparenthesized laid.parts)
    (followed : ∀ role dimension names, .controls role dimension names ∈ laid.parts →
      ledByEquals (names.map (inner.byRole role) ++ laid.rest.map Word.text) = false)
    {middle final : Text} (first : inner.deviceLine scopes text = .ok middle)
    (second : outer.deviceLine outerScopes middle = .ok final) :
    ∃ (newName : Word) (newWords : List Word) (newLaid : Layout),
      Word.split middle = newName :: newWords ∧
      kind? outer.catalog newName.text = some kind ∧
      layout config.strictModels outerScopes (some kind) newName.text newWords = .ok newLaid ∧
      .device newName.text :: newLaid.parts.filter Part.isLeading =
        (.device name.text :: laid.parts.filter Part.isLeading).map inner.image ∧
      ∃ more, (Word.split final).map Word.text =
        (.device name.text :: laid.parts.filter Part.isLeading).flatMap
          (fun part => (outer.image (inner.image part)).words) ++ more := by
  obtain ⟨parts, behind, tail, leads, model, rfl⟩ := leads_of_layout fixed read complete
  obtain ⟨found, readAgain, rfl⟩ := exists_layout_of_deviceLine split first
  rw [known, read] at readAgain
  cases readAgain
  have listed : ∀ word ∈ words, word ∈ Word.split text :=
    fun word member => split ▸ List.mem_cons_of_mem name member
  have solid : ∀ word ∈ words, Word.Solid word.text :=
    fun word member => Word.solid_of_mem_split (listed word member)
  have listedBehind : ∀ word ∈ behind, word ∈ Word.split text :=
    fun word member => listed word (leads.suffix.subset member)
  have solidName : Word.Solid name.text := Word.solid_of_mem_split (split ▸ List.mem_cons_self)
  have spelled : ∀ part ∈ Part.device name.text :: parts, ∀ word ∈ part.words, Word.Solid word :=
    List.forall_mem_cons.mpr ⟨List.forall_mem_cons.mpr ⟨solidName, List.forall_mem_nil _⟩,
      leads.solid_words solid⟩
  -- the words between the levels: the device, the leading words and what is behind them
  obtain ⟨newName, front, again, splitMiddle, newText, sameFront, sameAgain⟩ :=
    words_between (tidy.wordy joins) joins.off named model listedBehind spelled
  have passes : ledByEquals (behind.map Word.text) = false →
      ledByEquals (again.map Word.text) = false := by
    rw [sameAgain]
    exact ledByEquals_tail values named model listedBehind
  have newFollowed : ∀ role dimension names, .controls role dimension names ∈ parts →
      ledByEquals (names.map (inner.byRole role) ++ again.map Word.text) = false := by
    intro role dimension names member
    have unled := followed role dimension names (List.mem_append_left _ member)
    cases names with
    | nil => exact passes (model.unled unled)
    | cons control others => exact unled
  have newLeads := leads_byRole joins tidy leads solid
    (fun part member => bare part (List.mem_append_left _ member)) sameFront passes newFollowed
  -- the outer level reads them
  have newKnown : kind? outer.catalog newName.text = some kind := by
    rw [newText, catalog, kind?_device _ solidName.nonempty, known]
  obtain ⟨newLaid, newRead, rfl⟩ := exists_layout_of_deviceLine splitMiddle second
  rw [newKnown, layout_of_leads fixed newLeads] at newRead
  cases laidOut : modelLayout config.strictModels outerScopes kind newName.text again with
  | error fault =>
      rw [laidOut] at newRead
      cases newRead
  | ok newTail =>
      rw [laidOut] at newRead
      cases newRead
      have newFilter := filter_isLeading newLeads (modelRead_of_modelLayout laidOut)
      refine ⟨newName, front ++ again, newTail.after (parts.map inner.image), splitMiddle, newKnown,
        ?_, ?_, ?_⟩
      · rw [layout_of_leads fixed newLeads, laidOut]
        rfl
      · rw [newFilter, filter_isLeading leads model, newText]
        rfl
      · have twice : ∀ word ∈ (Part.device name.text :: parts).flatMap
            (fun part => (outer.image (inner.image part)).words), Word.Solid word := by
          intro word member
          obtain ⟨part, inside, written⟩ := List.mem_flatMap.mp member
          have once := (tidy.wordy joins).words_image joins.off (spelled part inside)
          exact wordy.words_image joins.off once word written
        obtain ⟨more, texts⟩ := exists_texts_assemble twice (newTail.parts.flatMap outer.part)
          (outer.tail _ newTail.rest)
        refine ⟨more, ?_⟩
        rw [filter_isLeading leads model, ← texts, newText]
        congr 3
        simp only [Layout.after, List.flatMap_cons, List.flatMap_append, List.flatMap_map,
          part_eq_words, List.append_assoc]
        rfl

/-- A controlled source with a polynomial, within x1 and x2. -/
theorem nested_roles_compose_poly :
    let inner : Renamer ({} : Config) :=
      ⟨Catalog.standard, "x1", ⟨[("a", "p")]⟩, .empty, .empty⟩
    let outer : Renamer ({} : Config) :=
      ⟨Catalog.standard, "x2", ⟨[("p", "n")]⟩, .empty, .empty⟩
    let scopes : Scopes ({} : Config).casePolicy := .start 1
    let line : Text := "e1_x1 p q_x1 poly(1) c_x1 d_x1 5"
    inner.deviceLine scopes "e1 a q poly(1) (c, d) 5" = .ok line ∧
      outer.deviceLine scopes line = .ok "e1_x1_x2 n q_x1_x2 poly(1) c_x1_x2 d_x1_x2 5" ∧
      ∃ newName newWords newLaid, Word.split line = newName :: newWords ∧
        layout false scopes (some ⟨4, 4, 0, false⟩) newName.text newWords = .ok newLaid ∧
        .device newName.text :: newLaid.parts.filter Part.isLeading =
          [.device "e1_x1", .node "p", .node "q_x1", .controls .node 1 ["c_x1", "d_x1"]] := by
  intro inner outer scopes line
  have first : inner.deviceLine scopes "e1 a q poly(1) (c, d) 5" = .ok line :=
    eq_ok_of_toOption (by decide +kernel)
  have second : outer.deviceLine scopes line =
      .ok "e1_x1_x2 n q_x1_x2 poly(1) c_x1_x2 d_x1_x2 5" :=
    eq_ok_of_toOption (by decide +kernel)
  have split : Word.split "e1 a q poly(1) (c, d) 5" = ⟨"e1", 0⟩ ::
      [⟨"a", 3⟩, ⟨"q", 5⟩, ⟨"poly(1)", 7⟩, ⟨"(c", 15⟩, ⟨"d)", 19⟩, ⟨"5", 22⟩] := by
    decide +kernel
  have read : layout false scopes (some ⟨4, 4, 0, false⟩) "e1"
      [⟨"a", 3⟩, ⟨"q", 5⟩, ⟨"poly(1)", 7⟩, ⟨"(c", 15⟩, ⟨"d)", 19⟩, ⟨"5", 22⟩] =
      .ok ⟨[.node "a", .node "q", .controls .node 1 ["c", "d"]], [⟨"5", 22⟩]⟩ :=
    eq_ok_of_toOption (by decide +kernel)
  have tidy : Tidy inner := by
    refine ⟨by decide +kernel, by decide +kernel, ?_, ?_, ?_⟩ <;> decide +kernel
  have wordy : Wordy outer := by
    refine ⟨by decide +kernel, by decide +kernel, ?_⟩
    decide +kernel
  have values : ∀ name value, inner.params.get? name = some value → Text.StartsWord value := by
    intro name value found
    cases found
  have bare : Unparenthesized [.node "a", .node "q", .controls .node 1 ["c", "d"]] := by
    decide +kernel
  have followed : ∀ role dimension names, .controls role dimension names ∈
      [Part.node "a", .node "q", .controls .node 1 ["c", "d"]] →
      ledByEquals (names.map (inner.byRole role) ++ [("5" : Text)]) = false := by
    intro role dimension names member
    simp only [List.mem_cons, reduceCtorEq, List.not_mem_nil, or_false, false_or,
      Part.controls.injEq] at member
    obtain ⟨rfl, rfl, rfl⟩ := member
    decide +kernel
  obtain ⟨newName, newWords, newLaid, splitLine, -, newRead, roles, -⟩ :=
    nested_roles_compose ⟨rfl, by decide, by decide⟩ tidy wordy rfl values
      (Scopes.wellNamed_start 1) split rfl rfl read (.inl rfl) bare followed first second
  exact ⟨first, second, newName, newWords, newLaid, splitLine, newRead,
    roles.trans (by decide +kernel)⟩

/-- A controlling name that starts with an equals sign makes the polynomial an assignment for the
outer level, which then renames none of its names; and a polynomial without names in front of an
equals sign is one for the inner level only. -/
theorem roles_differ_behind_equals :
    let inner : Renamer ({} : Config) :=
      ⟨Catalog.standard, "x1", ⟨[("a", "p")]⟩, .empty, .empty⟩
    let outer : Renamer ({} : Config) :=
      ⟨Catalog.standard, "x2", ⟨[("p", "n")]⟩, .empty, .empty⟩
    let scopes : Scopes ({} : Config).casePolicy := .start 1
    let parts (words : Text) := ((layout false scopes (some ⟨4, 4, 0, false⟩) "e1"
      (Word.split words)).toOption.map Layout.parts)
    (inner.deviceLine scopes "e1 a q poly 1 =c d 5" = .ok "e1_x1 p q_x1 poly(1) =c_x1 d_x1 5" ∧
      outer.deviceLine scopes "e1_x1 p q_x1 poly(1) =c_x1 d_x1 5" =
        .ok "e1_x1_x2 n q_x1_x2 poly(1) =c_x1 d_x1 5" ∧
      outer.node (inner.node "=c") = "=c_x1_x2") ∧
    parts "a q poly 0 = 5" = some [.node "a", .node "q", .controls .node 0 []] ∧
      parts "p q_x1 poly(0) = 5" = some [.node "p", .node "q_x1"] := by
  intro inner outer scopes parts
  refine ⟨⟨eq_ok_of_toOption ?_, eq_ok_of_toOption ?_, ?_⟩, ?_, ?_⟩ <;> decide +kernel

end Renamer

end Netlist

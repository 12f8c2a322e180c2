import Netlist.Proofs.Keyword
import Netlist.Proofs.ModelAlias

/-!
# The words of a renamed device line

A renamed line is put together from words, and those in front can be read back
from it.  A device whose kind has a model and a fixed number of nodes keeps
its shape: as many nodes as the kind asks for, then the model, unless the
nodes end in a polynomial.
-/

namespace Netlist

namespace Word

theorem texts_word_append {word behind : Text} (solid : Solid word)
    (stops : Text.Stops isInner behind) :
    (split (word ++ behind)).map Word.text = word :: (split behind).map Word.text := by
  unfold split
  rw [splitFrom_word 0 solid stops, List.map_cons, map_text_splitFrom]
  rfl

theorem texts_space (behind : Text) :
    (split (' ' :: behind)).map Word.text = (split behind).map Word.text := by
  have separate : ∀ c ∈ [' '], isSeparator c = true := List.all_eq_true.mp (by decide)
  have shifted := splitFrom_separators 0 separate behind
  rw [List.singleton_append] at shifted
  unfold split
  rw [shifted, map_text_splitFrom]
  rfl

end Word

namespace Renamer

variable {config : Config}

/-- A line that is put together is its first word with a separator behind it, if anything. -/
theorem assemble_cons (first : Text) (rest : List Text) (tail : Text) :
    ∃ behind, assemble (first :: rest) tail = first ++ behind ∧
      Text.Stops Word.isInner behind ∧
      (rest ≠ [] → behind = ' ' :: assemble rest tail) := by
  have space (text : Text) : Text.Stops Word.isInner (' ' :: text) :=
    Text.stops_cons.mpr (by decide)
  cases rest with
  | nil =>
      unfold assemble
      split
      · exact ⟨[], (List.append_nil _).symm, Text.stops_nil _, fun some => absurd rfl some⟩
      · refine ⟨' ' :: Text.trimStart tail, ?_, space _, fun some => absurd rfl some⟩
        rw [List.append_assoc]
        rfl
  | cons next rest =>
      refine ⟨' ' :: assemble (next :: rest) tail, ?_, space _, fun _ => rfl⟩
      unfold assemble
      split
      · rw [Text.join_cons_cons]
        rfl
      · rw [Text.join_cons_cons]
        simp only [List.append_assoc]
        rfl

/-- The words in front of a line that is put together can be read back from it. -/
theorem exists_texts_assemble {front : List Text} (solid : ∀ word ∈ front, Word.Solid word)
    (back : List Text) (tail : Text) :
    ∃ more, (Word.split (assemble (front ++ back) tail)).map Word.text = front ++ more := by
  induction front with
  | nil => exact ⟨_, rfl⟩
  | cons first rest ih =>
      obtain ⟨behind, whole, stops, further⟩ := assemble_cons first (rest ++ back) tail
      have here := Word.texts_word_append (solid first (List.mem_cons_self ..)) stops
      rw [List.cons_append, whole, here]
      cases rest with
      | nil => exact ⟨_, rfl⟩
      | cons next rest =>
          obtain ⟨more, later⟩ := ih fun word member => solid word (List.mem_cons_of_mem _ member)
          rw [further (by simp), Word.texts_space, later]
          exact ⟨more, rfl⟩

/-! ## Names that are words -/

/-- What keeps the names of a renamer words: the separator, the instance and the nodes outside. -/
structure Wordy (renamer : Renamer config) : Prop where
  separator : Word.isInner config.separator = true
  inst : Word.Solid renamer.inst
  outside : ∀ entry ∈ renamer.pins.entries, Word.Solid entry.2

variable {renamer : Renamer config}

theorem Wordy.joined (wordy : Wordy renamer) {name : Text} (solid : Word.Solid name) :
    Word.Solid (renamer.joint.node name renamer.inst) := by
  have behind {text : Text} (solid : Word.Solid text) :
      ∀ c ∈ config.separator :: text, Word.isInner c = true := by
    intro c member
    rcases List.mem_cons.mp member with rfl | later
    · exact wordy.separator
    · exact solid.inner c later
  unfold Catenation.node
  cases renamer.joint.order with
  | nameFirst => exact solid.append (behind wordy.inst)
  | instanceFirst => exact wordy.inst.append (behind solid)

theorem Wordy.device (wordy : Wordy renamer) {name : Text} (solid : Word.Solid name) :
    Word.Solid (renamer.device name) := by
  have joined := wordy.joined solid
  unfold Renamer.device Catenation.device
  unfold Catenation.node at joined
  cases order : renamer.joint.order with
  | nameFirst => simpa only [order] using joined
  | instanceFirst =>
      obtain ⟨c, rest, rfl⟩ := List.exists_cons_of_ne_nil solid.nonempty
      rw [order] at joined
      have key : Word.Solid [c] := by
        refine ⟨by simp, ?_⟩
        intro d member
        rw [List.mem_singleton.mp member]
        exact solid.inner c (List.mem_cons_self ..)
      show Word.Solid ([c] ++ config.separator :: renamer.inst ++ config.separator :: c :: rest)
      rw [List.append_assoc]
      apply key.append
      intro d member
      rcases List.mem_cons.mp member with rfl | later
      · exact wordy.separator
      · exact joined.inner d later

theorem Wordy.model (wordy : Wordy renamer) {name : Text} (solid : Word.Solid name) :
    Word.Solid (renamer.joint.model name renamer.inst) := by
  unfold Catenation.model
  split
  next base bin binned =>
    obtain ⟨whole, nonempty, -⟩ := Model.splitBin_some binned
    rw [whole] at solid
    have front : Word.Solid base :=
      ⟨nonempty, fun c member => solid.inner c (List.mem_append_left _ member)⟩
    apply (wordy.joined front).append
    intro c member
    exact solid.inner c (List.mem_append_right _ member)
  next base unbinned =>
    rw [Model.splitBin_none unbinned]
    exact wordy.joined solid

theorem Wordy.node (wordy : Wordy renamer) (off : config.substituteNodes = false) {name : Text}
    (solid : Word.Solid name) : Word.Solid (renamer.node name) := by
  unfold Renamer.node nodeName
  simp only [off, Bool.false_eq_true, if_false]
  cases outside : renamer.pins.outside? renamer.globals name with
  | none => exact wordy.joined solid
  | some image =>
      unfold Pins.outside? at outside
      split at outside
      · cases outside
        exact solid
      · obtain ⟨entry, listed, rfl⟩ := Option.map_eq_some_iff.mp outside
        exact wordy.outside entry (List.mem_of_find?_eq_some listed)

end Renamer

/-! ## The shape of a device line -/

namespace DeviceLine

variable {policy : CasePolicy}

def nodeParts (nodes : List Word) : List Part := nodes.map fun node => .node node.text

/-- No model can be read from here: the line or its words in front of assignments have ended. -/
def Exhausted : List Word → Prop
  | [] => True
  | first :: rest => isAssignment first rest = true

theorem exists_controls_of_splitPoly {role : Role} {first : Word} {rest words : List Word}
    {part : Part} (read : splitPoly role first rest = .ok (part, words)) :
    ∃ dimension names, part = .controls role dimension names := by
  unfold splitPoly at read
  split at read
  · cases read
  · split at read
    · cases read
    · split at read
      · cases read
      · dsimp only at read
        split at read
        · cases read
        · cases read
          exact ⟨_, _, rfl⟩

theorem modelPart_of_exhausted (strict : Bool) (scopes : Scopes policy) (name : Text)
    {words : List Word} (exhausted : Exhausted words) :
    modelPart strict scopes name words = .error (.missingModel name) := by
  cases words with
  | nil => rfl
  | cons first rest =>
      have assigned : isAssignment first rest = true := exhausted
      rw [modelPart, if_pos assigned]

end DeviceLine

namespace Renamer

/-- The word that a polynomial of a dimension becomes. -/
def polyMark (dimension : Nat) : Text := "poly(" ++ Text.ofNat dimension ++ ")"

theorem isInner_of_isDigit {c : Char} (digit : c.isDigit = true) : Word.isInner c = true := by
  have bounds := Token.bounds_of_isDigit digit
  have notBlank : isBlank c = false := by
    simp only [isBlank, blankRanges, List.any_cons, List.any_nil, Bool.or_false,
      Bool.or_eq_false_iff, Bool.and_eq_false_iff, decide_eq_false_iff_not]
    omega
  have notComma : c ≠ ',' := by
    rintro rfl
    exact absurd digit (by decide)
  simp [Word.isInner, Word.isSeparator, notBlank, notComma]

theorem isDigit_of_mem_ofNat {n : Nat} {c : Char} (member : c ∈ Text.ofNat n) :
    c.isDigit = true :=
  Nat.isDigit_of_mem_toDigits (by decide) (by decide) member

theorem solid_append_ofNat {front : Text} (solid : Word.Solid front) (n : Nat) :
    Word.Solid (front ++ Text.ofNat n) :=
  solid.append fun _ member => isInner_of_isDigit (isDigit_of_mem_ofNat member)

theorem solid_polyMark (dimension : Nat) : Word.Solid (polyMark dimension) := by
  have front : Word.Solid "poly(".toList := ⟨by decide, List.all_eq_true.mp (by decide)⟩
  exact (solid_append_ofNat front dimension).append (List.all_eq_true.mp (by decide))

variable {config : Config} {renamer : Renamer config}

theorem flatMap_part_nodeParts (nodes : List Word) (more : List Part) :
    (DeviceLine.nodeParts nodes ++ more).flatMap renamer.part =
      nodes.map (fun node => renamer.node node.text) ++ more.flatMap renamer.part := by
  rw [List.flatMap_append]
  congr 1
  induction nodes with
  | nil => rfl
  | cons first rest ih =>
      rw [DeviceLine.nodeParts, List.map_cons, List.flatMap_cons, List.map_cons]
      exact congrArg (renamer.node first.text :: ·) ih

theorem kind?_device (catalog : Catalog) {name : Text} (nonempty : name ≠ []) :
    DeviceLine.kind? catalog (renamer.device name) = DeviceLine.kind? catalog name := by
  obtain ⟨c, rest, rfl⟩ := List.exists_cons_of_ne_nil nonempty
  unfold DeviceLine.kind?
  rw [renamer.head?_device rfl]
  rfl

end Renamer

end Netlist

import Netlist.Proofs.DeviceWords

/-!
# The leading parts of a device line

A kind with a fixed number of nodes leaves three ways to read a line in full:
all nodes and all references, nodes up to a polynomial, or all nodes and
references up to a polynomial.  How the line goes on behind these parts is
decided by the words behind them alone.
-/

namespace Netlist

theorem Word.Solid.of_strip {text : Text} (solid : Solid text) {drop : Char → Bool}
    (nonempty : Text.strip drop text ≠ []) : Solid (Text.strip drop text) := by
  refine ⟨nonempty, ?_⟩
  intro c member
  unfold Text.strip at member
  have dropped := (List.dropWhile_suffix drop).subset (List.mem_reverse.mp member)
  exact solid.inner c ((List.dropWhile_suffix drop).subset (List.mem_reverse.mp dropped))

namespace Part

/-- The words that a part is written as. -/
def words : Part → List Text
  | .device name => [name]
  | .node name => [name]
  | .controls _ dimension names => Renamer.polyMark dimension :: names
  | .reference name => [name]
  | .model name => [name]

def isNode : Part → Bool
  | .node _ => true
  | _ => false

def isReference : Part → Bool
  | .reference _ => true
  | _ => false

def isControls (role : Role) : Part → Bool
  | .controls own _ _ => own = role
  | _ => false

/-- Every part but a model has its role by its place. -/
def isLeading : Part → Bool
  | .model _ => false
  | _ => true

/-- There are all nodes and references that the kind has, or a polynomial in their place. -/
def Complete (kind : DeviceKind) (parts : List Part) : Prop :=
  parts.any (isControls .node) = true ∨
    (parts.countP isNode = kind.maxNodes ∧
      (parts.countP isReference = kind.references ∨ parts.any (isControls .device) = true))

end Part

namespace DeviceLine

variable {policy : CasePolicy}

/-! ## Names one by one -/

/-- The first of the words starts with an equals sign. -/
def ledByEquals : List Text → Bool
  | [] => false
  | first :: _ => first.head? == some '='

theorem ledByEquals_cons_of_notMem {first : Text} (plain : '=' ∉ first) (rest : List Text) :
    ledByEquals (first :: rest) = false := by
  cases led : ledByEquals (first :: rest) with
  | false => rfl
  | true =>
      have head : first.head? = some '=' := beq_iff_eq.mp led
      exact absurd (List.mem_of_mem_head? head) plain

theorem isAssignment_eq_false_iff {first : Word} {rest : List Word} :
    isAssignment first rest = false ↔
      '=' ∉ first.text ∧ ledByEquals (rest.map Word.text) = false := by
  cases rest <;> simp [isAssignment, ledByEquals]

/-- Words that are read as names one by one, in front of other words. -/
structure NameRun (names behind : List Word) : Prop where
  plain : ∀ name ∈ names, '=' ∉ name.text
  unmarked : ∀ name ∈ names, isPoly name.text = false
  unassigned : names ≠ [] → ledByEquals (behind.map Word.text) = false

theorem nameRun_nil (behind : List Word) : NameRun [] behind :=
  ⟨List.forall_mem_nil _, List.forall_mem_nil _, fun some => absurd rfl some⟩

theorem nameRun_cons_iff {first : Word} {rest behind : List Word} :
    NameRun (first :: rest) behind ↔
      isAssignment first (rest ++ behind) = false ∧ isPoly first.text = false ∧
        NameRun rest behind := by
  rw [isAssignment_eq_false_iff]
  constructor
  · intro run
    have behindOk := run.unassigned (List.cons_ne_nil _ _)
    refine ⟨⟨run.plain first List.mem_cons_self, ?_⟩, run.unmarked first List.mem_cons_self,
      fun name member => run.plain name (List.mem_cons_of_mem first member),
      fun name member => run.unmarked name (List.mem_cons_of_mem first member),
      fun _ => behindOk⟩
    cases rest with
    | nil => exact behindOk
    | cons next rest =>
        exact ledByEquals_cons_of_notMem (run.plain next (by simp)) _
  · rintro ⟨⟨plain, next⟩, unmarked, run⟩
    refine ⟨List.forall_mem_cons.mpr ⟨plain, run.plain⟩,
      List.forall_mem_cons.mpr ⟨unmarked, run.unmarked⟩, ?_⟩
    intro _
    cases rest with
    | nil => exact next
    | cons second rest => exact run.unassigned (List.cons_ne_nil _ _)

/-- The words of a run, or those behind an empty one, start with no equals sign. -/
theorem NameRun.unled_append {names behind : List Word} (run : NameRun names behind)
    (alone : names = [] → ledByEquals (behind.map Word.text) = false) :
    ledByEquals ((names ++ behind).map Word.text) = false := by
  cases names with
  | nil => exact alone rfl
  | cons first rest => exact ledByEquals_cons_of_notMem (run.plain first List.mem_cons_self) _

def referenceParts (references : List Word) : List Part :=
  references.map fun reference => .reference reference.text

/-! ## Polynomials -/

theorem length_takeNames_le (count : Nat) (words : List Word) :
    (takeNames count words).1.length ≤ count := by
  fun_induction takeNames count words with
  | case1 words => exact Nat.le_refl 0
  | case2 count => exact Nat.zero_le _
  | case3 count first rest name blank ih => exact ih
  | case4 count first rest name notBlank names behind taken ih =>
      rw [taken] at ih
      exact Nat.succ_le_succ ih

theorem suffix_takeNames (count : Nat) (words : List Word) :
    (takeNames count words).2 <:+ words := by
  fun_induction takeNames count words with
  | case1 words => exact List.suffix_refl words
  | case2 count => exact List.suffix_refl []
  | case3 count first rest name blank ih => exact ih.trans (List.suffix_cons first rest)
  | case4 count first rest name notBlank names behind taken ih =>
      rw [taken] at ih
      exact ih.trans (List.suffix_cons first rest)

theorem mem_takeNames {count : Nat} {words : List Word} {name : Text}
    (member : name ∈ (takeNames count words).1) :
    name ≠ [] ∧ ∃ word ∈ words, name = Text.strip isParenthesis word.text := by
  fun_induction takeNames count words with
  | case1 words => cases member
  | case2 count => cases member
  | case3 count first rest own blank ih =>
      obtain ⟨nonempty, word, found, same⟩ := ih member
      exact ⟨nonempty, word, List.mem_cons_of_mem first found, same⟩
  | case4 count first rest own notBlank names behind taken ih =>
      rcases List.mem_cons.mp member with rfl | later
      · refine ⟨?_, first, List.mem_cons_self, rfl⟩
        intro empty
        rw [empty] at notBlank
        exact notBlank rfl
      · rw [taken] at ih
        obtain ⟨nonempty, word, found, same⟩ := ih later
        exact ⟨nonempty, word, List.mem_cons_of_mem first found, same⟩

/-- What a polynomial is read to. -/
structure PolyRead (role : Role) (mark : Word) (rest : List Word) (dimension : Nat)
    (names : List Text) (behind : List Word) : Prop where
  unassigned : isAssignment mark rest = false
  marked : isPoly mark.text = true
  read : splitPoly role mark rest = .ok (.controls role dimension names, behind)

theorem suffix_splitDimension {mark : Word} {rest words : List Word} {written : Text}
    (split : splitDimension mark rest = .ok (written, words)) : words <:+ rest := by
  unfold splitDimension at split
  split at split
  · cases split
    exact List.suffix_refl _
  · split at split
    · cases split
    · cases split
      exact List.suffix_cons _ _

/-- The dimension is in range, and there are as many names as it asks for. -/
theorem PolyRead.facts {role : Role} {mark : Word} {rest behind : List Word} {dimension : Nat}
    {names : List Text} (poly : PolyRead role mark rest dimension names behind) :
    dimension ≤ maxDimension ∧ names.length = namesPerDimension role * dimension ∧
      (∀ name ∈ names, name ≠ [] ∧ ∃ word ∈ rest, name = Text.strip isParenthesis word.text) ∧
      behind <:+ rest := by
  have read := poly.read
  unfold splitPoly at read
  split at read
  · cases read
  next written words split =>
    have shorter := suffix_splitDimension split
    split at read
    · cases read
    next found counted =>
      split at read
      · cases read
      next inRange =>
        dsimp only at read
        split at read
        · cases read
        next enough =>
          cases read
          have most := length_takeNames_le (namesPerDimension role * dimension) words
          refine ⟨Nat.not_lt.mp inRange, by omega, ?_, (suffix_takeNames _ words).trans shorter⟩
          intro name member
          obtain ⟨nonempty, word, found, same⟩ := mem_takeNames member
          exact ⟨nonempty, word, shorter.subset found, same⟩

theorem PolyRead.unled {role : Role} {mark : Word} {rest behind : List Word} {dimension : Nat}
    {names : List Text} (poly : PolyRead role mark rest dimension names behind) :
    ledByEquals ((mark :: rest).map Word.text) = false :=
  ledByEquals_cons_of_notMem (isAssignment_eq_false_iff.mp poly.unassigned).1 _

theorem PolyRead.solid_words {role : Role} {mark : Word} {rest behind : List Word}
    {dimension : Nat} {names : List Text} (poly : PolyRead role mark rest dimension names behind)
    (solid : ∀ word ∈ rest, Word.Solid word.text) :
    ∀ word ∈ (Part.controls role dimension names).words, Word.Solid word := by
  obtain ⟨-, -, origin, -⟩ := poly.facts
  refine List.forall_mem_cons.mpr ⟨Renamer.solid_polyMark dimension, ?_⟩
  intro name listed
  obtain ⟨nonempty, word, found, stripped⟩ := origin name listed
  rw [stripped] at nonempty ⊢
  exact (solid word found).of_strip nonempty

/-! ## Nodes and references -/

variable {scopes : Scopes policy} {kind : DeviceKind}

/-- Where the number of nodes is fixed, no node word is taken for a model. -/
theorem slotModel_of_fixed (fixed : kind.minNodes = kind.maxNodes) {count : Nat}
    (below : count < kind.maxNodes) (word : Text) :
    slotModel scopes kind count word = .ok none := by
  unfold slotModel
  rw [if_neg]
  simp only [Bool.and_eq_true, decide_eq_true_eq, not_and]
  omega

/-- Words in node slots are read one by one, as long as none of them is known as a model. -/
theorem nodeRun_append_of_slots {count : Nat} {nodes behind : List Word}
    (run : NameRun nodes behind) (fits : count + nodes.length ≤ kind.maxNodes)
    (slots : ∀ (i : Nat) node, nodes[i]? = some node →
      slotModel scopes kind (count + i) node.text = .ok none) :
    nodeRun scopes kind count (nodes ++ behind) =
      (nodeRun scopes kind (count + nodes.length) behind).map fun later =>
        { later with parts := nodeParts nodes ++ later.parts } := by
  induction nodes generalizing count with
  | nil =>
      rw [List.nil_append, List.length_nil, Nat.add_zero]
      cases nodeRun scopes kind count behind <;> rfl
  | cons first rest ih =>
      obtain ⟨unassigned, unmarked, further⟩ := nameRun_cons_iff.mp run
      rw [List.length_cons] at fits
      have below : count < kind.maxNodes := by omega
      have going : ¬(decide (kind.maxNodes ≤ count) ||
          isAssignment first (rest ++ behind)) = true := by
        simp [unassigned, below]
      have here : slotModel scopes kind count first.text = .ok none := slots 0 first rfl
      have later : ∀ (i : Nat) node, rest[i]? = some node →
          slotModel scopes kind (count + 1 + i) node.text = .ok none := by
        intro i node found
        rw [Nat.add_assoc, Nat.add_comm 1]
        exact slots (i + 1) node found
      rw [List.cons_append, nodeRun, if_neg going, if_neg (by simp [unmarked]), here]
      dsimp only
      rw [ih further (by omega) later, List.length_cons, Nat.add_assoc, Nat.add_comm 1]
      cases nodeRun scopes kind (count + (rest.length + 1)) behind <;> rfl

theorem nodeRun_append (fixed : kind.minNodes = kind.maxNodes) {count : Nat}
    {nodes behind : List Word} (run : NameRun nodes behind)
    (fits : count + nodes.length ≤ kind.maxNodes) :
    nodeRun scopes kind count (nodes ++ behind) =
      (nodeRun scopes kind (count + nodes.length) behind).map fun later =>
        { later with parts := nodeParts nodes ++ later.parts } := by
  apply nodeRun_append_of_slots run fits
  intro i node found
  have inside : i < nodes.length := (List.getElem?_eq_some_iff.mp found).1
  exact slotModel_of_fixed fixed (by omega) node.text

theorem nodeRun_full (words : List Word) :
    nodeRun scopes kind kind.maxNodes words = .ok ⟨[], .open, words⟩ := by
  cases words <;> simp [nodeRun]

theorem nodeRun_poly {count : Nat} (below : count < kind.maxNodes) {mark : Word}
    {rest behind : List Word} {dimension : Nat} {names : List Text}
    (poly : PolyRead .node mark rest dimension names behind) :
    nodeRun scopes kind count (mark :: rest) =
      .ok ⟨[.controls .node dimension names], .poly, behind⟩ := by
  have going : ¬(decide (kind.maxNodes ≤ count) || isAssignment mark rest) = true := by
    simp [poly.unassigned, below]
  rw [nodeRun, if_neg going, if_pos poly.marked, poly.read]

theorem referenceRun_append (count : Nat) {references behind : List Word}
    (run : NameRun references behind) :
    referenceRun (references.length + count) (references ++ behind) =
      (referenceRun count behind).map fun later =>
        (referenceParts references ++ later.1, later.2) := by
  induction references with
  | nil =>
      rw [List.nil_append, List.length_nil, Nat.zero_add]
      cases referenceRun count behind <;> rfl
  | cons first rest ih =>
      obtain ⟨unassigned, unmarked, further⟩ := nameRun_cons_iff.mp run
      rw [List.cons_append, List.length_cons, Nat.succ_add, referenceRun,
        if_neg (by simp [unassigned]), if_neg (by simp [unmarked]), ih further]
      cases referenceRun count behind <;> rfl

theorem referenceRun_poly (count : Nat) {mark : Word} {rest behind : List Word} {dimension : Nat}
    {names : List Text} (poly : PolyRead .device mark rest dimension names behind) :
    referenceRun (count + 1) (mark :: rest) =
      .ok ([.controls .device dimension names], behind) := by
  rw [referenceRun, if_neg (by simp [poly.unassigned]), if_pos poly.marked, poly.read]

/-- How node words are read: names one by one, perhaps up to a polynomial. -/
inductive NodesRead (kind : DeviceKind) (count : Nat) (words : List Word) : Run → Prop where
  | names {nodes behind : List Word} (whole : words = nodes ++ behind)
      (run : NameRun nodes behind) : NodesRead kind count words ⟨nodeParts nodes, .open, behind⟩
  | poly {nodes rest behind : List Word} {mark : Word} {dimension : Nat} {names : List Text}
      (whole : words = nodes ++ mark :: rest) (run : NameRun nodes (mark :: rest))
      (fewer : count + nodes.length < kind.maxNodes)
      (poly : PolyRead .node mark rest dimension names behind) :
      NodesRead kind count words
        ⟨nodeParts nodes ++ [.controls .node dimension names], .poly, behind⟩

theorem NodesRead.cons {count : Nat} {first : Word} {rest : List Word} {run : Run}
    (unassigned : isAssignment first rest = false) (unmarked : isPoly first.text = false)
    (read : NodesRead kind (count + 1) rest run) :
    NodesRead kind count (first :: rest) (run.behind (.node first.text)) := by
  cases read with
  | names whole names =>
      subst whole
      exact .names (List.cons_append ..).symm
        (nameRun_cons_iff.mpr ⟨unassigned, unmarked, names⟩)
  | poly whole names fewer poly =>
      subst whole
      exact .poly (List.cons_append ..).symm
        (nameRun_cons_iff.mpr ⟨unassigned, unmarked, names⟩)
        (by rw [List.length_cons]; omega) poly

theorem nodesRead_of_nodeRun (fixed : kind.minNodes = kind.maxNodes) {count : Nat}
    {words : List Word} {run : Run} (read : nodeRun scopes kind count words = .ok run) :
    NodesRead kind count words run := by
  induction words generalizing count run with
  | nil =>
      cases read
      exact .names (List.append_nil []).symm (nameRun_nil [])
  | cons first rest ih =>
      rw [nodeRun] at read
      split at read
      · cases read
        exact .names (List.nil_append _).symm (nameRun_nil _)
      next going =>
        simp only [Bool.or_eq_true, decide_eq_true_eq, not_or, Nat.not_le,
          Bool.not_eq_true] at going
        obtain ⟨below, unassigned⟩ := going
        split at read
        next marked =>
          split at read
          · cases read
          next part behind split =>
            cases read
            obtain ⟨dimension, names, rfl⟩ := exists_controls_of_splitPoly split
            exact .poly (List.nil_append _).symm (nameRun_nil _) below
              ⟨unassigned, marked, split⟩
        next unmarked =>
          rw [slotModel_of_fixed fixed below] at read
          dsimp only at read
          split at read
          · cases read
          next later readLater =>
            cases read
            exact .cons unassigned (Bool.not_eq_true _ ▸ unmarked) (ih readLater)

/-- How references are read: names one by one, perhaps up to a polynomial. -/
inductive ReferencesRead (count : Nat) (words : List Word) : List Part → List Word → Prop where
  | names {references behind : List Word} (whole : words = references ++ behind)
      (run : NameRun references behind) :
      ReferencesRead count words (referenceParts references) behind
  | poly {references rest behind : List Word} {mark : Word} {dimension : Nat} {names : List Text}
      (whole : words = references ++ mark :: rest) (run : NameRun references (mark :: rest))
      (fewer : references.length < count)
      (poly : PolyRead .device mark rest dimension names behind) :
      ReferencesRead count words
        (referenceParts references ++ [.controls .device dimension names]) behind

theorem ReferencesRead.cons {count : Nat} {first : Word} {rest behind : List Word}
    {parts : List Part} (unassigned : isAssignment first rest = false)
    (unmarked : isPoly first.text = false) (read : ReferencesRead count rest parts behind) :
    ReferencesRead (count + 1) (first :: rest) (.reference first.text :: parts) behind := by
  cases read with
  | names whole names =>
      subst whole
      exact .names (List.cons_append ..).symm
        (nameRun_cons_iff.mpr ⟨unassigned, unmarked, names⟩)
  | poly whole names fewer poly =>
      subst whole
      exact .poly (List.cons_append ..).symm
        (nameRun_cons_iff.mpr ⟨unassigned, unmarked, names⟩)
        (by rw [List.length_cons]; omega) poly

theorem referencesRead_of_referenceRun {count : Nat} {words behind : List Word}
    {parts : List Part} (read : referenceRun count words = .ok (parts, behind)) :
    ReferencesRead count words parts behind := by
  induction count generalizing words parts behind with
  | zero =>
      rw [referenceRun] at read
      cases read
      exact .names (List.nil_append _).symm (nameRun_nil _)
  | succ count ih =>
      cases words with
      | nil =>
          rw [referenceRun] at read
          cases read
          exact .names (List.nil_append _).symm (nameRun_nil _)
      | cons first rest =>
          rw [referenceRun] at read
          split at read
          · cases read
            exact .names (List.nil_append _).symm (nameRun_nil _)
          next going =>
            have unassigned : isAssignment first rest = false := Bool.not_eq_true _ ▸ going
            split at read
            next marked =>
              split at read
              · cases read
              next part words split =>
                cases read
                obtain ⟨dimension, names, rfl⟩ := exists_controls_of_splitPoly split
                exact .poly (List.nil_append _).symm (nameRun_nil _) (Nat.succ_pos count)
                  ⟨unassigned, marked, split⟩
            next unmarked =>
              split at read
              · cases read
              next later words readLater =>
                cases read
                exact .cons unassigned (Bool.not_eq_true _ ▸ unmarked) (ih readLater)

/-! ## The line in full -/

/-- The words of a line, its leading parts and the words behind them. -/
inductive Leads (kind : DeviceKind) : List Word → List Part → List Word → Prop where
  | names {nodes references behind : List Word} (nodeRun : NameRun nodes (references ++ behind))
      (full : nodes.length = kind.maxNodes) (referenceRun : NameRun references behind)
      (all : references.length = kind.references) :
      Leads kind (nodes ++ (references ++ behind)) (nodeParts nodes ++ referenceParts references)
        behind
  | nodePoly {nodes rest behind : List Word} {mark : Word} {dimension : Nat} {names : List Text}
      (nodeRun : NameRun nodes (mark :: rest)) (fewer : nodes.length < kind.maxNodes)
      (poly : PolyRead .node mark rest dimension names behind) :
      Leads kind (nodes ++ mark :: rest) (nodeParts nodes ++ [.controls .node dimension names])
        behind
  | devicePoly {nodes references rest behind : List Word} {mark : Word} {dimension : Nat}
      {names : List Text} (nodeRun : NameRun nodes (references ++ mark :: rest))
      (full : nodes.length = kind.maxNodes) (referenceRun : NameRun references (mark :: rest))
      (fewer : references.length < kind.references)
      (poly : PolyRead .device mark rest dimension names behind) :
      Leads kind (nodes ++ (references ++ mark :: rest))
        (nodeParts nodes ++ (referenceParts references ++ [.controls .device dimension names]))
        behind

/-- The words behind the leading parts alone decide what else is read. -/
theorem layout_of_leads (fixed : kind.minNodes = kind.maxNodes) {words behind : List Word}
    {parts : List Part} (leads : Leads kind words parts behind) (strict : Bool) (name : Text) :
    layout strict scopes (some kind) name words =
      (modelLayout strict scopes kind name behind).map (Layout.after parts) := by
  unfold layout
  dsimp only
  cases leads with
  | names nodeRun full referenceRun all =>
      have reached := (Nat.zero_add _).trans full
      have whole := referenceRun_append 0 referenceRun
      rw [nodeRun_append fixed nodeRun (Nat.le_of_eq reached), reached, nodeRun_full]
      simp only [Except.map, behindNodes, ← all]
      rw [Nat.add_zero] at whole
      rw [whole, DeviceLine.referenceRun]
      simp only [Except.map]
      cases modelLayout strict scopes kind name behind with
      | error fault => rfl
      | ok tail => simp [Layout.after]
  | nodePoly nodeRun fewer poly =>
      have below := Nat.lt_of_le_of_lt (Nat.le_of_eq (Nat.zero_add _)) fewer
      rw [nodeRun_append fixed nodeRun (Nat.le_of_lt below), nodeRun_poly below poly]
      simp only [Except.map, behindNodes]
      cases modelLayout strict scopes kind name behind with
      | error fault => rfl
      | ok tail => simp [Layout.after]
  | devicePoly nodeRun full referenceRun fewer poly =>
      have reached := (Nat.zero_add _).trans full
      obtain ⟨count, enough⟩ := Nat.exists_eq_add_of_lt fewer
      rw [nodeRun_append fixed nodeRun (Nat.le_of_eq reached), reached, nodeRun_full]
      simp only [Except.map, behindNodes, enough]
      rw [Nat.add_assoc, referenceRun_append (count + 1) referenceRun,
        referenceRun_poly count poly]
      simp only [Except.map]
      cases modelLayout strict scopes kind name behind with
      | error fault => rfl
      | ok tail => simp [Layout.after]

/-- What is read behind the leading parts: a model, or nothing. -/
inductive ModelRead (scopes : Scopes policy) : List Word → Layout → Prop where
  | nothing (behind : List Word) : ModelRead scopes behind ⟨[], behind⟩
  | model {first : Word} {rest : List Word} {image : Text}
      (unassigned : isAssignment first rest = false)
      (named : image = first.text ∨ scopes.model first.text = .ok (some image) ∨
        scopes.localModel first.text = .ok (some image)) :
      ModelRead scopes (first :: rest) ⟨[.model image], rest⟩

theorem modelRead_of_modelLayout {strict : Bool} {name : Text} {behind : List Word}
    {tail : Layout} (laid : modelLayout strict scopes kind name behind = .ok tail) :
    ModelRead scopes behind tail := by
  unfold modelLayout at laid
  split at laid
  · split at laid
    · cases laid
    next part rest read =>
      cases laid
      cases behind with
      | nil => cases read
      | cons first later =>
          rw [modelPart] at read
          split at read
          · cases read
          next going =>
            have unassigned : isAssignment first later = false := Bool.not_eq_true _ ▸ going
            split at read
            · cases read
            next image known =>
              cases read
              exact .model unassigned (.inr (.inl known))
            · split at read
              · cases read
              · cases read
                exact .model unassigned (.inl rfl)
  · unfold valueLayout at laid
    split at laid
    · cases laid
    next parts rest read =>
      cases laid
      cases behind with
      | nil =>
          rw [valueModel] at read
          cases read
          exact .nothing []
      | cons first later =>
          rw [valueModel] at read
          split at read
          · cases read
            exact .nothing _
          next going =>
            have unassigned : isAssignment first later = false := Bool.not_eq_true _ ▸ going
            split at read
            · split at read
              · cases read
              next image known =>
                cases read
                exact .model unassigned (.inr (.inr known))
              · cases read
                exact .nothing _
            · cases read
              exact .nothing _

/-- A part that is read behind the nodes. -/
def BehindNodes (part : Part) : Prop :=
  part.isNode = false ∧ part.isControls .node = false

theorem ReferencesRead.behindNodes {count : Nat} {words behind : List Word} {parts : List Part}
    (read : ReferencesRead count words parts behind) : ∀ part ∈ parts, BehindNodes part := by
  have references (names : List Word) : ∀ part ∈ referenceParts names, BehindNodes part := by
    intro part member
    obtain ⟨name, -, rfl⟩ := List.mem_map.mp member
    exact ⟨rfl, rfl⟩
  cases read with
  | names whole run => exact references _
  | poly whole run fewer poly =>
      intro part member
      rcases List.mem_append.mp member with among | last
      · exact references _ part among
      · rw [List.mem_singleton.mp last]
        exact ⟨rfl, rfl⟩

theorem ModelRead.eq_model {behind : List Word} {tail : Layout}
    (read : ModelRead scopes behind tail) {part : Part} (member : part ∈ tail.parts) : ∃ image, part = .model image := by
  cases read with
  | nothing => cases member
  | model unassigned named => exact ⟨_, List.mem_singleton.mp member⟩

theorem nodes_of_complete {nodes : List Word} {parts : List Part}
    (behind : ∀ part ∈ parts, BehindNodes part)
    (complete : Part.Complete kind (nodeParts nodes ++ parts)) :
    nodes.length = kind.maxNodes ∧
      (parts.countP Part.isReference = kind.references ∨
        parts.any (Part.isControls .device) = true) := by
  have noNode : parts.countP Part.isNode = 0 :=
    List.countP_eq_zero.mpr fun part member => by simp [(behind part member).1]
  have noPoly : parts.any (Part.isControls .node) = false :=
    List.any_eq_false.mpr fun part member => by simp [(behind part member).2]
  have own : (nodeParts nodes).countP Part.isNode = nodes.length := by
    rw [nodeParts, List.countP_map]
    exact List.countP_eq_length.mpr fun _ _ => rfl
  have notControls (role : Role) : (nodeParts nodes).any (Part.isControls role) = false := by
    rw [nodeParts, List.any_map]
    exact List.any_eq_false.mpr fun _ _ => Bool.false_ne_true
  have notReference : (nodeParts nodes).countP Part.isReference = 0 := by
    rw [nodeParts, List.countP_map]
    exact List.countP_eq_zero.mpr fun _ _ => Bool.false_ne_true
  simpa [Part.Complete, List.any_append, List.countP_append, noNode, noPoly, own, notControls,
    notReference] using complete

theorem references_of_complete {references behind : List Word} {tail : Layout}
    (model : ModelRead scopes behind tail)
    (complete :
      (referenceParts references ++ tail.parts).countP Part.isReference = kind.references ∨
        (referenceParts references ++ tail.parts).any (Part.isControls .device) = true) :
    references.length = kind.references := by
  have own : (referenceParts references).countP Part.isReference = references.length := by
    rw [referenceParts, List.countP_map]
    exact List.countP_eq_length.mpr fun _ _ => rfl
  have notControls : (referenceParts references).any (Part.isControls .device) = false := by
    rw [referenceParts, List.any_map]
    exact List.any_eq_false.mpr fun _ _ => Bool.false_ne_true
  have modelCount : tail.parts.countP Part.isReference = 0 := by
    apply List.countP_eq_zero.mpr
    intro part member
    obtain ⟨image, rfl⟩ := model.eq_model member
    exact Bool.false_ne_true
  have modelControls : tail.parts.any (Part.isControls .device) = false := by
    apply List.any_eq_false.mpr
    intro part member
    obtain ⟨image, rfl⟩ := model.eq_model member
    exact Bool.false_ne_true
  simpa [List.any_append, List.countP_append, own, notControls, modelCount, modelControls]
    using complete

/-- Every line that is read in full has leading parts, and a model at most behind them. -/
theorem leads_of_layout (fixed : kind.minNodes = kind.maxNodes) {strict : Bool} {name : Text}
    {words : List Word} {laid : Layout}
    (read : layout strict scopes (some kind) name words = .ok laid)
    (complete : Part.Complete kind laid.parts) :
    ∃ parts behind tail, Leads kind words parts behind ∧ ModelRead scopes behind tail ∧
      laid = tail.after parts := by
  unfold layout at read
  dsimp only at read
  split at read
  · cases read
  next run ran =>
    split at read
    · cases read
    next later laidOut =>
      cases read
      cases nodesRead_of_nodeRun fixed ran with
      | @poly nodes rest behind mark dimension names whole nodeRun fewer poly =>
          subst whole
          rw [Nat.zero_add] at fewer
          exact ⟨_, behind, later, .nodePoly nodeRun fewer poly,
            modelRead_of_modelLayout laidOut, rfl⟩
      | @names nodes behind whole nodeRun =>
          subst whole
          unfold behindNodes at laidOut
          dsimp only at laidOut
          split at laidOut
          · cases laidOut
          next parts words referenceRun =>
            split at laidOut
            · cases laidOut
            next tail modelLaid =>
              cases laidOut
              have model := modelRead_of_modelLayout modelLaid
              have read := referencesRead_of_referenceRun referenceRun
              have behindNodes : ∀ part ∈ parts ++ tail.parts, BehindNodes part := by
                intro part member
                rcases List.mem_append.mp member with among | last
                · exact read.behindNodes part among
                · obtain ⟨image, rfl⟩ := model.eq_model last
                  exact ⟨rfl, rfl⟩
              obtain ⟨full, rest⟩ := nodes_of_complete behindNodes complete
              cases read with
              | names whole references =>
                  subst whole
                  have all := references_of_complete model rest
                  refine ⟨_, _, tail, .names nodeRun full references all, model, ?_⟩
                  simp [Layout.after]
              | poly whole references fewer poly =>
                  subst whole
                  refine ⟨_, _, tail, .devicePoly nodeRun full references fewer poly, model, ?_⟩
                  simp [Layout.after]

/-! ## Facts about the parts -/

theorem Leads.suffix {kind : DeviceKind} {words behind : List Word} {parts : List Part}
    (leads : Leads kind words parts behind) : behind <:+ words := by
  cases leads with
  | names => exact (List.suffix_append _ _).trans (List.suffix_append _ _)
  | nodePoly nodeRun fewer poly =>
      obtain ⟨-, -, -, shorter⟩ := poly.facts
      exact (shorter.trans (List.suffix_cons _ _)).trans (List.suffix_append _ _)
  | devicePoly nodeRun full referenceRun fewer poly =>
      obtain ⟨-, -, -, shorter⟩ := poly.facts
      exact ((shorter.trans (List.suffix_cons _ _)).trans (List.suffix_append _ _)).trans
        (List.suffix_append _ _)

theorem isLeading_nodeParts (nodes : List Word) :
    ∀ part ∈ nodeParts nodes, part.isLeading = true := by
  intro part member
  obtain ⟨node, -, rfl⟩ := List.mem_map.mp member
  rfl

theorem isLeading_referenceParts (references : List Word) :
    ∀ part ∈ referenceParts references, part.isLeading = true := by
  intro part member
  obtain ⟨reference, -, rfl⟩ := List.mem_map.mp member
  rfl

theorem Leads.isLeading {kind : DeviceKind} {words behind : List Word} {parts : List Part}
    (leads : Leads kind words parts behind) : ∀ part ∈ parts, part.isLeading = true := by
  have poly (role : Role) (dimension : Nat) (names : List Text) :
      ∀ part ∈ [Part.controls role dimension names], part.isLeading = true := by
    intro part member
    rw [List.mem_singleton.mp member]
    rfl
  cases leads with
  | names =>
      exact List.forall_mem_append.mpr ⟨isLeading_nodeParts _, isLeading_referenceParts _⟩
  | nodePoly => exact List.forall_mem_append.mpr ⟨isLeading_nodeParts _, poly _ _ _⟩
  | devicePoly =>
      exact List.forall_mem_append.mpr ⟨isLeading_nodeParts _,
        List.forall_mem_append.mpr ⟨isLeading_referenceParts _, poly _ _ _⟩⟩

theorem filter_isLeading {kind : DeviceKind} {words behind : List Word} {parts : List Part}
    (leads : Leads kind words parts behind) {tail : Layout}
    (model : ModelRead scopes behind tail) :
    (tail.after parts).parts.filter Part.isLeading = parts := by
  have none : tail.parts.filter Part.isLeading = [] := by cases model <;> rfl
  rw [Layout.after, List.filter_append, none, List.append_nil]
  exact List.filter_eq_self.mpr leads.isLeading

theorem Leads.solid_words {kind : DeviceKind} {words behind : List Word} {parts : List Part}
    (leads : Leads kind words parts behind) (solid : ∀ word ∈ words, Word.Solid word.text) :
    ∀ part ∈ parts, ∀ word ∈ part.words, Word.Solid word := by
  have names {part : Word → Part} (own : ∀ word : Word, (part word).words = [word.text])
      {names : List Word} (solid : ∀ name ∈ names, Word.Solid name.text) :
      ∀ image ∈ names.map part, ∀ word ∈ image.words, Word.Solid word := by
    intro image member word inside
    obtain ⟨name, found, rfl⟩ := List.mem_map.mp member
    rw [own, List.mem_singleton] at inside
    rw [inside]
    exact solid name found
  cases leads with
  | names =>
      simp only [List.forall_mem_append] at solid
      exact List.forall_mem_append.mpr
        ⟨names (fun _ => rfl) solid.1, names (fun _ => rfl) solid.2.1⟩
  | nodePoly nodeRun fewer poly =>
      simp only [List.forall_mem_append, List.forall_mem_cons] at solid
      refine List.forall_mem_append.mpr ⟨names (fun _ => rfl) solid.1, ?_⟩
      exact List.forall_mem_cons.mpr ⟨poly.solid_words solid.2.2, List.forall_mem_nil _⟩
  | devicePoly nodeRun full referenceRun fewer poly =>
      simp only [List.forall_mem_append, List.forall_mem_cons] at solid
      refine List.forall_mem_append.mpr ⟨names (fun _ => rfl) solid.1,
        List.forall_mem_append.mpr ⟨names (fun _ => rfl) solid.2.1, ?_⟩⟩
      exact List.forall_mem_cons.mpr ⟨poly.solid_words solid.2.2.2, List.forall_mem_nil _⟩

/-- What stands in front of a model starts with no equals sign. -/
theorem ModelRead.unled {behind : List Word} {tail : Layout}
    (read : ModelRead scopes behind tail)
    (unled : ledByEquals (tail.rest.map Word.text) = false) :
    ledByEquals (behind.map Word.text) = false := by
  cases read with
  | nothing => exact unled
  | model unassigned known =>
      exact ledByEquals_cons_of_notMem (isAssignment_eq_false_iff.mp unassigned).1 _

end DeviceLine

end Netlist

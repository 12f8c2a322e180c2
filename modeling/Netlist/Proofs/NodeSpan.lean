import Netlist.Proofs.BytePositions

/-!
# Nodes inside and outside of a body

Which words of a device line are nodes is found out twice.  At the top level
they are the words in front of a byte position, and substitution leaves them
alone.  In a body the words are taken one by one, and a word that stands in the
slot of an optional node is asked whether it is a model.  The two agree up to
such a model: without one the nodes are the same words, with one the nodes of a
body end in front of it.
-/

namespace Netlist

namespace DeviceLine

variable {policy : CasePolicy} {scopes : Scopes policy} {kind : DeviceKind}

/-! ## The words in front of a position -/

/-- The words, at most `count`, in front of an assignment and of a polynomial. -/
def nodeWords : (count : Nat) → List Word → List Word
  | 0, _ => []
  | _ + 1, [] => []
  | count + 1, first :: rest =>
      if isAssignment first rest || isPoly first.text then [] else first :: nodeWords count rest

/-- The words behind the name of a device that lie in front of where its nodes end. -/
def spanned (catalog : Catalog) (text : Text) : List Word :=
  (Word.split text).tail.filter fun word => word.stop ≤ nodeSpan catalog text

theorem nodeWords_nil (count : Nat) : nodeWords count [] = [] := by
  cases count <;> rfl

/-- The words up to the stop of the last node word are the node words. -/
theorem filter_nodeStop (count : Nat) {first : Word} {words : List Word}
    (ordered : (first :: words).Pairwise fun one other => one.stop < other.stop) :
    (words.filter fun word => word.stop ≤ nodeStop first.stop count words) =
      nodeWords count words := by
  induction words generalizing first count with
  | nil => rw [nodeWords_nil, List.filter_nil]
  | cons second rest ih =>
      obtain ⟨behind, further⟩ := List.pairwise_cons.mp ordered
      have nothing : ((second :: rest).filter fun word => word.stop ≤ first.stop) = [] := by
        apply List.filter_eq_nil_iff.mpr
        intro word member
        have := behind word member
        simp only [decide_eq_true_eq]
        omega
      cases count with
      | zero => exact nothing
      | succ count =>
          rw [nodeStop, nodeWords]
          split
          · exact nothing
          · have kept : second.stop ≤ nodeStop second.stop count rest := by
              rcases nodeStop_cases second.stop count rest with here | ⟨word, member, there⟩
              · exact Nat.le_of_eq here.symm
              · rw [there]
                exact Nat.le_of_lt ((List.pairwise_cons.mp further).1 word member)
            rw [List.filter_cons_of_pos (by simpa using kept), ih count further]

theorem pairwise_stop (text : Text) :
    (Word.split text).Pairwise fun one other => one.stop < other.stop := by
  refine (Word.pairwise_splitFrom 0 text).imp ?_
  intro one other before
  unfold Word.stop at before ⊢
  omega

section Split

variable {catalog : Catalog} {text : Text} {name : Word} {words : List Word}
  (split : Word.split text = name :: words)

include split

theorem spanned_of_unknown (unknown : kind? catalog name.text = none) :
    spanned catalog text = [] := by
  have span : nodeSpan catalog text = nodeStop name.stop 0 words := by
    rw [nodeSpan, split]
    dsimp only
    rw [unknown, nodeStop]
  rw [spanned, span, split, List.tail_cons, filter_nodeStop 0 (split ▸ pairwise_stop text),
    nodeWords]

theorem spanned_of_kind (known : kind? catalog name.text = some kind) :
    spanned catalog text = nodeWords kind.passedNodes words := by
  have span : nodeSpan catalog text = nodeStop name.stop kind.passedNodes words := by
    rw [nodeSpan, split]
    dsimp only
    rw [known]
  rw [spanned, span, split, List.tail_cons, filter_nodeStop _ (split ▸ pairwise_stop text)]

end Split

/-! ## The words taken one by one -/

/-- A word in the slot of an optional node is known as a model, where `count` nodes are in front of
the words. -/
def ModelAmong (scopes : Scopes policy) (kind : DeviceKind) (count : Nat) (words : List Word) :
    Prop :=
  ∃ (i : Nat) (word : Word) (image : Text), words[i]? = some word ∧ kind.minNodes ≤ count + i ∧
    scopes.model word.text = .ok (some image)

theorem not_modelAmong_nil (count : Nat) : ¬ModelAmong scopes kind count [] := by
  rintro ⟨i, word, image, found, -⟩
  cases found

theorem modelAmong_cons_iff {count : Nat} {first : Word} {rest : List Word} :
    ModelAmong scopes kind count (first :: rest) ↔
      (kind.minNodes ≤ count ∧ ∃ image, scopes.model first.text = .ok (some image)) ∨
        ModelAmong scopes kind (count + 1) rest := by
  constructor
  · rintro ⟨i, word, image, found, late, known⟩
    cases i with
    | zero =>
        cases found
        exact .inl ⟨late, image, known⟩
    | succ i => exact .inr ⟨i, word, image, found, by omega, known⟩
  · rintro (⟨late, image, known⟩ | ⟨i, word, image, found, late, known⟩)
    · exact ⟨0, first, image, rfl, late, known⟩
    · exact ⟨i + 1, word, image, found, by omega, known⟩

/-- The node parts of a line are these words, of those that can be nodes, and they are all of them
unless one is a model. -/
structure TakenFrom (scopes : Scopes policy) (kind : DeviceKind) (count : Nat)
    (words : List Word) (parts : List Part) (nodes : List Word) : Prop where
  parts_eq : ∃ later, parts = nodeParts nodes ++ later ∧ ∀ part ∈ later, part.isNode = false
  front : nodes <+: words
  whole : nodes = words ↔ ¬(kind.hasModel = true ∧ ModelAmong scopes kind count words)

/-- No words can be nodes, so none are. -/
theorem TakenFrom.none (count : Nat) {parts : List Part}
    (others : ∀ part ∈ parts, part.isNode = false) :
    TakenFrom scopes kind count [] parts [] :=
  ⟨⟨parts, rfl, others⟩, List.prefix_refl [], by simp [not_modelAmong_nil]⟩

theorem slotModel_cases {count : Nat} {word : Text} {found : Option Text}
    (asked : slotModel scopes kind count word = .ok found) :
    (kind.hasModel = true ∧ kind.minNodes ≤ count ∧ scopes.model word = .ok found) ∨
      (¬(kind.hasModel = true ∧ kind.minNodes ≤ count) ∧ found = .none) := by
  unfold slotModel at asked
  split at asked
  next optional =>
    rw [Bool.and_eq_true, decide_eq_true_eq] at optional
    exact .inl ⟨optional.1, optional.2, asked⟩
  next fixed =>
    rw [Bool.and_eq_true, decide_eq_true_eq] at fixed
    cases asked
    exact .inr ⟨fixed, rfl⟩

/-- A word that is no model is a node in front of the nodes behind it. -/
theorem TakenFrom.cons {count : Nat} {first : Word} {words nodes : List Word} {parts : List Part}
    (asked : slotModel scopes kind count first.text = .ok .none)
    (taken : TakenFrom scopes kind (count + 1) words parts nodes) :
    TakenFrom scopes kind count (first :: words) (.node first.text :: parts) (first :: nodes) := by
  obtain ⟨later, same, others⟩ := taken.parts_eq
  refine ⟨⟨later, congrArg _ same, others⟩, (List.prefix_cons_inj first).mpr taken.front, ?_⟩
  rw [List.cons.injEq, taken.whole, modelAmong_cons_iff]
  rcases slotModel_cases asked with ⟨hasModel, late, unknown⟩ | ⟨fixed, -⟩
  · simp [unknown]
  · grind

/-- Words are taken for nodes as far as they can be nodes, up to a model. -/
theorem takenFrom_nodeRun {count : Nat} {words : List Word} {run : Run}
    (read : nodeRun scopes kind count words = .ok run) :
    ∃ nodes, TakenFrom scopes kind count (nodeWords (kind.maxNodes - count) words) run.parts
      nodes := by
  induction words generalizing count run with
  | nil =>
      cases read
      rw [nodeWords_nil]
      exact ⟨[], .none count (List.forall_mem_nil _)⟩
  | cons first rest ih =>
      rw [nodeRun] at read
      split at read
      next ended =>
        cases read
        have nothing : nodeWords (kind.maxNodes - count) (first :: rest) = [] := by
          rcases Bool.or_eq_true_iff.mp ended with full | assigned
          · rw [Nat.sub_eq_zero_of_le (of_decide_eq_true full), nodeWords]
          · cases kind.maxNodes - count <;> simp [nodeWords, assigned]
        rw [nothing]
        exact ⟨[], .none count (List.forall_mem_nil _)⟩
      next going =>
        rw [Bool.or_eq_true, decide_eq_true_eq, not_or, Nat.not_le] at going
        obtain ⟨below, unassigned⟩ := going
        obtain ⟨room, slots⟩ : ∃ room, kind.maxNodes - count = room + 1 :=
          Nat.exists_eq_succ_of_ne_zero (by omega)
        have later : kind.maxNodes - (count + 1) = room := by omega
        rw [slots, nodeWords]
        split at read
        next marked =>
          split at read
          · cases read
          next part words split =>
            cases read
            obtain ⟨dimension, names, rfl⟩ := exists_controls_of_splitPoly split
            rw [if_pos (by simp [marked])]
            exact ⟨[], .none count (by simp [Part.isNode])⟩
        next unmarked =>
          rw [if_neg (by simp [unassigned, unmarked])]
          split at read
          · cases read
          next image asked =>
            cases read
            rcases slotModel_cases asked with ⟨hasModel, late, known⟩ | ⟨-, impossible⟩
            · refine ⟨[], ⟨_, rfl, by simp [Part.isNode]⟩, List.nil_prefix, ?_⟩
              rw [modelAmong_cons_iff]
              simp [hasModel, late, known]
            · cases impossible
          next asked =>
            split at read
            · cases read
            next run readLater =>
              cases read
              obtain ⟨nodes, taken⟩ := ih readLater
              rw [later] at taken
              exact ⟨first :: nodes, taken.cons asked⟩

/-! ## The line in full -/

theorem ModelRead.isNode {behind : List Word} {tail : Layout}
    (read : ModelRead scopes behind tail) : ∀ part ∈ tail.parts, part.isNode = false := by
  intro part member
  obtain ⟨image, rfl⟩ := read.eq_model member
  rfl

theorem isNode_behindNodes {strict : Bool} {name : Text} {run : Run} {laid : Layout}
    (read : behindNodes strict scopes kind name run = .ok laid) :
    ∀ part ∈ laid.parts, part.isNode = false := by
  unfold behindNodes at read
  split at read
  · cases read
    exact List.forall_mem_nil _
  · exact (modelRead_of_modelLayout read).isNode
  · split at read
    · cases read
    next parts words references =>
      split at read
      · cases read
      next tail modelLaid =>
        cases read
        refine List.forall_mem_append.mpr ⟨?_, (modelRead_of_modelLayout modelLaid).isNode⟩
        intro part member
        exact ((referencesRead_of_referenceRun references).behindNodes part member).1

/-- A device of a known kind has the nodes that were read first. -/
theorem takenFrom_layout {strict : Bool} {name : Text} {words : List Word} {laid : Layout}
    (read : layout strict scopes (some kind) name words = .ok laid) :
    ∃ nodes, TakenFrom scopes kind 0 (nodeWords kind.maxNodes words) laid.parts nodes := by
  rw [layout] at read
  split at read
  · cases read
  next run ran =>
    split at read
    · cases read
    next later laidOut =>
      cases read
      obtain ⟨nodes, taken⟩ := takenFrom_nodeRun ran
      obtain ⟨others, same, plain⟩ := taken.parts_eq
      refine ⟨nodes, ⟨others ++ later.parts, ?_, ?_⟩, taken.front, taken.whole⟩
      · show run.parts ++ later.parts = _
        rw [same, List.append_assoc]
      · exact List.forall_mem_append.mpr ⟨plain, isNode_behindNodes laidOut⟩

/-- A device of an unknown kind has no nodes. -/
theorem isNode_layout_none {strict : Bool} {name : Text} {words : List Word} {laid : Layout}
    (read : layout strict scopes none name words = .ok laid) :
    ∀ part ∈ laid.parts, part.isNode = false := by
  have value : modelLayout strict scopes Catalog.twoTerminal name words = .ok laid := read
  exact (modelRead_of_modelLayout value).isNode

/-- The kind of device that a line is about. -/
def lineKind? (catalog : Catalog) (text : Text) : Option DeviceKind :=
  (Word.split text).head?.bind fun name => kind? catalog name.text

theorem lineKind?_of_split (catalog : Catalog) {text : Text} {name : Word} {words : List Word}
    (split : Word.split text = name :: words) :
    lineKind? catalog text = kind? catalog name.text := by
  rw [lineKind?, split]
  rfl

/-- The name of the line's device and its nodes can be counted in 64 bits. -/
def Countable (catalog : Catalog) (text : Text) : Prop :=
  ∀ kind, lineKind? catalog text = some kind → kind.maxNodes + 1 < Nat.pow 2 64

theorem countable_of_lineKind {catalog : Catalog} {text : Text}
    (known : lineKind? catalog text = some kind) (below : kind.maxNodes + 1 < Nat.pow 2 64) :
    Countable catalog text := by
  intro other found
  rw [known] at found
  cases found
  exact below

/-- The device has a model, and a word in the slot of one of its optional nodes is known as a
model. -/
def ModelInSlot (scopes : Scopes policy) (catalog : Catalog) (text : Text) : Prop :=
  ∃ kind, lineKind? catalog text = some kind ∧ kind.hasModel = true ∧
    ModelAmong scopes kind 0 (spanned catalog text)

end DeviceLine

/-! ## What stays at the top level -/

theorem Text.prefix_of_byteSize_le {front other text : Text} (first : front <+: text)
    (second : other <+: text) (shorter : byteSize front ≤ byteSize other) : front <+: other := by
  rcases List.prefix_or_prefix_of_prefix first second with shown | ⟨more, rfl⟩
  · exact shown
  · cases more with
    | nil => simp
    | cons c more =>
        have wide := c.utf8Size_pos
        rw [byteSize_append, byteSize_cons] at shorter
        omega

/-- A word in front of a cut is there whatever follows the cut. -/
theorem Word.slice?_of_stop_le {text head tail : Text} {word : Word} {place : Nat}
    (member : word ∈ split text) (cut : Text.cut? place text = some (head, tail))
    (within : word.stop ≤ place) (behind : Text) :
    Text.slice? word.start word.stop (head ++ behind) = some word.text := by
  obtain ⟨front, back, run⟩ := exists_cut member
  obtain ⟨whole, size⟩ := Text.eq_of_cut? cut
  have start := run.start_eq
  have stop := run.stop_eq
  rw [Nat.zero_add] at start stop
  have shown : front ++ word.text <+: text := ⟨back, by rw [run.whole, List.append_assoc]⟩
  obtain ⟨more, rfl⟩ := Text.prefix_of_byteSize_le shown ⟨tail, whole.symm⟩ (by omega)
  rw [start, stop, List.append_assoc, List.append_assoc, Text.slice?_append]

/-- At the top level, a device line keeps its text up to where its nodes end. -/
theorem Expansion.exists_behind_nodeSpan (config : Config) (catalog : Catalog)
    (off : config.substituteNodes = false) {text : Text}
    (device : Renamer.startsDevice (Text.firstWord text) = true)
    (other : config.directives.isModel (Text.firstWord text) = false) (params : ParamTable) :
    ∃ behind, substituteTop config catalog params text =
      Text.takeBytes (DeviceLine.nodeSpan catalog text) text ++ behind := by
  unfold substituteTop
  dsimp only
  rw [off, device, other]
  split
  · exact ⟨_, (Text.takeBytes_append_dropBytes _ text).symm⟩
  · exact ⟨_, rfl⟩

namespace Renamer

open DeviceLine

variable {config : Config} (renamer : Renamer config) {scopes : Scopes config.casePolicy}
  {text line : Text}

/-- How a line is renamed with certain words as its nodes: they follow the device one by one, and
no other part is a node. -/
inductive RenamesNodes (scopes : Scopes config.casePolicy) (text : Text) :
    (line : Text) → (nodes : List Word) → Prop where
  | blank (empty : Word.split text = []) : RenamesNodes scopes text text []
  | device {name : Word} {words nodes : List Word} {laid : Layout} {later : List Part}
      (split : Word.split text = name :: words)
      (read : layout config.strictModels scopes (kind? renamer.catalog name.text) name.text words =
        .ok laid)
      (parts : laid.parts = nodeParts nodes ++ later)
      (others : ∀ part ∈ later, part.isNode = false) :
      RenamesNodes scopes text
        (assemble (renamer.device name.text ::
            (nodes.map (fun node => renamer.node node.text) ++ later.flatMap renamer.part))
          (renamer.tail text laid.rest)) nodes

theorem renamesNodes_of_layout {name : Word} {words : List Word} {laid : Layout}
    {later : List Part} (nodes : List Word) (split : Word.split text = name :: words)
    (read : layout config.strictModels scopes (kind? renamer.catalog name.text) name.text words =
      .ok laid)
    (parts : laid.parts = nodeParts nodes ++ later) (others : ∀ part ∈ later, part.isNode = false) :
    renamer.RenamesNodes scopes text
      (assemble ((.device name.text :: laid.parts).flatMap renamer.part)
        (renamer.tail text laid.rest)) nodes := by
  rw [List.flatMap_cons, parts, flatMap_part_nodeParts]
  exact .device split read parts others

/-- A renamed line has its nodes among the words that the top level leaves alone, and it has all of
these unless one of them is a model. -/
theorem exists_renamesNodes (made : renamer.deviceLine scopes text = .ok line)
    (countable : Countable renamer.catalog text) :
    ∃ nodes, renamer.RenamesNodes scopes text line nodes ∧
      nodes <+: spanned renamer.catalog text ∧
      (nodes = spanned renamer.catalog text ↔ ¬ModelInSlot scopes renamer.catalog text) := by
  cases split : Word.split text with
  | nil =>
      have same : line = text := by
        rw [deviceLine, split] at made
        exact (Except.ok.inj made).symm
      have nothing : spanned renamer.catalog text = [] := by rw [spanned, split]; rfl
      rw [same, nothing]
      refine ⟨[], .blank split, List.prefix_refl [], iff_of_true rfl ?_⟩
      rintro ⟨kind, known, -⟩
      rw [lineKind?, split] at known
      cases known
  | cons name words =>
      obtain ⟨laid, read, rfl⟩ := exists_layout_of_deviceLine split made
      have lineKind := lineKind?_of_split renamer.catalog split
      cases known : kind? renamer.catalog name.text with
      | none =>
          have renames := renamer.renamesNodes_of_layout [] split read (List.nil_append _).symm
            (isNode_layout_none (known ▸ read))
          rw [spanned_of_unknown split known]
          refine ⟨[], renames, List.prefix_refl [], iff_of_true rfl ?_⟩
          rintro ⟨kind, found, -⟩
          rw [lineKind, known] at found
          cases found
      | some kind =>
          obtain ⟨nodes, taken⟩ := takenFrom_layout (known ▸ read)
          obtain ⟨later, same, others⟩ := taken.parts_eq
          have renames := renamer.renamesNodes_of_layout nodes split read same others
          have slots := spanned_of_kind split known
          rw [DeviceKind.passedNodes_eq (countable kind (lineKind.trans known))] at slots
          refine ⟨nodes, renames, slots ▸ taken.front, ?_⟩
          rw [slots, taken.whole, ModelInSlot, lineKind, known, slots]
          simp

/-- A device line that can be renamed has as its nodes an initial part of the words behind its name
that lie in front of where its nodes end, if they can be counted, and all of them just in case the
device has no model or no word in the slot of an optional node is known as one.  So where nodes are
not substituted, a device line at the top level that does not declare a model has the same nodes at
the same places as before, whatever the parameters are. -/
theorem nodes_within_span (made : renamer.deviceLine scopes text = .ok line)
    (countable : Countable renamer.catalog text) :
    ∃ nodes, renamer.RenamesNodes scopes text line nodes ∧
      nodes <+: spanned renamer.catalog text ∧
      (nodes = spanned renamer.catalog text ↔ ¬ModelInSlot scopes renamer.catalog text) ∧
      (config.substituteNodes = false → startsDevice (Text.firstWord text) = true →
        config.directives.isModel (Text.firstWord text) = false →
        ∀ (params : ParamTable), ∀ word ∈ nodes, Text.slice? word.start word.stop
          (Expansion.substituteTop config renamer.catalog params text) = some word.text) := by
  obtain ⟨nodes, renames, front, whole⟩ := renamer.exists_renamesNodes made countable
  refine ⟨nodes, renames, front, whole, ?_⟩
  intro off device other params word member
  obtain ⟨listed, within⟩ := List.mem_filter.mp (front.subset member)
  obtain ⟨behind, kept⟩ :=
    Expansion.exists_behind_nodeSpan config renamer.catalog off device other params
  rw [kept]
  exact Word.slice?_of_stop_le (List.mem_of_mem_tail listed)
    (cut?_nodeSpan renamer.catalog text) (of_decide_eq_true within) behind

/-- A transistor whose model stands in the slot of its optional node: not all of the words in front
of where the nodes end are nodes, and the node that is named like a parameter stays at the top
level. -/
theorem nodes_within_span_transistor :
    let renamer : Renamer ({} : Config) := ⟨.standard, "x1", ⟨[("c", "p")]⟩, .empty, .empty⟩
    let scopes : Scopes ({} : Config).casePolicy := (Scopes.start 2).withModels ⟨[("qn", "qn_x1")]⟩
    let params : ParamTable := .ofAssignments "b=9 w=2"
    let text : Text := "q1 c b e qn area=w"
    Expansion.substituteTop {} renamer.catalog params text = "q1 c b e qn area=2" ∧
      ∃ nodes, renamer.RenamesNodes scopes text "q1_x1 p b_x1 e_x1 qn_x1 area=w" nodes ∧
        nodes <+: spanned renamer.catalog text ∧ nodes ≠ spanned renamer.catalog text ∧
        ∀ word ∈ nodes, Text.slice? word.start word.stop
          (Expansion.substituteTop {} renamer.catalog params text) = some word.text := by
  intro renamer scopes params text
  have made : renamer.deviceLine scopes text = .ok "q1_x1 p b_x1 e_x1 qn_x1 area=w" :=
    eq_ok_of_toOption (by decide +kernel)
  have kind : lineKind? renamer.catalog text = some ⟨3, 4, 0, true⟩ := by decide +kernel
  have among : ModelInSlot scopes renamer.catalog text := by
    refine ⟨⟨3, 4, 0, true⟩, kind, rfl, 3, ⟨"qn", 9⟩, "qn_x1", by decide +kernel,
      by decide, ?_⟩
    exact eq_ok_of_toOption (by decide +kernel)
  obtain ⟨nodes, renames, front, whole, kept⟩ :=
    renamer.nodes_within_span made (countable_of_lineKind kind (by decide))
  refine ⟨by decide +kernel, nodes, renames, front, fun all => whole.mp all among, ?_⟩
  exact kept rfl (by decide +kernel) (by decide +kernel) params

/-- A word that is known as a model is a node in the slot of an optional node, if the device has no
model; a line that starts with the word for models keeps its second word only; and a device with
the largest number of nodes keeps none of them at the top level. -/
theorem nodes_unlike_spanned :
    (let renamer : Renamer ({} : Config) :=
        ⟨Catalog.standard.add 'y' ⟨2, 3, 0, false⟩, "x1", ⟨[]⟩, .empty, .empty⟩
      let scopes : Scopes ({} : Config).casePolicy := (Scopes.start 2).withModels ⟨[("m1", "mod")]⟩
      let text : Text := "y1 a b m1"
      lineKind? renamer.catalog text = some ⟨2, 3, 0, false⟩ ∧
        ModelAmong scopes ⟨2, 3, 0, false⟩ 0 (spanned renamer.catalog text) ∧
        renamer.RenamesNodes scopes text "y1_x1 a_x1 b_x1 m1_x1" (spanned renamer.catalog text)) ∧
    (let config : Config := { directives := { model := "m1".toList } }
      let renamer : Renamer config := ⟨.standard, "x1", ⟨[]⟩, .empty, .empty⟩
      let scopes : Scopes config.casePolicy := .start 2
      let text : Text := "m1 d g s b nch"
      config.substituteNodes = false ∧
        renamer.RenamesNodes scopes text "m1_x1 d_x1 g_x1 s_x1 b_x1 nch"
          (spanned renamer.catalog text) ∧
        ⟨"g", 5⟩ ∈ spanned renamer.catalog text ∧
        Expansion.substituteTop config renamer.catalog (.ofAssignments "g=5") text =
          "m1 d 5 s b nch") ∧
    (let renamer : Renamer ({} : Config) :=
        ⟨Catalog.standard.add 'y' ⟨2, Nat.pow 2 64 - 1, 0, false⟩, "x1", ⟨[]⟩, .empty, .empty⟩
      let scopes : Scopes ({} : Config).casePolicy := .start 2
      let text : Text := "y1 w b"
      ({} : Config).substituteNodes = false ∧
        renamer.deviceLine scopes text = .ok "y1_x1 w_x1 b_x1" ∧
        spanned renamer.catalog text = [] ∧
        Expansion.substituteTop {} renamer.catalog (.ofAssignments "w=5") text = "y1 5 b") := by
  refine ⟨?_, ?_, ?_⟩
  · intro renamer scopes text
    have made : renamer.deviceLine scopes text = .ok "y1_x1 a_x1 b_x1 m1_x1" :=
      eq_ok_of_toOption (by decide +kernel)
    have kind : lineKind? renamer.catalog text = some ⟨2, 3, 0, false⟩ := by decide +kernel
    have without : ¬ModelInSlot scopes renamer.catalog text := by
      rintro ⟨other, found, hasModel, -⟩
      rw [kind] at found
      cases found
      cases hasModel
    obtain ⟨nodes, renames, -, whole⟩ :=
      renamer.exists_renamesNodes made (countable_of_lineKind kind (by decide))
    refine ⟨kind, ⟨2, ⟨"m1", 7⟩, "mod", by decide +kernel, by decide, ?_⟩, ?_⟩
    · exact eq_ok_of_toOption (by decide +kernel)
    · exact whole.mpr without ▸ renames
  · intro config renamer scopes text
    have made : renamer.deviceLine scopes text = .ok "m1_x1 d_x1 g_x1 s_x1 b_x1 nch" :=
      eq_ok_of_toOption (by decide +kernel)
    have kind : lineKind? renamer.catalog text = some ⟨4, 4, 0, true⟩ := by decide +kernel
    have few : (spanned renamer.catalog text).length = 4 := by decide +kernel
    have without : ¬ModelInSlot scopes renamer.catalog text := by
      rintro ⟨other, found, -, i, word, image, listed, late, -⟩
      rw [kind] at found
      cases found
      have := (List.getElem?_eq_some_iff.mp listed).1
      dsimp only at late
      omega
    obtain ⟨nodes, renames, -, whole⟩ :=
      renamer.exists_renamesNodes made (countable_of_lineKind kind (by decide))
    exact ⟨rfl, whole.mpr without ▸ renames, by decide +kernel, by decide +kernel⟩
  · intro renamer scopes text
    exact ⟨rfl, eq_ok_of_toOption (by decide +kernel), by decide +kernel, by decide +kernel⟩

end Renamer

end Netlist

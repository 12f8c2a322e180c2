import Netlist.Proofs.NestedRoles

/-!
# Models that no scope knows

Without strict checking a model that no scope knows keeps its name, if it
stands behind as many nodes as the device can have.  In front of that it stands
in the slot of an optional node, where only known models are told from nodes:
it is renamed like a node, and the device lacks a model.
-/

namespace Netlist

namespace Scopes

variable {policy : CasePolicy}

/-- No frame has a model that the name refers to. -/
def Unknown (scopes : Scopes policy) (name : Text) : Prop :=
  ∀ frame ∈ scopes.frames, frame.models.lookup name = .ok none

theorem modelIn_of_unknown {frames : List (Frame policy)} {name : Text}
    (unknown : ∀ frame ∈ frames, frame.models.lookup name = .ok none) :
    modelIn frames name = .ok none := by
  induction frames with
  | nil => rfl
  | cons frame outer ih =>
      obtain ⟨here, further⟩ := List.forall_mem_cons.mp unknown
      rw [modelIn, here]
      exact ih further

theorem Unknown.model {scopes : Scopes policy} {name : Text} (unknown : scopes.Unknown name) :
    scopes.model name = .ok none :=
  modelIn_of_unknown unknown

end Scopes

namespace DeviceLine

variable {policy : CasePolicy} {scopes : Scopes policy} {kind : DeviceKind}

/-- Node words with a model behind them, where nothing that can be a model is a known one. -/
structure Undeclared (scopes : Scopes policy) (kind : DeviceKind) (nodes : List Word)
    (model : Word) (rest : List Word) : Prop where
  run : NameRun nodes (model :: rest)
  optional : ∀ (i : Nat) node, nodes[i]? = some node → kind.minNodes ≤ i →
    scopes.Unknown node.text
  unassigned : isAssignment model rest = false
  unknown : scopes.Unknown model.text

theorem slotModel_of_unknown {word : Text} (count : Nat)
    (unknown : kind.minNodes ≤ count → scopes.Unknown word) :
    slotModel scopes kind count word = .ok none := by
  rw [slotModel]
  split
  next optional =>
    rw [Bool.and_eq_true, decide_eq_true_eq] at optional
    exact (unknown optional.2).model
  · rfl

theorem nodeRun_of_exhausted {count : Nat} {words : List Word} (exhausted : Exhausted words) :
    nodeRun scopes kind count words = .ok ⟨[], .open, words⟩ := by
  cases words with
  | nil => rfl
  | cons first rest =>
      have assigned : isAssignment first rest = true := exhausted
      rw [nodeRun, if_pos (by rw [assigned, Bool.or_true])]

/-- Where neither a model nor a polynomial ended the nodes of a device without references, its
model is read behind them. -/
theorem layout_of_open (strict : Bool) (name : Text) {words behind : List Word} {parts : List Part}
    (hasModel : kind.hasModel = true) (noReferences : kind.references = 0)
    (read : nodeRun scopes kind 0 words = .ok ⟨parts, .open, behind⟩) :
    layout strict scopes (some kind) name words =
      (modelPart strict scopes name behind).map fun model => ⟨parts ++ [model.1], model.2⟩ := by
  rw [layout, read]
  dsimp only [behindNodes]
  rw [noReferences, referenceRun]
  dsimp only
  rw [modelLayout, if_pos hasModel]
  cases modelPart strict scopes name behind <;> rfl

namespace Undeclared

variable {nodes rest : List Word} {model : Word}
  (line : Undeclared scopes kind nodes model rest)

include line

theorem nodeRun_nodes (fits : nodes.length ≤ kind.maxNodes) :
    nodeRun scopes kind 0 (nodes ++ model :: rest) =
      (nodeRun scopes kind nodes.length (model :: rest)).map fun later =>
        { later with parts := nodeParts nodes ++ later.parts } := by
  have slots (i : Nat) (node : Word) (found : nodes[i]? = some node) :
      slotModel scopes kind (0 + i) node.text = .ok none := by
    rw [Nat.zero_add]
    exact slotModel_of_unknown i (line.optional i node found)
  rw [nodeRun_append_of_slots line.run (by omega) slots, Nat.zero_add]

/-- Behind all nodes that the device can have, the word is not taken for a node. -/
theorem nodeRun_of_full (full : nodes.length = kind.maxNodes) :
    nodeRun scopes kind 0 (nodes ++ model :: rest) =
      .ok ⟨nodeParts nodes, .open, model :: rest⟩ := by
  rw [line.nodeRun_nodes (by omega), full, nodeRun_full, Except.map, List.append_nil]

/-- Where a node still fits, the word is taken for one. -/
theorem nodeRun_of_slot (slot : nodes.length < kind.maxNodes) (unmarked : isPoly model.text = false)
    (exhausted : Exhausted rest) :
    nodeRun scopes kind 0 (nodes ++ model :: rest) =
      .ok ⟨nodeParts nodes ++ [.node model.text], .open, rest⟩ := by
  have going : ¬(decide (kind.maxNodes ≤ nodes.length) || isAssignment model rest) = true := by
    simp [line.unassigned, slot]
  rw [line.nodeRun_nodes (by omega), nodeRun, if_neg going, if_neg (by simp [unmarked]),
    slotModel_of_unknown _ fun _ => line.unknown]
  dsimp only
  rw [nodeRun_of_exhausted exhausted]
  rfl

end Undeclared

end DeviceLine

namespace Renamer

open DeviceLine

variable {config : Config} (renamer : Renamer config) {scopes : Scopes config.casePolicy}
  {kind : DeviceKind} {text : Text} {name model : Word} {nodes rest : List Word}

/-- A last word that still fits among the nodes leaves the device without a model. -/
theorem deviceLine_of_slot (split : Word.split text = name :: (nodes ++ model :: rest))
    (kindOf : DeviceLine.kind? renamer.catalog name.text = some kind)
    (hasModel : kind.hasModel = true) (noReferences : kind.references = 0)
    (line : Undeclared scopes kind nodes model rest) (slot : nodes.length < kind.maxNodes)
    (unmarked : isPoly model.text = false) (exhausted : Exhausted rest) :
    renamer.deviceLine scopes text = .error (.missingModel name.text) := by
  rw [deviceLine, split]
  dsimp only
  rw [kindOf, layout_of_open _ _ hasModel noReferences
    (line.nodeRun_of_slot slot unmarked exhausted), modelPart_of_exhausted _ _ _ exhausted]
  rfl

/-- Without strict checking, a model that no scope knows keeps its name behind as many nodes as the
device can have; behind fewer, where it closes the words of the line, the device has no model. -/
theorem undeclared_model_keeps_name (lax : config.strictModels = false)
    (split : Word.split text = name :: (nodes ++ model :: rest))
    (kindOf : DeviceLine.kind? renamer.catalog name.text = some kind)
    (hasModel : kind.hasModel = true) (noReferences : kind.references = 0)
    (line : Undeclared scopes kind nodes model rest) :
    (nodes.length = kind.maxNodes → renamer.deviceLine scopes text =
      .ok (assemble (renamer.device name.text ::
          (nodes.map (fun node => renamer.node node.text) ++ [model.text]))
        (renamer.finish (renamer.params.substitute (textFrom text rest))))) ∧
    (nodes.length < kind.maxNodes → isPoly model.text = false → Exhausted rest →
      renamer.deviceLine scopes text = .error (.missingModel name.text)) := by
  refine ⟨?_, renamer.deviceLine_of_slot split kindOf hasModel noReferences line⟩
  intro full
  have read : modelPart config.strictModels scopes name.text (model :: rest) =
      .ok (.model model.text, rest) := by
    rw [modelPart, line.unassigned, line.unknown.model, lax]
    rfl
  rw [deviceLine, split]
  dsimp only
  rw [kindOf, layout_of_open _ _ hasModel noReferences (line.nodeRun_of_full full), read]
  dsimp only [Except.map]
  rw [List.flatMap_cons, flatMap_part_nodeParts]
  rfl

/-- A transistor with all its nodes, among models under other names. -/
theorem undeclared_model_keeps_name_transistor :
    let renamer : Renamer ({} : Config) := ⟨.standard, "x1", ⟨[("c", "p")]⟩, .empty, .empty⟩
    let scopes : Scopes ({} : Config).casePolicy :=
      (Scopes.start 2).withModels ⟨[("qn", "qn"), ("qm.1", "qm.1")]⟩
    let nodes : List Word := [⟨"c", 3⟩, ⟨"b", 5⟩, ⟨"e", 7⟩, ⟨"s", 9⟩]
    Undeclared scopes ⟨3, 4, 0, true⟩ nodes ⟨"qp", 11⟩ [⟨"area=2", 14⟩] ∧
      renamer.deviceLine scopes "q1 c b e s qp area=2" =
        .ok "q1_x1 p b_x1 e_x1 s_x1 qp area=2" := by
  intro renamer scopes nodes
  have strangers : ∀ word ∈ (["s", "qp"] : List Text), ∀ frame ∈ scopes.frames,
      (frame.models.lookup word).toOption = some none := by
    decide +kernel
  have unknown : scopes.Unknown "qp" := fun frame inside =>
    eq_ok_of_toOption (strangers "qp" (by decide) frame inside)
  have line : Undeclared scopes ⟨3, 4, 0, true⟩ nodes ⟨"qp", 11⟩ [⟨"area=2", 14⟩] := by
    refine ⟨⟨by decide +kernel, by decide +kernel, by decide +kernel⟩, ?_, by decide +kernel,
      unknown⟩
    intro i node found late frame inside
    have last : i = 3 := by
      have below : i < 4 := (List.getElem?_eq_some_iff.mp found).1
      dsimp only at late
      omega
    subst last
    cases found
    exact eq_ok_of_toOption (strangers "s" (by decide) frame inside)
  have split : Word.split "q1 c b e s qp area=2" =
      ⟨"q1", 0⟩ :: (nodes ++ ⟨"qp", 11⟩ :: [⟨"area=2", 14⟩]) := by
    decide +kernel
  have kept :=
    (renamer.undeclared_model_keeps_name rfl split (by decide +kernel) rfl rfl line).1 rfl
  refine ⟨line, kept.trans (congrArg Except.ok ?_)⟩
  decide +kernel

/-- A transistor without the node that it may have is laid out with its model in the place of that
node, although it has as many nodes as it must have. -/
theorem missing_model_of_optional_node :
    let renamer : Renamer ({} : Config) := ⟨.standard, "x1", ⟨[]⟩, .empty, .empty⟩
    let scopes : Scopes ({} : Config).casePolicy := .start 2
    let nodes : List Word := [⟨"c", 3⟩, ⟨"b", 5⟩, ⟨"e", 7⟩]
    DeviceLine.kind? renamer.catalog "q1" = some ⟨nodes.length, 4, 0, true⟩ ∧
      scopes.Unknown "qm" ∧
      renamer.deviceLine scopes "q1 c b e qm" = .error (.missingModel "q1") := by
  intro renamer scopes nodes
  have kindOf : DeviceLine.kind? renamer.catalog "q1" = some ⟨nodes.length, 4, 0, true⟩ := by
    decide +kernel
  have nowhere : ∀ frame ∈ scopes.frames, (frame.models.lookup "qm").toOption = some none := by
    decide +kernel
  have unknown : scopes.Unknown "qm" := fun frame inside =>
    eq_ok_of_toOption (nowhere frame inside)
  have line : Undeclared scopes ⟨nodes.length, 4, 0, true⟩ nodes ⟨"qm", 9⟩ [] := by
    refine ⟨⟨by decide +kernel, by decide +kernel, by decide +kernel⟩, ?_, by decide +kernel,
      unknown⟩
    intro i node found late
    exact absurd (List.getElem?_eq_some_iff.mp found).1 (Nat.not_lt.mpr late)
  have split : Word.split "q1 c b e qm" = ⟨"q1", 0⟩ :: (nodes ++ ⟨"qm", 9⟩ :: []) := by
    decide +kernel
  exact ⟨kindOf, unknown, renamer.deviceLine_of_slot split kindOf rfl rfl line (by decide)
    (by decide +kernel) trivial⟩

end Renamer

end Netlist

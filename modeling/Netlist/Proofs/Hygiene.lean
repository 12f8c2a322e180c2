import Netlist.Proofs.Body

/-!
# Hygiene of nested renaming

A name that is local to a body is renamed once for each instance around it.
As long as the separator occurs in no name that a user writes, a renamed name
is a sequence of pieces with separators between them, and the pieces can be
read back.  So no formal and no global captures a renamed node, names of
different instances never meet, and none of them meets a name of the top level.
-/

namespace Netlist

namespace CasePolicy

/-- The form of a character that decides which others it equals. -/
def foldChar : CasePolicy → Char → Char
  | .sensitive, c => c
  | .insensitive, c => c.toLower

theorem fold_eq_map (policy : CasePolicy) (name : Text) :
    policy.fold name = name.map policy.foldChar := by
  cases policy with
  | sensitive => exact (List.map_id name).symm
  | insensitive => rfl

theorem fold_append (policy : CasePolicy) (first second : Text) :
    policy.fold (first ++ second) = policy.fold first ++ policy.fold second := by
  simp only [fold_eq_map, List.map_append]

theorem fold_intercalate (policy : CasePolicy) (separator : Char) (pieces : List Text) :
    policy.fold ([separator].intercalate pieces) =
      [policy.foldChar separator].intercalate (pieces.map policy.fold) := by
  induction pieces with
  | nil => simp [fold_eq_map]
  | cons first rest ih =>
      cases rest with
      | nil => simp
      | cons second rest =>
          rw [List.intercalate_cons_cons, fold_append, fold_append, ih]
          simp only [List.map_cons, List.intercalate_cons_cons]
          simp [fold_eq_map]

end CasePolicy

/-- The separator occurs in the name in neither letter case. -/
def Unseparated (separator : Char) (name : Text) : Prop :=
  ∀ c ∈ name, c.toLower ≠ separator.toLower

instance (separator : Char) (name : Text) : Decidable (Unseparated separator name) :=
  List.decidableBAll (fun c : Char => c.toLower ≠ separator.toLower) name

namespace Unseparated

variable {separator : Char} {name : Text}

theorem not_mem_fold (unseparated : Unseparated separator name) (policy : CasePolicy) :
    policy.foldChar separator ∉ policy.fold name := by
  rw [CasePolicy.fold_eq_map]
  intro member
  obtain ⟨c, inside, same⟩ := List.mem_map.mp member
  apply unseparated c inside
  cases policy with
  | sensitive => exact congrArg Char.toLower same
  | insensitive => exact same

theorem take (unseparated : Unseparated separator name) (count : Nat) :
    Unseparated separator (name.take count) := by
  intro c member
  exact unseparated c (List.mem_of_mem_take member)

end Unseparated

/-- Pieces without separators can be read back from the name they are joined to. -/
theorem map_fold_eq_of_same {policy : CasePolicy} {separator : Char} {first second : List Text}
    (left : ∀ piece ∈ first, Unseparated separator piece) (someLeft : first ≠ [])
    (right : ∀ piece ∈ second, Unseparated separator piece) (someRight : second ≠ [])
    (same : policy.same ([separator].intercalate first) ([separator].intercalate second) = true) :
    first.map policy.fold = second.map policy.fold := by
  have read {pieces : List Text} (unseparated : ∀ piece ∈ pieces, Unseparated separator piece)
      (nonempty : pieces ≠ []) :
      (policy.fold ([separator].intercalate pieces)).splitOn (policy.foldChar separator) =
        pieces.map policy.fold := by
    rw [CasePolicy.fold_intercalate]
    apply List.splitOn_intercalate
    · intro piece member
      obtain ⟨source, inside, rfl⟩ := List.mem_map.mp member
      exact (unseparated source inside).not_mem_fold policy
    · simpa using nonempty
  rw [← read left someLeft, ← read right someRight, (policy.same_iff _ _).mp same]

/-- One level of nesting: the renamer of an instance, and the definition it connects to. -/
structure Enclosure (config : Config) where
  renamer : Renamer config
  subcircuit : Text
  formals : List Text
  actuals : List Text
  connected : Pins.connect subcircuit formals actuals = .ok renamer.pins

namespace Enclosure

variable {config : Config}

/-- The level of an instance whose formals and actuals are given in pairs. -/
def ofPairs (globals : NameSet config.casePolicy) (inst subcircuit : Text)
    (pairs : List (Text × Text)) : Enclosure config where
  renamer := ⟨.ofLetters [], inst, ⟨pairs⟩, .empty, globals⟩
  subcircuit := subcircuit
  formals := pairs.map Prod.fst
  actuals := pairs.map Prod.snd
  connected := by
    unfold Pins.connect
    simp only [List.length_map, Nat.lt_irrefl, if_false, List.zip_map', List.map_id']

def inst (level : Enclosure config) : Text := level.renamer.inst

/-- A node name, renamed for the instances around it from the inside out. -/
def pushNode (chain : List (Enclosure config)) (name : Text) : Text :=
  chain.foldl (fun name level => level.renamer.node name) name

/-- A device name, renamed for the instances around it from the inside out. -/
def pushDevice (chain : List (Enclosure config)) (name : Text) : Text :=
  chain.foldl (fun name level => level.renamer.device name) name

/-- The pins of a level lead from its formals. -/
theorem mem_formals (level : Enclosure config) {entry : Text × Text}
    (member : entry ∈ level.renamer.pins.entries) : entry.1 ∈ level.formals := by
  rw [Pins.entries_of_connect level.connected] at member
  exact (List.of_mem_zip member).1

/-- What is asked of the levels of a chain: one set of globals, and names without separators. -/
structure Separated (globals : NameSet config.casePolicy) (chain : List (Enclosure config)) :
    Prop where
  shared : ∀ level ∈ chain, level.renamer.globals = globals
  instances : ∀ level ∈ chain, Unseparated config.separator level.inst
  formals : ∀ level ∈ chain, ∀ formal ∈ level.formals, Unseparated config.separator formal

/-- A name as it is written in a body. -/
structure Written (config : Config) (name : Text) : Prop where
  nonempty : name ≠ []
  unseparated : Unseparated config.separator name

/-- A node that is local to the innermost level. -/
structure Internal (globals : NameSet config.casePolicy) (chain : List (Enclosure config))
    (name : Text) : Prop extends Written config name where
  notGround : name ≠ ground
  notGlobal : globals.contains name = false
  notFormal : ∀ level, chain.head? = some level →
    ∀ formal ∈ level.formals, config.casePolicy.same formal name = false

/-- Two chains of the same length whose instances have the same names. -/
def SameInstances (first second : List (Enclosure config)) : Prop :=
  (first.map inst).map config.casePolicy.fold = (second.map inst).map config.casePolicy.fold

/-! ## No capture -/

/-- A name that has been renamed: the separator is in it, with something beside it. -/
structure Joined (config : Config) (name : Text) : Prop where
  separated : config.separator ∈ name
  long : 2 ≤ name.length

theorem Joined.fold_ne {name other : Text} (joined : Joined config name)
    (unseparated : Unseparated config.separator other) :
    config.casePolicy.fold other ≠ config.casePolicy.fold name := by
  intro same
  apply unseparated.not_mem_fold config.casePolicy
  rw [same, CasePolicy.fold_eq_map]
  exact List.mem_map_of_mem joined.separated

theorem Joined.same_eq_false {name other : Text} (joined : Joined config name)
    (unseparated : Unseparated config.separator other) :
    config.casePolicy.same other name = false := by
  cases same : config.casePolicy.same other name with
  | false => rfl
  | true =>
      exact absurd ((config.casePolicy.same_iff _ _).mp same) (joined.fold_ne unseparated)

theorem joined_node (joint : Catenation) (shape : joint.separator = config.separator)
    {name : Text} (nonempty : name ≠ []) (inst : Text) : Joined config (joint.node name inst) := by
  have long := List.length_pos_iff.mpr nonempty
  unfold Catenation.node
  cases joint.order with
  | nameFirst =>
      refine ⟨by simp [shape], ?_⟩
      simp only [List.length_append, List.length_cons]
      omega
  | instanceFirst =>
      refine ⟨by simp [shape], ?_⟩
      simp only [List.length_append, List.length_cons]
      omega

/-- A name that is no ground, no global and no formal of a level stands for nothing outside. -/
theorem outside?_eq_none (level : Enclosure config) {globals : NameSet config.casePolicy}
    {name : Text} (notGround : name ≠ ground) (notGlobal : globals.contains name = false)
    (notFormal : ∀ formal ∈ level.formals, config.casePolicy.same formal name = false) :
    level.renamer.pins.outside? globals name = none :=
  Pins.outside?_eq_none notGround notGlobal fun entry member =>
    notFormal entry.1 (level.mem_formals member)

section Chains

variable {globals : NameSet config.casePolicy} {chain : List (Enclosure config)}

/-- No formal and no global captures a name that has been renamed. -/
theorem Joined.outside?_eq_none {name : Text} (joined : Joined config name)
    (plain : ∀ entry ∈ globals.entries, Unseparated config.separator entry.1)
    {level : Enclosure config}
    (formals : ∀ formal ∈ level.formals, Unseparated config.separator formal) :
    level.renamer.pins.outside? globals name = none := by
  apply level.outside?_eq_none
  · rintro rfl
    exact absurd joined.long (by decide)
  · unfold NameTable.contains NameTable.find?
    rw [Option.isSome_eq_false_iff, Option.isNone_iff_eq_none, List.find?_eq_none]
    intro entry member
    simpa using joined.fold_ne (plain entry member)
  · intro formal member
    exact joined.same_eq_false (formals formal member)

theorem node_of_outside?_eq_none (off : config.substituteNodes = false)
    (renamer : Renamer config) {name : Text}
    (inside : renamer.pins.outside? renamer.globals name = none) :
    renamer.node name = (Catenation.ofConfig config).node name renamer.inst := by
  unfold Renamer.node Renamer.nodeName
  simp only [off, Bool.false_eq_true, if_false, inside, Option.getD_none]
  rfl

/-- The chain joins the name to its instances, and no level captures it on the way. -/
structure Carried (globals : NameSet config.casePolicy) (chain : List (Enclosure config))
    (name : Text) : Prop where
  image : pushNode chain name = (chain.map inst).foldl (Catenation.ofConfig config).node name
  free : ∀ inner level outer, chain = inner ++ level :: outer →
    level.renamer.pins.outside? globals (pushNode inner name) = none

theorem carried_nil (globals : NameSet config.casePolicy) (name : Text) :
    Carried globals [] name := by
  refine ⟨rfl, ?_⟩
  intro inner level outer split
  cases inner <;> cases split

theorem Carried.cons (off : config.substituteNodes = false) {first : Enclosure config}
    {name : Text} (shared : first.renamer.globals = globals)
    (here : first.renamer.pins.outside? globals name = none)
    (rest : Carried globals chain ((Catenation.ofConfig config).node name first.inst)) :
    Carried globals (first :: chain) name := by
  have step : first.renamer.node name =
      (Catenation.ofConfig config).node name first.inst := by
    apply node_of_outside?_eq_none off
    rw [shared]
    exact here
  constructor
  · show pushNode chain (first.renamer.node name) = _
    rw [step, rest.image]
    rfl
  · intro inner level outer split
    cases inner with
    | nil =>
        cases split
        exact here
    | cons next inner =>
        obtain ⟨rfl, tail⟩ := List.cons.inj split
        show level.renamer.pins.outside? globals (pushNode inner (first.renamer.node name)) = none
        rw [step]
        exact rest.free inner level outer tail

theorem Separated.tail {first : Enclosure config}
    (separated : Separated globals (first :: chain)) : Separated globals chain :=
  ⟨fun level member => separated.shared level (List.mem_cons_of_mem _ member),
    fun level member => separated.instances level (List.mem_cons_of_mem _ member),
    fun level member => separated.formals level (List.mem_cons_of_mem _ member)⟩

/-- A name that has been renamed is carried through all further levels. -/
theorem Joined.carried {name : Text} (joined : Joined config name)
    (off : config.substituteNodes = false)
    (plain : ∀ entry ∈ globals.entries, Unseparated config.separator entry.1)
    (separated : Separated globals chain) : Carried globals chain name := by
  induction chain generalizing name with
  | nil => exact carried_nil globals name
  | cons first rest ih =>
      have nonempty : name ≠ [] := by
        intro empty
        have long := joined.long
        simp [empty] at long
      refine Carried.cons off (separated.shared first (List.mem_cons_self ..)) ?_ ?_
      · exact joined.outside?_eq_none plain (separated.formals first (List.mem_cons_self ..))
      · exact ih (joined_node (.ofConfig config) rfl nonempty first.inst) separated.tail

/-- A node that is local to the innermost level is carried through all levels. -/
theorem Internal.carried {name : Text} (internal : Internal globals chain name)
    (off : config.substituteNodes = false)
    (plain : ∀ entry ∈ globals.entries, Unseparated config.separator entry.1)
    (separated : Separated globals chain) : Carried globals chain name := by
  cases chain with
  | nil => exact carried_nil globals name
  | cons first rest =>
      refine Carried.cons off (separated.shared first (List.mem_cons_self ..)) ?_ ?_
      · exact first.outside?_eq_none internal.notGround internal.notGlobal
          (internal.notFormal first rfl)
      · have joined := joined_node (.ofConfig config) rfl internal.nonempty first.inst
        exact joined.carried off plain separated.tail

end Chains

end Enclosure

/-! ## The pieces of a renamed name -/

namespace Catenation

/-- The pieces of a node name, renamed for instances from the inside out. -/
def nodePieces (order : CatenationOrder) (name : Text) (instances : List Text) : List Text :=
  match order with
  | .nameFirst => name :: instances
  | .instanceFirst => instances.reverse ++ [name]

/-- Instances from the outside in, each behind the keys, and the name at the end. -/
def keyedPieces (keys : List Text) (name : Text) : (outer : List Text) → List Text
  | [] => [name]
  | inst :: inner => keys ++ inst :: keyedPieces keys name inner

/-- The pieces of a name, renamed for instances from the inside out; the keys of a device are
repeated before every instance that stands in front. -/
def pieces (order : CatenationOrder) (keys : List Text) (name : Text) (instances : List Text) :
    List Text :=
  match order with
  | .nameFirst => name :: instances
  | .instanceFirst => keyedPieces keys name instances.reverse

theorem keyedPieces_nil (name : Text) (outer : List Text) :
    keyedPieces [] name outer = outer ++ [name] := by
  induction outer with
  | nil => rfl
  | cons inst inner ih => exact congrArg (inst :: ·) ih

/-- A node has no keys. -/
theorem nodePieces_eq (order : CatenationOrder) (name : Text) (instances : List Text) :
    nodePieces order name instances = pieces order [] name instances := by
  cases order with
  | nameFirst => rfl
  | instanceFirst => exact (keyedPieces_nil name instances.reverse).symm

theorem keyedPieces_ne_nil (keys : List Text) (name : Text) (outer : List Text) :
    keyedPieces keys name outer ≠ [] := by
  cases outer <;> simp [keyedPieces]

theorem pieces_ne_nil (order : CatenationOrder) (keys : List Text) (name : Text)
    (instances : List Text) : pieces order keys name instances ≠ [] := by
  cases order with
  | nameFirst => exact List.cons_ne_nil name instances
  | instanceFirst => exact keyedPieces_ne_nil keys name instances.reverse

theorem map_keyedPieces (fold : Text → Text) (keys : List Text) (name : Text)
    (outer : List Text) :
    (keyedPieces keys name outer).map fold =
      keyedPieces (keys.map fold) (fold name) (outer.map fold) := by
  induction outer with
  | nil => rfl
  | cons inst inner ih =>
      rw [keyedPieces, List.map_append, List.map_cons, ih, List.map_cons, keyedPieces]

theorem map_pieces (fold : Text → Text) (order : CatenationOrder) (keys : List Text)
    (name : Text) (instances : List Text) :
    (pieces order keys name instances).map fold =
      pieces order (keys.map fold) (fold name) (instances.map fold) := by
  cases order with
  | nameFirst => rfl
  | instanceFirst =>
      simp only [pieces, map_keyedPieces, List.map_reverse]

theorem mem_keyedPieces {keys : List Text} {name piece : Text} {outer : List Text}
    (member : piece ∈ keyedPieces keys name outer) :
    piece ∈ keys ∨ piece = name ∨ piece ∈ outer := by
  induction outer with
  | nil => exact .inr (.inl (List.mem_singleton.mp member))
  | cons inst inner ih =>
      rcases List.mem_append.mp member with isKey | later
      · exact .inl isKey
      rcases List.mem_cons.mp later with rfl | later
      · exact .inr (.inr (List.mem_cons_self ..))
      rcases ih later with isKey | isName | among
      · exact .inl isKey
      · exact .inr (.inl isName)
      · exact .inr (.inr (List.mem_cons_of_mem _ among))

theorem mem_pieces {order : CatenationOrder} {keys : List Text} {name piece : Text}
    {instances : List Text} (member : piece ∈ pieces order keys name instances) :
    piece ∈ keys ∨ piece = name ∨ piece ∈ instances := by
  cases order with
  | nameFirst => exact .inr (List.mem_cons.mp member)
  | instanceFirst => simpa only [List.mem_reverse] using mem_keyedPieces member

/-- The name and the instances can be told from the pieces, since chains of different lengths have
different numbers of pieces. -/
theorem keyedPieces_inj {keys otherKeys : List Text} (even : keys.length = otherKeys.length)
    {name other : Text} {first second : List Text}
    (equal : keyedPieces keys name first = keyedPieces otherKeys other second) :
    name = other ∧ first = second := by
  have longer (keys : List Text) (inst name : Text) (inner : List Text) :
      1 < (keyedPieces keys name (inst :: inner)).length := by
    have rest := List.length_pos_iff.mpr (keyedPieces_ne_nil keys name inner)
    simp only [keyedPieces, List.length_append, List.length_cons]
    omega
  induction first generalizing second with
  | nil =>
      cases second with
      | nil => exact ⟨List.singleton_inj.mp equal, rfl⟩
      | cons inst inner =>
          have more := longer otherKeys inst other inner
          rw [← equal] at more
          exact absurd more (Nat.lt_irrefl 1)
  | cons inst inner ih =>
      cases second with
      | nil =>
          have more := longer keys inst name inner
          rw [equal] at more
          exact absurd more (Nat.lt_irrefl 1)
      | cons inst' inner' =>
          obtain ⟨-, tails⟩ := List.append_inj equal even
          obtain ⟨rfl, rest⟩ := List.cons.inj tails
          obtain ⟨rfl, rfl⟩ := ih rest
          exact ⟨rfl, rfl⟩

theorem pieces_inj {order : CatenationOrder} {keys otherKeys : List Text}
    (even : keys.length = otherKeys.length) {name other : Text} {first second : List Text}
    (equal : pieces order keys name first = pieces order otherKeys other second) :
    name = other ∧ first = second := by
  cases order with
  | nameFirst => exact List.cons.inj equal
  | instanceFirst =>
      obtain ⟨names, instances⟩ := keyedPieces_inj even equal
      exact ⟨names, List.reverse_inj.mp instances⟩

theorem intercalate_cons (separator : Char) (first : Text) {rest : List Text}
    (nonempty : rest ≠ []) :
    [separator].intercalate (first :: rest) =
      first ++ separator :: [separator].intercalate rest := by
  rw [List.intercalate_cons_of_ne_nil nonempty]
  simp

theorem foldl_nameFirst (separator : Char) (name : Text) (instances : List Text) :
    instances.foldl (fun name inst => name ++ separator :: inst) name =
      [separator].intercalate (name :: instances) := by
  induction instances generalizing name with
  | nil => simp
  | cons inst rest ih =>
      rw [List.foldl_cons, ih]
      cases rest with
      | nil => simp [List.intercalate_cons_cons]
      | cons next rest => simp [List.intercalate_cons_cons]

theorem foldl_node (joint : Catenation) (name : Text) (instances : List Text) :
    instances.foldl joint.node name =
      [joint.separator].intercalate (nodePieces joint.order name instances) := by
  unfold node nodePieces
  cases joint.order with
  | nameFirst => exact foldl_nameFirst joint.separator name instances
  | instanceFirst =>
      dsimp only
      rw [List.foldl_eq_foldr_reverse]
      induction instances.reverse with
      | nil => simp
      | cons inst inner ih =>
          rw [List.foldr_cons, ih, List.cons_append, intercalate_cons _ _ (by simp)]

theorem foldl_device (joint : Catenation) {name : Text} (nonempty : name ≠ [])
    (instances : List Text) :
    instances.foldl joint.device name =
      [joint.separator].intercalate (pieces joint.order [name.take 1] name instances) := by
  unfold device pieces
  cases joint.order with
  | nameFirst => exact foldl_nameFirst joint.separator name instances
  | instanceFirst =>
      dsimp only
      rw [List.foldl_eq_foldr_reverse]
      -- the key letter in front stays the same from one instance to the next
      suffices both : ∀ outer : List Text,
          outer.foldr (fun inst name => name.take 1 ++ joint.separator :: inst ++
              joint.separator :: name) name =
            [joint.separator].intercalate (keyedPieces [name.take 1] name outer) ∧
          (outer.foldr (fun inst name => name.take 1 ++ joint.separator :: inst ++
              joint.separator :: name) name).take 1 = name.take 1 from
        (both instances.reverse).1
      intro outer
      obtain ⟨c, rest, rfl⟩ := List.exists_cons_of_ne_nil nonempty
      induction outer with
      | nil => simp [keyedPieces]
      | cons inst inner ih =>
          rw [List.foldr_cons, ih.2, ih.1, keyedPieces, List.singleton_append,
            intercalate_cons _ _ (by simp), intercalate_cons _ _ (keyedPieces_ne_nil _ _ inner)]
          simp

end Catenation

namespace Enclosure

variable {config : Config} {globals : NameSet config.casePolicy}
  {first second : List (Enclosure config)}

theorem Carried.pieces {name : Text} (carried : Carried globals first name) :
    pushNode first name = [config.separator].intercalate
      (Catenation.nodePieces config.order name (first.map inst)) := by
  rw [carried.image, Catenation.foldl_node]
  rfl

theorem Written.pieces {name : Text} (written : Written config name)
    (chain : List (Enclosure config)) :
    pushDevice chain name = [config.separator].intercalate
      (Catenation.pieces config.order [name.take 1] name (chain.map inst)) := by
  have folded : pushDevice chain name =
      (chain.map inst).foldl (Catenation.ofConfig config).device name := by
    rw [List.foldl_map]
    rfl
  rw [folded, Catenation.foldl_device _ written.nonempty]
  rfl

theorem Separated.unseparated_pieces (separated : Separated globals first) {keys : List Text}
    (plain : ∀ key ∈ keys, Unseparated config.separator key) {name : Text}
    (written : Written config name) :
    ∀ piece ∈ Catenation.pieces config.order keys name (first.map inst),
      Unseparated config.separator piece := by
  intro piece member
  rcases Catenation.mem_pieces member with isKey | rfl | among
  · exact plain piece isKey
  · exact written.unseparated
  · obtain ⟨level, inside, rfl⟩ := List.mem_map.mp among
    exact separated.instances level inside

theorem separated_nil : Separated globals ([] : List (Enclosure config)) := by
  constructor <;> intro level member <;> cases member

/-- From a renamed name its own name and all its instances can be told. -/
theorem sameInstances_of_same_pieces (left : Separated globals first)
    (right : Separated globals second) {keys otherKeys : List Text}
    (plain : ∀ key ∈ keys, Unseparated config.separator key)
    (otherPlain : ∀ key ∈ otherKeys, Unseparated config.separator key)
    (even : keys.length = otherKeys.length) {name other : Text} (written : Written config name)
    (otherWritten : Written config other)
    (same : config.casePolicy.same
      ([config.separator].intercalate
        (Catenation.pieces config.order keys name (first.map inst)))
      ([config.separator].intercalate
        (Catenation.pieces config.order otherKeys other (second.map inst))) = true) :
    config.casePolicy.same name other = true ∧ SameInstances first second := by
  have pieces := map_fold_eq_of_same (left.unseparated_pieces plain written)
    (Catenation.pieces_ne_nil _ _ _ _) (right.unseparated_pieces otherPlain otherWritten)
    (Catenation.pieces_ne_nil _ _ _ _) same
  rw [Catenation.map_pieces, Catenation.map_pieces] at pieces
  obtain ⟨names, instances⟩ := Catenation.pieces_inj (by simpa using even) pieces
  exact ⟨(config.casePolicy.same_iff _ _).mpr names, instances⟩

theorem sameInstances_of_same_node {name other : Text}
    (left : Separated globals first) (right : Separated globals second)
    (written : Written config name) (otherWritten : Written config other)
    (carried : Carried globals first name) (otherCarried : Carried globals second other)
    (same : config.casePolicy.same (pushNode first name) (pushNode second other) = true) :
    config.casePolicy.same name other = true ∧ SameInstances first second := by
  rw [carried.pieces, otherCarried.pieces, Catenation.nodePieces_eq,
    Catenation.nodePieces_eq] at same
  exact sameInstances_of_same_pieces left right (by simp) (by simp) rfl written otherWritten same

theorem sameInstances_of_same_device {name other : Text}
    (left : Separated globals first) (right : Separated globals second)
    (written : Written config name) (otherWritten : Written config other)
    (same : config.casePolicy.same (pushDevice first name) (pushDevice second other) = true) :
    config.casePolicy.same name other = true ∧ SameInstances first second := by
  rw [written.pieces, otherWritten.pieces] at same
  have plain {name : Text} (written : Written config name) :
      ∀ key ∈ [name.take 1], Unseparated config.separator key := by
    intro key member
    rw [List.mem_singleton.mp member]
    exact written.unseparated.take 1
  exact sameInstances_of_same_pieces left right (plain written) (plain otherWritten) rfl written
    otherWritten same

theorem not_sameInstances_nil (nonempty : first ≠ []) : ¬ SameInstances first [] := by
  intro same
  exact nonempty (List.map_eq_nil_iff.mp (List.map_eq_nil_iff.mp same))

/-- Renaming over any nesting keeps names apart.  An internal node passes every level
without being captured and ends as its name joined to all instances; two nodes, or two
devices, of which not all instances are the same get different names; and none of these
names is the name of something outside. -/
theorem renaming_hygienic (off : config.substituteNodes = false)
    (plain : ∀ entry ∈ globals.entries, Unseparated config.separator entry.1)
    (left : Separated globals first) (right : Separated globals second) :
    (∀ name, Internal globals first name →
      pushNode first name = [config.separator].intercalate
        (Catenation.nodePieces config.order name (first.map inst)) ∧
      ∀ inner level outer, first = inner ++ level :: outer →
        level.renamer.pins.outside? globals (pushNode inner name) = none) ∧
    (∀ name other, Internal globals first name → Internal globals second other →
      config.casePolicy.same (pushNode first name) (pushNode second other) = true →
      config.casePolicy.same name other = true ∧ SameInstances first second) ∧
    (∀ name other, Written config name → Written config other →
      config.casePolicy.same (pushDevice first name) (pushDevice second other) = true →
      config.casePolicy.same name other = true ∧ SameInstances first second) ∧
    (first ≠ [] → ∀ name outside, Written config outside →
      (Internal globals first name →
        config.casePolicy.same (pushNode first name) outside = false) ∧
      (Written config name →
        config.casePolicy.same (pushDevice first name) outside = false)) := by
  refine ⟨?_, ?_, ?_, ?_⟩
  · intro name internal
    have carried := internal.carried off plain left
    exact ⟨carried.pieces, carried.free⟩
  · intro name other internal otherInternal same
    exact sameInstances_of_same_node left right internal.toWritten otherInternal.toWritten
      (internal.carried off plain left) (otherInternal.carried off plain right) same
  · intro name other written otherWritten same
    exact sameInstances_of_same_device left right written otherWritten same
  · -- a name outside is the name that an empty chain gives
    intro nonempty name outside outsideWritten
    constructor
    · intro internal
      apply Bool.eq_false_iff.mpr
      intro same
      exact not_sameInstances_nil nonempty (sameInstances_of_same_node left separated_nil
        internal.toWritten outsideWritten (internal.carried off plain left)
        (carried_nil globals outside) same).2
    · intro written
      apply Bool.eq_false_iff.mpr
      intro same
      exact not_sameInstances_nil nonempty
        (sameInstances_of_same_device left separated_nil written outsideWritten same).2

/-- The local node `n` of a leaf inside a cell whose formal is `n` too: the formal does not
capture it, the instance `X2` is the instance `x2`, and no name outside is met. -/
theorem renaming_hygienic_leaf :
    let config : Config := { order := .instanceFirst }
    let globals : NameSet config.casePolicy := .ofList ["vdd"]
    let cell : Enclosure config := ofPairs globals "x1" "cell" [("n", "out")]
    let leaf : Enclosure config := ofPairs globals "x2" "leaf" [("p", "n")]
    let upper : Enclosure config := ofPairs globals "X2" "leaf" [("p", "n")]
    pushNode [leaf, cell] "n" = "x1_x2_n" ∧
    cell.renamer.pins.outside? globals (pushNode [leaf] "n") = none ∧
    SameInstances [leaf, cell] [upper, cell] ∧
    config.casePolicy.same (pushDevice [leaf, cell] "r1") "r1" = false := by
  intro config globals cell leaf upper
  have plain : ∀ entry ∈ globals.entries, Unseparated config.separator entry.1 := by decide
  have left : Separated globals [leaf, cell] :=
    ⟨by simp [leaf, cell, ofPairs], by decide, by decide⟩
  have right : Separated globals [upper, cell] :=
    ⟨by simp [upper, cell, ofPairs], by decide, by decide⟩
  have internal : Internal globals [leaf, cell] "n" :=
    ⟨⟨by decide, by decide⟩, by decide, by decide, by rintro level ⟨⟩; decide⟩
  have otherInternal : Internal globals [upper, cell] "N" :=
    ⟨⟨by decide, by decide⟩, by decide, by decide, by rintro level ⟨⟩; decide⟩
  obtain ⟨nodes, sameNodes, -, outside⟩ := renaming_hygienic rfl plain left right
  refine ⟨(nodes "n" internal).1, (nodes "n" internal).2 [leaf] cell [] rfl, ?_, ?_⟩
  · exact (sameNodes "n" "N" internal otherInternal (by decide)).2
  · exact (outside (by simp) "r1" "r1" ⟨by decide, by decide⟩).2 ⟨by decide, by decide⟩

end Enclosure

end Netlist

import Mathlib.Data.List.Induction
import Netlist.Call
import Netlist.Proofs.Outline

/-!
# Layers of parameters

Each instance lays two tables over the parameters of its caller, or under
them: the defaults of its definition and what its call gives.  Over any depth
of nesting the value of a name is the one of the first table that binds it.
Under the global policy the tables are asked from the outside in, under the
local policy from the inside out.
-/

namespace Netlist

namespace NameTable

variable {policy other : CasePolicy} {α : Type}

/-- No two of the entries have the same name, as the policy compares names. -/
def Apart (policy : CasePolicy) (entries : List (Text × α)) : Prop :=
  ∀ first ∈ entries, ∀ second ∈ entries, policy.fold first.1 = policy.fold second.1 →
    first = second

theorem apart_entries (table : NameTable policy α) : Apart policy table.entries := by
  intro first member second memberToo same
  have found := find?_eq_some_of_mem member
  unfold find? at found
  rw [same] at found
  exact Option.some.inj (found.symm.trans (find?_eq_some_of_mem memberToo))

theorem find?_eq_some_iff_of_apart {entries : List (Text × α)} (apart : Apart policy entries)
    {name : Text} {entry : Text × α} :
    entries.find? (fun entry => policy.fold entry.1 == policy.fold name) = some entry ↔
      entry ∈ entries ∧ policy.fold entry.1 = policy.fold name := by
  constructor
  · intro found
    exact ⟨List.mem_of_find?_eq_some found, by simpa using List.find?_some found⟩
  · rintro ⟨member, named⟩
    have some : (entries.find? fun entry => policy.fold entry.1 == policy.fold name).isSome :=
      List.find?_isSome.mpr ⟨entry, member, by simpa using named⟩
    obtain ⟨first, found⟩ := Option.isSome_iff_exists.mp some
    have namedToo : policy.fold first.1 = policy.fold name := by
      simpa using List.find?_some found
    rw [found, apart first (List.mem_of_find?_eq_some found) entry member
      (namedToo.trans named.symm)]

/-- Among entries that are apart, the last one of a name is the first one. -/
theorem getLast?_filter_of_apart {entries : List (Text × α)} (apart : Apart policy entries)
    (name : Text) :
    (entries.filter fun entry => policy.fold entry.1 == policy.fold name).getLast? =
      entries.find? fun entry => policy.fold entry.1 == policy.fold name := by
  rw [← List.head?_filter]
  cases kept : entries.filter fun entry => policy.fold entry.1 == policy.fold name with
  | nil => rfl
  | cons first rest =>
      have listed (entry : Text × α) (member : entry ∈ first :: rest) :
          entry ∈ entries ∧ policy.fold entry.1 = policy.fold name := by
        rw [← kept, List.mem_filter, beq_iff_eq] at member
        exact member
      obtain ⟨inside, named⟩ := listed first List.mem_cons_self
      obtain ⟨insideToo, namedToo⟩ :=
        listed _ (List.getLast_mem (List.cons_ne_nil first rest))
      rw [List.getLast?_eq_some_getLast (List.cons_ne_nil first rest), List.head?_cons,
        apart _ insideToo first inside (namedToo.trans named.symm)]

/-- Entries that are apart may be entered in any order. -/
theorem insertAll_perm_of_apart (base : NameTable policy α) {first second : List (Text × α)}
    (apart : Apart policy second) (order : first.Perm second) :
    base.insertAll first = base.insertAll second := by
  have apartToo : Apart policy first := by
    intro one member another memberToo
    exact apart one (order.mem_iff.mp member) another (order.mem_iff.mp memberToo)
  apply ext_find?
  intro name
  rw [find?_insertAll, find?_insertAll, getLast?_filter_of_apart apart,
    getLast?_filter_of_apart apartToo]
  congr 1
  apply Option.ext
  intro entry
  rw [find?_eq_some_iff_of_apart apart, find?_eq_some_iff_of_apart apartToo, order.mem_iff]

/-- In a table with an overlay a name is looked up in the overlay first, also where the overlay
compares names in another way. -/
theorem find?_update_of_apart (base : NameTable policy α) (overlay : NameTable other α)
    (apart : Apart policy overlay.entries) (name : Text) :
    (base.update overlay).find? name =
      (overlay.entries.find? fun entry => policy.fold entry.1 == policy.fold name).or
        (base.find? name) := by
  rw [update, find?_insertAll, getLast?_filter_of_apart apart]

theorem find?_update (base overlay : NameTable policy α) (name : Text) :
    (base.update overlay).find? name = (overlay.find? name).or (base.find? name) :=
  find?_update_of_apart base overlay overlay.apart_entries name

theorem get?_update (base overlay : NameTable policy α) (name : Text) :
    (base.update overlay).get? name = (overlay.get? name).or (base.get? name) := by
  unfold get?
  rw [find?_update]
  cases overlay.find? name <;> rfl

end NameTable

/-- Where the plain assignments are entered in order, the last one to a name counts. -/
theorem ParamTable.get?_foldl_insert (image : Text → Text) (items : List Assignment)
    (name : Text) :
    NameTable.get? (items.foldl (fun (table : ParamTable) item =>
        match item.arguments with
        | none => table.insert item.name (image item.value)
        | some _ => table) .empty) name =
      (items.filter fun item =>
          item.arguments.isNone && Text.sameLetters item.name name).getLast?.map
        fun item => image item.value := by
  induction items using List.reverseRecOn with
  | nil => rfl
  | append_singleton items item ih =>
      rw [List.foldl_append, List.foldl_cons, List.foldl_nil, List.filter_append]
      cases function : item.arguments with
      | some names =>
          rw [List.filter_cons_of_neg (by simp [function]), List.filter_nil, List.append_nil]
          exact ih
      | none =>
          dsimp only
          rw [NameTable.get?_insert]
          by_cases same : Text.sameLetters item.name name = true
          · have folded : CasePolicy.insensitive.fold item.name =
                CasePolicy.insensitive.fold name := (Text.sameLetters_iff _ _).mp same
            rw [if_pos folded, List.filter_cons_of_pos (by simp [function, same]),
              List.filter_nil, List.getLast?_concat]
            rfl
          · have apart : CasePolicy.insensitive.fold item.name ≠
                CasePolicy.insensitive.fold name := fun equal =>
              same ((Text.sameLetters_iff _ _).mpr equal)
            rw [if_neg apart, List.filter_cons_of_neg (by simp [same]), List.filter_nil,
              List.append_nil]
            exact ih

/-- What an instance has to say about parameters: the defaults of its definition and the
assignments of its call. -/
structure Instantiation where
  defaults : ParamTable
  assignments : Text

namespace Call

/-- The value that a call gives to a name: its last plain assignment to the name counts, and the
value is resolved in the scope of the caller. -/
def given (caller : ParamTable) (assignments name : Text) : Option Text :=
  ((Assignment.read assignments).filter fun item =>
      item.arguments.isNone && Text.sameLetters item.name name).getLast?.map
    fun item => caller.substitute item.value

theorem get?_arguments (caller : ParamTable) (assignments name : Text) :
    (arguments caller assignments).get? name = given caller assignments name :=
  ParamTable.get?_foldl_insert caller.substitute (Assignment.read assignments) name

theorem get?_layer_global (caller defaults : ParamTable) (assignments name : Text) :
    (layer .global caller defaults assignments).get? name =
      (caller.get? name).or ((defaults.get? name).or (given caller assignments name)) := by
  unfold layer
  rw [NameTable.get?_update, NameTable.get?_update, get?_arguments]

theorem get?_layer_local (caller defaults : ParamTable) (assignments name : Text) :
    (layer .local caller defaults assignments).get? name =
      (given caller assignments name).or ((defaults.get? name).or (caller.get? name)) := by
  unfold layer
  rw [NameTable.get?_update, NameTable.get?_update, get?_arguments]

/-- The parameters in force inside nested instances, which stand from the outside in. -/
def layerAll (policy : MergePolicy) (top : ParamTable) (chain : List Instantiation) : ParamTable :=
  chain.foldl (fun caller level => layer policy caller level.defaults level.assignments) top

/-- What nested instances bind, from the outside in: for each the defaults, then the call, whose
values are resolved in what is in force around it. -/
def bindings (policy : MergePolicy) : ParamTable → List Instantiation → List (Text → Option Text)
  | _, [] => []
  | caller, level :: inner =>
      level.defaults.get? :: given caller level.assignments ::
        bindings policy (layer policy caller level.defaults level.assignments) inner

theorem get?_layerAll_global (top : ParamTable) (chain : List Instantiation) (name : Text) :
    (layerAll .global top chain).get? name =
      (top.get? :: bindings .global top chain).findSome? (· name) := by
  induction chain generalizing top with
  | nil =>
      show top.get? name = _
      rw [bindings]
      cases found : top.get? name <;> simp [found]
  | cons level inner ih =>
      calc (layerAll .global top (level :: inner)).get? name
          = (layerAll .global (layer .global top level.defaults level.assignments) inner).get?
              name := rfl
        _ = _ := ih _
        _ = _ := by
            simp only [bindings, List.findSome?_cons, get?_layer_global]
            cases top.get? name <;> cases level.defaults.get? name <;>
              cases given top level.assignments name <;> rfl

theorem get?_layerAll_local (top : ParamTable) (chain : List Instantiation) (name : Text) :
    (layerAll .local top chain).get? name =
      (top.get? :: bindings .local top chain).reverse.findSome? (· name) := by
  induction chain generalizing top with
  | nil =>
      show top.get? name = _
      rw [bindings]
      cases found : top.get? name <;> simp [found]
  | cons level inner ih =>
      calc (layerAll .local top (level :: inner)).get? name
          = (layerAll .local (layer .local top level.defaults level.assignments) inner).get?
              name := rfl
        _ = _ := ih _
        _ = _ := by
            simp only [bindings, List.reverse_cons, List.findSome?_append, List.append_assoc,
              List.findSome?_cons, List.findSome?_nil, get?_layer_local]
            cases top.get? name <;> cases level.defaults.get? name <;>
              cases given top level.assignments name <;> rfl

theorem layerAll_append_singleton (policy : MergePolicy) (top : ParamTable)
    (outer : List Instantiation) (level : Instantiation) :
    layerAll policy top (outer ++ [level]) =
      layer policy (layerAll policy top outer) level.defaults level.assignments := by
  unfold layerAll
  rw [List.foldl_append]
  rfl

/-- Over any depth of nesting the first table that binds a name gives its value.  Under the global
policy the parameters of the top level come first and are the same at every depth; under the local
policy the innermost call comes first, and what it assigns reaches its body. -/
theorem first_binding_counts (top : ParamTable) (chain : List Instantiation) (name : Text) :
    ((layerAll .global top chain).get? name =
        (top.get? :: bindings .global top chain).findSome? (· name) ∧
      (layerAll .local top chain).get? name =
        (top.get? :: bindings .local top chain).reverse.findSome? (· name)) ∧
    (∀ policy, (layerAll policy top chain).get? name = none ↔
      ∀ binding ∈ top.get? :: bindings policy top chain, binding name = none) ∧
    (∀ value, top.get? name = some value →
      (layerAll .global top chain).get? name = some value) ∧
    (∀ outer level value, chain = outer ++ [level] →
      given (layerAll .local top outer) level.assignments name = some value →
      (layerAll .local top chain).get? name = some value) := by
  refine ⟨⟨get?_layerAll_global top chain name, get?_layerAll_local top chain name⟩, ?_, ?_, ?_⟩
  · intro policy
    cases policy with
    | global => rw [get?_layerAll_global, List.findSome?_eq_none_iff]
    | «local» => simp only [get?_layerAll_local, List.findSome?_eq_none_iff, List.mem_reverse]
  · intro value bound
    rw [get?_layerAll_global, List.findSome?_cons, bound]
  · rintro outer level value rfl assigned
    rw [layerAll_append_singleton, get?_layer_local, assigned]
    rfl

/-- Two levels that bind the same names in different ways, among them one that only the inner call
assigns and one that is assigned as a function. -/
theorem first_binding_counts_nested :
    let top : ParamTable := .ofAssignments "k=3 w=1"
    let chain : List Instantiation :=
      [⟨.ofAssignments "w=2 l=2", "W=5 l=k m=4"⟩, ⟨.ofAssignments "l=7 n=8", "m=w n=m f(x)=x"⟩]
    let names : List Text := ["w", "l", "m", "n", "f"]
    names.map (fun name => (layerAll .global top chain).get? name) =
      [some "1".toList, some "2".toList, some "4".toList, some "8".toList, none] ∧
    names.map (fun name => (layerAll .local top chain).get? name) =
      [some "5".toList, some "7".toList, some "5".toList, some "4".toList, none] := by
  intro top chain names
  have found := fun name => (first_binding_counts top chain name).1
  simp only [found]
  decide +kernel

end Call

end Netlist

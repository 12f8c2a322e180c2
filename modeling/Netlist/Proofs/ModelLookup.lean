import Mathlib.Data.List.Induction
import Netlist.Proofs.Hygiene
import Netlist.Proofs.RecordedModels

/-!
# References to recorded models

When the model cards of a body have recorded their new names, a reference is
resolved to the name that it would get itself, up to letter case: if it is
declared, if it has a bin behind a declared name, or if it is the base of a
declared name with a bin.  Names compare by the case policy throughout, except
that the bases of several binned models are told apart by their spelling.  So a
reference to a base is ambiguous just when its models spell the base in two
ways.
-/

namespace Netlist

/-- Only a character that is no letter is folded to one below the letters. -/
theorem CasePolicy.eq_of_foldChar (policy : CasePolicy) {c other : Char}
    (low : other.toNat < 65) (same : policy.foldChar c = policy.foldChar other) : c = other := by
  cases policy with
  | sensitive => exact same
  | insensitive =>
      have lowered : c.toLower = other.toLower := same
      rcases Text.toLower_cases other with kept | ⟨letter, -, -⟩
      · rw [kept] at lowered
        rcases Text.toLower_cases c with plain | ⟨capital, -, shifted⟩
        · exact plain.symm.trans lowered
        · rw [lowered] at shifted
          omega
      · omega

namespace Model

variable {policy : CasePolicy}

theorem IsBin.toNat_lt {bin : Text} (isBin : IsBin bin) {c : Char} (member : c ∈ bin) :
    c.toNat < 65 := by
  obtain ⟨digits, rfl, -, numeric⟩ := isBin
  rcases List.mem_cons.mp member with rfl | inside
  · decide
  · have bounds := Token.bounds_of_isDigit (List.all_eq_true.mp numeric c inside)
    omega

/-- A bin has one spelling. -/
theorem IsBin.eq_of_same {bin other : Text} (isBin : IsBin bin)
    (same : policy.same other bin = true) : other = bin := by
  rw [policy.same_iff, policy.fold_eq_map, policy.fold_eq_map] at same
  have low : ∀ c ∈ bin, c.toNat < 65 := fun c member => isBin.toNat_lt member
  clear isBin
  induction bin generalizing other with
  | nil => exact List.map_eq_nil_iff.mp same
  | cons c rest ih =>
      obtain ⟨first, further, rfl, here, behind⟩ := List.map_eq_cons_iff.mp same
      rw [policy.eq_of_foldChar (low c List.mem_cons_self) here,
        ih behind fun d member => low d (List.mem_cons_of_mem c member)]

/-- Names that are the same have the same bin and the same base. -/
theorem splitBin_of_same {first second base bin : Text}
    (same : policy.same first second = true) (binned : splitBin first = (base, some bin)) :
    ∃ other, splitBin second = (other, some bin) ∧ policy.same base other = true := by
  obtain ⟨rfl, nonempty, isBin⟩ := splitBin_some binned
  rw [policy.same_iff, policy.fold_append, policy.fold_eq_map second] at same
  obtain ⟨front, back, rfl, frontSame, backSame⟩ := List.map_eq_append_iff.mp same.symm
  have bases : policy.fold base = policy.fold front := by
    rw [← frontSame, policy.fold_eq_map front]
  have bins : policy.same back bin = true := by
    rw [policy.same_iff, ← backSame, policy.fold_eq_map back]
  have filled : front ≠ [] := by
    rintro rfl
    rw [policy.fold_eq_map, policy.fold_eq_map] at bases
    exact nonempty (List.map_eq_nil_iff.mp bases)
  rw [isBin.eq_of_same bins]
  exact ⟨front, splitBin_append filled isBin, (policy.same_iff _ _).mpr bases⟩

theorem splitBin_of_same_unbinned {first second : Text} (same : policy.same first second = true)
    (unbinned : (splitBin first).2 = none) : splitBin second = (second, none) := by
  cases parts : splitBin second with
  | mk base bin =>
      cases bin with
      | none => rw [splitBin_none parts]
      | some bin =>
          obtain ⟨other, binned, -⟩ :=
            splitBin_of_same ((policy.same_comm second first).trans same) parts
          rw [binned] at unbinned
          cases unbinned

/-- At most one bin stands at the end of the name. -/
def SingleBin (name : Text) : Prop := (splitBin (splitBin name).1).2 = none

instance (name : Text) : Decidable (SingleBin name) :=
  inferInstanceAs (Decidable ((splitBin (splitBin name).1).2 = none))

/-- What is the same as the base of a name with a single bin has no bin. -/
theorem SingleBin.unbinned {name base other : Text} {bin : Option Text} (single : SingleBin name)
    (parts : splitBin name = (base, bin)) (same : policy.same base other = true) :
    splitBin other = (other, none) := by
  rw [SingleBin, parts] at single
  exact splitBin_of_same_unbinned same single

end Model

namespace Catenation

variable {policy : CasePolicy} (joint : Catenation) (inst : Text)

theorem model_of_bin {name base bin : Text} (binned : Model.splitBin name = (base, some bin)) :
    joint.model name inst = joint.node base inst ++ bin := by
  rw [model, binned]

theorem model_of_unbinned {name : Text} (unbinned : Model.splitBin name = (name, none)) :
    joint.model name inst = joint.node name inst := by
  rw [model, unbinned]

theorem node_ne_nil (name : Text) : joint.node name inst ≠ [] := by
  rw [node]
  cases joint.order <;> simp

theorem node_injective {first second : Text}
    (same : joint.node first inst = joint.node second inst) : first = second := by
  rw [node, node] at same
  cases order : joint.order with
  | nameFirst =>
      rw [order] at same
      exact List.append_cancel_right same
  | instanceFirst =>
      rw [order] at same
      exact (List.cons.inj (List.append_cancel_left same)).2

theorem same_node {first second : Text} (same : policy.same first second = true) :
    policy.same (joint.node first inst) (joint.node second inst) = true := by
  rw [policy.same_iff] at same ⊢
  rw [node, node]
  have tail (text : Text) : policy.fold (joint.separator :: text) =
      policy.foldChar joint.separator :: policy.fold text := by
    rw [policy.fold_eq_map, policy.fold_eq_map, List.map_cons]
  cases joint.order <;> simp only [policy.fold_append, tail, same]

/-- What is put behind a name does not matter to whether two names are the same. -/
theorem same_append {first second : Text} (same : policy.same first second = true)
    (behind : Text) : policy.same (first ++ behind) (second ++ behind) = true := by
  rw [policy.same_iff] at same ⊢
  rw [policy.fold_append, policy.fold_append, same]

/-- Models that are the same keep being so under their new names. -/
theorem same_model {first second : Text} (same : policy.same first second = true) :
    policy.same (joint.model first inst) (joint.model second inst) = true := by
  cases parts : Model.splitBin first with
  | mk base bin =>
      cases bin with
      | some bin =>
          obtain ⟨other, binned, bases⟩ := Model.splitBin_of_same same parts
          rw [joint.model_of_bin inst parts, joint.model_of_bin inst binned]
          exact same_append (joint.same_node inst bases) bin
      | none =>
          have own := Model.splitBin_none parts
          rw [own] at parts
          have others : Model.splitBin second = (second, none) :=
            Model.splitBin_of_same_unbinned same (congrArg Prod.snd parts)
          rw [joint.model_of_unbinned inst parts, joint.model_of_unbinned inst others]
          exact joint.same_node inst same

theorem splitBin_model {name base bin : Text} (binned : Model.splitBin name = (base, some bin)) :
    Model.splitBin (joint.model name inst) = (joint.node base inst, some bin) := by
  rw [joint.model_of_bin inst binned]
  exact Model.splitBin_append (joint.node_ne_nil inst base) (Model.splitBin_some binned).2.2

end Catenation

namespace ModelAliases

variable {policy : CasePolicy}

/-! ## What is recorded last -/

/-- The spelling of a model in the last declaration of it. -/
def lastSpelling? (policy : CasePolicy) (names : List Text) (name : Text) : Option Text :=
  (names.filter fun other => policy.same other name).getLast?

/-- No later declaration spells the model in another way. -/
def InForce (policy : CasePolicy) (names : List Text) (name : Text) : Prop :=
  lastSpelling? policy names name = some name

theorem mem_of_lastSpelling? {names : List Text} {name last : Text}
    (found : lastSpelling? policy names name = some last) :
    last ∈ names ∧ policy.same last name = true :=
  List.mem_filter.mp (List.mem_of_getLast? found)

theorem lastSpelling?_eq_none_iff {names : List Text} {name : Text} :
    lastSpelling? policy names name = none ↔ ∀ other ∈ names, policy.same other name = false := by
  rw [lastSpelling?, List.getLast?_eq_none_iff, List.filter_eq_nil_iff]
  simp only [Bool.not_eq_true]

theorem lastSpelling?_congr {first second : Text} (same : policy.same first second = true)
    (names : List Text) : lastSpelling? policy names first = lastSpelling? policy names second := by
  have alike (other : Text) : policy.same other first = policy.same other second := by
    rw [policy.same_comm other, policy.same_comm other, policy.same_congr same]
  rw [lastSpelling?, lastSpelling?]
  simp only [alike]

/-- The last spelling of a declared model is in force. -/
theorem inForce_of_lastSpelling? {names : List Text} {name last : Text}
    (found : lastSpelling? policy names name = some last) : InForce policy names last :=
  (lastSpelling?_congr (mem_of_lastSpelling? found).2 names).trans found

theorem exists_lastSpelling? {names : List Text} {declared name : Text}
    (member : declared ∈ names) (same : policy.same declared name = true) :
    ∃ last, lastSpelling? policy names name = some last := by
  cases found : lastSpelling? policy names name with
  | some last => exact ⟨last, rfl⟩
  | none =>
      rw [lastSpelling?_eq_none_iff.mp found declared member] at same
      cases same

theorem direct?_insert (aliases : ModelAliases policy) (name image other : Text) :
    (aliases.insert name image).direct? other =
      if policy.same name other then some image else aliases.direct? other := by
  rw [direct?, insert, find?_put]
  split <;> rfl

/-- The last spelling decides what a model is called, and a name that is not recorded keeps the
alias it had. -/
theorem direct?_record (rename : Text → Text) (aliases : ModelAliases policy) (names : List Text)
    (name : Text) :
    (aliases.record rename names).direct? name =
      ((lastSpelling? policy names name).map rename).or (aliases.direct? name) := by
  induction names using List.reverseRecOn with
  | nil => rfl
  | append_singleton names last ih =>
      have later : aliases.record rename (names ++ [last]) =
          (aliases.record rename names).insert last (rename last) := by
        rw [record, List.foldl_append]
        rfl
      rw [later, direct?_insert, ih, lastSpelling?, lastSpelling?, List.filter_append]
      by_cases same : policy.same last name = true
      · simp [same]
      · simp [same]

theorem distinct_record (rename : Text → Text) {aliases : ModelAliases policy}
    (distinct : aliases.Distinct) (names : List Text) :
    (aliases.record rename names).Distinct := by
  induction names generalizing aliases with
  | nil => exact distinct
  | cons name rest ih => exact ih (nodup_put name (rename name) distinct)

/-- Of distinct entries each is found under its own name. -/
theorem direct?_of_mem {aliases : ModelAliases policy} (distinct : aliases.Distinct)
    {entry : Text × Text} (member : entry ∈ aliases.entries) :
    aliases.direct? entry.1 = some entry.2 := by
  have found : (aliases.entries.find? fun other => policy.same other.1 entry.1).isSome = true :=
    List.find?_isSome.mpr ⟨entry, member, policy.same_self entry.1⟩
  obtain ⟨other, front⟩ := Option.isSome_iff_exists.mp found
  have same : policy.same other.1 entry.1 = true := by simpa using List.find?_some front
  have only : other = entry := List.inj_on_of_nodup_map distinct
    (List.mem_of_find?_eq_some front) member ((policy.same_iff _ _).mp same)
  rw [direct?, front, only]
  rfl

theorem binnedBase?_eq_some_iff {reference image : Text} {entry : Text × Text} :
    binnedBase? policy reference entry = some image ↔
      ∃ base bin, Model.splitBin entry.1 = (base, some bin) ∧
        policy.same base reference = true ∧ (Model.splitBin entry.2).1 = image := by
  rw [binnedBase?]
  cases parts : Model.splitBin entry.1 with
  | mk base bin => cases bin <;> simp

/-- The bases that a reference leads to are what its binned models are called without bins. -/
theorem mem_binnedBases_iff (aliases : ModelAliases policy) {reference image : Text} :
    image ∈ aliases.binnedBases reference ↔
      ∃ entry ∈ aliases.entries, ∃ base bin, Model.splitBin entry.1 = (base, some bin) ∧
        policy.same base reference = true ∧ (Model.splitBin entry.2).1 = image := by
  rw [binnedBases_eq, mem_foldl_addBase, List.mem_filterMap]
  simp only [List.not_mem_nil, false_or, binnedBase?_eq_some_iff]

theorem nodup_binnedBases (aliases : ModelAliases policy) (reference : Text) :
    (aliases.binnedBases reference).Nodup := by
  rw [binnedBases_eq]
  exact nodup_foldl_addBase _ List.nodup_nil

theorem eq_singleton_of_nodup {bases : List Text} {base : Text} (distinct : bases.Nodup)
    (member : base ∈ bases) (all : ∀ other ∈ bases, other = base) : bases = [base] := by
  refine List.perm_singleton.mp ((List.perm_ext_iff_of_nodup distinct (by simp)).mpr ?_)
  intro other
  rw [List.mem_singleton]
  exact ⟨all other, fun same => same ▸ member⟩

variable {known : ModelAliases policy} {names : List Text} (seeded : known.Seeded names)

include seeded

/-- Over aliases that keep declared names the recorded names are all there are. -/
theorem direct?_record_of_seeded (rename : Text → Text) (name : Text) :
    (known.record rename names).direct? name =
      (lastSpelling? policy names name).map rename := by
  rw [direct?_record]
  cases last : lastSpelling? policy names name with
  | some _ => rfl
  | none =>
      refine Option.map_eq_none_iff.mpr (List.find?_eq_none.mpr ?_)
      intro entry member same
      have other := lastSpelling?_eq_none_iff.mp last entry.1 (seeded.kept entry member).2
      rw [other] at same
      cases same

theorem exists_lastSpelling?_of_mem (rename : Text → Text) {entry : Text × Text}
    (member : entry ∈ (known.record rename names).entries) :
    ∃ last, lastSpelling? policy names entry.1 = some last ∧ rename last = entry.2 := by
  have direct := direct?_of_mem (distinct_record rename seeded.distinct names) member
  rw [direct?_record_of_seeded seeded] at direct
  exact Option.map_eq_some_iff.mp direct

theorem exists_entry_of_inForce (rename : Text → Text) {name : Text}
    (inForce : InForce policy names name) :
    ∃ entry ∈ (known.record rename names).entries,
      policy.same entry.1 name = true ∧ entry.2 = rename name := by
  have direct : (known.record rename names).direct? name = some (rename name) := by
    rw [direct?_record_of_seeded seeded, inForce]
    rfl
  obtain ⟨entry, front, renamed⟩ := Option.map_eq_some_iff.mp direct
  have same : policy.same entry.1 name = true := by simpa using List.find?_some front
  exact ⟨entry, List.mem_of_find?_eq_some front, same, renamed⟩

variable (joint : Catenation) (inst : Text)

/-- The bases that a reference without a bin leads to are the new names of those that models in
force have in front of their bins. -/
theorem mem_binnedBases_record {reference image : Text} :
    image ∈ (known.record (joint.model · inst) names).binnedBases reference ↔
      ∃ name base bin, InForce policy names name ∧ Model.splitBin name = (base, some bin) ∧
        policy.same base reference = true ∧ image = joint.node base inst := by
  rw [mem_binnedBases_iff]
  constructor
  · rintro ⟨entry, member, front, bin, parts, matched, based⟩
    obtain ⟨name, last, renamed⟩ :=
      exists_lastSpelling?_of_mem seeded (joint.model · inst) member
    obtain ⟨base, binned, bases⟩ := Model.splitBin_of_same
      ((policy.same_comm _ _).trans (mem_of_lastSpelling? last).2) parts
    refine ⟨name, base, bin, inForce_of_lastSpelling? last, binned, ?_, ?_⟩
    · rw [← policy.same_congr bases]
      exact matched
    · rw [← based, ← renamed, joint.splitBin_model inst binned]
  · rintro ⟨name, base, bin, inForce, binned, matched, rfl⟩
    obtain ⟨entry, member, same, renamed⟩ :=
      exists_entry_of_inForce seeded (joint.model · inst) inForce
    obtain ⟨other, parts, bases⟩ :=
      Model.splitBin_of_same ((policy.same_comm _ _).trans same) binned
    refine ⟨entry, member, other, bin, parts, ?_, ?_⟩
    · exact (policy.same_congr bases reference).symm.trans matched
    · rw [renamed, joint.splitBin_model inst binned]

omit seeded

/-! ## The three ways to refer -/

/-- A reference to a base that the models in force spell in two ways, and that is no model. -/
structure Torn (policy : CasePolicy) (names : List Text) (reference : Text) : Prop where
  undeclared : ∀ name ∈ names, policy.same name reference = false
  spellings : ∃ first second base other bin otherBin,
    InForce policy names first ∧ InForce policy names second ∧
    Model.splitBin first = (base, some bin) ∧ Model.splitBin second = (other, some otherBin) ∧
    policy.same base reference = true ∧ policy.same other reference = true ∧ base ≠ other

theorem not_torn_sensitive (names : List Text) (reference : Text) :
    ¬ Torn .sensitive names reference := by
  rintro ⟨-, first, second, base, other, bin, otherBin, -, -, -, -, same, otherSame, differ⟩
  exact differ ((beq_iff_eq.mp same).trans (beq_iff_eq.mp otherSame).symm)

/-- The base of a name with a single bin has no bin of its own. -/
theorem Torn.unbinned {reference : Text} (torn : Torn policy names reference)
    (single : ∀ name ∈ names, Model.SingleBin name) :
    Model.splitBin reference = (reference, none) := by
  obtain ⟨first, -, base, -, bin, -, inForce, -, binned, -, same, -⟩ := torn.spellings
  exact (single first (mem_of_lastSpelling? inForce).1).unbinned binned same

include seeded

/-- A declared reference has the new name of the last spelling. -/
theorem lookup_of_declared {reference last : Text}
    (found : lastSpelling? policy names reference = some last) :
    (known.record (joint.model · inst) names).lookup reference =
      .ok (some (joint.model last inst)) := by
  rw [lookup, direct?_record_of_seeded seeded, found]
  rfl

/-- A reference with a bin that is not declared leads to the model without it. -/
theorem lookup_of_bin {reference base bin : Text}
    (undeclared : lastSpelling? policy names reference = none)
    (binned : Model.splitBin reference = (base, some bin)) :
    (known.record (joint.model · inst) names).lookup reference =
      .ok ((lastSpelling? policy names base).map fun last => joint.model last inst ++ bin) := by
  rw [lookup, direct?_record_of_seeded seeded, undeclared, binned]
  dsimp only [Option.map_none]
  rw [direct?_record_of_seeded seeded, Option.map_map]
  rfl

/-- A reference without a bin that is not declared leads to what all models in force call their
base, if they agree on it. -/
theorem lookup_of_base {reference : Text}
    (undeclared : lastSpelling? policy names reference = none)
    (unbinned : Model.splitBin reference = (reference, none)) :
    (known.record (joint.model · inst) names).lookup reference =
      match (known.record (joint.model · inst) names).binnedBases reference with
      | [] => .ok none
      | [only] => .ok (some only)
      | several => .error (.ambiguousModel reference several) := by
  rw [lookup, direct?_record_of_seeded seeded, undeclared, unbinned]
  rfl

theorem lookup_of_torn {reference : Text} (torn : Torn policy names reference)
    (single : ∀ name ∈ names, Model.SingleBin name) :
    ∃ several, (known.record (joint.model · inst) names).lookup reference =
      .error (.ambiguousModel reference several) := by
  rw [lookup_of_base seeded joint inst (lastSpelling?_eq_none_iff.mpr torn.undeclared)
    (torn.unbinned single)]
  obtain ⟨-, first, second, base, other, bin, otherBin, here, there, binned, otherBinned, same,
    otherSame, differ⟩ := torn
  have one := (mem_binnedBases_record seeded joint inst).mpr
    ⟨first, base, bin, here, binned, same, rfl⟩
  have two := (mem_binnedBases_record seeded joint inst).mpr
    ⟨second, other, otherBin, there, otherBinned, otherSame, rfl⟩
  split
  next nothing =>
    rw [nothing] at one
    cases one
  next only alone =>
    rw [alone, List.mem_singleton] at one two
    exact absurd (joint.node_injective inst (one.trans two.symm)) differ
  next several _ _ => exact ⟨_, rfl⟩

theorem lookup_of_not_refers {reference : Text}
    (stranger : ¬ Model.Refers policy names reference) :
    (known.record (joint.model · inst) names).lookup reference = .ok none := by
  have undeclared : lastSpelling? policy names reference = none := by
    refine lastSpelling?_eq_none_iff.mpr fun name member => Bool.eq_false_iff.mpr ?_
    exact fun same => stranger (.exact member same)
  cases parts : Model.splitBin reference with
  | mk base bin =>
      cases bin with
      | some bin =>
          rw [lookup_of_bin seeded joint inst undeclared parts,
            lastSpelling?_eq_none_iff.mpr fun name member => Bool.eq_false_iff.mpr fun same =>
              stranger (.bin member parts same)]
          rfl
      | none =>
          rw [Model.splitBin_none parts] at parts
          have nothing : (known.record (joint.model · inst) names).binnedBases reference = [] := by
            refine List.eq_nil_iff_forall_not_mem.mpr fun image member => ?_
            obtain ⟨name, base, bin, inForce, binned, same, -⟩ :=
              (mem_binnedBases_record seeded joint inst).mp member
            exact stranger (.base (mem_of_lastSpelling? inForce).1 binned same)
          rw [lookup_of_base seeded joint inst undeclared parts, nothing]

/-- If one model in force has the base that is referred to, all such models spell it alike,
unless the reference is torn. -/
theorem binnedBases_of_not_torn {reference name base bin : Text}
    (undeclared : ∀ name ∈ names, policy.same name reference = false)
    (whole : ¬ Torn policy names reference) (inForce : InForce policy names name)
    (binned : Model.splitBin name = (base, some bin)) (same : policy.same base reference = true) :
    (known.record (joint.model · inst) names).binnedBases reference = [joint.node base inst] := by
  have member := (mem_binnedBases_record seeded joint inst).mpr
    ⟨name, base, bin, inForce, binned, same, rfl⟩
  refine eq_singleton_of_nodup (nodup_binnedBases _ _) member fun image listed => ?_
  obtain ⟨other, otherBase, otherBin, otherInForce, otherBinned, otherSame, rfl⟩ :=
    (mem_binnedBases_record seeded joint inst).mp listed
  by_contra differ
  exact whole ⟨undeclared, other, name, otherBase, base, otherBin, bin, otherInForce, inForce,
    otherBinned, binned, otherSame, same, fun equal => differ (congrArg (joint.node · inst) equal)⟩

/-- A reference to a model comes out as the name it would get itself, unless it is torn. -/
theorem lookup_of_refers {reference : Text} (refers : Model.Refers policy names reference)
    (whole : ¬ Torn policy names reference) (single : ∀ name ∈ names, Model.SingleBin name)
    (singleReference : Model.SingleBin reference) :
    ∃ image, (known.record (joint.model · inst) names).lookup reference = .ok (some image) ∧
      policy.same image (joint.model reference inst) = true := by
  cases declared : lastSpelling? policy names reference with
  | some last =>
      exact ⟨_, lookup_of_declared seeded joint inst declared,
        joint.same_model inst (mem_of_lastSpelling? declared).2⟩
  | none =>
      have undeclared := lastSpelling?_eq_none_iff.mp declared
      cases refers with
      | exact member same =>
          rw [undeclared _ member] at same
          cases same
      | @bin model base bin member binned same =>
          obtain ⟨last, found⟩ := exists_lastSpelling? member same
          have bases := (policy.same_comm base last).trans (mem_of_lastSpelling? found).2
          have unbinned := singleReference.unbinned binned bases
          refine ⟨joint.model last inst ++ bin, ?_, ?_⟩
          · rw [lookup_of_bin seeded joint inst declared binned, found]
            rfl
          · rw [joint.model_of_unbinned inst unbinned, joint.model_of_bin inst binned]
            exact Catenation.same_append
              (joint.same_node inst ((policy.same_comm last base).trans bases)) bin
      | @base model base bin member binned same =>
          have unbinned := (single model member).unbinned binned same
          obtain ⟨last, found⟩ := exists_lastSpelling? member (policy.same_self model)
          obtain ⟨other, otherBinned, bases⟩ := Model.splitBin_of_same
            ((policy.same_comm model last).trans (mem_of_lastSpelling? found).2) binned
          have otherSame := (policy.same_congr bases reference).symm.trans same
          have alone := binnedBases_of_not_torn seeded joint inst undeclared whole
            (inForce_of_lastSpelling? found) otherBinned otherSame
          rw [joint.model_of_unbinned inst unbinned,
            lookup_of_base seeded joint inst declared unbinned, alone]
          exact ⟨_, rfl, joint.same_node inst otherSame⟩

end ModelAliases

namespace Renamer

open ModelAliases

variable {config : Config} (renamer : Renamer config)

/-- After the model cards of a body have recorded their new names, a reference with at most one
bin resolves just in case it refers to one of the models, and then to the name it would get
itself.  It is ambiguous just in case it is torn, which takes a policy that ignores letter case. -/
theorem lookup_agrees_with_renaming {known : ModelAliases config.casePolicy} {deck : Deck}
    {reference : Text} (seeded : known.Seeded (deck.modelNames config.directives))
    (single : ∀ name ∈ deck.modelNames config.directives, Model.SingleBin name)
    (singleReference : Model.SingleBin reference) :
    let names := deck.modelNames config.directives
    let aliases := (renamer.modelCards known deck).1
    (Model.Refers config.casePolicy names reference → ¬ Torn config.casePolicy names reference →
      ∃ image, aliases.lookup reference = .ok (some image) ∧
        config.casePolicy.same image (renamer.joint.model reference renamer.inst) = true) ∧
    (¬ Model.Refers config.casePolicy names reference → aliases.lookup reference = .ok none) ∧
    ((∃ fault, aliases.lookup reference = .error fault) ↔
      Torn config.casePolicy names reference) ∧
    (config.casePolicy = .sensitive → ¬ Torn config.casePolicy names reference) := by
  intro names aliases
  have recorded : aliases = known.record (renamer.joint.model · renamer.inst) names :=
    renamer.fst_modelCards_eq known deck
  rw [recorded]
  have resolves (refers : Model.Refers config.casePolicy names reference)
      (whole : ¬ Torn config.casePolicy names reference) :=
    lookup_of_refers seeded renamer.joint renamer.inst refers whole single singleReference
  have unknown (stranger : ¬ Model.Refers config.casePolicy names reference) :=
    lookup_of_not_refers seeded renamer.joint renamer.inst stranger
  refine ⟨resolves, unknown, ⟨?_, ?_⟩, ?_⟩
  · rintro ⟨fault, failed⟩
    by_contra whole
    by_cases refers : Model.Refers config.casePolicy names reference
    · obtain ⟨image, resolved, -⟩ := resolves refers whole
      rw [failed] at resolved
      cases resolved
    · rw [unknown refers] at failed
      cases failed
  · intro torn
    obtain ⟨several, ambiguous⟩ :=
      lookup_of_torn seeded renamer.joint renamer.inst torn single
    exact ⟨_, ambiguous⟩
  · intro sensitive
    rw [sensitive]
    exact not_torn_sensitive names reference

/-- Two bins of one base, which the reference spells in another letter case. -/
theorem lookup_agrees_with_renaming_bins :
    let renamer : Renamer ({} : Config) := ⟨.standard, "x1", ⟨[]⟩, .empty, .empty⟩
    let known : ModelAliases ({} : Config).casePolicy := ⟨[("nm.1", "nm.1"), ("pm", "pm")]⟩
    let deck : Deck := [{ text := ".model nm.1 nmos" }, { text := ".model nm.2 nmos" },
      { text := ".model pm pmos" }]
    let aliases := (renamer.modelCards known deck).1
    ¬ Torn .insensitive (deck.modelNames ({} : Config).directives) "NM" ∧
      (aliases.lookup "NM").toOption = some (some ("nm_x1" : Text)) ∧
      ∃ image, aliases.lookup "NM" = .ok (some image) ∧
        CasePolicy.same .insensitive image (renamer.joint.model "NM" renamer.inst) = true := by
  intro renamer known deck aliases
  have distinct : known.Distinct := by
    rw [Distinct]
    decide +kernel
  have single : Model.SingleBin "NM" := by decide +kernel
  have laws := renamer.lookup_agrees_with_renaming
    (⟨distinct, by decide +kernel⟩ : known.Seeded (deck.modelNames ({} : Config).directives))
    (by decide +kernel) single
  have resolved : (aliases.lookup "NM").toOption = some (some ("nm_x1" : Text)) := by
    decide +kernel
  have whole : ¬ Torn .insensitive (deck.modelNames ({} : Config).directives) "NM" := by
    intro torn
    obtain ⟨fault, failed⟩ := laws.2.2.1.mpr torn
    rw [failed] at resolved
    cases resolved
  have binned : Model.splitBin "nm.2" = (("nm" : Text), some (".2" : Text)) := by decide +kernel
  have refers : Model.Refers .insensitive (deck.modelNames ({} : Config).directives) "NM" :=
    .base (by decide +kernel) binned (by decide +kernel)
  exact ⟨whole, resolved, laws.1 refers whole⟩

/-- Bins of one base that are spelled in two ways make a reference to the base ambiguous, although
letter case is ignored. -/
theorem lookup_of_two_spellings :
    let renamer : Renamer ({} : Config) := ⟨.standard, "x1", ⟨[]⟩, .empty, .empty⟩
    let deck : Deck := [{ text := ".model NCH.1 nmos" }, { text := ".model nch.2 nmos" }]
    let names := deck.modelNames ({} : Config).directives
    (∀ name ∈ names, Model.SingleBin name) ∧ Model.Refers .insensitive names "nch" ∧
      ∃ several, (renamer.modelCards {} deck).1.lookup "nch" =
        .error (.ambiguousModel "nch" several) := by
  intro renamer deck names
  have single : ∀ name ∈ names, Model.SingleBin name := by decide +kernel
  have upper : Model.splitBin "NCH.1" = (("NCH" : Text), some (".1" : Text)) := by decide +kernel
  have lower : Model.splitBin "nch.2" = (("nch" : Text), some (".2" : Text)) := by decide +kernel
  have torn : Torn .insensitive names "nch" := by
    refine ⟨by decide +kernel, _, _, _, _, _, _, ?_, ?_, upper, lower, ?_⟩
    · rw [InForce]
      decide +kernel
    · rw [InForce]
      decide +kernel
    · decide +kernel
  have empty : ({} : ModelAliases .insensitive).Seeded names :=
    ⟨List.nodup_nil, fun _ member => nomatch member⟩
  refine ⟨single, .base (by decide +kernel) lower (by decide +kernel), ?_⟩
  rw [renamer.fst_modelCards_eq]
  exact lookup_of_torn empty renamer.joint renamer.inst torn single

end Renamer

end Netlist

import Netlist.Proofs.Body
import Netlist.Proofs.Word

/-!
# Aliases and declared models

A reference that the aliases of a scope resolve comes out as the name of a
model that the aliases lead to, possibly but for a bin.  A scope starts with
aliases that keep every name; when its body is renamed, every model card
replaces its own alias, so none of the first ones is left.
-/

namespace Netlist

namespace Model

theorem splitBin_none {name base : Text} (unbinned : splitBin name = (base, none)) :
    base = name := by
  unfold splitBin at unbinned
  split at unbinned
  · cases unbinned
    rfl
  · split at unbinned
    · cases unbinned
    · cases unbinned
      rfl

/-- A bin is a point with digits behind it. -/
def IsBin (bin : Text) : Prop :=
  ∃ digits : Text, bin = '.' :: digits ∧ digits ≠ [] ∧ digits.all Char.isDigit = true

theorem eq_of_cutAt {mark : Char} {text front back : Text}
    (cut : Text.cutAt mark text = some (front, back)) : text = front ++ mark :: back := by
  induction text generalizing front with
  | nil => cases cut
  | cons c rest ih =>
      rw [Text.cutAt] at cut
      split at cut
      next here =>
        cases cut
        rw [here]
        rfl
      · obtain ⟨⟨before, behind⟩, later, same⟩ := Option.map_eq_some_iff.mp cut
        cases same
        rw [ih later]
        rfl

/-- A name that has a bin is a base with the bin behind it. -/
theorem splitBin_some {name base bin : Text} (binned : splitBin name = (base, some bin)) :
    name = base ++ bin ∧ base ≠ [] ∧ IsBin bin := by
  unfold splitBin at binned
  split at binned
  · cases binned
  next front digits cut =>
    split at binned
    next fits =>
      cases binned
      simp only [Bool.and_eq_true, Bool.not_eq_eq_eq_not, Bool.not_true,
        List.isEmpty_eq_false_iff] at fits
      obtain ⟨⟨back, turned⟩, found, same⟩ := Option.map_eq_some_iff.mp cut
      cases same
      refine ⟨?_, fits.1.1, back.reverse, rfl, fits.1.2, fits.2⟩
      rw [← List.reverse_reverse name, eq_of_cutAt found]
      simp
    · cases binned

theorem cutAt_append {mark : Char} {front : Text} (absent : mark ∉ front) (back : Text) :
    Text.cutAt mark (front ++ mark :: back) = some (front, back) := by
  induction front with
  | nil => simp [Text.cutAt]
  | cons c rest ih =>
      have other : c ≠ mark := fun same => absent (same ▸ List.mem_cons_self ..)
      have later : mark ∉ rest := fun member => absent (List.mem_cons_of_mem _ member)
      rw [List.cons_append, Text.cutAt, if_neg other, ih later]
      rfl

/-- A bin that is put behind a name can be split off again. -/
theorem splitBin_append {base bin : Text} (nonempty : base ≠ []) (isBin : IsBin bin) :
    splitBin (base ++ bin) = (base, some bin) := by
  obtain ⟨digits, rfl, someDigits, numeric⟩ := isBin
  have pointless : '.' ∉ digits.reverse := by
    intro member
    have digit := List.all_eq_true.mp numeric '.' (List.mem_reverse.mp member)
    exact absurd digit (by decide)
  have cut : cutLastPoint (base ++ '.' :: digits) = some (base, digits) := by
    have turned : (base ++ '.' :: digits).reverse = digits.reverse ++ '.' :: base.reverse := by
      simp
    rw [cutLastPoint, turned, cutAt_append pointless]
    simp
  unfold splitBin
  rw [cut]
  simp [nonempty, someDigits, numeric]

/-- A reference names one of the models: exactly, or it is the base of a binned one, or it has
a bin behind the name of one. -/
inductive Refers (policy : CasePolicy) (models : List Text) (reference : Text) : Prop where
  | exact {model : Text} (declared : model ∈ models)
      (same : policy.same model reference = true)
  | base {model base bin : Text} (declared : model ∈ models)
      (binned : splitBin model = (base, some bin)) (same : policy.same base reference = true)
  | bin {model base bin : Text} (declared : model ∈ models)
      (binned : splitBin reference = (base, some bin)) (same : policy.same model base = true)

end Model

namespace CasePolicy

variable (policy : CasePolicy)

theorem same_self (name : Text) : policy.same name name = true :=
  (policy.same_iff name name).mpr rfl

theorem same_comm (first second : Text) : policy.same first second = policy.same second first := by
  rw [Bool.eq_iff_iff, same_iff, same_iff]
  exact eq_comm

/-- Names that are the same are the same as the same names. -/
theorem same_congr {first second : Text} (same : policy.same first second = true) (other : Text) :
    policy.same first other = policy.same second other := by
  rw [Bool.eq_iff_iff, same_iff, same_iff, (policy.same_iff _ _).mp same]

end CasePolicy

namespace ModelAliases

variable {policy : CasePolicy}

/-- Every alias leads to one of the models. -/
def LeadsTo (aliases : ModelAliases policy) (models : List Text) : Prop :=
  ∀ entry ∈ aliases.entries, entry.2 ∈ models

theorem LeadsTo.direct? {aliases : ModelAliases policy} {models : List Text}
    (leads : aliases.LeadsTo models) {name image : Text}
    (found : aliases.direct? name = some image) : image ∈ models := by
  obtain ⟨entry, listed, rfl⟩ := Option.map_eq_some_iff.mp found
  exact leads entry (List.mem_of_find?_eq_some listed)

theorem mem_addBase {bases : List Text} {base other : Text}
    (member : other ∈ addBase bases base) : other ∈ bases ∨ other = base := by
  unfold addBase at member
  split at member
  · exact .inl member
  · simpa using member

/-- A common base is the base of what some alias leads to. -/
theorem exists_of_mem_binnedBases {aliases : ModelAliases policy} {base other : Text}
    (member : other ∈ aliases.binnedBases base) :
    ∃ entry ∈ aliases.entries, (Model.splitBin entry.2).1 = other := by
  unfold binnedBases at member
  have gathered : other ∈ ([] : List Text) ∨
      ∃ entry ∈ aliases.entries, (Model.splitBin entry.2).1 = other := by
    generalize ([] : List Text) = bases at member ⊢
    generalize aliases.entries = entries at member ⊢
    induction entries generalizing bases with
    | nil => exact .inl member
    | cons entry rest ih =>
        rcases ih _ member with before | ⟨later, inside, same⟩
        · dsimp only at before
          split at before
          · split at before
            · rcases mem_addBase before with known | rfl
              · exact .inl known
              · exact .inr ⟨entry, List.mem_cons_self .., rfl⟩
            · exact .inl before
          · exact .inl before
        · exact .inr ⟨later, List.mem_cons_of_mem _ inside, same⟩
  rcases gathered with impossible | found
  · cases impossible
  · exact found

/-- What a reference resolves to is a word that names a model the aliases lead to. -/
theorem LeadsTo.refers {aliases : ModelAliases policy} {models : List Text}
    (leads : aliases.LeadsTo models) (words : ∀ model ∈ models, Word.Solid model)
    {name image : Text} (solid : Word.Solid name)
    (found : aliases.lookup name = .ok (some image)) :
    Model.Refers policy models image ∧ Word.Solid image := by
  unfold lookup at found
  split at found
  next direct directly =>
    cases found
    have declared := leads.direct? directly
    exact ⟨.exact declared (policy.same_self _), words _ declared⟩
  · split at found
    next base bin split =>
      obtain ⟨model, directly, rfl⟩ := Option.map_eq_some_iff.mp (Except.ok.inj found)
      have declared := leads.direct? directly
      obtain ⟨whole, -, isBin⟩ := Model.splitBin_some split
      have inner : ∀ c ∈ bin, Word.isInner c = true := by
        intro c member
        apply solid.inner
        rw [whole]
        exact List.mem_append_right _ member
      exact ⟨.bin declared (Model.splitBin_append (words _ declared).nonempty isBin)
        (policy.same_self _), (words _ declared).append inner⟩
    next base split =>
      split at found
      · cases found
      next only alone =>
        cases found
        have common : image ∈ aliases.binnedBases base := alone ▸ List.mem_singleton_self image
        obtain ⟨entry, inside, rfl⟩ := exists_of_mem_binnedBases common
        have declared := leads entry inside
        cases binned : Model.splitBin entry.2 with
        | mk front bin =>
            cases bin with
            | none =>
                rw [Model.splitBin_none binned]
                exact ⟨.exact declared (policy.same_self _), words _ declared⟩
            | some bin =>
                obtain ⟨whole, nonempty, -⟩ := Model.splitBin_some binned
                refine ⟨.base declared binned (policy.same_self _), nonempty, ?_⟩
                intro c member
                apply (words _ declared).inner
                rw [whole]
                exact List.mem_append_left _ member
      · cases found

/-! ## Entries -/

/-- No two entries have the same name. -/
def Distinct (aliases : ModelAliases policy) : Prop :=
  (aliases.entries.map fun entry => policy.fold entry.1).Nodup

theorem fold_mem_of_mem_put {name image : Text} {entries : List (Text × Text)} {key : Text}
    (member : key ∈ (put policy name image entries).map fun entry => policy.fold entry.1) :
    key ∈ (entries.map fun entry => policy.fold entry.1) ∨ key = policy.fold name := by
  induction entries with
  | nil => exact .inr (List.mem_singleton.mp member)
  | cons first rest ih =>
      rw [put] at member
      split at member
      · exact .inl member
      · rcases List.mem_cons.mp member with rfl | later
        · exact .inl (List.mem_cons_self ..)
        · rcases ih later with known | new
          · exact .inl (List.mem_cons_of_mem _ known)
          · exact .inr new

theorem nodup_put (name image : Text) {entries : List (Text × Text)}
    (distinct : (entries.map fun entry => policy.fold entry.1).Nodup) :
    ((put policy name image entries).map fun entry => policy.fold entry.1).Nodup := by
  induction entries with
  | nil => simp [put]
  | cons first rest ih =>
      rw [List.map_cons, List.nodup_cons] at distinct
      rw [put]
      split
      · exact List.nodup_cons.mpr distinct
      next other =>
        refine List.nodup_cons.mpr ⟨?_, ih distinct.2⟩
        intro member
        rcases fold_mem_of_mem_put member with known | new
        · exact distinct.1 known
        · exact other ((policy.same_iff _ _).mpr new)

/-- Aliases that keep the names they were declared with. -/
structure Seeded (aliases : ModelAliases policy) (names : List Text) : Prop where
  distinct : aliases.Distinct
  kept : ∀ entry ∈ aliases.entries, entry.1 = entry.2 ∧ entry.1 ∈ names

theorem Seeded.seed {aliases : ModelAliases policy} {names : List Text}
    (seeded : aliases.Seeded names) {name : Text} (declared : name ∈ names) :
    (aliases.seed name).Seeded names := by
  unfold ModelAliases.seed
  split
  · exact seeded
  next unknown =>
    have absent := List.find?_eq_none.mp (Option.map_eq_none_iff.mp unknown)
    constructor
    · unfold Distinct
      rw [List.map_append, List.nodup_append]
      refine ⟨seeded.distinct, by simp, ?_⟩
      intro key known other last same
      obtain ⟨entry, inside, rfl⟩ := List.mem_map.mp known
      apply absent entry inside
      rw [policy.same_iff, same]
      simpa using last
    · intro entry member
      rcases List.mem_append.mp member with before | last
      · exact seeded.kept entry before
      · rw [List.mem_singleton.mp last]
        exact ⟨rfl, declared⟩

theorem Seeded.foldl_seed {aliases : ModelAliases policy} {names : List Text}
    (seeded : aliases.Seeded names) {more : List Text} (declared : ∀ name ∈ more, name ∈ names) :
    (more.foldl .seed aliases).Seeded names := by
  induction more generalizing aliases with
  | nil => exact seeded
  | cons name rest ih =>
      apply ih (seeded.seed (declared name (List.mem_cons_self ..)))
      intro other member
      exact declared other (List.mem_cons_of_mem _ member)

/-- The aliases of a frame that was empty before its models were declared. -/
theorem seeded_foldl_seed (names : List Text) :
    (names.foldl .seed ({} : ModelAliases policy)).Seeded names := by
  have empty : ({} : ModelAliases policy).Seeded names := by
    refine ⟨List.nodup_nil, ?_⟩
    intro entry member
    cases member
  exact empty.foldl_seed fun name member => member

end ModelAliases

namespace Renamer

variable {config : Config} (renamer : Renamer config)

/-- A live card that declares the model `name`, which is called `image` now. -/
structure Declares (card : Card) (name image : Text) : Prop where
  live : card.isLive = true
  model : config.directives.isModel card.keyword = true
  exists_line : ∃ line, renamer.modelLine? card.text = some (name, image, line)

end Renamer

end Netlist

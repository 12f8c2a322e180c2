import Mathlib.Data.List.Nodup
import Mathlib.Data.List.Perm.Subperm
import Netlist.Proofs.DeviceWords
import Netlist.Proofs.Hygiene
import Netlist.Proofs.Outline

/-!
# Repeated formals

A formal that repeats an earlier one gets the first of its variants that no
other formal has, and a source that ties it to the name it repeats.  The new
formals are pairwise different, so each of them is connected to the actual in
its place, and each source joins the actuals of the two formals that had one
name.
-/

namespace Netlist

theorem Text.ofNat_injective {first second : Nat} (same : ofNat first = ofNat second) :
    first = second := by
  have value (n : Nat) : Nat.ofDigitChars 10 (ofNat n) 0 = n :=
    Nat.ofDigitChars_toDigits (by decide) (by decide)
  calc first = Nat.ofDigitChars 10 (ofNat first) 0 := (value first).symm
    _ = Nat.ofDigitChars 10 (ofNat second) 0 := by rw [same]
    _ = second := value second

namespace CasePolicy

variable (policy : CasePolicy)

/-- A numeral has no letters. -/
theorem fold_ofNat (n : Nat) : policy.fold (Text.ofNat n) = Text.ofNat n := by
  cases policy with
  | sensitive => rfl
  | insensitive =>
      calc (Text.ofNat n).map Char.toLower = (Text.ofNat n).map id := by
            apply List.map_congr_left
            intro c member
            have digit := Renamer.isDigit_of_mem_ofNat member
            exact Text.toLower_of_not_isAlpha (Token.not_isAlpha_of_isDigit digit)
        _ = Text.ofNat n := List.map_id _

theorem same_append_ofNat (front : Text) (first second : Nat) :
    policy.same (front ++ Text.ofNat first) (front ++ Text.ofNat second) = true ↔
      first = second := by
  rw [same_iff, fold_append, fold_append, fold_ofNat, fold_ofNat, List.append_cancel_left_eq]
  exact ⟨Text.ofNat_injective, congrArg Text.ofNat⟩

end CasePolicy

namespace NameSet

variable {policy : CasePolicy} {set : NameSet policy} {names : List Text}

/-- The set has the names of a list. -/
def Lists (set : NameSet policy) (names : List Text) : Prop :=
  ∀ name, set.contains name = names.any (policy.same · name)

theorem lists_ofList (names : List Text) : (ofList names : NameSet policy).Lists names := by
  intro name
  rw [ofList, contains_foldl_add]
  apply Bool.eq_iff_iff.mpr
  simp [NameTable.contains, NameTable.find?, NameTable.empty, CasePolicy.same_iff]

theorem Lists.add (lists : set.Lists names) (name : Text) :
    (set.add name).Lists (names ++ [name]) := by
  intro other
  rw [NameSet.add, NameTable.contains_insert, lists, List.any_append]
  apply Bool.eq_iff_iff.mpr
  simp [CasePolicy.same_iff, or_comm]

/-- A name that is listed may be listed again. -/
theorem Lists.again (lists : set.Lists names) {name : Text}
    (listed : names.any (policy.same · name) = true) : set.Lists (names ++ [name]) := by
  intro other
  rw [lists, List.any_append]
  apply Bool.eq_iff_iff.mpr
  simp only [List.any_eq_true, CasePolicy.same_iff] at listed
  obtain ⟨first, member, same⟩ := listed
  simp only [Bool.or_eq_true, List.any_eq_true, List.mem_singleton, CasePolicy.same_iff,
    exists_eq_left]
  constructor
  · exact Or.inl
  · rintro (inside | last)
    · exact inside
    · exact ⟨first, member, same.trans last⟩

end NameSet

namespace Formals

variable {policy : CasePolicy}

/-- None of the names of a list equals this one. -/
def Unused (policy : CasePolicy) (others : List Text) (name : Text) : Prop :=
  ∀ other ∈ others, policy.same other name = false

instance (policy : CasePolicy) (others : List Text) (name : Text) :
    Decidable (Unused policy others name) :=
  inferInstanceAs (Decidable (∀ other ∈ others, policy.same other name = false))

/-- The first variant of a formal that none of the other names equals. -/
def FirstVariant (policy : CasePolicy) (others : List Text) (formal image : Text) : Prop :=
  ∃ n, 2 ≤ n ∧ image = variant formal n ∧ Unused policy others image ∧
    ∀ m, 2 ≤ m → m < n → ¬ Unused policy others (variant formal m)

theorem unused_iff {taken : NameSet policy} {others : List Text} (lists : taken.Lists others)
    (name : Text) : Unused policy others name ↔ taken.contains name = false := by
  unfold Unused
  rw [lists, List.any_eq_false]
  simp

/-- Not all of the tries can be taken: there is one more of them than of the taken names. -/
theorem exists_variant_not_taken (taken : NameSet policy) (formal : Text) (start : Nat) :
    ∃ n, start ≤ n ∧ n ≤ start + taken.size ∧ taken.contains (variant formal n) = false := by
  by_contra none
  push Not at none
  -- different numbers give names that differ under both policies
  let tries := (List.range (taken.size + 1)).map fun i => policy.fold (variant formal (start + i))
  have distinct : tries.Nodup := by
    apply List.Nodup.map _ List.nodup_range
    intro first second equal
    have numbers := (policy.same_append_ofNat _ _ _).mp ((policy.same_iff _ _).mpr equal)
    omega
  have covered : tries ⊆ taken.entries.map fun entry => policy.fold entry.1 := by
    intro key member
    obtain ⟨i, inside, rfl⟩ := List.mem_map.mp member
    have bound := List.mem_range.mp inside
    have found := eq_true_of_ne_false (none (start + i) (by omega) (by omega))
    rw [NameTable.contains, NameTable.find?, List.find?_isSome] at found
    obtain ⟨entry, inside, same⟩ := found
    exact List.mem_map.mpr ⟨entry, inside, beq_iff_eq.mp same⟩
  have count := (distinct.subperm covered).length_le
  rw [List.length_map, List.length_map, List.length_range] at count
  exact Nat.not_succ_le_self _ count

/-- With enough tries the search ends at the first variant that is not taken. -/
theorem fresh_eq_variant {taken : NameSet policy} {formal : Text} {tries start : Nat}
    (enough : ∃ n, start ≤ n ∧ n ≤ start + tries ∧ taken.contains (variant formal n) = false) :
    ∃ n, start ≤ n ∧ fresh taken formal tries start = variant formal n ∧
      taken.contains (variant formal n) = false ∧
      ∀ m, start ≤ m → m < n → taken.contains (variant formal m) = true := by
  induction tries generalizing start with
  | zero =>
      obtain ⟨n, low, high, free⟩ := enough
      obtain rfl : n = start := by omega
      exact ⟨n, low, rfl, free, fun m above below => by omega⟩
  | succ tries ih =>
      rw [fresh]
      split
      next occupied =>
        obtain ⟨n, low, high, free⟩ := enough
        have further : n ≠ start := by
          rintro rfl
          rw [free] at occupied
          cases occupied
        obtain ⟨first, above, found, unused, before⟩ :=
          @ih (start + 1) ⟨n, by omega, by omega, free⟩
        refine ⟨first, by omega, found, unused, ?_⟩
        intro m low below
        rcases Nat.eq_or_lt_of_le low with rfl | later
        · exact occupied
        · exact before m later below
      next free =>
        refine ⟨start, Nat.le_refl _, rfl, by simpa using free, ?_⟩
        intro m low below
        omega

theorem firstVariant_fresh {taken : NameSet policy} {others : List Text}
    (lists : taken.Lists others) (formal : Text) :
    FirstVariant policy others formal (fresh taken formal taken.size 2) := by
  obtain ⟨n, low, found, free, before⟩ :=
    fresh_eq_variant (exists_variant_not_taken taken formal 2)
  refine ⟨n, low, found, ?_, ?_⟩
  · rw [unused_iff lists, found]
    exact free
  · intro m above below
    rw [unused_iff lists, before m above below]
    exact Bool.noConfusion

/-- What becomes of the formals behind those `before` them, when `others` are the names in use and
`count` ties have been made. -/
inductive Separates (policy : CasePolicy) : (before others : List Text) → (count : Nat) →
    (formals images : List Text) → List Card → Prop where
  | nil {before others : List Text} {count : Nat} : Separates policy before others count [] [] []
  | first {before others : List Text} {count : Nat} {formal : Text} {formals images : List Text}
      {ties : List Card} (new : before.any (policy.same · formal) = false)
      (later : Separates policy (before ++ [formal]) (others ++ [formal]) count formals images
        ties) :
      Separates policy before others count (formal :: formals) (formal :: images) ties
  | again {before others : List Text} {count : Nat} {formal image : Text}
      {formals images : List Text} {ties : List Card}
      (old : before.any (policy.same · formal) = true)
      (fresh : FirstVariant policy others formal image)
      (later : Separates policy (before ++ [formal]) (others ++ [image]) (count + 1) formals
        images ties) :
      Separates policy before others count (formal :: formals) (image :: images)
        (tie (count + 1) formal image :: ties)

theorem separates_separateFrom {taken seen : NameSet policy} {before others : List Text}
    (known : seen.Lists before) (lists : taken.Lists others) {formals : List Text}
    (among : ∀ formal ∈ formals, formal ∈ others) (count : Nat) :
    Separates policy before others count formals (separateFrom taken seen count formals).1
      (separateFrom taken seen count formals).2 := by
  induction formals generalizing taken seen before others count with
  | nil => exact .nil
  | cons formal rest ih =>
      obtain ⟨here, behind⟩ := List.forall_mem_cons.mp among
      have still (image : Text) : ∀ formal ∈ rest, formal ∈ others ++ [image] :=
        fun formal member => List.mem_append_left _ (behind formal member)
      rw [separateFrom]
      split
      next old =>
        rw [known] at old
        exact .again old (firstVariant_fresh lists formal)
          (ih (known.again old) (lists.add _) (still _) (count + 1))
      next new =>
        rw [known, Bool.not_eq_true] at new
        -- a formal that stays as it is was taken from the beginning
        have listed : others.any (policy.same · formal) = true :=
          List.any_eq_true.mpr ⟨formal, here, policy.same_self formal⟩
        exact .first new (ih (known.add formal) (lists.again listed) (still _) count)

theorem separates_separate (policy : CasePolicy) (formals : List Text) :
    Separates policy [] formals 0 formals (separate policy formals).1
      (separate policy formals).2 :=
  separates_separateFrom (fun _ => rfl) (NameSet.lists_ofList formals) (fun _ member => member) 0

/-- Where a formal repeats an earlier one, or one of `before`. -/
def repeats (policy : CasePolicy) (before formals : List Text) : List Nat :=
  (List.range formals.length).filter fun j =>
    (before ++ formals.take j).any (policy.same · (formals.getD j []))

theorem repeats_cons (before : List Text) (formal : Text) (formals : List Text) :
    repeats policy before (formal :: formals) =
      (if before.any (policy.same · formal) then [0] else []) ++
        (repeats policy (before ++ [formal]) formals).map Nat.succ := by
  have shifted : (fun j => (before ++ (formal :: formals).take j).any
      (policy.same · ((formal :: formals).getD j []))) ∘ Nat.succ =
      fun j => (before ++ [formal] ++ formals.take j).any (policy.same · (formals.getD j [])) := by
    funext j
    simp
  unfold repeats
  rw [List.length_cons, List.range_succ_eq_map, List.filter_cons, List.filter_map, shifted]
  simp only [List.take_zero, List.append_nil, List.getD_cons_zero]
  split <;> rfl

theorem mem_repeats_iff {before formals : List Text} {i : Nat} {formal : Text}
    (stands : formals[i]? = some formal) :
    i ∈ repeats policy before formals ↔
      (before ++ formals.take i).any (policy.same · formal) = true := by
  unfold repeats
  rw [List.mem_filter, List.mem_range, List.getD_eq_getElem?_getD, stands]
  simp only [Option.getD_some, and_iff_right_iff_imp]
  exact fun _ => (List.getElem?_eq_some_iff.mp stands).1

namespace Separates

variable {before others formals images : List Text} {count : Nat} {ties : List Card}

theorem length_eq (separates : Separates policy before others count formals images ties) :
    images.length = formals.length := by
  induction separates with
  | nil => rfl
  | first new later ih => simp [ih]
  | again old fresh later ih => simp [ih]

theorem named (separates : Separates policy before others count formals images ties) {i : Nat}
    {formal : Text} (stands : formals[i]? = some formal) :
    ∃ image, images[i]? = some image ∧
      if (before ++ formals.take i).any (policy.same · formal) then
        FirstVariant policy (others ++ images.take i) formal image
      else image = formal := by
  induction separates generalizing i with
  | nil => cases stands
  | first new later ih =>
      cases i with
      | zero =>
          cases stands
          refine ⟨_, rfl, ?_⟩
          rw [List.take_zero, List.append_nil, new]
          rfl
      | succ i =>
          obtain ⟨image, placed, named⟩ := ih stands
          refine ⟨image, placed, ?_⟩
          simpa using named
  | again old fresh later ih =>
      cases i with
      | zero =>
          cases stands
          refine ⟨_, rfl, ?_⟩
          rw [List.take_zero, List.append_nil, old, if_pos rfl, List.take_zero, List.append_nil]
          exact fresh
      | succ i =>
          obtain ⟨image, placed, named⟩ := ih stands
          refine ⟨image, placed, ?_⟩
          simpa using named

theorem ties_eq (separates : Separates policy before others count formals images ties) :
    ties = ((repeats policy before formals).zipIdx (count + 1)).map fun (j, k) =>
      tie k (formals.getD j []) (images.getD j []) := by
  induction separates with
  | nil => rfl
  | first new later ih =>
      rw [repeats_cons, new, ih, if_neg Bool.false_ne_true, List.nil_append, List.zipIdx_map,
        List.map_map]
      rfl
  | again old fresh later ih =>
      rw [repeats_cons, old, ih, if_pos rfl, List.singleton_append, List.zipIdx_cons,
        List.map_cons, List.zipIdx_map, List.map_map]
      rfl

end Separates

/-- The name of the source that makes a tie. -/
def source (count : Nat) : Text := "v__dup" ++ Text.ofNat count

theorem same_source (policy : CasePolicy) {first second : Nat} (differ : first ≠ second) :
    policy.same (source first) (source second) = false :=
  Bool.eq_false_iff.mpr fun same => differ ((policy.same_append_ofNat _ _ _).mp same)

theorem solid_source (count : Nat) : Word.Solid (source count) := by
  have front : Word.Solid "v__dup".toList := ⟨by decide, List.all_eq_true.mp (by decide)⟩
  exact Renamer.solid_append_ofNat front count

theorem solid_variant {formal : Text} (solid : Word.Solid formal) (n : Nat) :
    Word.Solid (variant formal n) := by
  have marked : Word.Solid (formal ++ "__".toList) := solid.append (List.all_eq_true.mp (by decide))
  exact Renamer.solid_append_ofNat marked n

theorem text_tie (count : Nat) (formal image : Text) :
    (tie count formal image).text =
      source count ++ ' ' :: (formal ++ ' ' :: (image ++ [' ', '0'])) := by
  unfold tie source
  simp only [List.append_assoc]
  rfl

/-- The words of a tie: its source, the two nodes that it joins, and the voltage. -/
theorem texts_tie (count : Nat) {formal image : Text} (solid : Word.Solid formal)
    (solidImage : Word.Solid image) :
    (Word.split (tie count formal image).text).map Word.text =
      [source count, formal, image, ['0']] := by
  have space (text : Text) : Text.Stops Word.isInner (' ' :: text) :=
    Text.stops_cons.mpr (by decide)
  have voltage : (Word.split ['0']).map Word.text = [['0']] := by decide +kernel
  rw [text_tie, Word.texts_word_append (solid_source count) (space _), Word.texts_space,
    Word.texts_word_append solid (space _), Word.texts_space,
    Word.texts_word_append solidImage (space _), Word.texts_space, voltage]

theorem keyword_tie (count : Nat) (formal image : Text) :
    (tie count formal image).keyword = source count := by
  have solid := solid_source count
  rw [Card.keyword, text_tie, ← List.nil_append (source count ++ _)]
  refine Text.firstWord_append (by simp) ?_ solid.nonempty (Text.stops_cons.mpr (by decide))
  exact fun c member => Word.not_isBlank_of_isInner (solid.inner c member)

/-- Formals with repetitions made pairwise different.  First occurrences stay as they are spelled,
and each repetition gets a name that is no formal's, together with a source that ties it. -/
structure Disambiguated (policy : CasePolicy) (formals images : List Text) (ties : List Card) :
    Prop where
  length_eq : images.length = formals.length
  apart : images.Pairwise fun first second => policy.same first second = false
  kept : ∀ i formal, formals[i]? = some formal → i ∉ repeats policy [] formals →
    images[i]? = some formal
  renamed : ∀ i formal, formals[i]? = some formal → i ∈ repeats policy [] formals →
    ∃ image, images[i]? = some image ∧
      FirstVariant policy (formals ++ images.take i) formal image
  ties_eq : ties = ((repeats policy [] formals).zipIdx 1).map fun (j, k) =>
    tie k (formals.getD j []) (images.getD j [])
  sources : ties.Pairwise fun first second => policy.same first.keyword second.keyword = false

namespace Separates

variable {others formals images : List Text} {count i : Nat} {formal : Text} {ties : List Card}

theorem kept (separates : Separates policy [] others count formals images ties)
    (stands : formals[i]? = some formal) (new : i ∉ repeats policy [] formals) :
    images[i]? = some formal := by
  obtain ⟨image, placed, named⟩ := separates.named stands
  rw [mem_repeats_iff stands] at new
  rw [if_neg new] at named
  rw [placed, named]

theorem renamed (separates : Separates policy [] others count formals images ties)
    (stands : formals[i]? = some formal) (old : i ∈ repeats policy [] formals) :
    ∃ image, images[i]? = some image ∧
      FirstVariant policy (others ++ images.take i) formal image := by
  obtain ⟨image, placed, named⟩ := separates.named stands
  rw [mem_repeats_iff stands] at old
  rw [if_pos old] at named
  exact ⟨image, placed, named⟩

/-- A new name is unlike all formals and all names before it, and a formal that is no repetition
is unlike the formals before it. -/
theorem apart (separates : Separates policy [] formals count formals images ties) :
    images.Pairwise fun first second => policy.same first second = false := by
  have length_eq := separates.length_eq
  apply List.pairwise_iff_getElem.mpr
  intro i j inside within before
  have front : formals[i]? = some formals[i] := List.getElem?_eq_getElem _
  have back : formals[j]? = some formals[j] := List.getElem?_eq_getElem _
  by_cases old : j ∈ repeats policy [] formals
  · obtain ⟨image, placed, n, -, rfl, unused, -⟩ := separates.renamed back old
    rw [(List.getElem?_eq_some_iff.mp placed).2]
    apply unused
    exact List.mem_append_right _ (List.mem_take_iff_getElem.mpr ⟨i, by omega, rfl⟩)
  · rw [(List.getElem?_eq_some_iff.mp (separates.kept back old)).2]
    by_cases earlier : i ∈ repeats policy [] formals
    · obtain ⟨image, placed, n, -, rfl, unused, -⟩ := separates.renamed front earlier
      rw [(List.getElem?_eq_some_iff.mp placed).2, policy.same_comm]
      exact unused _ (List.mem_append_left _ (List.getElem_mem _))
    · rw [(List.getElem?_eq_some_iff.mp (separates.kept front earlier)).2]
      rw [mem_repeats_iff back, List.nil_append, Bool.not_eq_true, List.any_eq_false] at old
      have new := old formals[i] (List.mem_take_iff_getElem.mpr ⟨i, by omega, rfl⟩)
      simpa using new

/-- The sources are numbered, so no two of them have one name. -/
theorem sources (separates : Separates policy [] others count formals images ties) :
    ties.Pairwise fun first second => policy.same first.keyword second.keyword = false := by
  rw [separates.ties_eq, List.pairwise_map]
  apply List.Pairwise.of_map Prod.snd (S := (· < ·))
  · rintro ⟨i, first⟩ ⟨j, second⟩ below
    show policy.same (tie first _ _).keyword (tie second _ _).keyword = false
    rw [keyword_tie, keyword_tie]
    exact same_source policy (Nat.ne_of_lt below)
  · rw [List.zipIdx_map_snd]
    exact List.pairwise_lt_range' 1

end Separates

theorem disambiguated_separate (policy : CasePolicy) (formals : List Text) :
    Disambiguated policy formals (separate policy formals).1 (separate policy formals).2 := by
  have separates := separates_separate policy formals
  exact
    { length_eq := separates.length_eq
      apart := separates.apart
      kept := fun _ _ stands new => separates.kept stands new
      renamed := fun _ _ stands old => separates.renamed stands old
      ties_eq := separates.ties_eq
      sources := separates.sources }

end Formals

namespace Pins

variable {policy : CasePolicy}

/-- A node name stands for a node outside, unless it is ground or global and stands for itself. -/
def StandsFor (pins : Pins policy) (globals : NameSet policy) (name node : Text) : Prop :=
  pins.outside? globals name =
    some (if name = ground || globals.contains name then name else node)

/-- If the formals differ, a name that equals one of them stands for the actual in its place. -/
theorem standsFor_of_same {formals actuals : List Text}
    (apart : formals.Pairwise fun first second => policy.same first second = false)
    (globals : NameSet policy) {i : Nat} {formal actual name : Text}
    (stands : formals[i]? = some formal) (given : actuals[i]? = some actual)
    (same : policy.same formal name = true) :
    StandsFor ⟨formals.zip actuals⟩ globals name actual := by
  unfold StandsFor outside?
  split
  · rfl
  · have placed : (formals.zip actuals)[i]? = some (formal, actual) :=
      List.getElem?_zip_eq_some.mpr ⟨stands, given⟩
    obtain ⟨inside, entry⟩ := List.getElem?_eq_some_iff.mp placed
    have found : (formals.zip actuals).find? (fun entry => policy.same entry.1 name) =
        some (formal, actual) := by
      apply List.find?_eq_some_iff_getElem.mpr
      refine ⟨same, i, inside, entry, ?_⟩
      intro j before
      -- an earlier formal that equals the name would equal this formal too
      obtain ⟨within, rfl⟩ := List.getElem?_eq_some_iff.mp stands
      have differs := List.pairwise_iff_getElem.mp apart j i (by omega) within before
      rw [Bool.not_eq_true', Bool.eq_false_iff, List.getElem_zip]
      intro also
      rw [CasePolicy.same_iff] at same also
      rw [(policy.same_iff _ _).mpr (also.trans same.symm)] at differs
      cases differs
    rw [found]
    rfl

theorem connect_of_more {subcircuit : Text} {formals actuals : List Text}
    (more : formals.length < actuals.length) :
    (connect subcircuit formals actuals : Except Fault (Pins policy)) =
      .error (.tooManyArguments subcircuit formals.length actuals.length) := by
  rw [connect, if_pos more]

theorem connect_of_fewer {subcircuit : Text} {formals actuals : List Text}
    (fewer : actuals.length < formals.length) :
    (connect subcircuit formals actuals : Except Fault (Pins policy)) =
      .error (.tooFewArguments subcircuit formals.length actuals.length) := by
  rw [connect, if_neg (by omega), if_pos fewer]

end Pins

namespace Formals

/-- The tie of a repetition: its number is one more than that of the repetitions before. -/
theorem Disambiguated.exists_tie {policy : CasePolicy} {formals images : List Text}
    {ties : List Card} (faithful : Disambiguated policy formals images ties) {j : Nat}
    {formal : Text} (stands : formals[j]? = some formal) (old : j ∈ repeats policy [] formals) :
    ∃ k image, (repeats policy [] formals)[k]? = some j ∧ images[j]? = some image ∧
      ties[k]? = some (tie (k + 1) formal image) ∧
      (Word.Solid formal → (Word.split (tie (k + 1) formal image).text).map Word.text =
        [source (k + 1), formal, image, ['0']]) := by
  obtain ⟨k, numbered⟩ := List.mem_iff_getElem?.mp old
  obtain ⟨image, placed, n, -, rfl, -⟩ := faithful.renamed j formal stands old
  refine ⟨k, _, numbered, placed, ?_, fun solid => texts_tie _ solid (solid_variant solid n)⟩
  rw [faithful.ties_eq, List.getElem?_map, List.getElem?_zipIdx, numbered, Nat.add_comm]
  simp [stands, placed]

/-- Formals with repetitions are made pairwise different, and a call with as many actuals connects
each of them to the actual in its place.  The two nodes of the tie of a repetition stand for the
actual where the name was first and the one where it is repeated. -/
theorem repeated_formals_are_tied (policy : CasePolicy) (formals : List Text) :
    let images := (separate policy formals).1
    let ties := (separate policy formals).2
    Disambiguated policy formals images ties ∧
    ∀ (subcircuit : Text) (actuals : List Text),
      let connected : Except Fault (Pins policy) := Pins.connect subcircuit images actuals
      (formals.length < actuals.length →
        connected = .error (.tooManyArguments subcircuit formals.length actuals.length)) ∧
      (actuals.length < formals.length →
        connected = .error (.tooFewArguments subcircuit formals.length actuals.length)) ∧
      (actuals.length = formals.length → ∃ pins, connected = .ok pins ∧ ∀ globals,
        (∀ (i : Nat) image actual, images[i]? = some image → actuals[i]? = some actual →
          pins.StandsFor globals image actual) ∧
        ∀ (i j : Nat) formal again first second,
          formals[i]? = some formal → i ∉ repeats policy [] formals →
          formals[j]? = some again → j ∈ repeats policy [] formals →
          policy.same formal again = true →
          actuals[i]? = some first → actuals[j]? = some second →
          ∃ k image, (repeats policy [] formals)[k]? = some j ∧ images[j]? = some image ∧
            ties[k]? = some (tie (k + 1) again image) ∧
            (Word.Solid again → (Word.split (tie (k + 1) again image).text).map Word.text =
              [source (k + 1), again, image, ['0']]) ∧
            pins.StandsFor globals again first ∧ pins.StandsFor globals image second) := by
  intro images ties
  have faithful : Disambiguated policy formals images ties := disambiguated_separate policy formals
  refine ⟨faithful, ?_⟩
  intro subcircuit actuals connected
  refine ⟨?_, ?_, ?_⟩
  · intro more
    rw [← faithful.length_eq] at more ⊢
    exact Pins.connect_of_more more
  · intro fewer
    rw [← faithful.length_eq] at fewer ⊢
    exact Pins.connect_of_fewer fewer
  · intro counted
    refine ⟨_, Pins.connect_of_counted (counted.trans faithful.length_eq.symm), ?_⟩
    intro globals
    have paired : ∀ (i : Nat) image actual, images[i]? = some image → actuals[i]? = some actual →
        Pins.StandsFor ⟨images.zip actuals⟩ globals image actual :=
      fun i image actual stands given =>
        Pins.standsFor_of_same faithful.apart globals stands given (policy.same_self image)
    refine ⟨paired, ?_⟩
    intro i j formal again first second stands new repeated old same given givenAgain
    obtain ⟨k, image, numbered, placed, tied, words⟩ := faithful.exists_tie repeated old
    refine ⟨k, image, numbered, placed, tied, words, ?_, paired j image second placed givenAgain⟩
    exact Pins.standsFor_of_same faithful.apart globals (faithful.kept i formal stands new) given
      same

/-- Repetitions in other letters, and a variant that stands among the formals. -/
theorem repeated_formals_are_tied_mixed :
    let formals : List Text := ["a", "b", "A", "a__2", "a"]
    let actuals : List Text := ["n1", "n2", "n3", "n4", "n5"]
    (separate .insensitive formals).1 = (["a", "b", "A__3", "a__2", "a__4"] : List Text) ∧
      (separate .insensitive formals).2.map Card.text =
        (["v__dup1 A A__3 0", "v__dup2 a a__4 0"] : List Text) ∧
      ∃ pins : Pins .insensitive,
        Pins.connect "s" (separate .insensitive formals).1 actuals = .ok pins ∧
        pins.StandsFor .empty "A__3" "n3" ∧ pins.StandsFor .empty "a" "n1" ∧
        pins.StandsFor .empty "a__4" "n5" := by
  intro formals actuals
  obtain ⟨-, calls⟩ := repeated_formals_are_tied .insensitive formals
  obtain ⟨pins, connected, meaning⟩ := (calls "s" actuals).2.2 rfl
  obtain ⟨paired, tied⟩ := meaning .empty
  obtain ⟨k, image, -, placed, -, -, first, second⟩ :=
    tied 0 4 "a" "a" "n1" "n5" rfl (by decide) rfl (by decide) (by decide) rfl rfl
  have variant : (separate .insensitive formals).1[4]? = some "a__4".toList := by decide +kernel
  obtain rfl : "a__4".toList = image := Option.some.inj (variant.symm.trans placed)
  refine ⟨by decide +kernel, by decide +kernel, pins, connected, ?_, first, second⟩
  exact paired 2 "A__3" "n3" (by decide +kernel) rfl

end Formals

end Netlist

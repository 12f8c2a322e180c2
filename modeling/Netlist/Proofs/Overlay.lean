import Mathlib.Data.Finmap
import Netlist.Proofs.CacheHistory
import Netlist.Proofs.Layering

/-!
# Overlays

A table finds its entries by comparing folded names.  A store that keeps every
entry under a key, and hands its entries out in no particular order, comes to
the same: whatever is done to a store and to a table alike, the key of an entry
is its folded spelling, and both find the same entries.  The entries of an
overlay may be entered in any order exactly where no two of them have the same
name for the table below, and tables that compare names alike may be laid over
each other from either end.
-/

namespace Netlist

/-- Spellings and values under keys, without an order. -/
abbrev KeyedStore (α : Type) := Finmap fun _ : Text => Text × α

namespace KeyedStore

variable {policy other : CasePolicy} {α : Type}

def enter (policy : CasePolicy) (store : KeyedStore α) (name : Text) (value : α) : KeyedStore α :=
  store.insert (policy.fold name) (name, value)

def remove (policy : CasePolicy) (store : KeyedStore α) (name : Text) : KeyedStore α :=
  store.erase (policy.fold name)

def enterAll (policy : CasePolicy) (store : KeyedStore α) (listing : List (Text × α)) :
    KeyedStore α :=
  listing.foldl (fun store entry => enter policy store entry.1 entry.2) store

/-- The spellings and values of a store, listed in some order. -/
def Lists (store : KeyedStore α) (listing : List (Text × α)) : Prop :=
  (listing : Multiset (Text × α)) = store.entries.map fun stored => stored.2

/-- A store and a table that the same operations have made, from the empty ones on.  The entries of
an overlay are entered in an order in which its store lists them, and the overlay may compare names
in another way. -/
inductive Made : (policy : CasePolicy) → KeyedStore α → NameTable policy α → Prop where
  | new (policy : CasePolicy) : Made policy ∅ .empty
  | insert {policy : CasePolicy} {store : KeyedStore α} {table : NameTable policy α}
      (made : Made policy store table) (name : Text) (value : α) :
      Made policy (store.enter policy name value) (table.insert name value)
  | remove {policy : CasePolicy} {store : KeyedStore α} {table : NameTable policy α}
      (made : Made policy store table) (name : Text) :
      Made policy (store.remove policy name) (table.erase name)
  | clear {policy : CasePolicy} {store : KeyedStore α} {table : NameTable policy α}
      (made : Made policy store table) : Made policy ∅ .empty
  | update {policy other : CasePolicy} {store upper : KeyedStore α} {table : NameTable policy α}
      {overlay : NameTable other α} (made : Made policy store table)
      (laid : Made other upper overlay) {listing : List (Text × α)} (listed : upper.Lists listing) :
      Made policy (store.enterAll policy listing) (table.insertAll listing)

/-- Every key is the folded spelling of its entry, and the store and the table find the same entry
of every name. -/
structure Represents (policy : CasePolicy) (store : KeyedStore α) (table : NameTable policy α) :
    Prop where
  keyed : ∀ key entry, store.lookup key = some entry → key = policy.fold entry.1
  finds : ∀ name, store.lookup (policy.fold name) = table.find? name

theorem represents_empty : Represents policy (∅ : KeyedStore α) .empty where
  keyed := by
    intro key entry found
    rw [Finmap.lookup_empty] at found
    cases found
  finds := by
    intro name
    rw [Finmap.lookup_empty]
    rfl

namespace Represents

variable {store : KeyedStore α} {table : NameTable policy α}

theorem enter (represents : Represents policy store table) (name : Text) (value : α) :
    Represents policy (store.enter policy name value) (table.insert name value) where
  keyed := by
    intro key entry found
    rw [KeyedStore.enter] at found
    by_cases same : key = policy.fold name
    · subst same
      rw [Finmap.lookup_insert] at found
      cases found
      rfl
    · rw [Finmap.lookup_insert_of_ne _ same] at found
      exact represents.keyed key entry found
  finds := by
    intro query
    rw [NameTable.find?_insert, KeyedStore.enter]
    split
    next same => rw [← same, Finmap.lookup_insert]
    next differs =>
      rw [Finmap.lookup_insert_of_ne _ (Ne.symm differs)]
      exact represents.finds query

theorem remove (represents : Represents policy store table) (name : Text) :
    Represents policy (store.remove policy name) (table.erase name) where
  keyed := by
    intro key entry found
    rw [KeyedStore.remove] at found
    by_cases same : key = policy.fold name
    · subst same
      rw [Finmap.lookup_erase] at found
      cases found
    · rw [Finmap.lookup_erase_ne same] at found
      exact represents.keyed key entry found
  finds := by
    intro query
    rw [NameTable.find?_erase, KeyedStore.remove]
    split
    next same => rw [← same, Finmap.lookup_erase]
    next differs =>
      rw [Finmap.lookup_erase_ne (Ne.symm differs)]
      exact represents.finds query

theorem enterAll (represents : Represents policy store table) (listing : List (Text × α)) :
    Represents policy (store.enterAll policy listing) (table.insertAll listing) := by
  induction listing generalizing store table with
  | nil => exact represents
  | cons first rest ih => exact ih (represents.enter first.1 first.2)

/-- A table has one store. -/
theorem store_eq {second : KeyedStore α} (represents : Represents policy store table)
    (representsToo : Represents policy second table) : store = second := by
  apply Finmap.ext_lookup
  intro key
  apply Option.ext
  intro entry
  constructor
  · intro found
    have folded := represents.keyed key entry found
    rw [folded] at found ⊢
    rw [representsToo.finds, ← represents.finds, found]
  · intro found
    have folded := representsToo.keyed key entry found
    rw [folded] at found ⊢
    rw [represents.finds, ← representsToo.finds, found]

theorem mem_entries_iff (represents : Represents policy store table) (entry : Text × α) :
    (entry ∈ store.entries.map fun stored => stored.2) ↔ entry ∈ table.entries := by
  rw [Multiset.mem_map]
  constructor
  · rintro ⟨⟨key, stored⟩, member, rfl⟩
    have found := Finmap.lookup_eq_some_iff.mpr member
    rw [represents.keyed key stored found, represents.finds] at found
    exact List.mem_of_find?_eq_some found
  · intro member
    have found := NameTable.find?_eq_some_of_mem member
    rw [← represents.finds] at found
    exact ⟨⟨_, entry⟩, Finmap.lookup_eq_some_iff.mp found, rfl⟩

/-- A store lists the entries of its table, each once, in any order. -/
theorem lists_iff (represents : Represents policy store table) (listing : List (Text × α)) :
    store.Lists listing ↔ listing.Perm table.entries := by
  have once : (store.entries.map fun stored => stored.2).Nodup := by
    -- equal entries stand under one key, their folded spelling
    refine Multiset.Nodup.map_on ?_ store.nodup_entries
    rintro ⟨key, entry⟩ member ⟨keyToo, entryToo⟩ memberToo same
    dsimp only at same
    subst same
    rw [represents.keyed key entry (Finmap.lookup_eq_some_iff.mpr member),
      represents.keyed keyToo entry (Finmap.lookup_eq_some_iff.mpr memberToo)]
  have distinct : table.entries.Nodup := by
    refine table.ascending.imp ?_
    rintro first second before rfl
    exact List.lt_irrefl _ before
  have same : (store.entries.map fun stored => stored.2) = (table.entries : Multiset _) :=
    (Multiset.Nodup.ext once (Multiset.coe_nodup.mpr distinct)).mpr represents.mem_entries_iff
  rw [Lists, same, Multiset.coe_eq_coe]

end Represents

theorem Made.represents {store : KeyedStore α} {table : NameTable policy α}
    (made : Made policy store table) : Represents policy store table := by
  induction made with
  | new => exact represents_empty
  | insert _ name value ih => exact ih.enter name value
  | remove _ name ih => exact ih.remove name
  | clear => exact represents_empty
  | update _ _ _ ih => exact ih.enterAll _

end KeyedStore

namespace NameTable

variable {policy other : CasePolicy} {α : Type}

/-- Every entry of an overlay can be the last one to be entered. -/
theorem exists_perm_find? (base : NameTable policy α) {entries : List (Text × α)}
    {entry : Text × α} (member : entry ∈ entries) :
    ∃ listing : List (Text × α), listing.Perm entries ∧
      (base.insertAll listing).find? entry.1 = some entry := by
  obtain ⟨before, behind, rfl⟩ := List.append_of_mem member
  refine ⟨before ++ behind ++ [entry], ?_, ?_⟩
  · rw [List.append_assoc]
    exact List.perm_append_singleton entry behind |>.append_left before
  · rw [insertAll, List.foldl_append, List.foldl_cons, List.foldl_nil, find?_insert, if_pos rfl]

/-- The order of an overlay's entries does not count exactly where they are apart for the base. -/
theorem order_irrelevant_iff_apart (base : NameTable policy α) (overlay : NameTable other α) :
    (∀ listing : List (Text × α), listing.Perm overlay.entries →
        base.insertAll listing = base.update overlay) ↔ Apart policy overlay.entries := by
  constructor
  · intro irrelevant first member second memberToo same
    obtain ⟨listing, order, found⟩ := base.exists_perm_find? member
    obtain ⟨listingToo, orderToo, foundToo⟩ := base.exists_perm_find? memberToo
    rw [irrelevant listing order] at found
    rw [irrelevant listingToo orderToo, find?, ← same] at foundToo
    exact Option.some.inj (found.symm.trans foundToo)
  · intro apart listing order
    exact base.insertAll_perm_of_apart apart order

theorem update_assoc (first second third : NameTable policy α) :
    (first.update second).update third = first.update (second.update third) := by
  apply ext_find?
  intro name
  rw [find?_update, find?_update, find?_update, find?_update, Option.or_assoc]

/-- Laying one table over another merges them as the lower table compares names.  The keys of both
stores are the folded spellings.  The order in which the upper store lists its entries does not
count exactly where no two of them have the same name below; then both the table and the store find
the overlay's entry of a name, if there is one, and otherwise the entry below. -/
theorem update_merges {store upper : KeyedStore α} {base : NameTable policy α}
    {overlay : NameTable other α} (made : KeyedStore.Made policy store base)
    (laid : KeyedStore.Made other upper overlay) :
    (KeyedStore.Represents policy store base ∧ KeyedStore.Represents other upper overlay) ∧
    (∀ first second, policy.same first second = true ↔ policy.fold first = policy.fold second) ∧
    (∀ listing, upper.Lists listing ↔ listing.Perm overlay.entries) ∧
    ((∀ listing, upper.Lists listing → base.insertAll listing = base.update overlay) ↔
      Apart policy overlay.entries) ∧
    (Apart policy overlay.entries →
      (∀ listing listingToo, upper.Lists listing → upper.Lists listingToo →
        store.enterAll policy listing = store.enterAll policy listingToo) ∧
      (∀ listing, upper.Lists listing →
        KeyedStore.Represents policy (store.enterAll policy listing) (base.update overlay)) ∧
      ∀ name, (base.update overlay).find? name =
        (overlay.entries.find? fun entry => policy.same entry.1 name).or (base.find? name)) ∧
    ∀ second third : NameTable policy α,
      (base.update second).update third = base.update (second.update third) := by
  have lists := laid.represents.lists_iff
  have merged (apart : Apart policy overlay.entries) (listing : List (Text × α))
      (listed : upper.Lists listing) :
      KeyedStore.Represents policy (store.enterAll policy listing) (base.update overlay) := by
    rw [update, ← base.insertAll_perm_of_apart apart ((lists listing).mp listed)]
    exact made.represents.enterAll listing
  refine ⟨⟨made.represents, laid.represents⟩, policy.same_iff, lists, ?_, ?_, base.update_assoc⟩
  · simp only [lists]
    exact base.order_irrelevant_iff_apart overlay
  · intro apart
    refine ⟨?_, merged apart, ?_⟩
    · intro listing listingToo listed listedToo
      exact (merged apart listing listed).store_eq (merged apart listingToo listedToo)
    · intro name
      have compares : (fun entry : Text × α => policy.same entry.1 name) =
          fun entry => policy.fold entry.1 == policy.fold name := by
        funext entry
        rw [Bool.eq_iff_iff, policy.same_iff, beq_iff_eq]
      rw [base.find?_update_of_apart overlay apart, compares]

/-- Below, case is ignored.  One overlay replaces a spelling and its value; another one, for which
case counts, has two entries of one name, and their order counts. -/
theorem update_merges_across_policies :
    let base : NameTable .insensitive Nat := (empty.insert "w".toList 1).insert "l".toList 2
    let overlay : NameTable .sensitive Nat := (empty.insert "W".toList 3).insert "x".toList 4
    let twofold : NameTable .sensitive Nat := overlay.insert "w".toList 5
    (["w", "L", "X", "y"].map fun name => (base.update overlay).find? name.toList) =
      [some ("W".toList, 3), some ("l".toList, 2), some ("x".toList, 4), none] ∧
    ¬ ∀ listing : List (Text × Nat), listing.Perm twofold.entries →
        base.insertAll listing = base.update twofold := by
  intro base overlay twofold
  have made : KeyedStore.Made .insensitive _ base := .insert (.insert (.new _) _ 1) _ 2
  have laid : KeyedStore.Made .sensitive _ overlay := .insert (.insert (.new _) _ 3) _ 4
  have apart : Apart .insensitive overlay.entries := by
    unfold Apart
    decide +kernel
  have looked := (update_merges made laid).2.2.2.2.1 apart |>.2.2
  have merges := update_merges made (laid.insert "w".toList 5)
  constructor
  · simp only [List.map_cons, List.map_nil]
    rw [looked, looked, looked, looked]
    decide +kernel
  · intro irrelevant
    have together : Apart .insensitive twofold.entries :=
      merges.2.2.2.1.mp fun listing listed => irrelevant listing ((merges.2.2.1 listing).mp listed)
    have equal := together ("W".toList, 3) (by decide +kernel) ("w".toList, 5) (by decide +kernel)
      (by decide +kernel)
    cases equal

end NameTable

end Netlist

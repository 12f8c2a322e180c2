import Mathlib.Data.List.DropRight
import Netlist.Pipeline

/-!
# The history of a cache store

Whatever is done to a store comes down to three kinds of events: an attempt to
store a block, the removal of a name and a clearing.  A run of a pipeline is
the attempts for the cache blocks of its source, in order, up to the first
that fails.  The block under a name is the first one built for it since the
name was last taken out, so a stored block never changes, and a source that is
run again finds every block as its first run left it.
-/

namespace Netlist

namespace NameTable

variable {policy : CasePolicy} {α : Type}

theorem find?_erase (table : NameTable policy α) (name other : Text) :
    (table.erase name).find? other =
      if policy.fold name = policy.fold other then none else table.find? other := by
  unfold find? erase
  rw [List.find?_filter]
  split
  next same =>
    rw [List.find?_eq_none]
    intro entry _
    simp [same]
  next differs =>
    congr 1
    funext entry
    by_cases here : policy.fold entry.1 = policy.fold other
    · have kept : policy.fold other ≠ policy.fold name := fun equal => differs equal.symm
      simp [here, kept]
    · simp [here]

theorem isSome_get? (table : NameTable policy α) (name : Text) :
    (table.get? name).isSome = table.contains name := by
  unfold get? contains
  exact Option.isSome_map

end NameTable

namespace CacheStore

/-- One attempt to store a block. -/
structure Attempt where
  config : Config
  name : Text
  deck : Deck
  bound : Bindings

namespace Attempt

/-- What is built, if the attempt gets that far. -/
def built (attempt : Attempt) : Except Diagnosis CacheBlock :=
  CacheBlock.build attempt.config attempt.name attempt.deck attempt.bound

def outcome (attempt : Attempt) (store : CacheStore) : Except Diagnosis (Bool × CacheStore) :=
  store.add attempt.config attempt.name attempt.deck attempt.bound

/-- The store afterwards; an attempt that fails leaves it alone. -/
def after (attempt : Attempt) (store : CacheStore) : CacheStore :=
  match attempt.outcome store with
  | .ok (_, next) => next
  | .error _ => store

/-- The attempts that are made of those intended: none follows one that fails. -/
def made (store : CacheStore) : List Attempt → List Attempt
  | [] => []
  | attempt :: rest =>
      match attempt.outcome store with
      | .error _ => [attempt]
      | .ok (_, next) => attempt :: made next rest

/-- The store once the attempts are made. -/
def allAfter (attempts : List Attempt) (store : CacheStore) : CacheStore :=
  attempts.foldl (fun store attempt => attempt.after store) store

theorem allAfter_made_of_error {attempt : Attempt} {store : CacheStore} {diagnosis : Diagnosis}
    (failed : attempt.outcome store = .error diagnosis) (rest : List Attempt) :
    allAfter (made store (attempt :: rest)) store = store := by
  rw [made, failed]
  show attempt.after store = store
  rw [after, failed]

theorem allAfter_made_of_ok {attempt : Attempt} {store next : CacheStore} {stored : Bool}
    (done : attempt.outcome store = .ok (stored, next)) (rest : List Attempt) :
    allAfter (made store (attempt :: rest)) store = allAfter (made next rest) next := by
  rw [made, done]
  show allAfter (made next rest) (attempt.after store) = _
  rw [after, done]

/-- A name that is taken stays as it is, and nothing is built.  For a free name the block is
stored if it can be built. -/
theorem outcome_cases (attempt : Attempt) (store : CacheStore) :
    (store.contains attempt.name = true ∧ attempt.outcome store = .ok (false, store)) ∨
    store.contains attempt.name = false ∧
      ((∃ diagnosis, attempt.built = .error diagnosis ∧
          attempt.outcome store = .error diagnosis) ∨
        ∃ block, attempt.built = .ok block ∧
          attempt.outcome store = .ok (true, NameTable.insert store attempt.name block)) := by
  unfold outcome add built
  cases store.contains attempt.name with
  | true => exact .inl ⟨rfl, rfl⟩
  | false =>
      refine .inr ⟨rfl, ?_⟩
      cases CacheBlock.build attempt.config attempt.name attempt.deck attempt.bound with
      | error diagnosis => exact .inl ⟨diagnosis, rfl, rfl⟩
      | ok block => exact .inr ⟨block, rfl, rfl⟩

theorem outcome_of_taken {attempt : Attempt} {store : CacheStore}
    (taken : store.contains attempt.name = true) : attempt.outcome store = .ok (false, store) := by
  rcases attempt.outcome_cases store with ⟨-, told⟩ | ⟨free, -⟩
  · exact told
  · rw [taken] at free
    cases free

/-- An attempt is refused just in case its name is taken. -/
theorem outcome_eq_refused_iff (attempt : Attempt) (store next : CacheStore) :
    attempt.outcome store = .ok (false, next) ↔
      store.contains attempt.name = true ∧ next = store := by
  constructor
  · intro refused
    rcases attempt.outcome_cases store with ⟨taken, told⟩ | ⟨-, ⟨_, -, told⟩ | ⟨_, -, told⟩⟩
    all_goals
      rw [told] at refused
      cases refused
    exact ⟨taken, rfl⟩
  · rintro ⟨taken, rfl⟩
    exact outcome_of_taken taken

/-- A block is stored just in case its name is free and it can be built. -/
theorem outcome_eq_stored_iff (attempt : Attempt) (store next : CacheStore) :
    attempt.outcome store = .ok (true, next) ↔
      store.contains attempt.name = false ∧
        ∃ block, attempt.built = .ok block ∧ next = NameTable.insert store attempt.name block := by
  rcases attempt.outcome_cases store with
    ⟨taken, told⟩ | ⟨free, ⟨_, failed, told⟩ | ⟨block, built, told⟩⟩
  · simp [told, taken]
  · simp [told, failed]
  · simp [told, free, built, eq_comm]

theorem contains_of_outcome {attempt : Attempt} {store next : CacheStore} {stored : Bool}
    (done : attempt.outcome store = .ok (stored, next)) : next.contains attempt.name = true := by
  rcases attempt.outcome_cases store with ⟨taken, told⟩ | ⟨-, ⟨_, -, told⟩ | ⟨_, -, told⟩⟩
  all_goals
    rw [told] at done
    cases done
  · exact taken
  · simp [NameTable.contains_insert]

/-- An attempt changes what a name stands for only if it builds a block for it and the name
stands for nothing. -/
theorem get?_after (attempt : Attempt) (store : CacheStore) (name : Text) :
    (attempt.after store).get? name =
      (store.get? name).or
        (if CasePolicy.insensitive.same attempt.name name then attempt.built.toOption
          else none) := by
  simp only [CasePolicy.same_iff]
  unfold after
  have known (same : CasePolicy.insensitive.fold attempt.name = CasePolicy.insensitive.fold name) :
      (store.get? name).isSome = store.contains attempt.name := by
    rw [← NameTable.get?_congr store same, NameTable.isSome_get?]
  rcases attempt.outcome_cases store with
    ⟨taken, told⟩ | ⟨free, ⟨diagnosis, failed, told⟩ | ⟨block, built, told⟩⟩
  · rw [told]
    dsimp only
    split
    next same =>
      rw [taken] at known
      rw [Option.or_of_isSome (known same)]
    · rw [Option.or_none]
  · rw [told, failed]
    dsimp only
    split <;> exact Option.or_none.symm
  · rw [told, built]
    show (NameTable.insert store attempt.name block).get? name = _
    rw [NameTable.get?_insert]
    split
    next same =>
      rw [free, Option.isSome_eq_false_iff, Option.isNone_iff_eq_none] at known
      rw [known same]
      rfl
    · rw [Option.or_none]

/-- No attempt takes a name out. -/
theorem contains_allAfter (attempts : List Attempt) {store : CacheStore} {name : Text}
    (taken : store.contains name = true) : (allAfter attempts store).contains name = true := by
  induction attempts generalizing store with
  | nil => exact taken
  | cons attempt rest ih =>
      refine ih ?_
      rw [← NameTable.isSome_get?] at taken ⊢
      rw [get?_after, Option.isSome_or, taken, Bool.true_or]

end Attempt

/-- What can happen to a store. -/
inductive Event where
  | attempted (attempt : Attempt)
  | removed (name : Text)
  | cleared

namespace Event

def apply (store : CacheStore) : Event → CacheStore
  | .attempted attempt => attempt.after store
  | .removed name => store.erase name
  | .cleared => .empty

/-- Whether the event takes out whatever stands under a name. -/
def frees (name : Text) : Event → Bool
  | .attempted _ => false
  | .removed other => CasePolicy.insensitive.same other name
  | .cleared => true

/-- The block that the event builds for a name. -/
def block? (name : Text) : Event → Option CacheBlock
  | .attempted attempt =>
      if CasePolicy.insensitive.same attempt.name name then attempt.built.toOption else none
  | .removed _ => none
  | .cleared => none

/-- The first block built for a name since the name was last taken out. -/
def firstBlock? (name : Text) (events : List Event) : Option CacheBlock :=
  (events.rtakeWhile fun event => !event.frees name).findSome? (block? name)

/-- What one event does to the block under a name. -/
theorem get?_apply (event : Event) (store : CacheStore) (name : Text) :
    (event.apply store).get? name =
      if event.frees name then none else (store.get? name).or (event.block? name) := by
  cases event with
  | attempted attempt => exact attempt.get?_after store name
  | removed other =>
      show ((store.erase other).find? name).map Prod.snd = _
      rw [NameTable.find?_erase]
      simp only [frees, block?, CasePolicy.same_iff, Option.or_none]
      split <;> rfl
  | cleared => rfl

/-- What a name stands for after any events is the first block built for it since it was last
taken out. -/
theorem get?_foldl (events : List Event) (name : Text) :
    (events.foldl apply .empty).get? name = firstBlock? name events := by
  induction events using List.reverseRecOn with
  | nil => rfl
  | append_singleton events event ih =>
      rw [List.foldl_append, List.foldl_cons, List.foldl_nil, get?_apply, ih]
      unfold firstBlock?
      rw [List.rtakeWhile_concat]
      cases event.frees name with
      | true => rfl
      | false =>
          simp [List.findSome?_append]

end Event

end CacheStore

namespace Pipeline

variable (pipeline : Pipeline)

open CacheStore (Attempt Event)

/-- The attempt to store a cache block of a source. -/
def attempt (block : OpenBlock) : Attempt :=
  ⟨pipeline.config, block.name, block.body, pipeline.bound⟩

/-- The cache blocks of what is left of a deck, as far as the first that has no name. -/
def blocks (opened : Option OpenBlock) : Deck → List OpenBlock
  | [] => opened.toList
  | card :: rest =>
      if !card.isLive then blocks opened rest
      else
        match opened with
        | none =>
            if pipeline.config.directives.isCacheStart card.keyword then
              match Text.declaredName? card.text with
              | none => []
              | some name => blocks (some { name }) rest
            else blocks none rest
        | some block =>
            if pipeline.config.directives.isCacheEnd card.keyword then block :: blocks none rest
            else blocks (some { block with body := block.body ++ [card] }) rest

/-- The attempts that a run makes. -/
def attempts (store : CacheStore) (source : Text) : List Attempt :=
  Attempt.made store ((pipeline.blocks none (pipeline.read source).2).map pipeline.attempt)

/-- To store the blocks of a deck is to attempt one after the other until one fails. -/
theorem store_loadFrom (store : CacheStore) (last : Option Text) (opened : Option OpenBlock)
    (deck : Deck) :
    (pipeline.loadFrom store last opened deck).store =
      Attempt.allAfter (Attempt.made store ((pipeline.blocks opened deck).map pipeline.attempt))
        store := by
  fun_induction loadFrom pipeline store last opened deck with
  | case1 store last => rfl
  | case2 store last block diagnosis failed =>
      have told : (pipeline.attempt block).outcome store = .error diagnosis := failed
      exact (Attempt.allAfter_made_of_error told []).symm
  | case3 store last block stored next added =>
      have told : (pipeline.attempt block).outcome store = .ok (stored, next) := added
      exact (Attempt.allAfter_made_of_ok told []).symm
  | case4 store last opened card rest idle ih =>
      rw [blocks.eq_def]
      dsimp only
      rw [if_pos idle]
      exact ih
  | case5 store last card rest directives live starts unnamed =>
      rw [blocks, if_neg live, if_pos starts, unnamed]
      rfl
  | case6 store last card rest directives live starts name named ih =>
      rw [blocks, if_neg live, if_pos starts, named]
      exact ih
  | case7 store last card rest directives live plain ih =>
      rw [blocks, if_neg live, if_neg plain]
      exact ih
  | case8 store last card rest directives live block ends diagnosis failed =>
      have told : (pipeline.attempt block).outcome store = .error diagnosis := failed
      rw [blocks, if_neg live, if_pos ends]
      exact (Attempt.allAfter_made_of_error told _).symm
  | case9 store last card rest directives live block ends stored next added ih =>
      have told : (pipeline.attempt block).outcome store = .ok (stored, next) := added
      rw [blocks, if_neg live, if_pos ends]
      exact ih.trans (Attempt.allAfter_made_of_ok told _).symm
  | case10 store last card rest directives live block inside ih =>
      rw [blocks, if_neg live, if_neg inside]
      exact ih

theorem store_run (store : CacheStore) (source : Text) :
    (pipeline.run store source).1 = Attempt.allAfter (pipeline.attempts store source) store :=
  pipeline.store_loadFrom store none none (pipeline.read source).2

end Pipeline

namespace CacheStore

/-! ## Operations on a store -/

/-- What its users do to a store. -/
inductive Operation where
  | add (attempt : Attempt)
  | remove (name : Text)
  | clear
  | run (pipeline : Pipeline) (source : Text)

namespace Operation

def apply (store : CacheStore) : Operation → CacheStore
  | .add attempt => attempt.after store
  | .remove name => store.erase name
  | .clear => .empty
  | .run pipeline source => (pipeline.run store source).1

/-- The events of an operation; those of a run depend on what the store holds. -/
def events (store : CacheStore) : Operation → List Event
  | .add attempt => [.attempted attempt]
  | .remove name => [.removed name]
  | .clear => [.cleared]
  | .run pipeline source => (pipeline.attempts store source).map .attempted

/-- The events of operations, one after the other. -/
def history (store : CacheStore) : List Operation → List Event
  | [] => []
  | operation :: rest => operation.events store ++ history (operation.apply store) rest

theorem foldl_events (operation : Operation) (store : CacheStore) :
    (operation.events store).foldl Event.apply store = operation.apply store := by
  cases operation with
  | add attempt => rfl
  | remove name => rfl
  | clear => rfl
  | run pipeline source =>
      show ((pipeline.attempts store source).map Event.attempted).foldl _ _ = _
      rw [List.foldl_map]
      exact (pipeline.store_run store source).symm

theorem foldl_history (operations : List Operation) (store : CacheStore) :
    (history store operations).foldl Event.apply store = operations.foldl apply store := by
  induction operations generalizing store with
  | nil => rfl
  | cons operation rest ih =>
      rw [history, List.foldl_append, foldl_events, ih, List.foldl_cons]

/-- Whatever was done to a store, a name stands for the first block built for it since the name
was last taken out.  An attempt is refused just in case its name is taken, it stores its block just
in case the name is free and the block can be built, and otherwise the store is as it was. -/
theorem first_block_kept (operations : List Operation) :
    let store := operations.foldl apply .empty
    store = (history .empty operations).foldl Event.apply .empty ∧
    (∀ name, store.get? name = Event.firstBlock? name (history .empty operations)) ∧
    ∀ attempt : Attempt,
      (∀ next, attempt.outcome store = .ok (false, next) ↔
        store.contains attempt.name = true ∧ next = store) ∧
      (∀ next, attempt.outcome store = .ok (true, next) ↔
        store.contains attempt.name = false ∧
          ∃ block, attempt.built = .ok block ∧
            next = NameTable.insert store attempt.name block) ∧
      ∀ diagnosis, attempt.outcome store = .error diagnosis →
        (Operation.add attempt).apply store = store := by
  intro store
  have replayed : store = (history .empty operations).foldl Event.apply .empty :=
    (foldl_history operations .empty).symm
  refine ⟨replayed, ?_, ?_⟩
  · intro name
    rw [replayed, Event.get?_foldl]
  · intro attempt
    refine ⟨attempt.outcome_eq_refused_iff store, attempt.outcome_eq_stored_iff store, ?_⟩
    intro diagnosis failed
    show attempt.after store = store
    rw [Attempt.after, failed]

/-- Two blocks of one name in a source, the second of which cannot be built: the first is stored,
and a third that cannot be built either leaves it there. -/
theorem first_block_kept_twice :
    let source := ".cache lib\n.param w=1\n.endcache\n.cache LIB\n.ends\n.endcache\n".toList
    let store := [Operation.clear, .run { hasTitle := false } source].foldl apply .empty
    let broken : Attempt := ⟨{}, "more".toList, [{ text := ".ends".toList }], ⟨.empty, .empty⟩⟩
    (store.get? "Lib".toList).map CacheBlock.name = some "lib".toList ∧
      ∃ diagnosis, broken.outcome store = .error diagnosis ∧
        (Operation.add broken).apply store = store := by
  intro source store broken
  refine ⟨by decide +kernel, ?_⟩
  have fails : (broken.outcome store).isOk = false := by decide +kernel
  cases told : broken.outcome store with
  | error diagnosis =>
      exact ⟨diagnosis, rfl, ((first_block_kept _).2.2 broken).2.2 diagnosis told⟩
  | ok _ =>
      rw [told] at fails
      cases fails

end Operation

end CacheStore

namespace Pipeline

variable (pipeline : Pipeline)

open CacheStore (Attempt)

/-! ## A source that is run again -/

/-- No name is taken out when the blocks of a deck are stored. -/
theorem contains_loadFrom {store : CacheStore} {name : Text} (taken : store.contains name = true)
    (last : Option Text) (opened : Option OpenBlock) (deck : Deck) :
    (pipeline.loadFrom store last opened deck).store.contains name = true := by
  rw [store_loadFrom]
  exact Attempt.contains_allAfter _ taken

/-- On the store that it leaves, a deck is loaded just as before: a block that was stored is there,
and one that was refused is refused again. -/
theorem loadFrom_loadFrom (store : CacheStore) (last : Option Text) (opened : Option OpenBlock)
    (deck : Deck) :
    pipeline.loadFrom (pipeline.loadFrom store last opened deck).store last opened deck =
      pipeline.loadFrom store last opened deck := by
  fun_induction loadFrom pipeline store last opened deck with
  | case1 store last => rfl
  | case2 store last block diagnosis failed =>
      rw [loadFrom, failed]
  | case3 store last block stored next added =>
      have told : (pipeline.attempt block).outcome store = .ok (stored, next) := added
      have again : next.add pipeline.config block.name block.body pipeline.bound = _ :=
        Attempt.outcome_of_taken (Attempt.contains_of_outcome told)
      rw [loadFrom, again]
  | case4 store last opened card rest idle ih =>
      rw [loadFrom.eq_def]
      dsimp only
      rw [if_pos idle]
      exact congrArg _ ih
  | case5 store last card rest directives live starts unnamed =>
      rw [loadFrom, if_neg live, if_pos starts, unnamed]
  | case6 store last card rest directives live starts name named ih =>
      rw [loadFrom, if_neg live, if_pos starts, named]
      exact congrArg (Loaded.behind card.disable) ih
  | case7 store last card rest directives live plain ih =>
      rw [loadFrom, if_neg live, if_neg plain]
      exact congrArg _ ih
  | case8 store last card rest directives live block ends diagnosis failed =>
      rw [loadFrom, if_neg live, if_pos ends, failed]
  | case9 store last card rest directives live block ends stored next added ih =>
      have told : (pipeline.attempt block).outcome store = .ok (stored, next) := added
      have kept := pipeline.contains_loadFrom (Attempt.contains_of_outcome told)
        (some block.name) none rest
      have again : (pipeline.loadFrom next (some block.name) none rest).store.add pipeline.config
          block.name block.body pipeline.bound = _ := Attempt.outcome_of_taken kept
      show loadFrom pipeline (loadFrom pipeline next (some block.name) none rest).store _ _ _ = _
      rw [loadFrom, if_neg live, if_pos ends, again]
      exact congrArg (Loaded.behind card.disable) ih
  | case10 store last card rest directives live block inside ih =>
      rw [loadFrom, if_neg live, if_neg inside]
      exact congrArg _ ih

/-- What a run comes to once the cache blocks of its source are stored. -/
def conclude (title : Option Text) (loaded : Loaded) :
    CacheStore × Except Failure (Flattened pipeline.config.casePolicy) :=
  let result :=
    match loaded.failure with
    | some diagnosis => .error ⟨[diagnosis], some loaded.deck⟩
    | none =>
        match Expansion.run pipeline.config pipeline.catalog loaded.store pipeline.bound
            loaded.last loaded.deck with
        | .error failure => .error failure
        | .ok expansion => .ok ⟨title, expansion⟩
  (loaded.store, result)

theorem run_eq (store : CacheStore) (source : Text) :
    pipeline.run store source =
      pipeline.conclude (pipeline.read source).1
        (pipeline.loadFrom store none none (pipeline.read source).2) := rfl

/-- A source that is run again, on the store that its first run leaves, gives what it gave the
first time and leaves the store as it is. -/
theorem run_run (store : CacheStore) (source : Text) :
    pipeline.run (pipeline.run store source).1 source = pipeline.run store source := by
  have left : (pipeline.run store source).1 =
      (pipeline.loadFrom store none none (pipeline.read source).2).store := rfl
  rw [left, run_eq, loadFrom_loadFrom, ← run_eq]

end Pipeline

end Netlist

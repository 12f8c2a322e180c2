import Mathlib.Data.List.Forall2
import Netlist.Proofs.Body
import Netlist.Proofs.FatalFault
import Netlist.Proofs.Unmarked

/-!
# Calls to unknown subcircuits

The calls of an expansion are listed here without expanding anything: those on
the cards of the top level and, behind each of them, those in the body of its
definition.  The unknown ones among them say all that an expansion without a
fatal fault has to say.  The first one of each name is reported, in this
order, and every one of them stands in the deck with its own note, renamed for
each instance around it.  No other card has a note.
-/

namespace Netlist

/-- A call that an expansion meets. -/
structure Encounter where
  /-- How many calls it stands inside. -/
  depth : Nat
  card : Card
  inst : Text
  /-- The subcircuit that is called, with parameters resolved. -/
  name : Text
  /-- What the name stands for where it is called. -/
  found : Option Definition

namespace Encounter

/-- No frame defines the subcircuit, and the instance is no device either. -/
def isUnknown (config : Config) (met : Encounter) : Bool :=
  met.found.isNone && (config.deviceLetter? met.inst).isNone

def fault (met : Encounter) : Fault := .unknownSubcircuit met.name

def diagnosis (met : Encounter) : Diagnosis := .ofCard .expand met.fault met.card

/-- The first call of each name, ignoring case. -/
def firsts : List Encounter → List Encounter
  | [] => []
  | met :: rest => met :: (firsts rest).filter fun later => !Text.sameLetters met.name later.name

theorem pairwise_firsts (calls : List Encounter) :
    (firsts calls).Pairwise fun met later => Text.sameLetters met.name later.name = false := by
  induction calls with
  | nil => exact .nil
  | cons first rest ih =>
      refine .cons ?_ (ih.filter _)
      intro later member
      simpa using (List.mem_filter.mp member).2

theorem sameLetters_self (name : Text) : Text.sameLetters name name = true :=
  (Text.sameLetters_iff name name).mpr rfl

/-- Every name is among the first ones. -/
theorem exists_mem_firsts {calls : List Encounter} {met : Encounter} (member : met ∈ calls) :
    ∃ first ∈ firsts calls, Text.sameLetters first.name met.name = true := by
  induction calls with
  | nil => cases member
  | cons head rest ih =>
      by_cases same : Text.sameLetters head.name met.name = true
      · exact ⟨head, List.mem_cons_self .., same⟩
      · rcases List.mem_cons.mp member with rfl | later
        · exact absurd (sameLetters_self met.name) same
        · obtain ⟨first, inside, equal⟩ := ih later
          have apart : Text.sameLetters head.name first.name = false := by
            by_contra together
            rw [Bool.not_eq_false, Text.sameLetters_iff] at together
            rw [Text.sameLetters_iff] at same equal
            exact same (together.trans equal)
          refine ⟨first, List.mem_cons_of_mem _ (List.mem_filter.mpr ⟨inside, ?_⟩), equal⟩
          rw [apart]
          rfl

end Encounter

/-! ## Reports -/

namespace Progress

variable {policy : CasePolicy}

/-- What has been reported, and under which names. -/
abbrev Reports := List Diagnosis × NameSet .insensitive

def reports (progress : Progress policy) : Reports := (progress.unresolved, progress.reported)

/-- The reports with one more unknown call. -/
def Reports.add (reports : Reports) (met : Encounter) : Reports :=
  (if reports.2.contains met.name then reports.1 else reports.1 ++ [met.diagnosis],
    reports.2.add met.name)

/-- Of the calls reported one after the other, the first of each name remains. -/
theorem Reports.fst_foldl_add (reports : Reports) (calls : List Encounter) :
    (calls.foldl add reports).1 = reports.1 ++
      ((Encounter.firsts calls).filter fun met => !reports.2.contains met.name).map
        Encounter.diagnosis := by
  induction calls generalizing reports with
  | nil => exact (List.append_nil _).symm
  | cons met rest ih =>
      have known (name : Text) : (reports.add met).2.contains name =
          (Text.sameLetters met.name name || reports.2.contains name) := by
        refine (NameTable.contains_insert reports.2 met.name name ()).trans ?_
        congr 1
        rw [Bool.eq_iff_iff, decide_eq_true_iff, Text.sameLetters_iff]
        rfl
      have rest_eq : (Encounter.firsts rest).filter (fun later =>
            !(reports.add met).2.contains later.name) =
          ((Encounter.firsts rest).filter fun later =>
            !Text.sameLetters met.name later.name).filter fun later =>
              !reports.2.contains later.name := by
        rw [List.filter_filter]
        congr 1
        funext later
        rw [known, Bool.not_or, Bool.and_comm]
      rw [List.foldl_cons, ih, rest_eq, Encounter.firsts, List.filter_cons]
      cases here : reports.2.contains met.name <;> simp [add, here]

/-- Where nothing has been reported before, just the first call of each name is. -/
theorem Reports.fst_foldl_add_nothing (calls : List Encounter) :
    (calls.foldl add ([], .empty)).1 = (Encounter.firsts calls).map Encounter.diagnosis := by
  have fresh : (Encounter.firsts calls).filter (fun met =>
      !NameTable.contains (.empty : NameSet .insensitive) met.name) = Encounter.firsts calls :=
    List.filter_eq_self.mpr fun met _ => rfl
  rw [fst_foldl_add, List.nil_append, fresh]

end Progress

/-! ## Renamed bodies -/

namespace Renamer

variable {config : Config} (renamer : Renamer config)

/-- Renaming changes the text of a card and nothing else. -/
theorem eq_withText_of_bodyCard {scopes : Scopes config.casePolicy} {card image : Card}
    (renamed : renamer.bodyCard scopes (renamer.namedCard card) = .ok image) :
    image = { card with text := image.text } := by
  have named : ∃ text, renamer.namedCard card = { card with text } := by
    rcases renamer.namedCard_cases card with same | ⟨name, model, line, -, -, -, changed⟩
    · exact ⟨card.text, same⟩
    · exact ⟨line, changed⟩
  obtain ⟨text, named⟩ := named
  rw [named] at renamed
  rcases renamer.bodyCard_cases renamed with rfl | ⟨-, -, line, -, rfl⟩ | ⟨-, -, rfl⟩ <;> rfl

/-- The cards of a renamed body are the images of the cards of the body, in order. -/
theorem forall₂_body {scopes : Scopes config.casePolicy} {deck : Deck}
    (ok : (renamer.body scopes deck).failure = none) :
    List.Forall₂ (fun card image =>
        renamer.bodyCard (renamer.bodyScopes scopes deck) (renamer.namedCard card) = .ok image)
      deck (renamer.body scopes deck).deck := by
  rw [body_eq] at ok ⊢
  dsimp only at ok ⊢
  generalize renamer.bodyScopes scopes deck = inner at ok ⊢
  induction deck with
  | nil => exact .nil
  | cons card rest ih =>
      rw [List.map_cons, bodyCards] at ok ⊢
      split at ok
      · cases ok
      next image renamed => exact .cons renamed (ih ok)

end Renamer

namespace Expansion

variable {config : Config} (catalog : Catalog)

/-! ## The calls of an expansion -/

/-- The call on a card, if there is one, and the calls in the body behind it. -/
def encountersOn (inside : Call → Definition → List Encounter) (depth : Nat)
    (params : ParamTable) (scopes : Scopes config.casePolicy) (card : Card) : List Encounter :=
  if card.isLive && config.directives.isCall card.keyword then
    match Call.read? card.text with
    | none => []
    | some call =>
        let name := call.target params
        let found := scopes.definition? name
        let deeper := match found with
          | none => []
          | some definition => if definition.isEmpty then [] else inside call definition
        { depth, card, inst := call.inst, name, found } :: deeper
  else []

/-- The calls on some cards and, behind each one, in the body of its definition, as far as there
is room. -/
def encountersIn : (room depth : Nat) → ParamTable → Scopes config.casePolicy → Deck →
    List Encounter
  | 0, depth, params, scopes, deck =>
      deck.flatMap (encountersOn (fun _ _ => []) depth params scopes)
  | room + 1, depth, params, scopes, deck =>
      let inside (call : Call) (definition : Definition) : List Encounter :=
        match scopes.enter? with
        | none => []
        | some inner =>
            let start : Progress config.casePolicy := { scopes := inner }
            encountersIn room (depth + 1)
              (Call.layer config.merge params definition.defaults call.assignments)
              (inner.withTop (openingFrame definition.body start))
              (extractionOf definition.body start).deck
      deck.flatMap (encountersOn inside depth params scopes)

/-- The calls on some cards that are walked over these scopes, depth first. -/
def encounters (depth : Nat) (params : ParamTable) (scopes : Scopes config.casePolicy)
    (deck : Deck) : List Encounter :=
  encountersIn scopes.room depth params scopes deck

/-- The calls in the body of a definition, for a call of it. -/
def encountersInside (depth : Nat) (params : ParamTable) (scopes : Scopes config.casePolicy)
    (call : Call) (definition : Definition) : List Encounter :=
  match scopes.enter? with
  | none => []
  | some inner =>
      let start : Progress config.casePolicy := { scopes := inner }
      encounters (depth + 1) (Call.layer config.merge params definition.defaults call.assignments)
        (inner.withTop (openingFrame definition.body start))
        (extractionOf definition.body start).deck

/-- The room that is counted down is that of the scopes. -/
theorem encounters_eq (depth : Nat) (params : ParamTable) (scopes : Scopes config.casePolicy)
    (deck : Deck) :
    encounters depth params scopes deck =
      deck.flatMap (encountersOn (encountersInside depth params scopes) depth params scopes) := by
  unfold encounters
  cases room : scopes.room with
  | zero =>
      have full := (Scopes.enter?_eq_none_iff scopes).mpr room
      have nothing : encountersInside depth params scopes = fun _ _ => [] := by
        funext call definition
        rw [encountersInside, full]
      rw [nothing]
      rfl
  | succ less =>
      rw [encountersIn]
      congr 2
      funext call definition
      unfold encountersInside
      split
      · rfl
      next inner entered =>
        have smaller := Scopes.room_enter? entered
        have left : inner.room = less := by omega
        unfold encounters
        dsimp only
        rw [Scopes.room_withTop, left]

theorem encounters_cons (depth : Nat) (params : ParamTable) (scopes : Scopes config.casePolicy)
    (card : Card) (rest : Deck) :
    encounters depth params scopes (card :: rest) =
      encountersOn (encountersInside depth params scopes) depth params scopes card ++
        encounters depth params scopes rest := by
  rw [encounters_eq, encounters_eq, List.flatMap_cons]

/-- The unknown calls of a level. -/
def unknownAt (depth : Nat) (params : ParamTable) (deck : Deck)
    (progress : Progress config.casePolicy) : List Encounter :=
  (encounters depth (opening depth params deck progress).2.1
    (opening depth params deck progress).1.scopes
    (opening depth params deck progress).2.2).filter (Encounter.isUnknown config)

/-- The unknown calls that a body adds are those of the level opened for it. -/
theorem filter_encountersInside {depth : Nat} {params : ParamTable}
    {progress : Progress config.casePolicy} {inner : Scopes config.casePolicy}
    (entered : progress.scopes.enter? = some inner) (call : Call) (definition : Definition) :
    (encountersInside depth params progress.scopes call definition).filter
        (Encounter.isUnknown config) =
      unknownAt (depth + 1)
        (Call.layer config.merge params definition.defaults call.assignments) definition.body
        (progress.withScopes inner) := by
  rw [encountersInside, entered]
  rfl

/-! ## Notes -/

end Expansion

/-- The cards with a note. -/
def Deck.noted (deck : Deck) : Deck := deck.filter fun card => card.note.isSome

theorem Deck.noted_append (front back : Deck) :
    (front ++ back).noted = front.noted ++ back.noted := List.filter_append ..

theorem Deck.Unmarked.noted {deck : Deck} (clean : deck.Unmarked) : deck.noted = [] := by
  apply List.filter_eq_nil_iff.mpr
  intro card member
  simp [clean card member]

namespace Expansion

variable {config : Config} (catalog : Catalog)

variable (config) in
/-- A card of a level that many calls deep shows an unknown call: the call itself with its note, or
what is left of it when it is renamed for the instances on the way out. -/
inductive Shows (met : Encounter) : (depth : Nat) → Card → Prop where
  | here (clean : met.card.note = none) :
      Shows met met.depth (met.card.annotate met.fault.message)
  | out {depth : Nat} {card image : Card} (renamer : Renamer config)
      (scopes : Scopes config.casePolicy) (inside : Shows met (depth + 1) card)
      (renamed : renamer.bodyCard scopes (renamer.namedCard card) = .ok image) :
      Shows met depth image

/-- The card has the note of the call; its number and its state are those of the call. -/
theorem Shows.fields {met : Encounter} {depth : Nat} {card : Card}
    (shown : Shows config met depth card) :
    card.note = some met.fault.message ∧ card.number = met.card.number ∧
      card.isLive = met.card.isLive := by
  induction shown with
  | here clean =>
      refine ⟨?_, rfl, rfl⟩
      rw [Card.annotate, clean]
      rfl
  | out renamer scopes inside renamed ih =>
      rw [renamer.eq_withText_of_bodyCard renamed]
      exact ih

/-- On the way from `progress` to `next` the unknown calls are reported, and the cards show each
of them. -/
structure Batches (depth : Nat) (unknown : List Encounter)
    (progress next : Progress config.casePolicy) (cards : Deck) : Prop where
  reports : next.reports = unknown.foldl .add progress.reports
  notes : List.Forall₂ (fun met => Shows config met depth) unknown cards.noted

/-- Every clean level that is expanded so without a failure tells of its unknown calls. -/
def BatchesLevels (depth : Nat) (expand : Expander config) : Prop :=
  ∀ params deck progress, (expand params deck progress).failure = none →
    deck.Unmarked → progress.scopes.Unmarked →
    Batches depth (unknownAt depth params deck progress) progress
      (expand params deck progress).progress (expand params deck progress).deck

section Batches

variable {catalog} {below : Option (Expander config)} {depth : Nat} {params : ParamTable}
  {progress middle next : Progress config.casePolicy} {cards : Deck}

theorem Batches.nothing (same : next.reports = progress.reports) (clean : cards.Unmarked) :
    Batches depth [] progress next cards := by
  refine ⟨same, ?_⟩
  rw [clean.noted]
  exact .nil

theorem Batches.append {first second : List Encounter} {front back : Deck}
    (early : Batches depth first progress middle front)
    (late : Batches depth second middle next back) :
    Batches depth (first ++ second) progress next (front ++ back) := by
  constructor
  · rw [late.reports, early.reports, List.foldl_append]
  · rw [Deck.noted_append]
    exact List.rel_append early.notes late.notes

/-- The unknown calls on a card and behind it. -/
def unknownOn (depth : Nat) (params : ParamTable) (scopes : Scopes config.casePolicy)
    (card : Card) : List Encounter :=
  (encountersOn (encountersInside depth params scopes) depth params scopes card).filter
    (Encounter.isUnknown config)

theorem filter_encounters_cons (scopes : Scopes config.casePolicy) (card : Card) (rest : Deck) :
    (encounters depth params scopes (card :: rest)).filter (Encounter.isUnknown config) =
      unknownOn depth params scopes card ++
        (encounters depth params scopes rest).filter (Encounter.isUnknown config) := by
  rw [encounters_cons, List.filter_append]
  rfl

theorem unknownOn_of_idle (scopes : Scopes config.casePolicy) {card : Card}
    (idle : (card.isLive && config.directives.isCall card.keyword) = false) :
    unknownOn depth params scopes card = [] := by
  unfold unknownOn encountersOn
  simp [idle]

theorem Shows.renamed {unknown : List Encounter} {renamer : Renamer config}
    {scopes : Scopes config.casePolicy} {deck images : Deck}
    (shown : List.Forall₂ (fun met => Shows config met (depth + 1)) unknown deck)
    (renamed : List.Forall₂ (fun card image =>
      renamer.bodyCard scopes (renamer.namedCard card) = .ok image) deck images) :
    List.Forall₂ (fun met => Shows config met depth) unknown images := by
  induction shown generalizing images with
  | nil =>
      cases renamed
      exact .nil
  | cons here later ih =>
      cases renamed with
      | cons image images => exact .cons (.out renamer scopes here image) (ih images)

/-- What a call becomes tells of the unknown calls on its card and behind it. -/
theorem Replaces.batches {card : Card} (live : card.isLive = true)
    (calls : config.directives.isCall card.keyword = true)
    (deeper : ∀ expand, below = some expand → BatchesLevels (depth + 1) expand)
    (clean : card.note = none) (known : progress.scopes.Unmarked)
    (replaces : Replaces catalog below depth params card progress next cards) :
    Batches depth (unknownOn depth params progress.scopes card) progress next cards := by
  cases replaces with
  | device call letter read unknown mapped =>
      have nothing : unknownOn depth params progress.scopes card = [] := by
        simp [unknownOn, encountersOn, live, calls, read, unknown, Encounter.isUnknown, mapped]
      rw [nothing]
      exact .nothing rfl (Deck.unmarked_singleton.mpr clean)
  | unknown call read unknown unmapped =>
      let met : Encounter := ⟨depth, card, call.inst, call.target params, none⟩
      have one : unknownOn depth params progress.scopes card = [met] := by
        simp [unknownOn, encountersOn, live, calls, read, unknown, Encounter.isUnknown, unmapped,
          met]
      rw [one]
      refine ⟨rfl, ?_⟩
      have noted : Deck.noted [card.annotate met.fault.message] =
          [card.annotate met.fault.message] := by
        simp [Deck.noted, Card.annotate, clean]
      show List.Forall₂ _ [met] (Deck.noted [card.annotate met.fault.message])
      rw [noted]
      exact .cons (.here clean) .nil
  | dropped call definition warning read known empty =>
      have nothing : unknownOn depth params progress.scopes card = [] := by
        simp [unknownOn, encountersOn, live, calls, read, known, empty, Encounter.isUnknown]
      rw [nothing]
      exact .nothing rfl (Deck.unmarked_singleton.mpr clean)
  | inlined inlining whole renamed =>
      have inside : unknownOn depth params progress.scopes card =
          unknownAt (depth + 1)
            (Call.layer config.merge params inlining.definition.defaults
              inlining.call.assignments)
            inlining.definition.body (progress.withScopes inlining.scopes) := by
        rw [← filter_encountersInside inlining.entered]
        simp [unknownOn, encountersOn, live, calls, inlining.read, inlining.known,
          inlining.nonempty, Encounter.isUnknown]
      have level := deeper inlining.expand inlining.deeper _ _ _ whole
        (known.definition? inlining.known) (known.enter? inlining.entered)
      rw [inside]
      refine ⟨level.reports, ?_⟩
      have images := (inlining.renamer catalog).forall₂_body renamed
      have kept : Deck.noted (card.disable :: (inlining.body catalog).deck) =
          Deck.noted (inlining.body catalog).deck := by
        simp [Deck.noted, Card.disable, clean]
      rw [kept]
      -- a card has a note after it is renamed just in case it had one before
      refine Shows.renamed level.notes (List.rel_filter ?_ images)
      intro first second image
      rw [(inlining.renamer catalog).eq_withText_of_bodyCard image]

theorem Walks.batches (tame : TameBelow (depth + 1) below)
    (deeper : ∀ expand, below = some expand → BatchesLevels (depth + 1) expand)
    {deck out : Deck} (clean : deck.Unmarked) (known : progress.scopes.Unmarked)
    (walks : Walks catalog below depth params deck progress out next) :
    Batches depth
      ((encounters depth params progress.scopes deck).filter (Encounter.isUnknown config))
      progress next out := by
  induction walks with
  | nil progress =>
      rw [encounters_eq]
      exact .nothing rfl Deck.unmarked_nil
  | idle idle tail ih =>
      obtain ⟨here, later⟩ := Deck.unmarked_cons.mp clean
      rw [filter_encounters_cons, unknownOn_of_idle _ (by rw [idle]; rfl)]
      exact Batches.append (.nothing rfl (Deck.unmarked_singleton.mpr here)) (ih later known)
  | call live calls replaces tail ih =>
      obtain ⟨here, later⟩ := Deck.unmarked_cons.mp clean
      have same := replaces.scopes_eq tame
      have behind := ih later (same ▸ known)
      rw [same] at behind
      rw [filter_encounters_cons]
      exact (replaces.batches live calls deeper here known).append behind
  | @statement card rest out progress next live other tail ih =>
      obtain ⟨here, later⟩ := Deck.unmarked_cons.mp clean
      have image : Deck.Unmarked
          [{ card with text := substituteAt config catalog depth params card.text }] :=
        Deck.unmarked_singleton.mpr here
      rw [filter_encounters_cons, unknownOn_of_idle _ (by rw [other, Bool.and_false])]
      exact Batches.append (.nothing rfl image) (ih later known)

variable (catalog) in
/-- A level without a failure reports the unknown calls of its cards and bodies and shows each. -/
theorem batchesLevels_expandLevel (room depth : Nat) :
    BatchesLevels depth (expandLevel catalog room depth : Expander config) := by
  intro params deck progress ok
  refine expandLevel_induction catalog
    (motive := fun depth params deck progress level =>
      deck.Unmarked → progress.scopes.Unmarked →
        Batches depth (unknownAt depth params deck progress) progress level.progress level.deck)
    ?_ room depth params deck progress ok
  intro below depth tame deeper params deck progress ok clean known
  obtain ⟨-, walks, -⟩ := walks_of_levelWith catalog ok
  obtain ⟨cards, scopes⟩ := @unmarked_opening config depth params deck progress clean known
  have walked := walks.batches tame deeper cards scopes
  -- what a level does before its walk reports nothing
  have started : (opening depth params deck progress).1.reports = progress.reports := by
    unfold opening collect
    split <;> rfl
  refine ⟨?_, walked.notes⟩
  rw [walked.reports, started]
  rfl

end Batches

/-! ## Runs -/

variable {store : CacheStore} {bound : Bindings} {block : Option Text} {deck : Deck}

variable (config) in
/-- The unknown calls of a run, depth first. -/
def unknownCalls (store : CacheStore) (bound : Bindings) (block : Option Text) (deck : Deck) :
    List Encounter :=
  match Visit.top? config store bound block deck with
  | none => []
  | some top => unknownAt top.depth top.params top.deck top.progress

/-- Neither the deck nor the bodies of the named block have notes. -/
structure CleanStart (store : CacheStore) (block : Option Text) (deck : Deck) : Prop where
  deck : deck.Unmarked
  bodies : ∀ name cached, block = some name → store.get? name = some cached →
    Definition.AllUnmarked cached.definitions

theorem cleanStart_of_unmarked (clean : deck.Unmarked) (blocks : store.Unmarked)
    (block : Option Text) : CleanStart store block deck := by
  refine ⟨clean, ?_⟩
  intro name cached _ found
  obtain ⟨entry, member, rfl⟩ := NameTable.exists_mem_of_get? found
  exact blocks entry member

theorem CleanStart.top {top : Visit config} (clean : CleanStart store block deck)
    (starts : Visit.top? config store bound block deck = some top) :
    top.deck.Unmarked ∧ top.progress.scopes.Unmarked := by
  have alone {frame : Frame config.casePolicy} (bound : Bindings)
      (known : Definition.AllUnmarked frame.definitions) :
      (topProgress frame bound).scopes.Unmarked := by
    intro other member
    rw [List.mem_singleton.mp member]
    exact known
  cases block with
  | none =>
      cases starts
      exact ⟨clean.deck, alone bound Definition.allUnmarked_empty⟩
  | some name =>
      obtain ⟨cached, found, rfl⟩ := Option.map_eq_some_iff.mp starts
      refine ⟨Deck.unmarked_append.mpr ⟨?_, clean.deck⟩,
        alone _ (clean.bodies name cached rfl found)⟩
      intro card member
      obtain ⟨entry, -, rfl⟩ := List.mem_map.mp member
      rfl

/-- A run without a fatal fault expands a top level that does not fail. -/
theorem whole_of_nonfatal
    (nonfatal : ∀ failure, run config catalog store bound block deck = .error failure →
      ∀ diagnosis ∈ failure.diagnoses, diagnosis.fault.isFatal = false) :
    ∃ top, Visit.top? config store bound block deck = some top ∧
      (top.expand catalog).failure = none := by
  cases starts : Visit.top? config store bound block deck with
  | none =>
      cases block with
      | none => cases starts
      | some name =>
          have missing := Option.map_eq_none_iff.mp starts
          have refused := nonfatal _ (by rw [run, missing]) _ (List.mem_singleton.mpr rfl)
          cases refused
  | some top =>
      refine ⟨top, rfl, ?_⟩
      have ran := Visit.run_of_top? catalog starts
      by_contra failed
      obtain ⟨diagnosis, stopped⟩ := Option.ne_none_iff_exists'.mp failed
      have fatal := endsFatally_expandLevel catalog _ _ _ _ _ _ stopped
      rw [ofLevel, stopped] at ran
      rw [nonfatal _ ran _ (List.mem_singleton.mpr rfl)] at fatal
      cases fatal

/-- A top level that does not fail shows the unknown calls and reports the first of each name. -/
theorem unresolved_of_whole {top : Visit config} (clean : CleanStart store block deck)
    (starts : Visit.top? config store bound block deck = some top)
    (whole : (top.expand catalog).failure = none) :
    (top.expand catalog).progress.unresolved =
        (Encounter.firsts (unknownCalls config store bound block deck)).map Encounter.diagnosis ∧
      List.Forall₂ (fun met => Shows config met 0) (unknownCalls config store bound block deck)
        (top.expand catalog).deck.noted := by
  obtain ⟨unnoted, scopes⟩ := clean.top starts
  unfold unknownCalls
  rw [starts]
  obtain ⟨frame, bindings, cards, rfl⟩ := Visit.exists_top_of_top? starts
  have batches := batchesLevels_expandLevel catalog _ _ _ _ _ whole unnoted scopes
  refine ⟨?_, batches.notes⟩
  exact (congrArg Prod.fst batches.reports).trans (Progress.Reports.fst_foldl_add_nothing _)

variable (config) in
/-- A failure that tells of these calls and of nothing else. -/
structure TellsOf (unknown : List Encounter) (failure : Failure) : Prop where
  unresolved : ∀ diagnosis ∈ failure.diagnoses, ∃ name, diagnosis.fault = .unknownSubcircuit name
  inOrder : failure.diagnoses = (Encounter.firsts unknown).map Encounter.diagnosis
  distinct : failure.diagnoses.Pairwise fun first second => ∀ name other,
    first.fault = .unknownSubcircuit name → second.fault = .unknownSubcircuit other →
      Text.sameLetters name other = false
  complete : ∀ met ∈ unknown, ∃ diagnosis ∈ failure.diagnoses, ∃ name,
    diagnosis.fault = .unknownSubcircuit name ∧ Text.sameLetters name met.name = true
  shown : ∃ cards, failure.deck = some cards ∧
    List.Forall₂ (fun met card => Shows config met 0 card ∧
      card.note = some (Fault.unknownSubcircuit met.name).message ∧
      card.number = met.card.number ∧ card.isLive = met.card.isLive) unknown cards.noted

theorem tellsOf_of_eq {unknown : List Encounter} {diagnoses : List Diagnosis} {cards : Deck}
    (inOrder : diagnoses = (Encounter.firsts unknown).map Encounter.diagnosis)
    (shown : List.Forall₂ (fun met => Shows config met 0) unknown cards.noted) :
    TellsOf config unknown ⟨diagnoses, some cards⟩ := by
  subst inOrder
  refine ⟨?_, rfl, ?_, ?_, cards, rfl, ?_⟩
  · intro diagnosis member
    obtain ⟨met, -, rfl⟩ := List.mem_map.mp member
    exact ⟨met.name, rfl⟩
  · refine List.pairwise_map.mpr ((Encounter.pairwise_firsts unknown).imp ?_)
    rintro first second apart name other ⟨⟩ ⟨⟩
    exact apart
  · intro met member
    obtain ⟨first, inside, same⟩ := Encounter.exists_mem_firsts member
    exact ⟨first.diagnosis, List.mem_map_of_mem inside, first.name, rfl, same⟩
  · exact shown.imp fun met card visible => ⟨visible, visible.fields⟩

/-- Unknown subcircuits are told all at once.  A run that fails without a fatal fault reports the
first unknown call of each name, in the order in which the calls are met, and its deck shows every
unknown call with a note of its own.  Without a fatal fault a run succeeds just in case no call is
unknown. -/
theorem unknown_calls_told_at_once (clean : CleanStart store block deck) :
    (∀ failure, run config catalog store bound block deck = .error failure →
      (∀ diagnosis ∈ failure.diagnoses, diagnosis.fault.isFatal = false) →
      TellsOf config (unknownCalls config store bound block deck) failure) ∧
    ((∀ failure, run config catalog store bound block deck = .error failure →
        ∀ diagnosis ∈ failure.diagnoses, diagnosis.fault.isFatal = false) →
      ((∃ expansion, run config catalog store bound block deck = .ok expansion) ↔
        unknownCalls config store bound block deck = [])) := by
  constructor
  · intro failure failed nonfatal
    obtain ⟨top, starts, whole⟩ := whole_of_nonfatal catalog (fun other same => by
      rw [failed] at same
      cases same
      exact nonfatal)
    obtain ⟨unresolved, shown⟩ := unresolved_of_whole catalog clean starts whole
    rw [Visit.run_of_top? catalog starts, ofLevel, whole] at failed
    dsimp only at failed
    split at failed
    · cases failed
    · cases failed
      exact tellsOf_of_eq unresolved shown
  · intro nonfatal
    obtain ⟨top, starts, whole⟩ := whole_of_nonfatal catalog nonfatal
    obtain ⟨unresolved, -⟩ := unresolved_of_whole catalog clean starts whole
    rw [Visit.run_of_top? catalog starts, ofLevel, whole]
    dsimp only
    rw [unresolved, List.isEmpty_map]
    cases unknownCalls config store bound block deck with
    | nil => simp [Encounter.firsts]
    | cons met rest => simp [Encounter.firsts]

theorem unmarked_storeOf (config : Config) (name : Text) (lines : List String) :
    (storeOf config name lines).Unmarked := by
  unfold storeOf
  split
  · exact CacheStore.unmarked_empty
  next stored store added =>
    refine CacheStore.unmarked_empty.add ?_ added
    intro card member
    obtain ⟨line, -, rfl⟩ := List.mem_map.mp member
    rfl

/-- Three unknown calls at three depths, two of them of one name. -/
theorem unknown_calls_told_at_once_nested :
    let store := storeOf {} "lib".toList [".subckt leaf a", "x9 a absent", ".ends"]
    let deck : Deck := [".subckt outer p", "x2 p missing", "x3 p leaf", ".ends", "x1 n outer",
      "r1 n 0 1", "x4 n MISSING"].map fun line => { text := line.toList }
    let unknown := unknownCalls {} store ⟨.empty, .empty⟩ (some "LIB".toList) deck
    unknown.map (fun met => (met.depth, met.name)) =
        [(1, "missing".toList), (2, "absent".toList), (0, "MISSING".toList)] ∧
      ∃ failure, run {} .standard store ⟨.empty, .empty⟩ (some "LIB".toList) deck =
          .error failure ∧
        failure.diagnoses.map Diagnosis.fault =
          [.unknownSubcircuit "missing".toList, .unknownSubcircuit "absent".toList] ∧
        TellsOf {} unknown failure := by
  intro store deck unknown
  have unnoted : deck.Unmarked := by
    intro card member
    obtain ⟨line, -, rfl⟩ := List.mem_map.mp member
    rfl
  have blocks : store.Unmarked := unmarked_storeOf {} _ _
  have clean := cleanStart_of_unmarked unnoted blocks (some "LIB".toList)
  have told : faults (run {} .standard store ⟨.empty, .empty⟩ (some "LIB".toList) deck) =
      [.unknownSubcircuit "missing".toList, .unknownSubcircuit "absent".toList] := by
    decide +kernel
  have mild : ∀ fault ∈ faults (run {} .standard store ⟨.empty, .empty⟩ (some "LIB".toList) deck),
      fault.isFatal = false := by
    rw [told]
    decide
  refine ⟨by decide +kernel, ?_⟩
  cases ran : run {} .standard store ⟨.empty, .empty⟩ (some "LIB".toList) deck with
  | ok expansion =>
      rw [ran] at told
      cases told
  | error failure =>
      rw [ran] at told mild
      refine ⟨failure, rfl, told, (unknown_calls_told_at_once .standard clean).1 failure ran ?_⟩
      intro diagnosis member
      exact mild _ (List.mem_map_of_mem member)

end Expansion

end Netlist

import Netlist.Proofs.Walk

/-!
# The final deck beside the deck it comes from

Without device leads, an expansion that succeeds keeps every card of the deck
once and in order.  Cards of definitions, parameter statements and calls are
disabled and keep their text, other live cards stay live and have parameters
substituted, and cards are added only behind a call.  The steps of the top
level are these calls in order, and each step lists the live cards that were
added behind its call.
-/

namespace Netlist

namespace Expansion

section Relation

variable (config : Config) (catalog : Catalog) (definitions : DefinitionTable)
  (params : ParamTable)

/-- The cards of a deck, read while `nest` definitions are open, beside the steps of their calls
and the cards that are left; one rule for each kind of card. -/
inductive Unfolds : (nest : Nat) → Deck → List Step → Deck → Prop where
  | done (nest : Nat) : Unfolds nest [] [] []
  | idle {nest : Nat} {card : Card} {rest out : Deck} {steps : List Step}
      (idle : card.isLive = false) (tail : Unfolds nest rest steps out) :
      Unfolds nest (card :: rest) steps (card :: out)
  /-- The card belongs to a definition or delimits one. -/
  | lifted {nest : Nat} {card : Card} {rest out : Deck} {steps : List Step}
      (lifted : card.isLifted config.directives nest = true)
      (tail : Unfolds (card.nestAfter config.directives nest) rest steps out) :
      Unfolds nest (card :: rest) steps (card.disable :: out)
  | param {card : Card} {rest out : Deck} {steps : List Step} (live : card.isLive = true)
      (outside : card.isLifted config.directives 0 = false)
      (states : config.directives.isParam card.keyword = true)
      (tail : Unfolds 0 rest steps out) :
      Unfolds 0 (card :: rest) steps (card.disable :: out)
  /-- A call of a definition without a live statement. -/
  | dropped {card : Card} {rest out : Deck} {steps : List Step} {call : Call}
      {definition : Definition} (live : card.isLive = true)
      (outside : card.isLifted config.directives 0 = false)
      (other : config.directives.isParam card.keyword = false)
      (calls : config.directives.isCall card.keyword = true)
      (read : Call.read? card.text = some call)
      (known : definitions.get? (call.target params) = some definition)
      (empty : definition.isEmpty = true) (tail : Unfolds 0 rest steps out) :
      Unfolds 0 (card :: rest) steps (card.disable :: out)
  /-- A call of any other definition: cards are added, and the step lists the live ones. -/
  | inlined {card : Card} {rest out added : Deck} {steps : List Step} {call : Call}
      {definition : Definition} (live : card.isLive = true)
      (outside : card.isLifted config.directives 0 = false)
      (other : config.directives.isParam card.keyword = false)
      (calls : config.directives.isCall card.keyword = true)
      (read : Call.read? card.text = some call)
      (known : definitions.get? (call.target params) = some definition)
      (nonempty : definition.isEmpty = false) (tail : Unfolds 0 rest steps out) :
      Unfolds 0 (card :: rest)
        ({ depth := 0
           inst := call.inst
           subcircuit := definition.name
           call := card.text
           expanded := added.liveTexts } :: steps)
        (card.disable :: (added ++ out))
  | statement {card : Card} {rest out : Deck} {steps : List Step} (live : card.isLive = true)
      (outside : card.isLifted config.directives 0 = false)
      (other : config.directives.isParam card.keyword = false)
      (notCall : config.directives.isCall card.keyword = false)
      (tail : Unfolds 0 rest steps out) :
      Unfolds 0 (card :: rest) steps
        ({ card with text := substituteTop config catalog params card.text } :: out)

end Relation

variable {config : Config} {catalog : Catalog}

/-- What is done to a card before the walk of the top level. -/
theorem collectParams_liftDefinitions_cons (directives : Directives) (nest : Nat)
    (bound : Bindings) (card : Card) (rest : Deck) :
    ∃ next, ((Deck.liftDefinitions directives nest (card :: rest)).collectParams
        directives bound).2 =
      (if card.isLifted directives nest || (card.isLive && directives.isParam card.keyword) then
        card.disable else card) ::
      ((rest.liftDefinitions directives (card.nestAfter directives nest)).collectParams
        directives next).2 := by
  rw [Deck.liftDefinitions]
  cases lifted : card.isLifted directives nest with
  | true =>
      refine ⟨bound, ?_⟩
      rw [if_pos rfl, Deck.collectParams, if_neg (by simp [Card.isLive_disable])]
      rfl
  | false =>
      rw [if_neg (by simp), Deck.collectParams, Bool.false_or]
      split
      · exact ⟨_, rfl⟩
      · exact ⟨_, rfl⟩

theorem nest_eq_zero_of_outside {directives : Directives} {nest : Nat} {card : Card}
    (live : card.isLive = true) (outside : card.isLifted directives nest = false) :
    nest = 0 ∧ card.nestAfter directives nest = 0 := by
  have parts : (directives.isStart card.keyword = false ∧
      directives.isEnd card.keyword = false) ∧ nest = 0 := by
    simpa [Card.isLifted, live] using outside
  obtain ⟨⟨notStart, notEnd⟩, rfl⟩ := parts
  exact ⟨rfl, by simp [Card.nestAfter, notStart, notEnd]⟩

theorem deviceLetter?_of_noLeads (noLeads : config.deviceLeads = .empty) (name : Text) :
    config.deviceLetter? name = none := by
  unfold Config.deviceLetter?
  rw [noLeads]
  rfl

/-- The steps of the top level. -/
def topSteps (trace : List Step) : List Step := trace.filter fun step => step.depth == 0

theorem topSteps_of_deep {steps : List Step} (deep : ∀ step ∈ steps, 0 < step.depth) :
    topSteps steps = [] := by
  apply List.filter_eq_nil_iff.mpr
  intro step member
  have positive := deep step member
  simp only [beq_iff_eq]
  omega

theorem topSteps_append (first second : List Step) :
    topSteps (first ++ second) = topSteps first ++ topSteps second :=
  List.filter_append ..

theorem Walks.of_idle {below : Option (Expander config)} {depth : Nat} {params : ParamTable}
    {card : Card} {rest out : Deck} {progress next : Progress config.casePolicy}
    (idle : card.isLive = false)
    (walks : Walks catalog below depth params (card :: rest) progress out next) :
    ∃ behind, out = card :: behind ∧
      Walks catalog below depth params rest progress behind next := by
  cases walks with
  | idle idle tail => exact ⟨_, rfl, tail⟩
  | call live calls replaces tail =>
      rw [idle] at live
      cases live
  | statement live other tail =>
      rw [idle] at live
      cases live

/-- A call of the top level that is not reported is dropped or becomes cards with a step. -/
theorem unfolds_call (noLeads : config.deviceLeads = .empty) {below : Option (Expander config)}
    (tame : TameBelow 1 below) {definitions : DefinitionTable}
    {params : ParamTable} {card : Card} {rest cards out : Deck}
    {progress middle next : Progress config.casePolicy}
    (known : ∀ name, progress.scopes.definition? name = definitions.get? name)
    (consistent : progress.Consistent) (live : card.isLive = true)
    (outside : card.isLifted config.directives 0 = false)
    (other : config.directives.isParam card.keyword = false)
    (calls : config.directives.isCall card.keyword = true)
    (replaces : Replaces catalog below 0 params card progress middle cards)
    (quiet : middle.unresolved = [])
    (tail : ∃ steps, Unfolds config catalog definitions params 0 rest steps out ∧
      topSteps next.trace = topSteps middle.trace ++ steps) :
    ∃ steps, Unfolds config catalog definitions params 0 (card :: rest) steps (cards ++ out) ∧
      topSteps next.trace = topSteps progress.trace ++ steps := by
  obtain ⟨steps, unfolds, traced⟩ := tail
  cases replaces with
  | device call letter read unknown mapped =>
      rw [deviceLetter?_of_noLeads noLeads] at mapped
      cases mapped
  | unknown call read unknown unmapped =>
      exact absurd quiet (consistent.reportUnknown (call.target params) card)
  | dropped call definition warning read found empty =>
      rw [known] at found
      exact ⟨steps, .dropped live outside other calls read found empty unfolds, traced⟩
  | inlined inlining whole renamed =>
      obtain ⟨inner, after, deep⟩ := inlining.trace_after catalog tame whole
      have found := inlining.known
      rw [known] at found
      refine ⟨inlining.step catalog 0 :: steps,
        .inlined live outside other calls inlining.read found inlining.nonempty unfolds, ?_⟩
      rw [traced, after, topSteps_append, topSteps_append, topSteps_of_deep deep,
        List.append_nil, List.append_assoc]
      rfl

/-- A walk of the top level relates the cards of the deck to those that are left, and adds the
steps of their calls to the trace. -/
theorem unfolds_of_walks (noLeads : config.deviceLeads = .empty)
    {below : Option (Expander config)}
    (tame : TameBelow 1 below) {definitions : DefinitionTable}
    {params : ParamTable} {nest : Nat} {deck out : Deck} {bound : Bindings}
    {progress next : Progress config.casePolicy}
    (walks : Walks catalog below 0 params
      ((deck.liftDefinitions config.directives nest).collectParams config.directives bound).2
      progress out next)
    (known : ∀ name, progress.scopes.definition? name = definitions.get? name)
    (consistent : progress.Consistent) (quiet : next.unresolved = []) :
    ∃ steps, Unfolds config catalog definitions params nest deck steps out ∧
      topSteps next.trace = topSteps progress.trace ++ steps := by
  induction deck generalizing nest bound progress out with
  | nil =>
      cases walks
      exact ⟨[], .done nest, (List.append_nil _).symm⟩
  | cons card rest ih =>
      obtain ⟨later, opened⟩ :=
        collectParams_liftDefinitions_cons config.directives nest bound card rest
      rw [opened] at walks
      cases lifted : card.isLifted config.directives nest with
      | true =>
          rw [lifted, Bool.true_or, if_pos rfl] at walks
          obtain ⟨behind, rfl, tail⟩ := walks.of_idle (Card.isLive_disable card)
          obtain ⟨steps, unfolds, traced⟩ := ih tail known consistent
          exact ⟨steps, .lifted lifted unfolds, traced⟩
      | false =>
          rw [lifted, Bool.false_or] at walks
          cases live : card.isLive with
          | false =>
              rw [live, Bool.false_and, if_neg (by simp),
                Card.nestAfter_of_idle config.directives live] at walks
              obtain ⟨behind, rfl, tail⟩ := walks.of_idle live
              obtain ⟨steps, unfolds, traced⟩ := ih tail known consistent
              exact ⟨steps, .idle live unfolds, traced⟩
          | true =>
              obtain ⟨rfl, outermost⟩ := nest_eq_zero_of_outside live lifted
              rw [live, Bool.true_and, outermost] at walks
              cases states : config.directives.isParam card.keyword with
              | true =>
                  rw [states, if_pos rfl] at walks
                  obtain ⟨behind, rfl, tail⟩ := walks.of_idle (Card.isLive_disable card)
                  obtain ⟨steps, unfolds, traced⟩ := ih tail known consistent
                  exact ⟨steps, .param live lifted states unfolds, traced⟩
              | false =>
                  rw [states, if_neg (by simp)] at walks
                  cases walks with
                  | idle idle tail =>
                      rw [live] at idle
                      cases idle
                  | call _ calls replaces tail =>
                      exact unfolds_call noLeads tame known consistent live lifted states calls
                        replaces ((tail.tame tame).2.unresolved quiet)
                        (ih tail (fun name => by rw [replaces.scopes_eq tame]; exact known name)
                          ((replaces.grows tame).consistent consistent))
                  | statement _ notCall tail =>
                      obtain ⟨steps, unfolds, traced⟩ := ih tail known consistent
                      exact ⟨steps, .statement live lifted states notCall unfolds, traced⟩

theorem definition?_top (frame : Frame config.casePolicy) (bound : Bindings)
    (top : Frame config.casePolicy) (name : Text) :
    ((topProgress frame bound : Progress config.casePolicy).scopes.withTop top).definition? name =
      top.definitions.get? name := by
  show List.findSome? _ [top] = _
  simp

variable (catalog)

/-- An expansion that succeeds loses no card, adds cards behind calls only, and its trace agrees
with its deck. -/
theorem unfolds_of_run (noLeads : config.deviceLeads = .empty) {store : CacheStore}
    {bound : Bindings} {deck : Deck} {expansion : Expansion config.casePolicy}
    (ran : run config catalog store bound none deck = .ok expansion) :
    Unfolds config catalog
      (Extraction.run config.directives config.casePolicy .expand .empty deck).definitions
      expansion.bindings.params 0 deck
      (expansion.trace.filter fun step => step.depth == 0) expansion.deck := by
  obtain ⟨whole, quiet, rfl⟩ := topLevel_of_expandFrom catalog ran
  obtain ⟨below, levels, lifted, walks, kept⟩ := walks_of_topLevel catalog whole
  have tame := tame_of_levels catalog levels
  have known : ∀ name, (opening 0 bound.params deck
      (topProgress {} bound : Progress config.casePolicy)).1.scopes.definition? name =
        (extractionOf deck (topProgress {} bound : Progress config.casePolicy)).definitions.get?
          name := by
    intro name
    rw [scopes_opening]
    exact definition?_top {} bound _ name
  rw [show (opening 0 bound.params deck
      (topProgress {} bound : Progress config.casePolicy)).2.2 =
        ((extractionOf deck (topProgress {} bound : Progress config.casePolicy)).deck.collectParams
          config.directives _).2 from rfl, deck_extractionOf lifted] at walks
  obtain ⟨steps, unfolds, traced⟩ := unfolds_of_walks noLeads tame walks known (fun _ => rfl) quiet
  have same : topSteps (topLevel catalog {} bound deck).progress.trace = steps := traced
  show Unfolds config catalog _ (topLevel catalog {} bound deck).params 0 deck
    (topSteps (topLevel catalog {} bound deck).progress.trace) _
  rw [same, kept]
  exact unfolds

/-- Two calls of a definition with a call inside, a call that is dropped, a parameter statement and
a device, in one deck. -/
theorem unfolds_of_run_mixed :
    let deck : Deck := [".param w=1", ".subckt hollow", ".ends", ".subckt top p",
      ".subckt inner q", "r1 q 0 1", ".ends", "x2 p inner", ".ends", "x1 n top", "x3 hollow",
      "r9 n 0 w", "x4 m top"].map fun line => { text := line.toList }
    ∃ expansion, run {} .standard NameTable.empty ⟨.empty, .empty⟩ none deck = .ok expansion ∧
      expansion.trace.length = 4 ∧
      (expansion.trace.filter fun step => step.depth == 0).map Step.call =
        ["x1 n top".toList, "x4 m top".toList] ∧
      Unfolds {} .standard (Extraction.run {} .insensitive .expand .empty deck).definitions
        expansion.bindings.params 0 deck (expansion.trace.filter fun step => step.depth == 0)
        expansion.deck := by
  intro deck
  refine exists_of_passes (fun expansion => expansion.trace.length == 4 &&
    (expansion.trace.filter fun step => step.depth == 0).map Step.call ==
      ["x1 n top".toList, "x4 m top".toList]) (by decide +kernel) ?_
  intro expansion ran passed
  simp only [Bool.and_eq_true, beq_iff_eq] at passed
  exact ⟨passed.1, passed.2, unfolds_of_run .standard rfl ran⟩

end Expansion

end Netlist

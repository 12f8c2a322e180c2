import Netlist.Proofs.Layering
import Netlist.Proofs.Leading
import Netlist.Proofs.Partition

/-!
# The defaults of a definition

Of the parameter statements in a body, those inside inner definitions are left
alone.  The others are disabled, and what they assign is laid over the defaults
of the header: the last statement that assigns a name gives its value.  Within
a statement the last assignment counts, and only the ones before it resolve its
value.  Functions are kept in a table of their own.
-/

namespace Netlist

/-- The text with every reference replaced by what it is bound to, through chains of at most
`steps` names. -/
def resolveBy (bound : Text → Option Text) : (steps : Nat) → Text → Text
  | 0, text => text
  | steps + 1, text =>
      replaceReferences (fun name => (bound name).map (resolveBy bound steps)) none
        (Token.scan text)

theorem ParamTable.substituteWithin_eq (table : ParamTable) (steps : Nat) :
    table.substituteWithin steps = resolveBy table.get? steps := by
  induction steps with
  | zero => rfl
  | succ steps ih =>
      funext text
      rw [substituteWithin_succ, ih]
      rfl

namespace Assignment

/-- A plain assignment to a name. -/
def sets (name : Text) (item : Assignment) : Bool :=
  item.arguments.isNone && Text.sameLetters item.name name

/-- The function of a name that an assignment defines. -/
def function? (name : Text) (item : Assignment) : Option UserFunction :=
  item.arguments.bind fun arguments =>
    if Text.sameLetters item.name name then some ⟨arguments, item.value⟩ else none

/-- What a name is bound to by assignments that stand last first: by the first one that sets it,
whose value the ones behind resolve. -/
def boundBy : List Assignment → Text → Option Text
  | [], _ => none
  | item :: earlier, name =>
      if item.sets name then
        some (resolveBy (boundBy earlier) ParamTable.longestChain item.value)
      else boundBy earlier name

/-- What a parameter statement binds a name to. -/
def stated (text name : Text) : Option Text := boundBy (read text).reverse name

theorem boundBy_eq_none_iff (items : List Assignment) (name : Text) :
    boundBy items name = none ↔ ∀ item ∈ items, item.sets name = false := by
  induction items with
  | nil => simp [boundBy]
  | cons item earlier ih =>
      rw [boundBy, List.forall_mem_cons, ← ih]
      cases item.sets name <;> simp

theorem stated_eq_none_iff (text name : Text) :
    stated text name = none ↔ ∀ item ∈ read text, item.sets name = false := by
  unfold stated
  rw [boundBy_eq_none_iff]
  simp only [List.mem_reverse]

end Assignment

namespace Bindings

/-- The values of a statement depend on nothing but the statement. -/
theorem get?_params_foldl_assign (functions : FunctionTable) (items : List Assignment) :
    (items.foldl assign ⟨.empty, functions⟩).params.get? = Assignment.boundBy items.reverse := by
  induction items using List.reverseRecOn with
  | nil => rfl
  | append_singleton items item ih =>
      funext name
      rw [List.foldl_append, List.foldl_cons, List.foldl_nil, List.reverse_append,
        List.reverse_singleton, List.singleton_append, Assignment.boundBy, assign]
      cases function : item.arguments with
      | some arguments =>
          simp only [Assignment.sets, function, Option.isNone_some, Bool.false_and,
            Bool.false_eq_true, if_false]
          exact congrFun ih name
      | none =>
          dsimp only
          rw [NameTable.get?_insert, ParamTable.substitute, ParamTable.substituteWithin_eq, ih]
          simp only [Assignment.sets, function, Option.isNone_none, Bool.true_and,
            Text.sameLetters_iff]
          rfl

/-- Of the functions of one name the last one counts. -/
theorem get?_functions_foldl_assign (bound : Bindings) (items : List Assignment) (name : Text) :
    (items.foldl assign bound).functions.get? name =
      (items.filterMap (Assignment.function? name)).getLast?.or (bound.functions.get? name) := by
  induction items using List.reverseRecOn with
  | nil => rfl
  | append_singleton items item ih =>
      rw [List.foldl_append, List.foldl_cons, List.foldl_nil, List.filterMap_append, assign]
      cases function : item.arguments with
      | none => simpa [Assignment.function?, function] using ih
      | some arguments =>
          dsimp only
          rw [NameTable.get?_insert]
          by_cases same : Text.sameLetters item.name name = true
          · rw [if_pos ((CasePolicy.same_iff .insensitive _ _).mp same)]
            simp [Assignment.function?, function, same]
          · rw [if_neg fun equal => same ((CasePolicy.same_iff .insensitive _ _).mpr equal)]
            simpa [Assignment.function?, function, same] using ih

end Bindings

theorem Header.defaults_of_read? {text : Text} {header : Header}
    (named : read? text = some header) :
    header.defaults = .ofAssignments (Text.assignments text) := by
  unfold read? at named
  split at named
  · cases named
  · cases named
    rfl

/-- The parameter statements that stand where no definition is open, behind `nest` starts. -/
def Deck.outerParams (directives : Directives) (nest : Nat) (deck : Deck) : Deck :=
  (deck.mapIdx fun i card =>
    if card.isOuterParam directives nest (deck.take i) then [card] else []).flatten

namespace Definition

variable {directives : Directives}

theorem outerParams_cons {nest : Nat} {card : Card}
    (within : card.closes directives = true → 0 < nest) (rest : Deck) :
    Deck.outerParams directives nest (card :: rest) =
      (if isOwnParam directives nest card then [card] else []) ++
        rest.outerParams directives (card.nestAfter directives nest) := by
  unfold Deck.outerParams
  rw [List.mapIdx_cons, List.flatten_cons, List.take_zero, isOuterParam_nil]
  congr 3
  funext i other
  rw [List.take_succ_cons, isOuterParam_cons within]

/-- Of a balanced body the outer parameter statements are laid over the defaults, in order. -/
theorem fst_takeParams {nest : Nat} {bound : Bindings} {deck : Deck}
    (balanced : deck.BalancedFrom directives nest) :
    (takeParams directives nest bound deck).1 =
      (deck.outerParams directives nest).foldl (fun bound card => overlay bound card.operand)
        bound := by
  induction deck generalizing nest bound with
  | nil => rfl
  | cons card rest ih =>
      obtain ⟨within, later⟩ := Deck.balancedFrom_cons_iff.mp balanced
      rw [takeParams_cons, outerParams_cons within]
      dsimp only
      rw [ih later, List.foldl_append]
      split <;> rfl

theorem get?_params_overlay (bound : Bindings) (text name : Text) :
    (overlay bound text).params.get? name =
      (Assignment.stated text name).or (bound.params.get? name) := by
  unfold overlay
  dsimp only
  rw [NameTable.get?_update, Bindings.state, Bindings.get?_params_foldl_assign]
  rfl

theorem get?_params_overlayAll (statements : Deck) (bound : Bindings) (name : Text) :
    (statements.foldl (fun bound card => overlay bound card.operand) bound).params.get? name =
      (statements.reverse.findSome? fun card => Assignment.stated card.operand name).or
        (bound.params.get? name) := by
  induction statements generalizing bound with
  | nil => rfl
  | cons card rest ih =>
      rw [List.foldl_cons, ih, get?_params_overlay, List.reverse_cons, List.findSome?_append,
        List.findSome?_singleton, Option.or_assoc]

theorem get?_functions_overlayAll (statements : Deck) (bound : Bindings) (name : Text) :
    (statements.foldl (fun bound card => overlay bound card.operand) bound).functions.get? name =
      ((statements.flatMap fun card => Assignment.read card.operand).filterMap
        (Assignment.function? name)).getLast?.or (bound.functions.get? name) := by
  induction statements generalizing bound with
  | nil => rfl
  | cons card rest ih =>
      have first : (overlay bound card.operand).functions.get? name =
          ((Assignment.read card.operand).filterMap
            (Assignment.function? name)).getLast?.or (bound.functions.get? name) :=
        Bindings.get?_functions_foldl_assign _ _ name
      rw [List.foldl_cons, ih, first, List.flatMap_cons, List.filterMap_append,
        List.getLast?_append, Option.or_assoc]

/-- A balanced body loses exactly its outer parameter statements, and nothing else in it changes.
The last of them that assigns a name gives the default of the name, or else the header does; only
plain assignments count.  The last function form of a name gives the function. -/
theorem outer_params_give_defaults (directives : Directives) (policy : CasePolicy)
    (header : Header) {body : Deck} (balanced : body.Balanced directives) (number : Nat) :
    let built := build directives policy header body number
    let statements := body.outerParams directives 0
    (built.body = (Formals.separate policy header.formals).2 ++ body.mapIdx fun i card =>
      if card.isOuterParam directives 0 (body.take i) then card.disable else card) ∧
    (∀ name, built.defaults.get? name =
      (statements.reverse.findSome? fun card => Assignment.stated card.operand name).or
        (header.defaults.get? name)) ∧
    (∀ name, built.defaults.get? name = none ↔
      (∀ card ∈ statements, ∀ item ∈ Assignment.read card.operand, item.sets name = false) ∧
        header.defaults.get? name = none) ∧
    (∀ name, built.functions.get? name =
      ((statements.flatMap fun card => Assignment.read card.operand).filterMap
        (Assignment.function? name)).getLast?) ∧
    (∀ text, Header.read? text = some header → ∀ name, header.defaults.get? name =
      ((Assignment.read (Text.assignments text)).filter (Assignment.sets name)).getLast?.map
        Assignment.value) := by
  intro built statements
  have bindings : (takeParams directives 0 ⟨header.defaults, .empty⟩ body).1 =
      statements.foldl (fun bound card => overlay bound card.operand)
        ⟨header.defaults, .empty⟩ := fst_takeParams balanced
  have defaults : ∀ name, built.defaults.get? name =
      (statements.reverse.findSome? fun card => Assignment.stated card.operand name).or
        (header.defaults.get? name) := by
    intro name
    show (takeParams directives 0 ⟨header.defaults, .empty⟩ body).1.params.get? name = _
    rw [bindings, get?_params_overlayAll]
  refine ⟨congrArg (_ ++ ·) (snd_takeParams balanced), defaults, ?_, ?_, ?_⟩
  · intro name
    rw [defaults, Option.or_eq_none_iff, List.findSome?_eq_none_iff]
    simp only [List.mem_reverse, Assignment.stated_eq_none_iff]
  · intro name
    show (takeParams directives 0 ⟨header.defaults, .empty⟩ body).1.functions.get? name = _
    rw [bindings, get?_functions_overlayAll]
    exact Option.or_none
  · intro text named name
    rw [Header.defaults_of_read? named]
    exact ParamTable.get?_foldl_insert id (Assignment.read (Text.assignments text)) name

/-- A value that is resolved within its statement, a function, and parameter statements inside an
inner definition and behind a comment mark, which do not count. -/
theorem outer_params_give_defaults_nested :
    let header : Header := ⟨"s", ["a"], .ofAssignments "w=1 l=2 f(x)=9"⟩
    let body := Deck.ofSource ("r1 a 0 1k\n.param w=3 v=w+1 w=w*2\n.subckt t b\n" ++
      ".param l=9 k=5\n.ends\n*.param l=8\n.PARAM V=w f(y)=y F(z)=z\n")
    let built := build {} .insensitive header body 1
    body.Balanced {} ∧
      built.body.live.map Card.number = [1, 3, 4, 5] ∧
      (["w", "v", "l", "k", "f"] : List Text).map built.defaults.get? =
        ([some "3*2", some "w", some "2", none, none] : List (Option Text)) ∧
      built.functions.get? "f" = some ⟨["z"], "z"⟩ := by
  intro header body built
  have accepted : (Extraction.run {} .insensitive .extract .empty body).failure = none := by
    decide +kernel
  have balanced := (Extraction.failure_runFrom_eq_none_iff.mp accepted).1
  obtain ⟨cards, defaults, -, functions, -⟩ :=
    outer_params_give_defaults {} .insensitive header balanced 1
  refine ⟨balanced, ?_, ?_, ?_⟩
  · rw [cards]
    decide +kernel
  · rw [List.map_congr_left fun name _ => defaults name]
    decide +kernel
  · rw [functions]
    decide +kernel

end Definition

end Netlist

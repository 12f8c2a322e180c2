import Mathlib.Logic.Relation
import Netlist.Proofs.ExpressionNodes

/-!
# Where references stand

An expression is read from left to right: a call of an accessor up to the
parenthesis that closes next, an at sign with the identifier behind it, and
every other token by itself.  What is read in one go does not overlap, so a
position belongs to one piece only, and its piece decides whether the token
there is a reference.  The tags of a token stream say exactly that.
-/

namespace Netlist

theorem Token.isChain_scan (text : Text) : (scan text).IsChain MayMeet :=
  List.isChain_iff_forall_rel_of_append_cons_cons.mpr fun _ _ _ _ scanned => mayMeet_of_scan scanned

namespace Reference

/-- The names of the accessors whose arguments have the role. -/
def accessors : Role → List Text
  | .node => nodeAccessors
  | .device => deviceAccessors

theorem accessorRole?_eq_some_iff (name : Text) (role : Role) :
    accessorRole? name = some role ↔ Text.lower name ∈ accessors role := by
  have apart : ∀ word ∈ nodeAccessors, word ∉ deviceAccessors := by decide
  unfold accessorRole?
  by_cases node : Text.lower name ∈ nodeAccessors
  · cases role <;> simp [accessors, node, apart _ node]
  · by_cases device : Text.lower name ∈ deviceAccessors <;>
      cases role <;> simp [accessors, node, device]

/-- There is a token of the kind at the position. -/
def KindAt (tokens : List Token) (position : Nat) (kind : TokenKind) : Prop :=
  ∃ token, tokens[position]? = some token ∧ token.kind = kind

/-- There is an identifier or a number at the position. -/
def NameAt (tokens : List Token) (position : Nat) : Prop :=
  ∃ token, tokens[position]? = some token ∧ token.isName = true

/-- There is the name of an accessor at the position, in any letter case. -/
def AccessorAt (tokens : List Token) (role : Role) (position : Nat) : Prop :=
  ∃ name, tokens[position]? = some name ∧ name.kind = .ident ∧
    Text.lower name.text ∈ accessors role

/-- At `start` there is an accessor with a parenthesis directly behind it, and `close` is the next
place where a parenthesis closes. -/
structure CallAt (tokens : List Token) (role : Role) (start close : Nat) : Prop where
  accessor : AccessorAt tokens role start
  opens : KindAt tokens (start + 1) .parenOpen
  behind : start + 1 < close
  closes : KindAt tokens close .parenClose
  next : ∀ position, start + 1 < position → position < close →
    ¬KindAt tokens position .parenClose

/-- At `start` there is an at sign with an identifier directly behind it. -/
structure AddressAt (tokens : List Token) (start : Nat) : Prop where
  mark : KindAt tokens start .at
  device : KindAt tokens (start + 1) .ident

/-- What is read in one go from `start`, and the position behind it. -/
inductive Passes (tokens : List Token) : (start stop : Nat) → Prop where
  | call {role : Role} {start close : Nat} (call : CallAt tokens role start close) :
      Passes tokens start (close + 1)
  | address {start : Nat} (address : AddressAt tokens start) : Passes tokens start (start + 2)
  | token {start : Nat} (inside : start < tokens.length)
      (noCall : ∀ role close, ¬CallAt tokens role start close)
      (noAddress : ¬AddressAt tokens start) : Passes tokens start (start + 1)

/-- The reading from left to right comes to the position. -/
def Reaches (tokens : List Token) (position : Nat) : Prop :=
  Relation.ReflTransGen (Passes tokens) 0 position

/-- The token at the position is a reference: a name among the arguments of a call, or the
identifier behind an at sign. -/
inductive RefersAt (tokens : List Token) : Role → (position : Nat) → Prop where
  | argument {role : Role} {start close position : Nat} (reached : Reaches tokens start)
      (call : CallAt tokens role start close) (behind : start + 1 < position)
      (before : position < close) (name : NameAt tokens position) :
      RefersAt tokens role position
  | address {start : Nat} (reached : Reaches tokens start) (address : AddressAt tokens start) :
      RefersAt tokens .device (start + 1)

/-! ## Pieces do not overlap -/

section Pieces

variable {tokens : List Token}

theorem KindAt.eq {position : Nat} {kind other : TokenKind} (here : KindAt tokens position kind)
    (there : KindAt tokens position other) : kind = other := by
  obtain ⟨token, found, rfl⟩ := here
  obtain ⟨again, foundAgain, rfl⟩ := there
  rw [found] at foundAgain
  cases foundAgain
  rfl

theorem AccessorAt.ident {role : Role} {position : Nat}
    (accessor : AccessorAt tokens role position) : KindAt tokens position .ident := by
  obtain ⟨name, found, ident, -⟩ := accessor
  exact ⟨name, found, ident⟩

theorem KindAt.lt {position : Nat} {kind : TokenKind} (here : KindAt tokens position kind) :
    position < tokens.length := by
  obtain ⟨token, found, -⟩ := here
  exact (List.getElem?_eq_some_iff.mp found).1

theorem RefersAt.lt {role : Role} {position : Nat} (refers : RefersAt tokens role position) :
    position < tokens.length := by
  cases refers with
  | argument _ _ _ _ name =>
      obtain ⟨token, found, -⟩ := name
      exact (List.getElem?_eq_some_iff.mp found).1
  | address _ address => exact address.device.lt

theorem CallAt.not_addressAt {role : Role} {start close : Nat}
    (call : CallAt tokens role start close) : ¬AddressAt tokens start := by
  intro address
  cases call.accessor.ident.eq address.mark

theorem CallAt.role_eq {role other : Role} {start close further : Nat}
    (call : CallAt tokens role start close) (again : CallAt tokens other start further) :
    role = other := by
  obtain ⟨name, found, -, listed⟩ := call.accessor
  obtain ⟨same, foundAgain, -, listedAgain⟩ := again.accessor
  rw [found] at foundAgain
  cases foundAgain
  have read := (accessorRole?_eq_some_iff _ _).mpr listed
  rw [(accessorRole?_eq_some_iff _ _).mpr listedAgain] at read
  exact (Option.some.inj read).symm

theorem CallAt.close_eq {role other : Role} {start close further : Nat}
    (call : CallAt tokens role start close) (again : CallAt tokens other start further) :
    close = further := by
  rcases Nat.lt_trichotomy close further with before | same | after
  · exact absurd call.closes (again.next close call.behind before)
  · exact same
  · exact absurd again.closes (call.next further again.behind after)

theorem Passes.lt {start stop : Nat} (passes : Passes tokens start stop) : start < stop := by
  cases passes with
  | call call =>
      have := call.behind
      omega
  | address => omega
  | token => omega

theorem Passes.rightUnique : Relator.RightUnique (Passes tokens) := by
  intro start stop other passes again
  cases passes with
  | call call =>
      cases again with
      | call other => rw [call.close_eq other]
      | address address => exact absurd address call.not_addressAt
      | token _ noCall => exact absurd call (noCall _ _)
  | address address =>
      cases again with
      | call call => exact absurd address call.not_addressAt
      | address => rfl
      | token _ _ noAddress => exact absurd address noAddress
  | token _ noCall noAddress =>
      cases again with
      | call call => exact absurd call (noCall _ _)
      | address address => exact absurd address noAddress
      | token => rfl

theorem le_of_passes {start stop : Nat}
    (path : Relation.ReflTransGen (Passes tokens) start stop) : start ≤ stop := by
  induction path with
  | refl => exact Nat.le_refl start
  | tail _ passes ih => exact Nat.le_of_lt (Nat.lt_of_le_of_lt ih passes.lt)

/-- No position that the reading comes to lies within a piece that it reads in one go. -/
theorem Reaches.outside {start stop position : Nat} (reached : Reaches tokens start)
    (passes : Passes tokens start stop) (other : Reaches tokens position) :
    position ≤ start ∨ stop ≤ position := by
  rcases Relation.ReflTransGen.total_of_right_unique Passes.rightUnique reached other with
    path | path
  · rcases path.cases_head with same | ⟨next, first, further⟩
    · exact .inl (Nat.le_of_eq same.symm)
    · rw [Passes.rightUnique passes first]
      exact .inr (le_of_passes further)
  · exact .inl (le_of_passes path)

theorem not_refersAt_of_reaches {position : Nat} (reached : Reaches tokens position)
    (role : Role) : ¬RefersAt tokens role position := by
  intro refers
  cases refers with
  | argument start call behind before =>
      have := start.outside (.call call) reached
      omega
  | address start address =>
      have := start.outside (.address address) reached
      omega

/-- Pieces that have a position in common start at the same position. -/
theorem start_eq {start stop other further : Nat} (position : Nat)
    (reached : Reaches tokens start) (passes : Passes tokens start stop)
    (otherReached : Reaches tokens other) (otherPasses : Passes tokens other further)
    (within : start ≤ position ∧ position < stop)
    (withinOther : other ≤ position ∧ position < further) : start = other := by
  have := reached.outside passes otherReached
  have := otherReached.outside otherPasses reached
  omega

/-- Within a call the names among the arguments are references, and nothing else is. -/
theorem refersAt_iff_of_call {role other : Role} {start close position : Nat}
    (reached : Reaches tokens start) (call : CallAt tokens role start close)
    (behind : start < position) (before : position ≤ close) :
    RefersAt tokens other position ↔
      other = role ∧ start + 1 < position ∧ position < close ∧ NameAt tokens position := by
  constructor
  · intro refers
    cases refers with
    | argument otherReached otherCall inside outside name =>
        have same := start_eq position reached (.call call) otherReached (.call otherCall)
          (by omega) (by omega)
        subst same
        rw [call.close_eq otherCall]
        exact ⟨otherCall.role_eq call, inside, outside, name⟩
    | @address second otherReached address =>
        have same := start_eq (second + 1) reached (.call call) otherReached (.address address)
          (by omega) (by omega)
        subst same
        exact absurd address call.not_addressAt
  · rintro ⟨rfl, inside, outside, name⟩
    exact .argument reached call inside outside name

/-- Behind an at sign that starts a piece there is a device. -/
theorem refersAt_iff_of_address {role : Role} {start : Nat} (reached : Reaches tokens start)
    (address : AddressAt tokens start) : RefersAt tokens role (start + 1) ↔ role = .device := by
  constructor
  · intro refers
    generalize place : start + 1 = position at refers
    cases refers with
    | argument otherReached call inside outside =>
        have same := start_eq position reached (.address address) otherReached (.call call)
          (by omega) (by omega)
        subst same
        exact absurd address call.not_addressAt
    | address => rfl
  · rintro rfl
    exact .address reached address

end Pieces

/-! ## The reading and its tags -/

/-- What the place of a reading says about the position that it has come to. -/
def Stands (tokens : List Token) : Place → (position : Nat) → Prop
  | .outside afterName, position =>
      Reaches tokens position ∧ (afterName = true → ¬KindAt tokens position .ident)
  | .entering role, position =>
      ∃ start close, Reaches tokens start ∧ CallAt tokens role start close ∧ position = start + 1
  | .inside role, position =>
      ∃ start close, Reaches tokens start ∧ CallAt tokens role start close ∧
        start + 1 < position ∧ position ≤ close
  | .addressed, position =>
      ∃ start, Reaches tokens start ∧ AddressAt tokens start ∧ position = start + 1

/-- A token is read with the right tag, and the place behind it is right too. -/
def Advances (tokens : List Token) (position : Nat) (turn : Option Role × Place) : Prop :=
  Stands tokens turn.2 (position + 1) ∧
    ∀ role, turn.1 = some role ↔ RefersAt tokens role position

section Reading

variable {tokens rest : List Token} {first : Token} {position : Nat}

theorem getElem?_of_drop (here : tokens.drop position = first :: rest) (i : Nat) :
    tokens[position + i]? = (first :: rest)[i]? := by
  rw [← here, List.getElem?_drop]

theorem kindAt_iff (here : tokens.drop position = first :: rest) (kind : TokenKind) :
    KindAt tokens position kind ↔ first.kind = kind := by
  have found : tokens[position]? = some first := getElem?_of_drop here 0
  simp [KindAt, found]

theorem kindAt_behind_iff (here : tokens.drop position = first :: rest) (i : Nat)
    (kind : TokenKind) :
    KindAt tokens (position + 1 + i) kind ↔ ∃ token, rest[i]? = some token ∧ token.kind = kind := by
  have found : tokens[position + 1 + i]? = rest[i]? := by
    rw [Nat.add_assoc, Nat.add_comm 1, getElem?_of_drop here, List.getElem?_cons_succ]
  rw [KindAt, found]

theorem opensWithIdent_iff (here : tokens.drop position = first :: rest) :
    opensWithIdent rest = true ↔ KindAt tokens (position + 1) .ident := by
  rw [← Nat.add_zero (position + 1), kindAt_behind_iff here]
  cases rest <;> simp [opensWithIdent]

theorem addressAt_iff (here : tokens.drop position = first :: rest) :
    (first.kind = .at && opensWithIdent rest) = true ↔ AddressAt tokens position := by
  rw [Bool.and_eq_true, decide_eq_true_eq, opensWithIdent_iff here, ← kindAt_iff here]
  exact ⟨fun both => ⟨both.1, both.2⟩, fun address => ⟨address.mark, address.device⟩⟩

/-- A parenthesis opens next, and there is a next one that closes. -/
theorem opensArguments_iff (here : tokens.drop position = first :: rest) :
    opensArguments rest = true ↔
      KindAt tokens (position + 1) .parenOpen ∧ ∃ close, position + 1 < close ∧
        KindAt tokens close .parenClose ∧ ∀ between, position + 1 < between → between < close →
          ¬KindAt tokens between .parenClose := by
  have opens := kindAt_behind_iff here 0 .parenOpen
  rw [Nat.add_zero] at opens
  cases rest with
  | nil => simp [opensArguments, opens]
  | cons open_ more =>
      have closes (i : Nat) : KindAt tokens (position + 2 + i) .parenClose ↔
          ∃ token, more[i]? = some token ∧ isClose token = true := by
        have behind := kindAt_behind_iff here (i + 1) .parenClose
        rw [List.getElem?_cons_succ, ← Nat.add_assoc, Nat.add_right_comm] at behind
        simpa [isClose] using behind
      rw [opensArguments, Bool.and_eq_true, opens, List.any_eq_true]
      refine and_congr (by simp) ⟨?_, ?_⟩
      · rintro ⟨token, member, closing⟩
        have found := List.findIdx_lt_length_of_exists ⟨token, member, closing⟩
        refine ⟨position + 2 + more.findIdx isClose, by omega, ?_, ?_⟩
        · exact (closes _).mpr ⟨_, List.getElem?_eq_getElem found, List.findIdx_getElem⟩
        · intro between behind before closed
          obtain ⟨i, rfl⟩ := Nat.exists_eq_add_of_le (Nat.succ_le_of_lt behind)
          obtain ⟨other, there, closingOther⟩ := (closes i).mp closed
          have early : i < more.findIdx isClose := by omega
          obtain ⟨inside, rfl⟩ := List.getElem?_eq_some_iff.mp there
          rw [List.not_of_lt_findIdx early] at closingOther
          cases closingOther
      · rintro ⟨close, behind, closed, -⟩
        obtain ⟨i, rfl⟩ := Nat.exists_eq_add_of_le (Nat.succ_le_of_lt behind)
        obtain ⟨token, there, closing⟩ := (closes i).mp closed
        exact ⟨token, List.mem_of_getElem? there, closing⟩

theorem accessor?_eq_some_iff (here : tokens.drop position = first :: rest) (role : Role) :
    accessor? first rest = some role ↔ ∃ close, CallAt tokens role position close := by
  have found : tokens[position]? = some first := getElem?_of_drop here 0
  rw [accessor?]
  split
  next both =>
    rw [Bool.and_eq_true, decide_eq_true_eq, opensArguments_iff here] at both
    obtain ⟨ident, opens, close, behind, closes, next⟩ := both
    rw [accessorRole?_eq_some_iff]
    constructor
    · intro listed
      exact ⟨close, ⟨first, found, ident, listed⟩, opens, behind, closes, next⟩
    · rintro ⟨other, call⟩
      obtain ⟨name, same, -, listed⟩ := call.accessor
      rw [found] at same
      cases same
      exact listed
  next missing =>
    constructor
    · intro impossible
      cases impossible
    · rintro ⟨close, call⟩
      refine absurd ?_ missing
      rw [Bool.and_eq_true, decide_eq_true_eq, opensArguments_iff here, ← kindAt_iff here]
      exact ⟨call.accessor.ident, call.opens, close, call.behind, call.closes, call.next⟩

/-- An identifier does not follow a name. -/
theorem not_ident_behind (chain : tokens.IsChain Token.MayMeet)
    (here : tokens.drop position = first :: rest) (name : first.isName = true) :
    ¬KindAt tokens (position + 1) .ident := by
  rintro ⟨second, found, ident⟩
  obtain ⟨inside, rfl⟩ := List.getElem?_eq_some_iff.mp found
  obtain ⟨_, rfl⟩ := List.getElem?_eq_some_iff.mp (getElem?_of_drop here 0)
  have apart := (List.isChain_iff_getElem.mp chain position inside).2 ident
  simp [Token.isName, apart.1, apart.2] at name

/-- Outside of all calls the token that was read last does not matter, since an identifier does
not follow a name. -/
theorem step_outside {afterName : Bool} (here : tokens.drop position = first :: rest)
    (fresh : afterName = true → ¬KindAt tokens position .ident) :
    step (.outside afterName) first rest =
      match accessor? first rest with
      | some role => (none, .entering role)
      | none =>
          if first.kind = .at && opensWithIdent rest then (none, .addressed)
          else (none, .outside first.isName) := by
  cases afterName with
  | false => rfl
  | true =>
      have other : first.kind ≠ .ident := fun ident => fresh rfl ((kindAt_iff here _).mpr ident)
      have noAccessor : accessor? first rest = none := by
        rw [accessor?, if_neg]
        simp [other]
      rw [noAccessor]
      rfl

theorem advances_entering {role : Role} (stands : Stands tokens (.entering role) position) :
    Advances tokens position (step (.entering role) first rest) := by
  obtain ⟨start, close, reached, call, rfl⟩ := stands
  have behind := call.behind
  refine ⟨⟨start, close, reached, call, by omega, by omega⟩, ?_⟩
  intro other
  rw [refersAt_iff_of_call reached call (by omega) (by omega)]
  simp [step]

theorem advances_inside {role : Role} (here : tokens.drop position = first :: rest)
    (stands : Stands tokens (.inside role) position) :
    Advances tokens position (step (.inside role) first rest) := by
  obtain ⟨start, close, reached, call, behind, before⟩ := stands
  have found : tokens[position]? = some first := getElem?_of_drop here 0
  rw [step]
  split
  next closing =>
    -- the first parenthesis that closes is the one of the call
    have closed : KindAt tokens position .parenClose := ⟨first, found, of_decide_eq_true closing⟩
    have last : position = close := by
      rcases Nat.lt_or_eq_of_le before with early | last
      · exact absurd closed (call.next position behind early)
      · exact last
    subst last
    refine ⟨⟨reached.tail (.call call), fun named => absurd named Bool.false_ne_true⟩, ?_⟩
    intro other
    rw [refersAt_iff_of_call reached call (by omega) before]
    simp
  next argument =>
    have early : position < close := by
      refine Nat.lt_of_le_of_ne before ?_
      rintro rfl
      have closed := (kindAt_iff here _).mp call.closes
      exact argument (decide_eq_true closed)
    refine ⟨⟨start, close, reached, call, by omega, early⟩, ?_⟩
    intro other
    rw [refersAt_iff_of_call reached call (by omega) before]
    have name : NameAt tokens position ↔ first.isName = true := by simp [NameAt, found]
    rw [name]
    by_cases named : first.isName = true <;> simp [named, behind, early, eq_comm]

theorem advances_addressed (chain : tokens.IsChain Token.MayMeet)
    (here : tokens.drop position = first :: rest) (stands : Stands tokens .addressed position) :
    Advances tokens position (step .addressed first rest) := by
  obtain ⟨start, reached, address, rfl⟩ := stands
  have ident : first.kind = .ident := (kindAt_iff here _).mp address.device
  have name : first.isName = true := by simp [Token.isName, ident]
  refine ⟨⟨reached.tail (.address address), fun _ => not_ident_behind chain here name⟩, ?_⟩
  intro role
  rw [refersAt_iff_of_address reached address]
  simp [step, eq_comm]

theorem advances_outside {afterName : Bool} (chain : tokens.IsChain Token.MayMeet)
    (here : tokens.drop position = first :: rest)
    (stands : Stands tokens (.outside afterName) position) :
    Advances tokens position (step (.outside afterName) first rest) := by
  obtain ⟨reached, fresh⟩ := stands
  have untagged (role : Role) : none = some role ↔ RefersAt tokens role position := by
    simp [not_refersAt_of_reaches reached role]
  rw [step_outside here fresh]
  split
  next role accessor =>
    obtain ⟨close, call⟩ := (accessor?_eq_some_iff here role).mp accessor
    exact ⟨⟨position, close, reached, call, rfl⟩, untagged⟩
  next noAccessor =>
    split
    next addressed =>
      exact ⟨⟨position, reached, (addressAt_iff here).mp addressed, rfl⟩, untagged⟩
    next unaddressed =>
      have passes : Passes tokens position (position + 1) := by
        refine .token ?_ ?_ fun address => unaddressed ((addressAt_iff here).mpr address)
        · exact (List.getElem?_eq_some_iff.mp (getElem?_of_drop here 0)).1
        · intro role close call
          rw [(accessor?_eq_some_iff here role).mpr ⟨close, call⟩] at noAccessor
          cases noAccessor
      exact ⟨⟨reached.tail passes, not_ident_behind chain here⟩, untagged⟩

/-- One token is read. -/
theorem advances_step {place : Place} (chain : tokens.IsChain Token.MayMeet)
    (here : tokens.drop position = first :: rest) (stands : Stands tokens place position) :
    Advances tokens position (step place first rest) := by
  cases place with
  | outside afterName => exact advances_outside chain here stands
  | entering role => exact advances_entering stands
  | inside role => exact advances_inside here stands
  | addressed => exact advances_addressed chain here stands

/-- All tokens from a position on are read: each tag says which reference its token is. -/
theorem tagFrom_eq_some_iff (chain : tokens.IsChain Token.MayMeet) {place : Place}
    (here : tokens.drop position = rest) (stands : Stands tokens place position) (i : Nat)
    (role : Role) :
    ((tagFrom place rest).map Prod.snd)[i]? = some (some role) ↔
      RefersAt tokens role (position + i) := by
  induction rest generalizing place position i with
  | nil =>
      have beyond : tokens.length ≤ position := List.drop_eq_nil_iff.mp here
      constructor
      · intro impossible
        cases impossible
      · intro refers
        have := refers.lt
        omega
  | cons first rest ih =>
      have turn := advances_step chain here stands
      rw [tagFrom_cons, List.map_cons]
      cases i with
      | zero =>
          rw [List.getElem?_cons_zero, Option.some.injEq]
          exact turn.2 role
      | succ i =>
          have further : tokens.drop (position + 1) = rest := by
            rw [← List.drop_drop, here, List.drop_one, List.tail_cons]
          rw [List.getElem?_cons_succ, ih further turn.1, Nat.add_assoc, Nat.add_comm 1]

end Reading

/-- The tags of a token stream are there for its tokens and say which of them are references. -/
theorem tag_eq_some_iff {tokens : List Token} (chain : tokens.IsChain Token.MayMeet)
    (position : Nat) (role : Role) :
    ((tag tokens).map Prod.snd)[position]? = some (some role) ↔ RefersAt tokens role position := by
  have starts : Stands tokens (.outside false) 0 :=
    ⟨.refl, fun named => absurd named Bool.false_ne_true⟩
  have read := tagFrom_eq_some_iff chain List.drop_zero starts position role
  rwa [Nat.zero_add] at read

theorem tag_eq_zip (tokens : List Token) : tag tokens = tokens.zip ((tag tokens).map Prod.snd) :=
  List.zip_of_prod (map_fst_tagFrom (.outside false) tokens) rfl

theorem length_tag (tokens : List Token) : (tag tokens).length = tokens.length := by
  have own := congrArg List.length (map_fst_tagFrom (.outside false) tokens)
  rwa [List.length_map] at own

theorem tag_eq_none {tokens : List Token} (chain : tokens.IsChain Token.MayMeet) {position : Nat}
    (inside : position < tokens.length) (plain : ∀ role, ¬RefersAt tokens role position) :
    ((tag tokens).map Prod.snd)[position]? = some none := by
  rw [← length_tag, ← List.length_map Prod.snd] at inside
  cases told : ((tag tokens).map Prod.snd)[position] with
  | none => rw [List.getElem?_eq_getElem inside, told]
  | some role =>
      refine absurd ((tag_eq_some_iff chain position role).mp ?_) (plain role)
      rw [List.getElem?_eq_getElem inside, told]

/-- An accessor without arguments is passed by itself. -/
theorem Reaches.behind_accessor {tokens : List Token} {role : Role} {position : Nat}
    (reached : Reaches tokens position) (accessor : AccessorAt tokens role position)
    (bare : ¬KindAt tokens (position + 1) .parenOpen ∨
      ∀ close, position + 1 < close → ¬KindAt tokens close .parenClose) :
    Reaches tokens (position + 1) := by
  refine reached.tail (.token accessor.ident.lt ?_ ?_)
  · intro other close call
    rcases bare with unopened | unclosed
    · exact unopened call.opens
    · exact unclosed close call.behind call.closes
  · intro address
    cases accessor.ident.eq address.mark

end Reference

namespace Renamer

open Reference

/-- What stands in the place of a token, if it is a node, a device or neither. -/
def replaced {config : Config} (renamer : Renamer config) (token : Token) : Option Role → Text
  | none => token.text
  | some .node => renamer.node token.text
  | some .device => renamer.device token.text

/-- In every text there are certain tokens, found from the tokens alone, that every renamer replaces
by what it makes of nodes and devices, while it copies all other tokens: reading from left to right
without overlap, the names among the arguments of an accessor and the identifiers behind at signs.
An accessor without arguments is copied, and the reading goes on directly behind it. -/
theorem finish_renames_references (text : Text) :
    ∃ tags : List (Option Role), tags.length = (Token.scan text).length ∧
      (∀ position role, tags[position]? = some (some role) ↔
        RefersAt (Token.scan text) role position) ∧
      (∀ {config : Config} (renamer : Renamer config),
        renamer.finish text = (List.zipWith renamer.replaced (Token.scan text) tags).flatten) ∧
      ∀ position role, Reaches (Token.scan text) position →
        AccessorAt (Token.scan text) role position →
        (¬KindAt (Token.scan text) (position + 1) .parenOpen ∨
          ∀ close, position + 1 < close → ¬KindAt (Token.scan text) close .parenClose) →
        tags[position]? = some none ∧ Reaches (Token.scan text) (position + 1) := by
  have chain := Token.isChain_scan text
  refine ⟨(tag (Token.scan text)).map Prod.snd, ?_, tag_eq_some_iff chain, ?_, ?_⟩
  · rw [List.length_map, length_tag]
  · intro config renamer
    have same (token : Token) (tag : Option Role) :
        Reference.image renamer.byRole (token, tag) = renamer.replaced token tag := by
      cases tag with
      | none => rfl
      | some role => cases role <;> rfl
    rw [finish, renameAll, List.flatMap_def]
    nth_rewrite 1 [tag_eq_zip]
    rw [List.map_zip_eq_zipWith]
    exact congrArg (fun image => (List.zipWith image _ _).flatten) (funext₂ same)
  · intro position role reached accessor bare
    exact ⟨tag_eq_none chain accessor.ident.lt (not_refersAt_of_reaches reached),
      reached.behind_accessor accessor bare⟩

end Renamer

end Netlist

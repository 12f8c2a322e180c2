import Netlist.Proofs.DeviceWords

/-!
# Spelling of renamed names

Where the separator is a character of identifiers but no letter, and instances
and nodes outside are words without equals signs and parentheses, a renamed
name is such a word whenever the name was, and it is `poly` only if the name
was.
-/

namespace Netlist

instance (text : Text) : Decidable (Word.Solid text) :=
  decidable_of_iff (text ≠ [] ∧ text.all Word.isInner = true)
    ⟨fun shape => ⟨shape.1, List.all_eq_true.mp shape.2⟩,
      fun solid => ⟨solid.nonempty, List.all_eq_true.mpr solid.inner⟩⟩

/-! ## Characters of renamed names -/

namespace Renamer

variable {config : Config} {renamer : Renamer config} {holds : Char → Prop}

/-- What holds of every character of a name, its instance and the nodes outside, and of the
separator, holds of every character of the renamed name. -/
theorem forall_mem_byRole (off : config.substituteNodes = false)
    (separator : holds config.separator) (inst : ∀ c ∈ renamer.inst, holds c)
    (outside : ∀ entry ∈ renamer.pins.entries, ∀ c ∈ entry.2, holds c) {name : Text}
    (own : ∀ c ∈ name, holds c) (role : Role) : ∀ c ∈ renamer.byRole role name, holds c := by
  have behind {text : Text} (inside : ∀ c ∈ text, holds c) :
      ∀ c ∈ config.separator :: text, holds c := List.forall_mem_cons.mpr ⟨separator, inside⟩
  cases role with
  | device =>
      show ∀ c ∈ renamer.joint.device name renamer.inst, holds c
      unfold Catenation.device
      cases renamer.joint.order with
      | nameFirst => exact List.forall_mem_append.mpr ⟨own, behind inst⟩
      | instanceFirst =>
          have key : ∀ c ∈ name.take 1, holds c :=
            fun c member => own c (List.mem_of_mem_take member)
          exact List.forall_mem_append.mpr
            ⟨List.forall_mem_append.mpr ⟨key, behind inst⟩, behind own⟩
  | node =>
      show ∀ c ∈ renamer.node name, holds c
      unfold Renamer.node nodeName
      simp only [off, Bool.false_eq_true, if_false]
      cases found : renamer.pins.outside? renamer.globals name with
      | none =>
          show ∀ c ∈ renamer.joint.node name renamer.inst, holds c
          unfold Catenation.node
          cases renamer.joint.order with
          | nameFirst => exact List.forall_mem_append.mpr ⟨own, behind inst⟩
          | instanceFirst => exact List.forall_mem_append.mpr ⟨inst, behind own⟩
      | some image =>
          unfold Pins.outside? at found
          split at found
          · cases found
            exact own
          · obtain ⟨entry, listed, rfl⟩ := Option.map_eq_some_iff.mp found
            exact outside entry (List.mem_of_find?_eq_some listed)

/-- A renamed name has the separator in it, unless it is that of a node outside. -/
theorem separator_mem_byRole (off : config.substituteNodes = false) (role : Role) (name : Text) :
    config.separator ∈ renamer.byRole role name ∨
      (role = .node ∧ (renamer.byRole role name = name ∨
        ∃ entry ∈ renamer.pins.entries, renamer.byRole role name = entry.2)) := by
  cases role with
  | device =>
      left
      show config.separator ∈ renamer.joint.device name renamer.inst
      unfold Catenation.device
      cases renamer.joint.order <;> exact List.mem_append_right _ List.mem_cons_self
  | node =>
      show config.separator ∈ renamer.node name ∨ _ ∧ (renamer.node name = name ∨
        ∃ entry ∈ renamer.pins.entries, renamer.node name = entry.2)
      unfold Renamer.node nodeName
      simp only [off, Bool.false_eq_true, if_false]
      cases found : renamer.pins.outside? renamer.globals name with
      | none =>
          left
          show config.separator ∈ renamer.joint.node name renamer.inst
          unfold Catenation.node
          cases renamer.joint.order <;> exact List.mem_append_right _ List.mem_cons_self
      | some image =>
          right
          refine ⟨trivial, ?_⟩
          unfold Pins.outside? at found
          split at found
          · cases found
            exact .inl rfl
          · obtain ⟨entry, listed, rfl⟩ := Option.map_eq_some_iff.mp found
            exact .inr ⟨entry, List.mem_of_find?_eq_some listed, rfl⟩

end Renamer

/-! ## Words that are no polynomial -/

namespace Token

theorem eq_open_of_kindFrom {c : Char} {rest : Text} (opens : kindFrom c rest = .parenOpen) :
    c = '(' := by
  unfold kindFrom at opens
  split at opens
  · cases opens
  · split at opens
    · cases opens
    · split at opens
      · cases opens
      · split at opens
        · cases opens
        · unfold singleKind at opens
          split at opens
          · assumption
          · repeat' split at opens
            all_goals cases opens

theorem open_mem_of_scan {text : Text} {token : Token} (member : token ∈ scan text)
    (opens : token.kind = .parenOpen) : '(' ∈ text := by
  induction text using scan_induction with
  | nil =>
      rw [scan_nil] at member
      cases member
  | cons first rest ih =>
      rw [scan_cons] at member
      rcases List.mem_cons.mp member with rfl | later
      · rw [eq_open_of_kindFrom opens]
        exact List.mem_cons_self
      · have inside := List.mem_append_right (tailOf (kindFrom first rest) rest).1 (ih later)
        rw [tailOf_append] at inside
        exact List.mem_cons_of_mem first inside

end Token

namespace DeviceLine

/-- Without a parenthesis only the word itself starts a polynomial. -/
theorem sameLetters_of_isPoly {word : Text} (marked : isPoly word = true) (bare : '(' ∉ word) :
    Text.sameLetters word "poly" = true := by
  unfold isPoly at marked
  split at marked
  · cases marked
  next first rest scanned =>
    simp only [Bool.and_eq_true] at marked
    obtain ⟨⟨-, same⟩, ended⟩ := marked
    cases rest with
    | nil =>
        have whole := Token.render_scan word
        rw [scanned, Token.render_cons, Token.render_nil, List.append_nil] at whole
        rw [← whole]
        exact same
    | cons next more =>
        have opens : next.kind = .parenOpen := of_decide_eq_true ended
        have member : next ∈ Token.scan word := by simp [scanned]
        exact absurd (Token.open_mem_of_scan member opens) bare

theorem isAlpha_of_isPoly {word : Text} (marked : isPoly word = true) (bare : '(' ∉ word) :
    ∀ c ∈ word, c.isAlpha = true := by
  have same := (Text.sameLetters_iff _ _).mp (sameLetters_of_isPoly marked bare)
  exact Text.isAlpha_of_sameLetters (List.all_eq_true.mp (by decide))
    ((Text.sameLetters_iff _ _).mpr same.symm)

end DeviceLine

/-! ## Renamers whose names are read again -/

namespace Renamer

variable {config : Config} {renamer : Renamer config}

/-- No equals sign and no parenthesis. -/
def Bare (text : Text) : Prop := ∀ c ∈ text, c ≠ '=' ∧ DeviceLine.isParenthesis c = false

instance (text : Text) : Decidable (Bare text) :=
  List.decidableBAll (fun c => c ≠ '=' ∧ DeviceLine.isParenthesis c = false) text

/-- The configuration joins names by a character of identifiers that is no letter. -/
structure Joins (config : Config) : Prop where
  off : config.substituteNodes = false
  continues : Token.continuesIdent config.separator = true
  noLetter : config.separator.isAlpha = false

/-- The instance and the nodes outside are bare words, and no node outside is `poly`. -/
structure Tidy (renamer : Renamer config) : Prop where
  inst : Word.Solid renamer.inst
  bareInst : Bare renamer.inst
  outside : ∀ entry ∈ renamer.pins.entries, Word.Solid entry.2
  bareOutside : ∀ entry ∈ renamer.pins.entries, Bare entry.2
  notPoly : ∀ entry ∈ renamer.pins.entries, Text.sameLetters entry.2 "poly" = false

theorem Joins.bare (joins : Joins config) :
    config.separator ≠ '=' ∧ DeviceLine.isParenthesis config.separator = false := by
  have continues := joins.continues
  refine ⟨?_, ?_⟩
  · intro equals
    rw [equals] at continues
    cases continues
  · cases parenthesis : DeviceLine.isParenthesis config.separator with
    | false => rfl
    | true =>
        simp only [DeviceLine.isParenthesis, Bool.or_eq_true, beq_iff_eq] at parenthesis
        rcases parenthesis with opens | closes
        · rw [opens] at continues
          cases continues
        · rw [closes] at continues
          cases continues

theorem isInner_of_continuesIdent {c : Char} (continues : Token.continuesIdent c = true) :
    Word.isInner c = true := by
  cases letter : c.isAlpha with
  | true => exact isInner_of_isAlpha letter
  | false =>
      cases digit : c.isDigit with
      | true => exact isInner_of_isDigit digit
      | false =>
          simp only [Token.continuesIdent, Char.isAlphanum, letter, digit, Bool.or_eq_true,
            beq_iff_eq, Bool.or_self, Bool.false_eq_true, false_or] at continues
          rcases continues with ((((rfl | rfl) | rfl) | rfl) | rfl) | rfl <;> decide

theorem Tidy.wordy (tidy : Tidy renamer) (joins : Joins config) : Wordy renamer :=
  ⟨isInner_of_continuesIdent joins.continues, tidy.inst, tidy.outside⟩

theorem Wordy.byRole (wordy : Wordy renamer) (off : config.substituteNodes = false) {name : Text}
    (solid : Word.Solid name) (role : Role) : Word.Solid (renamer.byRole role name) := by
  cases role with
  | node => exact wordy.node off solid
  | device => exact wordy.device solid

variable (joins : Joins config) (tidy : Tidy renamer)
include joins tidy

theorem unparenthesized_byRole {name : Text}
    (own : ∀ c ∈ name, DeviceLine.isParenthesis c = false) (role : Role) :
    ∀ c ∈ renamer.byRole role name, DeviceLine.isParenthesis c = false :=
  forall_mem_byRole joins.off joins.bare.2 (fun c member => (tidy.bareInst c member).2)
    (fun entry listed c member => (tidy.bareOutside entry listed c member).2) own role

theorem noEquals_byRole {name : Text} (plain : '=' ∉ name) (role : Role) :
    '=' ∉ renamer.byRole role name := by
  have own : ∀ c ∈ name, c ≠ '=' := fun c member equals => plain (equals ▸ member)
  have all := forall_mem_byRole joins.off joins.bare.1
    (fun c member => (tidy.bareInst c member).1)
    (fun entry listed c member => (tidy.bareOutside entry listed c member).1) own role
  intro member
  exact all '=' member rfl

/-- A name that starts no polynomial still starts none when it is renamed. -/
theorem isPoly_byRole {name : Text} (unmarked : DeviceLine.isPoly name = false)
    (own : ∀ c ∈ name, DeviceLine.isParenthesis c = false) (role : Role) :
    DeviceLine.isPoly (renamer.byRole role name) = false := by
  cases marked : DeviceLine.isPoly (renamer.byRole role name) with
  | false => rfl
  | true =>
      have bare : '(' ∉ renamer.byRole role name := by
        intro member
        cases unparenthesized_byRole joins tidy own role '(' member
      rcases separator_mem_byRole joins.off role name with
        joined | ⟨-, same | ⟨entry, listed, same⟩⟩
      · have letter := DeviceLine.isAlpha_of_isPoly marked bare _ joined
        rw [joins.noLetter] at letter
        cases letter
      · rw [same, unmarked] at marked
        cases marked
      · have poly := DeviceLine.sameLetters_of_isPoly marked bare
        rw [same, tidy.notPoly entry listed] at poly
        cases poly

end Renamer

end Netlist

import Netlist.Proofs.DeviceWords
import Netlist.Proofs.Directive
import Netlist.Proofs.Walk

/-!
# Model references

Models and the references to them are renamed apart from each other, once for
each level of nesting.  At the outermost level they meet again: every alias
that a reference can be resolved with leads to a model that is declared in the
final deck, so under strict models no device is left with a reference that
names none.
-/

namespace Netlist

/-! ## Declared names -/

namespace Text

end Text

namespace Deck

end Deck

namespace Renamer

variable {config : Config} {renamer : Renamer config}

end Renamer

namespace Expansion

variable {config : Config} (catalog : Catalog)

namespace Inlining

variable {below : Option (Expander config)} {params : ParamTable} {card : Card}
  {progress : Progress config.casePolicy}

theorem solid_of_read? {text : Text} {call : Call} (read : Call.read? text = some call) :
    Word.Solid call.inst ∧ ∀ actual ∈ call.actuals, Word.Solid actual := by
  have solid : ∀ name ∈ Word.operands (Word.split (Text.positional text)), Word.Solid name := by
    intro name member
    obtain ⟨word, inside, rfl⟩ := List.mem_map.mp (List.mem_filter.mp member).1
    exact Word.solid_of_mem_split inside
  unfold Call.read? at read
  split at read
  · cases read
  next inst rest parts =>
    obtain ⟨subcircuit, -, rfl⟩ := Option.map_eq_some_iff.mp read
    rw [parts] at solid
    refine ⟨solid inst (List.mem_cons_self ..), ?_⟩
    intro actual member
    exact solid actual (List.mem_cons_of_mem _ (List.dropLast_subset rest member))

theorem wordy (inlining : Inlining below params card progress)
    (inner : Word.isInner config.separator = true) : (inlining.renamer catalog).Wordy := by
  obtain ⟨inst, actuals⟩ := solid_of_read? inlining.read
  refine ⟨inner, inst, ?_⟩
  intro entry member
  change entry ∈ inlining.pins.entries at member
  rw [Pins.entries_of_connect inlining.connected] at member
  exact actuals entry.2 (List.of_mem_zip member).2

end Inlining

end Expansion

end Netlist

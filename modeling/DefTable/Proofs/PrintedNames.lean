import DefTable.Generation
import DefTable.Proofs.LiteralReading
import Mathlib.Data.List.Chain

/-!
# Printed names

The names that a table of definitions is printed with, which are those of the node types, of their fields, and of
operators and kinds, are words of letters (`printedName_record` and so on). None of them begins a path in the module of
the node types, which the printed paths are without (`stripped_nodePath`).
-/

namespace DefTable

/-! ## Words -/

/-- Whether a character stands in a word of ASCII characters. -/
def isWordChar (c : Char) : Bool :=
  c.isAlphanum || c = '_'

/-- Whether a text is a word of ASCII characters. -/
def isPlainWord : List Char → Bool
  | [] => false
  | c :: cs => !c.isDigit && (c :: cs).all isWordChar

theorem all_of_isPlainWord : ∀ {w : List Char}, isPlainWord w = true → w.all isWordChar = true
  | _ :: _, h => (Bool.and_eq_true_iff.1 h).2

/-! ## Clear texts -/

/-- Characters without a digit and without the start of the module of the node types, also when others follow them. -/
structure Clear (cs : List Char) : Prop where
  no_digit : ∀ c ∈ cs, c.isDigit = false
  no_module : cs.IsChain fun c d => ¬(c = 'j' ∧ d = 'q')
  no_start : cs.getLast? ≠ some 'j'

theorem clear_iff {cs : List Char} : Clear cs ↔
    cs.all (!·.isDigit) = true ∧ (cs.IsChain fun c d => ¬(c = 'j' ∧ d = 'q')) ∧ cs.getLast? ≠ some 'j' := by
  have hdigit : cs.all (!·.isDigit) = true ↔ ∀ c ∈ cs, c.isDigit = false := by
    simp only [List.all_eq_true, Bool.not_eq_true']
  rw [hdigit]
  exact ⟨fun ⟨h, h', h''⟩ => ⟨h, h', h''⟩, fun ⟨h, h', h''⟩ => ⟨h, h', h''⟩⟩

-- Digits are looked for along the list, as an instance for the quantifier may try every character there is.
instance (cs : List Char) : Decidable (Clear cs) :=
  decidable_of_iff _ clear_iff.symm

theorem Clear.append {cs ds : List Char} (hc : Clear cs) (hd : Clear ds) : Clear (cs ++ ds) where
  no_digit := List.forall_mem_append.2 ⟨hc.no_digit, hd.no_digit⟩
  no_module := by
    refine hc.no_module.append hd.no_module ?_
    rintro c hlast d - ⟨rfl, -⟩
    exact hc.no_start hlast
  no_start := by
    rw [List.getLast?_append]
    cases h : ds.getLast? with
    | none => exact hc.no_start
    | some c => exact fun heq => hd.no_start (h.trans heq)

theorem Clear.not_qualifier {cs : List Char} (h : Clear cs) : ¬Settings.default.qualifier.toList <:+: cs := by
  intro hwithin
  have hchain := List.IsChain.infix h.no_module hwithin
  exact absurd hchain (by decide)

/-! ## Names -/

/-- The name of a node type as it is printed. -/
def Shape.printedName (s : Shape) : String :=
  Settings.default.style.stripped s.typeName

theorem toList_nodePath (x : String) : (nodePath x).toList = (nodePath "").toList ++ x.toList := by
  simp [nodePath]

theorem stripped_nodePath (x : String) : Settings.default.style.stripped (nodePath x) = x := by
  show String.ofList (Qualifier.strip (nodePath "").toList (nodePath x).toList) = x
  rw [toList_nodePath x, Qualifier.strip_append, String.ofList_toList]

theorem typeName_eq_nodePath {s : Shape} (hs : s.isRecord = true) : s.typeName = nodePath s.printedName := by
  cases s with
  | list | optional => cases hs
  | _ => exact congrArg nodePath (stripped_nodePath _).symm

/-- A word that may stand in the printed form of a value. -/
structure PrintedName (w : String) : Prop where
  isPlainWord : isPlainWord w.toList = true
  clear : Clear w.toList

instance (w : String) : Decidable (PrintedName w) :=
  decidable_of_iff (isPlainWord w.toList = true ∧ Clear w.toList) ⟨fun ⟨h, h'⟩ => ⟨h, h'⟩, fun ⟨h, h'⟩ => ⟨h, h'⟩⟩

theorem printedName_field (s : Shape) : ∀ name ∈ s.fieldNames, PrintedName name := by
  cases s with
  | list | optional => exact fun f hf => absurd hf List.not_mem_nil
  | _ => decide

theorem printedName_record {s : Shape} (hs : s.isRecord = true) : PrintedName s.printedName := by
  cases s with
  | list | optional => cases hs
  | _ => rw [Shape.printedName, Shape.typeName, stripped_nodePath]; decide

theorem printedName_operator (op : Operator) : PrintedName op.name := by
  cases op <;> decide

theorem printedName_termKind (kind : TermKind) : PrintedName kind.name := by
  cases kind <;> decide

end DefTable

import DefTable.Proofs.ProductionEquations
import DefTable.Proofs.ScanWeight
import DefTable.Proofs.TokenSpelling
import Mathlib.Data.List.Forall2

/-!
# Corresponding lexemes

The parser sees tokens. Where they stand and what the sources of interpolations look like does not matter to it, as long
as these sources are cut into corresponding tokens again (`Change.Scans`). What two sources may differ in (`Change`)
says which of their lexemes correspond (`Change.Alike`), and what it is for two results to correspond (`Change.Agree`).
-/

namespace DefTable

namespace Grammar

/-! ## Corresponding lexemes -/

/-- In what two sources may differ: which offsets correspond, and which nested sources with their offsets. -/
structure Change where
  moves : Nat → Nat → Prop
  nested : String → Nat → String → Nat → Prop

namespace Change

variable (δ : Change)

/-- Corresponding parts of a string. -/
inductive Part : StringPart → StringPart → Prop where
  | literal (s : String) : Part (.literal s) (.literal s)
  | interpolation {source source' : String} {o o' : Nat} (h : δ.nested source o source' o') :
      Part (.interpolation source o) (.interpolation source' o')

/-- Corresponding lexemes of two sources, up to their ends. -/
inductive Alike : Lexemes → Lexemes → Prop where
  | finish {o o' : Nat} (ho : δ.moves o o') : Alike [⟨.eof, o⟩] [⟨.eof, o'⟩]
  | plain {t : Token} {o o' : Nat} {ls ls' : Lexemes} (ht : t.isPlain = true) (ho : δ.moves o o') (h : Alike ls ls') :
      Alike (⟨t, o⟩ :: ls) (⟨t, o'⟩ :: ls')
  | string {parts parts' : List StringPart} {o o' : Nat} {ls ls' : Lexemes}
      (hparts : List.Forall₂ δ.Part parts parts') (ho : δ.moves o o') (h : Alike ls ls') :
      Alike (⟨.str parts, o⟩ :: ls) (⟨.str parts', o'⟩ :: ls')

/-- Corresponding causes of faults. -/
inductive Cause : SyntaxError.Cause → SyntaxError.Cause → Prop where
  | same (c : SyntaxError.Cause) : Cause c c
  | unexpected {parts parts' : List StringPart} (hparts : List.Forall₂ δ.Part parts parts') (wanted : Expectation) :
      Cause (.unexpected (.str parts) wanted) (.unexpected (.str parts') wanted)

/-- Two runs end alike: with values of which `Q` holds, or with corresponding faults at corresponding places. -/
inductive Agree {α β : Type} (Q : α → β → Prop) : Parsed α → Parsed β → Prop where
  | ok {a : α} {b : β} (h : Q a b) : Agree Q (.ok a) (.ok b)
  | fault {e e' : SyntaxError} (hcause : δ.Cause e.cause e'.cause) (ho : δ.moves e.offset e'.offset) :
      Agree Q (.error (.fault e)) (.error (.fault e'))

/-- Corresponding nested sources are cut into corresponding tokens. -/
def Scans : Prop :=
  ∀ source o source' o', δ.nested source o source' o' →
    δ.Agree δ.Alike (scanned (Token.scan source o)) (scanned (Token.scan source' o'))

variable {δ}

/-- The message of a fault names strings without what they hold. -/
theorem Cause.message {c c' : SyntaxError.Cause} (h : δ.Cause c c') : c'.message = c.message := by
  cases h <;> rfl

namespace Alike

variable {ls ls' : Lexemes}

theorem moves_offset (h : δ.Alike ls ls') : δ.moves (offset ls) (offset ls') := by
  cases h <;> assumption

/-- What is the same of all strings is the same of the next tokens. -/
theorem map_peek {β : Type} (f : Token → β) (hf : ∀ parts parts', f (.str parts) = f (.str parts'))
    (h : δ.Alike ls ls') : f (peek ls') = f (peek ls) := by
  cases h with
  | finish => rfl
  | plain => rfl
  | string => exact hf _ _

theorem peek_eq_iff (h : δ.Alike ls ls') (t : Token) (ht : ∀ parts, t ≠ .str parts) : peek ls' = t ↔ peek ls = t := by
  have hdecide := h.map_peek (fun u => decide (u = t)) fun parts parts' => by simp [(ht _).symm]
  simpa using hdecide

end Alike

end Change
end Grammar
end DefTable

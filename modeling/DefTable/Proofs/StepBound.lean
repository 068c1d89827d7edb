import DefTable.Proofs.Lockstep
import DefTable.Proofs.OffsetShift

/-!
# Enough steps

`enoughSteps` is how many steps the parser is given. Sources that are the same but for the place where they stand
correspond (`Change.shifted`), so the definitions of a source are the same in another place (`definitions_shift`). In
the same place a source is the same query whatever larger number of steps there is (`whole_steps`), and the steps never
run out (`enoughSteps_suffice`).
-/

namespace DefTable
namespace Grammar

/-! ## Sources in another place -/

namespace Change

/-- Everything stands `k` bytes further on. -/
def shifted (k : Nat) : Change where
  moves o o' := o' = o + k
  nested source o source' o' := source' = source ∧ o' = o + k

variable {k : Nat}

theorem parts_shift : ∀ parts : List StringPart,
    List.Forall₂ (shifted k).Part parts (parts.map (StringPart.shift k))
  | [] => .nil
  | .literal s :: parts => .cons (.literal s) (parts_shift parts)
  | .interpolation _ _ :: parts => .cons (.interpolation ⟨rfl, rfl⟩) (parts_shift parts)

theorem alike_shift (cursor : Cursor) {ls : Lexemes} (h : Token.scanFrom cursor = .ok ls) :
    (shifted k).Alike ls (ls.map (Lexeme.shift k)) := by
  fun_induction Token.scanFrom cursor generalizing ls with
  | case1 cursor offset htrivia =>
    cases h
    exact .finish rfl
  | case2 => cases h
  | case3 => cases h
  | case4 cursor offset c cs htrivia t next hread ls hrest ih =>
    cases h
    have hne := Token.read_ne_eof hread
    cases t with
    | str parts => exact .string (parts_shift parts) rfl (ih hrest)
    | eof => exact absurd rfl hne
    | _ => exact .plain rfl rfl (ih hrest)

theorem shifted_scans : (shifted k).Scans := by
  intro source base source' base' h
  rw [h.1, h.2, Token.scan_shift]
  cases hscan : Token.scan source base with
  | ok ls => exact .ok (alike_shift _ hscan)
  | error e =>
    have hcause : (shifted k).Cause e.cause (e.shift k).cause := .same e.cause
    exact .fault hcause rfl

theorem parts_eq_of_shifted {parts parts' : List StringPart} (h : List.Forall₂ (shifted 0).Part parts parts') :
    parts' = parts := by
  induction h with
  | nil => rfl
  | cons hpart hparts ih =>
    rw [ih]
    cases hpart with
    | literal => rfl
    | interpolation h =>
      obtain ⟨rfl, rfl⟩ := h
      rfl

theorem Cause.eq_of_shifted {c c' : SyntaxError.Cause} (h : (shifted 0).Cause c c') : c' = c := by
  cases h with
  | same => rfl
  | unexpected hparts wanted => rw [parts_eq_of_shifted hparts]

/-- In the same place two runs that end alike end with the same. -/
theorem Agree.eq_of_shifted {α : Type} {x y : Parsed α} (h : (shifted 0).Agree Eq x y) : x = y := by
  cases h with
  | ok h => rw [h]
  | @fault e e' hcause ho =>
    obtain ⟨c, o⟩ := e
    obtain ⟨c', o'⟩ := e'
    obtain rfl : c' = c := hcause.eq_of_shifted
    obtain rfl : o' = o := ho
    rfl

theorem Agree.ne_exhausted {δ : Change} {α β : Type} {Q : α → β → Prop} {x : Parsed α} {y : Parsed β}
    (h : δ.Agree Q x y) : x ≠ .error .exhausted := by
  cases h <;> simp

end Change

open Change

/-- In another place the definitions of a source are the same, or are refused with the same fault. -/
theorem definitions_shift (k : Nat) {source : String} {base : Nat} {ls : Lexemes}
    (hscan : Token.scan source base = .ok ls) {m n : Nat} (hm : enoughSteps source ≤ m) (hn : enoughSteps source ≤ n) :
    (shifted k).Agree Eq (definitions m ls) (definitions n (ls.map (Lexeme.shift k))) := by
  have hw := weight_scan_le hscan
  have henough : 16 * weight ls + 2 ≤ enoughSteps source := by
    unfold enoughSteps
    omega
  exact definitions_agree shifted_scans (alike_shift _ hscan) hm hn henough

/-! ## Numbers of steps -/

/-- **With all numbers of steps from `enoughSteps` on a source is the same query**, or is refused with the same
fault. -/
theorem whole_steps (source : String) (base : Nat) {n : Nat} (hn : enoughSteps source ≤ n) :
    whole (enoughSteps source) source base = whole n source base :=
  (whole_agree shifted_scans ⟨rfl, rfl⟩ (Nat.le_refl _) hn).eq_of_shifted

theorem definitions_steps {source : String} {base : Nat} {ls : Lexemes} (hscan : Token.scan source base = .ok ls)
    {n : Nat} (hn : enoughSteps source ≤ n) : definitions (enoughSteps source) ls = definitions n ls := by
  have hagree := definitions_shift 0 hscan (Nat.le_refl _) hn
  rw [List.map_id'' Lexeme.shift_zero] at hagree
  exact hagree.eq_of_shifted

/-- **The steps never run out**, neither for a query nor for the definitions of a source. -/
theorem enoughSteps_suffice (source : String) :
    whole (enoughSteps source) source 0 ≠ .error .exhausted ∧
      ∀ ls, Token.scan source 0 = .ok ls → definitions (enoughSteps source) ls ≠ .error .exhausted := by
  have hnested : (shifted 0).nested source 0 source 0 := ⟨rfl, rfl⟩
  refine ⟨(whole_agree shifted_scans hnested (Nat.le_refl _) (Nat.le_refl _)).ne_exhausted, fun ls hscan => ?_⟩
  exact (definitions_shift 0 hscan (Nat.le_refl _) (Nat.le_refl _)).ne_exhausted

end Grammar
end DefTable

import DefTable.Proofs.Wording

/-!
# Printing a wording

A wording as a source again, with one blank between tokens (`Wording.print`). A string is skipped to the parenthesis
that closes an interpolation before anything in it is read, so a wording can be read back only if its interpolations
close the parentheses that they open (`Wording.Nested`). The wordings of trees do (`Node.closed`).
-/

namespace DefTable

open Text

namespace Wording

/-- A character of a string: the quote and the backslash stand behind a backslash, all others by themselves. -/
def escape (c : Char) : List Char :=
  if c = '"' ∨ c = '\\' then ['\\', c] else [c]

/-- The blank in front of further tokens, if there are any. -/
def gap : Wording .tokens → List Char
  | .nil => []
  | _ => [' ']

/-- The characters of a wording. -/
def chars {l : Level} : Wording l → List Char
  | .nil => []
  | .token t rest => t.spelling.toList ++ (gap rest ++ rest.chars)
  | .quote ps rest => '"' :: (ps.chars ++ '"' :: (gap rest ++ rest.chars))
  | .done => []
  | .text s rest => s.toList.flatMap escape ++ rest.chars
  | .splice inner rest => '\\' :: '(' :: (inner.chars ++ ')' :: rest.chars)

/-- A wording as a source, with one blank between tokens. -/
def print (w : Wording .tokens) : String :=
  String.ofList w.chars

example : print (.token (.ident "f") (.quote (.splice (.token .dot .nil) .done) .nil)) = "f \"\\(.)\"" := rfl

/-! ## Parentheses -/

/-- How many parentheses are open behind a token, where `d` are open before it; none where one too many is closed. -/
def nest (d : Nat) : Token → Option Nat
  | .leftParen => some (d + 1)
  | .rightParen => if d = 0 then none else some (d - 1)
  | _ => some d

/-- Whether a token is a parenthesis. -/
def isParen : Token → Bool
  | .leftParen => true
  | .rightParen => true
  | _ => false

/-- How many parentheses are open behind a wording, where `d` are open before it. -/
def depth {l : Level} (d : Nat) : Wording l → Option Nat
  | .token t rest => (nest d t).bind fun d => rest.depth d
  | .quote _ rest => rest.depth d
  | _ => some d

/-- Whether all parts of a string are interpolations. -/
def AllSplices {l : Level} : Wording l → Prop
  | .done => True
  | .splice _ ps => ps.AllSplices
  | _ => False

/-- In every string there is one text or only interpolations, and these close the parentheses that they open. -/
def Nested {l : Level} : Wording l → Prop
  | .token _ w => w.Nested
  | .quote ps w => ((∃ s, ps = .text s .done) ∨ ps ≠ .done ∧ AllSplices ps) ∧ ps.Nested ∧ w.Nested
  | .text _ ps => ps.Nested
  | .splice u ps => depth 0 u = some 0 ∧ u.Nested ∧ ps.Nested
  | .nil => True
  | .done => True

/-- Every token, also of an interpolation, looks as one of a source does. -/
def WellSpelled {l : Level} : Wording l → Prop
  | .token t w => t.WellSpelled ∧ t.isPlain = true ∧ w.WellSpelled
  | .quote ps w => ps.WellSpelled ∧ w.WellSpelled
  | .text _ ps => ps.WellSpelled
  | .splice u ps => u.WellSpelled ∧ ps.WellSpelled
  | .nil => True
  | .done => True

theorem depth_append (u w : Wording .tokens) (d : Nat) : (u ++ w).depth d = (u.depth d).bind fun d => w.depth d := by
  induction u using tokens_ind generalizing d with
  | nil => rfl
  | token t rest ih => simp only [token_append, depth, ih, Option.bind_assoc]
  | quote ps rest ih => simp only [quote_append, depth, ih]

theorem nested_append (u w : Wording .tokens) : (u ++ w).Nested ↔ u.Nested ∧ w.Nested := by
  induction u using tokens_ind with
  | nil => simp [Nested]
  | token t rest ih => simpa [Nested] using ih
  | quote ps rest ih => simp [Nested, ih, and_assoc]

theorem nest_of_not_isParen {t : Token} (ht : isParen t = false) (d : Nat) : nest d t = some d := by
  cases t <;> first | rfl | cases ht

/-- What parentheses and strings are like in the wording of a tree. -/
structure Closed (w : Wording .tokens) : Prop where
  balanced : ∀ d, w.depth d = some d
  nested : w.Nested

namespace Closed

variable {u w : Wording .tokens}

theorem nil : Closed .nil :=
  ⟨fun _ => rfl, trivial⟩

theorem token {t : Token} (ht : isParen t = false) (h : Closed w) : Closed (.token t w) where
  balanced d := by rw [depth, nest_of_not_isParen ht, Option.bind_some, h.balanced]
  nested := h.nested

theorem append (hu : Closed u) (hw : Closed w) : Closed (u ++ w) where
  balanced d := by rw [depth_append, hu.balanced, Option.bind_some, hw.balanced]
  nested := (nested_append u w).2 ⟨hu.nested, hw.nested⟩

/-- A wording in parentheses. -/
theorem group (hu : Closed u) (hw : Closed w) : Closed (.token .leftParen (u ++ .token .rightParen w)) where
  balanced d := by
    have hopen : nest d .leftParen = some (d + 1) := rfl
    have hclose : nest (d + 1) .rightParen = some d := rfl
    rw [depth, hopen, Option.bind_some, depth_append, hu.balanced, Option.bind_some, depth, hclose, Option.bind_some,
      hw.balanced]
  nested := (nested_append u _).2 ⟨hu.nested, hw.nested⟩

theorem whenNot {c : Bool} (h : Closed w) : Closed (whenNot c w) := by
  cases c
  · exact h
  · exact nil

end Closed

theorem isParen_ofName (name : String) : isParen (Token.ofName name) = false := by
  unfold Token.ofName Token.ofWord
  split
  · rfl
  · split <;> rfl

theorem isParen_operator (op : Operator) : isParen op.token = false := by
  cases op <;> rfl

end Wording

namespace Node

open Wording

theorem closed_paramsWording : ∀ names : List String, (paramsWording names).Closed
  | [] => .nil
  | [name] => .token (isParen_ofName name) .nil
  | name :: name₁ :: names => .token (isParen_ofName name) (.token rfl (closed_paramsWording (name₁ :: names)))

theorem closed_keyWording {key : String} {text query : Wording .tokens} {noQuery : Bool} (ht : text.Closed)
    (hq : query.Closed) : (keyWording key text query noQuery).Closed :=
  .append (.append (.whenNot (.token (isParen_ofName key) .nil)) ht) (.whenNot (.group hq .nil))

/-- The wordings of a node, with separators and in a string, are closed. -/
structure Closed {s : Shape} (n : Node s) : Prop where
  unparse : n.unparse.Closed
  joined : ∀ {separator}, isParen separator = false → (n.joined separator).Closed
  splices : AllSplices n.splices ∧ n.splices.Nested

/-- A node that is no list of some members. -/
theorem Closed.of_unparse {s : Shape} {n : Node s} (h : n.unparse.Closed) (hjoined : ∀ t, n.joined t = .nil)
    (hsplices : n.splices = .done) : n.Closed where
  unparse := h
  joined _ := by rw [hjoined]; exact .nil
  splices := by rw [hsplices]; exact ⟨trivial, trivial⟩

theorem closed {s : Shape} (n : Node s) : n.Closed := by
  induction n with
  | definition name params b ihb =>
    refine .of_unparse ?_ (fun _ => rfl) rfl
    have hparams := closed_paramsWording params
    exact .token rfl (.token (isParen_ofName name)
      (.append (.whenNot (.group hparams .nil)) (.token rfl (.append ihb.unparse (.token rfl .nil)))))
  | query ds t l op r func ihds iht ihl ihr =>
    refine .of_unparse ?_ (fun _ => rfl) rfl
    have hoperands := (ihds.unparse.append iht.unparse).append ihl.unparse
    cases op with
    | none => exact .append (.append hoperands .nil) ihr.unparse
    | some o => exact .append (.append hoperands (.token (isParen_operator o) .nil)) ihr.unparse
  | term kind i c o a num u fmt x cond att red fore lab brk q ss ihi ihc iho iha ihu ihx ihcond ihatt ihred ihfore ihlab
      ihq ihss =>
    refine .of_unparse ?_ (fun _ => rfl) rfl
    refine .append ?_ ihss.unparse
    cases kind with
    | identity | recurse | null | true | false | number => exact .token rfl .nil
    | index => exact ihi.unparse
    | func => exact ihc.unparse
    | object => exact iho.unparse
    | array => exact iha.unparse
    | unary => exact ihu.unparse
    | format => exact .token rfl ihx.unparse
    | string => exact ihx.unparse
    | conditional => exact ihcond.unparse
    | attempt => exact ihatt.unparse
    | reduce => exact ihred.unparse
    | foreach => exact ihfore.unparse
    | label => exact ihlab.unparse
    | «break» => exact .token rfl (.token rfl .nil)
    | query => exact .group ihq.unparse .nil
  | index name x start stop isSlice ihx ihstart ihstop =>
    refine .of_unparse ?_ (fun _ => rfl) rfl
    rw [Node.unparse]
    split
    · exact .token rfl .nil
    · split
      · exact .token rfl (.token rfl (.append (.append (.append ihstart.unparse (.whenNot (.token rfl .nil)))
          ihstop.unparse) (.token rfl .nil)))
      · exact .token rfl ihx.unparse
  | call name args ihargs =>
    refine .of_unparse ?_ (fun _ => rfl) rfl
    exact .token (isParen_ofName name) (.whenNot (.group (ihargs.joined rfl) .nil))
  | text plain parts ihparts =>
    refine .of_unparse ?_ (fun _ => rfl) rfl
    rw [Node.unparse]
    cases parts with
    | nil => exact ⟨fun _ => rfl, .inl ⟨plain, rfl⟩, trivial, trivial⟩
    | cons q qs => exact ⟨fun _ => rfl, .inr ⟨by simp, ihparts.splices.1⟩, ihparts.splices.2, trivial⟩
  | object es ihes =>
    refine .of_unparse ?_ (fun _ => rfl) rfl
    exact .token rfl (.append (ihes.joined rfl) (.token rfl .nil))
  | entry key x q v ihx ihq ihv =>
    refine .of_unparse ?_ (fun _ => rfl) rfl
    exact .append (closed_keyWording ihx.unparse ihq.unparse) (.whenNot (.token rfl ihv.unparse))
  | array q ihq =>
    refine .of_unparse ?_ (fun _ => rfl) rfl
    exact .token rfl (.append ihq.unparse (.token rfl .nil))
  | unary op t iht =>
    refine .of_unparse ?_ (fun _ => rfl) rfl
    exact .token (isParen_operator op) iht.unparse
  | suffix i iter opt b ihi ihb =>
    refine .of_unparse ?_ (fun _ => rfl) rfl
    exact .append (.append (.append ihi.unparse (.whenNot (.token rfl (.token rfl (.token rfl .nil)))))
      (.whenNot (.token rfl .nil))) ihb.unparse
  | binding ps b ihps ihb =>
    refine .of_unparse ?_ (fun _ => rfl) rfl
    exact .token rfl (.append (ihps.joined rfl) (.token rfl ihb.unparse))
  | pattern name a o iha iho =>
    refine .of_unparse ?_ (fun _ => rfl) rfl
    exact .append (.append (.whenNot (.token rfl .nil)) (.whenNot (.token rfl (.append (iha.joined rfl)
      (.token rfl .nil))))) (.whenNot (.token rfl (.append (iho.joined rfl) (.token rfl .nil))))
  | patternEntry key x q v ihx ihq ihv =>
    refine .of_unparse ?_ (fun _ => rfl) rfl
    exact .append (closed_keyWording ihx.unparse ihq.unparse) (.whenNot (.token rfl ihv.unparse))
  | conditional c t es e ihc iht ihes ihe =>
    refine .of_unparse ?_ (fun _ => rfl) rfl
    exact .token rfl (.append ihc.unparse (.token rfl (.append (.append (.append iht.unparse ihes.unparse)
      (.whenNot (.token rfl ihe.unparse))) (.token rfl .nil))))
  | branch c t ihc iht =>
    refine .of_unparse ?_ (fun _ => rfl) rfl
    exact .token rfl (.append ihc.unparse (.token rfl iht.unparse))
  | attempt b h ihb ihh =>
    refine .of_unparse ?_ (fun _ => rfl) rfl
    exact .token rfl (.append ihb.unparse (.whenNot (.token rfl ihh.unparse)))
  | reduce t p start update iht ihp ihstart ihupdate =>
    refine .of_unparse ?_ (fun _ => rfl) rfl
    have hparts : (start.unparse ++ .token .semicolon update.unparse).Closed :=
      .append ihstart.unparse (.token rfl ihupdate.unparse)
    have hinner := Wording.Closed.group hparts .nil
    rw [Wording.append_assoc] at hinner
    exact .token rfl (.append iht.unparse (.token rfl (.append ihp.unparse hinner)))
  | foreach t p start update e iht ihp ihstart ihupdate ihe =>
    refine .of_unparse ?_ (fun _ => rfl) rfl
    have hparts : (start.unparse ++ .token .semicolon (update.unparse ++
        whenNot e.isEmpty (.token .semicolon e.unparse))).Closed :=
      .append ihstart.unparse (.token rfl (.append ihupdate.unparse (.whenNot (.token rfl ihe.unparse))))
    have hinner := Wording.Closed.group hparts .nil
    rw [Wording.append_assoc] at hinner
    exact .token rfl (.append iht.unparse (.token rfl (.append ihp.unparse hinner)))
  | label name b ihb =>
    refine .of_unparse ?_ (fun _ => rfl) rfl
    exact .token rfl (.token rfl (.token rfl ihb.unparse))
  | nil => exact .of_unparse .nil (fun _ => rfl) rfl
  | cons n ns ihn ihns =>
    refine ⟨.append ihn.unparse ihns.unparse, fun hseparator => ?_, ihns.splices.1, ?_, ?_, ?_⟩
    · exact .append ihn.unparse (.whenNot (.token hseparator (ihns.joined hseparator)))
    · exact ihn.unparse.balanced 0
    · exact ihn.unparse.nested
    · exact ihns.splices.2
  | absent => exact .of_unparse .nil (fun _ => rfl) rfl
  | present n ihn => exact .of_unparse ihn.unparse (fun _ => rfl) rfl

end Node

end DefTable

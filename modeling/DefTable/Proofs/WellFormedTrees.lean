import DefTable.Proofs.DerivationSoundness
import DefTable.Proofs.Rewriting

/-!
# Well-formed trees

The nodes have room for more than any one of them may hold. What the parser fills is well-formed (`Node.Proper`): a term
has the payload of its kind and no other, a suffix is one thing, a key has one form, and so on. This holds at every node
of what the parser reads, by induction on its derivation (`Grammar.Derives.wellBuilt`), and minification keeps it, where
a name may then stand for a term (`Node.everywhere_proper_minify`).
-/

namespace DefTable

namespace Node

variable {s : Shape}

/-- Whether an optional node is there. -/
def given : Node (.optional s) → Bool
  | .absent => false
  | .present _ => true

@[simp] theorem given_absent : (absent : Node (.optional s)).given = false := rfl

@[simp] theorem given_present (n : Node s) : (present n).given = true := rfl

end Node

/-- A suffix that is no binding. -/
def Suffix.Unbound : Suffix → Prop
  | .suffix _ _ _ b => b = .absent

/-- A term without a binding behind it. -/
def Term.Unbound : Term → Prop
  | .term _ _ _ _ _ _ _ _ _ _ _ _ _ _ _ _ ss => ∀ suffix ∈ ss.toList, Suffix.Unbound suffix

/-- A term has the payload that its kind selects, and no other; a format may be applied to a string. -/
@[simp] def Term.PayloadOfKind : Term → Prop
  | .term kind i c o a num u fmt x cond att red fore lab brk q _ =>
    (i.given ↔ kind = .index) ∧ (c.given ↔ kind = .func) ∧ (o.given ↔ kind = .object) ∧ (a.given ↔ kind = .array) ∧
      (num ≠ "" ↔ kind = .number) ∧ (u.given ↔ kind = .unary) ∧ (fmt ≠ "" ↔ kind = .format) ∧
      (kind = .string → x.given) ∧ (x.given → kind = .string ∨ kind = .format) ∧ (cond.given ↔ kind = .conditional) ∧
      (att.given ↔ kind = .attempt) ∧ (red.given ↔ kind = .reduce) ∧ (fore.given ↔ kind = .foreach) ∧
      (lab.given ↔ kind = .label) ∧ (brk ≠ "" ↔ kind = .break) ∧ (q.given ↔ kind = .query)

namespace Node

/-- Of some alternatives exactly one is the case. -/
@[simp] def ExactlyOne (alternatives : List Bool) : Prop :=
  alternatives.count true = 1

/-- Whether a key is a variable. -/
def isVariableKey (key : String) : Bool :=
  key.toList.head? == some '$'

/-- What is filled at a node of a parsed tree, or of a minified one. -/
@[simp] def Proper (minified : Bool) {s : Shape} : Node s → Prop
  | .query _ t l op r func =>
    t.given ∧ l = .absent ∧ op = none ∧ r = .absent ∧ func = "" ∨
      t = .absent ∧ l.given ∧ op.isSome ∧ r.given ∧ func = "" ∨
      minified ∧ t = .absent ∧ l = .absent ∧ op = none ∧ r = .absent ∧ func ≠ ""
  | .term kind i c o a num u fmt x cond att red fore lab brk q ss =>
    Term.PayloadOfKind (.term kind i c o a num u fmt x cond att red fore lab brk q ss) ∧
      ∀ suffix ∈ ss.toList.dropLast, Suffix.Unbound suffix
  | .suffix i iter opt b => ExactlyOne [i.given, iter, opt, b.given]
  | .index name x start stop isSlice =>
    ExactlyOne [name ≠ "", x.given, start.given || stop.given] ∧ (stop.given → isSlice) ∧
      (isSlice → start.given ∨ stop.given)
  | .text plain parts => ¬ (plain ≠ "" ∧ parts ≠ .nil)
  | .entry key x q v =>
    ExactlyOne [key ≠ "", x.given, q.given] ∧ (q.given → v.given) ∧ (isVariableKey key → v = .absent)
  | .patternEntry key x q v => ExactlyOne [key ≠ "", x.given, q.given] ∧ (v.given ∨ isVariableKey key)
  | .pattern name a o => ExactlyOne [name ≠ "", !a.isEmpty, !o.isEmpty]
  | .binding ps _ => ps ≠ .nil
  | _ => True

/-- A call has a name, which is no constant if there are no arguments. -/
@[simp] def Named {s : Shape} : Node s → Prop
  | .call name args => name ≠ "" ∧ (args = .nil → name ∉ [".", "..", "null", "true", "false"])
  | _ => True

/-- What the parser makes sure of at every node. -/
def WellBuilt {s : Shape} (n : Node s) : Prop :=
  n.Proper false ∧ n.Named

/-! ## Builders -/

section Builders

@[simp] theorem wellBuilt_ofTerm {t : Term} : (Query.ofTerm t).Everywhere WellBuilt ↔ t.Everywhere WellBuilt := by
  simp [Query.ofTerm, Everywhere, WellBuilt, Proper, Named]

@[simp] theorem wellBuilt_binary {l r : Query} {op : Operator} :
    (Query.binary l op r).Everywhere WellBuilt ↔ l.Everywhere WellBuilt ∧ r.Everywhere WellBuilt := by
  simp [Query.binary, Everywhere, WellBuilt, Proper, Named]

theorem wellBuilt_ofKind {kind : TermKind} (h : kind ∈ [.identity, .recurse, .null, .true, .false]) :
    (Term.ofKind kind).Everywhere WellBuilt := by
  simp only [List.mem_cons, List.not_mem_nil, or_false] at h
  rcases h with rfl | rfl | rfl | rfl | rfl <;>
    simp [Term.ofKind, Everywhere, WellBuilt, Proper, Named]

@[simp] theorem wellBuilt_ofIndex {i : Index} : (Term.ofIndex i).Everywhere WellBuilt ↔ i.Everywhere WellBuilt := by
  simp [Term.ofIndex, Everywhere, WellBuilt, Proper, Named]

@[simp] theorem wellBuilt_ofCall {name : String} {args : List Query} :
    (Term.ofCall name args).Everywhere WellBuilt ↔
      (Node.call name (.ofList args)).Named ∧ (Node.ofList args).Everywhere WellBuilt := by
  simp [Term.ofCall, Everywhere, WellBuilt, Proper, Named]

@[simp] theorem wellBuilt_ofObject {es : List (Node .entry)} :
    (Term.ofObject es).Everywhere WellBuilt ↔ (Node.ofList es).Everywhere WellBuilt := by
  simp [Term.ofObject, Everywhere, WellBuilt, Proper, Named]

@[simp] theorem wellBuilt_ofArray {q : Option Query} :
    (Term.ofArray q).Everywhere WellBuilt ↔ (Node.ofOption q).Everywhere WellBuilt := by
  simp [Term.ofArray, Everywhere, WellBuilt, Proper, Named]

@[simp] theorem wellBuilt_ofNumber {digits : String} : (Term.ofNumber digits).Everywhere WellBuilt ↔ digits ≠ "" := by
  simp [Term.ofNumber, Everywhere, WellBuilt, Proper, Named]

@[simp] theorem wellBuilt_ofUnary {op : Operator} {t : Term} :
    (Term.ofUnary op t).Everywhere WellBuilt ↔ t.Everywhere WellBuilt := by
  simp [Term.ofUnary, Everywhere, WellBuilt, Proper, Named]

@[simp] theorem wellBuilt_ofFormat {name : String} {x : Option (Node .text)} :
    (Term.ofFormat name x).Everywhere WellBuilt ↔ name ≠ "" ∧ (Node.ofOption x).Everywhere WellBuilt := by
  simp [Term.ofFormat, Everywhere, WellBuilt, Proper, Named]

@[simp] theorem wellBuilt_ofText {x : Node .text} : (Term.ofText x).Everywhere WellBuilt ↔ x.Everywhere WellBuilt := by
  simp [Term.ofText, Everywhere, WellBuilt, Proper, Named]

@[simp] theorem wellBuilt_ofConditional {c : Node .conditional} :
    (Term.ofConditional c).Everywhere WellBuilt ↔ c.Everywhere WellBuilt := by
  simp [Term.ofConditional, Everywhere, WellBuilt, Proper, Named]

@[simp] theorem wellBuilt_ofAttempt {a : Node .attempt} :
    (Term.ofAttempt a).Everywhere WellBuilt ↔ a.Everywhere WellBuilt := by
  simp [Term.ofAttempt, Everywhere, WellBuilt, Proper, Named]

@[simp] theorem wellBuilt_ofReduce {r : Node .reduce} :
    (Term.ofReduce r).Everywhere WellBuilt ↔ r.Everywhere WellBuilt := by
  simp [Term.ofReduce, Everywhere, WellBuilt, Proper, Named]

@[simp] theorem wellBuilt_ofForeach {f : Node .foreach} :
    (Term.ofForeach f).Everywhere WellBuilt ↔ f.Everywhere WellBuilt := by
  simp [Term.ofForeach, Everywhere, WellBuilt, Proper, Named]

@[simp] theorem wellBuilt_ofLabel {name : String} {q : Query} :
    (Term.ofLabel name q).Everywhere WellBuilt ↔ q.Everywhere WellBuilt := by
  simp [Term.ofLabel, Everywhere, WellBuilt, Proper, Named]

@[simp] theorem wellBuilt_ofBreak {name : String} : (Term.ofBreak name).Everywhere WellBuilt ↔ name ≠ "" := by
  simp [Term.ofBreak, Everywhere, WellBuilt, Proper, Named]

@[simp] theorem wellBuilt_ofQuery {q : Query} : (Term.ofQuery q).Everywhere WellBuilt ↔ q.Everywhere WellBuilt := by
  simp [Term.ofQuery, Everywhere, WellBuilt, Proper, Named]

@[simp] theorem wellBuilt_ofName {name : String} : (Index.ofName name).Everywhere WellBuilt ↔ name ≠ "" := by
  by_cases h : name = "" <;>
    simp [h, Index.ofName, Everywhere, WellBuilt, Proper, Named, ExactlyOne]

@[simp] theorem wellBuilt_indexOfText {x : Node .text} :
    (Index.ofText x).Everywhere WellBuilt ↔ x.Everywhere WellBuilt := by
  simp [Index.ofText, Everywhere, WellBuilt, Proper, Named, ExactlyOne]

@[simp] theorem wellBuilt_suffixOfIndex {i : Index} :
    (Suffix.ofIndex i).Everywhere WellBuilt ↔ i.Everywhere WellBuilt := by
  simp [Suffix.ofIndex, Everywhere, WellBuilt, Proper, Named, ExactlyOne]

@[simp] theorem wellBuilt_iterate : Suffix.iterate.Everywhere WellBuilt := by
  simp [Suffix.iterate, Everywhere, WellBuilt, Proper, Named, ExactlyOne]

@[simp] theorem wellBuilt_optional : Suffix.optional.Everywhere WellBuilt := by
  simp [Suffix.optional, Everywhere, WellBuilt, Proper, Named, ExactlyOne]

@[simp] theorem wellBuilt_ofBinding {ps : List Pattern} {q : Query} :
    (Suffix.ofBinding ps q).Everywhere WellBuilt ↔
      ps ≠ [] ∧ (Node.ofList ps).Everywhere WellBuilt ∧ q.Everywhere WellBuilt := by
  cases ps <;> simp [Suffix.ofBinding, Everywhere, WellBuilt, Proper, Named, ExactlyOne, Node.ofList]

@[simp] theorem wellBuilt_ofVariable {name : String} :
    (Pattern.ofVariable name).Everywhere WellBuilt ↔ name ≠ "" := by
  by_cases h : name = "" <;>
    simp [h, Pattern.ofVariable, Everywhere, WellBuilt, Proper, Named, ExactlyOne, isEmpty]

@[simp] theorem wellBuilt_patternOfArray {ps : List Pattern} :
    (Pattern.ofArray ps).Everywhere WellBuilt ↔ ps ≠ [] ∧ (Node.ofList ps).Everywhere WellBuilt := by
  cases ps <;> simp [Pattern.ofArray, Everywhere, WellBuilt, Proper, Named, ExactlyOne, isEmpty, Node.ofList]

@[simp] theorem wellBuilt_patternOfObject {es : List (Node .patternEntry)} :
    (Pattern.ofObject es).Everywhere WellBuilt ↔ es ≠ [] ∧ (Node.ofList es).Everywhere WellBuilt := by
  cases es <;> simp [Pattern.ofObject, Everywhere, WellBuilt, Proper, Named, ExactlyOne, isEmpty, Node.ofList]

@[simp] theorem wellBuilt_plainText {text : String} : (Grammar.plainText text).Everywhere WellBuilt := by
  simp [Grammar.plainText, Everywhere, WellBuilt, Proper, Named]

theorem toList_eq_nil : ∀ {ns : Node (.list s)}, ns.toList = [] ↔ ns = .nil
  | .nil => by simp
  | .cons _ _ => by simp

theorem everywhere_toList {P : {s : Shape} → Node s → Prop} : ∀ {ns : Node (.list s)},
    ns.Everywhere P ↔ ∀ n ∈ ns.toList, n.Everywhere P
  | .nil => by simp [Everywhere]
  | .cons n ns => by simp [Everywhere, @everywhere_toList _ _ ns]

@[simp] theorem wellBuilt_withDefs {d : Definition} {q : Query} :
    (Query.withDefs (.cons d .nil) q).Everywhere WellBuilt ↔ d.Everywhere WellBuilt ∧ q.Everywhere WellBuilt := by
  cases q with
  | query own t l op r func =>
    simp only [Query.withDefs, append, Everywhere]
    constructor
    · rintro ⟨h, ⟨hd, hown⟩, hrest⟩
      exact ⟨hd, h, hown, hrest⟩
    · rintro ⟨hd, h, hown, hrest⟩
      exact ⟨h, ⟨hd, hown⟩, hrest⟩

/-- Suffixes behind a term without a binding keep it well-formed, if only the last one of them is a binding. -/
theorem wellBuilt_withSuffixes {t : Term} {ss : List Suffix} (ht : t.Everywhere WellBuilt) (hu : Term.Unbound t)
    (hss : ∀ suffix ∈ ss, suffix.Everywhere WellBuilt) (hlast : ∀ suffix ∈ ss.dropLast, Suffix.Unbound suffix) :
    (Term.withSuffixes ss t).Everywhere WellBuilt := by
  cases t with
  | term kind i c o a num u fmt x cond att red fore lab brk q own =>
    have hown : ∀ suffix ∈ (own.toList ++ ss).dropLast, Suffix.Unbound suffix := by
      intro suffix hmem
      rw [List.dropLast_append] at hmem
      split at hmem
      · exact hu suffix (List.dropLast_subset _ hmem)
      · rcases List.mem_append.1 hmem with h | h
        · exact hu suffix h
        · exact hlast suffix h
    obtain ⟨⟨⟨hpayload, -⟩, -⟩, hi, hc, ho, ha, hunary, hx, hcond, hatt, hred, hfore, hlab, hq, hsuffixes⟩ := ht
    have hall : (own.append (ofList ss)).Everywhere WellBuilt := by
      rw [everywhere_append, @everywhere_toList _ _ (ofList ss), toList_ofList]
      exact ⟨hsuffixes, hss⟩
    simp only [Term.withSuffixes, Everywhere, WellBuilt, Proper, Named, toList_append, toList_ofList]
    exact ⟨⟨⟨hpayload, hown⟩, trivial⟩, hi, hc, ho, ha, hunary, hx, hcond, hatt, hred, hfore, hlab, hq, hall⟩

theorem unbound_withSuffixes {t : Term} {ss : List Suffix} (hu : Term.Unbound t)
    (hss : ∀ suffix ∈ ss, Suffix.Unbound suffix) : Term.Unbound (Term.withSuffixes ss t) := by
  cases t with
  | term kind i c o a num u fmt x cond att red fore lab brk q own =>
    intro suffix hmem
    rw [toList_append, toList_ofList] at hmem
    rcases List.mem_append.1 hmem with h | h
    · exact hu suffix h
    · exact hss suffix h

end Builders

end Node

/-! ## Names -/

namespace Token

theorem ne_empty_of_isWord {name : String} (h : IsWord name.toList) : name ≠ "" := by
  rintro rfl
  obtain ⟨c, hc, -⟩ := h.2
  cases hc

theorem not_isVariableKey_of_isWord {name : String} (h : IsWord name.toList) :
    Node.isVariableKey name = false := by
  obtain ⟨c, hc, hs⟩ := h.2
  rw [Node.isVariableKey, Option.mem_def.1 hc, beq_eq_false_iff_ne]
  rintro ⟨⟩
  cases hs

theorem isVariableKey_of_wellSpelled {name : String} (h : (Token.variable name).WellSpelled) :
    Node.isVariableKey name = true ∧ name ≠ "" := by
  obtain ⟨cs, hname, -⟩ := h
  refine ⟨?_, ?_⟩
  · rw [Node.isVariableKey, hname]
    rfl
  · rintro rfl
    cases hname

theorem ne_empty_of_number {digits : String} (h : (Token.number digits).WellSpelled) : digits ≠ "" := by
  rintro rfl
  rcases h.2 with ⟨c, hc, -⟩ | ⟨d, ds, hd, -⟩
  · cases hc
  · cases hd

theorem ne_empty_of_format {name : String} (h : (Token.format name).WellSpelled) : name ≠ "" := by
  obtain ⟨cs, hname, -⟩ := h
  rintro rfl
  cases hname

/-- The key that a word is has characters and is no variable. -/
theorem wordKey_facts {t : Token} {key : String} (ht : t.WellSpelled) (h : Grammar.wordKey? t = some key) :
    key ≠ "" ∧ Node.isVariableKey key = false := by
  cases t with
  | ident name =>
    cases h
    exact ⟨ne_empty_of_isWord ht.1, not_isVariableKey_of_isWord ht.1⟩
  | keyword k =>
    cases h
    cases k <;> decide
  | _ => cases h

/-- A variable is called like no constant. -/
theorem named_of_variable {name : String} (h : (Token.variable name).WellSpelled) : (Node.call name .nil).Named := by
  have hkey := isVariableKey_of_wellSpelled h
  refine ⟨hkey.2, fun _ hmem => ?_⟩
  simp only [List.mem_cons, List.not_mem_nil, or_false] at hmem
  rcases hmem with rfl | rfl | rfl | rfl | rfl <;> exact absurd hkey.1 (by decide)

end Token

/-- What a name without arguments stands for is well-formed. -/
theorem Node.wellBuilt_bareName {name : String} (h : (Token.ident name).WellSpelled) :
    (Grammar.bareName name).Everywhere WellBuilt := by
  unfold Grammar.bareName
  split
  · exact wellBuilt_ofKind (by simp)
  · exact wellBuilt_ofKind (by simp)
  · exact wellBuilt_ofKind (by simp)
  · next hnull htrue hfalse =>
    have hdot : name ≠ "." := by
      rintro rfl
      obtain ⟨c, hc, hs⟩ := h.1.2
      cases hc
      cases hs
    have hdots : name ≠ ".." := by
      rintro rfl
      obtain ⟨c, hc, hs⟩ := h.1.2
      cases hc
      cases hs
    have hempty : name ≠ "" := Token.ne_empty_of_isWord h.1
    simp_all [Node.ofList]

theorem Term.unbound_bareName {name : String} : Term.Unbound (Grammar.bareName name) := by
  unfold Grammar.bareName
  split <;> exact nofun

/-! ## Derivations -/

namespace Grammar

/-- What is known of the tree that a production reads, besides that it is well-formed: a term has no binding behind it
yet, and a list with separators is not empty. -/
def Production.Meets : (p : Production) → Node p.shape → Prop
  | .primary, t => Term.Unbound t
  | .term, t => Term.Unbound t
  | .suffixes, ss => ∀ suffix ∈ ss.toList, Suffix.Unbound suffix
  | .separated _ _, ns => ns ≠ .nil
  | _, _ => True

open Node

/-- What a production starts from is well-formed: the left operand, where there is one already. -/
def Production.Starts : Production → Prop
  | .binaryRest _ left => left.Everywhere WellBuilt
  | .separated item _ => item.Starts
  | .after _ item => item.Starts
  | _ => True

/-- What a token is by itself is well-formed. -/
theorem wellBuilt_leaf {t : Token} {x : Term} (ht : t.WellSpelled) (h : leaf? t = some x) :
    x.Everywhere WellBuilt ∧ Term.Unbound x := by
  cases t with
  | dotDot =>
    cases h
    exact ⟨wellBuilt_ofKind (by simp), nofun⟩
  | field name =>
    cases h
    exact ⟨by simpa using Token.ne_empty_of_isWord ht, nofun⟩
  | number digits =>
    cases h
    exact ⟨wellBuilt_ofNumber.2 (Token.ne_empty_of_number ht), nofun⟩
  | «variable» name =>
    cases h
    exact ⟨wellBuilt_ofCall.2 ⟨Token.named_of_variable ht, trivial⟩, nofun⟩
  | _ => cases h

theorem wellBuilt_bracketSuffix {i : Node (.optional .index)} (h : i.Everywhere WellBuilt) :
    (bracketSuffix i).Everywhere WellBuilt := by
  cases i with
  | absent => exact wellBuilt_iterate
  | present i => exact wellBuilt_suffixOfIndex.2 h

theorem unbound_bracketSuffix (i : Node (.optional .index)) : Suffix.Unbound (bracketSuffix i) := by
  cases i <;> rfl

/-- **What has a derivation is well-formed.** -/
theorem Derives.wellBuilt {p : Production} {ls ls₁ : Lexemes} {n : Node p.shape} (h : Derives p ls n ls₁)
    (hp : p.Starts) : n.Everywhere WellBuilt ∧ p.Meets n := by
  induction h with
  | definition ht hname hparams hbody ih => exact ⟨⟨⟨trivial, trivial⟩, (ih trivial).1⟩, trivial⟩
  | localDefinition hd hq ihd ihq => exact ⟨wellBuilt_withDefs.2 ⟨(ihd trivial).1, (ihq trivial).1⟩, trivial⟩
  | pipe h ih => exact ⟨(ih trivial).1, trivial⟩
  | binary hleft hq ihleft ihq => exact ⟨(ihq (ihleft trivial).1).1, trivial⟩
  | binaryEnd hnext => exact ⟨hp, trivial⟩
  | binaryMore ht hop hleast hright hchain hq ihright ihq =>
    exact ⟨(ihq (wellBuilt_binary.2 ⟨hp, (ihright trivial).1⟩)).1, trivial⟩
  | pipeOperand h ih => exact ⟨(ih trivial).1, trivial⟩
  | binaryOperand hop h ih => exact ⟨(ih trivial).1, trivial⟩
  | operand h hnext ih => exact ⟨wellBuilt_ofTerm.2 (ih trivial).1, trivial⟩
  | binding ht hpatterns hbody iht ihpatterns ihbody =>
    have hne := mt Node.toList_eq_nil.1 (ihpatterns trivial).2
    refine ⟨wellBuilt_ofTerm.2 (wellBuilt_withSuffixes (iht trivial).1 (iht trivial).2 ?_ nofun), trivial⟩
    simpa using ⟨hne, (ihpatterns trivial).1, (ihbody trivial).1⟩
  | term ht hs iht ihs =>
    have hss := everywhere_toList.1 (ihs trivial).1
    refine ⟨wellBuilt_withSuffixes (iht trivial).1 (iht trivial).2 hss fun suffix hmem => ?_,
      unbound_withSuffixes (iht trivial).2 (ihs trivial).2⟩
    exact (ihs trivial).2 suffix (List.dropLast_subset _ hmem)
  | termQuery h ih => exact ⟨wellBuilt_ofTerm.2 (ih trivial).1, trivial⟩
  | dotText h ih => exact ⟨by simpa using (ih trivial).1, nofun⟩
  | dotAccess h ih => exact ⟨by simpa using (ih trivial).1, nofun⟩
  | dotIterate h ih =>
    have hu : Term.Unbound (Term.ofKind .identity) := nofun
    have hiterate : ∀ suffix ∈ [Suffix.iterate], Suffix.Unbound suffix := by simp [Suffix.Unbound, Suffix.iterate]
    exact ⟨wellBuilt_withSuffixes (wellBuilt_ofKind (by simp)) hu (by simp) nofun, unbound_withSuffixes hu hiterate⟩
  | identity hstr hbracket => exact ⟨wellBuilt_ofKind (by simp), nofun⟩
  | leaf ht hx => exact wellBuilt_leaf ht hx
  | text h ih => exact ⟨by simpa using (ih trivial).1, nofun⟩
  | formatText ht h ih => exact ⟨by simpa [Node.ofOption, Token.ne_empty_of_format ht] using (ih trivial).1, nofun⟩
  | format ht hnext => exact ⟨by simpa [Node.ofOption] using Token.ne_empty_of_format ht, nofun⟩
  | call ht h ih =>
    refine ⟨wellBuilt_ofCall.2 ?_, nofun⟩
    rw [ofList_toList]
    exact ⟨⟨Token.ne_empty_of_isWord ht.1, fun hnil => absurd hnil (ih trivial).2⟩, (ih trivial).1⟩
  | name ht hnext => exact ⟨wellBuilt_bareName ht, Term.unbound_bareName⟩
  | parentheses h ih => exact ⟨by simpa using (ih trivial).1, nofun⟩
  | emptyArray => exact ⟨by simp [Node.ofOption], nofun⟩
  | array h ih => exact ⟨by simpa [Node.ofOption] using (ih trivial).1, nofun⟩
  | object h ih => exact ⟨by simpa using (ih trivial).1, nofun⟩
  | sign hop h ih => exact ⟨by simpa using (ih trivial).1, nofun⟩
  | conditional hcond hthen helifs helse ihcond ihthen ihelifs ihelse =>
    exact ⟨wellBuilt_ofConditional.2 ⟨⟨trivial, trivial⟩, (ihcond trivial).1, (ihthen trivial).1,
      (ihelifs trivial).1, (ihelse trivial).1⟩, nofun⟩
  | attempt hbody hhandler ihbody ihhandler =>
    exact ⟨wellBuilt_ofAttempt.2 ⟨⟨trivial, trivial⟩, (ihbody trivial).1, (ihhandler trivial).1⟩, nofun⟩
  | reduce hsource hp hstart hupdate ihsource ihp ihstart ihupdate =>
    exact ⟨wellBuilt_ofReduce.2 ⟨⟨trivial, trivial⟩, (ihsource trivial).1, (ihp trivial).1, (ihstart trivial).1,
      (ihupdate trivial).1⟩, nofun⟩
  | foreach hsource hp hstart hupdate hextract ihsource ihp ihstart ihupdate ihextract =>
    exact ⟨wellBuilt_ofForeach.2 ⟨⟨trivial, trivial⟩, (ihsource trivial).1, (ihp trivial).1, (ihstart trivial).1,
      (ihupdate trivial).1, (ihextract trivial).1⟩, nofun⟩
  | label ht h ih => exact ⟨by simpa using (ih trivial).1, nofun⟩
  | «break» ht => exact ⟨wellBuilt_ofBreak.2 (Token.isVariableKey_of_wellSpelled ht).2, nofun⟩
  | suffixesEnd hnext => exact ⟨trivial, nofun⟩
  | fieldSuffix ht h ih =>
    refine ⟨⟨by simpa using Token.ne_empty_of_isWord ht, (ih trivial).1⟩, ?_⟩
    simpa [Production.Meets, Suffix.Unbound, Suffix.ofIndex] using (ih trivial).2
  | textSuffix hx h ihx ih =>
    refine ⟨⟨by simpa using (ihx trivial).1, (ih trivial).1⟩, ?_⟩
    simpa [Production.Meets, Suffix.Unbound, Suffix.ofIndex] using (ih trivial).2
  | dotBracketSuffix hi h ihi ih =>
    refine ⟨⟨wellBuilt_bracketSuffix (ihi trivial).1, (ih trivial).1⟩, ?_⟩
    simpa [Production.Meets, unbound_bracketSuffix] using (ih trivial).2
  | bracketSuffix hi h ihi ih =>
    refine ⟨⟨wellBuilt_bracketSuffix (ihi trivial).1, (ih trivial).1⟩, ?_⟩
    simpa [Production.Meets, unbound_bracketSuffix] using (ih trivial).2
  | questionSuffix h ih =>
    refine ⟨⟨wellBuilt_optional, (ih trivial).1⟩, ?_⟩
    simpa [Production.Meets, Suffix.Unbound, Suffix.optional] using (ih trivial).2
  | alternativeSuffix h ih =>
    refine ⟨⟨wellBuilt_optional, (ih trivial).1⟩, ?_⟩
    simpa [Production.Meets, Suffix.Unbound, Suffix.optional] using (ih trivial).2
  | iterate => exact ⟨trivial, trivial⟩
  | sliceTo h ih => exact ⟨⟨by simp [WellBuilt], trivial, trivial, (ih trivial).1⟩, trivial⟩
  | sliceFrom h ih => exact ⟨⟨by simp [WellBuilt], trivial, (ih trivial).1, trivial⟩, trivial⟩
  | slice hstart hstop ihstart ihstop =>
    exact ⟨⟨by simp [WellBuilt], trivial, (ihstart trivial).1, (ihstop trivial).1⟩, trivial⟩
  | position h ih => exact ⟨⟨by simp [WellBuilt], trivial, (ih trivial).1, trivial⟩, trivial⟩
  | plainString => exact ⟨wellBuilt_plainText, trivial⟩
  | string hne hparts h ih => exact ⟨⟨by simp [WellBuilt], (ih trivial).1⟩, trivial⟩
  | fragmentsEnd => exact ⟨trivial, trivial⟩
  | literal h ih => exact ⟨⟨by simp, (ih trivial).1⟩, trivial⟩
  | interpolation hscan hq hend h ihq ih => exact ⟨⟨(ihq trivial).1, (ih trivial).1⟩, trivial⟩
  | entriesEnd => exact ⟨trivial, trivial⟩
  | moreEntries he hes ihe ihes => exact ⟨⟨(ihe trivial).1, (ihes trivial).1⟩, trivial⟩
  | lastEntry he ihe => exact ⟨⟨(ihe trivial).1, trivial⟩, trivial⟩
  | variableEntry ht =>
    have hkey := Token.isVariableKey_of_wellSpelled ht
    exact ⟨⟨by simp [WellBuilt, hkey], trivial, trivial, trivial⟩, trivial⟩
  | textEntry hx hv ihx ihv =>
    have hkey : isVariableKey "" = false := rfl
    exact ⟨⟨by simp [WellBuilt, hkey], (ihx trivial).1, trivial, (ihv trivial).1⟩, trivial⟩
  | computedEntry hq hv ihq ihv =>
    have hkey : isVariableKey "" = false := rfl
    exact ⟨⟨by simp [WellBuilt, hkey], trivial, (ihq trivial).1, (ihv trivial).1⟩, trivial⟩
  | wordEntry ht hkey hv ihv =>
    have hfacts := Token.wordKey_facts ht hkey
    exact ⟨⟨by simp [WellBuilt, hfacts], trivial, trivial, (ihv trivial).1⟩, trivial⟩
  | objectValue h hnext ih => exact ⟨wellBuilt_ofTerm.2 (ih trivial).1, trivial⟩
  | pipedValue ht hv iht ihv => exact ⟨wellBuilt_binary.2 ⟨wellBuilt_ofTerm.2 (iht trivial).1, (ihv trivial).1⟩, trivial⟩
  | variablePattern ht => exact ⟨wellBuilt_ofVariable.2 (Token.isVariableKey_of_wellSpelled ht).2, trivial⟩
  | arrayPattern h ih =>
    have hne := mt Node.toList_eq_nil.1 (ih trivial).2
    exact ⟨by simpa using ⟨hne, (ih trivial).1⟩, trivial⟩
  | objectPattern h ih =>
    have hne := mt Node.toList_eq_nil.1 (ih trivial).2
    exact ⟨by simpa using ⟨hne, (ih trivial).1⟩, trivial⟩
  | variablePatternEntry ht hv ihv =>
    have hkey := Token.isVariableKey_of_wellSpelled ht
    exact ⟨⟨by simp [WellBuilt, hkey], trivial, trivial, (ihv trivial).1⟩, trivial⟩
  | textPatternEntry hx hp ihx ihp =>
    exact ⟨⟨by simp [WellBuilt], (ihx trivial).1, trivial, (ihp trivial).1⟩, trivial⟩
  | computedPatternEntry hq hp ihq ihp =>
    exact ⟨⟨by simp [WellBuilt], trivial, (ihq trivial).1, (ihp trivial).1⟩, trivial⟩
  | wordPatternEntry ht hkey hp ihp =>
    have hfacts := Token.wordKey_facts ht hkey
    exact ⟨⟨by simp [WellBuilt, hfacts], trivial, trivial, (ihp trivial).1⟩, trivial⟩
  | branchesEnd hnext => exact ⟨trivial, trivial⟩
  | branch hcond hthen hbs ihcond ihthen ihbs =>
    exact ⟨⟨⟨⟨trivial, trivial⟩, (ihcond trivial).1, (ihthen trivial).1⟩, (ihbs trivial).1⟩, trivial⟩
  | definitionsEnd hend => exact ⟨trivial, trivial⟩
  | definitions hd hds ihd ihds => exact ⟨⟨(ihd trivial).1, (ihds trivial).1⟩, trivial⟩
  | last h hnext ih => exact ⟨⟨(ih hp).1, trivial⟩, nofun⟩
  | more hx hxs ihx ihxs => exact ⟨⟨(ihx hp).1, (ihxs hp).1⟩, nofun⟩
  | missing hnext => exact ⟨trivial, trivial⟩
  | given h ih => exact ⟨(ih hp).1, trivial⟩

end Grammar

/-! ## Minified trees -/

namespace Node

variable {s : Shape} {f : Query → Query}

@[simp] theorem given_rebuild : ∀ n : Node (.optional s), (n.rebuild f).given = n.given
  | .absent => rfl
  | .present _ => rfl

@[simp] theorem isEmpty_rebuild : ∀ ns : Node (.list s), (ns.rebuild f).isEmpty = ns.isEmpty
  | .nil => rfl
  | .cons _ _ => rfl

theorem toList_rebuild : ∀ ns : Node (.list s), (ns.rebuild f).toList = ns.toList.map (rebuild f)
  | .nil => rfl
  | .cons n ns => congrArg (n.rebuild f :: ·) (toList_rebuild ns)

theorem unbound_rebuild {suffix : Suffix} : Suffix.Unbound (suffix.rebuild f) ↔ Suffix.Unbound suffix := by
  cases suffix with
  | suffix i iter opt b => exact rebuild_eq_absent

/-- Rewriting queries keeps what is filled at the other nodes, where names make no difference. -/
theorem proper_rebuild {minified : Bool} {n : Node s} (hs : s ≠ .query) (h : n.Proper false) :
    (n.rebuild f).Proper minified := by
  cases n with
  | query => exact absurd rfl hs
  | term kind i c o a num u fmt x cond att red fore lab brk q ss =>
    refine ⟨by simpa using h.1, fun suffix hmem => ?_⟩
    rw [toList_rebuild, ← List.map_dropLast] at hmem
    obtain ⟨own, hown, rfl⟩ := List.mem_map.1 hmem
    exact unbound_rebuild.2 (h.2 own hown)
  | _ => simp_all [rebuild_eq_nil]

theorem named_rebuild {n : Node s} (hs : s ≠ .query) (h : n.Named) : (n.rebuild f).Named := by
  cases n with
  | query => exact absurd rfl hs
  | _ => simp_all [rebuild_eq_nil]

theorem proper_query_rebuild {ds : Node (.list .definition)} {t : Node (.optional .term)}
    {l r : Node (.optional .query)} {op : Option Operator} {func : String} {minified : Bool}
    (h : (query ds t l op r func).Proper false) :
    (query (ds.rebuild f) (t.rebuild f) (l.rebuild f) op (r.rebuild f) func).Proper minified := by
  obtain ⟨hgiven, rfl, rfl, rfl, rfl⟩ | ⟨rfl, hl, hop, hr, rfl⟩ | ⟨h, -⟩ := h
  · exact .inl ⟨by rwa [given_rebuild], rfl, rfl, rfl, rfl⟩
  · exact .inr (.inl ⟨rfl, by rwa [given_rebuild], hop, by rwa [given_rebuild], rfl⟩)
  · cases h

theorem wellBuilt_withDefs_iff {ds : Node (.list .definition)} : ∀ {q : Query},
    (Query.withDefs ds q).WellBuilt ↔ q.WellBuilt
  | .query _ _ _ _ _ _ => Iff.rfl

theorem wellBuilt_unwrap {q : Query} (h : q.Everywhere WellBuilt) : (Query.unwrap q).Everywhere WellBuilt := by
  unfold Query.unwrap
  split
  · next inner hinner =>
    cases q with
    | query ds t l op r func =>
      obtain ⟨-, hds, ht, -, -⟩ := h
      rw [Query.enclosed?] at hinner
      split at hinner
      · obtain ⟨t', ht', hp⟩ := Option.bind_eq_some_iff.1 hinner
        rw [toOption_eq_some ht'] at ht
        exact everywhere_withDefs hds (everywhere_parenthesized hp ht) wellBuilt_withDefs_iff.2
      · cases hinner
  · exact h

/-- Trees without the parentheses that enclose all of a query are well-formed like those with them. -/
theorem wellBuilt_erase {n : Node s} (h : n.Everywhere WellBuilt) : n.erase.Everywhere WellBuilt :=
  everywhere_rebuild (fun _ hs hm => ⟨proper_rebuild hs hm.1, named_rebuild hs hm.2⟩)
    (fun hq hds ht hl hr => wellBuilt_unwrap ⟨⟨proper_query_rebuild hq.1, trivial⟩, hds, ht, hl, hr⟩) h

/-- What holds at every node of a minified tree. -/
def WellMinified {s : Shape} (n : Node s) : Prop :=
  n.Proper true ∧ n.Named

/-- A term that has a name has one with characters. -/
theorem funcName?_ne_empty {t : Term} {name : String} (ht : t.Everywhere WellMinified)
    (h : Term.funcName? t = some name) : name ≠ "" := by
  cases t with
  | term kind i c o a num u fmt x cond att red fore lab brk q ss =>
    simp only [Term.funcName?] at h
    split at h
    · split at h
      case h_6 =>
        obtain ⟨call, hcall, hname⟩ := Option.bind_eq_some_iff.1 h
        rw [toOption_eq_some hcall] at ht
        cases call with
        | call name' args =>
          rw [bareName?] at hname
          split at hname
          · cases hname
            exact ht.2.2.1.1.2.1
          · cases hname
      case h_7 => cases h
      all_goals
        cases h
        decide
    · cases h

theorem wellMinified_abbreviate_root {q : Query} (hroot : q.Proper false) (h : q.Everywhere WellMinified) :
    (Query.abbreviate q).Everywhere WellMinified := by
  cases q with
  | query ds t l op r func =>
    rw [Query.abbreviate]
    split
    · next name hname =>
      obtain ⟨t', ht', hname⟩ := Option.bind_eq_some_iff.1 hname
      obtain rfl := toOption_eq_some ht'
      obtain ⟨-, hds, ht, hl, hr⟩ := h
      obtain ⟨-, rfl, rfl, rfl, rfl⟩ | ⟨ht, -⟩ | ⟨h, -⟩ := hroot
      · have hne := funcName?_ne_empty ht hname
        exact ⟨⟨.inr (.inr ⟨rfl, rfl, rfl, rfl, rfl, hne⟩), trivial⟩, hds, trivial, hl, hr⟩
      · cases ht
      · cases h
    · exact h

/-- Names for terms keep a tree well-formed. -/
theorem wellMinified_abbreviate {n : Node s} (h : n.Everywhere WellBuilt) : n.abbreviate.Everywhere WellMinified :=
  everywhere_rebuild (fun _ hs hm => ⟨proper_rebuild hs hm.1, named_rebuild hs hm.2⟩)
    (fun hq hds ht hl hr => wellMinified_abbreviate_root (proper_query_rebuild hq.1)
      ⟨⟨proper_query_rebuild hq.1, trivial⟩, hds, ht, hl, hr⟩) h

theorem proper_of_proper_false {n : Node s} {minified : Bool} (h : n.Proper false) : n.Proper minified := by
  cases n with
  | query => exact h.imp_right fun h => h.imp_right fun h => absurd h.1 Bool.false_ne_true
  | _ => exact h

theorem termAlone_of_proper {n : Node s} {minified : Bool} (h : n.Proper minified) : n.TermAlone := by
  cases n with
  | query ds t l op r func =>
    obtain ⟨-, h⟩ | ⟨ht, -⟩ | ⟨-, ht, -⟩ := h
    · exact .inr h
    · exact .inl ht
    · exact .inl ht
  | _ => trivial

theorem termAlone_of_wellBuilt {n : Node s} (h : n.Everywhere WellBuilt) : n.Everywhere TermAlone :=
  Everywhere.imp (fun _ h => termAlone_of_proper h.1) h

/-- **Minification keeps trees well-formed.** -/
theorem wellMinified_minify {n : Node s} (h : n.Everywhere WellBuilt) : n.minify.Everywhere WellMinified := by
  rw [minify_eq (termAlone_of_wellBuilt h)]
  exact wellMinified_abbreviate (wellBuilt_erase h)

end Node

theorem Query.wellBuilt_of_parse {source : String} {q : Query} (h : Query.parse source = .ok q) :
    q.Everywhere Node.WellBuilt := by
  obtain ⟨ls, ls₁, -, -, hq, -⟩ := Query.derives_of_parse h
  exact (hq.wellBuilt trivial).1

theorem Definition.wellBuilt_of_parseAll {source : String} {ds : List Definition}
    (h : Definition.parseAll source = .ok ds) : ∀ d ∈ ds, d.Everywhere Node.WellBuilt := by
  obtain ⟨ls, ls₁, -, -, hds, -⟩ := Definition.derives_of_parseAll h
  have hall := Node.everywhere_toList.1 (hds.wellBuilt trivial).1
  rwa [Node.toList_ofList] at hall

/-- **Parsed trees are well-formed at every node**, before and after minification. -/
theorem parsed_wellFormed (source : String) :
    (∀ q, Query.parse source = .ok q →
      q.Everywhere (Node.Proper false) ∧ q.minify.Everywhere (Node.Proper true)) ∧
    ∀ ds, Definition.parseAll source = .ok ds → ∀ d ∈ ds,
      d.Everywhere (Node.Proper false) ∧ d.minify.Everywhere (Node.Proper true) := by
  have hproper : ∀ {s : Shape} {n : Node s}, n.Everywhere Node.WellBuilt →
      n.Everywhere (Node.Proper false) ∧ n.minify.Everywhere (Node.Proper true) := fun h =>
    ⟨Node.Everywhere.imp (fun _ => And.left) h, Node.Everywhere.imp (fun _ => And.left) (Node.wellMinified_minify h)⟩
  exact ⟨fun q hq => hproper (Query.wellBuilt_of_parse hq),
    fun ds hds d hd => hproper (Definition.wellBuilt_of_parseAll hds d hd)⟩

theorem parsed_wellFormed_call :
    (∃ q, Query.parse "def f: .; (f)" = .ok q ∧ q.Everywhere (Node.Proper false) ∧
      q.minify.Everywhere (Node.Proper true)) ∧
    ∃ d, Definition.parseAll "def f($x): (.[$x:]);" = .ok [d] ∧ d.Everywhere (Node.Proper false) ∧
      d.minify.Everywhere (Node.Proper true) := by
  have hquery : Query.parse "def f: .; (f)" = .ok (Query.withDefs
      (.cons (.definition "f" [] (Query.ofTerm (Term.ofKind .identity))) .nil)
      (Query.ofTerm (Term.ofQuery (Query.ofTerm (Term.ofCall "f" []))))) := Grammar.ok_of_toOption (by decide +kernel)
  have hall : Definition.parseAll "def f($x): (.[$x:]);" = .ok [.definition "f" ["$x"]
      (Query.ofTerm (Term.ofQuery (Query.ofTerm (Term.ofIndex
        (.index "" .absent (.present (Query.ofTerm (Term.ofCall "$x" []))) .absent true)))))] :=
    Grammar.ok_of_toOption (by decide +kernel)
  exact ⟨⟨_, hquery, (parsed_wellFormed _).1 _ hquery⟩,
    _, hall, (parsed_wellFormed _).2 _ hall _ (List.mem_singleton.2 rfl)⟩

end DefTable

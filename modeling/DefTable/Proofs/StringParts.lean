import DefTable.Proofs.OperatorParsing
import Mathlib.Data.List.Forall2

/-!
# What a string keeps of its parts

A string that is one piece of plain characters is kept as it is; of every other string the parts become queries, a text
as the query that is this text alone. So from a string one sees which queries its parts are, and no more
(`Grammar.string_eq_iff`): an interpolation of a plain string is not told from the text it holds
(`Grammar.string_same_quoted`), and everything else about the parts is.
-/

namespace DefTable

open Grammar

namespace StringPart

/-- The query that a part of a string becomes among other parts. -/
def query : StringPart → Except Diagnostic Query
  | .literal s => .ok (Query.ofTerm (Term.ofText (plainText s)))
  | .interpolation source _ => Query.parse source

/-- Texts with the same characters, or interpolations that are the same query. -/
inductive Same : StringPart → StringPart → Prop where
  | literal (s : String) : Same (.literal s) (.literal s)
  | interpolation {source source' : String} {o o' : Nat} {q : Query} (h : Query.parse source = .ok q)
      (h' : Query.parse source' = .ok q) : Same (.interpolation source o) (.interpolation source' o')

/-- An interpolation whose query is a text as a plain string, and that text. -/
inductive Quotes : StringPart → StringPart → Prop where
  | intro {source : String} {o : Nat} {s : String}
      (h : Query.parse source = .ok (Query.ofTerm (Term.ofText (plainText s)))) :
      Quotes (.interpolation source o) (.literal s)

theorem ofText_inj {s s' : String}
    (h : Query.ofTerm (Term.ofText (plainText s)) = Query.ofTerm (Term.ofText (plainText s'))) : s = s' := by
  simpa only [Query.ofTerm, Term.ofText, plainText, Node.query.injEq, Node.present.injEq, Node.term.injEq,
    Node.text.injEq, true_and, and_true] using h

/-- **Two parts become one query just when they are the same, or one is the other in quotes.** -/
theorem query_eq_iff {p p' : StringPart} {q : Query} (hq : p.query = .ok q) :
    p'.query = .ok q ↔ p.Same p' ∨ p.Quotes p' ∨ p'.Quotes p := by
  constructor
  · intro hq'
    cases p with
    | literal s =>
      cases p' with
      | literal s' =>
        obtain rfl : s = s' := ofText_inj (Except.ok.inj (hq.trans hq'.symm))
        exact .inl (.literal s)
      | interpolation source' o' => exact .inr (.inr (.intro (hq'.trans hq.symm)))
    | interpolation source o =>
      cases p' with
      | literal s' => exact .inr (.inl (.intro (hq.trans hq'.symm)))
      | interpolation source' o' => exact .inl (.interpolation hq hq')
  · rintro (hsame | hquotes | hquotes)
    · cases hsame with
      | literal s => exact hq
      | interpolation h h' => exact h'.trans (h.symm.trans hq)
    · cases hquotes with
      | intro h => exact h.symm.trans hq
    · cases hquotes with
      | intro h => exact h.trans hq

end StringPart

namespace Grammar

/-! ## The string of given parts -/

/-- The parts of a string are these queries. -/
def Reads (parts : List StringPart) (qs : List Query) : Prop :=
  List.Forall₂ (fun p q => p.query = .ok q) parts qs

/-- One piece of plain characters. -/
def IsText (parts : List StringPart) : Prop :=
  ∃ s, parts = [.literal s]

/-- A query is the same wherever its source stands. -/
theorem ends_whole_of_parse {source : String} {q : Query} (h : Query.parse source = .ok q) (offset : Nat) :
    Ends (fun n => whole n source offset) (.ok q) := by
  refine ⟨enoughSteps source, fun n hn => ?_⟩
  have hagree := Change.whole_agree (Change.shifted_scans (k := offset)) ⟨rfl, (Nat.zero_add offset).symm⟩
    (Nat.le_refl (enoughSteps source)) hn
  have hwhole : whole (enoughSteps source) source 0 = .ok q := by
    unfold Query.parse at h
    split at h
    · rwa [← Except.ok.inj h]
    · cases h
  rw [hwhole] at hagree
  dsimp only
  generalize whole n source offset = r at hagree ⊢
  cases hagree with
  | ok heq => rw [heq]

theorem ends_fragments {parts : List StringPart} {qs : List Query} (h : Reads parts qs) :
    Ends (fun n => fragments n parts) (.ok qs) := by
  induction h with
  | nil => exact Ends.of_succ (.of_eq fun n => rfl)
  | @cons p q parts qs hq _ ih =>
    cases p with
    | literal s =>
      obtain rfl := Except.ok.inj hq
      exact Ends.of_succ (Ends.bind ih (.of_eq fun n => rfl))
    | interpolation source offset =>
      exact Ends.of_succ (Ends.bind (ends_whole_of_parse hq offset) (Ends.bind ih (.of_eq fun n => rfl)))

/-- Parts other than one text are kept as their queries. -/
theorem ends_string {parts : List StringPart} {qs : List Query} (h : Reads parts qs) (htext : ¬ IsText parts) :
    Ends (fun n => string n parts) (.ok (.text "" (.ofList qs))) := by
  have hne : ∀ s, parts ≠ [.literal s] := not_exists.1 htext
  apply Ends.of_succ
  simp only [string_queries _ hne]
  exact Ends.bind (ends_fragments h) (.of_eq fun n => rfl)

theorem ends_string_text (s : String) : Ends (fun n => string n [.literal s]) (.ok (plainText s)) :=
  Ends.of_succ (.of_eq fun _ => rfl)

/-! ## Strings of a source -/

/-- The parts of a string token of a source, whose interpolations are queries. -/
structure Holds (source : String) (parts : List StringPart) : Prop where
  scanned : ∃ base ls o, Token.scan source base = .ok ls ∧ (⟨.str parts, o⟩ : Lexeme) ∈ ls
  parsed : ∀ inner offset, .interpolation inner offset ∈ parts → ∃ q, Query.parse inner = .ok q

namespace Holds

variable {source : String} {parts : List StringPart}

theorem ne_nil (h : Holds source parts) : parts ≠ [] := by
  obtain ⟨base, ls, o, hscan, hmem⟩ := h.scanned
  exact Token.wellSpelled_scan hscan _ hmem

theorem partsWeight_le (h : Holds source parts) : Token.partsWeight parts ≤ source.length := by
  obtain ⟨base, ls, o, hscan, hmem⟩ := h.scanned
  have hscanned := weight_scan_le hscan
  obtain ⟨before, behind, rfl⟩ := List.append_of_mem hmem
  rw [weight, List.map_append, List.sum_append, List.map_cons, List.sum_cons, Token.weight] at hscanned
  omega

/-- Every part of it is a query. -/
theorem reads (h : Holds source parts) : ∃ qs, Reads parts qs := by
  have hparsed := h.parsed
  clear h
  induction parts with
  | nil => exact ⟨[], .nil⟩
  | cons p parts ih =>
    have hp : ∃ q, p.query = .ok q := by
      cases p with
      | literal s => exact ⟨_, rfl⟩
      | interpolation inner offset => exact hparsed inner offset (List.mem_cons_self ..)
    obtain ⟨q, hq⟩ := hp
    obtain ⟨qs, hqs⟩ := ih fun inner offset hmem => hparsed inner offset (List.mem_cons_of_mem _ hmem)
    exact ⟨q :: qs, .cons hq hqs⟩

theorem of_reads {o : Nat} {ls : Lexemes} (hscan : Token.scan source 0 = .ok (⟨.str parts, o⟩ :: ls)) {qs : List Query}
    (h : Reads parts qs) : Holds source parts := by
  refine ⟨⟨0, _, o, hscan, List.mem_cons_self ..⟩, fun inner offset hmem => ?_⟩
  clear hscan
  induction h with
  | nil => cases hmem
  | cons hq _ ih =>
    rcases List.mem_cons.1 hmem with rfl | hmem
    · exact ⟨_, hq⟩
    · exact ih hmem

/-- The steps that are enough for a source are enough for its strings. -/
theorem string_steps (h : Holds source parts) {x : Node .text} (hx : Ends (fun n => string n parts) (.ok x)) {n : Nat}
    (hn : enoughSteps source ≤ n) : string n parts = .ok x := by
  obtain ⟨k, hk⟩ := hx
  have hparts := Change.parts_shift (k := 0) parts
  rw [Change.parts_eq_of_shifted hparts] at hparts
  have henough : 16 * Token.partsWeight parts + 2 ≤ enoughSteps source := by
    have := h.partsWeight_le
    unfold enoughSteps
    omega
  have hmax : enoughSteps source ≤ max n k := Nat.le_trans hn (Nat.le_max_left n k)
  have hlockstep := Change.lockstep_of_le (Change.shifted_scans (k := 0)) hn hmax
  calc string n parts
    _ = string (max n k) parts := (Change.agree_iff.1 (hlockstep.string hparts henough)).eq_of_shifted
    _ = .ok x := hk _ (Nat.le_max_right n k)

end Holds

/-! ## What is told apart -/

theorem reads_eq_iff {parts parts' : List StringPart} {qs qs' : List Query} (h : Reads parts qs) (h' : Reads parts' qs') :
    qs = qs' ↔ List.Forall₂ (fun p p' => p.Same p' ∨ p.Quotes p' ∨ p'.Quotes p) parts parts' := by
  induction h generalizing parts' qs' with
  | nil =>
    cases h' with
    | nil => simp
    | cons => simp
  | @cons p q parts qs hq _ ih =>
    cases h' with
    | nil => simp
    | @cons p' q' parts' qs' hq' h' =>
      rw [List.forall₂_cons, ← ih h', ← StringPart.query_eq_iff hq, hq', Except.ok.injEq, List.cons.injEq, eq_comm (a := q)]

theorem reads_text {s : String} {qs : List Query} (h : Reads [.literal s] qs) :
    qs = [Query.ofTerm (Term.ofText (plainText s))] := by
  obtain ⟨q, _, hq, hnil, rfl⟩ := List.forall₂_cons_left_iff.1 h
  rw [List.forall₂_nil_left_iff.1 hnil, Except.ok.inj hq]

theorem plainText_ne {parts : List StringPart} {qs : List Query} (h : Reads parts qs) (hne : parts ≠ []) (s : String) :
    plainText s ≠ .text "" (.ofList qs) := by
  intro heq
  cases h with
  | nil => exact hne rfl
  | cons => cases heq

/-- What a string is made into, by whether it is one text. -/
inductive Value (parts : List StringPart) (qs : List Query) : Node .text → Prop where
  | text (s : String) (h : parts = [.literal s]) : Value parts qs (plainText s)
  | queries (h : ¬ IsText parts) : Value parts qs (.text "" (.ofList qs))

theorem Holds.string_ok {source : String} {parts : List StringPart} {qs : List Query} (h : Holds source parts)
    (hqs : Reads parts qs) :
    ∃ x, Value parts qs x ∧ ∀ n, enoughSteps source ≤ n → string n parts = .ok x := by
  by_cases htext : IsText parts
  · obtain ⟨s, rfl⟩ := htext
    exact ⟨plainText s, .text s rfl, fun n hn => h.string_steps (ends_string_text s) hn⟩
  · exact ⟨.text "" (.ofList qs), .queries htext, fun n hn => h.string_steps (ends_string hqs htext) hn⟩

theorem Value.eq_iff {parts parts' : List StringPart} {qs qs' : List Query} {x x' : Node .text} (h : Value parts qs x)
    (h' : Value parts' qs' x') (hqs : Reads parts qs) (hqs' : Reads parts' qs') (hne : parts ≠ []) (hne' : parts' ≠ []) :
    x = x' ↔ (IsText parts ↔ IsText parts') ∧ qs = qs' := by
  cases h with
  | text s hs =>
    subst hs
    have htext : IsText [.literal s] := ⟨s, rfl⟩
    cases h' with
    | text s' hs' =>
      subst hs'
      have htext' : IsText [.literal s'] := ⟨s', rfl⟩
      rw [reads_text hqs, reads_text hqs']
      constructor
      · intro heq
        rw [heq]
        exact ⟨iff_of_true htext htext', rfl⟩
      · rintro ⟨-, heq⟩
        rw [StringPart.ofText_inj (List.cons.inj heq).1]
    | queries htext' =>
      refine iff_of_false (plainText_ne hqs' hne' s) fun hboth => ?_
      exact htext' (hboth.1.1 htext)
  | queries htext =>
    cases h' with
    | text s' hs' =>
      subst hs'
      refine iff_of_false (plainText_ne hqs hne s').symm fun hboth => ?_
      exact htext (hboth.1.2 ⟨s', rfl⟩)
    | queries htext' =>
      constructor
      · intro heq
        have hlist := congrArg Node.toList (Node.text.inj heq).2
        rw [Node.toList_ofList, Node.toList_ofList] at hlist
        exact ⟨iff_of_false htext htext', hlist⟩
      · rintro ⟨-, rfl⟩
        rfl

theorem parse_quoted : Query.parse "\"a\"" = .ok (Query.ofTerm (Term.ofText (plainText "a"))) :=
  ok_of_toOption (by decide +kernel)

theorem parse_dot : Query.parse "." = .ok (Query.ofTerm (Term.ofKind .identity)) :=
  ok_of_toOption (by decide +kernel)

/-- Two interpolations, of a plain string and of a dot. -/
theorem reads_quoted : Reads [.interpolation "\"a\"" 3, .interpolation "." 9]
    [Query.ofTerm (Term.ofText (plainText "a")), Query.ofTerm (Term.ofKind .identity)] :=
  .cons parse_quoted (.cons parse_dot .nil)

theorem holds_quoted : Holds "\"\\(\"a\")\\(.)\"" [.interpolation "\"a\"" 3, .interpolation "." 9] := by
  have hscan : (Token.scan "\"\\(\"a\")\\(.)\"" 0).toOption =
      some [⟨.str [.interpolation "\"a\"" 3, .interpolation "." 9], 0⟩, ⟨.eof, 12⟩] := by decide +kernel
  exact Holds.of_reads (ok_of_toOption hscan) reads_quoted

/-- **Two strings of sources are equal just when both or none of them is one text, they have as many parts, and part by
part they hold the same text, interpolations of the same query, or a text and an interpolation of that text as a plain
string.** -/
theorem string_eq_iff {source source' : String} {parts parts' : List StringPart} (h : Holds source parts)
    (h' : Holds source' parts') :
    ∃ x x', (∀ n, enoughSteps source ≤ n → string n parts = .ok x) ∧
      (∀ n, enoughSteps source' ≤ n → string n parts' = .ok x') ∧
      (x = x' ↔ (IsText parts ↔ IsText parts') ∧
        List.Forall₂ (fun p p' => p.Same p' ∨ p.Quotes p' ∨ p'.Quotes p) parts parts') := by
  obtain ⟨qs, hqs⟩ := h.reads
  obtain ⟨qs', hqs'⟩ := h'.reads
  obtain ⟨x, hvalue, hx⟩ := h.string_ok hqs
  obtain ⟨x', hvalue', hx'⟩ := h'.string_ok hqs'
  refine ⟨x, x', hx, hx', ?_⟩
  rw [← reads_eq_iff hqs hqs']
  exact hvalue.eq_iff hvalue' hqs hqs' h.ne_nil h'.ne_nil

/-- A text and an interpolation of another text as a plain string are told apart. -/
theorem string_eq_iff_other_text :
    ∃ x x', string (enoughSteps "\"\\(\"a\")\\(.)\"") [.interpolation "\"a\"" 3, .interpolation "." 9] = .ok x ∧
      string (enoughSteps "\"b\\(.)\"") [.literal "b", .interpolation "." 4] = .ok x' ∧ x ≠ x' := by
  have hscan : (Token.scan "\"b\\(.)\"" 0).toOption =
      some [⟨.str [.literal "b", .interpolation "." 4], 0⟩, ⟨.eof, 7⟩] := by decide +kernel
  have h' := Holds.of_reads (ok_of_toOption hscan) (.cons rfl (.cons parse_dot .nil))
  obtain ⟨x, x', hx, hx', heq⟩ := string_eq_iff holds_quoted h'
  refine ⟨x, x', hx _ (Nat.le_refl _), hx' _ (Nat.le_refl _), fun hxx => ?_⟩
  rcases (List.forall₂_cons.1 (heq.1 hxx).2).1 with hsame | hquotes | hquotes
  · cases hsame
  · cases hquotes with
    | intro h =>
      have htext := StringPart.ofText_inj (Except.ok.inj (parse_quoted.symm.trans h))
      exact absurd htext (by decide)
  · cases hquotes

/-- **Not all that differs is told apart**: a text is not, from an interpolation of that text as a plain string. -/
theorem string_same_quoted :
    ∃ x, Holds "\"\\(\"a\")\\(.)\"" [.interpolation "\"a\"" 3, .interpolation "." 9] ∧
      Holds "\"a\\(.)\"" [.literal "a", .interpolation "." 4] ∧
      (∀ n, enoughSteps "\"\\(\"a\")\\(.)\"" ≤ n →
        string n [.interpolation "\"a\"" 3, .interpolation "." 9] = .ok x) ∧
      (∀ n, enoughSteps "\"a\\(.)\"" ≤ n → string n [.literal "a", .interpolation "." 4] = .ok x) ∧
      ¬ List.Forall₂ StringPart.Same [.interpolation "\"a\"" 3, .interpolation "." 9]
        [.literal "a", .interpolation "." 4] := by
  have hscan : (Token.scan "\"a\\(.)\"" 0).toOption =
      some [⟨.str [.literal "a", .interpolation "." 4], 0⟩, ⟨.eof, 7⟩] := by decide +kernel
  have hqs : Reads [.literal "a", .interpolation "." 4] _ := .cons rfl (.cons parse_dot .nil)
  have h := Holds.of_reads (ok_of_toOption hscan) hqs
  refine ⟨_, holds_quoted, h, fun n hn => holds_quoted.string_steps (ends_string reads_quoted ?_) hn,
    fun n hn => h.string_steps (ends_string hqs ?_) hn, fun hsame => ?_⟩
  · rintro ⟨s, hs⟩
    cases hs
  · rintro ⟨s, hs⟩
    cases hs
  · cases (List.forall₂_cons.1 hsame).1

end Grammar
end DefTable

import DefTable.Proofs.DerivationCompleteness
import DefTable.Proofs.Unparsing
import DefTable.Proofs.Rereading
import DefTable.Proofs.PrintedScan

/-!
# From a source to its tree and back

A source has one wording (`HasWording.unique`), and the tree that it is parsed to has the same, up to what trees leave
open. The wording of the tree, printed with a blank between tokens, is parsed to the same tree (`parse_unparse`).
-/

namespace DefTable

open Grammar Wording

/-! ## Wordings of sources -/

/-- A source has exactly a wording. -/
def HasWording (source : String) (w : Wording .tokens) : Prop :=
  ∃ ls, Token.scan source 0 = .ok ls ∧ @Spells .tokens ls w

theorem Spells.unique {l : Level} {raw : l.Carrier} {w w' : Wording l} (h : Spells raw w) (h' : Spells raw w') :
    w = w' := by
  induction h with
  | finish hend =>
    cases h' with
    | finish => rfl
    | token ht => subst hend; cases ht
    | quote => cases hend
  | token ht _ ih =>
    cases h' with
    | finish hend => cases hend; cases ht
    | token _ h' => rw [ih h']
    | quote => cases ht
  | quote _ _ ihps ih =>
    cases h' with
    | finish hend => cases hend
    | token ht => cases ht
    | quote hps' h' => rw [ihps hps', ih h']
  | done => cases h'; rfl
  | text _ ih =>
    cases h' with
    | text h' => rw [ih h']
  | splice hscan _ _ ihinner ih =>
    cases h' with
    | splice hscan' hinner' h' =>
      rw [hscan] at hscan'
      cases hscan'
      rw [ihinner hinner', ih h']

/-- **A source has at most one wording.** -/
theorem HasWording.unique {source : String} {w w' : Wording .tokens} (h : HasWording source w)
    (h' : HasWording source w') : w = w' := by
  obtain ⟨ls, hscan, hspells⟩ := h
  obtain ⟨ls', hscan', hspells'⟩ := h'
  rw [hscan] at hscan'
  cases hscan'
  exact hspells.unique hspells'

/-! ## Tokens of the wording -/

/-- What a wording is found in looks as a source does. Of the parts of a string nothing is asked, since their sources
are cut into tokens again. -/
def Level.Spelled : (l : Level) → l.Carrier → Prop
  | .tokens, ls => Grammar.Spelled ls
  | .parts, _ => True

theorem Spells.wellSpelled {l : Level} {raw : l.Carrier} {w : Wording l} (h : Spells raw w) (hraw : l.Spelled raw) :
    w.WellSpelled := by
  induction h with
  | finish => trivial
  | token ht _ ih => exact ⟨(spelled_cons.1 hraw).1, ht, ih (spelled_cons.1 hraw).2⟩
  | quote _ _ ihps ih => exact ⟨ihps trivial, ih (spelled_cons.1 hraw).2⟩
  | done => trivial
  | text _ ih => exact ih trivial
  | splice hscan _ _ ihinner ih => exact ⟨ihinner (Token.wellSpelled_scan hscan), ih trivial⟩

theorem Respelled.wellSpelled {l : Level} {w u : Wording l} (h : Respelled w u) (hw : w.WellSpelled) :
    u.WellSpelled := by
  induction h with
  | nil => trivial
  | token _ ih => exact ⟨hw.1, hw.2.1, ih hw.2.2⟩
  | quote _ _ ihps ih => exact ⟨ihps hw.1, ih hw.2⟩
  | done => trivial
  | text _ ih => exact ih hw
  | splice _ _ ihw ih => exact ⟨ihw hw.1, ih hw.2⟩
  | comma _ ih => exact ih hw.2.2
  | alternative _ ih => exact ⟨trivial, rfl, ih ⟨⟨nofun, nofun⟩, rfl, hw.2.2⟩⟩
  | dotSource _ _ ih => exact ih hw.2.2
  | dotTree _ _ ih => exact ⟨trivial, rfl, ih hw⟩
  | literal _ ih => exact ⟨⟨trivial, trivial⟩, ih hw⟩

/-! ## Parsing what was printed -/

/-- What a production read of a whole source has the wording of that source, and is read again from what is printed. -/
theorem printed_again {source : String} {p : Production} {ls ls₁ : Lexemes} {n : Node p.shape}
    (hscan : Token.scan source 0 = .ok ls) (hspelled : Spelled ls) (hend : peek ls₁ = .eof)
    (hwritten : ∀ {tail}, @Written .tokens ls₁ tail → @Written .tokens ls (n.unparse ++ tail))
    (hagain : Rereads n.unparse fun ls' ls₁' => SameNext ls₁ ls₁' → Derives p ls' n ls₁') :
    (∃ w, HasWording source w ∧ Respelled w n.unparse) ∧
      ∃ ls' ls₁', Token.scan n.unparse.print 0 = .ok ls' ∧ Derives p ls' n ls₁' ∧ peek ls₁' = .eof := by
  have hsource := hwritten (.finish hend)
  rw [append_nil] at hsource
  obtain ⟨w, hw, hu⟩ := hsource
  have htree := hu.wellSpelled (hw.wellSpelled hspelled)
  obtain ⟨ls', hscan', hls'⟩ := Token.scan_print htree n.closed.unparse.nested 0
  obtain ⟨ls₁', hend', hderives⟩ := hagain.whole hls'
  exact ⟨⟨w, ⟨ls, hscan, hw⟩, hu⟩, ls', ls₁', hscan', hderives (.of_eof hend hend'), hend'⟩

/-- **Parsing loses, adds and reorders nothing.** A source that is parsed has the wording of its tree, up to what trees
leave open; and the wording of the tree, printed with one blank between tokens, is parsed to the same tree. That is so
for queries and for lists of definitions. -/
theorem parse_unparse :
    (∀ source q, Query.parse source = .ok q →
      (∃ w, HasWording source w ∧ Respelled w q.unparse) ∧ Query.parse q.unparse.print = .ok q) ∧
    ∀ source ds, Definition.parseAll source = .ok ds →
      (∃ w, HasWording source w ∧ Respelled w (Node.ofList ds).unparse) ∧
        Definition.parseAll (Node.ofList ds).unparse.print = .ok ds := by
  constructor
  · intro source q h
    obtain ⟨ls, ls₁, hscan, hspelled, hderives, hend⟩ := Query.derives_of_parse h
    obtain ⟨hwording, ls', ls₁', hscan', hderives', hend'⟩ :=
      printed_again (p := .pipe) hscan hspelled hend hderives.unparses hderives.again
    exact ⟨hwording, Query.parse_of_derives hscan' hderives' hend'⟩
  · intro source ds h
    obtain ⟨ls, ls₁, hscan, hspelled, hderives, hend⟩ := Definition.derives_of_parseAll h
    obtain ⟨hwording, ls', ls₁', hscan', hderives', -⟩ :=
      printed_again (p := .definitions) hscan hspelled hend hderives.unparses hderives.again
    have hparse := Definition.parseAll_of_derives hscan' hderives'
    rw [Node.toList_ofList] at hparse
    exact ⟨hwording, hparse⟩

/-- A source with a sign in two halves, a bracket without its dot, and characters beside an interpolation. -/
theorem parse_unparse_alternative :
    (∃ q, Query.parse ".a[0]?//\"x\\(.)\"" = .ok q ∧
      q.unparse.print = ".a . [ 0 ] ? // \"\\(\"x\")\\(.)\"" ∧
      (∃ w, HasWording ".a[0]?//\"x\\(.)\"" w ∧ Respelled w q.unparse) ∧ Query.parse q.unparse.print = .ok q) ∧
    ∃ ds, Definition.parseAll "def f($a): $a;" = .ok ds ∧ (Node.ofList ds).unparse.print = "def f ( $a ) : $a ;" ∧
      (∃ w, HasWording "def f($a): $a;" w ∧ Respelled w (Node.ofList ds).unparse) ∧
      Definition.parseAll (Node.ofList ds).unparse.print = .ok ds := by
  have hquery : (Query.parse ".a[0]?//\"x\\(.)\"").toOption.map (fun q => q.unparse.print) =
      some ".a . [ 0 ] ? // \"\\(\"x\")\\(.)\"" := by decide +kernel
  have hdefs : (Definition.parseAll "def f($a): $a;").toOption.map (fun ds => (Node.ofList ds).unparse.print) =
      some "def f ( $a ) : $a ;" := by decide +kernel
  obtain ⟨q, hq, hprint⟩ := Option.map_eq_some_iff.1 hquery
  obtain ⟨ds, hds, hprints⟩ := Option.map_eq_some_iff.1 hdefs
  have hq := ok_of_toOption hq
  have hds := ok_of_toOption hds
  exact ⟨⟨q, hq, hprint, parse_unparse.1 _ q hq⟩, ds, hds, hprints, parse_unparse.2 _ ds hds⟩

end DefTable

import DefTable.Generation
import DefTable.Proofs.SpacedScan
import DefTable.Proofs.StepBound

/-!
# Blanks and comments do not matter

A source with more blanks and comments in front of its tokens has the same tokens, is the same query and the same
definitions, or is refused with the same message, and has the same generated file (`respaced_same`).
-/

namespace DefTable

open Text Token Grammar

/-! ## Corresponding sources -/

/-- What is cut into tokens in one place is cut into tokens in every other. -/
theorem Token.scan_elsewhere {source : String} {base : Nat} {ls : Lexemes} (h : scan source base = .ok ls) (o : Nat) :
    ∃ ls', scan source o = .ok ls' := by
  have hbase := scan_shift (k := base) source 0
  have ho := scan_shift (k := o) source 0
  rw [Nat.zero_add] at hbase ho
  rw [h] at hbase
  cases hscan : scan source 0 with
  | ok ls₀ => exact ⟨_, by rw [ho, hscan, shiftResult]⟩
  | error e =>
    rw [hscan] at hbase
    cases hbase

theorem Spaced.agree {source source' : String} (h : Spaced .tokens source.toList source'.toList) {base : Nat}
    {ls : Lexemes} (hscan : scan source base = .ok ls) (o o' : Nat) :
    respacing.Agree respacing.Alike (scanned (scan source o)) (scanned (scan source' o')) := by
  obtain ⟨ls₁, hscan₁⟩ := scan_elsewhere hscan o
  obtain ⟨ls₂, hscan₂, halike⟩ := h.scanFrom hscan₁ o'
  rw [hscan₁, scan, hscan₂]
  exact .ok halike

theorem respacing_scans : respacing.Scans := by
  intro source o source' o' h
  rcases h with rfl | ⟨⟨base, ls, hscan⟩, hspaced⟩
  · cases hscan : scan source' 0 with
    | ok ls =>
      have hspaced : Spaced .tokens source'.toList source'.toList := Spaced.refl ⟨0, source'.toList⟩ hscan
      exact hspaced.agree hscan o o'
    | error e =>
      have ho := scan_shift (k := o) source' 0
      have ho' := scan_shift (k := o') source' 0
      rw [Nat.zero_add, hscan] at ho ho'
      rw [ho, ho']
      have hcause : respacing.Cause (e.shift o).cause (e.shift o').cause := .same e.cause
      exact .fault hcause trivial
  · exact hspaced.agree hscan o o'

/-! ## Results -/

/-- The values of two runs that end alike are the same, and so are the messages of their faults. -/
theorem Grammar.Change.Agree.message_eq {δ : Change} {α : Type} {x y : Parsed α} (h : δ.Agree Eq x y)
    (source source' : String) :
    (y.mapError (Halt.diagnostic source')).mapError Diagnostic.message =
      (x.mapError (Halt.diagnostic source)).mapError Diagnostic.message := by
  cases h with
  | ok h => rw [h]; rfl
  | fault hcause ho => exact congrArg Except.error hcause.message

theorem Query.parse_eq (source : String) {n : Nat} (hn : enoughSteps source ≤ n) :
    Query.parse source = (whole n source 0).mapError (Halt.diagnostic source) := by
  rw [Query.parse, whole_steps source 0 hn]
  cases whole n source 0 <;> rfl

theorem Definition.parseAll_eq {source : String} {ls : Lexemes} (hscan : scan source 0 = .ok ls) {n : Nat}
    (hn : enoughSteps source ≤ n) :
    Definition.parseAll source = (definitions n ls).mapError (Halt.diagnostic source) := by
  rw [Definition.parseAll, hscan, scanned]
  dsimp only
  rw [definitions_steps hscan hn]
  cases definitions n ls <;> rfl

/-- Results with the same messages have the same values. -/
theorem Diagnostic.eq_ok_of_message {α : Type} {x y : Except Diagnostic α} {a : α}
    (h : y.mapError message = x.mapError message) (hx : x = .ok a) : y = .ok a := by
  subst hx
  cases y with
  | ok b => exact congrArg Except.ok (Except.ok.inj h)
  | error d => cases h

/-- The generated file is the same for the same definitions. -/
theorem Settings.generate_congr (s : Settings) (rules : Rules) {source source' : String}
    (h : (Definition.parseAll source').mapError Diagnostic.message =
      (Definition.parseAll source).mapError Diagnostic.message) :
    (s.generate rules source').toOption = (s.generate rules source).toOption := by
  unfold Settings.generate
  cases hds : Definition.parseAll source with
  | ok ds => rw [Diagnostic.eq_ok_of_message h hds]
  | error d =>
    cases hds' : Definition.parseAll source' with
    | error d' => rfl
    | ok ds' =>
      rw [Diagnostic.eq_ok_of_message h.symm hds'] at hds
      cases hds

/-- **Blanks and comments in front of tokens change nothing.** The tokens are the same up to the sources of
interpolations, which differ in blanks and comments only; query and definitions are the same, or refused with the same
message; and the generated file is the same. -/
theorem respaced_same {source source' : String} {ls : Lexemes} (hscan : scan source 0 = .ok ls)
    (h : Spaced .tokens source.toList source'.toList) :
    (∃ ls', scan source' 0 = .ok ls' ∧ respacing.Alike ls ls') ∧
      (Query.parse source').mapError Diagnostic.message = (Query.parse source).mapError Diagnostic.message ∧
      (Definition.parseAll source').mapError Diagnostic.message =
        (Definition.parseAll source).mapError Diagnostic.message ∧
      ∀ (s : Settings) (rules : Rules), (s.generate rules source').toOption = (s.generate rules source).toOption := by
  obtain ⟨ls', hscan', halike⟩ := h.scanFrom hscan 0
  obtain ⟨n, hn, hn'⟩ : ∃ n, enoughSteps source ≤ n ∧ enoughSteps source' ≤ n :=
    ⟨_, Nat.le_max_left _ _, Nat.le_max_right _ _⟩
  have hw := weight_scan_le hscan
  have henough : 16 * weight ls + 2 ≤ enoughSteps source := by
    unfold enoughSteps
    omega
  have hnested : respacing.nested source 0 source' 0 := .inr ⟨⟨0, ls, hscan⟩, h⟩
  have hquery := (Change.whole_agree respacing_scans hnested hn hn).message_eq source source'
  have hdefinitions := (Change.definitions_agree respacing_scans halike hn hn henough).message_eq source source'
  rw [← Query.parse_eq source hn, ← Query.parse_eq source' hn'] at hquery
  rw [← Definition.parseAll_eq hscan hn, ← Definition.parseAll_eq hscan' hn'] at hdefinitions
  exact ⟨⟨ls', hscan', halike⟩, hquery, hdefinitions, fun s rules => s.generate_congr rules hdefinitions⟩

/-- Comments that hold a parenthesis and a quote, one of them inside of an interpolation. -/
theorem respaced_same_comments :
    ∃ ls ds, scan "def f: \"a\\(.x)\"; # end" 0 = .ok ls ∧
      Spaced .tokens "def f: \"a\\(.x)\"; # end".toList "def # f(\n f: \t\"a\\(# )\"\n.x\r\n)\"; # end\n".toList ∧
      Definition.parseAll "def f: \"a\\(.x)\"; # end" = .ok ds ∧
      Definition.parseAll "def # f(\n f: \t\"a\\(# )\"\n.x\r\n)\"; # end\n" = .ok ds := by
  have hscan : (scan "def f: \"a\\(.x)\"; # end" 0).toOption.isSome = true := by decide +kernel
  have hparse : (Definition.parseAll "def f: \"a\\(.x)\"; # end").toOption.isSome = true := by decide +kernel
  have hfield : (scan (String.ofList ['.', 'x']) 0).toOption.isSome = true := by decide +kernel
  obtain ⟨ls, hscan⟩ := Option.isSome_iff_exists.1 hscan
  obtain ⟨ds, hparse⟩ := Option.isSome_iff_exists.1 hparse
  obtain ⟨_, hfield⟩ := Option.isSome_iff_exists.1 hfield
  have hscan := ok_of_toOption hscan
  have hparse := ok_of_toOption hparse
  have hsource : Spaced .tokens ['.', 'x'] ['#', ' ', ')', '"', '\n', '.', 'x', '\r', '\n'] :=
    @Spaced.token [] ['#', ' ', ')', '"', '\n'] ['.', 'x'] [] ['\r', '\n'] (.field "x") .nil
      (@IsGap.comment [' ', ')', '"'] [] (by decide) .nil) rfl ⟨'.', ['x'], rfl, rfl, by decide, fun _ => rfl⟩
      (@Spaced.finish [] ['\r', '\n'] rfl (.blank rfl (.blank rfl .nil)))
  have hend : Spaced .tokens [';', ' ', '#', ' ', 'e', 'n', 'd'] [';', ' ', '#', ' ', 'e', 'n', 'd', '\n'] :=
    @Spaced.token [] [] [';'] _ _ .semicolon .nil .nil rfl ⟨';', [], rfl, rfl, by decide, fun _ => rfl⟩
      (@Spaced.finish [' ', '#', ' ', 'e', 'n', 'd'] ['\n'] rfl (.blank rfl .nil))
  have hstring : Spaced .tokens " \"a\\(.x)\"; # end".toList " \t\"a\\(# )\"\n.x\r\n)\"; # end\n".toList :=
    @Spaced.quote [' '] ['\t'] _ _ (.blank rfl .nil) (.blank rfl .nil)
      (.char (by decide) (by decide)
        (@Spaced.splice ['.', 'x'] _ _ _ 0 0 0 _ _ rfl (ok_of_toOption hfield) hsource (.done hend)))
  have hcolon := @Spaced.token [] [] [':'] _ _ .colon .nil .nil rfl ⟨':', [], rfl, rfl, by decide, fun _ => rfl⟩ hstring
  have hname := @Spaced.token [' '] ['#', ' ', 'f', '(', '\n', ' '] ['f'] _ _ (.ident "f") (.blank rfl .nil)
    (@IsGap.comment [' ', 'f', '('] [' '] (by decide) (.blank rfl .nil)) rfl
    ⟨'f', [], rfl, rfl, by decide, fun _ => rfl⟩ hcolon
  have hspaced : Spaced .tokens "def f: \"a\\(.x)\"; # end".toList
      "def # f(\n f: \t\"a\\(# )\"\n.x\r\n)\"; # end\n".toList :=
    @Spaced.token [] [] ['d', 'e', 'f'] _ _ (.keyword .define) .nil .nil rfl
      ⟨'d', ['e', 'f'], rfl, rfl, by decide, fun _ => rfl⟩ hname
  obtain ⟨-, -, hsame, -⟩ := respaced_same hscan hspaced
  refine ⟨ls, ds, hscan, hspaced, hparse, Diagnostic.eq_ok_of_message hsame hparse⟩

end DefTable

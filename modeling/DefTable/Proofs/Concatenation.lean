import DefTable.Proofs.Continuation
import DefTable.Proofs.DerivationCompleteness

/-!
# Sources of definitions, one below the other

A source that holds definitions can be put above any other source: what the lines below are, definitions or a fault, is
the same as without the lines above, and a fault is reported where it has moved to (`Definition.parseAll_lineFeed`).
Behind a definition there may be any tokens, since the definition has ended with its semicolon.
-/

namespace DefTable

open Text

/-! ## Places -/

namespace Position

/-- A place with a number of lines above it. -/
def below (lines : Nat) (p : Position) : Position :=
  ⟨lines + p.line, p.column⟩

theorem next_below (lines : Nat) (p : Position) (c : Char) : (p.below lines).next c = (p.next c).below lines := by
  unfold next
  split <;> rfl

theorem advance_below (lines : Nat) : ∀ (p : Position) (bytes : Nat) (cs : List Char),
    (p.below lines).advance bytes cs = (p.advance bytes cs).below lines
  | _, 0, _ => by rw [advance, advance]
  | _, _ + 1, [] => by rw [advance, advance]
  | p, bytes + 1, c :: cs => by rw [advance, advance, next_below, advance_below lines]

/-- A text is passed character by character. -/
theorem advance_append (bytes : Nat) (cs : List Char) : ∀ (p : Position) (text : List Char),
    p.advance (byteLength text + bytes) (text ++ cs) = (text.foldl next p).advance bytes cs
  | p, [] => by rw [byteLength_nil, Nat.zero_add, List.nil_append, List.foldl_nil]
  | p, c :: text => by
    have hpos : 0 < c.utf8Size := c.utf8Size_pos
    have hbytes : byteLength (c :: text) + bytes = byteLength text + bytes + (c.utf8Size - 1) + 1 := by
      rw [byteLength_cons]
      omega
    rw [hbytes, List.cons_append, advance, List.foldl_cons, ← advance_append bytes cs (p.next c) text]
    congr 1
    omega

theorem line_foldl_next : ∀ (p : Position) (text : List Char),
    (text.foldl next p).line = p.line + text.count '\n'
  | _, [] => rfl
  | p, c :: text => by
    rw [List.foldl_cons, line_foldl_next (p.next c) text, List.count_cons]
    unfold next
    split
    · next hc => simp only [hc, beq_self_eq_true, if_true]; omega
    · next hc => simp [hc]

/-- Below the lines of another text a place has the same column, and its line is further down. -/
theorem ofOffset_lineFeed (a b : String) (offset : Nat) :
    ofOffset (a ++ "\n" ++ b) (byteLength a.toList + 1 + offset) =
      (ofOffset b offset).below (a.toList.count '\n' + 1) := by
  have hlines : (a.toList ++ ['\n']).foldl next start = start.below (a.toList.count '\n' + 1) := by
    rw [List.foldl_append, List.foldl_cons, List.foldl_nil, next, if_pos rfl, line_foldl_next, below, Nat.add_assoc]
    congr 1
    exact Nat.add_comm _ _
  have hbytes : byteLength a.toList + 1 + offset = byteLength (a.toList ++ ['\n']) + offset := by
    rw [byteLength_append]
    rfl
  have htext : (a ++ "\n" ++ b).toList = (a.toList ++ ['\n']) ++ b.toList := by
    rw [String.toList_append, String.toList_append]
    rfl
  rw [ofOffset, ofOffset, htext, hbytes, advance_append, hlines, advance_below]

end Position

/-! ## Definitions -/

namespace Grammar

/-- Definitions in front of other tokens are read as they are at the end of a source, and what the other tokens are
comes behind them. -/
theorem definitions_inFrontOf {tail : Lexemes} {r : Parsed (List Definition)}
    (hr : Ends (fun n => definitions n tail) r) : ∀ {m : Nat} {ls : Lexemes} {ds : List Definition}, Spelled ls →
    definitions m ls = .ok ds → Ends (fun n => definitions n (inFrontOf ls tail)) (r.map (ds ++ ·))
  | 0, _, _, _, h => by cases h
  | m + 1, ls, ds, hls, h => by
    unfold definitions at h
    split at h
    · next hend =>
      cases h
      have hmap : r.map (([] : List Definition) ++ ·) = r := by cases r <;> rfl
      rwa [inFrontOf_of_eof hend, hmap]
    · obtain ⟨⟨d, ls₁⟩, hd, h⟩ := exists_of_bind_ok h
      obtain ⟨ds, hds, h⟩ := exists_of_bind_ok h
      cases h
      obtain ⟨hderives, hls₁⟩ := (sound m).definition hls hd
      have hcontinued : Derives .definition (inFrontOf ls tail) d (inFrontOf ls₁ tail) := hderives.inFrontOf trivial
      obtain ⟨hpeek, hd⟩ := hcontinued.runs
      have ih := definitions_inFrontOf hr hls₁ hds
      refine Ends.of_succ ?_
      simp only [definitions_define _ hpeek]
      refine hd.bind ?_
      cases r with
      | ok => exact ih.bind (.of_eq fun _ => rfl)
      | error => exact ih.bind_error
    · cases h
    · cases h
    · cases h

end Grammar

/-! ## Sources -/

open Grammar

/-- A diagnostic with a source on the lines above. -/
def Diagnostic.below (above : String) (d : Diagnostic) : Diagnostic :=
  ⟨d.message, byteLength above.toList + 1 + d.offset, d.position.below (above.toList.count '\n' + 1)⟩

theorem SyntaxError.locate_shift (a b : String) (e : SyntaxError) :
    (e.shift (byteLength a.toList + 1)).diagnostic.locate (a ++ "\n" ++ b) = (e.diagnostic.locate b).below a := by
  have hoffset : e.offset + (byteLength a.toList + 1) = byteLength a.toList + 1 + e.offset := Nat.add_comm _ _
  simp only [shift, diagnostic, Diagnostic.unlocated, Diagnostic.locate, Diagnostic.below, hoffset,
    Position.ofOffset_lineFeed]

/-- A source above another one is cut into its own tokens and those of the other one, which have moved. -/
theorem Token.scan_lineFeed {a : String} {ls : Lexemes} (h : Token.scan a 0 = .ok ls) (b : String) :
    Token.scan (a ++ "\n" ++ b) 0 = (Token.scan b (byteLength a.toList + 1)).map (inFrontOf ls) := by
  have htext : (a ++ "\n" ++ b).toList = a.toList ++ '\n' :: b.toList := by
    rw [String.toList_append, String.toList_append, List.append_assoc]
    rfl
  have hjoint := scanFrom_lineFeed h b.toList
  rw [Cursor.finish, Nat.zero_add] at hjoint
  rw [scan, scan, htext, hjoint]

/-- **Definitions can be put above any other source.** With definitions below, the source holds both; with a fault
below, it has the same fault, as many bytes and lines further on as the definitions with their line feed take. -/
theorem Definition.parseAll_lineFeed {a : String} {ds : List Definition} (h : Definition.parseAll a = .ok ds)
    (b : String) :
    Definition.parseAll (a ++ "\n" ++ b) =
      match Definition.parseAll b with
      | .ok es => .ok (ds ++ es)
      | .error d => .error (d.below a) := by
  obtain ⟨ls, hscan, hds⟩ := Definition.read_of_parseAll h
  have hjoint := Token.scan_lineFeed hscan b
  have hmoved := Token.scan_shift (k := byteLength a.toList + 1) b 0
  rw [Nat.zero_add] at hmoved
  rw [Definition.parseAll, Definition.parseAll]
  cases hb : Token.scan b 0 with
  | error e =>
    rw [hb] at hmoved
    rw [hjoint, hmoved]
    exact congrArg Except.error (e.locate_shift a b)
  | ok lb =>
    rw [hb, shiftResult] at hmoved
    rw [hmoved, Except.map] at hjoint
    have hspelled : Spelled ls := Token.wellSpelled_scan hscan
    have hbelow := definitions_inFrontOf ⟨_, fun n hn => (definitions_steps hmoved hn).symm⟩ hspelled hds
    have hread := definitions_of_ends hjoint hbelow
    have hagree := definitions_shift (byteLength a.toList + 1) hb (Nat.le_refl _) (Nat.le_refl _)
    rw [hjoint]
    simp only [scanned, hread]
    generalize definitions (enoughSteps b) lb = x at hagree ⊢
    generalize definitions (enoughSteps b) (lb.map (Lexeme.shift (byteLength a.toList + 1))) = y at hagree ⊢
    cases hagree with
    | ok heq =>
      subst heq
      rfl
    | @fault e e' hcause ho =>
      have hdiagnostic : e'.diagnostic = (e.shift (byteLength a.toList + 1)).diagnostic := by
        unfold SyntaxError.diagnostic
        rw [hcause.message, ho]
        rfl
      show Except.error (e'.diagnostic.locate (a ++ "\n" ++ b)) = Except.error ((e.diagnostic.locate b).below a)
      rw [hdiagnostic, SyntaxError.locate_shift]

/-- A comment ends the definitions, and the fault is inside of an interpolation. -/
theorem Definition.parseAll_lineFeed_interpolation :
    (∃ ds, Definition.parseAll "def f: 1; # é" = .ok ds) ∧
      Definition.parseAll "def g:\n  \"a\\(1 + )\";" = .error ⟨"unexpected end of input, expected term", 17, ⟨2, 11⟩⟩ ∧
      Definition.parseAll ("def f: 1; # é" ++ "\n" ++ "def g:\n  \"a\\(1 + )\";") =
        .error ⟨"unexpected end of input, expected term", 32, ⟨3, 11⟩⟩ := by
  have hfault : ∀ x : Except Diagnostic (List Definition), ∀ d,
      (match x with | .ok _ => none | .error d => some d) = some d → x = .error d := by
    rintro (d | ds) _ ⟨⟩
    rfl
  have hb : Definition.parseAll "def g:\n  \"a\\(1 + )\";" =
      .error ⟨"unexpected end of input, expected term", 17, ⟨2, 11⟩⟩ := hfault _ _ (by decide +kernel)
  have ha : (Definition.parseAll "def f: 1; # é").toOption.isSome = true := by decide +kernel
  obtain ⟨ds, hds⟩ := Option.isSome_iff_exists.1 ha
  have ha := ok_of_toOption hds
  refine ⟨⟨ds, ha⟩, hb, ?_⟩
  rw [Definition.parseAll_lineFeed ha, hb]
  exact congrArg Except.error rfl

end DefTable

import DefTable.Proofs.TableRendering
import DefTable.Proofs.TextReading

/-!
# Reading the generated file

The entries of the generated file are found between the call that builds the table and its closing brackets, one on each
line (`entryLines?`). Read line by line, they are the entries of the literal of the table (`fileOf_read_back`).
-/

namespace DefTable

open Text (unquoted? unquoted?_quoted)

/-! ## The reader -/

/-- What follows the first occurrence of a mark. -/
def afterFirst (mark : List Char) : List Char → Option (List Char)
  | [] => none
  | c :: cs => ((c :: cs).dropPrefix? mark).or (afterFirst mark cs)

/-- What precedes the last occurrence of a mark. -/
def beforeLast (mark cs : List Char) : Option (List Char) :=
  (afterFirst mark.reverse cs.reverse).map List.reverse

/-- The lines of the entries in the text of a file, without blank ones. -/
def entryLines? (text : String) : Option (List (List Char)) :=
  ((afterFirst "BTreeMap::from([".toList text.toList).bind (beforeLast "])".toList)).map fun block =>
    (block.splitOn '\n').filter fun line => !line.all (· = ' ')

/-- An entry by its line. -/
def readEntry (line : List Char) : Option (String × Literal) :=
  match line.dropWhile (· = ' ') with
  | '(' :: cs =>
    match unquoted? cs with
    | some (key, ',' :: ' ' :: rest) =>
      match readLiteral rest.length rest with
      | some (l, [')', ',']) => some (key, l)
      | _ => none
    | _ => none
  | _ => none

/-! ## Marks -/

theorem dropPrefix?_append : ∀ {mark cs : List Char} (more : List Char), mark.length ≤ cs.length →
    (cs ++ more).dropPrefix? mark = (cs.dropPrefix? mark).map (· ++ more)
  | [], cs, more, _ => by simp
  | m :: mark, c :: cs, more, h => by
    rw [List.cons_append, List.dropPrefix?, List.dropPrefix?]
    by_cases hc : (c == m) = true
    · rw [if_pos hc, if_pos hc, dropPrefix?_append more (Nat.le_of_succ_le_succ h)]
    · rw [if_neg hc, if_neg hc]
      rfl

theorem length_le_of_afterFirst {mark : List Char} : ∀ {cs rest : List Char}, afterFirst mark cs = some rest →
    mark.length ≤ cs.length
  | c :: cs, rest, h => by
    rcases Option.or_eq_some_iff.1 h with h | ⟨_, h⟩
    · obtain ⟨mark', heq, hmark⟩ := List.dropPrefix?_eq_some_iff.1 h
      rw [heq, ← eq_of_beq hmark, List.length_append]
      exact Nat.le_add_right _ _
    · exact Nat.le_succ_of_le (length_le_of_afterFirst h)

theorem afterFirst_append {mark : List Char} (more : List Char) : ∀ {cs rest : List Char},
    afterFirst mark cs = some rest → afterFirst mark (cs ++ more) = some (rest ++ more)
  | c :: cs, rest, h => by
    rw [List.cons_append, afterFirst, ← List.cons_append, dropPrefix?_append more (length_le_of_afterFirst h)]
    rcases Option.or_eq_some_iff.1 h with h | ⟨hnone, h⟩
    · rw [h]
      rfl
    · rw [hnone, afterFirst_append more h]
      rfl

/-! ## Lines -/

/-- Whether a text stands on one line. -/
def OneLine (x : String) : Prop :=
  '\n' ∉ x.toList

instance (x : String) : Decidable (OneLine x) :=
  inferInstanceAs (Decidable ('\n' ∉ x.toList))

theorem OneLine.append {x y : String} (hx : OneLine x) (hy : OneLine y) : OneLine (x ++ y) := by
  rw [OneLine, String.toList_append, List.mem_append, not_or]
  exact ⟨hx, hy⟩

theorem PrintedForm.oneLine {t : ValueType} {l : Literal} {x : String} (h : PrintedForm t l x) : OneLine x := by
  have hname : ∀ w, PrintedName w → OneLine w := fun w hw hmem => by
    cases List.all_eq_true.1 (all_of_isPlainWord hw.isPlainWord) '\n' hmem
  exact h.of_pieces (by decide) hname Text.lineFeed_not_mem_quoted fun _ _ => OneLine.append

def lineOf (p : String × String) : String :=
  "        (" ++ Text.quoted p.1 ++ ", " ++ p.2 ++ "),"

theorem PrintedEntry.oneLine {e : String × Literal} {p : String × String} (h : PrintedEntry e p) : OneLine (lineOf p) :=
  ((((by decide : OneLine "        (").append (Text.lineFeed_not_mem_quoted p.1)).append
    (by decide : OneLine ", ")).append h.2.oneLine).append (by decide : OneLine "),")

theorem toList_lineOf (p : String × String) : (lineOf p).toList =
    List.replicate 8 ' ' ++ '(' :: ((Text.quoted p.1).toList ++ ',' :: ' ' :: (p.2.toList ++ [')', ','])) := by
  simp [lineOf]

theorem PrintedEntry.readEntry_eq {e : String × Literal} {p : String × String} (h : PrintedEntry e p) :
    readEntry (lineOf p).toList = some (e.1, e.2.printedPaths) := by
  have hdrop : (lineOf p).toList.dropWhile (· = ' ') =
      '(' :: ((Text.quoted p.1).toList ++ ',' :: ' ' :: (p.2.toList ++ [')', ','])) := by
    rw [toList_lineOf]
    rfl
  have hread := h.2.reads (p.2.toList ++ [')', ',']).length (by simp) [')', ','] (.inr (.inl rfl))
  rw [readEntry, hdrop]
  simp only [unquoted?_quoted]
  rw [hread, h.1]
  rfl

/-! ## The file -/

/-- The lines between the call that builds the table and its closing brackets, if the table has entries. -/
def blockLines (entries : List (String × String)) : List (List Char) :=
  [] :: (entries.map (fun p => (lineOf p).toList) ++ [List.replicate 4 ' '])

theorem toList_entryLines : ∀ entries : List (String × String),
    ((entries.map SourceFile.entryLine).foldr (· ++ ·) "").toList ++ List.replicate 4 ' ' =
      ['\n'].intercalate (entries.map (fun p => (lineOf p).toList) ++ [List.replicate 4 ' '])
  | [] => rfl
  | p :: entries => by
    have hline : (SourceFile.entryLine p).toList = (lineOf p).toList ++ ['\n'] := by
      simp [SourceFile.entryLine, lineOf]
    have hne : entries.map (fun p => (lineOf p).toList) ++ [List.replicate 4 ' '] ≠ [] := by simp
    rw [List.map_cons, List.foldr_cons, String.toList_append, List.append_assoc, toList_entryLines entries,
      List.map_cons, List.cons_append, List.intercalate_cons_of_ne_nil hne, hline]

/-- What stands between the call that builds the table and its closing brackets. -/
def block (entries : List (String × String)) : List Char :=
  if entries.isEmpty then [] else ['\n'].intercalate (blockLines entries)

theorem toList_text (s : Settings) (r : Rendering) : (SourceFile.text s r).toList =
    (SourceFile.head s r.type ++ "    BTreeMap::from([").toList ++ (block r.entries ++ "])\n\x7d);\n".toList) := by
  rw [SourceFile.text, SourceFile.body, block]
  by_cases he : r.entries.isEmpty = true
  · have hends : "    BTreeMap::from([])\n" ++ "\x7d);\n" = "    BTreeMap::from([" ++ "])\n\x7d);\n" := by
      decide
    rw [if_pos he, if_pos he, String.append_assoc, hends, ← String.append_assoc, String.toList_append,
      List.nil_append]
  · have hopen : "    BTreeMap::from([\n" = "    BTreeMap::from([" ++ "\n" := by decide
    have hclose : "    ])\n" ++ "\x7d);\n" = "    " ++ "])\n\x7d);\n" := by decide
    have hlines : ['\n'].intercalate (blockLines r.entries) = "\n".toList ++
        (((r.entries.map SourceFile.entryLine).foldr (· ++ ·) "").toList ++ "    ".toList) := by
      have hne : r.entries.map (fun p => (lineOf p).toList) ++ [List.replicate 4 ' '] ≠ [] := by simp
      rw [blockLines, List.intercalate_cons_of_ne_nil hne, ← toList_entryLines]
      rfl
    rw [if_neg he, if_neg he, hopen, String.append_assoc, String.append_assoc, hclose, hlines]
    simp only [String.toList_append, List.append_assoc]

theorem lines_block {es : List (String × Literal)} {ps : List (String × String)} (h : List.Forall₂ PrintedEntry es ps) :
    ((block ps).splitOn '\n').filter (fun line => !line.all (· = ' ')) = ps.map fun p => (lineOf p).toList := by
  have hline : ∀ p ∈ ps, '\n' ∉ (lineOf p).toList := forall_of_printed (fun _ _ => PrintedEntry.oneLine) h
  by_cases he : ps.isEmpty = true
  · rw [block, if_pos he, List.isEmpty_iff.1 he]
    rfl
  · have hone : ∀ line ∈ blockLines ps, '\n' ∉ line := by
      intro line hmem
      rcases List.mem_cons.1 hmem with rfl | hmem
      · exact List.not_mem_nil
      · rcases List.mem_append.1 hmem with hmem | hmem
        · obtain ⟨p, hp, rfl⟩ := List.mem_map.1 hmem
          exact hline p hp
        · rw [List.mem_singleton.1 hmem]
          decide
    have hkeep : ∀ line ∈ ps.map fun p => (lineOf p).toList, (!line.all (· = ' ')) = true := by
      refine List.forall_mem_map.2 fun p _ => ?_
      rw [toList_lineOf]
      simp
    rw [block, if_neg he, List.splitOn_intercalate _ hone (List.cons_ne_nil _ _), blockLines,
      List.filter_cons_of_neg (by decide), List.filter_append, List.filter_eq_self.2 hkeep]
    exact List.append_nil _

theorem entryLines?_text {es : List (String × Literal)} {ps : List (String × String)}
    (h : List.Forall₂ PrintedEntry es ps) :
    entryLines? (SourceFile.text Settings.default ⟨Definition.printedType, ps⟩) =
      some (ps.map fun p => (lineOf p).toList) := by
  have hopen : afterFirst "BTreeMap::from([".toList
      (SourceFile.head Settings.default Definition.printedType ++ "    BTreeMap::from([").toList = some [] := by
    unfold SourceFile.head
    simp only [String.toList_append, Settings.default, Definition.printedType]
    decide +kernel
  have hclose : afterFirst "])".toList.reverse "])\n\x7d);\n".toList.reverse = some [] := by decide
  have hblock : beforeLast "])".toList (block ps ++ "])\n\x7d);\n".toList) = some (block ps) := by
    rw [beforeLast, List.reverse_append, afterFirst_append _ hclose]
    exact congrArg some (List.reverse_reverse _)
  rw [entryLines?, toList_text, afterFirst_append _ hopen]
  show ((beforeLast _ (block ps ++ _)).map _) = _
  rw [hblock]
  exact congrArg some (lines_block h)

theorem mapM_readEntry {es : List (String × Literal)} {ps : List (String × String)}
    (h : List.Forall₂ PrintedEntry es ps) :
    (ps.map fun p => (lineOf p).toList).mapM readEntry = some (es.map fun e => (e.1, e.2.printedPaths)) := by
  induction h with
  | nil => rfl
  | cons hp _ ih =>
    rw [List.map_cons, List.mapM_cons, hp.readEntry_eq, ih]
    rfl

/-- **The generated file of definitions is read back, line by line, as the entries of their literal**, if the rules of
the language allow what is printed for tables. -/
theorem fileOf_read_back {rules : Rules} (hrules : rules.AllowTables) (ds : List Definition) :
    ∃ text lines, Settings.default.fileOf rules ds = .ok text ∧ entryLines? text = some lines ∧
      lines.mapM readEntry = some ((Definition.entries ds).map fun e => (e.1, e.2.printedPaths)) := by
  obtain ⟨entries, hrender, hforms⟩ := Literal.renderBy_group hrules ds
  refine ⟨_, _, ?_, entryLines?_text hforms, mapM_readEntry hforms⟩
  have htable : Settings.default.renderTable rules ds = .ok ⟨Definition.printedType, entries⟩ := hrender
  rw [Settings.fileOf, htable]
  rfl

/-- A name that closes the table, parameters with quotes and line feeds, and an operator in the body. -/
theorem fileOf_read_back_strings :
    let ds : List Definition :=
      [.definition "f\n])" ["op: 1", "\"jqdefs_core::ast::\""] (Query.binary Query.empty .add Query.empty)]
    Target.rules.AllowTables ∧ ∃ text lines, Settings.default.fileOf Target.rules ds = .ok text ∧
      entryLines? text = some lines ∧ lines.mapM readEntry = some [("f\n])", (literal ds).printedPaths)] := by
  intro ds
  obtain ⟨text, lines, hfile, hlines, hread⟩ := fileOf_read_back Target.rules_allowTables ds
  have hsorted : (Definition.group ds).sorted = [("f\n])", ds)] :=
    Table.sorted_eq_of_perm (List.pairwise_singleton _ _) (List.Perm.refl _)
  have hentries : Definition.entries ds = [("f\n])", literal ds)] := by
    rw [Definition.entries, hsorted]
    rfl
  rw [hentries] at hread
  exact ⟨Target.rules_allowTables, text, lines, hfile, hlines, hread⟩

end DefTable

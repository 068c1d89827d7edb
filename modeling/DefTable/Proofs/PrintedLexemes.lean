import DefTable.Proofs.PrintedForm
import DefTable.Proofs.TargetScan

/-!
# Lexemes of printed literals

The scanner of the rules that the program runs with cuts what is printed for a value into lexemes with matching brackets
(`PrintedForm.tidyText`). So an entry of a table, which is a macro with the printed definitions in its brackets, is an
expression (`PrintedForm.isExpression`), and the rules allow tables of definitions (`rules_allowTables`).
-/

namespace DefTable.Target.Lexeme

open Text

/-- Whether a lexeme other than a bracket may stand in a printed literal. -/
def isTidy : Lexeme → Bool
  | .word _ => true
  | .sign _ _ => true
  | .quotation => true
  | _ => false

/-- Lexemes of a printed literal: their brackets match. -/
inductive Tidy : List Lexeme → Prop
  | nil : Tidy []
  | cons {l : Lexeme} {ls : List Lexeme} (hl : l.isTidy = true) (h : Tidy ls) : Tidy (l :: ls)
  | group (b : Bracket) {ls ms : List Lexeme} (hl : Tidy ls) (hm : Tidy ms) :
      Tidy (.opening b :: (ls ++ .closing b :: ms))

namespace Tidy

variable {ls : List Lexeme}

theorem append {ms : List Lexeme} (h : Tidy ls) (hm : Tidy ms) : Tidy (ls ++ ms) := by
  induction h with
  | nil => exact hm
  | cons hl _ ih => exact .cons hl ih
  | group b hl _ _ ih =>
    rw [List.cons_append, List.append_assoc, List.cons_append]
    exact .group b hl ih

theorem balanced_append (h : Tidy ls) (opened : List Bracket) (more : List Lexeme) :
    balanced opened (ls ++ more) = balanced opened more := by
  induction h generalizing opened more with
  | nil => rfl
  | @cons l ls hl _ ih =>
    rw [List.cons_append, ← ih opened more]
    cases l with
    | number | lifetime | opening | closing => cases hl
    | _ => cases opened <;> rfl
  | group b _ _ ihl ihm =>
    rw [List.cons_append, List.append_assoc, List.cons_append]
    calc balanced opened (.opening b :: _)
        = balanced (b :: opened) _ := by rw [balanced]
      _ = balanced (b :: opened) (.closing b :: _) := ihl _ _
      _ = balanced opened _ := by simp [balanced]
      _ = balanced opened more := ihm _ _

theorem skipGroup_append (h : Tidy ls) (depth : Nat) (more : List Lexeme) :
    skipGroup depth (ls ++ more) = skipGroup depth more := by
  induction h generalizing depth more with
  | nil => rfl
  | @cons l ls hl _ ih =>
    rw [List.cons_append, ← ih depth more]
    cases l with
    | number | lifetime | opening | closing => cases hl
    | _ => cases depth <;> rfl
  | group b _ _ ihl ihm =>
    rw [List.cons_append, List.append_assoc, List.cons_append]
    calc skipGroup depth (.opening b :: _)
        = skipGroup (depth + 1) _ := by rw [skipGroup]
      _ = skipGroup (depth + 1) (.closing b :: _) := ihl _ _
      _ = skipGroup depth _ := by rw [skipGroup]
      _ = skipGroup depth more := ihm _ _

end Tidy

/-! ## Tidy texts -/

/-- A text that is cut into the lexemes of a printed literal, whatever may follow it. -/
def TidyText (cs : List Char) : Prop :=
  ∀ rest, Stops rest → ∃ ls, Tidy ls ∧ scanAll (cs ++ rest) = (scanAll rest).map (ls ++ ·)

namespace TidyText

variable {cs ds : List Char}

theorem nil : TidyText [] :=
  fun rest _ => ⟨[], .nil, by simp⟩

theorem append (hc : TidyText cs) (hd : TidyText ds) (hs : Stops ds) : TidyText (cs ++ ds) := by
  intro rest hrest
  obtain ⟨ls, hls, hscan⟩ := hc (ds ++ rest) (hs.append hrest)
  obtain ⟨ms, hms, hscan'⟩ := hd rest hrest
  refine ⟨ls ++ ms, hls.append hms, ?_⟩
  rw [List.append_assoc, hscan, hscan', Option.map_map]
  exact congrArg (Option.map · _) (funext fun _ => (List.append_assoc _ _ _).symm)

theorem cons {c : Char} (hd : TidyText ds)
    (hc : ∀ rest, ∃ l : Lexeme, l.isTidy = true ∧ scanAll (c :: rest) = (scanAll rest).map (l :: ·)) :
    TidyText (c :: ds) := by
  intro rest hrest
  obtain ⟨l, hl, hscan⟩ := hc (ds ++ rest)
  obtain ⟨ls, hls, hscan'⟩ := hd rest hrest
  refine ⟨l :: ls, .cons hl hls, ?_⟩
  rw [List.cons_append, hscan, hscan', Option.map_map]
  rfl

theorem sign {c : Char} (h : c = ',' ∨ c = ':' ∨ c = '.' ∨ c = '!') (hd : TidyText ds) : TidyText (c :: ds) :=
  hd.cons fun rest => ⟨_, rfl, scanAll_sign rest h⟩

theorem blank (hd : TidyText ds) : TidyText (' ' :: ds) :=
  fun rest hrest => by rw [List.cons_append, scanAll_blank]; exact hd rest hrest

theorem word {w : String} (hw : isPlainWord w.toList = true) : TidyText w.toList := by
  intro rest hrest
  refine ⟨[.word w], .cons rfl .nil, ?_⟩
  rw [scanAll_word hw hrest, String.ofList_toList]
  rfl

theorem quoted (s : String) : TidyText (Text.quoted s).toList :=
  fun _ hrest => ⟨[.quotation], .cons rfl .nil, scanAll_quoted s hrest⟩

theorem group {o c : Char} {b : Bracket} (ho : bracket? o = some (.opening b)) (hc : bracket? c = some (.closing b))
    (hx : TidyText cs) (hy : TidyText ds) : TidyText (o :: (cs ++ c :: ds)) := by
  intro rest hrest
  have hstop : Stops (c :: (ds ++ rest)) := by
    refine stops_cons ?_ ?_
    all_goals
      unfold bracket? at hc
      split at hc
      any_goals decide
      cases hc
  obtain ⟨ls, hls, hscan⟩ := hx (c :: (ds ++ rest)) hstop
  obtain ⟨ms, hms, hscan'⟩ := hy rest hrest
  refine ⟨_, .group b hls hms, ?_⟩
  rw [List.cons_append, List.append_assoc, List.cons_append, scanAll_bracket _ ho, hscan, scanAll_bracket _ hc, hscan',
    Option.map_map, Option.map_map, Option.map_map]
  exact congrArg (Option.map · _) (funext fun _ => by simp)

end TidyText

end DefTable.Target.Lexeme

/-! ## Lists as expressions -/

namespace DefTable.Target

open DefTable.Target.Lexeme

/-- The lexemes of a printed list with the given ones between its brackets. -/
def vecLexemes (ls : List Lexeme) : List Lexeme :=
  .word "vec" :: .sign '!' false :: .opening .square :: (ls ++ [.closing .square])

section

variable {ls : List Lexeme}

theorem Lexeme.Tidy.vec (h : Tidy ls) : Tidy (vecLexemes ls) :=
  .cons rfl (.cons rfl (.group .square h .nil))

theorem Lexeme.Tidy.group?_eq (h : Tidy ls) : group? (.opening .square :: (ls ++ [.closing .square])) = some [] :=
  h.skipGroup_append 0 _

/-- The mark of a list with a group of lexemes behind it is a macro, whatever the lexemes are. -/
theorem macro?_vec (h : group? ls = some []) : macro? (.word "vec" :: .sign '!' false :: ls) = some [] := by
  have hseg : isSegment "vec" = true := by decide
  have hpath : plainPath? (.word "vec" :: .sign '!' false :: ls) = some (.sign '!' false :: ls) := by
    show plainSegments (.word "vec" :: .sign '!' false :: ls) = _
    rw [plainSegments]
    · exact if_pos hseg
    · nofun
  rw [macro?, hpath]
  exact h

theorem expression?_vec (h : group? ls = some []) (n : Nat) :
    expression? (n + 4) (.word "vec" :: .sign '!' false :: ls) = some [] := by
  have hatom : atom? (n + 2) (.word "vec" :: .sign '!' false :: ls) = some [] := by
    have hpath : pathExpression? (n + 1) (.word "vec" :: .sign '!' false :: ls) = some [] := by
      rw [pathExpression?, macro?_vec h]
      rfl
    exact hpath
  have hoperand : operand? (n + 3) (.word "vec" :: .sign '!' false :: ls) = some [] := by
    show (atom? (n + 2) (.word "vec" :: .sign '!' false :: ls)).bind (trailers? (n + 2)) = _
    rw [hatom]
    rfl
  rw [expression?, hoperand]
  rfl

/-- A text with the lexemes of a list is an expression. -/
theorem isExpression_of_scan_vec {s : String} (hs : scan s = some (.word "vec" :: .sign '!' false :: ls))
    (h : group? ls = some []) : isExpression s = true := by
  rw [isExpression, isWhole, hs, Option.any_some, enoughSteps]
  show (expression? (32 * (.word "vec" :: .sign '!' false :: ls : List Lexeme).length + 28 + 4) _ == some []) = true
  rw [expression?_vec h]
  rfl

end

theorem isExpression_vec {x : String} (h : TidyText x.toList) : isExpression ("vec![" ++ x ++ "]") = true := by
  obtain ⟨ls, hls, hscan⟩ := h [']'] (stops_cons (by decide) (by decide))
  have hall : scanAll ("vec![" ++ x ++ "]").toList = some (vecLexemes ls) := by
    have hword : Stops ('!' :: '[' :: (x.toList ++ [']'])) := stops_cons (by decide) (by decide)
    have hvec : isPlainWord ['v', 'e', 'c'] = true := by decide
    rw [String.toList_append, String.toList_append, List.append_assoc]
    show scanAll (['v', 'e', 'c'] ++ '!' :: '[' :: (x.toList ++ [']'])) = _
    rw [scanAll_word hvec hword, scanAll_sign _ (by decide), scanAll_bracket _ rfl, hscan, scanAll_bracket [] rfl,
      scanAll_nil]
    rfl
  have hmark : afterByteOrderMark ("vec![" ++ x ++ "]").toList = ("vec![" ++ x ++ "]").toList := by
    rw [String.toList_append, String.toList_append, List.append_assoc]
    rfl
  have hs : scan ("vec![" ++ x ++ "]") = some (vecLexemes ls) := by
    have hbalanced := hls.vec.balanced_append [] []
    rw [List.append_nil] at hbalanced
    rw [scan, hmark, hall, Option.filter_some, hbalanced]
    rfl
  exact isExpression_of_scan_vec hs hls.group?_eq

end DefTable.Target

namespace DefTable

open Target.Lexeme

/-! ## Printed literals -/

theorem tidyText_member {type name : String} (ht : isPlainWord type.toList = true) (hn : isPlainWord name.toList = true) :
    TidyText (type ++ "::" ++ name).toList := by
  rw [String.toList_append, String.toList_append, List.append_assoc]
  exact (TidyText.word ht).append (((TidyText.word hn).sign (.inr (.inl rfl))).sign (.inr (.inl rfl)))
    (stops_cons (by decide) (by decide))

theorem tidyText_owned : TidyText "String::from".toList := by
  have h : "String::from" = "String" ++ "::" ++ "from" := by decide
  rw [h]
  exact tidyText_member (by decide) (by decide)

theorem tidyText_boxed : TidyText "Box::new".toList := by
  have h : "Box::new" = "Box" ++ "::" ++ "new" := by decide
  rw [h]
  exact tidyText_member (by decide) (by decide)

theorem tidyText_call {func x : String} (hf : TidyText func.toList) (hx : TidyText x.toList) :
    TidyText (callText func x).toList := by
  rw [callText, String.toList_append, String.toList_append, String.toList_append, List.append_assoc, List.append_assoc]
  exact hf.append (TidyText.group rfl rfl hx .nil) (stops_cons (by decide) (by decide))

theorem tidyText_commas : ∀ {xs : List String}, (∀ x ∈ xs, TidyText x.toList) → TidyText (Literal.commas xs).toList
  | [], _ => .nil
  | [x], h => h x List.mem_cons_self
  | x :: y :: ys, h => by
    have hys : TidyText (Literal.commas (y :: ys)).toList :=
      tidyText_commas fun z hz => h z (List.mem_cons_of_mem _ hz)
    rw [Literal.toList_commas]
    exact (h x List.mem_cons_self).append (hys.blank.sign (.inl rfl)) (stops_cons (by decide) (by decide))

theorem tidyText_default : TidyText "..Default::default()".toList := by
  have h : "..Default::default()" = ".." ++ callText ("Default" ++ "::" ++ "default") "" := by decide
  have hcall : TidyText (callText ("Default" ++ "::" ++ "default") "").toList :=
    tidyText_call (tidyText_member (by decide) (by decide)) .nil
  rw [h, String.toList_append]
  exact (hcall.sign (.inr (.inr (.inl rfl)))).sign (.inr (.inr (.inl rfl)))

theorem tidyText_vec {cs : List Char} (h : TidyText cs) : TidyText ("vec![".toList ++ (cs ++ "]".toList)) := by
  have hmark : TidyText ('!' :: '[' :: (cs ++ [']'])) := (TidyText.group rfl rfl h .nil).sign (.inr (.inr (.inr rfl)))
  exact (TidyText.word (w := "vec") (by decide)).append hmark (stops_cons (by decide) (by decide))

theorem tidyText_field {name : String} {cs : List Char} (hname : isPlainWord name.toList = true) (h : TidyText cs) :
    TidyText (name.toList ++ (": ".toList ++ cs)) :=
  (TidyText.word hname).append (h.blank.sign (.inr (.inl rfl))) (stops_cons (by decide) (by decide))

theorem tidyText_record {name : String} {fields : List String} (hname : isPlainWord name.toList = true)
    (h : ∀ x ∈ fields, TidyText x.toList) (rest : Bool) : TidyText (Literal.recordText name fields rest).toList := by
  have hparts : ∀ x ∈ fields ++ (if rest then ["..Default::default()"] else []), TidyText x.toList := by
    intro x hx
    rcases List.mem_append.1 hx with hx | hx
    · exact h x hx
    · cases rest with
      | false => cases hx
      | true =>
        obtain rfl := List.mem_singleton.1 hx
        exact tidyText_default
  have hgroup : ∀ {cs : List Char}, TidyText cs → TidyText (name.toList ++ ' ' :: '\x7b' :: (cs ++ ['\x7d'])) :=
    fun hcs => (TidyText.word hname).append (TidyText.group rfl rfl hcs .nil).blank
      (stops_cons (by decide) (by decide))
  unfold Literal.recordText
  split
  · rw [String.toList_append]
    exact hgroup .nil
  · have hcommas := ((tidyText_commas hparts).append TidyText.nil.blank (stops_cons (by decide) (by decide))).blank
    have hrecord := hgroup hcommas
    simpa [List.append_assoc] using hrecord

open Literal in
theorem PrintedForm.tidyText {t : ValueType} {l : Literal} {x : String} (h : PrintedForm t l x) :
    TidyText x.toList := by
  induction h with
  | bool b => cases b <;> exact TidyText.word (by decide)
  | string s => exact tidyText_call tidyText_owned (.quoted s)
  | operator op => exact tidyText_member (by decide) (printedName_operator op).isPlainWord
  | termKind kind => exact tidyText_member (by decide) (printedName_termKind kind).isPlainWord
  | boxed _ ih => exact tidyText_call tidyText_boxed ih
  | missing t => exact TidyText.word (by decide)
  | given _ ih => exact tidyText_call (TidyText.word (by decide)) ih
  | vec items _ ih =>
    rw [String.toList_append, String.toList_append, List.append_assoc]
    exact tidyText_vec (tidyText_commas (List.forall_mem_map.2 ih))
  | list _ ih => exact ih
  | optional _ ih => exact ih
  | record hs items rest hnames _ ih =>
    refine tidyText_record (printedName_record hs).isPlainWord (List.forall_mem_map.2 fun i hi => ?_) rest
    rw [String.toList_append, String.toList_append, List.append_assoc]
    exact tidyText_field (printedName_field _ _ (hnames i hi)).isPlainWord (ih i hi)

theorem PrintedForm.isExpression {t : ValueType} {l : Literal} {x : String} (h : PrintedForm (.vec t) l x) :
    Target.isExpression x = true := by
  cases h with
  | vec items h => exact Target.isExpression_vec (tidyText_commas (List.forall_mem_map.2 fun i hi => (h i hi).tidyText))

namespace Target

theorem isName_field (s : Shape) : ∀ name ∈ s.fieldNames, isName name = true := by
  cases s with
  | list | optional => exact fun f hf => absurd hf List.not_mem_nil
  | _ => decide

theorem isName_record {s : Shape} (hs : s.isRecord = true) : isName s.printedName = true := by
  cases s with
  | list | optional => cases hs
  | _ => rw [Shape.printedName, Shape.typeName, stripped_nodePath]; decide

/-- **The rules that the program runs with allow tables of definitions.** -/
theorem rules_allowTables : rules.AllowTables where
  field s name hname := isIdentifier_of_isName (printedName_field s name hname).isPlainWord (isName_field s name hname)
  record s hs := typeName_eq_nodePath hs ▸ isPath_nodePath (printedName_record hs).isPlainWord (isName_record hs)
  wrapper := by decide +kernel
  type := by decide +kernel
  list l x h := if_pos h.isExpression

end Target

end DefTable

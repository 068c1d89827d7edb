import DefTable.Proofs.PrintedForm
import DefTable.Proofs.QuotedText

/-!
# Reading printed literals

A reader of what is printed for literals (`readLiteral`): quoted strings, paths, calls, lists, and records with or
without the defaults of their other fields. The names of operators and kinds are read as their codes. It gets back every
printed literal, with its paths as they are printed (`PrintedForm.reads`).
-/

namespace DefTable

open Text (unquoted? unquoted?_quoted)

/-! ## The reader -/

/-- What is read of a text, and what is left of it. -/
abbrev Reading (α : Type) := Option (α × List Char)

def isPathChar (c : Char) : Bool :=
  isWordChar c || c = ':'

/-- The paths that stand for a truth value or a code. -/
def constants : List (String × Literal) :=
  [("true", .bool true), ("false", .bool false)]
    ++ Operator.all.map (fun op => ("Operator" ++ "::" ++ op.name, .int op.code))
    ++ TermKind.all.map (fun kind => ("TermKind" ++ "::" ++ kind.name, .int kind.code))

/-- The literal of a path on its own. -/
def constant (path : String) : Literal :=
  (constants.lookup path).getD (.path path)

/-- A literal that starts with a path, by what follows the path and readers of lists and of fields. -/
def readBehind (items : Char → List Char → Reading (List Literal))
    (fields : List Char → Reading (List (String × Literal) × Bool)) (path : String) : List Char → Reading Literal
  | '!' :: '[' :: rest => if path = "vec" then (items ']' rest).map fun (ls, rest) => (.vec ls, rest) else none
  | '(' :: rest => (items ')' rest).map fun (ls, rest) => (.call path ls, rest)
  | ' ' :: '{' :: '}' :: rest => some (.record path [] false, rest)
  | ' ' :: '{' :: ' ' :: rest => (fields rest).map fun ((fs, more), rest) => (.record path fs more, rest)
  | rest => some (constant path, rest)

/-- Fields from a first one on, by what follows it and a reader of further ones. -/
def fieldsBehind (fields : List Char → Reading (List (String × Literal) × Bool)) (field : String × Literal) :
    List Char → Reading (List (String × Literal) × Bool)
  | ',' :: ' ' :: rest => (fields rest).map fun ((fs, more), rest) => ((field :: fs, more), rest)
  | ' ' :: '}' :: rest => some (([field], false), rest)
  | _ => none

mutual

def readLiteral : Nat → List Char → Reading Literal
  | 0, _ => none
  | n + 1, cs =>
    if cs.head? = some '"' then (unquoted? cs).map fun (s, rest) => (.str s, rest)
    else if (cs.takeWhile isPathChar).isEmpty then none
    else readBehind (fun c => readItems c n) (readFields n) (String.ofList (cs.takeWhile isPathChar))
      (cs.dropWhile isPathChar)

/-- Literals with commas up to a closing bracket. -/
def readItems (close : Char) : Nat → List Char → Reading (List Literal)
  | 0, _ => none
  | n + 1, cs =>
    if cs.head? = some close then some ([], cs.tail)
    else
      (readLiteral n cs).bind fun (l, rest) =>
        match rest with
        | ',' :: ' ' :: rest => (readItems close n rest).map fun (ls, rest) => (l :: ls, rest)
        | c :: rest => if c = close then some ([l], rest) else none
        | [] => none

/-- The fields of a record up to its closing brace, and whether the others have their defaults. -/
def readFields : Nat → List Char → Reading (List (String × Literal) × Bool)
  | 0, _ => none
  | n + 1, cs =>
    match cs.dropPrefix? "..Default::default()".toList with
    | some (' ' :: '}' :: rest) => some (([], true), rest)
    | some _ => none
    | none =>
      match cs.dropWhile isWordChar with
      | ':' :: ' ' :: rest =>
        (readLiteral n rest).bind fun (l, rest) =>
          fieldsBehind (readFields n) (String.ofList (cs.takeWhile isWordChar), l) rest
      | _ => none

end

/-! ## Paths as they are printed -/

namespace Literal

mutual

/-- A literal with other paths. -/
def mapPaths (f : String → String) : Literal → Literal
  | .path p => .path (f p)
  | .call func args => .call (f func) (mapPathsOfAll f args)
  | .vec items => .vec (mapPathsOfAll f items)
  | .record name fields rest => .record (f name) (mapPathsOfFields f fields) rest
  | .map type entries => .map type (mapPathsOfFields f entries)
  | l => l

def mapPathsOfAll (f : String → String) : List Literal → List Literal
  | [] => []
  | l :: ls => mapPaths f l :: mapPathsOfAll f ls

def mapPathsOfFields (f : String → String) : List (String × Literal) → List (String × Literal)
  | [] => []
  | (name, l) :: fields => (name, mapPaths f l) :: mapPathsOfFields f fields

end

theorem mapPathsOfAll_eq (f : String → String) (ls : List Literal) : mapPathsOfAll f ls = ls.map (mapPaths f) := by
  induction ls with
  | nil => rfl
  | cons l ls ih => exact congrArg (mapPaths f l :: ·) ih

theorem mapPathsOfFields_eq (f : String → String) (fields : List (String × Literal)) :
    mapPathsOfFields f fields = fields.map fun e => (e.1, mapPaths f e.2) := by
  induction fields with
  | nil => rfl
  | cons e fields ih => exact congrArg ((e.1, mapPaths f e.2) :: ·) ih

/-- A literal with its paths as they are printed by a run that was told nothing. -/
def printedPaths (l : Literal) : Literal :=
  l.mapPaths Settings.default.style.stripped

theorem printedPaths_vec (items : List Literal) : printedPaths (.vec items) = .vec (items.map printedPaths) :=
  congrArg Literal.vec (mapPathsOfAll_eq _ items)

theorem printedPaths_record (name : String) (fields : List (String × Literal)) (rest : Bool) :
    printedPaths (.record name fields rest) =
      .record (Settings.default.style.stripped name) (fields.map fun e => (e.1, e.2.printedPaths)) rest :=
  congrArg (Literal.record _ · rest) (mapPathsOfFields_eq _ fields)

end Literal

/-! ## What is read of printed texts -/

/-- A rest that does not continue a literal in front of it. -/
def Ends : List Char → Prop
  | [] => True
  | c :: rest => c = ',' ∨ c = ')' ∨ c = ']' ∨ (c = ' ' ∧ rest.head? = some '}')

theorem ends_comma (rest : List Char) : Ends (',' :: ' ' :: rest) :=
  .inl rfl

theorem ends_brace (rest : List Char) : Ends (' ' :: '\x7d' :: rest) :=
  .inr (.inr (.inr ⟨rfl, rfl⟩))

/-- A text that is read as a literal, whatever may follow it. -/
def Reads (l : Literal) (x : String) : Prop :=
  ∀ n ≥ x.toList.length, ∀ rest, Ends rest → readLiteral n (x.toList ++ rest) = some (l, rest)

/-- Whether a text is a path, as far as its characters go. -/
def isPathText (p : String) : Bool :=
  !p.toList.isEmpty && p.toList.all isPathChar

theorem readLiteral_path {p : String} (hp : isPathText p = true) {rest : List Char}
    (hrest : ∀ c ∈ rest.head?, isPathChar c = false) (n : Nat) :
    readLiteral (n + 1) (p.toList ++ rest) = readBehind (fun c => readItems c n) (readFields n) p rest := by
  obtain ⟨hne, hall⟩ := Bool.and_eq_true_iff.1 hp
  have htake : (p.toList ++ rest).takeWhile isPathChar = p.toList := by
    rw [List.takeWhile_append_of_pos (List.all_eq_true.1 hall)]
    cases rest with
    | nil => simp
    | cons c cs => rw [List.takeWhile_cons_of_neg (by simpa using hrest c rfl), List.append_nil]
  have hdrop : (p.toList ++ rest).dropWhile isPathChar = rest := by
    rw [List.dropWhile_append_of_pos (List.all_eq_true.1 hall)]
    cases rest with
    | nil => rfl
    | cons c cs => exact List.dropWhile_cons_of_neg (by simpa using hrest c rfl)
  have hquote : (p.toList ++ rest).head? ≠ some '"' := by
    cases hcs : p.toList with
    | nil =>
      rw [hcs] at hne
      cases hne
    | cons c cs =>
      rintro ⟨⟩
      cases List.all_eq_true.1 hall '"' (hcs ▸ List.mem_cons_self)
  have hempty : ¬p.toList.isEmpty = true := fun h => by
    rw [h] at hne
    cases hne
  rw [readLiteral, if_neg hquote, htake, hdrop, if_neg hempty, String.ofList_toList]

theorem Reads.constant {p : String} (hp : isPathText p = true) : Reads (constant p) p := by
  intro n hn rest hrest
  have hstop : ∀ c ∈ rest.head?, isPathChar c = false := by
    cases rest with
    | nil => nofun
    | cons c cs => rintro c ⟨⟩; rcases hrest with rfl | rfl | rfl | ⟨rfl, _⟩ <;> decide
  have hbehind : ∀ items fields, readBehind items fields p rest = some (DefTable.constant p, rest) := by
    intro items fields
    unfold readBehind
    split
    · rcases hrest with h | h | h | ⟨h, _⟩ <;> cases h
    · rcases hrest with h | h | h | ⟨h, _⟩ <;> cases h
    · rcases hrest with h | h | h | ⟨_, h⟩ <;> cases h
    · rcases hrest with h | h | h | ⟨_, h⟩ <;> cases h
    · rfl
  obtain _ | n := n
  · rw [isPathText, List.length_eq_zero_iff.1 (Nat.le_zero.1 hn)] at hp
    cases hp
  · rw [readLiteral_path hp hstop, hbehind]

theorem Reads.str (s : String) : Reads (.str s) (Text.quoted s) := by
  intro n hn rest _
  have hcs : ∃ cs, (Text.quoted s).toList = '"' :: cs := ⟨_, String.toList_ofList⟩
  obtain ⟨cs, hcs⟩ := hcs
  obtain _ | n := n
  · rw [hcs] at hn
    cases hn
  · have hquote : ((Text.quoted s).toList ++ rest).head? = some '"' := by rw [hcs]; rfl
    rw [readLiteral, if_pos hquote, unquoted?_quoted]
    rfl

section

variable {l : Literal} {x : String}

theorem Reads.head?_ne (h : Reads l x) {close : Char} (hclose : close = ')' ∨ close = ']') (rest : List Char) :
    (x.toList ++ rest).head? ≠ some close := by
  intro hhead
  have hread := h x.toList.length (Nat.le_refl _) [] trivial
  cases hcs : x.toList with
  | nil =>
    rw [hcs] at hread
    cases hread
  | cons c cs =>
    rw [hcs] at hread hhead
    obtain rfl : c = close := Option.some.inj hhead
    rcases hclose with rfl | rfl <;> cases hread

theorem readItems_last {close : Char} (hclose : close = ')' ∨ close = ']') (hx : Reads l x) {n : Nat}
    (hn : x.toList.length ≤ n) (rest : List Char) :
    readItems close (n + 1) (x.toList ++ close :: rest) = some ([l], rest) := by
  have hends : Ends (close :: rest) := by rcases hclose with rfl | rfl <;> simp [Ends]
  rw [readItems, if_neg (hx.head?_ne hclose _), hx n hn _ hends, Option.bind_some]
  rcases hclose with rfl | rfl <;> exact if_pos rfl

theorem readItems_comma {close : Char} (hclose : close = ')' ∨ close = ']') (hx : Reads l x) {n : Nat}
    (hn : x.toList.length ≤ n) (more : List Char) :
    readItems close (n + 1) (x.toList ++ ',' :: ' ' :: more) =
      (readItems close n more).map fun (ls, rest) => (l :: ls, rest) := by
  rw [readItems, if_neg (hx.head?_ne hclose _), hx n hn _ (ends_comma more), Option.bind_some]
  rfl

theorem readItems_commas {close : Char} (hclose : close = ')' ∨ close = ']') (rest : List Char) :
    ∀ {items : List (Literal × String)}, (∀ i ∈ items, Reads i.1 i.2) →
      ∀ n > (Literal.commas (items.map Prod.snd)).toList.length,
        readItems close n ((Literal.commas (items.map Prod.snd)).toList ++ close :: rest) =
          some (items.map Prod.fst, rest)
  | [], _, n + 1, _ => by
    rw [readItems]
    exact if_pos rfl
  | [(l, x)], h, n + 1, hn => by
    have hx : Reads l x := h (l, x) List.mem_cons_self
    exact readItems_last hclose hx (Nat.le_of_lt_succ hn) rest
  | (l, x) :: i :: items, h, n + 1, hn => by
    have hx : Reads l x := h (l, x) List.mem_cons_self
    have hitems : ∀ j ∈ i :: items, Reads j.1 j.2 := fun j hj => h j (List.mem_cons_of_mem _ hj)
    have hlen : x.toList.length + (Literal.commas ((i :: items).map Prod.snd)).toList.length + 1 < n := by
      simp only [List.map_cons, Literal.toList_commas, List.length_append, List.length_cons] at hn ⊢
      omega
    rw [List.map_cons, List.map_cons, Literal.toList_commas, List.append_assoc]
    show readItems close (n + 1) (x.toList ++ ',' :: ' ' :: (_ ++ close :: rest)) = _
    rw [readItems_comma hclose hx (by omega), ← List.map_cons, readItems_commas hclose rest hitems n (by omega)]
    rfl

theorem Reads.vec {items : List (Literal × String)} (h : ∀ i ∈ items, Reads i.1 i.2) :
    Reads (.vec (items.map Prod.fst)) ("vec![" ++ Literal.commas (items.map Prod.snd) ++ "]") := by
  intro n hn rest _
  have htext : ("vec![" ++ Literal.commas (items.map Prod.snd) ++ "]").toList =
      "vec".toList ++ '!' :: '[' :: ((Literal.commas (items.map Prod.snd)).toList ++ [']']) := by
    rw [String.toList_append, String.toList_append, List.append_assoc]
    rfl
  rw [htext] at hn ⊢
  simp only [List.length_append, List.length_cons] at hn
  have hvec : isPathText "vec" = true := by decide
  generalize "vec".toList.length = k at hn
  obtain ⟨n, rfl⟩ : ∃ m, n = m + 1 := ⟨n - 1, by omega⟩
  have hitems := readItems_commas (.inr rfl) rest h n (by omega)
  rw [List.append_assoc, readLiteral_path hvec (by rintro c ⟨⟩; rfl)]
  show (if "vec" = "vec" then (readItems ']' n _).map _ else none) = _
  rw [if_pos rfl]
  show (readItems ']' n (((Literal.commas (items.map Prod.snd)).toList ++ [']']) ++ rest)).map _ = _
  rw [List.append_assoc]
  exact congrArg (Option.map _) hitems

theorem Reads.call {func : String} (hf : isPathText func = true) (hx : Reads l x) :
    Reads (.call func [l]) (callText func x) := by
  intro n hn rest _
  have htext : (callText func x).toList = func.toList ++ '(' :: (x.toList ++ [')']) := by
    rw [callText, String.toList_append, String.toList_append, String.toList_append, List.append_assoc,
      List.append_assoc]
    rfl
  rw [htext] at hn ⊢
  simp only [List.length_append, List.length_cons] at hn
  obtain ⟨n, rfl⟩ : ∃ m, n = m + 1 := ⟨n - 1, by omega⟩
  have hitems := readItems_commas (.inl rfl) rest (List.forall_mem_singleton.2 hx : ∀ i ∈ [(l, x)], Reads i.1 i.2) n
    (show n > x.toList.length by omega)
  rw [List.append_assoc, readLiteral_path hf (by rintro c ⟨⟩; rfl)]
  show (readItems ')' n ((x.toList ++ [')']) ++ rest)).map _ = _
  rw [List.append_assoc]
  show (readItems ')' n (x.toList ++ ')' :: rest)).map _ = _
  exact congrArg (Option.map _) hitems

/-! ## Records -/

/-- The parts of a printed record: its fields, and the default of the others. -/
def recordParts (fields : List (String × Literal × String)) (more : Bool) : List String :=
  fields.map (fun i => i.1 ++ ": " ++ i.2.2) ++ if more then ["..Default::default()"] else []

theorem recordParts_eq_nil {fields : List (String × Literal × String)} {more : Bool}
    (h : recordParts fields more = []) : fields = [] ∧ more = false := by
  cases fields <;> cases more <;> first | exact ⟨rfl, rfl⟩ | cases h

theorem readFields_name {name : String} (hname : isPlainWord name.toList = true) (hx : Reads l x) {n : Nat}
    (hn : x.toList.length ≤ n) {rest : List Char} (hrest : Ends rest) :
    readFields (n + 1) ((name ++ ": " ++ x).toList ++ rest) = fieldsBehind (readFields n) (name, l) rest := by
  have hall : name.toList.all isWordChar = true := all_of_isPlainWord hname
  have htext : (name ++ ": " ++ x).toList ++ rest = name.toList ++ ':' :: ' ' :: (x.toList ++ rest) := by
    rw [String.toList_append, String.toList_append, List.append_assoc, List.append_assoc]
    rfl
  have htake : (name.toList ++ ':' :: ' ' :: (x.toList ++ rest)).takeWhile isWordChar = name.toList := by
    rw [List.takeWhile_append_of_pos (List.all_eq_true.1 hall), List.takeWhile_cons_of_neg (by decide), List.append_nil]
  have hdrop : (name.toList ++ ':' :: ' ' :: (x.toList ++ rest)).dropWhile isWordChar =
      ':' :: ' ' :: (x.toList ++ rest) := by
    rw [List.dropWhile_append_of_pos (List.all_eq_true.1 hall), List.dropWhile_cons_of_neg (by decide)]
  have hdefault : (name.toList ++ ':' :: ' ' :: (x.toList ++ rest)).dropPrefix? "..Default::default()".toList =
      none := by
    cases hcs : name.toList with
    | nil =>
      rw [hcs] at hname
      cases hname
    | cons c cs =>
      have hdot : ¬(c == '.') = true := fun hdot => by
        obtain rfl := eq_of_beq hdot
        cases List.all_eq_true.1 hall '.' (hcs ▸ List.mem_cons_self)
      exact if_neg hdot
  rw [htext, readFields, hdefault, hdrop, htake, String.ofList_toList]
  show (readLiteral n _).bind _ = _
  rw [hx n hn rest hrest, Option.bind_some]

theorem readFields_commas (more : Bool) (rest : List Char) : ∀ {fields : List (String × Literal × String)},
    (∀ i ∈ fields, isPlainWord i.1.toList = true ∧ Reads i.2.1 i.2.2) → recordParts fields more ≠ [] →
      ∀ n > (Literal.commas (recordParts fields more)).toList.length,
        readFields n ((Literal.commas (recordParts fields more)).toList ++ ' ' :: '\x7d' :: rest) =
          some ((fields.map fun i => (i.1, i.2.1), more), rest)
  | [], _, hne, n + 1, _ => by
    cases more with
    | false => exact absurd rfl hne
    | true =>
      have hdefault : ("..Default::default()".toList ++ ' ' :: '\x7d' :: rest).dropPrefix?
          "..Default::default()".toList = some (' ' :: '\x7d' :: rest) := List.dropPrefix?_append_of_beq _ BEq.rfl
      show readFields (n + 1) ("..Default::default()".toList ++ ' ' :: '\x7d' :: rest) = _
      rw [readFields, hdefault]
      rfl
  | (name, l, x) :: fields, h, _, n + 1, hn => by
    obtain ⟨hname, hx⟩ : isPlainWord name.toList = true ∧ Reads l x := h (name, l, x) List.mem_cons_self
    by_cases hparts : recordParts fields more = []
    · obtain ⟨rfl, rfl⟩ := recordParts_eq_nil hparts
      have hlen : x.toList.length ≤ n := by
        have htext : (name ++ ": " ++ x).toList.length < n + 1 := hn
        rw [String.toList_append, List.length_append] at htext
        omega
      exact readFields_name hname hx hlen (ends_brace rest)
    · have hcommas : (Literal.commas (recordParts ((name, l, x) :: fields) more)).toList =
          (name ++ ": " ++ x).toList ++ ',' :: ' ' :: (Literal.commas (recordParts fields more)).toList := by
        obtain ⟨y, ys, hys⟩ := List.exists_cons_of_ne_nil hparts
        show (Literal.commas ((name ++ ": " ++ x) :: recordParts fields more)).toList = _
        rw [hys, Literal.toList_commas]
      rw [hcommas, String.toList_append, List.length_append, List.length_append, List.length_cons,
        List.length_cons] at hn
      have hfields := readFields_commas more rest (fun j hj => h j (List.mem_cons_of_mem _ hj)) hparts n (by omega)
      rw [hcommas, List.append_assoc]
      show readFields (n + 1) (_ ++ ',' :: ' ' :: (_ ++ ' ' :: '\x7d' :: rest)) = _
      rw [readFields_name hname hx (by omega) (ends_comma _)]
      show (readFields n _).map _ = _
      rw [hfields]
      rfl

theorem Reads.record {name : String} (hname : isPathText name = true) {fields : List (String × Literal × String)}
    (h : ∀ i ∈ fields, isPlainWord i.1.toList = true ∧ Reads i.2.1 i.2.2) (more : Bool) :
    Reads (.record name (fields.map fun i => (i.1, i.2.1)) more)
      (Literal.recordText name (fields.map fun i => i.1 ++ ": " ++ i.2.2) more) := by
  intro n hn rest _
  have htext : (Literal.recordText name (fields.map fun i => i.1 ++ ": " ++ i.2.2) more).toList =
      if recordParts fields more = [] then name.toList ++ [' ', '\x7b', '\x7d']
      else
        name.toList ++ ' ' :: '\x7b' :: ' ' ::
          ((Literal.commas (recordParts fields more)).toList ++ [' ', '\x7d']) := by
    rw [Literal.recordText, ← recordParts]
    cases recordParts fields more with
    | nil => rw [if_pos rfl, String.toList_append]; rfl
    | cons t ts =>
      rw [if_neg (List.cons_ne_nil t ts), String.toList_append, String.toList_append, String.toList_append,
        List.append_assoc, List.append_assoc]
      rfl
  have hbrace : ∀ cs : List Char, ∀ c ∈ (' ' :: cs).head?, isPathChar c = false := by
    rintro cs c ⟨⟩
    rfl
  rw [htext] at hn ⊢
  by_cases hparts : recordParts fields more = []
  · obtain ⟨rfl, rfl⟩ := recordParts_eq_nil hparts
    rw [if_pos hparts] at hn ⊢
    simp only [List.length_append, List.length_cons] at hn
    obtain ⟨n, rfl⟩ : ∃ m, n = m + 1 := ⟨n - 1, by omega⟩
    rw [List.append_assoc]
    exact readLiteral_path hname (hbrace _) n
  · rw [if_neg hparts] at hn ⊢
    simp only [List.length_append, List.length_cons] at hn
    obtain ⟨n, rfl⟩ : ∃ m, n = m + 1 := ⟨n - 1, by omega⟩
    have hfields := readFields_commas more rest h hparts n (by omega)
    rw [List.append_assoc, List.cons_append, readLiteral_path hname (hbrace _)]
    show (readFields n ((_ ++ [' ', '\x7d']) ++ rest)).map _ = _
    rw [List.append_assoc]
    exact congrArg (Option.map _) hfields

end

/-! ## Printed literals -/

theorem constants_nodup : (constants.map Prod.fst).Nodup := by
  decide

theorem constant_of_mem {path : String} {l : Literal} (h : (path, l) ∈ constants) : constant path = l := by
  rw [constant, (Table.lookup_eq_some_iff constants_nodup).2 h]
  rfl

theorem constant_bool (b : Bool) : constant (if b then "true" else "false") = .bool b := by
  cases b <;> exact constant_of_mem (by simp [constants])

theorem constant_operator (op : Operator) : constant ("Operator" ++ "::" ++ op.name) = .int op.code := by
  have h : op ∈ Operator.all := by cases op <;> decide
  exact constant_of_mem (List.mem_append_left _ (List.mem_append_right _ (List.mem_map_of_mem h)))

theorem constant_termKind (kind : TermKind) : constant ("TermKind" ++ "::" ++ kind.name) = .int kind.code := by
  have h : kind ∈ TermKind.all := by cases kind <;> decide
  exact constant_of_mem (List.mem_append_right _ (List.mem_map_of_mem h))

theorem constant_missing : constant "None" = .path "None" := by
  have h : (constants.lookup "None").isNone = true := by decide
  rw [constant, Option.isNone_iff_eq_none.1 h]
  rfl

theorem isPathText_of_isPlainWord {w : String} (h : isPlainWord w.toList = true) : isPathText w = true := by
  refine Bool.and_eq_true_iff.2 ⟨?_, ?_⟩
  · cases hcs : w.toList with
    | nil =>
      rw [hcs] at h
      cases h
    | cons c cs => rfl
  · refine List.all_eq_true.2 fun c hc => ?_
    rw [isPathChar, List.all_eq_true.1 (all_of_isPlainWord h) c hc]
    rfl

theorem isPathText_member {type name : String} (ht : isPlainWord type.toList = true) (hn : isPlainWord name.toList = true) :
    isPathText (type ++ "::" ++ name) = true := by
  obtain ⟨hne, ht⟩ := Bool.and_eq_true_iff.1 (isPathText_of_isPlainWord ht)
  obtain ⟨_, hn⟩ := Bool.and_eq_true_iff.1 (isPathText_of_isPlainWord hn)
  rw [isPathText, String.toList_append, String.toList_append, List.append_assoc]
  refine Bool.and_eq_true_iff.2 ⟨?_, ?_⟩
  · cases hcs : type.toList with
    | nil =>
      rw [hcs] at hne
      cases hne
    | cons c cs => rfl
  · rw [List.all_append, List.all_append, ht, hn]
    rfl

theorem isPathText_operator (op : Operator) : isPathText ("Operator" ++ "::" ++ op.name) = true :=
  isPathText_member (by decide) (printedName_operator op).isPlainWord

theorem isPathText_termKind (kind : TermKind) : isPathText ("TermKind" ++ "::" ++ kind.name) = true :=
  isPathText_member (by decide) (printedName_termKind kind).isPlainWord

theorem isPathText_record {s : Shape} (hs : s.isRecord = true) : isPathText s.printedName = true :=
  isPathText_of_isPlainWord (printedName_record hs).isPlainWord

theorem reads_constant {p : String} {l : Literal} (h : constant p = l) (hp : isPathText p = true) : Reads l p :=
  h ▸ Reads.constant hp

theorem stripped_missing : Settings.default.style.stripped "None" = "None" := by
  decide

theorem Reads.wrap {func x : String} {l : Literal} (hf : isPathText func = true)
    (hstripped : Settings.default.style.stripped func = func) (hx : Reads l.printedPaths x) :
    Reads (Literal.printedPaths (.call func [l])) (callText func x) := by
  have h : Literal.printedPaths (.call func [l]) = .call func [l.printedPaths] := congrArg (Literal.call · _) hstripped
  rw [h]
  exact hx.call hf

/-- **What is printed for a value is read as its literal, with the paths as they are printed.** -/
theorem PrintedForm.reads {t : ValueType} {l : Literal} {x : String} (h : PrintedForm t l x) :
    Reads l.printedPaths x := by
  induction h with
  | bool b => exact reads_constant (constant_bool b) (by cases b <;> decide)
  | string s => exact (Reads.str s).wrap (by decide) (by decide)
  | operator op => exact reads_constant (constant_operator op) (isPathText_operator op)
  | termKind kind => exact reads_constant (constant_termKind kind) (isPathText_termKind kind)
  | boxed _ ih => exact ih.wrap (by decide) (by decide)
  | missing t => exact stripped_missing ▸ reads_constant constant_missing (by decide)
  | given _ ih => exact ih.wrap (by decide) (by decide)
  | vec items _ ih =>
    have h : Reads (.vec ((items.map fun i => (i.1.printedPaths, i.2)).map Prod.fst)) _ :=
      Reads.vec (List.forall_mem_map.2 ih)
    rw [Literal.printedPaths_vec, List.map_map]
    rw [List.map_map, List.map_map] at h
    exact h
  | list _ ih => exact ih
  | optional _ ih => exact ih
  | @record s hs items rest hnames _ ih =>
    have hfields : ∀ i ∈ items.map fun i => (i.1, i.2.1.printedPaths, i.2.2),
        isPlainWord i.1.toList = true ∧ Reads i.2.1 i.2.2 :=
      List.forall_mem_map.2 fun i hi => ⟨(printedName_field s i.1 (hnames i hi)).isPlainWord, ih i hi⟩
    have h := Reads.record (isPathText_record hs) hfields rest
    rw [Literal.printedPaths_record, List.map_map]
    rw [List.map_map, List.map_map] at h
    exact h

end DefTable

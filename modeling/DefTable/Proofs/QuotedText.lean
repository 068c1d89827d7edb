import DefTable.Text.CodePoint
import DefTable.Text.Quoted

/-!
# Reading quoted text

A reader of texts in double quotes (`unquoted?`) that gets back whatever was quoted (`unquoted?_quoted`), what does not
occur in a quoted text, and what of it stands outside of its quotes (`outsideQuotes_quoted`).
-/

namespace DefTable.Text

/-! ## Hexadecimal numbers -/

/-- The digits of a number to the base sixteen, from the first one on. -/
theorem toDigits_sixteen_induct {P : Nat → List Char → Prop} (digit : ∀ d < 16, P d [d.digitChar])
    (snoc : ∀ n d, d < 16 → P n (Nat.toDigits 16 n) → P (n * 16 + d) (Nat.toDigits 16 n ++ [d.digitChar])) (n : Nat) :
    P n (Nat.toDigits 16 n) := by
  induction n using Nat.strongRecOn with
  | _ n ih =>
    rw [Nat.toDigits_eq_if (by decide)]
    by_cases hn : n < 16
    · rw [if_pos hn]
      exact digit n hn
    · rw [if_neg hn]
      have h := snoc (n / 16) (n % 16) (Nat.mod_lt _ (by decide)) (ih (n / 16) (by omega))
      rwa [Nat.div_add_mod'] at h

theorem hexValue?_digitChar : ∀ d < 16, hexValue? d.digitChar = some d := by
  decide

theorem forall_mem_toDigits {p : Char → Prop} (h : ∀ d < 16, p d.digitChar) (n : Nat) :
    ∀ c ∈ Nat.toDigits 16 n, p c := by
  refine toDigits_sixteen_induct (P := fun _ ds => ∀ c ∈ ds, p c) (fun d hd => ?_) (fun n d hd ih => ?_) n
  · exact List.forall_mem_singleton.2 (h d hd)
  · exact List.forall_mem_append.2 ⟨ih, List.forall_mem_singleton.2 (h d hd)⟩

theorem length_toDigits_le (c : Char) : (Nat.toDigits 16 c.toNat).length ≤ 6 := by
  have h : c.toNat < 16 ^ 6 := by
    rcases c.valid with h | ⟨-, h⟩
    · exact Nat.lt_trans h (by decide)
    · exact Nat.lt_trans h (by decide)
  exact (Nat.length_toDigits_le_iff (by decide) (by decide)).2 h

/-! ## The reader -/

/-- What the next character of a text in quotes is read as. -/
inductive Spelling where
  | plain
  /-- Behind a backslash. -/
  | escape
  /-- Behind some digits of a code point, with their value. -/
  | codePoint (value : Nat)

/-- The character of a short form, by its letter. -/
def shortForm? : Char → Option Char
  | '0' => some '\x00'
  | 't' => some '\t'
  | 'r' => some '\r'
  | 'n' => some '\n'
  | '\\' => some '\\'
  | '"' => some '"'
  | _ => none

/-- The result of a reader with a character in front of what was read. -/
def pushed (c : Char) (r : Option (List Char × List Char)) : Option (List Char × List Char) :=
  r.map fun (cs, rest) => (c :: cs, rest)

/-- The text up to the quote that closes it, and what is left behind it. -/
def textRest : Spelling → List Char → Option (List Char × List Char)
  | _, [] => none
  | .plain, '"' :: cs => some ([], cs)
  | .plain, '\\' :: cs => textRest .escape cs
  | .plain, c :: cs => pushed c (textRest .plain cs)
  | .escape, 'u' :: '{' :: cs => textRest (.codePoint 0) cs
  | .escape, c :: cs => (shortForm? c).bind fun d => pushed d (textRest .plain cs)
  | .codePoint value, '}' :: cs =>
    if value.isValidChar then pushed (Char.ofNat value) (textRest .plain cs) else none
  | .codePoint value, c :: cs => (hexValue? c).bind fun d => textRest (.codePoint (value * 16 + d)) cs

/-- A text in double quotes, and what is left behind it. -/
def unquoted? : List Char → Option (String × List Char)
  | '"' :: cs => (textRest .plain cs).map fun (text, rest) => (String.ofList text, rest)
  | _ => none

theorem textRest_digit (value : Nat) {d : Nat} (hd : d < 16) (more : List Char) :
    textRest (.codePoint value) (d.digitChar :: more) = textRest (.codePoint (value * 16 + d)) more := by
  have hne : d.digitChar ≠ '}' := by
    revert d
    decide
  rw [textRest]
  · rw [hexValue?_digitChar d hd]
    rfl
  · exact fun h => absurd h hne

theorem textRest_toDigits (n : Nat) (more : List Char) :
    textRest (.codePoint 0) (Nat.toDigits 16 n ++ more) = textRest (.codePoint n) more := by
  revert more
  refine toDigits_sixteen_induct (P := fun n ds => ∀ more, textRest (.codePoint 0) (ds ++ more) =
    textRest (.codePoint n) more) (fun d hd more => ?_) (fun n d hd ih more => ?_) n
  · rw [List.singleton_append, textRest_digit 0 hd, Nat.zero_mul, Nat.zero_add]
  · rw [List.append_assoc, ih, List.singleton_append, textRest_digit n hd]

theorem textRest_escape (c : Char) (more : List Char) :
    textRest .plain (escape '"' c ++ more) = pushed c (textRest .plain more) := by
  unfold escape
  split
  any_goals rfl
  next hbackslash =>
  split
  · next hc =>
    rw [hc]
    rfl
  · next hc =>
    split
    · rw [List.append_assoc, List.append_assoc]
      have hvalid : c.toNat.isValidChar := c.valid
      calc textRest .plain (['\\', 'u', '\x7b'] ++ (Nat.toDigits 16 c.toNat ++ (['\x7d'] ++ more)))
          = textRest (.codePoint 0) (Nat.toDigits 16 c.toNat ++ (['\x7d'] ++ more)) := rfl
        _ = textRest (.codePoint c.toNat) ('\x7d' :: more) := textRest_toDigits _ _
        _ = pushed c (textRest .plain more) := by rw [textRest, if_pos hvalid, Char.ofNat_toNat]
    · rw [List.singleton_append, textRest]
      · exact fun h => absurd h hc
      · exact fun h => absurd h hbackslash

/-- **A quoted text is read as what was quoted.** -/
theorem unquoted?_quoted (s : String) (rest : List Char) : unquoted? ((quoted s).toList ++ rest) = some (s, rest) := by
  have h : ∀ cs : List Char, textRest .plain (cs.flatMap (escape '"') ++ '"' :: rest) = some (cs, rest) := by
    intro cs
    induction cs with
    | nil => rfl
    | cons c cs ih => rw [List.flatMap_cons, List.append_assoc, textRest_escape, ih]; rfl
  rw [quoted, String.toList_ofList, enclose, List.cons_append, List.cons_append, List.append_assoc,
    List.singleton_append]
  show (textRest .plain _).map _ = _
  rw [h, Option.map_some]
  exact congrArg (fun t => some (t, rest)) String.ofList_toList

/-! ## What does not occur -/

theorem lineFeed_not_mem_escape (c : Char) : '\n' ∉ escape '"' c := by
  unfold escape
  split
  any_goals decide
  next hn _ =>
  have hdigits : '\n' ∉ Nat.toDigits 16 c.toNat := fun h =>
    forall_mem_toDigits (p := (· ≠ '\n')) (by decide) c.toNat _ h rfl
  split
  · next hc =>
    rw [hc]
    decide
  · split
    · simp [hdigits]
    · exact fun h => hn (List.mem_singleton.1 h).symm

theorem lineFeed_not_mem_quoted (s : String) : '\n' ∉ (quoted s).toList := by
  rw [quoted, String.toList_ofList, enclose]
  simp only [List.cons_append, List.mem_cons, List.mem_append, List.mem_flatMap, List.not_mem_nil, or_false, not_or,
    not_exists, not_and]
  exact ⟨by decide, fun c _ => lineFeed_not_mem_escape c, by decide⟩

/-! ## What stands outside -/

/-- What stands outside of double quotes in a text that starts outside of them or inside. The quotes stand outside. -/
def outsideQuotes : Bool → List Char → List Char
  | _, [] => []
  | false, c :: cs => c :: outsideQuotes (c = '"') cs
  | true, '"' :: cs => '"' :: outsideQuotes false cs
  | true, '\\' :: _ :: cs => outsideQuotes true cs
  | true, _ :: cs => outsideQuotes true cs

theorem outsideQuotes_inside (rest : List Char) : ∀ {cs : List Char}, (∀ c ∈ cs, c ≠ '"' ∧ c ≠ '\\') →
    outsideQuotes true (cs ++ rest) = outsideQuotes true rest
  | [], _ => rfl
  | c :: cs, h => by
    obtain ⟨⟨hquote, hbackslash⟩, hcs⟩ := List.forall_mem_cons.1 h
    rw [List.cons_append, outsideQuotes, outsideQuotes_inside rest hcs]
    · exact fun heq => absurd heq hquote
    · exact fun _ _ heq => absurd heq hbackslash

theorem outsideQuotes_escape (c : Char) (rest : List Char) :
    outsideQuotes true (escape '"' c ++ rest) = outsideQuotes true rest := by
  unfold escape
  split
  any_goals rfl
  next hbackslash =>
  split
  · next hc =>
    rw [hc]
    rfl
  · next hc =>
    split
    · have hdigits := forall_mem_toDigits (p := fun d => d ≠ '"' ∧ d ≠ '\\') (by decide) c.toNat
      rw [List.append_assoc, List.append_assoc]
      calc outsideQuotes true (['\\', 'u', '\x7b'] ++ (Nat.toDigits 16 c.toNat ++ (['\x7d'] ++ rest)))
          = outsideQuotes true (Nat.toDigits 16 c.toNat ++ (['\x7d'] ++ rest)) := rfl
        _ = outsideQuotes true (['\x7d'] ++ rest) := outsideQuotes_inside _ hdigits
        _ = outsideQuotes true rest := rfl
    · exact outsideQuotes_inside rest (List.forall_mem_singleton.2 ⟨hc, hbackslash⟩)

/-- **Of a quoted text, nothing but its quotes stands outside.** -/
theorem outsideQuotes_quoted (s : String) (rest : List Char) :
    outsideQuotes false ((quoted s).toList ++ rest) = '"' :: '"' :: outsideQuotes false rest := by
  have h : ∀ cs : List Char,
      outsideQuotes true (cs.flatMap (escape '"') ++ '"' :: rest) = '"' :: outsideQuotes false rest := by
    intro cs
    induction cs with
    | nil => rfl
    | cons c cs ih => rw [List.flatMap_cons, List.append_assoc, outsideQuotes_escape, ih]
  rw [quoted, String.toList_ofList, enclose, List.cons_append, List.cons_append, List.append_assoc,
    List.singleton_append]
  exact congrArg ('"' :: ·) (h s.toList)

end DefTable.Text

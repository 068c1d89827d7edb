import DefTable.Proofs.Places

/-!
# Bytes and places of a text

A text is read byte by byte, where a byte is the character with its number (`Bytewise.peek`), and cut at bytes, where it
can be cut only between characters (`Bytewise.slice_eq_ok_iff`). A byte of a character beyond ASCII is no ASCII
character, so where the bytes of such a character are passed one by one nothing is found in them
(`Bytewise.At.peek_wide`).
-/

namespace DefTable

open Text

namespace Bytewise

/-! ## Bytes -/

/-- A byte of a text, as the character with its number. -/
def peek (text : List Char) (i : Nat) : Option Char :=
  (text.flatMap String.utf8EncodeChar)[i]?.map Char.ofUInt8

/-- A character beyond ASCII, or a byte of one. -/
def Wide (c : Char) : Prop :=
  128 ≤ c.toNat

instance (c : Char) : Decidable (Wide c) :=
  inferInstanceAs (Decidable (128 ≤ c.toNat))

theorem utf8Size_of_not_wide {c : Char} (h : ¬ Wide c) : c.utf8Size = 1 := by
  refine Char.utf8Size_eq_one_iff.2 ?_
  have hle : c.toNat ≤ 127 := Nat.le_of_lt_succ (Nat.not_le.1 h)
  exact hle

theorem toNat_ofUInt8 (b : UInt8) : (Char.ofUInt8 b).toNat = b.toNat := rfl

theorem encode_of_not_wide {c : Char} (h : ¬ Wide c) : (String.utf8EncodeChar c).map Char.ofUInt8 = [c] := by
  have hle : c.val.toNat ≤ 127 := Nat.le_of_lt_succ (Nat.not_le.1 h)
  have hbyte : (Char.ofUInt8 (UInt8.ofNat c.val.toNat)).toNat = c.toNat := by
    rw [toNat_ofUInt8, UInt8.toNat_ofNat']
    exact Nat.mod_eq_of_lt (by omega)
  rw [String.utf8EncodeChar, if_pos hle, List.map_singleton, Char.toNat_inj.1 hbyte]

/-- Every byte of a character beyond ASCII is beyond ASCII. -/
theorem wide_of_mem_encode {c : Char} (h : Wide c) {b : UInt8} (hb : b ∈ String.utf8EncodeChar c) :
    Wide (Char.ofUInt8 b) := by
  have hlt : ¬ c.val.toNat ≤ 127 := fun hle => absurd h (Nat.not_le.2 (Nat.lt_succ_of_le hle))
  rw [Wide, toNat_ofUInt8]
  simp only [String.utf8EncodeChar, if_neg hlt] at hb
  split at hb
  all_goals try split at hb
  all_goals
    simp only [List.mem_cons, List.not_mem_nil, or_false] at hb
    rcases hb with rfl | rfl | rfl | rfl <;> rw [UInt8.toNat_ofNat'] <;> omega

/-- The first byte of a character. -/
theorem head_encode (c : Char) :
    ((String.utf8EncodeChar c).map Char.ofUInt8).head? = some (Char.ofNat (leadByte c)) := by
  have hsize := String.length_utf8EncodeChar c
  have hvalid : c.val.toNat < 0x110000 := by
    have := c.valid
    simp only [UInt32.isValidChar, Nat.isValidChar] at this
    omega
  have hofNat : ∀ {m n : Nat}, m = n → n < 256 → Char.ofUInt8 (UInt8.ofNat m) = Char.ofNat n := by
    rintro m n rfl hn
    rw [← Char.ofNat_toNat (Char.ofUInt8 _), toNat_ofUInt8, UInt8.toNat_ofNat', Nat.mod_eq_of_lt hn]
  simp only [String.utf8EncodeChar] at hsize ⊢
  have hc : c.toNat = c.val.toNat := rfl
  split at hsize
  · next h =>
    rw [if_pos h]
    simp only [leadByte, ← hsize, List.length_singleton]
    exact congrArg some (hofNat hc.symm (by omega))
  · next h =>
    rw [if_neg h]
    split at hsize
    · next h' =>
      rw [if_pos h']
      simp only [leadByte, ← hsize, List.length_cons, List.length_nil]
      exact congrArg some (hofNat (by omega) (by omega))
    · next h' =>
      rw [if_neg h']
      split at hsize
      · next h'' =>
        rw [if_pos h'']
        simp only [leadByte, ← hsize, List.length_cons, List.length_nil]
        exact congrArg some (hofNat (by omega) (by omega))
      · next h'' =>
        rw [if_neg h'']
        simp only [leadByte, ← hsize, List.length_cons, List.length_nil]
        exact congrArg some (hofNat (by omega) (by omega))

/-! ## Places -/

/-- From a byte on, a text is another one. -/
def At (text : List Char) (pos : Nat) (cs : List Char) : Prop :=
  ∃ front, text = front ++ cs ∧ pos = byteLength front

theorem length_encode (cs : List Char) : (cs.flatMap String.utf8EncodeChar).length = byteLength cs := by
  induction cs with
  | nil => rfl
  | cons c cs ih => rw [List.flatMap_cons, List.length_append, String.length_utf8EncodeChar, ih, byteLength_cons]

namespace At

variable {text cs ds : List Char} {pos : Nat} {c : Char}

theorem start (text : List Char) : At text 0 text :=
  ⟨[], rfl, rfl⟩

theorem add_byteLength (h : At text pos cs) : pos + byteLength cs = byteLength text := by
  obtain ⟨front, rfl, rfl⟩ := h
  exact (byteLength_append _ _).symm

theorem behind (h : At text pos (ds ++ cs)) : At text (pos + byteLength ds) cs := by
  obtain ⟨front, rfl, rfl⟩ := h
  exact ⟨front ++ ds, by rw [List.append_assoc], (byteLength_append _ _).symm⟩

theorem tail (h : At text pos (c :: cs)) : At text (pos + c.utf8Size) cs := by
  have hone : At text pos ([c] ++ cs) := h
  exact hone.behind

/-- What is at a byte is known from the byte. -/
theorem eq (h : At text pos cs) (h' : At text pos ds) : cs = ds := by
  obtain ⟨front, rfl, rfl⟩ := h
  obtain ⟨front', htext, hpos⟩ := h'
  exact (eq_of_byteLength_eq htext hpos).2

/-- The bytes from a place on. -/
theorem peek_add (h : At text pos cs) (i : Nat) : peek text (pos + i) = peek cs i := by
  obtain ⟨front, rfl, rfl⟩ := h
  rw [peek, peek, List.flatMap_append, List.getElem?_append_right (by rw [length_encode]; omega), length_encode,
    Nat.add_sub_cancel_left]

theorem peek_eq (h : At text pos cs) : peek text pos = peek cs 0 :=
  h.peek_add 0

theorem peek_nil (h : At text pos []) (i : Nat) : peek text (pos + i) = none := by
  rw [h.peek_add]
  rfl

end At

variable {c : Char}

theorem peek_cons_eq (cs : List Char) {i : Nat} (hi : i < c.utf8Size) :
    peek (c :: cs) i = ((String.utf8EncodeChar c).map Char.ofUInt8)[i]? := by
  rw [peek, List.flatMap_cons, List.getElem?_append_left (by rwa [String.length_utf8EncodeChar]), List.getElem?_map]

theorem peek_lead (c : Char) (cs : List Char) : peek (c :: cs) 0 = some (Char.ofNat (leadByte c)) := by
  rw [peek_cons_eq cs c.utf8Size_pos, ← List.head?_eq_getElem?, head_encode]

theorem peek_narrow (hc : ¬ Wide c) (cs : List Char) : peek (c :: cs) 0 = some c := by
  rw [peek_cons_eq cs c.utf8Size_pos, encode_of_not_wide hc]
  rfl

theorem peek_wide (hc : Wide c) (cs : List Char) {i : Nat} (hi : i < c.utf8Size) :
    ∃ d, peek (c :: cs) i = some d ∧ Wide d := by
  have hlt : i < (String.utf8EncodeChar c).length := by rwa [String.length_utf8EncodeChar]
  refine ⟨_, ?_, wide_of_mem_encode hc (List.getElem_mem hlt)⟩
  rw [peek_cons_eq cs hi, List.getElem?_map, List.getElem?_eq_getElem hlt]
  rfl

/-- A property of ASCII characters is seen from the byte. -/
theorem peek_any {p : Char → Bool} (hp : ∀ d, Wide d → p d = false) (cs : List Char) :
    (peek cs 0).any p = cs.head?.any p := by
  cases cs with
  | nil => rfl
  | cons c cs =>
    by_cases hc : Wide c
    · obtain ⟨d, hd, hwide⟩ := peek_wide hc cs c.utf8Size_pos
      rw [hd, List.head?_cons, Option.any_some, Option.any_some, hp d hwide, hp c hc]
    · rw [peek_narrow hc, List.head?_cons]

theorem peek_eq_some_iff {x : Char} (hx : ¬ Wide x) (cs : List Char) : peek cs 0 = some x ↔ cs.head? = some x := by
  cases cs with
  | nil => exact ⟨nofun, nofun⟩
  | cons c cs =>
    by_cases hc : Wide c
    · obtain ⟨d, hd, hwide⟩ := peek_wide hc cs c.utf8Size_pos
      rw [hd, List.head?_cons, Option.some_inj, Option.some_inj]
      constructor
      · rintro rfl
        exact absurd hwide hx
      · rintro rfl
        exact absurd hc hx
    · rw [peek_narrow hc, List.head?_cons]

/-! ## Slices -/

/-- What can go wrong while a source is read byte by byte. -/
inductive Crash where
  | fault (d : Diagnostic)
  /-- A text was cut inside of a character, behind its end, or backwards. -/
  | badSlice
  /-- The number of steps ran out. -/
  | exhausted

/-- The text behind a number of bytes, if these are whole characters. -/
def suffix? : List Char → Nat → Option (List Char)
  | cs, 0 => some cs
  | [], _ + 1 => none
  | c :: cs, n + 1 => if c.utf8Size ≤ n + 1 then suffix? cs (n + 1 - c.utf8Size) else none

/-- The text that a number of bytes are, if these are whole characters. -/
def prefix? : List Char → Nat → Option (List Char)
  | _, 0 => some []
  | [], _ + 1 => none
  | c :: cs, n + 1 => if c.utf8Size ≤ n + 1 then (prefix? cs (n + 1 - c.utf8Size)).map (c :: ·) else none

/-- The text from a byte on. -/
def sliceFrom (text : List Char) (a : Nat) : Except Crash (List Char) :=
  match suffix? text a with
  | some cs => .ok cs
  | none => .error .badSlice

/-- The text from a byte to another one. -/
def slice (text : List Char) (a b : Nat) : Except Crash (List Char) :=
  if a ≤ b then
    match (suffix? text a).bind (prefix? · (b - a)) with
    | some cs => .ok cs
    | none => .error .badSlice
  else .error .badSlice

theorem suffix?_byteLength (front cs : List Char) : suffix? (front ++ cs) (byteLength front) = some cs := by
  induction front with
  | nil => rw [List.nil_append, byteLength_nil, suffix?]
  | cons c front ih =>
    obtain ⟨k, hk⟩ := Nat.exists_eq_succ_of_ne_zero (Nat.ne_of_gt c.utf8Size_pos)
    rw [List.cons_append, byteLength_cons, hk, Nat.succ_add, suffix?, hk, if_pos (by omega)]
    rw [show k + byteLength front + 1 - (k + 1) = byteLength front by omega, ih]

theorem suffix?_eq_some_iff {text cs : List Char} {a : Nat} : suffix? text a = some cs ↔ At text a cs := by
  refine ⟨fun h => ?_, fun ⟨front, htext, ha⟩ => by rw [htext, ha, suffix?_byteLength]⟩
  fun_induction suffix? text a with
  | case1 =>
    cases h
    exact .start _
  | case2 => cases h
  | case3 c text n hle ih =>
    obtain ⟨front, rfl, hfront⟩ := ih h
    refine ⟨c :: front, rfl, ?_⟩
    rw [byteLength_cons]
    omega
  | case4 => cases h

theorem prefix?_byteLength (cs back : List Char) : prefix? (cs ++ back) (byteLength cs) = some cs := by
  induction cs with
  | nil => rw [byteLength_nil, prefix?]
  | cons c cs ih =>
    obtain ⟨k, hk⟩ := Nat.exists_eq_succ_of_ne_zero (Nat.ne_of_gt c.utf8Size_pos)
    rw [List.cons_append, byteLength_cons, hk, Nat.succ_add, prefix?, hk, if_pos (by omega)]
    rw [show k + byteLength cs + 1 - (k + 1) = byteLength cs by omega, ih]
    rfl

theorem prefix?_eq_some_iff {text cs : List Char} {n : Nat} :
    prefix? text n = some cs ↔ ∃ back, text = cs ++ back ∧ n = byteLength cs := by
  refine ⟨fun h => ?_, fun ⟨back, htext, hn⟩ => by rw [htext, hn, prefix?_byteLength]⟩
  fun_induction prefix? text n generalizing cs with
  | case1 =>
    cases h
    exact ⟨_, rfl, rfl⟩
  | case2 => cases h
  | case3 c text n hle ih =>
    obtain ⟨ds, hds, rfl⟩ := Option.map_eq_some_iff.1 h
    obtain ⟨back, rfl, hn⟩ := ih hds
    refine ⟨back, rfl, ?_⟩
    rw [byteLength_cons]
    omega
  | case4 => cases h

theorem sliceFrom_eq_ok_iff {text cs : List Char} {a : Nat} : sliceFrom text a = .ok cs ↔ At text a cs := by
  rw [← suffix?_eq_some_iff, sliceFrom]
  cases suffix? text a <;> simp

/-- **A slice is a part of the text that stands at its first byte and ends at its last one.** -/
theorem slice_eq_ok_iff {text cs : List Char} {a b : Nat} :
    slice text a b = .ok cs ↔ ∃ back, At text a (cs ++ back) ∧ b = a + byteLength cs := by
  have hcut : slice text a b = .ok cs ↔ a ≤ b ∧ (suffix? text a).bind (prefix? · (b - a)) = some cs := by
    unfold slice
    split
    · next hle => cases (suffix? text a).bind (prefix? · (b - a)) <;> simp [hle]
    · next hle => simp [hle]
  rw [hcut, Option.bind_eq_some_iff]
  constructor
  · rintro ⟨hle, ds, hds, hcs⟩
    obtain ⟨back, rfl, hb⟩ := prefix?_eq_some_iff.1 hcs
    exact ⟨back, suffix?_eq_some_iff.1 hds, by omega⟩
  · rintro ⟨back, hat, rfl⟩
    refine ⟨Nat.le_add_right _ _, _, suffix?_eq_some_iff.2 hat, prefix?_eq_some_iff.2 ⟨back, rfl, ?_⟩⟩
    exact Nat.add_sub_cancel_left _ _

theorem sliceFrom_ok_iff {text : List Char} {a : Nat} :
    (∃ cs, sliceFrom text a = .ok cs) ↔ a ≤ byteLength text ∧ IsPlace text a := by
  constructor
  · rintro ⟨cs, h⟩
    have hat := sliceFrom_eq_ok_iff.1 h
    have hend := hat.add_byteLength
    obtain ⟨front, htext, ha⟩ := hat
    exact ⟨by omega, front, cs, htext, ha⟩
  · rintro ⟨-, front, cs, htext, ha⟩
    exact ⟨cs, sliceFrom_eq_ok_iff.2 ⟨front, htext, ha⟩⟩

/-- **A text can be sliced** just where both ends are between characters, the first one not behind the other one. -/
theorem slice_ok_iff {text : List Char} {a b : Nat} :
    (∃ cs, slice text a b = .ok cs) ↔ a ≤ b ∧ b ≤ byteLength text ∧ IsPlace text a ∧ IsPlace text b := by
  constructor
  · rintro ⟨cs, h⟩
    obtain ⟨back, hat, rfl⟩ := slice_eq_ok_iff.1 h
    have hend := hat.behind.add_byteLength
    obtain ⟨front, htext, ha⟩ := hat
    refine ⟨Nat.le_add_right _ _, by omega, ⟨front, _, htext, ha⟩, front ++ cs, back, ?_, ?_⟩
    · rw [htext, List.append_assoc]
    · rw [ha, byteLength_append]
  · rintro ⟨hle, -, ⟨front, cs, htext, rfl⟩, front', back, htext', rfl⟩
    rcases List.append_eq_append_iff.1 (htext.symm.trans htext') with ⟨ds, rfl, rfl⟩ | ⟨ds, rfl, rfl⟩
    · exact ⟨ds, slice_eq_ok_iff.2 ⟨back, ⟨front, htext, rfl⟩, byteLength_append _ _⟩⟩
    · rw [byteLength_append] at hle
      have hds : byteLength ds = 0 := by omega
      refine ⟨[], slice_eq_ok_iff.2 ⟨_, ⟨front' ++ ds, htext, rfl⟩, ?_⟩⟩
      rw [byteLength_append, hds]
      rfl

end Bytewise
end DefTable

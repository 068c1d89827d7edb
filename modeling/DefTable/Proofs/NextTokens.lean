import DefTable.Proofs.Derivations

/-!
# What comes next

The same tree may be read twice with different tokens behind it: behind an entry of an object, a closing brace in place
of a comma (`Grammar.SameNext`); behind a term without its suffixes, a dot in place of a bracket (`Grammar.NearNext`).
What the parser looks at there tells it the same both times. Where a production ends in a term, no suffix comes next
(`Grammar.Derives.unsuffixed`).
-/

namespace DefTable
namespace Grammar

/-! ## The token behind a tree -/

/-- The token behind a tree as it was read and as it is read again: the same, or a brace in place of a comma. -/
def SameNext (ls ls' : Lexemes) : Prop :=
  peek ls ≠ .dot ∧ (peek ls' = peek ls ∨ peek ls = .op .comma ∧ peek ls' = .rightBrace)

/-- The token behind a term without its suffixes: both times a suffix, the second time with a dot before a bracket. -/
def NearNext (ls ls' : Lexemes) : Prop :=
  ¬ StartsSuffix ls ∧ SameNext ls ls' ∨ StartsSuffix ls ∧ StartsSuffix ls' ∧ peek ls' ≠ .leftBracket

/-- A token that may stand between the items of a list, or in front of what may be missing. -/
def Separates (t : Token) : Prop :=
  t.isPlain = true ∧ t ≠ .dot ∧ t ≠ .rightBrace

instance : DecidablePred Separates :=
  fun t => inferInstanceAs (Decidable (t.isPlain = true ∧ t ≠ .dot ∧ t ≠ .rightBrace))

/-- Whether a token may start a suffix. -/
def opensSuffix : Token → Bool
  | .field _ => true
  | .dot => true
  | .leftBracket => true
  | .question => true
  | .alternative => true
  | _ => false

theorem StartsSuffix.opens {ls : Lexemes} (h : StartsSuffix ls) : opensSuffix (peek ls) = true := by
  unfold StartsSuffix at h
  split at h
  · rfl
  · rfl
  · rfl
  · rfl
  · rfl
  · rfl
  · exact h.elim

theorem not_startsSuffix {ls : Lexemes} {t : Token} (h : peek ls = t) (ht : opensSuffix t = false) :
    ¬ StartsSuffix ls := by
  intro hls
  have hopens := hls.opens
  rw [h, ht] at hopens
  cases hopens

/-- But for a dot, the first token tells whether a suffix starts. -/
theorem startsSuffix_iff {ls : Lexemes} (hdot : peek ls ≠ .dot) : StartsSuffix ls ↔ opensSuffix (peek ls) = true := by
  refine ⟨StartsSuffix.opens, fun h => ?_⟩
  cases ls with
  | nil => cases h
  | cons l ls =>
    obtain ⟨t, o⟩ := l
    cases t with
    | field => trivial
    | dot => exact absurd rfl hdot
    | leftBracket => trivial
    | question => trivial
    | alternative => trivial
    | _ => cases h

section
variable {ls ls' : Lexemes}

theorem SameNext.of_eof (h : peek ls = .eof) (h' : peek ls' = .eof) : SameNext ls ls' :=
  ⟨by simp [h], .inl (by rw [h, h'])⟩

theorem SameNext.cons {t : Token} {o o' : Nat} (ht : t ≠ .dot) : SameNext (⟨t, o⟩ :: ls) (⟨t, o'⟩ :: ls') :=
  ⟨ht, .inl rfl⟩

theorem SameNext.ne {t : Token} (h : SameNext ls ls') (hne : peek ls ≠ t) (ht : t ≠ .rightBrace) : peek ls' ≠ t := by
  rcases h.2 with h | ⟨-, h⟩
  · rwa [h]
  · rw [h]
    exact ht.symm

theorem SameNext.operator? (h : SameNext ls ls') : operator? ls' = operator? ls ∨ operator? ls' = none := by
  rcases h.2 with h | ⟨-, h⟩
  · left
    rw [Grammar.operator?, h, Grammar.operator?]
  · right
    rw [Grammar.operator?, h]

theorem SameNext.not_startsSuffix (h : SameNext ls ls') (hls : ¬ StartsSuffix ls) : ¬ StartsSuffix ls' := by
  obtain ⟨hdot, hpeek | ⟨-, hpeek⟩⟩ := h
  · intro hls'
    have hopens := hls'.opens
    rw [hpeek] at hopens
    exact hls ((startsSuffix_iff hdot).2 hopens)
  · exact Grammar.not_startsSuffix hpeek rfl

theorem NearNext.same (h : NearNext ls ls') (hls : ¬ StartsSuffix ls) : SameNext ls ls' := by
  rcases h with ⟨-, h⟩ | ⟨h, -⟩
  · exact h
  · exact absurd h hls

/-- What cannot start a suffix, or is a bracket, does not come next where it did not. -/
theorem NearNext.ne {t : Token} (h : NearNext ls ls') (hne : peek ls ≠ t) (ht : t ≠ .rightBrace)
    (hopens : opensSuffix t = true → t = .leftBracket) : peek ls' ≠ t := by
  rcases h with ⟨-, h⟩ | ⟨-, hls', hbracket⟩
  · exact h.ne hne ht
  · rintro rfl
    exact hbracket (hopens hls'.opens)

end

/-! ## Ends of terms -/

/-- No suffix follows where a term has ended. -/
def Unsuffixed : (p : Production) → Lexemes → Lexemes → Prop
  | .pipe, _, ls₁ | .binary _, _, ls₁ | .rightOperand _, _, ls₁ | .operand, _, ls₁ | .term, _, ls₁ => ¬ StartsSuffix ls₁
  | .termQuery, _, ls₁ | .suffixes, _, ls₁ => ¬ StartsSuffix ls₁
  | .binaryRest _ _, ls, ls₁ | .after _ .termQuery, ls, ls₁ => ¬ StartsSuffix ls → ¬ StartsSuffix ls₁
  | _, _, _ => True

theorem Derives.unsuffixed {p : Production} {ls ls₁ : Lexemes} {n : Node p.shape} (h : Derives p ls n ls₁) :
    Unsuffixed p ls ls₁ := by
  induction h with
  | binary hleft hq ihleft ihq => exact ihq ihleft
  | binaryEnd hnext => exact id
  | binaryMore ht hop hleast hright hchain hq ihright ihq => exact fun _ => ihq ihright
  | suffixesEnd hnext => exact hnext
  -- what comes last in the others has ended there
  | localDefinition hd hq ihd ih | binding ht hpatterns hbody iht ihpatterns ih | term ht hs iht ih => exact ih
  | pipe h ih | pipeOperand h ih | binaryOperand hop h ih | operand h hnext ih | termQuery h ih => exact ih
  | fieldSuffix ht h ih | questionSuffix h ih | alternativeSuffix h ih => exact ih
  | textSuffix hx h ihx ih | dotBracketSuffix hx h ihx ih | bracketSuffix hx h ihx ih => exact ih
  | @missing item lead ls hnext =>
    cases item with
    | termQuery => exact id
    | _ => trivial
  | @given item lead x o ls ls₁ h ih =>
    cases item with
    | termQuery => exact fun _ => ih
    | _ => trivial
  | _ => trivial

end Grammar
end DefTable

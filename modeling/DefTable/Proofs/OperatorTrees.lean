import DefTable.Node

/-!
# Operands joined by operators

What precedence and associativity say about a row of operands and operators, apart from any parser. A tree over the
row is grouped when every operator in it binds at least as tightly as the one above it, where a tie has to be on the
side to which the operator associates (`OperatorTree.Grouped`). A row has at most one grouped tree
(`OperatorTree.Grouped.unique`), and it has none when it holds two operators that do not chain (`Clash`) with only
tighter ones between them (`OperatorTree.Grouped.not_clash`).
-/

namespace DefTable

theorem Operator.associativity_congr {o o' : Operator} (h : o.precedence = o'.precedence) :
    o.associativity = o'.associativity := by
  unfold associativity
  rw [h]

theorem Operator.one_le_precedence (op : Operator) : 1 ≤ op.precedence := by
  cases op <;> decide

/-- Two operators of one precedence that does not chain, with nothing but tighter ones between them. -/
def Clash (ops : List Operator) : Prop :=
  ∃ before a between b after, ops = before ++ a :: (between ++ b :: after) ∧ a.associativity = .none ∧
    a.precedence = b.precedence ∧ ∀ o ∈ between, a.precedence < o.precedence

/-- Whether there is a clash: one whose first operator is the first of the row, or one behind it. -/
def clashes : List Operator → Bool
  | [] => false
  | a :: ops =>
    a.associativity = .none && (ops.find? fun o => o.precedence ≤ a.precedence).any (·.precedence = a.precedence) ||
      clashes ops

theorem Clash.cons_iff {a : Operator} {ops : List Operator} : Clash (a :: ops) ↔
    (a.associativity = .none ∧ ∃ between b after, ops = between ++ b :: after ∧ a.precedence = b.precedence ∧
      ∀ o ∈ between, a.precedence < o.precedence) ∨ Clash ops := by
  constructor
  · rintro ⟨before, a', between, b, after, h, hnone, hab, hbetween⟩
    rcases List.cons_eq_append_iff.1 h with ⟨rfl, hcons⟩ | ⟨before', rfl, hcons⟩
    · simp only [List.cons.injEq] at hcons
      obtain ⟨rfl, rfl⟩ := hcons
      exact .inl ⟨hnone, between, b, after, rfl, hab, hbetween⟩
    · exact .inr ⟨before', a', between, b, after, hcons, hnone, hab, hbetween⟩
  · rintro (⟨hnone, between, b, after, rfl, hab, hbetween⟩ | ⟨before, a', between, b, after, rfl, h⟩)
    · exact ⟨[], a, between, b, after, rfl, hnone, hab, hbetween⟩
    · exact ⟨a :: before, a', between, b, after, rfl, h⟩

/-- The operator that ends a clash is the first one behind that does not bind tighter. -/
theorem any_find?_iff {a : Operator} {ops : List Operator} :
    (ops.find? fun o => o.precedence ≤ a.precedence).any (·.precedence = a.precedence) = true ↔
      ∃ between b after, ops = between ++ b :: after ∧ a.precedence = b.precedence ∧
        ∀ o ∈ between, a.precedence < o.precedence := by
  rw [Option.any_eq_true]
  constructor
  · rintro ⟨b, hfind, hb⟩
    obtain ⟨-, between, after, rfl, hbetween⟩ := List.find?_eq_some_iff_append.1 hfind
    exact ⟨between, b, after, rfl, by simpa [eq_comm] using hb, fun o ho => by simpa using hbetween o ho⟩
  · rintro ⟨between, b, after, rfl, hab, hbetween⟩
    refine ⟨b, List.find?_eq_some_iff_append.2 ⟨by simp [hab], between, after, rfl, fun o ho => ?_⟩, by simp [hab]⟩
    simpa using hbetween o ho

theorem clashes_iff : ∀ {ops : List Operator}, clashes ops = true ↔ Clash ops
  | [] => by simp [clashes, Clash]
  | a :: ops => by
    rw [Clash.cons_iff, ← clashes_iff, ← any_find?_iff, clashes, Bool.or_eq_true, Bool.and_eq_true, decide_eq_true_iff]

instance : DecidablePred Clash :=
  fun ops => decidable_of_iff (clashes ops = true) clashes_iff

example : Clash [.lt, .add, .mul, .ge] ∧ ¬ Clash [.lt, .and, .ge] := by decide

theorem Clash.append_left {ops : List Operator} (more : List Operator) (h : Clash ops) : Clash (more ++ ops) := by
  obtain ⟨before, a, between, b, after, rfl, h⟩ := h
  exact ⟨more ++ before, a, between, b, after, by simp, h⟩

/-- An operator with nothing looser around it takes part in no clash, nor does it stand between the two that clash. -/
theorem Clash.of_split {xs ys : List Operator} {op : Operator}
    (hx : ∀ o ∈ xs, op.precedence < o.precedence ∨ op.precedence = o.precedence ∧ op.associativity = .left)
    (hy : ∀ o ∈ ys, op.precedence < o.precedence ∨ op.precedence = o.precedence ∧ op.associativity = .right)
    (h : Clash (xs ++ op :: ys)) : Clash xs ∨ Clash ys := by
  obtain ⟨before, a, between, b, after, hrow, hnone, hab, hbetween⟩ := h
  have hright : a = op → ys = between ++ b :: after → False := by
    rintro rfl rfl
    rcases hy b (by simp) with hlt | ⟨-, hassoc⟩
    · omega
    · rw [hnone] at hassoc
      cases hassoc
  have hleft : b = op → a ∈ xs → False := by
    rintro rfl ha
    rcases hx a ha with hlt | ⟨-, hassoc⟩
    · omega
    · rw [← Operator.associativity_congr hab, hnone] at hassoc
      cases hassoc
  rcases List.append_eq_append_iff.1 hrow with ⟨as, rfl, h⟩ | ⟨cs, rfl, h⟩
  · rcases List.cons_eq_append_iff.1 h with ⟨rfl, hop⟩ | ⟨as', rfl, hys⟩
    · simp only [List.cons.injEq] at hop
      exact (hright hop.1 hop.2.symm).elim
    · exact .inr ⟨as', a, between, b, after, hys, hnone, hab, hbetween⟩
  · rcases List.cons_eq_append_iff.1 h with ⟨rfl, hop⟩ | ⟨cs', rfl, hbs⟩
    · simp only [List.cons.injEq] at hop
      exact (hright hop.1.symm hop.2).elim
    · have ha : a ∈ before ++ a :: cs' := by simp
      rcases List.append_eq_append_iff.1 hbs with ⟨ds, rfl, h'⟩ | ⟨es, rfl, h'⟩
      · rcases List.cons_eq_append_iff.1 h' with ⟨rfl, hop⟩ | ⟨ds', rfl, -⟩
        · simp only [List.cons.injEq] at hop
          exact (hleft hop.1.symm ha).elim
        · exact .inl ⟨before, a, between, b, ds', rfl, hnone, hab, hbetween⟩
      · rcases List.cons_eq_append_iff.1 h' with ⟨rfl, hop⟩ | ⟨es', rfl, -⟩
        · simp only [List.cons.injEq] at hop
          exact (hleft hop.1 ha).elim
        · have := hbetween op (by simp)
          rcases hx a ha with hlt | ⟨heq, -⟩ <;> omega

/-- Terms joined by operators. -/
inductive OperatorTree where
  | leaf (t : Term)
  | node (left : OperatorTree) (op : Operator) (right : OperatorTree)

namespace OperatorTree

/-- The query that a tree stands for. -/
def query : OperatorTree → Query
  | .leaf t => Query.ofTerm t
  | .node left op right => Query.binary left.query op right.query

def first : OperatorTree → Term
  | .leaf t => t
  | .node left _ _ => left.first

/-- The operators of a tree from the left to the right, each with the operand behind it. -/
def rest : OperatorTree → List (Operator × Term)
  | .leaf _ => []
  | .node left op right => left.rest ++ (op, right.first) :: right.rest

def ops (t : OperatorTree) : List Operator :=
  t.rest.map Prod.fst

@[simp] theorem ops_leaf (t : Term) : (leaf t).ops = [] := rfl

@[simp] theorem ops_node (left : OperatorTree) (op : Operator) (right : OperatorTree) :
    (node left op right).ops = left.ops ++ op :: right.ops := by
  simp [ops, rest]

/-- Whether a tree may stand on a side of an operator: it is an operand, or its own operator binds tighter, or as
tightly and the operator associates to that side. -/
def Fits (side : Associativity) (op : Operator) : OperatorTree → Prop
  | .leaf _ => True
  | .node _ o _ => op.precedence < o.precedence ∨ op.precedence = o.precedence ∧ op.associativity = side

/-- Everything in a tree stands where precedence and associativity want it. -/
def Grouped : OperatorTree → Prop
  | .leaf _ => True
  | .node left op right => left.Fits .left op ∧ right.Fits .right op ∧ left.Grouped ∧ right.Grouped

/-! ## The operators below an operator -/

theorem Grouped.fits_all : ∀ {t : OperatorTree}, t.Grouped → ∀ {side : Associativity} {op : Operator}, t.Fits side op →
    ∀ o ∈ t.ops, op.precedence < o.precedence ∨ op.precedence = o.precedence ∧ op.associativity = side
  | .leaf _, _, _, _, _, o, ho => by simp at ho
  | .node left root right, ⟨hl, hr, hgl, hgr⟩, side, op, hfit, o, ho => by
    have hroot : root.precedence ≤ o.precedence := by
      rw [ops_node, List.mem_append, List.mem_cons] at ho
      rcases ho with ho | rfl | ho
      · rcases hgl.fits_all hl o ho with h | h <;> omega
      · exact Nat.le_refl _
      · rcases hgr.fits_all hr o ho with h | h <;> omega
    rcases hfit with h | ⟨h, hside⟩
    · exact .inl (by omega)
    · by_cases ho : op.precedence = o.precedence
      · exact .inr ⟨ho, hside⟩
      · exact .inl (by omega)

theorem fits_of_all {t : OperatorTree} {side : Associativity} {op : Operator}
    (h : ∀ o ∈ t.ops, op.precedence < o.precedence ∨ op.precedence = o.precedence ∧ op.associativity = side) :
    t.Fits side op := by
  cases t with
  | leaf t => trivial
  | node left o right => exact h o (by simp)

/-! ## No clash -/

/-- **A row with a clash has no grouped tree.** -/
theorem Grouped.not_clash : ∀ {t : OperatorTree}, t.Grouped → ¬ Clash t.ops
  | .leaf _, _, ⟨before, a, between, b, after, h, _⟩ => by simp at h
  | .node left op right, ⟨hl, hr, hgl, hgr⟩, h => by
    rw [ops_node] at h
    rcases h.of_split (hgl.fits_all hl) (hgr.fits_all hr) with h | h
    · exact hgl.not_clash h
    · exact hgr.not_clash h

/-! ## Uniqueness -/

/-- Of two operators, each above the other in a grouped tree of its own, there is only one. -/
theorem not_above_each_other {o o' : Operator} {side side' : Associativity} (hside : side ≠ side')
    (h : o.precedence < o'.precedence ∨ o.precedence = o'.precedence ∧ o.associativity = side)
    (h' : o'.precedence < o.precedence ∨ o'.precedence = o.precedence ∧ o'.associativity = side') : False := by
  rcases h with h | ⟨h, ho⟩
  · rcases h' with h' | ⟨h', -⟩ <;> omega
  · rcases h' with h' | ⟨-, ho'⟩
    · omega
    · rw [← Operator.associativity_congr h] at ho'
      exact hside (ho.symm.trans ho')

/-- **A row has at most one grouped tree.** -/
theorem Grouped.unique : ∀ {t t' : OperatorTree}, t.Grouped → t'.Grouped → t.first = t'.first → t.rest = t'.rest →
    t = t'
  | .leaf _, .leaf _, _, _, hfirst, _ => by
    simp only [first] at hfirst
    rw [hfirst]
  | .leaf _, .node _ _ _, _, _, _, hrest => by simp [rest] at hrest
  | .node _ _ _, .leaf _, _, _, _, hrest => by simp [rest] at hrest
  | .node left op right, .node left' op' right', ⟨hl, hr, hgl, hgr⟩, ⟨hl', hr', hgl', hgr'⟩, hfirst, hrest => by
    simp only [first] at hfirst
    simp only [rest] at hrest
    rcases List.append_eq_append_iff.1 hrest with ⟨as, has, h⟩ | ⟨cs, hcs, h⟩
    · cases as with
      | nil =>
        simp only [List.nil_append, List.cons.injEq, Prod.mk.injEq, List.append_nil] at h has
        rw [hgl.unique hgl' hfirst has.symm, h.1.1, hgr.unique hgr' h.1.2 h.2]
      | cons a as =>
        simp only [List.cons_append, List.cons.injEq] at h
        have hop : op ∈ left'.ops := by simp [ops, has, ← h.1]
        have hop' : op' ∈ right.ops := by simp [ops, h.2]
        exact (not_above_each_other (by decide) (hgl'.fits_all hl' op hop) (hgr.fits_all hr op' hop')).elim
    · cases cs with
      | nil =>
        simp only [List.nil_append, List.cons.injEq, Prod.mk.injEq, List.append_nil] at h hcs
        rw [hgl.unique hgl' hfirst hcs, h.1.1, hgr.unique hgr' h.1.2.symm h.2.symm]
      | cons c cs =>
        simp only [List.cons_append, List.cons.injEq] at h
        have hop' : op' ∈ left.ops := by simp [ops, hcs, ← h.1]
        have hop : op ∈ right'.ops := by simp [ops, h.2]
        exact (not_above_each_other (by decide) (hgl.fits_all hl op' hop') (hgr'.fits_all hr' op hop)).elim

end OperatorTree

end DefTable

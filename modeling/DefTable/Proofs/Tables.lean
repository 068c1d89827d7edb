import Mathlib.Data.List.Nodup
import DefTable.Table

/-!
# Tables and their entries

A table is known by what it has under each key: the order of its entries does not count (`get?_eq_of_perm`), and a list
of entries with distinct keys is the list of entries of its table (`entries_ofList`). Listed by its keys, it is the same
list whenever it has the same content (`sorted_eq_of_get?_eq`), and the keys increase (`sorted_pairwise`).
-/

namespace DefTable.Table

variable {α : Type}

theorem lookup_eq_some_iff {key : String} {a : α} : ∀ {es : List (String × α)}, (es.map Prod.fst).Nodup →
    (es.lookup key = some a ↔ (key, a) ∈ es)
  | [], _ => by simp
  | (k, b) :: es, h => by
    rw [List.map_cons, List.nodup_cons] at h
    rw [List.lookup_cons, List.mem_cons]
    by_cases hk : key = k
    · subst hk
      have hnot : (key, a) ∉ es := fun hmem => h.1 (List.mem_map.2 ⟨_, hmem, rfl⟩)
      simp [hnot, eq_comm]
    · have hb : (key == k) = false := by simpa using hk
      rw [hb, lookup_eq_some_iff h.2]
      simp [hk]

theorem get?_eq_some_iff (t : Table α) {key : String} {a : α} : t.get? key = some a ↔ (key, a) ∈ t.entries :=
  lookup_eq_some_iff t.nodup

theorem get?_eq_of_perm {t u : Table α} (h : t.entries.Perm u.entries) (key : String) : t.get? key = u.get? key :=
  Option.ext fun a => by rw [get?_eq_some_iff, get?_eq_some_iff, h.mem_iff]

theorem sorted_perm (t : Table α) : t.sorted.Perm t.entries :=
  List.mergeSort_perm _ _

/-- The table with its entries in the order of their keys. -/
def sort (t : Table α) : Table α :=
  ⟨t.sorted, (t.sorted_perm.map Prod.fst).nodup_iff.2 t.nodup⟩

@[simp] theorem entries_sort (t : Table α) : t.sort.entries = t.sorted := rfl

@[simp] theorem get?_sort (t : Table α) (key : String) : t.sort.get? key = t.get? key :=
  get?_eq_of_perm t.sorted_perm key

theorem ext {t u : Table α} (h : t.entries = u.entries) : t = u := by
  cases t
  cases u
  cases h
  rfl

/-! ## Tables of lists -/

theorem alterEntries_of_not_mem {key : String} {f : Option α → α} : ∀ {es : List (String × α)},
    key ∉ es.map Prod.fst → alterEntries key f es = es ++ [(key, f none)]
  | [], _ => rfl
  | (k, b) :: es, h => by
    rw [List.map_cons, List.mem_cons, not_or] at h
    rw [alterEntries, if_neg (Ne.symm h.1), alterEntries_of_not_mem h.2, List.cons_append]

theorem entries_foldl_insert : ∀ (es : List (String × α)) (t : Table α),
    (t.entries.map Prod.fst ++ es.map Prod.fst).Nodup →
      (es.foldl (fun t e => t.insert e.1 e.2) t).entries = t.entries ++ es
  | [], t, _ => by rw [List.foldl_nil, List.append_nil]
  | (key, a) :: es, t, h => by
    have hkey : key ∉ t.entries.map Prod.fst := fun hmem =>
      (List.nodup_append.1 h).2.2 key hmem key List.mem_cons_self rfl
    have hins : (t.insert key a).entries = t.entries ++ [(key, a)] := alterEntries_of_not_mem hkey
    rw [List.foldl_cons, entries_foldl_insert es (t.insert key a), hins, List.append_assoc, List.singleton_append]
    rw [hins, List.map_append, List.append_assoc]
    exact h

theorem entries_ofList {es : List (String × α)} (h : (es.map Prod.fst).Nodup) : (ofList es).entries = es :=
  entries_foldl_insert es empty h

theorem ofList_sorted (t : Table α) : ofList t.sorted = t.sort :=
  ext (entries_ofList t.sort.nodup)

/-! ## Tables of the same content -/

theorem mem_keys_iff (t : Table α) (key : String) : key ∈ t.entries.map Prod.fst ↔ (t.get? key).isSome = true := by
  rw [Option.isSome_iff_exists, List.mem_map]
  constructor
  · rintro ⟨e, he, rfl⟩
    exact ⟨e.2, (get?_eq_some_iff t).2 he⟩
  · rintro ⟨a, ha⟩
    exact ⟨(key, a), (get?_eq_some_iff t).1 ha, rfl⟩

theorem nodup_entries (t : Table α) : t.entries.Nodup :=
  t.nodup.of_map Prod.fst

/-- Tables with the same under each key have the same entries, in one order or another. -/
theorem perm_of_get?_eq {t u : Table α} (h : ∀ key, t.get? key = u.get? key) : t.entries.Perm u.entries := by
  refine (List.perm_ext_iff_of_nodup t.nodup_entries u.nodup_entries).2 fun e => ?_
  rw [← get?_eq_some_iff t, ← get?_eq_some_iff u, h]

theorem lookup_cons_eq (k : String) (e : String × α) (es : List (String × α)) :
    (e :: es).lookup k = if k = e.1 then some e.2 else es.lookup k := by
  rw [List.lookup_cons]
  by_cases hk : k = e.1
  · rw [if_pos hk, beq_iff_eq.2 hk]
  · rw [if_neg hk, beq_eq_false_iff_ne.2 hk]

theorem lookup_alterEntries {key k : String} {f : Option α → α} : ∀ es : List (String × α),
    (alterEntries key f es).lookup k = if k = key then some (f (es.lookup key)) else es.lookup k
  | [] => by rw [alterEntries, lookup_cons_eq, List.lookup_nil, List.lookup_nil]
  | e :: es => by
    rw [alterEntries, lookup_cons_eq key, lookup_cons_eq k e]
    by_cases he : e.1 = key
    · subst he
      rw [if_pos rfl, if_pos rfl, lookup_cons_eq]
      by_cases hk : k = e.1
      · rw [if_pos hk, if_pos hk]
      · rw [if_neg hk, if_neg hk, if_neg hk]
    · rw [if_neg he, if_neg (Ne.symm he), lookup_cons_eq, lookup_alterEntries es]
      by_cases hk : k = e.1
      · have hne : k ≠ key := fun h => he (hk.symm.trans h)
        rw [if_pos hk, if_neg hne, if_pos hk]
      · rw [if_neg hk, if_neg hk]

/-- **A table with another value under one key** has that value there, and under other keys what it had. -/
theorem get?_alter (t : Table α) (key k : String) (f : Option α → α) :
    (t.alter key f).get? k = if k = key then some (f (t.get? key)) else t.get? k :=
  lookup_alterEntries t.entries

/-! ## Entries by their keys -/

/-- **The entries of a table by their keys** come with keys that increase. -/
theorem sorted_pairwise (t : Table α) : t.sorted.Pairwise fun a b => a.1 < b.1 := by
  have htrans : ∀ a b c : String × α, decide (a.1 ≤ b.1) = true → decide (b.1 ≤ c.1) = true →
      decide (a.1 ≤ c.1) = true := by
    intro a b c hab hbc
    exact decide_eq_true (String.le_trans (of_decide_eq_true hab) (of_decide_eq_true hbc))
  have htotal : ∀ a b : String × α, (decide (a.1 ≤ b.1) || decide (b.1 ≤ a.1)) = true := by
    intro a b
    rw [Bool.or_eq_true, decide_eq_true_eq, decide_eq_true_eq]
    exact String.le_total a.1 b.1
  have hle : t.sorted.Pairwise fun a b => decide (a.1 ≤ b.1) = true := List.pairwise_mergeSort htrans htotal t.entries
  have hne : t.sorted.Pairwise fun a b => a.1 ≠ b.1 := List.pairwise_map.1 t.sort.nodup
  refine hle.imp₂ (fun a b hab hne => ?_) hne
  refine String.not_le.1 fun hba => hne ?_
  exact String.le_antisymm (of_decide_eq_true hab) hba

/-- Entries whose keys increase are those of the table in the order of its keys, once they are the same entries. -/
theorem sorted_eq_of_perm {t : Table α} {es : List (String × α)} (hes : es.Pairwise fun a b => a.1 < b.1)
    (h : es.Perm t.entries) : t.sorted = es := by
  refine List.Perm.eq_of_pairwise (fun a b _ _ hab hba => ?_) t.sorted_pairwise hes (t.sorted_perm.trans h.symm)
  exact absurd hab (String.lt_asymm hba)

/-- **Tables of the same content list the same entries by their keys**, whatever the order of their own entries. -/
theorem sorted_eq_of_get?_eq {t u : Table α} (h : ∀ key, t.get? key = u.get? key) : t.sorted = u.sorted :=
  sorted_eq_of_perm u.sorted_pairwise (u.sorted_perm.trans (perm_of_get?_eq h).symm)
end DefTable.Table

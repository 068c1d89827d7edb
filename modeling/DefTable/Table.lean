/-!
# Tables

Values under string keys. A table has at most one value for a key, and lists its keys in the order in which they came
first. `Table.sorted` lists them by code points, which no longer depends on that order.
-/

namespace DefTable

/-- Values under string keys. -/
structure Table (α : Type) where
  entries : List (String × α)
  nodup : (entries.map Prod.fst).Nodup

namespace Table

variable {α : Type}

def empty : Table α := ⟨[], List.nodup_nil⟩

def get? (t : Table α) (key : String) : Option α :=
  t.entries.lookup key

/-- Entries with another value under one key, which is computed from the one before. -/
def alterEntries (key : String) (f : Option α → α) : List (String × α) → List (String × α)
  | [] => [(key, f none)]
  | e :: es => if e.1 = key then (key, f (some e.2)) :: es else e :: alterEntries key f es

theorem mem_keys_alterEntries {key k : String} {f : Option α → α} : ∀ {es : List (String × α)},
    k ∈ (alterEntries key f es).map Prod.fst ↔ k = key ∨ k ∈ es.map Prod.fst
  | [] => by simp [alterEntries]
  | e :: es => by
    unfold alterEntries
    split
    · next h => subst h; simp
    · simp only [List.map_cons, List.mem_cons, mem_keys_alterEntries]
      rw [or_left_comm]

theorem nodup_alterEntries {key : String} {f : Option α → α} : ∀ {es : List (String × α)},
    (es.map Prod.fst).Nodup → ((alterEntries key f es).map Prod.fst).Nodup
  | [], _ => by simp [alterEntries]
  | e :: es, h => by
    rw [List.map_cons, List.nodup_cons] at h
    unfold alterEntries
    split
    · next he => subst he; rw [List.map_cons, List.nodup_cons]; exact h
    · next he =>
      rw [List.map_cons, List.nodup_cons, mem_keys_alterEntries]
      exact ⟨fun hmem => hmem.elim he h.1, nodup_alterEntries h.2⟩

/-- The table with another value under one key, which is computed from the one before. -/
def alter (t : Table α) (key : String) (f : Option α → α) : Table α :=
  ⟨alterEntries key f t.entries, nodup_alterEntries t.nodup⟩

/-- The table with a value under a key. -/
def insert (t : Table α) (key : String) (a : α) : Table α :=
  t.alter key fun _ => a

/-- The table of a list of entries, of which the last one with a key counts. -/
def ofList (es : List (String × α)) : Table α :=
  es.foldl (fun t e => t.insert e.1 e.2) empty

def isEmpty (t : Table α) : Bool :=
  t.entries.isEmpty

/-- The entries of a table by their keys. -/
def sorted (t : Table α) : List (String × α) :=
  t.entries.mergeSort fun a b => decide (a.1 ≤ b.1)

end Table

end DefTable

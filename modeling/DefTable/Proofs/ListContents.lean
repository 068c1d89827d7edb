import DefTable.Proofs.Refusals
import DefTable.Settings

/-!
# Contents of lists

What is wrong inside of a literal is wrong with it as the item of a list, too (`refused_in_list`). Only the text as a
whole is another one: a literal that is refused because its own text is no expression is accepted in a list if the text
of the list is one, and that happens (`refused_alone`).
-/

namespace DefTable.Literal

section
variable {rules : Rules} {style : Style} {key : String} {l : Literal}

theorem sites_singleton : (vec [l]).sites style = l.sites style := by
  rw [sites, sitesOfAll, sitesOfAll, List.append_nil]

theorem written_singleton : (vec [l]).written style = "vec![" ++ l.written style ++ "]" := by
  rw [written, writtenAll, writtenAll, commas]

theorem permitted_singleton (h : ∀ p, WrittenIn style p l → p.Permitted rules) :
    ∀ p, WrittenIn style p (vec [l]) → p.Permitted rules := by
  intro p hp
  rcases writtenIn_vec.1 hp with rfl | ⟨l', hl', hitem⟩
  · trivial
  · obtain rfl := List.mem_singleton.1 hl'
    exact h p hitem

theorem refusal_ne_invalidEntry (site : Site) (k reason : String) : site.refusal key ≠ .invalidEntry k reason := by
  cases site <;> nofun

/-- Why the only entry of a table is refused. -/
theorem refused_singleton {type : String} {err : RenderError} (h : Refused rules style (map type [(key, l)]) err) :
    (∃ reason, rules.typeFault? (style.strippedType type) = some reason ∧
        err = .invalidType (style.strippedType type) reason) ∨
      (rules.typeFault? (style.strippedType type) = none ∧ EntryRefused rules style (key, l) err) := by
  generalize hentries : [(key, l)] = entries at h
  cases h with
  | notTable h => exact absurd rfl (h type entries)
  | type _ htype => exact .inl ⟨_, htype, rfl⟩
  | @entry _ before e after _ htype hbefore he =>
    cases before with
    | nil =>
      cases hentries
      exact .inr ⟨htype, he⟩
    | cons b before => simp at hentries

/-- A table with one entry is refused as the entry is. -/
theorem renderBy_of_entryRefused {type : String} {err : RenderError}
    (htype : rules.typeFault? (style.strippedType type) = none) (h : EntryRefused rules style (key, l) err) :
    (map type [(key, l)]).renderBy rules style = .error err := by
  have hbefore : ∀ b ∈ ([] : List (String × Literal)), EntryPermitted rules style b := nofun
  exact renderBy_of_refused (.entry [] htype hbefore h)

/-- A list whose item is permitted in all its parts depends on its text only. -/
theorem renderBy_vec_of_permitted {type : String} (htype : rules.typeFault? (style.strippedType type) = none)
    (hparts : ∀ p, WrittenIn style p l → p.Permitted rules) :
    (map type [(key, vec [l])]).renderBy rules style =
      match rules.expressionFault? ("vec![" ++ l.written style ++ "]") with
      | none => .ok ⟨style.strippedType type, [(key, "vec![" ++ l.written style ++ "]")]⟩
      | some reason => .error (.invalidEntry key reason) := by
  have hlist := permitted_singleton hparts
  rw [← written_singleton]
  cases hwhole : rules.expressionFault? ((vec [l]).written style) with
  | none => exact renderBy_of_permitted ⟨htype, List.forall_mem_singleton.2 ⟨hlist, hwhole⟩⟩
  | some reason => exact renderBy_of_entryRefused htype (.whole hlist hwhole)

end

/-- **What is wrong with an entry is still wrong with it as the item of a list**, and refused with the same error, unless
the entry is refused because its text as a whole is no expression. Then the text of the list decides: the list is
accepted if that is an expression, and else refused for what is wrong with it. -/
theorem refused_in_list {rules : Rules} {style : Style} {type key : String} {l : Literal} {err : RenderError}
    (h : (map type [(key, l)]).renderBy rules style = .error err) :
    ((∀ k reason, err ≠ .invalidEntry k reason) → (map type [(key, vec [l])]).renderBy rules style = .error err) ∧
      ∀ k reason, err = .invalidEntry k reason →
        k = key ∧ rules.expressionFault? (l.written style) = some reason ∧
          (map type [(key, vec [l])]).renderBy rules style =
            match rules.expressionFault? ("vec![" ++ l.written style ++ "]") with
            | none => .ok ⟨style.strippedType type, [(key, "vec![" ++ l.written style ++ "]")]⟩
            | some reason => .error (.invalidEntry key reason) := by
  rcases refused_singleton (renderBy_eq_error_iff.1 h) with ⟨reason, htype, rfl⟩ | ⟨htype, hentry⟩
  · exact ⟨fun _ => renderBy_of_refused (.type _ htype), nofun⟩
  · cases hentry with
    | site hsites hbefore hsite =>
      have hlist := EntryRefused.site (e := (key, vec [l])) (sites_singleton.trans hsites) hbefore hsite
      exact ⟨fun _ => renderBy_of_entryRefused htype hlist, fun k reason heq =>
        absurd heq (refusal_ne_invalidEntry _ k reason)⟩
    | whole hparts hwhole =>
      refine ⟨fun hne => absurd rfl (hne _ _), ?_⟩
      rintro k reason ⟨⟩
      exact ⟨rfl, hwhole, renderBy_vec_of_permitted htype hparts⟩

/-- A table in a record is refused in a list too, as an error of the entry that the list stands in. -/
theorem refused_in_list_table :
    let l := record "a::B" [("c", call "Some" [map "T" []])] true
    (map "T" [("k", l)]).renderBy Target.rules Settings.default.style = .error (.nestedTable "k") ∧
      (map "T" [("k", vec [l])]).renderBy Target.rules Settings.default.style = .error (.nestedTable "k") := by
  intro l
  have h : (map "T" [("k", l)]).renderBy Target.rules Settings.default.style = .error (.nestedTable "k") := by
    decide +kernel
  exact ⟨h, (refused_in_list h).1 nofun⟩

/-- **An entry that is refused may be accepted as the item of a list**: the word `try` alone is no expression. -/
theorem refused_alone :
    (∃ reason, (map "T" [("k", path "try")]).renderBy Target.rules Settings.default.style =
        .error (.invalidEntry "k" reason)) ∧
      (map "T" [("k", vec [path "try"])]).renderBy Target.rules Settings.default.style =
        .ok ⟨"T", [("k", "vec![try]")]⟩ := by
  refine ⟨⟨"expected an expression", ?_⟩, ?_⟩ <;> decide +kernel

end DefTable.Literal

import Mathlib.Data.List.Nodup
import SuffixLint.Proofs.Toml.Grammar
/-!
# Tables made by headers and pairs

A header opens a table, and each pair behind it goes into that table. So behind every statement the
tables are those that came before, and the one that was opened last with the pairs so far
(`step_openTable`, `step_pair`). With different names for the tables and different keys in each, no
statement is in the way of another (`documentOf_statementsOf`).
-/

namespace SuffixLint.Toml

/-! ## Entries -/

namespace Entries

variable {es : Entries} {k : String} {n : Node}

theorem get?_eq_none (h : k ∉ es.map Prod.fst) : es.get? k = none := by
  refine List.lookup_eq_none_iff.mpr fun e he => bne_iff_ne.mpr ?_
  rintro rfl
  exact h (List.mem_map_of_mem he)

/-- What has been added last is found. -/
theorem get?_append_self (h : k ∉ es.map Prod.fst) : get? (es ++ [(k, n)]) k = some n := by
  have hbefore : es.lookup k = none := get?_eq_none h
  rw [get?, List.lookup_append, hbefore, Option.none_or, List.lookup_cons_self]

/-- What has been added last is changed alone. -/
theorem set_append_self (h : k ∉ es.map Prod.fst) (m : Node) :
    set (es ++ [(k, n)]) k m = es ++ [(k, m)] := by
  have hbefore : es.map (fun e => if e.1 = k then (k, m) else e) = es.map id := by
    refine List.map_congr_left fun e he => if_neg ?_
    rintro rfl
    exact h (List.mem_map_of_mem he)
  rw [List.map_id] at hbefore
  rw [set, List.map_append, hbefore, List.map_singleton, if_pos rfl]

end Entries

/-! ## Statements -/

/-- The entry of a table that a header and pairs have made. -/
def nodeOf (t : String × List (String × Json)) : String × Node :=
  (t.1, .table .header (t.2.map fun m => (m.1, .value m.2)))

/-- A header adds an empty table, which is the one that is open from then on. -/
theorem step_openTable {root : Entries} {k : String} (h : k ∉ root.map Prod.fst)
    (header : List String) :
    Progress.step ⟨root, header⟩ (.openTable ([], k)) = some ⟨root ++ [nodeOf (k, [])], [k]⟩ := by
  have hopen : Entries.openTable k .header root = some (root ++ [nodeOf (k, [])]) := by
    rw [Entries.openTable, Entries.get?_eq_none h]
    rfl
  rw [Progress.step, Entries.within, hopen, Option.map_some, List.nil_append]

/-- A pair is added to the table that is open. -/
theorem step_pair {before : Entries} {name : String} {ms : List (String × Json)} {k : String}
    (hname : name ∉ before.map Prod.fst) (hk : k ∉ ms.map Prod.fst) (v : Json) :
    Progress.step ⟨before ++ [nodeOf (name, ms)], [name]⟩ (.pair ([], k) v) =
      some ⟨before ++ [nodeOf (name, ms ++ [(k, v)])], [name]⟩ := by
  have hfree : Entries.get? (ms.map fun m => (m.1, .value m.2)) k = none := by
    apply Entries.get?_eq_none
    rw [List.map_map]
    exact hk
  have hinsert : Entries.insert ([], k) v (ms.map fun m => (m.1, .value m.2)) =
      some ((ms ++ [(k, v)]).map fun m => (m.1, .value m.2)) := by
    rw [Entries.insert, Entries.within, Entries.addValue, if_neg (fun h => nomatch h.1), hfree,
      Option.isSome_none, if_neg Bool.false_ne_true, Entries.add, List.map_append,
      List.map_singleton]
  have hwithin : Entries.within .way (fun _ es => es.insert ([], k) v) [name] .header
      (before ++ [nodeOf (name, ms)]) = some (before ++ [nodeOf (name, ms ++ [(k, v)])]) := by
    rw [nodeOf, Entries.within, Entries.get?_append_self hname]
    simp only [reduceCtorEq, false_and, if_false, Entries.within, hinsert, Option.map_some,
      Entries.set_append_self hname]
    rfl
  rw [Progress.step, hwithin, Option.map_some]

/-- With different keys, a key is none of those before it. -/
theorem fst_not_mem_of_nodup {α : Type} {xs ys : List (String × α)} {x : String × α}
    (h : ((xs ++ x :: ys).map Prod.fst).Nodup) : x.1 ∉ xs.map Prod.fst := by
  rw [List.map_append, List.map_cons, List.nodup_middle, List.nodup_cons] at h
  exact fun hx => h.1 (List.mem_append_left _ hx)

/-- The pairs of a table are added to it in their order. -/
theorem foldlM_pairs {before : Entries} {name : String} (hname : name ∉ before.map Prod.fst)
    (ms : List (String × Json)) {ps : List (String × Json)}
    (h : ((ms ++ ps).map Prod.fst).Nodup) :
    (ps.map fun m => Statement.pair ([], m.1) m.2).foldlM Progress.step
        ⟨before ++ [nodeOf (name, ms)], [name]⟩ =
      some ⟨before ++ [nodeOf (name, ms ++ ps)], [name]⟩ := by
  induction ps generalizing ms with
  | nil =>
    rw [List.append_nil]
    rfl
  | cons p ps ih =>
    have hk : p.1 ∉ ms.map Prod.fst := fst_not_mem_of_nodup h
    rw [List.append_cons ms] at h ⊢
    rw [List.map_cons, List.foldlM_cons, step_pair hname hk, Option.bind_eq_bind, Option.bind_some]
    exact ih _ h

/-- Tables are made one after the other, each with its own pairs. -/
theorem foldlM_tables (done : List (String × List (String × Json)))
    {tables : List (String × List (String × Json))} (h : ((done ++ tables).map Prod.fst).Nodup)
    (hkeys : ∀ t ∈ tables, (t.2.map Prod.fst).Nodup) (header : List String) :
    ∃ header', (statementsOf tables).foldlM Progress.step ⟨done.map nodeOf, header⟩ =
      some ⟨(done ++ tables).map nodeOf, header'⟩ := by
  induction tables generalizing done header with
  | nil =>
    rw [List.append_nil]
    exact ⟨header, rfl⟩
  | cons t tables ih =>
    obtain ⟨ht, hkeys⟩ := List.forall_mem_cons.mp hkeys
    have hname : t.1 ∉ (done.map nodeOf).map Prod.fst := by
      rw [List.map_map]
      exact fst_not_mem_of_nodup h
    rw [List.append_cons done] at h ⊢
    have hpairs := foldlM_pairs hname [] ht
    obtain ⟨header', hrest⟩ := ih _ h hkeys [t.1]
    refine ⟨header', ?_⟩
    rw [← hrest, statementsOf, List.flatMap_cons, List.cons_append, List.foldlM_cons,
      step_openTable hname, Option.bind_eq_bind, Option.bind_some, List.foldlM_append, hpairs,
      Option.bind_eq_bind, Option.bind_some, List.map_append]
    rfl

theorem membersOf_values (ms : List (String × Json)) :
    membersOf (ms.map fun m => (m.1, .value m.2)) = ms := by
  induction ms with
  | nil => rfl
  | cons m ms ih =>
    rw [List.map_cons, membersOf, ih, Node.toJson]

theorem membersOf_nodes (tables : List (String × List (String × Json))) :
    membersOf (tables.map nodeOf) = tables.map fun t => (t.1, .object t.2) := by
  induction tables with
  | nil => rfl
  | cons t tables ih =>
    rw [List.map_cons, nodeOf, membersOf, ih, Node.toJson, membersOf_values, List.map_cons]

/-- **Tables with different names, each with different keys, come out as they are.** -/
theorem documentOf_statementsOf {tables : List (String × List (String × Json))}
    (h : (tables.map Prod.fst).Nodup) (hkeys : ∀ t ∈ tables, (t.2.map Prod.fst).Nodup) :
    documentOf (statementsOf tables) = some (.object (tables.map fun t => (t.1, .object t.2))) := by
  obtain ⟨header, hmade⟩ := foldlM_tables [] h hkeys []
  rw [List.map_nil, List.nil_append] at hmade
  rw [documentOf, hmade, Option.map_some, membersOf_nodes]

end SuffixLint.Toml

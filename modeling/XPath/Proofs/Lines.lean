import Mathlib
import XPath.Proofs.Outcome
import XPath.Proofs.Xml.Spelling
import XPath.Query

/-!
# The lines of a result

A node-set is written as its nodes with a line feed between any two, and each node as it is.  The
kind and the name of a node have no line feed in them, but the text that it stands for may have any
number: a node takes one line, and one more for each of them.

* `Text.lines`, `Text.length_lines`: the lines of a text, and how many there are;
* `Text.lines_intercalate`: the lines of texts with a line feed between any two;
* `Text.flatMap_lines_eq_iff`: texts of one line each;
* `NodeRecord.count_toText`: the line feeds in a node as text;
* `query_lines`: the lines of a node-set that is the result of a query.
-/

namespace XPath

/-! ### Lines -/

namespace Text

/-- The lines of a text: what stands between its line feeds. -/
def lines (s : String) : List String :=
  (s.toList.splitOn '\n').map String.ofList

theorem lines_append (s t : String) : lines (s ++ "\n" ++ t) = lines s ++ lines t := by
  have hlist : (s ++ "\n" ++ t).toList = s.toList ++ '\n' :: t.toList := by
    simp [String.toList_append]
  rw [lines, hlist, List.splitOn_append_cons_self, List.map_append]
  rfl

/-- The lines of texts with a line feed between any two are the lines of each. -/
theorem lines_intercalate {ts : List String} (h : ts ≠ []) :
    lines ("\n".intercalate ts) = ts.flatMap lines := by
  induction ts with
  | nil => exact absurd rfl h
  | cons t ts ih =>
    by_cases hts : ts = []
    · rw [hts, String.intercalate_singleton, List.flatMap_singleton]
    · rw [String.intercalate_cons_of_ne_nil hts, lines_append, ih hts, List.flatMap_cons]

theorem length_splitOn (cs : List Char) : (cs.splitOn '\n').length = cs.count '\n' + 1 := by
  induction cs with
  | nil => rw [List.splitOn_nil, List.count_nil, List.length_singleton]
  | cons c cs ih =>
    rw [List.splitOn_cons_eq_if_modifyHead, List.count_cons]
    split
    · rw [List.length_cons, ih]
    · rw [List.length_modifyHead, ih]

/-- There is one line more than there are line feeds. -/
theorem length_lines (s : String) : (lines s).length = s.toList.count '\n' + 1 := by
  rw [lines, List.length_map, length_splitOn]

theorem lines_of_not_mem {s : String} (h : '\n' ∉ s.toList) : lines s = [s] := by
  rw [lines, List.splitOn_eq_singleton h, List.map_singleton, String.ofList_toList]

theorem length_flatMap_lines (ts : List String) :
    (ts.flatMap lines).length = ts.length + (ts.map fun t => t.toList.count '\n').sum := by
  induction ts with
  | nil => rfl
  | cons t ts ih =>
    rw [List.flatMap_cons, List.length_append, ih, length_lines, List.length_cons, List.map_cons,
      List.sum_cons]
    omega

/-- Texts are their own lines exactly if none has a line feed. -/
theorem flatMap_lines_eq_iff {ts : List String} :
    ts.flatMap lines = ts ↔ ∀ t ∈ ts, '\n' ∉ t.toList := by
  constructor
  · intro h
    have hlength := length_flatMap_lines ts
    rw [h] at hlength
    have hsum : (ts.map fun t => t.toList.count '\n').sum = 0 := by omega
    rw [List.sum_eq_zero_iff_forall_eq_nat, List.forall_mem_map] at hsum
    exact fun t ht => List.count_eq_zero.1 (hsum t ht)
  · intro h
    induction ts with
    | nil => rfl
    | cons t ts ih =>
      obtain ⟨ht, hts⟩ := List.forall_mem_cons.1 h
      rw [List.flatMap_cons, lines_of_not_mem ht, ih hts, List.singleton_append]

end Text

/-! ### Nodes as text -/

theorem Xml.IsSpelled.not_mem {s : String} (h : Xml.IsSpelled s) : '\n' ∉ s.toList :=
  fun hmem => absurd (h '\n' hmem) (by decide)

namespace NodeRecord

variable {r : NodeRecord}

/-- The line feeds in a node as text are those in the text that it stands for. -/
theorem count_toText (h : ∀ q ∈ r.name, Xml.IsSpelled q.toText) :
    r.toText.toList.count '\n' = r.value.toList.count '\n' := by
  have hlabel : r.kind.label.toList.count '\n' = 0 := by cases r.kind <;> decide
  unfold toText
  cases hname : r.name with
  | none => simp [String.toList_append, List.count_append, hlabel]
  | some q =>
    have hq : q.toText.toList.count '\n' = 0 := List.count_eq_zero.2 (h q hname).not_mem
    simp [String.toList_append, List.count_append, hlabel, hq]

end NodeRecord

/-- The nodes in the result of a query have names that are spelled as such. -/
theorem isSpelled_of_query {options : Options} {text document : String} {rs : List NodeRecord}
    (h : query options text document = .ok (.nodes rs)) :
    ∀ r ∈ rs, ∀ q ∈ r.name, Xml.IsSpelled q.toText := by
  unfold query at h
  obtain ⟨e, -, h⟩ := bind_eq_ok.1 h
  cases hread : Xml.Document.read? document with
  | none => simp [hread] at h
  | some d =>
    rw [hread] at h
    obtain ⟨v, -, h⟩ := bind_eq_ok.1 h
    cases v with
    | nodes ns =>
      simp only [pure, Except.pure, Value.result, Except.ok.injEq, QueryResult.nodes.injEq] at h
      intro r hr q hq
      obtain ⟨n, -, rfl⟩ := List.mem_map.1 (h ▸ hr)
      exact Xml.Document.isSpelled_name hread hq
    | string s => simp [pure, Except.pure, Value.result] at h
    | number x => simp [pure, Except.pure, Value.result] at h
    | boolean b => simp [pure, Except.pure, Value.result] at h

/-- The result of a query that selects some nodes, as text.  Its lines are those of each node alone,
one after the other; there are as many as there are nodes and line feeds in the texts that they
stand for; and each node is one line exactly if there are no such line feeds. -/
theorem query_lines {options : Options} {text document : String} {rs : List NodeRecord}
    (h : query options text document = .ok (.nodes rs)) (hne : rs ≠ []) :
    Text.lines (QueryResult.nodes rs).toText = rs.flatMap (fun r => Text.lines r.toText) ∧
      (Text.lines (QueryResult.nodes rs).toText).length
        = rs.length + (rs.map fun r => r.value.toList.count '\n').sum ∧
      (Text.lines (QueryResult.nodes rs).toText = rs.map NodeRecord.toText ↔
        ∀ r ∈ rs, '\n' ∉ r.value.toList) := by
  have hcount : ∀ r ∈ rs, r.toText.toList.count '\n' = r.value.toList.count '\n' :=
    fun r hr => NodeRecord.count_toText (isSpelled_of_query h r hr)
  have hlines : Text.lines (QueryResult.nodes rs).toText
      = (rs.map NodeRecord.toText).flatMap Text.lines :=
    Text.lines_intercalate (by simpa using hne)
  rw [hlines]
  refine ⟨List.flatMap_map .., ?_, ?_⟩
  · rw [Text.length_flatMap_lines, List.length_map, List.map_map]
    exact congrArg (rs.length + ·.sum) (List.map_congr_left hcount)
  · rw [Text.flatMap_lines_eq_iff, List.forall_mem_map]
    refine forall₂_congr fun r hr => ?_
    rw [← List.count_eq_zero, hcount r hr, List.count_eq_zero]

def QueryResult.records? : QueryResult → Option (List NodeRecord)
  | .nodes rs => some rs
  | _ => none

theorem eq_nodes_of_records? {x : Except QueryError QueryResult} {rs : List NodeRecord}
    (h : x.toOption.bind QueryResult.records? = some rs) : x = .ok (.nodes rs) := by
  obtain ⟨result, hresult, h⟩ := Option.bind_eq_some_iff.1 h
  cases x with
  | error e => cases hresult
  | ok result' =>
    cases hresult
    cases result with
    | nodes rs' => exact congrArg (Except.ok ∘ QueryResult.nodes) (Option.some.inj h)
    | string s => cases h
    | number x => cases h
    | boolean b => cases h

/-- An element between line feeds, without one inside it. -/
theorem query_lines_inside :
    ∃ rs, query {} "/a/b" "<a>\n<b>x</b>\n</a>" = .ok (.nodes rs) ∧ rs ≠ [] ∧
      Text.lines (QueryResult.nodes rs).toText = rs.map NodeRecord.toText := by
  have h := eq_nodes_of_records? (x := query {} "/a/b" "<a>\n<b>x</b>\n</a>")
    (show _ = some [⟨.element, some ⟨none, "b"⟩, "x"⟩] by decide +kernel)
  exact ⟨_, h, List.cons_ne_nil _ _, (query_lines h (List.cons_ne_nil _ _)).2.2.2 (by decide)⟩

/-- An element with a line feed inside it takes two lines, neither of which is the element as text.
-/
theorem query_line_feed :
    ∃ r, query {} "/a" "<a>x\ny</a>" = .ok (.nodes [r]) ∧ r.toText = "element a\tx\ny" ∧
      Text.lines (QueryResult.nodes [r]).toText = ["element a\tx", "y"] :=
  ⟨⟨.element, some ⟨none, "a"⟩, "x\ny"⟩, eq_nodes_of_records? (by decide +kernel),
    by decide, by decide⟩

end XPath

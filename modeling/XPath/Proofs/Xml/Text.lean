import Mathlib.Data.List.Basic
import Mathlib.Data.List.Flatten
import Mathlib.Data.List.TakeWhile
import XPath.Proofs.Tree.Direction
import XPath.Proofs.Xml.Names
import XPath.Proofs.Xml.Order

/-!
# The text of a node and the texts below it

The text that an element stands for is made of all runs of text inside it.  The texts on its
descendant axis are those runs that are not white space, in the same order.  White space has the
Unicode property here, so a run that is dropped may hold a character that is no white space of
markup, such as a no-break space.

* `Text.without`: a text without the characters of a class;
* `Item.runs`, `Document.runs`: the runs of text inside an item, and inside a node;
* `Document.texts_below_eq`: the texts below a node;
* `Document.exists_of_kind`: the text that a node stands for;
* `Document.without_runs_iff`: which classes of characters account for the difference;
* `Document.texts_below`: white space does, and that of markup if each run left out is made of it.
-/

namespace XPath

/-! ### Texts without some characters -/

def Text.without (isIn : Char → Bool) (s : String) : List Char :=
  s.toList.filter fun c => !isIn c

theorem Text.without_join (isIn : Char → Bool) (ss : List String) :
    without isIn (String.join ss) = ss.flatMap (without isIn) := by
  rw [without, String.toList_join, List.filter_flatMap]
  rfl

theorem Text.without_eq_nil {isIn : Char → Bool} {s : String} :
    without isIn s = [] ↔ s.toList.all isIn := by
  simp [without]

def Text.isVisible (s : String) : Bool :=
  !s.toList.all isBlank

theorem Text.isVisible_eq_false {s : String} : isVisible s = false ↔ s.toList.all isBlank := by
  rw [isVisible, Bool.not_eq_false']

/-- Trimming leaves nothing of a text exactly if it is white space throughout. -/
theorem Text.trim_eq_nil {cs : List Char} : trim cs = [] ↔ cs.all isBlank := by
  rw [trim, trimEnd, List.reverse_eq_nil_iff, trimStart, List.dropWhile_eq_nil_iff,
    List.all_eq_true]
  constructor
  · intro h c hc
    rw [← List.takeWhile_append_dropWhile (p := isBlank) (l := cs)] at hc
    rcases List.mem_append.1 hc with hc | hc
    · exact List.mem_takeWhile_imp hc
    · exact h c (List.mem_reverse.2 hc)
  · intro h c hc
    exact h c ((List.dropWhile_sublist isBlank).subset (List.mem_reverse.1 hc))

/-- What is left out by a filter has no image exactly if leaving it out does not change the image of
the list. -/
theorem flatMap_filter_eq_iff {α β : Type} (p : α → Bool) (f : α → List β) (as : List α) :
    (as.filter p).flatMap f = as.flatMap f ↔ ∀ a ∈ as, p a = false → f a = [] := by
  induction as with
  | nil => simp
  | cons a as ih =>
    rw [List.forall_mem_cons, ← ih, List.flatMap_cons]
    by_cases ha : p a
    · rw [List.filter_cons_of_pos ha, List.flatMap_cons, List.append_cancel_left_eq]
      simp [ha]
    · rw [List.filter_cons_of_neg ha]
      constructor
      · intro h
        -- the image of the filtered list is no longer than that of the list
        have hle := ((List.filter_sublist (p := p) (l := as)).flatMap f).length_le
        have hlength := congrArg List.length h
        rw [List.length_append] at hlength
        have hnil : f a = [] := List.length_eq_zero_iff.1 (by omega)
        rw [hnil, List.nil_append] at h
        exact ⟨fun _ => hnil, h⟩
      · rintro ⟨hnil, h⟩
        rw [hnil (by simpa using ha), List.nil_append, h]

/-- A list is gone through by its indices. -/
theorem flatMap_range_length {α β : Type} (as : List α) (f : α → List β) :
    (List.range as.length).flatMap (fun i => as[i]?.elim [] f) = as.flatMap f := by
  induction as with
  | nil => rfl
  | cons a as ih =>
    rw [List.length_cons, List.range_succ_eq_map, List.flatMap_cons, List.flatMap_map,
      List.flatMap_cons]
    exact congrArg (f a ++ ·) ih

namespace Xml

/-! ### Runs of text -/

namespace Item

mutual

/-- The runs of text in an item and in everything inside it. -/
def runs : Item → List String
  | .element _ _ _ content => runsOfAll content
  | .text s => [s]
  | .comment _ => []
  | .instruction _ _ => []

def runsOfAll : List Item → List String
  | [] => []
  | i :: is => runs i ++ runsOfAll is

end

mutual

theorem join_runs : ∀ i : Item, String.join i.runs = i.innerText
  | .element _ _ _ content => join_runsOfAll content
  | .text s => by rw [runs, innerText, String.join_cons, String.join_nil, String.append_empty]
  | .comment _ => String.join_nil
  | .instruction _ _ => String.join_nil

theorem join_runsOfAll : ∀ is : List Item, String.join (runsOfAll is) = innerTexts is
  | [] => String.join_nil
  | i :: is => by rw [runsOfAll, innerTexts, String.join_append, join_runs i, join_runsOfAll is]

end

theorem runsOfAll_eq (is : List Item) : runsOfAll is = is.flatMap runs := by
  induction is with
  | nil => rfl
  | cons i is ih => rw [runsOfAll, ih, List.flatMap_cons]

/-- A text is a child unless it is white space throughout. -/
theorem isChild_text (s : String) : (text s).isChild = Text.isVisible s := by
  have htrim : (Text.trim s.toList).isEmpty = s.toList.all Text.isBlank := by
    rw [Bool.eq_iff_iff, List.isEmpty_iff, Text.trim_eq_nil]
  rw [isChild, htrim, Text.isVisible]

/-- What is no child has no run of text but white space. -/
theorem runs_of_not_isChild {i : Item} (h : i.isChild = false) :
    i.runs.filter Text.isVisible = [] := by
  cases i with
  | text s =>
    rw [isChild_text] at h
    simp [runs, h]
  | element name scope attributes content => simp [isChild] at h
  | comment s => rfl
  | instruction target value => rfl

end Item

/-- The text of the root or of an element is that of the items inside. -/
theorem Referent.stringValue_eq {r : Referent} (h : r.kind = .root ∨ r.kind = .element) :
    r.stringValue = Item.innerTexts r.content := by
  cases r with
  | root content => rfl
  | «attribute» scope a => simp [kind] at h
  | binding b => simp [kind] at h
  | item i =>
    cases i with
    | element name scope attributes content => rfl
    | text s => simp [kind] at h
    | comment s => simp [kind] at h
    | instruction target value => simp [kind] at h

/-! ### The texts below a node -/

namespace Document

variable {d : Document} {n : Location}

/-- The children of a node, one for each item inside that is a child. -/
theorem flatMap_children {α : Type} {r : Referent} (hr : d.at? n = some r) {f : Location → List α}
    {g : Item → List α}
    (h : ∀ i (hi : i < r.childItems.length), f (.child i :: n) = g r.childItems[i]) :
    (d.tree.children n).flatMap f = r.childItems.flatMap g := by
  have hchildren : d.tree.children n
      = (List.range r.childItems.length).map fun i => .child i :: n := by
    show d.links .child (·.childItems.length) n = _
    rw [links, hr, Option.elim]
  rw [hchildren, List.flatMap_map, ← flatMap_range_length r.childItems g]
  refine List.flatMap_congr fun i hi => ?_
  have hlength := List.mem_range.1 hi
  rw [List.getElem?_eq_getElem hlength, Option.elim]
  exact h i hlength

/-- What lies below a child has a smaller measure. -/
theorem height_child_lt {r : Referent} {i : Nat} (hr : d.at? n = some r)
    (hi : i < r.childItems.length) : d.tree.height (.child i :: n) < d.tree.height n :=
  d.tree.height_lt (mem_links.2 ⟨r, i, hr, hi, rfl⟩)

variable (d) in
def texts (ns : List Location) : List String :=
  (ns.filter fun m => d.tree.kind m == .text).map d.tree.stringValue

theorem texts_flatMap (ns : List Location) (f : Location → List Location) :
    d.texts (ns.flatMap f) = ns.flatMap fun m => d.texts (f m) := by
  rw [texts, List.filter_flatMap, List.map_flatMap]
  rfl

theorem texts_cons_text {s : String} (hn : d.at? n = some (.item (.text s))) (ns : List Location) :
    d.texts (n :: ns) = s :: d.texts ns := by
  have hkind : (d.tree.kind n == .text) = true := by
    rw [kind_of_at? hn]
    rfl
  have hvalue : d.tree.stringValue n = s := by
    simp [tree, hn, Referent.stringValue, Item.innerText]
  rw [texts, List.filter_cons_of_pos (p := fun m => d.tree.kind m == .text) hkind, List.map_cons,
    hvalue]
  rfl

theorem texts_cons_of_ne {r : Referent} (hn : d.at? n = some r) (hr : r.kind ≠ .text)
    (ns : List Location) : d.texts (n :: ns) = d.texts ns := by
  rw [← kind_of_at? hn] at hr
  rw [texts, List.filter_cons_of_neg (by simpa using hr)]
  rfl

/-- The texts among the nodes below a node are the runs of text inside it that are not white space.
-/
theorem texts_below_eq {r : Referent} (hr : d.at? n = some r) :
    d.texts (d.tree.below n) = (Item.runsOfAll r.content).filter Text.isVisible := by
  induction hk : d.tree.height n using Nat.strongRecOn generalizing n r with
  | ind k ih =>
    have hchild : ∀ i (hi : i < r.childItems.length),
        d.texts (d.tree.subtree (.child i :: n))
          = (r.childItems[i]).runs.filter Text.isVisible := by
      intro i hi
      have hat := at?_child hr hi
      have hbelow := ih _ (hk ▸ height_child_lt hr hi) hat rfl
      have hmem : (r.childItems[i]).isChild := (List.mem_filter.1 (List.getElem_mem hi)).2
      cases hj : r.childItems[i] with
      | text s =>
        -- a text that is a child is visible, and there is nothing below it
        rw [hj] at hat hbelow hmem
        rw [Tree.subtree, texts_cons_text hat, hbelow, Item.runs, List.filter_cons_of_pos]
        · rfl
        · rw [← Item.isChild_text, hmem]
      | _ =>
        -- what is no text has the runs of the items inside it
        rw [hj] at hat hbelow
        exact (texts_cons_of_ne hat (by simp [Referent.kind]) _).trans hbelow
    rw [Tree.below_eq, texts_flatMap,
      flatMap_children hr (g := fun j => j.runs.filter Text.isVisible) hchild,
      Item.runsOfAll_eq, List.filter_flatMap, Referent.childItems]
    exact (flatMap_filter_eq_iff _ _ _).2 fun j _ hj => Item.runs_of_not_isChild hj

/-! ### The text of a node -/

variable (d n) in
def runs : List String :=
  (d.at? n).elim [] fun r => Item.runsOfAll r.content

/-- The root and every element are found, and their text is made of the runs inside. -/
theorem exists_of_kind (hn : d.tree.kind n = .root ∨ d.tree.kind n = .element) :
    ∃ r, d.at? n = some r ∧ d.runs n = Item.runsOfAll r.content ∧
      d.tree.stringValue n = String.join (d.runs n) := by
  cases hat : d.at? n with
  | none => simp [tree, hat] at hn
  | some r =>
    have hruns : d.runs n = Item.runsOfAll r.content := by simp [runs, hat]
    have hvalue : d.tree.stringValue n = r.stringValue := by simp [tree, hat]
    rw [kind_of_at? hat] at hn
    refine ⟨r, rfl, hruns, ?_⟩
    rw [hvalue, hruns, Item.join_runsOfAll, Referent.stringValue_eq hn]

/-- Where something is found, there is a node of the tree. -/
theorem reaches_of_at? {r : Referent} (hr : d.at? n = some r) : d.tree.Reaches [] n := by
  induction n generalizing r with
  | nil => exact .root
  | cons k n ih =>
    rw [at?] at hr
    obtain ⟨p, hp, hk⟩ := Option.bind_eq_some_iff.1 hr
    cases k with
    | namespaceNode i =>
      obtain ⟨b, hb, -⟩ := Option.map_eq_some_iff.1 hk
      exact .namespaceOf (ih hp) (mem_links.2 ⟨p, i, hp, (List.getElem?_eq_some_iff.1 hb).1, rfl⟩)
    | «attribute» i =>
      obtain ⟨a, ha, -⟩ := Option.map_eq_some_iff.1 hk
      exact .attributeOf (ih hp) (mem_links.2 ⟨p, i, hp, (List.getElem?_eq_some_iff.1 ha).1, rfl⟩)
    | child i =>
      obtain ⟨j, hj, -⟩ := Option.map_eq_some_iff.1 hk
      exact .child (ih hp) (mem_links.2 ⟨p, i, hp, (List.getElem?_eq_some_iff.1 hj).1, rfl⟩)

/-! ### What is left out -/

/-- The characters of a class account for what the texts below a node leave out of its text exactly
if every run that is white space throughout is made of them. -/
theorem without_runs_iff (isIn : Char → Bool) (ss : List String) :
    Text.without isIn (String.join (ss.filter Text.isVisible))
        = Text.without isIn (String.join ss) ↔
      ∀ s ∈ ss, s.toList.all Text.isBlank → s.toList.all isIn := by
  rw [Text.without_join, Text.without_join, flatMap_filter_eq_iff]
  simp only [Text.isVisible_eq_false, Text.without_eq_nil]

/-- From the root and from every element the descendant axis finds texts, in document order, that
make up the text of the node but for white space.  But for the white space of markup they make it up
exactly if no run of text in it is white space of another sort. -/
theorem texts_below (hn : d.tree.kind n = .root ∨ d.tree.kind n = .element) :
    ∃ ms, d.tree.along (fun m => d.tree.kind m == .text) .descendant n = .ok ms ∧
      d.tree.Ascending ms ∧
      Text.without Text.isBlank (String.join (ms.map d.tree.stringValue))
        = Text.without Text.isBlank (d.tree.stringValue n) ∧
      (Text.without isSpace (String.join (ms.map d.tree.stringValue))
          = Text.without isSpace (d.tree.stringValue n) ↔
        ∀ s ∈ d.runs n, s.toList.all Text.isBlank → s.toList.all isSpace) := by
  obtain ⟨r, hat, hruns, hvalue⟩ := exists_of_kind hn
  have hreaches := reaches_of_at? hat
  have hwalk : (d.tree.below n).Sublist (d.tree.walk n) := d.linked.below_sublist_walk hreaches
  have htexts : d.texts (d.tree.below n) = (d.runs n).filter Text.isVisible := by
    rw [texts_below_eq hat, hruns]
  refine ⟨_, d.tree.along_descendant _ n, ?_, ?_, ?_⟩
  · exact (ascending_walk hreaches).sublist (List.filter_sublist.trans hwalk)
  · show Text.without Text.isBlank (String.join (d.texts (d.tree.below n))) = _
    rw [htexts, hvalue]
    exact (without_runs_iff Text.isBlank (d.runs n)).2 fun _ _ hs => hs
  · show Text.without isSpace (String.join (d.texts (d.tree.below n))) = _ ↔ _
    rw [htexts, hvalue]
    exact without_runs_iff isSpace (d.runs n)

/-- A run of text that is a no-break space is in the text of its element, and is no text below it.
-/
theorem texts_below_no_break_space :
    ∃ d, read? "<a>&#160;</a>" = some d ∧ d.tree.kind [.child 0] = .element ∧
      d.tree.stringValue [.child 0] = "\u00A0" ∧
      ∃ ms, d.tree.along (fun m => d.tree.kind m == .text) .descendant [.child 0] = .ok ms ∧
        Text.without isSpace (String.join (ms.map d.tree.stringValue))
          ≠ Text.without isSpace (d.tree.stringValue [.child 0]) := by
  have hfacts : (read? "<a>&#160;</a>").map (fun d => (d.tree.kind [.child 0],
      d.tree.stringValue [.child 0],
      d.tree.along (fun m => d.tree.kind m == .text) .descendant [.child 0]))
      = some (.element, "\u00A0", .ok []) := by decide +kernel
  obtain ⟨d, hd, hfacts⟩ := Option.map_eq_some_iff.1 hfacts
  simp only [Prod.mk.injEq] at hfacts
  obtain ⟨hkind, hvalue, hms⟩ := hfacts
  refine ⟨d, hd, hkind, hvalue, [], hms, ?_⟩
  rw [hvalue, List.map_nil]
  decide +kernel

/-- Where the white space left out is that of markup, the texts below an element make up its text
but for that. -/
theorem texts_below_mixed :
    ∃ d, read? "<p>a <b> </b>&#160;b</p>" = some d ∧ d.tree.kind [.child 0] = .element ∧
      ∃ ms, d.tree.along (fun m => d.tree.kind m == .text) .descendant [.child 0] = .ok ms ∧
        Text.without isSpace (String.join (ms.map d.tree.stringValue))
          = Text.without isSpace (d.tree.stringValue [.child 0]) := by
  have hfacts : (read? "<p>a <b> </b>&#160;b</p>").map (fun d => (d.tree.kind [.child 0],
      d.runs [.child 0])) = some (.element, ["a ", " ", "\u00A0b"]) := by decide +kernel
  obtain ⟨d, hd, hfacts⟩ := Option.map_eq_some_iff.1 hfacts
  simp only [Prod.mk.injEq] at hfacts
  obtain ⟨hkind, hruns⟩ := hfacts
  obtain ⟨ms, hms, -, -, hspace⟩ := texts_below (.inr hkind)
  refine ⟨d, hd, hkind, ms, hms, hspace.2 ?_⟩
  rw [hruns]
  decide +kernel

end Document
end Xml
end XPath

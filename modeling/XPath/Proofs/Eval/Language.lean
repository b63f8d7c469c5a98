import XPath.Expr.Parser
import XPath.Proofs.Eval.Composition
import XPath.Proofs.Tree.Direction
import XPath.Proofs.Tree.Merging

/-!
# The language at a node

The language at a node is set by an attribute of the element that it is or of the nearest element
above it that has one.  A path can look for these attributes too: it finds all of them, in document
order, so that the nearest one comes last.

* `Tree.languageAttributes`: the attributes that set a language, the nearest first;
* `Linked.hasLanguage_eq`: the nearest of them decides, wherever the search starts;
* `Lawful.ascending_languageAttributes`: the nearest is the last in document order;
* `languagePath`, `evaluate_languagePath`: the path that finds them;
* `evaluate_lang`: the function and the path.
-/

namespace XPath

variable {N : Type}

/-! ### The attributes that set a language -/

/-- The attributes that set a language at a node or above it, the nearest first. -/
def Tree.languageAttributes (T : Tree N) (n : N) : List N :=
  (n :: T.above n).filterMap fun p => T.attribute? p languageName

/-- The names of the attributes of any one node differ from each other. -/
def Tree.NamesDiffer (T : Tree N) (root : N) : Prop :=
  ∀ p, T.Reaches root p → ((T.attributes p).filterMap T.name).Nodup

namespace Tree

variable {T : Tree N} {root n p : N}

theorem languageAttributes_of_parent (hn : T.attribute? n languageName = none)
    (hp : T.parent n = some p) : T.languageAttributes n = T.languageAttributes p := by
  rw [languageAttributes, T.above_of_parent hp, List.filterMap_cons, hn]
  rfl

theorem languageAttributes_of_root (hn : T.attribute? n languageName = none)
    (hp : T.parent n = none) : T.languageAttributes n = [] := by
  rw [languageAttributes, T.above_of_root hp, List.filterMap_cons, hn]
  rfl

theorem mem_attributes_of_attribute? {a : N} {q : QName} (h : T.attribute? n q = some a) :
    a ∈ T.attributes n :=
  List.mem_of_find?_eq_some h

/-- The search upwards ends at the nearest attribute. -/
theorem languageAttribute?_eq : T.languageAttribute? n = (T.languageAttributes n).head? := by
  induction hk : T.depth n using Nat.strongRecOn generalizing n with
  | ind k ih =>
    rw [languageAttribute?]
    split
    · rename_i a ha
      rw [languageAttributes, List.filterMap_cons, ha]
      rfl
    · rename_i hnone
      split
      · rename_i hp
        rw [languageAttributes_of_root hnone hp]
        rfl
      · rename_i p hp
        have hlt : T.depth p < k := hk ▸ T.depth_lt hp
        rw [ih _ hlt rfl, languageAttributes_of_parent hnone hp]

theorem Linked.attribute?_eq_none (h : T.Linked root) (hn : T.Reaches root n)
    (he : T.isElement n = false) (q : QName) : T.attribute? n q = none := by
  rw [attribute?, h.attributes_other n hn he]
  rfl

/-- It makes no difference that the search starts above a node that is no element. -/
theorem Linked.hasLanguage_eq (h : T.Linked root) (hn : T.Reaches root n) (range : String) :
    T.hasLanguage n range = (T.languageAttributes n).head?.any fun a =>
      LanguageTag.matches? (T.stringValue a) range := by
  have hstart : (T.languageStart? n).bind T.languageAttribute?
      = (T.languageAttributes n).head? := by
    cases he : T.isElement n with
    | true =>
      rw [languageStart?, if_pos he]
      exact T.languageAttribute?_eq
    | false =>
      have hnone := h.attribute?_eq_none hn he languageName
      rw [languageStart?, he, if_neg Bool.false_ne_true]
      cases hp : T.parent n with
      | none =>
        rw [languageAttributes_of_root hnone hp]
        rfl
      | some p =>
        rw [languageAttributes_of_parent hnone hp]
        exact T.languageAttribute?_eq
  rw [hasLanguage, hstart]
  cases (T.languageAttributes n).head? <;> rfl

/-! ### Their order -/

/-- Each node above a node lies above those nearer to it. -/
theorem pairwise_above : (n :: T.above n).Pairwise fun p q => T.Ancestor q p := by
  induction hk : T.depth n using Nat.strongRecOn generalizing n with
  | ind k ih =>
    refine List.pairwise_cons.2 ⟨fun q hq => mem_above.1 hq, ?_⟩
    cases hp : T.parent n with
    | none =>
      rw [T.above_of_root hp]
      exact .nil
    | some p =>
      have hlt : T.depth p < k := hk ▸ T.depth_lt hp
      rw [T.above_of_parent hp]
      exact ih _ hlt rfl

/-- What the walk meets from a node it meets from all nodes that this one is below. -/
theorem walk_subset_of_mem_subtree {c m : N} (hp : p ∈ T.subtree c) (hm : m ∈ T.walk p) :
    m ∈ T.walk c := by
  induction hk : T.height c using Nat.strongRecOn generalizing c with
  | ind k ih =>
    rcases List.mem_cons.1 hp with rfl | hp
    · exact hm
    · obtain ⟨d, hd, hp⟩ := mem_below_iff.1 hp
      have hlt : T.height d < k := hk ▸ T.height_lt hd
      have hwalk : m ∈ T.walk d := ih _ hlt (List.mem_cons.2 hp) rfl
      rw [walk_eq]
      simp only [List.mem_cons, List.mem_append, List.mem_flatMap]
      exact .inr (.inr (.inr ⟨d, hd, hwalk⟩))

/-- The attributes of a node come before those of the nodes below it. -/
theorem Lawful.before_attribute (h : T.Lawful root) {q a b : N} (hp : T.Reaches root p)
    (hq : T.Reaches root q) (habove : T.Ancestor q p) (ha : a ∈ T.attributes p)
    (hb : b ∈ T.attributes q) : T.before b a := by
  have hbelow : p ∈ T.below q :=
    h.mem_below_of_ancestor hp (h.not_owned_of_attribute hp ha) habove
  obtain ⟨c, hc, hpc⟩ := mem_below_iff.1 hbelow
  have hself : a ∈ T.walk p := (T.attributes_sublist_walk p).subset ha
  have hchildren : a ∈ (T.children q).flatMap T.walk :=
    List.mem_flatMap.2 ⟨c, hc, walk_subset_of_mem_subtree (List.mem_cons.2 hpc) hself⟩
  have hwalk := h.ordered.sublist (h.walk_sublist hq)
  rw [walk_eq] at hwalk
  have hlisted := (List.pairwise_append.1 (List.pairwise_cons.1 hwalk).2).2.1
  exact ((List.pairwise_append.1 hlisted).2.2 b hb a hchildren).1

theorem Linked.reaches_lineage (h : T.Linked root) (hn : T.Reaches root n) :
    ∀ p ∈ n :: T.above n, T.Reaches root p :=
  List.forall_mem_cons.2 ⟨hn, fun _ hp => h.reaches_of_mem_above hn hp⟩

theorem mem_languageAttributes {a : N} :
    a ∈ T.languageAttributes n ↔ ∃ p ∈ n :: T.above n, T.attribute? p languageName = some a :=
  List.mem_filterMap

theorem Linked.reaches_languageAttributes (h : T.Linked root) (hn : T.Reaches root n) :
    ∀ a ∈ T.languageAttributes n, T.Reaches root a := by
  intro a ha
  obtain ⟨p, hp, hfound⟩ := mem_languageAttributes.1 ha
  exact .attributeOf (h.reaches_lineage hn p hp) (mem_attributes_of_attribute? hfound)

/-- In document order the nearest attribute comes last. -/
theorem Lawful.ascending_languageAttributes (h : T.Lawful root) (hn : T.Reaches root n) :
    T.Ascending (T.languageAttributes n).reverse := by
  refine List.pairwise_reverse.2 (List.pairwise_filterMap.2 ?_)
  refine List.Pairwise.imp_of_mem ?_ T.pairwise_above
  intro p q hp hq habove a ha b hb
  exact h.before_attribute (h.reaches_lineage hn p hp) (h.reaches_lineage hn q hq) habove
    (mem_attributes_of_attribute? ha) (mem_attributes_of_attribute? hb)

end Tree

/-! ### The path -/

/-- The path `ancestor-or-self::*/attribute::xml:lang`. -/
def languagePath : Expr :=
  .path false [⟨.ancestorOrSelf, .any, []⟩, ⟨.attribute, .name (some "xml") "lang", []⟩]

example : parse .standard 0 "ancestor-or-self::*/attribute::xml:lang" = .ok languagePath := by
  with_unfolding_all rfl

/-- Where names differ, one attribute at most has a given name. -/
theorem filter_name_eq {f : N → Option QName} {q : QName} {as : List N}
    (h : (as.filterMap f).Nodup) :
    as.filter (fun a => f a == some q) = (as.find? fun a => f a == some q).toList := by
  have hcount : (as.filter fun a => f a == some q).length ≤ 1 := by
    rw [← List.countP_eq_length_filter, ← List.count_filterMap]
    exact List.nodup_iff_count.1 h q
  rw [← List.head?_filter]
  generalize as.filter (fun a => f a == some q) = found at hcount ⊢
  match found, hcount with
  | [], _ => rfl
  | [a], _ => rfl

variable [DecidableEq N] {env : Env N} {root n : N}

theorem select_languageElements :
    select env ⟨.ancestorOrSelf, .any, []⟩ n
      = .ok ((n :: env.tree.above n).filter env.tree.isElement) := by
  rw [select_step, Tree.along_ancestorOrSelf]
  rfl

theorem select_languageAttribute (h : env.tree.Lawful root) (hnames : env.tree.NamesDiffer root)
    (hn : env.tree.Reaches root n) :
    select env ⟨.attribute, .name (some "xml") "lang", []⟩ n
      = .ok (env.tree.attribute? n languageName).toList := by
  have haccept : ∀ a ∈ env.tree.attributes n,
      NodeTest.accepts env.tree .attribute (.name (some "xml") "lang") a
        = (env.tree.name a == some languageName) := by
    intro a ha
    have hkind : env.tree.kind a = .attribute := h.kind_attribute n hn a ha
    rw [NodeTest.accepts, hkind]
    cases env.tree.name a with
    | none => rfl
    | some q =>
      cases q
      rw [Bool.eq_iff_iff]
      simp [Axis.principalKind, languageName]
  have hattributes : (if env.tree.isElement n then env.tree.attributes n else [])
      = env.tree.attributes n := by
    cases he : env.tree.isElement n with
    | true => rfl
    | false => rw [h.attributes_other n hn he]; rfl
  rw [select_step, Tree.along_attribute, hattributes, List.filter_congr haccept,
    filter_name_eq (hnames n hn)]
  rfl

/-- The path finds the attributes that set a language, the nearest last. -/
theorem evaluate_languagePath (h : env.tree.Lawful root) (hnames : env.tree.NamesDiffer root)
    (focus : Focus N) (hn : env.tree.Reaches root focus.node) :
    evaluate env languagePath focus
      = .ok (.nodes (env.tree.languageAttributes focus.node).reverse) := by
  let elements := (focus.node :: env.tree.above focus.node).filter env.tree.isElement
  have hlineage := h.reaches_lineage hn
  have hselect : ∀ m ∈ env.tree.inOrder elements,
      select env ⟨.attribute, .name (some "xml") "lang", []⟩ m
        = .ok (env.tree.attribute? m languageName).toList := by
    intro m hm
    have hm : m ∈ elements := Tree.mem_inOrder.1 hm
    exact select_languageAttribute h hnames (hlineage m (List.mem_filter.1 hm).1)
  obtain ⟨found, hfound⟩ := exists_mapM_eq_ok.2 fun m hm => ⟨_, hselect m hm⟩
  have hmem : ∀ a, a ∈ (env.tree.languageAttributes focus.node).reverse ↔ a ∈ found.flatten := by
    intro a
    rw [List.mem_reverse, Tree.mem_languageAttributes, ← env.tree.mem_inOrder,
      mem_found_iff hfound]
    constructor
    · rintro ⟨p, hp, ha⟩
      -- a node that has an attribute is an element
      have he : env.tree.isElement p := by
        cases he : env.tree.isElement p with
        | true => rfl
        | false => simp [h.attribute?_eq_none (hlineage p hp) he] at ha
      have hp : p ∈ env.tree.inOrder elements :=
        Tree.mem_inOrder.2 (List.mem_filter.2 ⟨hp, he⟩)
      exact ⟨p, hp, _, hselect p hp, Option.mem_toList.2 ha⟩
    · rintro ⟨p, hp, as, has, ha⟩
      rw [hselect p hp, Except.ok.injEq] at has
      rw [← has, Option.mem_toList] at ha
      exact ⟨p, (List.mem_filter.1 (Tree.mem_inOrder.1 hp)).1, ha⟩
  have hreaches : ∀ a ∈ (env.tree.languageAttributes focus.node).reverse,
      env.tree.Reaches root a :=
    fun a ha => h.reaches_languageAttributes hn a (List.mem_reverse.1 ha)
  have hsteps : evaluateSteps env
      [⟨.ancestorOrSelf, .any, []⟩, ⟨.attribute, .name (some "xml") "lang", []⟩] [focus.node]
      = .ok (env.tree.inOrder found.flatten) := by
    refine evaluateSteps_cons_eq_ok.2 ⟨[elements], ?_, ?_⟩
    · rw [List.mapM_cons, select_languageElements]
      rfl
    · rw [List.flatten_singleton]
      exact evaluateSteps_cons_eq_ok.2 ⟨found, hfound, evaluateSteps_nil _ _⟩
  refine evaluate_path_eq_ok.2 ⟨_, hsteps, ?_⟩
  rw [← h.inOrder_congr hreaches hmem,
    h.inOrder_eq_self hreaches (h.ascending_languageAttributes hn)]

/-! ### The function -/

/-- In a tree that keeps to the contract, and where no two attributes of a node have one name, the
function `lang` compares its argument with the text of the last node that the path
`ancestor-or-self::*/attribute::xml:lang` finds, and is false where the path finds none. -/
theorem evaluate_lang (h : env.tree.Lawful root) (hnames : env.tree.NamesDiffer root)
    (hf : env.functions = .standard) (focus : Focus N) (hn : env.tree.Reaches root focus.node)
    {e : Expr} {v : Value N} (hv : evaluate env e focus = .ok v) :
    ∃ ns, evaluate env languagePath focus = .ok (.nodes ns) ∧
      evaluate env (.call "lang" [e]) focus = .ok (.boolean (ns.getLast?.any fun a =>
        LanguageTag.matches? (env.tree.stringValue a) (v.toText env.tree))) := by
  refine ⟨_, evaluate_languagePath h hnames focus hn, ?_⟩
  rw [evaluate_call, evaluateAll_cons, hv, hf, List.getLast?_reverse, ← h.hasLanguage_eq hn]
  rfl

/-- The text in the first paragraph of the sample is English, whatever the case of the range. -/
theorem evaluate_lang_text :
    Env.sample.tree.Lawful 0 ∧ Env.sample.tree.NamesDiffer 0 ∧ Env.sample.functions = .standard ∧
    Env.sample.tree.Reaches 0 5 ∧
    evaluate .sample (.literal "EN") ⟨5, 1, 1⟩ = .ok (.string "EN") ∧
    evaluate .sample languagePath ⟨5, 1, 1⟩ = .ok (.nodes [4]) ∧
    evaluate .sample (.call "lang" [.literal "EN"]) ⟨5, 1, 1⟩ = .ok (.boolean true) := by
  have hnames : Env.sample.tree.NamesDiffer 0 := Tree.of_rows_sample (by decide)
  have hreaches : Env.sample.tree.Reaches 0 5 := by
    have hpara : Env.sample.tree.Reaches 0 1 := .child .root (by decide)
    exact .child hpara (by decide)
  obtain ⟨ns, hpath, hlang⟩ := evaluate_lang Tree.lawful_sample hnames rfl ⟨5, 1, 1⟩ hreaches
    (evaluate_literal .sample ⟨5, 1, 1⟩ "EN")
  have hfound : evaluate .sample languagePath ⟨5, 1, 1⟩ = .ok (.nodes [4]) := by
    have hlist : (Env.sample.tree.languageAttributes 5).reverse = [4] := by decide +kernel
    rw [evaluate_languagePath Tree.lawful_sample hnames ⟨5, 1, 1⟩ hreaches, hlist]
  rw [hfound, Except.ok.injEq, Value.nodes.injEq] at hpath
  subst hpath
  refine ⟨Tree.lawful_sample, hnames, rfl, hreaches, rfl, hfound, hlang.trans ?_⟩
  exact congrArg (fun b => Except.ok (Value.boolean b)) (by decide +kernel)

end XPath

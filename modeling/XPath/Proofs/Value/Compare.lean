import XPath.Proofs.Calls
import XPath.Tree.Table
import XPath.Value.Compare

/-!
# Comparisons as statements about single values

A node-set takes part in a comparison as several single values, and the comparison holds if it holds
of some of them.  So it is enough to know what single values do: with the operands exchanged they
compare by the mirrored operator, and they differ where they are not equal, even if one of them is
no number.

* `Number.compare_swap`, `Number.beq_comm`: doubles in the opposite order;
* `Comparison.scalars_mirror`, `Comparison.scalars_ne`: single values;
* `Value.standIns`: the single values that a value stands for in a comparison;
* `Comparison.values_eq_any`: any two values compare as some of these do;
* `Comparison.values_nodes_iff`: a node-set compares as the texts of its nodes do;
* `Comparison.values_mirror`: the operands exchanged, and the contrary of equality.
-/

namespace XPath

/-! ### Doubles -/

namespace Number

open Float.Model

/-- In the opposite order the outcome is the opposite one; what is not a number has none in either
order. -/
theorem compare_swap (a b : UnpackedFloat) : (a.compare b).map Ordering.swap = b.compare a := by
  cases a with
  | notANumber => cases b <;> rfl
  | infinity s =>
    cases b with
    | notANumber => cases s <;> rfl
    | infinity t => cases s <;> cases t <;> rfl
    | zero t => cases s <;> rfl
    | finite t m e h => cases s <;> rfl
  | zero s =>
    cases b with
    | notANumber => rfl
    | infinity t => cases t <;> rfl
    | zero t => rfl
    | finite t m e h => cases t <;> rfl
  | finite s m e h =>
    cases b with
    | notANumber => cases s <;> rfl
    | infinity t => cases s <;> cases t <;> rfl
    | zero t => cases s <;> rfl
    | finite t n k h' =>
      -- finite magnitudes are compared by their exponents, and then by their significands
      have hswap : ((compare e k).then (compare m n)).swap
          = (compare k e).then (compare n m) := by
        rw [Ordering.swap_then, ← Std.OrientedCmp.eq_swap, ← Std.OrientedCmp.eq_swap]
      cases s with
      | negative =>
        cases t with
        | negative => exact congrArg (fun o => some o.swap) hswap
        | positive => rfl
      | positive =>
        cases t with
        | negative => rfl
        | positive => exact congrArg some hswap

theorem beq_comm (x y : Float) : (x == y) = (y == x) := by
  have hswap := compare_swap x.toModel.unpack y.toModel.unpack
  show (x.toModel.unpack.compare y.toModel.unpack == some .eq)
    = (y.toModel.unpack.compare x.toModel.unpack == some .eq)
  rw [← hswap]
  cases x.toModel.unpack.compare y.toModel.unpack with
  | none => rfl
  | some o => cases o <;> rfl

end Number

theorem boolNumber_beq (b c : Bool) : (boolNumber b == boolNumber c) = (b == c) := by
  cases b <;> cases c <;> decide

/-! ### Single values -/

namespace Comparison

variable {N : Type} {T : Tree N} (op : Comparison)

theorem numbers_mirror (x y : Float) : op.mirror.numbers x y = op.numbers y x := by
  cases op with
  | eq => exact Number.beq_comm x y
  | ne => exact congrArg not (Number.beq_comm x y)
  | lt => rfl
  | le => rfl
  | gt => rfl
  | ge => rfl

theorem equalScalars_comm (v w : Value N) : equalScalars T v w = equalScalars T w v := by
  cases v with
  | boolean b => cases w <;> exact BEq.comm
  | number x =>
    cases w with
    | boolean c => exact BEq.comm
    | number y => exact Number.beq_comm _ _
    | string t => exact Number.beq_comm _ _
    | nodes ms => exact Number.beq_comm _ _
  | string s =>
    cases w with
    | number y => exact Number.beq_comm _ _
    | boolean c => exact BEq.comm
    | string t => exact BEq.comm
    | nodes ms => exact BEq.comm
  | nodes ns =>
    cases w with
    | number y => exact Number.beq_comm _ _
    | boolean c => exact BEq.comm
    | string t => exact BEq.comm
    | nodes ms => exact BEq.comm

theorem scalars_mirror (v w : Value N) : op.mirror.scalars T v w = op.scalars T w v := by
  cases op with
  | eq => exact equalScalars_comm v w
  | ne => exact congrArg not (equalScalars_comm v w)
  | lt => exact numbers_mirror .lt _ _
  | le => exact numbers_mirror .le _ _
  | gt => exact numbers_mirror .gt _ _
  | ge => exact numbers_mirror .ge _ _

theorem scalars_ne (v w : Value N) : ne.scalars T v w = !eq.scalars T v w := rfl

/-! What is done with the text of a node is what is done with any text. -/

theorem texts_eq_scalars (s t : String) : op.texts s t = op.scalars T (.string s) (.string t) := by
  cases op <;> rfl

theorem numbers_eq_scalars (s : String) (x : Float) :
    op.numbers (Number.ofText s) x = op.scalars T (.string s) (.number x) := by
  cases op <;> rfl

theorem boolNumbers_eq_scalars (b c : Bool) :
    op.numbers (boolNumber b) (boolNumber c) = op.scalars T (.boolean b) (.boolean c) := by
  cases op with
  | eq => exact boolNumber_beq b c
  | ne => exact congrArg not (boolNumber_beq b c)
  | lt => rfl
  | le => rfl
  | gt => rfl
  | ge => rfl

end Comparison

/-! ### The single values that a value stands for -/

variable {N : Type} {T : Tree N}

/-- The single values that a value stands for in a comparison with another one: a node-set stands
for the text of any of its nodes, against a truth value for whether it has any. -/
def Value.standIns (T : Tree N) (v other : Value N) : List (Value N) :=
  match v, other with
  | .nodes ns, .boolean _ => [.boolean !ns.isEmpty]
  | .nodes ns, _ => ns.map fun n => .string (T.stringValue n)
  | v, _ => [v]

theorem Value.standIns_of_isScalar {v : Value N} (hv : v.IsScalar) (w : Value N) :
    v.standIns T w = [v] := by
  cases v with
  | nodes ns => exact hv.elim
  | string s => rfl
  | number x => rfl
  | boolean b => rfl

theorem Value.any_standIns_of_isScalar {v : Value N} (hv : v.IsScalar) (w : Value N)
    (p : Value N → Bool) : (v.standIns T w).any p = p v := by
  rw [standIns_of_isScalar hv, List.any_cons, List.any_nil, Bool.or_false]

theorem Value.nodes_or_isScalar (v : Value N) : (∃ ns, v = .nodes ns) ∨ v.IsScalar := by
  cases v with
  | nodes ns => exact .inl ⟨ns, rfl⟩
  | _ => exact .inr trivial

/-- Against a truth value, every value stands for one single value. -/
theorem Value.exists_standIns_boolean (v : Value N) (b : Bool) :
    ∃ a, v.standIns T (.boolean b) = [a] := by
  cases v with
  | nodes ns => exact ⟨.boolean !ns.isEmpty, rfl⟩
  | string s => exact ⟨.string s, rfl⟩
  | number x => exact ⟨.number x, rfl⟩
  | boolean c => exact ⟨.boolean c, rfl⟩

namespace Comparison

variable (op : Comparison)

theorem values_of_isScalar {v w : Value N} (hv : v.IsScalar) (hw : w.IsScalar) :
    op.values T v w = op.scalars T v w := by
  cases v with
  | nodes ns => exact hv.elim
  | _ =>
    cases w with
    | nodes ms => exact hw.elim
    | _ => rfl

theorem values_nodes_left (ns : List N) {w : Value N} (hw : w.IsScalar) :
    op.values T (.nodes ns) w = op.nodesWith T ns w := by
  cases w with
  | nodes ms => exact hw.elim
  | _ => rfl

theorem values_nodes_right {v : Value N} (hv : v.IsScalar) (ms : List N) :
    op.values T v (.nodes ms) = op.mirror.nodesWith T ms v := by
  cases v with
  | nodes ns => exact hv.elim
  | _ => rfl

theorem nodesWith_eq_any (ns : List N) {w : Value N} (hw : w.IsScalar) :
    op.nodesWith T ns w = ((Value.nodes ns).standIns T w).any fun a => op.scalars T a w := by
  cases w with
  | nodes ms => exact hw.elim
  | string s =>
    simp only [nodesWith, Value.standIns, List.any_map, Function.comp_def,
      texts_eq_scalars (T := T)]
  | number x =>
    simp only [nodesWith, Value.standIns, Value.nodeNumber, List.any_map, Function.comp_def,
      numbers_eq_scalars (T := T)]
  | boolean b =>
    rw [nodesWith, boolNumbers_eq_scalars (T := T), Value.standIns, List.any_cons, List.any_nil,
      Bool.or_false]

/-- Two values compare as some of the single values do that they stand for. -/
theorem values_eq_any (v w : Value N) : op.values T v w
    = (v.standIns T w).any fun a => (w.standIns T v).any fun b => op.scalars T a b := by
  rcases v.nodes_or_isScalar with ⟨ns, rfl⟩ | hv
  · rcases w.nodes_or_isScalar with ⟨ms, rfl⟩ | hw
    · simp only [values, Value.standIns, List.any_map, Function.comp_def,
        texts_eq_scalars (T := T)]
    · rw [op.values_nodes_left ns hw, op.nodesWith_eq_any ns hw]
      simp only [Value.any_standIns_of_isScalar hw]
  · rcases w.nodes_or_isScalar with ⟨ms, rfl⟩ | hw
    · rw [op.values_nodes_right hv ms, op.mirror.nodesWith_eq_any ms hv,
        Value.any_standIns_of_isScalar hv]
      simp only [scalars_mirror]
    · rw [op.values_of_isScalar hv hw, Value.any_standIns_of_isScalar hv,
        Value.any_standIns_of_isScalar hw]

/-- Where both values stand for one single value each, these are compared. -/
theorem values_eq_scalars {v w a b : Value N} (hv : v.standIns T w = [a])
    (hw : w.standIns T v = [b]) : op.values T v w = op.scalars T a b := by
  rw [values_eq_any, hv, hw, List.any_cons, List.any_nil, Bool.or_false, List.any_cons,
    List.any_nil, Bool.or_false]

/-! ### The operands exchanged -/

theorem mirror_values (v w : Value N) : op.mirror.values T w v = op.values T v w := by
  rw [Bool.eq_iff_iff, values_eq_any, values_eq_any]
  simp only [List.any_eq_true, scalars_mirror]
  constructor
  · rintro ⟨b, hb, a, ha, hab⟩
    exact ⟨a, ha, b, hb, hab⟩
  · rintro ⟨a, ha, b, hb, hab⟩
    exact ⟨b, hb, a, ha, hab⟩

/-- With the operands exchanged the mirrored operator has the same outcome.  Values differ where
they are not equal, if none of them is a node-set or one of them is a truth value. -/
theorem values_mirror (T : Tree N) (v w : Value N) :
    (∀ op : Comparison, op.values T v w = op.mirror.values T w v) ∧
    ((v.IsScalar ∧ w.IsScalar) ∨ (∃ b, v = .boolean b ∨ w = .boolean b) →
      ne.values T v w = !eq.values T v w) := by
  refine ⟨fun op => (op.mirror_values v w).symm, fun h => ?_⟩
  have hsingle : ∃ a b, v.standIns T w = [a] ∧ w.standIns T v = [b] := by
    rcases h with ⟨hv, hw⟩ | ⟨b, rfl | rfl⟩
    · exact ⟨v, w, Value.standIns_of_isScalar hv w, Value.standIns_of_isScalar hw v⟩
    · obtain ⟨a, ha⟩ := w.exists_standIns_boolean (T := T) b
      exact ⟨.boolean b, a, rfl, ha⟩
    · obtain ⟨a, ha⟩ := v.exists_standIns_boolean (T := T) b
      exact ⟨a, .boolean b, ha, rfl⟩
  obtain ⟨a, b, ha, hb⟩ := hsingle
  rw [ne.values_eq_scalars ha hb, eq.values_eq_scalars ha hb, scalars_ne]

/-- What is not a number differs from itself, and a node-set that has nodes differs from `false`. -/
theorem values_mirror_nan :
    ne.values Table.sample.tree (.number Number.nan) (.number Number.nan) = true ∧
      lt.values Table.sample.tree (.string "1") (.number Number.nan)
        = gt.values Table.sample.tree (.number Number.nan) (.string "1") ∧
      ne.values Table.sample.tree (.nodes [1, 11]) (.boolean false) = true := by
  obtain ⟨-, hnan⟩ := values_mirror Table.sample.tree (.number Number.nan) (.number Number.nan)
  obtain ⟨hmirror, -⟩ := values_mirror Table.sample.tree (.string "1") (.number Number.nan)
  obtain ⟨-, hnodes⟩ := values_mirror Table.sample.tree (.nodes [1, 11]) (.boolean false)
  refine ⟨?_, hmirror lt, ?_⟩
  · rw [hnan (.inl ⟨trivial, trivial⟩)]
    decide +kernel
  · rw [hnodes (.inr ⟨false, .inr rfl⟩)]
    decide +kernel

/-! ### Node-sets -/

/-- No text and no node-set asks whether a value has nodes. -/
theorem standIns_nodes_eq {w : Value N} (ns : List N) (s : String) :
    w.standIns T (.nodes ns) = w.standIns T (.string s) := by
  cases w <;> rfl

/-- But for truth values, a node-set compares as the text of some node of it does. -/
theorem values_nodes_left_iff {w : Value N} (hw : ∀ b, w ≠ .boolean b) (ns : List N) :
    op.values T (.nodes ns) w ↔ ∃ n ∈ ns, op.values T (.string (T.stringValue n)) w := by
  have htexts : (Value.nodes ns).standIns T w = ns.map fun n => .string (T.stringValue n) := by
    cases w with
    | boolean b => exact absurd rfl (hw b)
    | _ => rfl
  rw [values_eq_any, htexts, List.any_map, List.any_eq_true]
  refine exists_congr fun n => and_congr_right fun _ => ?_
  rw [values_eq_any, ← standIns_nodes_eq ns,
    Value.any_standIns_of_isScalar (v := .string _) trivial]
  rfl

theorem values_nodes_right_iff {v : Value N} (hv : ∀ b, v ≠ .boolean b) (ms : List N) :
    op.values T v (.nodes ms) ↔ ∃ m ∈ ms, op.values T v (.string (T.stringValue m)) := by
  rw [← mirror_values, op.mirror.values_nodes_left_iff hv ms]
  simp only [mirror_values]

/-- On either side, a node-set compares with a truth value as whether it has nodes, and with
anything else as the text of some node of it does; so two node-sets compare as the texts of some
node of each do. -/
theorem values_nodes_iff (T : Tree N) (op : Comparison) (ns ms : List N) :
    (∀ v : Value N, (∀ b, v ≠ .boolean b) →
      (op.values T (.nodes ns) v ↔ ∃ n ∈ ns, op.values T (.string (T.stringValue n)) v) ∧
      (op.values T v (.nodes ns) ↔ ∃ n ∈ ns, op.values T v (.string (T.stringValue n)))) ∧
    (op.values T (.nodes ns) (.nodes ms) ↔ ∃ n ∈ ns, ∃ m ∈ ms,
      op.values T (.string (T.stringValue n)) (.string (T.stringValue m))) ∧
    ∀ b, op.values T (.nodes ns) (.boolean b) = op.values T (.boolean !ns.isEmpty) (.boolean b) ∧
      op.values T (.boolean b) (.nodes ns) = op.values T (.boolean b) (.boolean !ns.isEmpty) := by
  refine ⟨fun v hv => ?_, ?_, fun b => ?_⟩
  · exact ⟨op.values_nodes_left_iff hv ns, op.values_nodes_right_iff hv ns⟩
  · rw [op.values_nodes_left_iff (by simp) ns]
    simp only [op.values_nodes_right_iff (v := .string _) (by simp) ms]
  · exact ⟨op.values_eq_scalars rfl rfl, op.values_eq_scalars rfl rfl⟩

/-- The two paragraphs of the sample, one of which says `World`: they are equal to that text, and
they differ from it. -/
theorem values_nodes_iff_paragraphs :
    (∀ b, (Value.string "World" : Value Nat) ≠ .boolean b) ∧
      eq.values Table.sample.tree (.nodes [1, 11]) (.string "World") ∧
      ne.values Table.sample.tree (.nodes [1, 11]) (.string "World") := by
  have hscalar : ∀ b, (Value.string "World" : Value Nat) ≠ .boolean b := by simp
  refine ⟨hscalar, ?_, ?_⟩
  · exact ((values_nodes_iff _ eq [1, 11] []).1 _ hscalar).1.2 ⟨11, by simp, by decide +kernel⟩
  · exact ((values_nodes_iff _ ne [1, 11] []).1 _ hscalar).1.2 ⟨1, by simp, by decide +kernel⟩

end Comparison
end XPath

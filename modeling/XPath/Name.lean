/-!
# Names

Names follow XML 1.0 with namespaces: the name characters leave out the colon, which separates a
prefix from a local part.

* `isNameStart`, `isNameChar`: the two character classes;
* `IsName`: a text that is a name without a colon;
* `QName`: a local part with an optional prefix.
-/

namespace XPath

/-! ### Character classes -/

/-- The characters that may begin a name. -/
def isNameStart (c : Char) : Bool :=
  let n := c.toNat
  (0x41 ≤ n && n ≤ 0x5A) || n == 0x5F || (0x61 ≤ n && n ≤ 0x7A)
    || (0xC0 ≤ n && n ≤ 0xD6) || (0xD8 ≤ n && n ≤ 0xF6) || (0xF8 ≤ n && n ≤ 0x2FF)
    || (0x370 ≤ n && n ≤ 0x37D) || (0x37F ≤ n && n ≤ 0x1FFF) || (0x200C ≤ n && n ≤ 0x200D)
    || (0x2070 ≤ n && n ≤ 0x218F) || (0x2C00 ≤ n && n ≤ 0x2FEF) || (0x3001 ≤ n && n ≤ 0xD7FF)
    || (0xF900 ≤ n && n ≤ 0xFDCF) || (0xFDF0 ≤ n && n ≤ 0xFFFD) || (0x10000 ≤ n && n ≤ 0xEFFFF)

/-- The characters that may continue a name. -/
def isNameChar (c : Char) : Bool :=
  let n := c.toNat
  isNameStart c || n == 0x2D || n == 0x2E || (0x30 ≤ n && n ≤ 0x39) || n == 0xB7
    || (0x300 ≤ n && n ≤ 0x36F) || (0x203F ≤ n && n ≤ 0x2040)

/-- A name without a colon: a name start followed by name characters. -/
def IsName (s : String) : Prop :=
  match s.toList with
  | [] => False
  | c :: cs => isNameStart c ∧ cs.all isNameChar

instance (s : String) : Decidable (IsName s) := by
  unfold IsName
  split <;> infer_instance

theorem isNameChar_of_isNameStart {c : Char} (h : isNameStart c) : isNameChar c := by
  simp [isNameChar, h]

/-! ### Qualified names -/

/-- A name with an optional prefix. -/
structure QName where
  /-- The part before the colon. -/
  space : Option String
  /-- The part after the colon, or the whole name. -/
  localPart : String
  deriving DecidableEq, Inhabited

def QName.toText (q : QName) : String :=
  match q.space with
  | some p => p ++ ":" ++ q.localPart
  | none => q.localPart

end XPath

/-!
# White space

White space is the Unicode property `White_Space`, twenty-five characters in all.

* `isBlank`: the property;
* `trim`: a text without the white space at its ends;
* `words`: the maximal runs of other characters, in order.
-/

namespace XPath.Text

/-! ### The property -/

/-- The characters with the Unicode property `White_Space`. -/
def isBlank (c : Char) : Bool :=
  let n := c.toNat
  (0x09 ≤ n && n ≤ 0x0D) || n == 0x20 || n == 0x85 || n == 0xA0 || n == 0x1680
    || (0x2000 ≤ n && n ≤ 0x200A) || n == 0x2028 || n == 0x2029 || n == 0x202F
    || n == 0x205F || n == 0x3000

/-! ### Cutting at white space -/

def trimStart (cs : List Char) : List Char :=
  cs.dropWhile isBlank

def trimEnd (cs : List Char) : List Char :=
  (trimStart cs.reverse).reverse

def trim (cs : List Char) : List Char :=
  trimEnd (trimStart cs)

/-- The maximal runs of characters that are not white space, in order. -/
def words : List Char → List (List Char)
  | [] => []
  | c :: cs =>
    if isBlank c then words cs
    else (c :: cs.takeWhile fun d => !isBlank d) :: words (cs.dropWhile fun d => !isBlank d)
termination_by cs => cs.length
decreasing_by
  · simp
  · have := (List.dropWhile_sublist (fun d => !isBlank d) (l := cs)).length_le
    simp; omega

end XPath.Text

import XPath.Name
import XPath.Xml.CharData

/-!
# Markup

A document is a sequence of tags, comments, processing instructions and runs of text.

* `Markup`: one item of the sequence;
* `Markup.next?`: the first item of a text and what follows it, which is shorter
  (`Markup.next?_length`);
* `Markup.all?`: the items of a whole text.
-/

namespace XPath.Xml

/-! ### Names and delimiters -/

/-- The characters of a name with a colon among them. -/
def isQNameChar (c : Char) : Bool :=
  isNameChar c || c == ':'

def beginsName (cs : List Char) : Bool :=
  cs.head?.any isNameStart

/-- The qualified name made of the characters: a local part, or a prefix and a local part with one
colon between them; an empty prefix is none. -/
def qnameOf? (cs : List Char) : Option QName :=
  let before := cs.takeWhile (· != ':')
  match cs.dropWhile (· != ':') with
  | [] => if beginsName before then some ⟨none, String.ofList before⟩ else none
  | _ :: after =>
    if after.contains ':' || !beginsName after || !(before.isEmpty || beginsName before) then none
    else some ⟨if before.isEmpty then none else some (String.ofList before), String.ofList after⟩

/-- The qualified name at the start, and what follows it. -/
def qname? (cs : List Char) : Option (QName × List Char) :=
  (qnameOf? (cs.takeWhile isQNameChar)).map (·, cs.dropWhile isQNameChar)

/-- The target at the start, and what follows it; a target may contain colons. -/
def target? (cs : List Char) : Option (String × List Char) :=
  if cs.head?.any fun c => isNameStart c || c == ':' then
    some (String.ofList (cs.takeWhile isQNameChar), cs.dropWhile isQNameChar)
  else none

/-- What follows the given beginning of a text. -/
def after? (beginning : List Char) (cs : List Char) : Option (List Char) :=
  if beginning.isPrefixOf cs then some (cs.drop beginning.length) else none

/-- What comes before the first occurrence of a delimiter, and what follows it. -/
def until? (delimiter : List Char) : List Char → Option (List Char × List Char)
  | [] => (after? delimiter []).map ([], ·)
  | c :: cs =>
    match after? delimiter (c :: cs) with
    | some rest => some ([], rest)
    | none => (until? delimiter cs).map fun (before, rest) => (c :: before, rest)

def hasInside (inside cs : List Char) : Bool :=
  (until? inside cs).isSome

/-! ### Items -/

structure RawAttribute where
  /-- The name. -/
  name : QName
  /-- The value with its references resolved. -/
  value : String
  deriving DecidableEq, Inhabited

/-- One item of a document. -/
inductive Markup
  /-- The tag of an element; an empty element ends at once. -/
  | opening (name : QName) (attributes : List RawAttribute) (isEmpty : Bool)
  /-- The tag that ends an element. -/
  | closing (name : QName)
  /-- A comment. -/
  | comment (text : String)
  /-- A processing instruction. -/
  | instruction (target value : String)
  /-- Text with its references resolved; whether it is only white space outside a section. -/
  | text (content : String) (isBlank : Bool)
  deriving DecidableEq, Inhabited

/-- The name and the written value of the attribute at the start, and what follows it. -/
def writtenAttribute? (cs : List Char) : Option ((QName × List Char) × List Char) := do
  let (name, cs) ← qname? cs
  let cs ← after? ['='] (skipSpace cs)
  match skipSpace cs with
  | [] => none
  | quote :: cs =>
    if quote != '\'' && quote != '"' then none
    else
      let value := cs.takeWhile fun c => c != quote && c != '<'
      if !value.all isDocumentChar then none
      else
        let rest ← after? [quote] (cs.dropWhile fun c => c != quote && c != '<')
        return ((name, value), rest)

def attribute? (cs : List Char) : Option (RawAttribute × List Char) := do
  let ((name, value), rest) ← writtenAttribute? cs
  let ps ← pieces? value
  return (⟨name, String.ofList (joinValue ps)⟩, rest)

theorem length_dropWhile_le (p : Char → Bool) (cs : List Char) :
    (cs.dropWhile p).length ≤ cs.length :=
  (List.dropWhile_sublist p).length_le

theorem qname?_length {cs rest : List Char} {q : QName} (h : qname? cs = some (q, rest)) :
    rest.length ≤ cs.length := by
  obtain ⟨_, _, he⟩ := Option.map_eq_some_iff.1 h
  have hr : cs.dropWhile isQNameChar = rest := congrArg Prod.snd he
  exact hr ▸ length_dropWhile_le _ _

theorem target?_length {cs rest : List Char} {s : String} (h : target? cs = some (s, rest)) :
    rest.length ≤ cs.length := by
  unfold target? at h
  split at h
  · have hr : cs.dropWhile isQNameChar = rest := congrArg Prod.snd (Option.some.inj h)
    exact hr ▸ length_dropWhile_le _ _
  · simp at h

theorem after?_length {beginning cs rest : List Char} (h : after? beginning cs = some rest) :
    rest.length + beginning.length = cs.length := by
  unfold after? at h
  split at h
  · rename_i hp
    have := (List.isPrefixOf_iff_prefix.1 hp).length_le
    rw [← Option.some.inj h, List.length_drop]
    omega
  · simp at h

theorem until?_length {delimiter cs before rest : List Char}
    (h : until? delimiter cs = some (before, rest)) : rest.length ≤ cs.length := by
  induction cs generalizing before with
  | nil =>
    obtain ⟨r, hr, he⟩ := Option.map_eq_some_iff.1 h
    have := after?_length hr
    simp only [Prod.mk.injEq] at he
    rw [← he.2]
    omega
  | cons c cs ih =>
    rw [until?] at h
    split at h
    · rename_i hr
      have := after?_length hr
      simp only [Option.some.injEq, Prod.mk.injEq] at h
      rw [← h.2]
      omega
    · obtain ⟨⟨b, r⟩, hr, he⟩ := Option.map_eq_some_iff.1 h
      simp only [Prod.mk.injEq] at he
      have := ih (he.2 ▸ hr)
      rw [List.length_cons]
      omega

theorem writtenAttribute?_length {cs rest : List Char} {w : QName × List Char}
    (h : writtenAttribute? cs = some (w, rest)) : rest.length < cs.length := by
  simp only [writtenAttribute?, Option.bind_eq_bind, Option.bind_eq_some_iff] at h
  obtain ⟨⟨q, cs₁⟩, hq, cs₂, he, h⟩ := h
  have h₁ := qname?_length hq
  have h₂ := after?_length he
  have h₃ := length_skipSpace_le cs₁
  have h₄ := length_skipSpace_le cs₂
  simp only [List.length_singleton] at h₂
  split at h
  · simp at h
  · rename_i quote cs₃ hs
    split at h
    · simp at h
    · split at h
      · simp at h
      · obtain ⟨r, hr, hret⟩ := by simpa only [Option.bind_eq_some_iff] using h
        have h₅ := after?_length hr
        have h₆ := length_dropWhile_le (fun c => c != quote && c != '<') cs₃
        rw [hs, List.length_cons] at h₄
        simp only [Option.pure_def, Option.some.injEq, Prod.mk.injEq] at hret
        rw [← hret.2]
        omega

theorem attribute?_length {cs rest : List Char} {a : RawAttribute}
    (h : attribute? cs = some (a, rest)) : rest.length < cs.length := by
  simp only [attribute?, Option.bind_eq_bind, Option.bind_eq_some_iff] at h
  obtain ⟨⟨w, r⟩, hw, ps, _, hret⟩ := h
  simp only [Option.pure_def, Option.some.injEq, Prod.mk.injEq] at hret
  exact hret.2 ▸ writtenAttribute?_length hw

def attributes? (cs : List Char) : Option (List RawAttribute × Bool × List Char) :=
  match skipSpace cs with
  | '/' :: '>' :: rest => some ([], true, rest)
  | '>' :: rest => some ([], false, rest)
  | inside =>
    if inside.length < cs.length then
      match _h : attribute? inside with
      | none => none
      | some (a, rest) =>
        (attributes? rest).map fun (as, isEmpty, rest) => (a :: as, isEmpty, rest)
    else none
termination_by cs.length
decreasing_by
  have := attribute?_length _h
  omega

theorem attributes?_length {cs rest : List Char} {as : List RawAttribute} {isEmpty : Bool}
    (h : attributes? cs = some (as, isEmpty, rest)) : rest.length < cs.length := by
  fun_induction attributes? cs generalizing as isEmpty rest with
  | case1 cs r hs =>
    have := length_skipSpace_le cs
    simp only [Option.some.injEq, Prod.mk.injEq] at h
    rw [hs] at this
    rw [← h.2.2]
    simp at this
    omega
  | case2 cs r hs =>
    have := length_skipSpace_le cs
    simp only [Option.some.injEq, Prod.mk.injEq] at h
    rw [hs] at this
    rw [← h.2.2]
    simp at this
    omega
  | case3 => simp at h
  | case4 cs _ _ hlt a r ha ih =>
    obtain ⟨⟨as', e', r'⟩, hr, he⟩ := Option.map_eq_some_iff.1 h
    have h₁ := attribute?_length ha
    have h₂ := ih hr
    simp only [Prod.mk.injEq] at he
    rw [← he.2.2]
    omega
  | case5 => simp at h

def opening? (cs : List Char) : Option (Markup × List Char) := do
  let (name, cs) ← qname? cs
  let (attributes, isEmpty, cs) ← attributes? cs
  return (.opening name attributes isEmpty, cs)

def closing? (cs : List Char) : Option (Markup × List Char) := do
  let (name, cs) ← qname? cs
  let cs ← after? ['>'] (skipSpace cs)
  return (.closing name, cs)

/-- A comment behind its opening delimiter; two hyphens may stand only at its end. -/
def comment? (cs : List Char) : Option (Markup × List Char) := do
  let (text, cs) ← until? ['-', '-', '>'] cs
  if !text.all isDocumentChar || hasInside ['-', '-'] text || text.getLast? == some '-' then none
  else return (.comment (String.ofList text), cs)

/-- A section behind its opening delimiter; it contains no references. -/
def section? (cs : List Char) : Option (Markup × List Char) := do
  let (text, cs) ← until? [']', ']', '>'] cs
  if !text.all isDocumentChar then none
  else return (.text (String.ofList (joinLines false (text.map .literal))) false, cs)

/-- A processing instruction behind its opening delimiter.  The declaration of a document, which
begins with `xml` and a space, is none. -/
def instruction? (cs : List Char) : Option (Markup × List Char) := do
  if (after? ['x', 'm', 'l', ' '] cs).isSome then none
  let (target, cs) ← target? cs
  let (value, cs) ← until? ['?', '>'] (skipSpace cs)
  if !value.all isDocumentChar then none
  else return (.instruction target (String.ofList value), cs)

/-- Text up to the next bracket; the delimiter that ends a section may not stand in it. -/
def text? (cs : List Char) : Option (Markup × List Char) := do
  let text := cs.takeWhile (· != '<')
  if !text.all isDocumentChar || hasInside [']', ']', '>'] text then none
  let ps ← pieces? text
  return (.text (String.ofList (joinLines false ps)) (text.all isSpace), cs.dropWhile (· != '<'))

namespace Markup

def next? : List Char → Option (Markup × List Char)
  | '<' :: '!' :: '-' :: '-' :: cs => comment? cs
  | '<' :: '!' :: '[' :: 'C' :: 'D' :: 'A' :: 'T' :: 'A' :: '[' :: cs => section? cs
  | '<' :: '?' :: cs => instruction? cs
  | '<' :: '/' :: cs => closing? cs
  | '<' :: cs => opening? cs
  | cs => text? cs

/-! ### Every item is shorter than the text -/

theorem opening?_length {cs rest : List Char} {m : Markup} (h : opening? cs = some (m, rest)) :
    rest.length < cs.length := by
  simp only [opening?, Option.bind_eq_bind, Option.bind_eq_some_iff] at h
  obtain ⟨⟨q, cs₁⟩, hq, ⟨as, e, cs₂⟩, ha, h⟩ := h
  have h₁ : cs₁.length ≤ cs.length := qname?_length hq
  have h₂ : cs₂.length < cs₁.length := attributes?_length ha
  simp only [Option.pure_def, Option.some.injEq, Prod.mk.injEq] at h
  rw [← h.2]
  omega

theorem closing?_length {cs rest : List Char} {m : Markup} (h : closing? cs = some (m, rest)) :
    rest.length < cs.length := by
  simp only [closing?, Option.bind_eq_bind, Option.bind_eq_some_iff] at h
  obtain ⟨⟨q, cs₁⟩, hq, cs₂, ha, h⟩ := h
  have h₁ := qname?_length hq
  have h₂ := after?_length ha
  have h₃ := length_skipSpace_le cs₁
  simp only [Option.pure_def, Option.some.injEq, Prod.mk.injEq] at h
  simp only [List.length_singleton] at h₂
  rw [← h.2]
  omega

theorem comment?_length {cs rest : List Char} {m : Markup} (h : comment? cs = some (m, rest)) :
    rest.length ≤ cs.length := by
  simp only [comment?, Option.bind_eq_bind, Option.bind_eq_some_iff] at h
  obtain ⟨⟨t, cs₁⟩, ht, h⟩ := h
  have h₁ := until?_length ht
  split at h
  · simp at h
  · simp only [Option.pure_def, Option.some.injEq, Prod.mk.injEq] at h
    rw [← h.2]
    exact h₁

theorem section?_length {cs rest : List Char} {m : Markup} (h : section? cs = some (m, rest)) :
    rest.length ≤ cs.length := by
  simp only [section?, Option.bind_eq_bind, Option.bind_eq_some_iff] at h
  obtain ⟨⟨t, cs₁⟩, ht, h⟩ := h
  have h₁ := until?_length ht
  split at h
  · simp at h
  · simp only [Option.pure_def, Option.some.injEq, Prod.mk.injEq] at h
    rw [← h.2]
    exact h₁

theorem instruction?_length {cs rest : List Char} {m : Markup}
    (h : instruction? cs = some (m, rest)) : rest.length ≤ cs.length := by
  unfold instruction? at h
  split at h
  · simp at h
  · simp only [Option.bind_eq_bind, Option.bind_eq_some_iff] at h
    obtain ⟨⟨t, cs₁⟩, ht, ⟨v, cs₂⟩, hv, h⟩ := h
    have h₁ : cs₁.length ≤ cs.length := target?_length ht
    have h₂ : cs₂.length ≤ (skipSpace cs₁).length := until?_length hv
    have h₃ := length_skipSpace_le cs₁
    split at h
    · simp at h
    · simp only [Option.pure_def, Option.some.injEq, Prod.mk.injEq] at h
      rw [← h.2]
      omega

theorem text?_rest {cs rest : List Char} {m : Markup} (h : text? cs = some (m, rest)) :
    rest = cs.dropWhile (· != '<') := by
  unfold text? at h
  simp only at h
  split at h
  · simp at h
  · simp only [Option.bind_eq_bind, Option.bind_eq_some_iff] at h
    obtain ⟨ps, _, h⟩ := h
    simp only [Option.pure_def, Option.some.injEq, Prod.mk.injEq] at h
    exact h.2.symm

/-- What follows an item is shorter than the text. -/
theorem next?_length {cs rest : List Char} {m : Markup} (hne : cs ≠ [])
    (h : next? cs = some (m, rest)) : rest.length < cs.length := by
  unfold next? at h
  split at h
  · have := comment?_length h
    simp only [List.length_cons]
    omega
  · have := section?_length h
    simp only [List.length_cons]
    omega
  · have := instruction?_length h
    simp only [List.length_cons]
    omega
  · have := closing?_length h
    simp only [List.length_cons]
    omega
  · have := opening?_length h
    simp only [List.length_cons]
    omega
  · rename_i hlt
    rw [text?_rest h]
    cases cs with
    | nil => exact absurd rfl hne
    | cons c cs =>
      have hc : (c != '<') = true := by
        rw [bne_iff_ne]
        rintro rfl
        exact hlt cs rfl
      have := length_dropWhile_le (· != '<') cs
      simp only [List.dropWhile, hc, List.length_cons]
      omega

def all? (cs : List Char) : Option (List Markup) :=
  if _hne : cs = [] then some []
  else
    match _h : next? cs with
    | none => none
    | some (m, rest) => (all? rest).map (m :: ·)
termination_by cs.length
decreasing_by exact next?_length _hne _h

end Markup
end XPath.Xml

import XPath.Xml.Namespace

/-!
# Documents

* `Item`: elements, text, comments and processing instructions;
* `Document`: the items at the outermost level, one of which is an element;
* `Document.ofMarkup?`: the document that a sequence of markup describes;
* `Document.read?`: the document that a text describes.

Runs of text that touch become one item, and no item is an empty text.
-/

namespace XPath.Xml

/-! ### Items -/

structure Attribute where
  /-- Its name. -/
  name : ExpandedName
  /-- Its value. -/
  value : String
  deriving DecidableEq, Inhabited

/-- A part of a document's content. -/
inductive Item
  /-- An element, with the bindings in scope. -/
  | element (name : ExpandedName) (scope : Scope) (attributes : List Attribute)
    (content : List Item)
  /-- A run of text. -/
  | text (content : String)
  /-- A comment. -/
  | comment (content : String)
  /-- A processing instruction. -/
  | instruction (target value : String)
  deriving Inhabited

namespace Item

def isElement : Item → Bool
  | .element .. => true
  | _ => false

mutual

/-- The text of an item and of everything inside it; comments and instructions have none. -/
def innerText : Item → String
  | .element _ _ _ content => innerTexts content
  | .text s => s
  | .comment _ => ""
  | .instruction _ _ => ""

def innerTexts : List Item → String
  | [] => ""
  | i :: is => innerText i ++ innerTexts is

end

mutual

/-- How many items there are in an item, itself included. -/
def weight : Item → Nat
  | .element _ _ _ content => weights content + 1
  | _ => 1

def weights : List Item → Nat
  | [] => 0
  | i :: is => weight i + weights is

end

theorem weight_le_weights {i : Item} {is : List Item} (h : i ∈ is) : i.weight ≤ weights is := by
  induction is with
  | nil => simp at h
  | cons j js ih =>
    rw [weights]
    rcases List.mem_cons.1 h with rfl | h
    · omega
    · have := ih h
      omega

end Item

/-- A document: the items outside and around its outermost element. -/
structure Document where
  /-- The items at the outermost level. -/
  content : List Item
  deriving Inhabited

/-! ### From markup -/

/-- An element whose end is still to come. -/
structure OpenElement where
  /-- The name in the tag. -/
  tag : QName
  /-- The expanded name. -/
  name : ExpandedName
  /-- The bindings in scope. -/
  scope : Scope
  /-- The attributes. -/
  attributes : List Attribute
  /-- The items before the element on its own level, the last first. -/
  earlier : List Item

/-- The element with its content, given the last item first. -/
def OpenElement.finish (e : OpenElement) (content : List Item) : Item :=
  .element e.name e.scope e.attributes content.reverse

def resolveAttribute? (scope : Scope) (a : RawAttribute) : Option Attribute :=
  (attributeName? scope a.name).map (⟨·, a.value⟩)

/-- The element that a tag begins, inside the given scope and behind the given items. -/
def openElement? (outer : Scope) (earlier : List Item) (tag : QName) (as : List RawAttribute) :
    Option OpenElement := do
  let (own, as) ← declarations? [] as
  let scope := outer.extend own
  let attributes ← as.mapM (resolveAttribute? scope)
  let name ← elementName? scope tag
  if (attributes.map Attribute.name).Nodup then return ⟨tag, name, scope, attributes, earlier⟩
  else none

/-- Adds text behind items given last first; it continues text that comes before it. -/
def addText (s : String) : List Item → List Item
  | .text t :: items => .text (t ++ s) :: items
  | items => if s = "" then items else .text s :: items

def innerScope (opened : List OpenElement) : Scope :=
  opened.head?.elim [] OpenElement.scope

/-- The items of the outermost level, given the open elements, the innermost first, the items behind
the start of the innermost, the last first, and the markup that follows. -/
def itemsOf? : List OpenElement → List Item → List Markup → Option (List Item)
  | [], items, [] => some items.reverse
  | _ :: _, _, [] => none
  | opened, items, .opening tag as isEmpty :: ms => do
    let e ← openElement? (innerScope opened) items tag as
    if isEmpty then itemsOf? opened (e.finish [] :: items) ms
    else itemsOf? (e :: opened) [] ms
  | [], _, .closing _ :: _ => none
  | e :: opened, items, .closing tag :: ms =>
    if tag = e.tag then itemsOf? opened (e.finish items :: e.earlier) ms else none
  | opened, items, .comment s :: ms => itemsOf? opened (.comment s :: items) ms
  | opened, items, .instruction target value :: ms =>
    itemsOf? opened (.instruction target value :: items) ms
  -- white space around the outermost element is no item
  | [], items, .text _ isBlank :: ms => if isBlank then itemsOf? [] items ms else none
  | e :: opened, items, .text s _ :: ms => itemsOf? (e :: opened) (addText s items) ms

namespace Document

/-- The document that a sequence of markup describes: one element at the outermost level, and no
text there but white space. -/
def ofMarkup? (ms : List Markup) : Option Document := do
  let content ← itemsOf? [] [] ms
  if content.countP Item.isElement = 1 then return ⟨content⟩ else none

/-! ### From text -/

/-- What follows white space, or a text that ends a declaration. -/
def skipGap? (cs : List Char) : Option (List Char) :=
  if cs.head?.any isSpace then some (skipSpace cs)
  else if (after? ['?', '>'] cs).isSome then some cs
  else none

/-- What follows an attribute whose name begins as given; without one, the text itself. -/
def skipAttribute? (name : String) (cs : List Char) : Option (List Char) :=
  if (after? name.toList cs).isSome then (writtenAttribute? cs).map Prod.snd else some cs

/-- What follows the declaration of a document, behind its first five characters. -/
def afterDeclaration? (cs : List Char) : Option (List Char) := do
  let cs ← skipGap? cs
  if (after? "version".toList cs).isNone then none
  let cs ← skipAttribute? "version" cs
  let cs ← skipGap? cs
  let cs ← if (after? "encoding".toList cs).isSome then
      (skipAttribute? "encoding" cs).bind skipGap?
    else some cs
  let cs ← skipAttribute? "standalone" cs
  after? ['?', '>'] (skipSpace cs)

def skipMark : List Char → List Char
  | '\uFEFF' :: cs => cs
  | cs => cs

/-- The text without the declaration that it may begin with. -/
def body? (cs : List Char) : Option (List Char) :=
  if (after? "<?xml ".toList cs).isSome then afterDeclaration? (cs.drop 5) else some cs

/-- The document that a text describes. -/
def read? (s : String) : Option Document := do
  let cs ← body? (skipMark s.toList)
  let ms ← Markup.all? cs
  ofMarkup? ms

end Document
end XPath.Xml

import XPath.Xml.Markup

/-!
# Namespaces

A binding gives a prefix, or no prefix, a namespace.  An element without declarations has the
bindings of its parent; one with declarations has these first, followed by those of its parent that
are new to it.  A tag may declare the namespace of names without a prefix several times: the first
of these bindings counts, and no other reaches an element with declarations of its own.

* `Binding`, `Scope`: bindings and lists of them;
* `Scope.uri?`, `Scope.prefixOf?`: from prefixes to namespaces and back;
* `declarations?`: the declarations among the attributes of a tag;
* `ExpandedName`, `elementName?`, `attributeName?`: names with their namespaces.
-/

namespace XPath.Xml

/-! ### Scopes -/

/-- A prefix, or none, and the namespace that it stands for. -/
structure Binding where
  /-- The prefix. -/
  space : Option String
  /-- The namespace. -/
  uri : String
  deriving DecidableEq, Inhabited

/-- The bindings that hold at an element. -/
abbrev Scope := List Binding

/-- The namespace of the prefix `xml`, which needs no declaration. -/
def xmlUri : String :=
  "http://www.w3.org/XML/1998/namespace"

/-- The namespace of declarations, which may not be declared itself. -/
def declarationUri : String :=
  "http://www.w3.org/2000/xmlns/"

namespace Scope

def uri? (scope : Scope) (space : Option String) : Option String :=
  (scope.find? fun b => b.space == space).map Binding.uri

/-- The prefix of the first binding with a namespace; it may have none. -/
def prefixOf? (scope : Scope) (uri : String) : Option String :=
  if uri = xmlUri then some "xml" else (scope.find? fun b => b.uri == uri).bind Binding.space

/-- Adds a binding behind the others, unless its prefix has one already. -/
def inherit (scope : Scope) (b : Binding) : Scope :=
  if (scope.uri? b.space).isSome then scope else scope ++ [b]

/-- The scope inside an element with the given declarations of its own. -/
def extend (outer own : Scope) : Scope :=
  if own.isEmpty then outer else outer.foldl inherit own

end Scope

/-! ### Declarations -/

/-- The prefix, and the name without one, that mark a declaration. -/
def declarationName : String :=
  "xmlns"

/-- The declaration of a prefix, if it is allowed behind others of the same tag; that of the prefix
`xml` adds nothing. -/
def declarePrefix? (own : Scope) (space uri : String) : Option Scope :=
  if uri = declarationUri ∨ (space = "xml" ↔ uri ≠ xmlUri) ∨ (own.uri? (some space)).isSome then
    none
  else if space = "xml" then some own
  else some (own ++ [⟨some space, uri⟩])

/-- The declaration of the namespace of names without a prefix, if it is allowed. -/
def declareDefault? (own : Scope) (uri : String) : Option Scope :=
  if uri = declarationUri ∨ uri = xmlUri then none else some (own ++ [⟨none, uri⟩])

/-- The declarations among attributes, behind those collected, and the other attributes. -/
def declarations? (own : Scope) : List RawAttribute → Option (Scope × List RawAttribute)
  | [] => some (own, [])
  | a :: as =>
    if a.name.space = some declarationName then do
      let own ← declarePrefix? own a.name.localPart a.value
      declarations? own as
    else if a.name.localPart = declarationName then do
      let own ← declareDefault? own a.value
      declarations? own as
    else (declarations? own as).map fun (own, rest) => (own, a :: rest)

/-! ### Names -/

/-- A local part with the namespace of the whole name, if it has one. -/
structure ExpandedName where
  /-- The namespace. -/
  uri : Option String
  /-- The local part. -/
  localPart : String
  deriving DecidableEq, Inhabited

/-- The expanded name of an element; a prefix has to be bound. -/
def elementName? (scope : Scope) (q : QName) : Option ExpandedName :=
  match q.space with
  | none => some ⟨scope.uri? none, q.localPart⟩
  | some p => if p = declarationName then none else
      (scope.uri? (some p)).map fun uri => ⟨some uri, q.localPart⟩

/-- The expanded name of an attribute; without a prefix it has no namespace. -/
def attributeName? (scope : Scope) (q : QName) : Option ExpandedName :=
  match q.space with
  | none => some ⟨none, q.localPart⟩
  | some p =>
    if p = "xml" then some ⟨some xmlUri, q.localPart⟩
    else (scope.uri? (some p)).map fun uri => ⟨some uri, q.localPart⟩

/-- An expanded name written with the prefix that a scope gives its namespace. -/
def ExpandedName.qualified (name : ExpandedName) (scope : Scope) : QName :=
  ⟨name.uri.bind scope.prefixOf?, name.localPart⟩

end XPath.Xml

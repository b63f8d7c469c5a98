/-!
# Language tags

A language tag is a list of subtags joined by hyphens.  Well-formed tags are those of the usual
grammar: a language with up to three extensions of it, a script, a region, variants, extensions and
a private part, each optional but the first; tags for private use; and a list of older tags that are
accepted as a whole.

* `LanguageTag.isWellFormed`: whether a text is a well-formed tag;
* `LanguageTag.matchesBy`: whether a tag falls under a language range, for any way to read tags;
* `LanguageTag.matches?`: the same for well-formed tags.
-/

namespace XPath
namespace LanguageTag

/-! ### Subtags -/

/-- Letters and digits of the ASCII range. -/
def isAlphanumeric (c : Char) : Bool :=
  c.isAlpha || c.isDigit

def subtags : List Char → List (List Char)
  | [] => [[]]
  | c :: cs =>
    if c = '-' then [] :: subtags cs
    else
      match subtags cs with
      | [] => [[c]]
      | s :: ss => (c :: s) :: ss

/-- The text with ASCII letters in lower case. -/
def fold (cs : List Char) : List Char :=
  cs.map Char.toLower

/-! ### The grammar -/

/-- How far a tag has been read. -/
inductive Stage
  /-- A short language, with the number of extensions of it so far. -/
  | language (extensions : Nat)
  /-- A long language, which takes no extensions. -/
  | longLanguage
  | script
  /-- A region or a variant. -/
  | region
  /-- An extension; whether something follows its letter. -/
  | extension (complete : Bool)
  /-- The private part; whether something follows its letter. -/
  | privateUse (complete : Bool)
  deriving DecidableEq

namespace Stage

def isFinal : Stage → Bool
  | .extension complete | .privateUse complete => complete
  | _ => true

def beforeScript : Stage → Bool
  | .language _ | .longLanguage => true
  | _ => false

def beforeRegion (s : Stage) : Bool :=
  s.beforeScript || s == .script

def beforeVariant (s : Stage) : Bool :=
  s.beforeRegion || s == .region

end Stage

/-- Whether a subtag has the form of a region: two letters or three digits. -/
def isRegion (s : List Char) : Bool :=
  (s.length == 2 && s.all Char.isAlpha) || (s.length == 3 && s.all Char.isDigit)

/-- Whether a subtag has the form of a variant: at least five characters, or four after a digit. -/
def isVariant (s : List Char) : Bool :=
  s.all isAlphanumeric && match s with
    | [] => false
    | c :: _ => (5 ≤ s.length && c.isAlpha) || (4 ≤ s.length && c.isDigit)

/-- The stage after one more subtag, if it may stand there. -/
def Stage.next? (stage : Stage) (s : List Char) : Option Stage :=
  if s.isEmpty || 8 < s.length then none
  else
    match stage with
    | .privateUse _ => if s.all isAlphanumeric then some (.privateUse true) else none
    | _ =>
      -- a single character begins an extension or the private part
      if s.length == 1 && s.all isAlphanumeric then
        if !stage.isFinal then none
        else some (if fold s = ['x'] then .privateUse false else .extension false)
      else
        match stage with
        | .extension _ => if s.all isAlphanumeric then some (.extension true) else none
        | _ =>
          match stage, s.length == 3 && s.all Char.isAlpha with
          | .language n, true => if n < 3 then some (.language (n + 1)) else none
          | _, _ =>
            if stage.beforeScript && s.length == 4 && s.all Char.isAlpha then some .script
            else if stage.beforeRegion && isRegion s then some .region
            else if stage.beforeVariant && isVariant s then some .region
            else none

/-- The stage after the language that begins a tag, if the subtag is one. -/
def Stage.first? (s : List Char) : Option Stage :=
  if 2 ≤ s.length && s.length ≤ 8 && s.all Char.isAlpha then
    some (if s.length < 4 then .language 0 else .longLanguage)
  else none

def isLanguageTag : List (List Char) → Bool
  | [] => false
  | s :: ss => ((Stage.first? s).bind fun stage => ss.foldlM Stage.next? stage).any Stage.isFinal

/-- The older tags that are accepted as a whole. -/
def grandfathered : List String :=
  ["art-lojban", "cel-gaulish", "en-gb-oed", "i-ami", "i-bnn", "i-default", "i-enochian", "i-hak",
    "i-klingon", "i-lux", "i-mingo", "i-navajo", "i-pwn", "i-tao", "i-tay", "i-tsu", "no-bok",
    "no-nyn", "sgn-be-fr", "sgn-be-nl", "sgn-ch-de", "zh-guoyu", "zh-hakka", "zh-min", "zh-min-nan",
    "zh-xiang"]

/-- Whether a text is a tag for private use: the letter `x`, a hyphen and at least one more
character. -/
def isPrivateTag : List Char → Bool
  | c :: '-' :: rest => c.toLower == 'x' && !rest.isEmpty && rest.all fun d =>
      isAlphanumeric d || d == '-'
  | _ => false

def isWellFormed (cs : List Char) : Bool :=
  grandfathered.any (fun g => g.toList == fold cs) || isPrivateTag cs || isLanguageTag (subtags cs)

def parse? (s : String) : Option String :=
  if isWellFormed s.toList then some s else none

/-! ### Ranges -/

/-- Whether the subtags of a range begin those of a tag, without regard to case. -/
def fallsUnder : (tag range : List (List Char)) → Bool
  | _, [] => true
  | [], _ :: _ => false
  | subtag :: tag, wanted :: range => fold subtag == fold wanted && fallsUnder tag range

/-- Whether a tag falls under a language range, if `parse` reads tags: both are tags, and the
subtags of the range begin those of the tag. -/
def matchesBy (parse : String → Option String) (tag range : String) : Bool :=
  match parse tag, parse range with
  | some tag, some range => fallsUnder (subtags tag.toList) (subtags range.toList)
  | _, _ => false

/-- Whether a well-formed tag falls under a language range. -/
def matches? (tag range : String) : Bool :=
  matchesBy parse? tag range

end LanguageTag
end XPath

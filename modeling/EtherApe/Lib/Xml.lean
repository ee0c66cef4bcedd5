import Mathlib.Data.List.Basic
import Mathlib.Data.List.Infix
import Mathlib.Tactic.Common

/-!
# XML documents

The productions of XML 1.0 for documents without a document type declaration: a document is spelled by
tokens, and what is read from it are the tags and characters that the tokens stand for. `render` writes
tags and characters down as they are, without escaping; what was so written is read back just when the
characters are none that mean markup.
-/

namespace Xml

abbrev Text := List Char

/-- What holds of every member of a list is checked member by member, also where the type is finite. -/
scoped instance (priority := high) decidableForallMem {α : Type*} (p : α → Prop) [DecidablePred p]
    (l : List α) : Decidable (∀ x ∈ l, p x) := List.decidableBAll p l

/-! ### Characters and names -/

def IsChar (c : Char) : Prop :=
  c = '\t' ∨ c = '\n' ∨ c = '\r' ∨ 0x20 ≤ c.toNat ∧ c.toNat ≠ 0xfffe ∧ c.toNat ≠ 0xffff

def IsSpace (c : Char) : Prop := c = ' ' ∨ c = '\t' ∨ c = '\n' ∨ c = '\r'

def nameStartRanges : List (Nat × Nat) :=
  [(0x3a, 0x3a), (0x41, 0x5a), (0x5f, 0x5f), (0x61, 0x7a), (0xc0, 0xd6), (0xd8, 0xf6), (0xf8, 0x2ff),
    (0x370, 0x37d), (0x37f, 0x1fff), (0x200c, 0x200d), (0x2070, 0x218f), (0x2c00, 0x2fef),
    (0x3001, 0xd7ff), (0xf900, 0xfdcf), (0xfdf0, 0xfffd), (0x10000, 0xeffff)]

/-- The ranges that may follow beside them. -/
def nameRanges : List (Nat × Nat) :=
  [(0x2d, 0x2e), (0x30, 0x39), (0xb7, 0xb7), (0x300, 0x36f), (0x203f, 0x2040)]

def InRanges (ranges : List (Nat × Nat)) (c : Char) : Prop :=
  ∃ r ∈ ranges, r.1 ≤ c.toNat ∧ c.toNat ≤ r.2

def IsNameStart (c : Char) : Prop := InRanges nameStartRanges c

def IsNameChar (c : Char) : Prop := IsNameStart c ∨ InRanges nameRanges c

def IsName : Text → Prop
  | [] => False
  | c :: cs => IsNameStart c ∧ ∀ x ∈ cs, IsNameChar x

instance (c : Char) : Decidable (IsChar c) := inferInstanceAs (Decidable (_ ∨ _ ∨ _ ∨ _))

instance (c : Char) : Decidable (IsSpace c) := inferInstanceAs (Decidable (_ ∨ _ ∨ _ ∨ _))

instance (ranges : List (Nat × Nat)) (c : Char) : Decidable (InRanges ranges c) :=
  inferInstanceAs (Decidable (∃ r ∈ ranges, _))

instance (c : Char) : Decidable (IsNameStart c) := inferInstanceAs (Decidable (InRanges _ _))

instance (c : Char) : Decidable (IsNameChar c) := inferInstanceAs (Decidable (_ ∨ _))

instance : DecidablePred IsName
  | [] => isFalse id
  | _ :: _ => inferInstanceAs (Decidable (_ ∧ ∀ x ∈ _, _))

/-! ### Tokens -/

def entities : List (Text × Char) :=
  [(['l', 't'], '<'), (['g', 't'], '>'), (['a', 'm', 'p'], '&'), (['a', 'p', 'o', 's'], '\''),
    (['q', 'u', 'o', 't'], '"')]

/-- The value of a digit, of which hexadecimal numbers have more. -/
def digitValue (base : Nat) (c : Char) : Option Nat :=
  let value :=
    if '0' ≤ c ∧ c ≤ '9' then some (c.toNat - '0'.toNat)
    else if 'a' ≤ c ∧ c ≤ 'f' then some (c.toNat - 'a'.toNat + 10)
    else if 'A' ≤ c ∧ c ≤ 'F' then some (c.toNat - 'A'.toNat + 10)
    else none
  value.filter (· < base)

def numberValue (base : Nat) (digits : Text) : Option Nat :=
  digits.foldlM (fun value c => (digitValue base c).map (value * base + ·)) 0

/-- What stands between `&` and `;`, and the character it refers to. -/
inductive Reference : Text → Char → Prop
  | entity {name : Text} {c : Char} (h : (name, c) ∈ entities) : Reference name c
  | decimal {digits : Text} {c : Char} (hdigits : digits ≠ [])
      (hvalue : numberValue 10 digits = some c.toNat) (hc : IsChar c) : Reference ('#' :: digits) c
  | hexadecimal {digits : Text} {c : Char} (hdigits : digits ≠ [])
      (hvalue : numberValue 16 digits = some c.toNat) (hc : IsChar c) :
      Reference ('#' :: 'x' :: digits) c

/-- A character of an attribute value, as it is or by reference. -/
inductive ValueItem
  | char (c : Char)
  | reference (body : Text) (c : Char)

namespace ValueItem

def spelling : ValueItem → Text
  | char c => [c]
  | reference body _ => '&' :: body ++ [';']

/-- White space is read as a blank. -/
def value : ValueItem → Char
  | char c => if IsSpace c then ' ' else c
  | reference _ c => c

def Valid (quote : Char) : ValueItem → Prop
  | char c => IsChar c ∧ c ≠ '<' ∧ c ≠ '&' ∧ c ≠ quote
  | reference body c => Reference body c

end ValueItem

/-- An attribute with the white space before it and around its `=`. -/
structure Attribute where
  before : Text
  name : Text
  left : Text
  right : Text
  quote : Char
  items : List ValueItem

namespace Attribute

def spelling (a : Attribute) : Text :=
  a.before ++ a.name ++ a.left ++ '=' :: a.right ++ a.quote :: a.items.flatMap ValueItem.spelling ++
    [a.quote]

def value (a : Attribute) : Text := a.items.map ValueItem.value

structure Valid (a : Attribute) : Prop where
  before : a.before ≠ [] ∧ ∀ c ∈ a.before, IsSpace c
  name : IsName a.name
  left : ∀ c ∈ a.left, IsSpace c
  right : ∀ c ∈ a.right, IsSpace c
  quote : a.quote = '"' ∨ a.quote = '\''
  items : ∀ item ∈ a.items, item.Valid a.quote

end Attribute

/-- What is read from a document: its tags, with their attributes, and its characters. -/
inductive Event (α : Type)
  | start (name : List α) (attributes : List (List α × List α))
  | finish (name : List α)
  | char (c : α)

inductive Token
  | char (c : Char)
  | reference (body : Text) (c : Char)
  | cdata (content : Text)
  | comment (content : Text)
  | instruction (target content : Text)
  | startTag (name : Text) (attributes : List Attribute) (space : Text)
  | endTag (name space : Text)
  | emptyTag (name : Text) (attributes : List Attribute) (space : Text)

namespace Token

def spelling : Token → Text
  | char c => [c]
  | reference body _ => '&' :: body ++ [';']
  | cdata content => ['<', '!', '[', 'C', 'D', 'A', 'T', 'A', '['] ++ content ++ [']', ']', '>']
  | comment content => ['<', '!', '-', '-'] ++ content ++ ['-', '-', '>']
  | instruction target content => ['<', '?'] ++ target ++ content ++ ['?', '>']
  | startTag name attributes space =>
      '<' :: name ++ attributes.flatMap Attribute.spelling ++ space ++ ['>']
  | endTag name space => ['<', '/'] ++ name ++ space ++ ['>']
  | emptyTag name attributes space =>
      '<' :: name ++ attributes.flatMap Attribute.spelling ++ space ++ ['/', '>']

def events : Token → List (Event Char)
  | char c => [.char c]
  | reference _ c => [.char c]
  | cdata content => content.map .char
  | comment _ => []
  | instruction _ _ => []
  | startTag name attributes _ => [.start name (attributes.map fun a => (a.name, a.value))]
  | endTag name _ => [.finish name]
  | emptyTag name attributes _ =>
      [.start name (attributes.map fun a => (a.name, a.value)), .finish name]

/-- What the productions and their constraints ask of a token. -/
def Valid : Token → Prop
  | char c => IsChar c ∧ c ≠ '<' ∧ c ≠ '&'
  | reference body c => Reference body c
  | cdata content => (∀ c ∈ content, IsChar c) ∧ ¬[']', ']', '>'] <:+: content
  | comment content =>
      (∀ c ∈ content, IsChar c) ∧ ¬['-', '-'] <:+: content ∧ content.getLast? ≠ some '-'
  | instruction target content =>
      IsName target ∧ target.map Char.toLower ≠ ['x', 'm', 'l'] ∧ (∀ c ∈ content, IsChar c) ∧
        (∀ c ∈ content.head?, IsSpace c) ∧ ¬['?', '>'] <:+: content
  | startTag name attributes space =>
      IsName name ∧ (∀ a ∈ attributes, a.Valid) ∧ (attributes.map Attribute.name).Nodup ∧
        ∀ c ∈ space, IsSpace c
  | endTag name space => IsName name ∧ ∀ c ∈ space, IsSpace c
  | emptyTag name attributes space =>
      IsName name ∧ (∀ a ∈ attributes, a.Valid) ∧ (attributes.map Attribute.name).Nodup ∧
        ∀ c ∈ space, IsSpace c

/-- Comments, processing instructions and white space, which may stand around the root element. -/
def IsMisc : Token → Prop
  | char c => IsSpace c
  | comment _ => True
  | instruction _ _ => True
  | reference _ _ => False
  | cdata _ => False
  | startTag _ _ _ => False
  | endTag _ _ => False
  | emptyTag _ _ _ => False

/-- The tags that an element starts with. -/
def Opens : Token → Prop
  | startTag _ _ _ => True
  | emptyTag _ _ _ => True
  | char _ => False
  | reference _ _ => False
  | cdata _ => False
  | comment _ => False
  | instruction _ _ => False
  | endTag _ _ => False

end Token

def spell (ts : List Token) : Text := ts.flatMap Token.spelling

/-! ### Documents -/

/-- An XML declaration; the encoding is UTF-8 where it is not given. -/
def IsDeclaration (decl : Text) : Prop :=
  ∃ (version : Attribute) (encoding standalone : Option Attribute) (space : Text),
    version.Valid ∧ version.name = "version".toList ∧
      (∃ digits, digits ≠ [] ∧ (∀ c ∈ digits, c.isDigit) ∧
        version.items = ('1' :: '.' :: digits).map .char) ∧
      (∀ a ∈ encoding, a.Valid ∧ a.name = "encoding".toList ∧
        a.items = "UTF-8".toList.map .char) ∧
      (∀ a ∈ standalone, a.Valid ∧ a.name = "standalone".toList ∧
        (a.items = "yes".toList.map .char ∨ a.items = "no".toList.map .char)) ∧
      (∀ c ∈ space, IsSpace c) ∧
      decl = ['<', '?', 'x', 'm', 'l'] ++ version.spelling ++
        encoding.toList.flatMap Attribute.spelling ++
          standalone.toList.flatMap Attribute.spelling ++ space ++ ['?', '>']

/-- Line ends are read as a single newline. -/
def normalizeLines : Text → Text
  | [] => []
  | '\r' :: '\n' :: cs => '\n' :: normalizeLines cs
  | c :: cs => (if c = '\r' then '\n' else c) :: normalizeLines cs

variable {α : Type}

/-- Events in which every tag that opens is closed. -/
inductive Content : List (Event α) → Prop
  | nil : Content []
  | char {rest : List (Event α)} (c : α) (h : Content rest) : Content (.char c :: rest)
  | element {body rest : List (Event α)} (name : List α) (attributes : List (List α × List α))
      (hbody : Content body) (hrest : Content rest) :
      Content (.start name attributes :: body ++ .finish name :: rest)

/-- The events of one element. -/
def IsElement (events : List (Event α)) : Prop :=
  ∃ name attributes body, Content body ∧ events = .start name attributes :: body ++ [.finish name]

/-- The tokens of a well-formed document, and the events that are read from it. -/
structure Reading (doc : Text) (events : List (Event Char)) where
  decl : Text
  prolog : List Token
  root : List Token
  epilog : List Token
  decl_valid : decl = [] ∨ IsDeclaration decl
  prolog_valid : ∀ t ∈ prolog, t.Valid ∧ t.IsMisc
  root_valid : ∀ t ∈ root, t.Valid
  root_opens : ∀ t ∈ root.head?, t.Opens
  epilog_valid : ∀ t ∈ epilog, t.Valid ∧ t.IsMisc
  no_cdata_end : ¬[.char ']', .char ']', .char '>'] <:+: root
  spelled : normalizeLines doc = decl ++ spell (prolog ++ root ++ epilog)
  events_eq : root.flatMap Token.events = events
  element : IsElement events

/-- The document is well-formed, and `events` are read from it. -/
def Reads (doc : Text) (events : List (Event Char)) : Prop := Nonempty (Reading doc events)

end Xml

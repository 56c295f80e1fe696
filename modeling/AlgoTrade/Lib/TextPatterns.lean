import Mathlib.Data.List.Infix

/-! # Searching a text for a pattern

Patterns are sequences of atoms: a word boundary, one of some texts, white space,
or one of some characters.  A search finds any place where the atoms match in turn;
what counts as a word character and as white space is a parameter. -/

namespace TextPattern

/-- What a search needs to know of characters. -/
structure CharClasses where
  isWord : Char → Bool
  isSpace : Char → Bool

inductive Atom
  | boundary
  | text (alternatives : List String)
  | spaces (atLeastOne : Bool)
  | oneOf (chars : List Char)
  deriving DecidableEq, Repr

/-- A place in a text: the character before it, and the rest. -/
structure Place where
  before : Option Char
  rest : List Char
  deriving DecidableEq, Repr

namespace Place

/-- Past a text that stands here. -/
def skip (q : Place) : List Char → Option Place
  | [] => some q
  | c :: cs =>
    match q.rest with
    | [] => none
    | d :: rest => if c = d then skip ⟨some d, rest⟩ cs else none

/-- The places reached over white space. -/
def overSpaces (isSpace : Char → Bool) (before : Option Char) : List Char → List Place
  | [] => [⟨before, []⟩]
  | c :: cs => ⟨before, c :: cs⟩ :: if isSpace c then overSpaces isSpace (some c) cs else []

/-- Every place from here on. -/
def following (before : Option Char) : List Char → List Place
  | [] => [⟨before, []⟩]
  | c :: cs => ⟨before, c :: cs⟩ :: following (some c) cs

end Place

/-- Where an atom that starts at a place can end. -/
def Atom.ends (classes : CharClasses) (q : Place) : Atom → List Place
  | .boundary =>
    if (q.before.any classes.isWord) = (q.rest.head?.any classes.isWord) then [] else [q]
  | .text alternatives => alternatives.filterMap fun s => q.skip s.toList
  | .spaces atLeastOne =>
    let places := Place.overSpaces classes.isSpace q.before q.rest
    if atLeastOne then places.tail else places
  | .oneOf chars =>
    match q.rest with
    | [] => []
    | c :: rest => if c ∈ chars then [⟨some c, rest⟩] else []

/-- The atoms match in turn. -/
def matchesAt (classes : CharClasses) : List Atom → Place → Bool
  | [], _ => true
  | atom :: atoms, q => (atom.ends classes q).any (matchesAt classes atoms)

/-- They do somewhere in the text. -/
def search (classes : CharClasses) (atoms : List Atom) (text : String) : Bool :=
  (Place.following none text.toList).any (matchesAt classes atoms)

end TextPattern

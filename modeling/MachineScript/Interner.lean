import MachineScript.Bindings

/-!
Contract: a growing table of distinct texts, each with a number.

Owns: the two halves of the table, from texts to numbers and from numbers to
texts, which agree in every table; interning, and look-up in both directions.

Names are dense and follow first occurrence; the empty text is there from the
start as number zero. There is no last name: a table may grow without bound. The
program keeps a name in 32 bits, so the two are alike below 2^32 texts.
-/

namespace MachineScript

abbrev NameId := Nat

/-- Interned texts, in the order in which they were first seen, and the map that leads from each of
them to its place. -/
structure Interner where
  index : Bindings String NameId
  texts : List String
  agrees : ∀ text name, index.find? text = some name ↔ texts[name]? = some text
deriving DecidableEq

namespace Interner

/-- The table with the empty text only. -/
def empty : Interner where
  index := [("", 0)]
  texts := [""]
  agrees text name := by
    cases name <;> simp [Bindings.find?]

/-- The number of a text, if it has been interned. -/
def get? (interner : Interner) (text : String) : Option NameId :=
  interner.index.find? text

/-- Behind a list stands one more member, at the place of its length. -/
theorem getElem?_append_singleton_eq_some_iff {texts : List String} {text other : String}
    {place : Nat} :
    (texts ++ [text])[place]? = some other
      ↔ texts[place]? = some other ∨ place = texts.length ∧ text = other := by
  rw [List.getElem?_append]
  split
  · next inside => simp [Nat.ne_of_lt inside]
  · next outside =>
      have atEnd : place - texts.length = 0 ↔ place = texts.length := by omega
      simp [List.getElem?_singleton, Nat.le_of_not_lt outside, atEnd]

/-- The table with one more text, which has not been interned before, behind all others. -/
def extend (interner : Interner) (text : String) (absent : interner.get? text = none) :
    Interner where
  index := interner.index.insert text interner.texts.length
  texts := interner.texts ++ [text]
  agrees other name := by
    rw [getElem?_append_singleton_eq_some_iff, ← interner.agrees]
    by_cases same : text = other
    · subst same
      rw [Bindings.find?_insert_same, show interner.index.find? text = none from absent]
      simp [eq_comm]
    · rw [Bindings.find?_insert_other _ _ same]
      simp [same]

/-- The number of a text, which is given the next one if it has none. -/
def intern (interner : Interner) (text : String) : NameId × Interner :=
  match absent : interner.get? text with
  | some name => (name, interner)
  | none => (interner.texts.length, interner.extend text absent)

/-- Intern texts one after another, keeping the table. -/
def internAll (interner : Interner) (texts : List String) : Interner :=
  texts.foldl (fun table text => (table.intern text).2) interner

/-- The text of a number; numbers not given out stand for the empty text. -/
def lookup (interner : Interner) (name : NameId) : String :=
  interner.texts.getD name ""

def size (interner : Interner) : Nat :=
  interner.texts.length

/-- A table without any text; none that grew from `empty` is. -/
def isEmpty (interner : Interner) : Bool :=
  interner.texts.isEmpty

end Interner

end MachineScript

import MachineScript.Instance

/-!
Contract: the variables that the instances of a machine share.

A cell exists while some instance holds it. It is created with its default by
the first holder and freed with the last, so that the next holder starts from
the default again.

Does not own: the width of a count. The program counts the holds on a cell in 32
bits and stops at the greatest number there; counts here go on. The two are alike
as long as no cell has 2^32 holds or more.
-/

namespace MachineScript

/-- A shared value with the number of holds on it. -/
structure SharedCell where
  value : Value
  holders : Nat
deriving DecidableEq

abbrev SharedCells := Bindings SharedKey SharedCell

namespace SharedCells

def value? (cells : SharedCells) (key : SharedKey) : Option Value :=
  (cells.find? key).map SharedCell.value

/-- The number of holds on a cell; none if it does not exist. -/
def holders (cells : SharedCells) (key : SharedKey) : Nat :=
  ((cells.find? key).map SharedCell.holders).getD 0

def retain? (cells : SharedCells) (key : SharedKey) : Option SharedCells :=
  match cells.find? key with
  | some cell => some (cells.insert key { cell with holders := cell.holders + 1 })
  | none => none

def create (cells : SharedCells) (key : SharedKey) (value : Value) : SharedCells :=
  cells.insert key ⟨value, 1⟩

/-- Let go of a cell; it is freed with the last hold. -/
def release (cells : SharedCells) (key : SharedKey) : SharedCells :=
  match cells.find? key with
  | some cell =>
      if cell.holders ≤ 1 then cells.erase key
      else cells.insert key { cell with holders := cell.holders - 1 }
  | none => cells

def releaseAll (cells : SharedCells) (keys : List SharedKey) : SharedCells :=
  keys.foldl release cells

/-- Overwrite the value of a cell, if it exists. -/
def assign? (cells : SharedCells) (key : SharedKey) (value : Value) : Option SharedCells :=
  match cells.find? key with
  | some cell => some (cells.insert key { cell with value := value })
  | none => none

end SharedCells

end MachineScript

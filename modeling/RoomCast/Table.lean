namespace RoomCast

abbrev Table (κ α : Type) := List (κ × α)

namespace Table

variable {κ α : Type} [DecidableEq κ]

def get? (key : κ) : Table κ α → Option α
  | [] => none
  | (k, a) :: t => if k = key then some a else get? key t

/-- Gives a key a value, in place of an earlier one. -/
def put (key : κ) (value : α) : Table κ α → Table κ α
  | [] => [(key, value)]
  | (k, a) :: t => if k = key then (key, value) :: t else (k, a) :: put key value t

def remove (key : κ) : Table κ α → Table κ α
  | [] => []
  | (k, a) :: t => if k = key then t else (k, a) :: remove key t

end Table

def insertOrdered {α : Type} [DecidableEq α] (before : α → α → Bool) (x : α) : List α → List α
  | [] => [x]
  | y :: ys =>
    if x = y then y :: ys
    else if before x y then x :: y :: ys
    else y :: insertOrdered before x ys

def total : List Nat → Nat
  | [] => 0
  | n :: ns => n + total ns

end RoomCast

import RoomCast.Form
import RoomCast.MergeLayer

namespace RoomCast

structure PublishForm where
  room : Option String
  items : Option String
deriving DecidableEq, Repr

/-- The value of a field that may occur once; `none` if it occurs more often. -/
def Form.single? (form : Form) (name : String) : Option (Option String) :=
  match form.values name with
  | [] => some none
  | [value] => some (some value)
  | _ => none

/-- The fields of a form for everyone, in which a room counts for nothing. -/
def PublishForm.forAll? (form : Form) : Option PublishForm :=
  (form.single? "items").map fun items => ⟨none, items⟩

def PublishForm.forRoom? (form : Form) : Option PublishForm :=
  match form.single? "room", form.single? "items" with
  | some room, some items => some ⟨room, items⟩
  | _, _ => none

def fragmentsOf (text : String) : Option (List Fragment) := (readFragments.readAll text).toOption

structure Publish where
  key : BatchKey
  items : List Fragment
deriving DecidableEq, Repr

namespace Publish

def toAll? (form : PublishForm) : Option Publish :=
  (form.items.bind fragmentsOf).map fun items => ⟨.broadcast, items⟩

def toRoom? (form : PublishForm) : Option Publish :=
  match form.room.filter (· ≠ "") with
  | none => none
  | some room => (form.items.bind fragmentsOf).map fun items => ⟨.room room, items⟩

end Publish

def MergeLayer.pushEach (key : BatchKey) : List Fragment → MergeLayer → MergeLayer × Nat
  | [], m => (m, 0)
  | item :: items, m =>
    let (m, outcome) := m.push ⟨key, item⟩
    let (m, dropped) := pushEach key items m
    (m, match outcome with
      | .ok () => dropped
      | .error _ => dropped + 1)

/-- Hands a publish to the merge layer, and counts the items that were turned away. -/
def MergeLayer.publish (m : MergeLayer) (p : Publish) : MergeLayer × Nat :=
  MergeLayer.pushEach p.key p.items m

end RoomCast

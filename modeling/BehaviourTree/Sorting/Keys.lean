import BehaviourTree.Sorting.Long

/-!
Sorting by keys, of which some may be missing. Elements with equal keys keep their order.
-/

namespace BehaviourTree.Sorting

variable {α : Type}

/-- The key of one is less than that of the other. A missing key compares as equal to all. -/
def keyLess (key : α → Option Int) (x y : α) : Bool :=
  match key x, key y with
  | some a, some b => a < b
  | _, _ => false

/-- Up to this length, elements of which a key is missing are inserted in turn. -/
def insertionLength : Nat := 20

/-- Sorts by keys. If all are there, only one list is sorted and keeps the order of equals, so any
way to find it will do; if not, it matters which elements are compared. -/
def sortByKey (key : α → Option Int) (xs : List α) : Attempt α (List α) :=
  if xs.all fun x => (key x).isSome then .ok (xs.mergeSort fun x y => !keyLess key y x)
  else if xs.length ≤ insertionLength then .ok (insertAll (keyLess key) [] xs)
  else sortLong (keyLess key) xs

end BehaviourTree.Sorting

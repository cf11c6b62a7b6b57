/-!
Sorting short lists. Comparisons need not agree with each other: an element that compares as equal
to all others may stand between two of which one is less. Then the result depends on which elements
are compared, and it may turn out on the way that there is none.
-/

namespace BehaviourTree.Sorting

variable {α : Type}

/-- What comes of sorting; or, where two comparisons have contradicted each other, the list as it
stood then. -/
abbrev Attempt (α : Type) : Type → Type := Except (List α)

/-- The list, sorted or not. -/
def Attempt.items : Attempt α (List α) → List α
  | .ok xs => xs
  | .error xs => xs

/-- Inserts an element into a sorted list that is held last element first. It passes those that it
is less than. -/
def insertLast (less : α → α → Bool) (x : α) : List α → List α
  | [] => [x]
  | y :: ys => if less x y then y :: insertLast less x ys else x :: y :: ys

/-- Inserts elements in turn, each from the end of a sorted list. -/
def insertAll (less : α → α → Bool) (sorted xs : List α) : List α :=
  (xs.foldl (fun s x => insertLast less x s) sorted.reverse).reverse

/-- Sorts four elements: first two pairs of them, then the ends, and at last the middle. -/
def sortFour (less : α → α → Bool) : List α → List α
  | [a, b, c, d] =>
    let (a, b) := if less b a then (b, a) else (a, b)
    let (c, d) := if less d c then (d, c) else (c, d)
    let (least, left, right, greatest) := match less c a, less d b with
      | false, false => (a, b, c, d)
      | false, true => (a, c, d, b)
      | true, false => (c, a, b, d)
      | true, true => (c, a, d, b)
    if less right left then [least, right, left, greatest] else [least, left, right, greatest]
  | xs => xs

/-- Takes `n` elements off the fronts of two lists, and gives them and what is left of the lists. -/
def takeFronts (fromFirst : α → α → Bool) : Nat → List α → List α → List α × List α × List α
  | n+1, x :: xs, y :: ys =>
    if fromFirst x y then
      let r := takeFronts fromFirst n xs (y :: ys)
      (x :: r.1, r.2)
    else
      let r := takeFronts fromFirst n (x :: xs) ys
      (y :: r.1, r.2)
  | _, xs, ys => ([], xs, ys)

/-- Merges two sorted lists, the first of which is not the longer one, from both ends to the middle.
There is no result if an element has been taken at both ends. -/
def mergeEnds? (less : α → α → Bool) (xs ys : List α) : Option (List α) :=
  let (front, xs₁, ys₁) := takeFronts (fun x y => !less y x) xs.length xs ys
  let (back, xs₂, ys₂) := takeFronts (fun x y => less y x) xs.length xs.reverse ys.reverse
  if xs.length ≤ xs₁.length+xs₂.length ∧ ys.length ≤ ys₁.length+ys₂.length then
    some (front ++ xs₁.take (xs₁.length+xs₂.length-xs.length) ++
      ys₁.take (ys₁.length+ys₂.length-ys.length) ++ back.reverse)
  else none

/-- Sorts one half of a list of `n` elements: eight or four elements first if there are enough, and
then the others in turn. -/
def sortHalf? (less : α → α → Bool) (n : Nat) (half : List α) : Option (List α) :=
  if 16 ≤ n then
    (mergeEnds? less (sortFour less (half.take 4)) (sortFour less ((half.drop 4).take 4))).map
      fun start => insertAll less start (half.drop 8)
  else if 8 ≤ n then some (insertAll less (sortFour less (half.take 4)) (half.drop 4))
  else some (insertAll less [] half)

/-- Lists up to this length are short. -/
def shortLength : Nat := 32

/-- Sorts a short list by halves. -/
def sortShort (less : α → α → Bool) (xs : List α) : Attempt α (List α) :=
  let n := xs.length
  if n < 2 then .ok xs
  else match sortHalf? less n (xs.take (n/2)), sortHalf? less n (xs.drop (n/2)) with
    | some left, some right => match mergeEnds? less left right with
      | some sorted => .ok sorted
      | none => .error (left ++ right)
    | _, _ => .error xs

end BehaviourTree.Sorting

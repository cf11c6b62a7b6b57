import BehaviourTree.Sorting.Short

/-!
Sorting long lists: stretches that are in order already are kept, others are split around pivots,
and neighbours are merged.
-/

namespace BehaviourTree.Sorting

variable {α : Type}

/-! ### Runs -/

/-- A stretch of a list. One that is not sorted yet may still grow. -/
structure Run (α : Type) where
  items : List α
  sorted : Bool

/-- Merges two sorted lists, from the side of the shorter one. -/
def mergeRuns (less : α → α → Bool) (xs ys : List α) : List α :=
  if xs.length ≤ ys.length then xs.merge ys fun x y => !less y x
  else (xs.reverse.merge ys.reverse fun x y => less y x).reverse

/-- How many more elements go down after `x`, or up if `down` is not set. -/
def stepsAfter (less : α → α → Bool) (down : Bool) : α → List α → Nat
  | _, [] => 0
  | x, y :: ys => if less y x = down then stepsAfter less down y ys+1 else 0

/-- How many elements at the start go up, or strictly down, and whether they go down. -/
def startOrder (less : α → α → Bool) : List α → Nat × Bool
  | x :: y :: ys => (stepsAfter less (less y x) y ys+2, less y x)
  | xs => (xs.length, false)

/-- The root of a large number, about. -/
def approximateRoot (n : Nat) : Nat :=
  let guess := Nat.pow 2 ((n.log2+1)/2)
  (guess+n/guess)/2

/-- Shorter runs are not worth keeping in a list of `n` elements. -/
def goodLength (n : Nat) : Nat := if n ≤ 64*64 then min (n-n/2) 64 else approximateRoot n

/-- Takes the first run off a list. Where the start is not in order for long enough, a short run is
sorted at once if `eager` is set. -/
def takeRun (less : α → α → Bool) (eager : Bool) (good : Nat) (xs : List α) :
    Attempt α (Run α × List α) :=
  let (n, down) := startOrder less xs
  if good ≤ n then
    .ok (⟨if down then (xs.take n).reverse else xs.take n, true⟩, xs.drop n)
  else if eager then match sortShort less (xs.take shortLength) with
    | .ok sorted => .ok (⟨sorted, true⟩, xs.drop shortLength)
    | .error stretch => .error (stretch ++ xs.drop shortLength)
  else .ok (⟨xs.take good, false⟩, xs.drop good)

/-- The elements of a stretch in order. -/
def Run.inOrder (sort : List α → Attempt α (List α)) (run : Run α) : Attempt α (List α) :=
  if run.sorted then .ok run.items else sort run.items

/-- Joins neighbours. Two unsorted ones are left for later; `sort` sorts one that has to be. -/
def joinRuns (less : α → α → Bool) (sort : List α → Attempt α (List α)) (left right : Run α) :
    Attempt α (Run α) :=
  if !left.sorted && !right.sorted then .ok ⟨left.items ++ right.items, false⟩
  else do
    let xs ← (left.inOrder sort).mapError (· ++ right.items)
    let ys ← (right.inOrder sort).mapError (xs ++ ·)
    pure ⟨mergeRuns less xs ys, true⟩

/-- Runs that wait to be joined with what follows, the last first, each with the depth of the joint
behind it. -/
abbrev Waiting (α : Type) : Type := List (Run α × Nat)

def Waiting.items (w : Waiting α) : List α := w.reverse.flatMap (·.1.items)

/-- Joins a run with those before it whose joints are not less deep than a given depth. -/
def joinDeep (less : α → α → Bool) (sort : List α → Attempt α (List α)) (depth : Nat) :
    Waiting α → Run α → Attempt α (Waiting α × Run α)
  | [], run => .ok ([], run)
  | (left, d) :: waiting, run =>
    if depth ≤ d then match joinRuns less sort left run with
      | .ok run => joinDeep less sort depth waiting run
      | .error stretch => .error (Waiting.items waiting ++ stretch)
    else .ok ((left, d) :: waiting, run)

/-- The depth at which the middles of two neighbouring runs part when a list of `n` elements is
halved again and again. -/
def jointDepth (n start joint stop : Nat) : Nat :=
  let unit := (Nat.pow 2 62+n-1)/n
  let differing := unit*(start+joint) ^^^ unit*(joint+stop)
  if differing = 0 then 64 else 63-differing.log2

/-- Goes through a list of `n` elements run by run, and joins them. The current run begins at
`start`, and `rest` follows it. -/
def joinAll (less : α → α → Bool) (sort : List α → Attempt α (List α)) (eager : Bool) (n : Nat) :
    Nat → Waiting α → Nat → Run α → List α → Attempt α (List α)
  | fuel+1, waiting, start, run, x :: rest => do
    let (next, rest) ← (takeRun less eager (goodLength n) (x :: rest)).mapError
      (waiting.items ++ run.items ++ ·)
    let joint := start+run.items.length
    let depth := jointDepth n start joint (joint+next.items.length)
    let (waiting, run) ← (joinDeep less sort depth waiting run).mapError
      (· ++ next.items ++ rest)
    joinAll less sort eager n fuel ((run, depth) :: waiting) joint next rest
  | _, waiting, _, run, rest => do
    let (_, run) ← (joinDeep less sort 0 waiting run).mapError (· ++ rest)
    let xs ← (run.inOrder sort).mapError (· ++ rest)
    pure (xs ++ rest)

/-- Sorts a list by its runs. -/
def sortRuns (less : α → α → Bool) (sort : List α → Attempt α (List α)) (eager : Bool)
    (xs : List α) : Attempt α (List α) := do
  let (run, rest) ← takeRun less eager (goodLength xs.length) xs
  joinAll less sort eager xs.length xs.length [] 0 run rest

/-! ### Pivots -/

/-- Compares the elements at two places. -/
def lessAt (less : α → α → Bool) (xs : List α) (i j : Nat) : Bool :=
  match xs[i]?, xs[j]? with
  | some x, some y => less x y
  | _, _ => false

/-- Of three places, the one whose element is between the others. -/
def middlePlace (less : α → α → Bool) (xs : List α) (a b c : Nat) : Nat :=
  let aLess := lessAt less xs a b
  if aLess = lessAt less xs a c then if lessAt less xs b c = aLess then b else c else a

/-- A place for a pivot: the middle of three stretches of `n` elements, each represented by the
middle of three parts of its own if it is long enough. -/
def pivotPlace (less : α → α → Bool) (xs : List α) (n a b c : Nat) : Nat :=
  if 8 ≤ n then
    let inner (start : Nat) : Nat :=
      pivotPlace less xs (n/8) start (start+4*(n/8)) (start+7*(n/8))
    middlePlace less xs (inner a) (inner b) (inner c)
  else middlePlace less xs a b c
termination_by n

/-- Splits a list by a test, both parts in their old order. The pivot is not tested. -/
def splitAround (test : α → Bool) (pivotFirst : Bool) (before : List α) (pivot : α)
    (after : List α) : List α × List α :=
  let (first₁, second₁) := before.partition test
  let (first₂, second₂) := after.partition test
  if pivotFirst then (first₁ ++ pivot :: first₂, second₁ ++ second₂)
  else (first₁ ++ first₂, second₁ ++ pivot :: second₂)

/-- Sorts by splitting around pivots, up to `depth` times one inside the other. `lower` is the pivot
that the elements are known not to be less than; those equal to it need no more sorting. -/
def sortSplit (less : α → α → Bool) : Nat → Option α → List α → Attempt α (List α)
  | depth, lower, xs =>
    if xs.length ≤ shortLength then sortShort less xs
    else match depth with
      | 0 => sortRuns less .ok true xs
      | depth+1 =>
        let place := pivotPlace less xs (xs.length/8) 0 (4*(xs.length/8)) (7*(xs.length/8))
        match xs.drop place with
        | [] => .ok xs
        | pivot :: after =>
          let before := xs.take place
          let (small, large) := splitAround (less · pivot) false before pivot after
          if ((lower.map fun l => !less l pivot).getD false) || small.isEmpty then
            let (equal, large) := splitAround (!less pivot ·) true before pivot after
            ((sortSplit less depth none large).map (equal ++ ·)).mapError (equal ++ ·)
          else match sortSplit less depth (some pivot) large with
            | .error large => .error (small ++ large)
            | .ok large =>
              ((sortSplit less depth lower small).map (· ++ large)).mapError (· ++ large)

/-- Sorts a list of any length. It is split at most twice as often as it can be halved. -/
def sortLong (less : α → α → Bool) (xs : List α) : Attempt α (List α) :=
  sortRuns less (fun ys => sortSplit less (2*ys.length.log2) none ys)
    (xs.length ≤ 2*shortLength) xs

end BehaviourTree.Sorting

/-!
Sorting by pattern-defeating quicksort. It is not stable: where elements that compare equal
end up follows from the pivots it chooses and the few elements it scatters. Ranges are
given by the index of their first element and the one behind their last.
-/
namespace TurtleLogo.Sort

variable {α : Type}

def isBefore (less : α → α → Bool) (xs : Array α) (i j : Nat) : Bool :=
  match xs[i]?, xs[j]? with
  | some x, some y => less x y
  | _, _ => false

def sink (less : α → α → Bool) (low : Nat) (xs : Array α) : Nat → Array α
  | 0 => xs
  | i + 1 =>
    if low ≤ i && isBefore less xs (i + 1) i then sink less low (xs.swapIfInBounds (i + 1) i) i
    else xs

def lift (less : α → α → Bool) : (count : Nat) → Array α → Nat → Array α
  | 0, xs, _ => xs
  | n + 1, xs, i =>
    if isBefore less xs i (i - 1) then lift less n (xs.swapIfInBounds i (i - 1)) (i + 1) else xs

def insertionSort (less : α → α → Bool) (xs : Array α) (first behind : Nat) : Array α :=
  (List.range' (first + 1) (behind - first - 1)).foldl (sink less first) xs

/-- Moves an element of a heap down to where no element below it goes behind it. Indices into the
    heap count from its first element. -/
def siftDown (less : α → α → Bool) (first size : Nat) : Nat → Array α → (root : Nat) → Array α
  | 0, xs, _ => xs
  | n + 1, xs, root =>
    let left := 2 * root + 1
    if size ≤ left then xs
    else
      let child :=
        if left + 1 < size && isBefore less xs (first + left) (first + left + 1) then left + 1
        else left
      if isBefore less xs (first + root) (first + child) then
        siftDown less first size n (xs.swapIfInBounds (first + root) (first + child)) child
      else xs

def heapSort (less : α → α → Bool) (xs : Array α) (first behind : Nat) : Array α :=
  let size := behind - first
  let heap := (List.range ((size - 1) / 2 + 1)).foldr
    (fun root xs => siftDown less first size size xs root) xs
  (List.range size).foldr
    (fun last xs => siftDown less first last size (xs.swapIfInBounds first (first + last)) 0) heap

def nextScatter (seed : UInt64) : UInt64 :=
  let a := seed ^^^ (seed <<< 13)
  let b := a ^^^ (a >>> 7)
  b ^^^ (b <<< 17)

def bitLength (n : Nat) : Nat := if n == 0 then 0 else n.log2 + 1

def scatter (xs : Array α) (first behind : Nat) : Array α :=
  let length := behind - first
  let mask := (1 <<< bitLength length) - 1
  let middle := first + length / 4 * 2 - 1
  let step (state : Array α × UInt64) (i : Nat) :=
    let seed := nextScatter state.2
    let drawn := seed.toNat &&& mask
    let other := if length ≤ drawn then drawn - length else drawn
    (state.1.swapIfInBounds (middle - 1 + i) (first + other), seed)
  ([0, 1, 2].foldl step (xs, UInt64.ofNat length)).1

def ordered (less : α → α → Bool) (xs : Array α) (count i j : Nat) : Nat × Nat × Nat :=
  if isBefore less xs j i then (count + 1, j, i) else (count, i, j)

def median (less : α → α → Bool) (xs : Array α) (count i j k : Nat) : Nat × Nat :=
  let (count, i, j) := ordered less xs count i j
  let (count, j, _) := ordered less xs count j k
  let (count, _, j) := ordered less xs count i j
  (count, j)

def longRange : Nat := 50

/-- The index of a pivot, and how many swaps it would have taken to put in order those elements that
    were looked at. -/
def choosePivot (less : α → α → Bool) (xs : Array α) (first behind : Nat) : Nat × Nat :=
  let length := behind - first
  let quarter := length / 4
  let i := first + quarter
  let j := first + quarter * 2
  let k := first + quarter * 3
  if longRange ≤ length then
    let (count, i) := median less xs 0 (i - 1) i (i + 1)
    let (count, j) := median less xs count (j - 1) j (j + 1)
    let (count, k) := median less xs count (k - 1) k (k + 1)
    median less xs count i j k
  else median less xs 0 i j k

def allSwaps : Nat := 12

def reverseRange (xs : Array α) (first behind : Nat) : Array α :=
  (List.range ((behind - first) / 2)).foldl
    (fun xs i => xs.swapIfInBounds (first + i) (behind - 1 - i)) xs

def passUp (test : Nat → Bool) : (count : Nat) → (i : Nat) → Nat
  | 0, i => i
  | n + 1, i => if test i then passUp test n (i + 1) else i

def passDown (test : Nat → Bool) : (count : Nat) → (j : Nat) → Nat
  | 0, j => j
  | n + 1, j => if test j then passDown test n (j - 1) else j

/-- Moves the elements between two indices, both included, so that those that pass a test come
    first. The result is the index behind them, and whether no element had to move. -/
def divide (test : Array α → Nat → Bool) :
    Nat → Array α → (i j : Nat) → (unmoved : Bool) → Array α × Nat × Bool
  | 0, xs, i, _, unmoved => (xs, i, unmoved)
  | n + 1, xs, i, j, unmoved =>
    let i := passUp (test xs) (j + 1 - i) i
    let j := passDown (fun k => !test xs k) (j + 1 - i) j
    if j < i then (xs, i, unmoved)
    else divide test n (xs.swapIfInBounds i j) (i + 1) (j - 1) false

def divideAt (less : α → α → Bool) (xs : Array α) (first behind pivot : Nat) :
    Array α × Nat × Bool :=
  let (xs, place, unmoved) := divide (fun xs i => isBefore less xs i first) (behind - first)
    (xs.swapIfInBounds first pivot) (first + 1) (behind - 1) true
  (xs.swapIfInBounds (place - 1) first, place - 1, unmoved)

def divideEqual (less : α → α → Bool) (xs : Array α) (first behind pivot : Nat) : Array α × Nat :=
  let (xs, place, _) := divide (fun xs i => !isBefore less xs first i) (behind - first)
    (xs.swapIfInBounds first pivot) (first + 1) (behind - 1) true
  (xs, place)

/-- Moves single elements that are out of order in a long range, at most `steps` of them, going on
    from an index. Tells whether the range is in order at the end. -/
def mend (less : α → α → Bool) (first behind : Nat) :
    (steps : Nat) → Array α → (i : Nat) → Array α × Bool
  | 0, xs, _ => (xs, false)
  | n + 1, xs, i =>
    let i := passUp (fun k => !isBefore less xs k (k - 1)) (behind - i) i
    if i == behind then (xs, true)
    else if behind - first < longRange then (xs, false)
    else
      let xs := xs.swapIfInBounds i (i - 1)
      let xs := if 2 ≤ i - first then sink less 0 xs (i - 1) else xs
      let xs := if 2 ≤ behind - i then lift less (behind - i - 1) xs (i + 1) else xs
      mend less first behind n xs i

def shortRange : Nat := 12

/-- Sorts a range. Behind a pivot that divides badly elements are scattered, and after `limit` such
    pivots the range is sorted as a heap. -/
def sortRange (less : α → α → Bool) : Nat → Array α → (first behind limit : Nat) →
    (balanced divided : Bool) → Array α
  | 0, xs, _, _, _, _, _ => xs
  | n + 1, xs, first, behind, limit, balanced, divided =>
    let length := behind - first
    if length ≤ shortRange then insertionSort less xs first behind
    else if limit == 0 then heapSort less xs first behind
    else
      let xs := if balanced then xs else scatter xs first behind
      let limit := if balanced then limit else limit - 1
      let (swaps, chosen) := choosePivot less xs first behind
      let descending := swaps == allSwaps
      let xs := if descending then reverseRange xs first behind else xs
      let pivot := if descending then behind - 1 - (chosen - first) else chosen
      let (xs, isDone) :=
        if balanced && divided && (swaps == 0 || descending) then
          mend less first behind 5 xs (first + 1)
        else (xs, false)
      if isDone then xs
      else if 0 < first && !isBefore less xs (first - 1) pivot then
        let (xs, place) := divideEqual less xs first behind pivot
        sortRange less n xs place behind limit balanced divided
      else
        let (xs, place, divided) := divideAt less xs first behind pivot
        let lower := place - first
        let upper := behind - place
        if lower < upper then
          let xs := sortRange less n xs first place limit true true
          sortRange less n xs (place + 1) behind limit (length / 8 ≤ lower) divided
        else
          let xs := sortRange less n xs (place + 1) behind limit true true
          sortRange less n xs first place limit (length / 8 ≤ upper) divided

def quicksorted (less : α → α → Bool) (xs : List α) : List α :=
  (sortRange less (xs.length + 1) xs.toArray 0 xs.length (bitLength xs.length) true true).toList

end TurtleLogo.Sort

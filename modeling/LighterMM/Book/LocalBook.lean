import LighterMM.Types

/-!
# Local order book (`book/local_book.rs`)

Each side is two parallel vectors, prices ascending. `partition_point` on the ascending prices is
the length of their longest prefix below the bound.
-/

namespace LighterMM

/-- One side of the book, prices ascending. -/
structure BookSide where
  prices : List ℚ
  sizes : List ℚ
  deriving DecidableEq, Repr

namespace BookSide

def new : BookSide := ⟨[], []⟩

/-- First index with price `≥ price`. -/
def bisectLeft (b : BookSide) (price : ℚ) : ℕ := (b.prices.takeWhile (· < price)).length

/-- First index with price `> price`. -/
def bisectRight (b : BookSide) (price : ℚ) : ℕ := (b.prices.takeWhile (· ≤ price)).length

/-- Inserts or updates a price level, or removes it when `size` is `0`. -/
def upsert (b : BookSide) (price size : ℚ) : BookSide :=
  let idx := b.bisectLeft price
  if b.prices[idx]? = some price then
    if size = 0 then ⟨b.prices.eraseIdx idx, b.sizes.eraseIdx idx⟩
    else { b with sizes := b.sizes.set idx size }
  else if size ≠ 0 then ⟨b.prices.insertIdx idx price, b.sizes.insertIdx idx size⟩
  else b

/-- Lowest price level. -/
def lowest (b : BookSide) : Option (ℚ × ℚ) := (b.prices.zip b.sizes).head?

/-- Highest price level. -/
def highest (b : BookSide) : Option (ℚ × ℚ) := (b.prices.zip b.sizes).getLast?

def sumSizesFrom (b : BookSide) (minPrice : ℚ) : ℚ := (b.sizes.drop (b.bisectLeft minPrice)).sum

def sumSizesTo (b : BookSide) (maxPrice : ℚ) : ℚ := (b.sizes.take (b.bisectRight maxPrice)).sum

/-- The whole side from a snapshot: zero sizes dropped, sorted by price (stable). -/
def applySnapshotScratch (levels : List (ℚ × ℚ)) : BookSide :=
  let levels := (levels.filter fun l => l.2 ≠ 0).insertionSort fun a b => a.1 ≤ b.1
  ⟨levels.map (·.1), levels.map (·.2)⟩

end BookSide

/-- Two-sided book with the offset and nonce of the last applied message. -/
structure LocalBook where
  bids : BookSide
  asks : BookSide
  initialized : Bool
  lastOffset : Option ℕ
  lastNonce : Option ℤ
  deriving DecidableEq, Repr

namespace LocalBook

def new : LocalBook := ⟨.new, .new, false, none, none⟩

def bestBid (b : LocalBook) : Option ℚ := b.bids.highest.map (·.1)

def bestAsk (b : LocalBook) : Option ℚ := b.asks.lowest.map (·.1)

/-- Mid price, `none` if the book is one-sided. -/
def mid (b : LocalBook) : Option ℚ :=
  match b.bestBid, b.bestAsk with
  | some bid, some ask => some ((bid + ask) * (1 / 2))
  | _, _ => none

def applySnapshotScratch (b : LocalBook) (bids asks : List (ℚ × ℚ)) : LocalBook :=
  { b with
    bids := BookSide.applySnapshotScratch bids
    asks := BookSide.applySnapshotScratch asks
    initialized := true }

def applyDelta (b : LocalBook) (bids asks : List (ℚ × ℚ)) : LocalBook :=
  { b with
    bids := bids.foldl (fun s l => s.upsert l.1 l.2) b.bids
    asks := asks.foldl (fun s l => s.upsert l.1 l.2) b.asks }

end LocalBook

end LighterMM

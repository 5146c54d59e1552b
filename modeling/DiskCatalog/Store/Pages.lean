import DiskCatalog.Store.Bytes

/-!
# Pages of a database file

A database file is a row of pages of one size, numbered from 1.  A table is a tree of pages with its
rows in the leaves.  A row that does not fit into its page goes on in a chain of further pages.

No walk visits more pages than there are, so a damaged file cannot keep it going.
-/

namespace DiskCatalog.Store

structure Pages where
  bytes : ByteArray
  size : Nat
  used : Nat

structure StoredRow where
  id : Int
  record : ByteArray

namespace Pages

def mark : List Char :=
  "SQLite format 3\x00".toList

/-- Whether a file starts as a database file does. -/
def isMarked (bytes : ByteArray) : Bool :=
  mark.zipIdx.all fun (c, place) => byteAt bytes place == c.toNat

def headLength : Nat := 100

/-- The number that stands for texts in UTF-8; a database without texts may have none. -/
def isTextEncoding (n : Nat) : Bool :=
  n ≤ 1

/-- The pages of a database file, if it is one. -/
def ofBytes? (bytes : ByteArray) : Option Pages :=
  let size := match numberAt bytes 16 2 with
    | 1 => 65536
    | n => n
  if isMarked bytes && 512 ≤ size && isTextEncoding (numberAt bytes 56 4) then
    some ⟨bytes, size, size - byteAt bytes 20⟩
  else none

def count (p : Pages) : Nat :=
  p.bytes.size / p.size

def start (p : Pages) (page : Nat) : Nat :=
  (page - 1) * p.size

def top (p : Pages) (page : Nat) : Nat :=
  p.start page + if page = 1 then headLength else 0

/-- How many bytes of a row stay in its page. -/
def kept (p : Pages) (length : Nat) : Nat :=
  let most := p.used - 35
  let least := (p.used - 12) * 32 / 255 - 23
  let fitting := least + (length - least) % (p.used - 4)
  if length ≤ most then length
  else if fitting ≤ most then fitting
  else least

/-- Puts what a chain of pages holds behind some bytes. -/
def gather (p : Pages) : (visits page left : Nat) → ByteArray → ByteArray
  | 0, _, _, bytes => bytes
  | visits + 1, page, left, bytes =>
    if page = 0 ∨ left = 0 then bytes
    else
      let here := min left (p.used - 4)
      let first := p.start page + 4
      p.gather visits (numberAt p.bytes (p.start page) 4) (left - here)
        (bytes ++ p.bytes.extract first (first + here))

def rowAt (p : Pages) (place : Nat) : StoredRow :=
  let (length, place) := packedAt p.bytes place
  let (id, place) := packedAt p.bytes place
  let kept := p.kept length
  ⟨signed 64 id, p.gather p.count (numberAt p.bytes (place + kept) 4) (length - kept)
    (p.bytes.extract place (place + kept))⟩

/-- The places that a page refers to behind a head of some length. -/
def places (p : Pages) (page head : Nat) : List Nat :=
  (List.range (numberAt p.bytes (p.top page + 3) 2)).map fun i =>
    p.start page + numberAt p.bytes (p.top page + head + 2 * i) 2

/-- The pages below a page, in order. -/
def below (p : Pages) (page : Nat) : List Nat :=
  (p.places page 12).map (numberAt p.bytes · 4) ++ [numberAt p.bytes (p.top page + 8) 4]

def collect (p : Pages) : (visits : Nat) → List Nat → Array StoredRow → Array StoredRow
  | visits + 1, page :: pages, rows =>
    match byteAt p.bytes (p.top page) with
    | 13 => p.collect visits pages (rows ++ (p.places page 8).map p.rowAt)
    | 5 => p.collect visits (p.below page ++ pages) rows
    | _ => p.collect visits pages rows
  | _, _, rows => rows

/-- The rows of the tree of a page, in the order of their numbers. -/
def rows (p : Pages) (root : Nat) : List StoredRow :=
  (p.collect p.count [root] #[]).toList

end Pages

end DiskCatalog.Store

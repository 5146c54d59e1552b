import DiskCatalog.Store.Cell

/-!
# Cells in bytes

Numbers stand in a database file with their highest byte first.  A record lists the kinds of its
cells and then the cells; a kind tells how many bytes its cell takes.  Behind the end of the
bytes there are zeros.
-/

namespace DiskCatalog.Store

def byteAt (bytes : ByteArray) (place : Nat) : Nat :=
  (bytes[place]?).elim 0 UInt8.toNat

def numberAt (bytes : ByteArray) (place : Nat) : (count : Nat) → Nat
  | 0 => 0
  | count + 1 => 256 * numberAt bytes place count + byteAt bytes (place + count)

/-- The integer that a number of so many bits stands for; its upper half are the negative ones. -/
def signed (bits n : Nat) : Int :=
  if n < twoTo (bits - 1) then n else n - twoTo bits

/-- A number in seven bits of each byte and the place behind it.  The eighth bit tells that more
bytes follow, and a ninth byte counts with all its bits. -/
def packedAt (bytes : ByteArray) (place : Nat) : Nat × Nat :=
  go 8 place 0
where
  go : Nat → Nat → Nat → Nat × Nat
    | 0, place, n => (256 * n + byteAt bytes place, place + 1)
    | left + 1, place, n =>
      let byte := byteAt bytes place
      if byte < 128 then (128 * n + byte, place + 1)
      else go left (place + 1) (128 * n + (byte - 128))

def cellSize (kind : Nat) : Nat :=
  if kind < 5 then kind
  else if kind = 5 then 6
  else if kind < 8 then 8
  else (kind - 12) / 2

/-- The text that some bytes stand for; it is broken if they are no UTF-8. -/
def textIn (bytes : List UInt8) : Cell :=
  match Text.ofUtf8? bytes with
  | some s => .text s
  | none => .broken bytes

/-- The cell of a kind; a number that is none counts as nothing. -/
def cellAt (bytes : ByteArray) (place kind : Nat) : Cell :=
  let size := cellSize kind
  let content := (bytes.extract place (place + size)).toList
  if kind = 0 then .null
  else if kind < 7 then .int (signed (8 * size) (numberAt bytes place size))
  else if kind = 7 then
    match Binary64.ofBits (numberAt bytes place size) with
    | .nan => .null
    | x => .real x
  else if kind < 10 then .int (kind - 8)
  else if kind % 2 = 0 then .blob content
  else textIn content

/-- The kinds in a record, from a place up to the end of its head. -/
def kindsFrom (bytes : ByteArray) (stop : Nat) : (left : Nat) → (place : Nat) → List Nat
  | 0, _ => []
  | left + 1, place =>
    if stop ≤ place then []
    else
      let (kind, place) := packedAt bytes place
      kind :: kindsFrom bytes stop left place

/-- Cells of some kinds, one behind the other. -/
def cellsFrom (bytes : ByteArray) (place : Nat) : List Nat → List Cell
  | [] => []
  | kind :: kinds => cellAt bytes place kind :: cellsFrom bytes (place + cellSize kind) kinds

/-- The cells of a record; its head, of which the first number is the length, is shorter than the
record. -/
def recordCells (bytes : ByteArray) : List Cell :=
  let (stop, first) := packedAt bytes 0
  cellsFrom bytes stop (kindsFrom bytes stop bytes.size first)

end DiskCatalog.Store

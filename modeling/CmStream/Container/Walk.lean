import CmStream.Container.Parse

/-!
# Walking over the blocks

A walk gives the blocks of a stream one at a time, without the stream having been read to its end.
It has ended behind the terminator, and behind the first error.
-/

namespace CmStream

structure Walk where
  reader : Reader
  ended : Bool
  deriving DecidableEq, Repr

namespace Walk

/-- A walk that begins at a reader. -/
def start (r : Reader) : Walk := ⟨r, false⟩

/-- The next block or the error in its place, or nothing when the walk has ended. -/
def next (walk : Walk) : Option (Except FormatError Block) × Walk :=
  if walk.ended then (none, walk)
  else
    match Block.read? walk.reader with
    | .ok (some block, behind) => (some (.ok block), ⟨behind, false⟩)
    | .ok (none, behind) => (none, ⟨behind, true⟩)
    | .error error => (some (.error error), ⟨walk.reader, true⟩)

/-- The walk after a number of blocks have been asked for. -/
def after : Nat → Walk → Walk
  | 0, walk => walk
  | n + 1, walk => after n walk.next.2

/-- What the walk gives when it is asked for the `n`th time, counted from zero. -/
def nth (n : Nat) (walk : Walk) : Option (Except FormatError Block) := (walk.after n).next.1

/-- Walks to the end without keeping the blocks; a reader behind the terminator. -/
def skip : (attempts : Nat) → Walk → Except FormatError Reader
  | 0, walk => .error (.overrun ⟨walk.reader.position, 1, walk.reader.remaining⟩)
  | attempts + 1, walk =>
    match walk.next with
    | (none, walk) => .ok walk.reader
    | (some (.ok _), walk) => skip attempts walk
    | (some (.error error), _) => .error error

end Walk

namespace Container

/-- A fresh walk over the blocks of a stream, from behind its signature. -/
def walk (bytes : List Byte) : Walk := .start ⟨2, bytes.drop 2⟩

end Container

end CmStream

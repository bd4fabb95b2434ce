import CmStream.Checked.Cursor
import Mathlib.Order.Bounds.Defs

/-!
# Sequences of reads

Whatever is read from a stream is read by requests of four kinds. A request that fails leaves the
reader where it is, and the next one may succeed. What has been consumed is told by the answers
alone, except for the bytes that have been skipped: of these the answer says how many there were.
-/

namespace CmStream

namespace Reader

/-- What can be asked of a reader. -/
inductive Request where
  | take (n : Nat)
  | byte
  | word
  | align (m : Nat)
  deriving DecidableEq, Repr

/-- What a reader answers. -/
inductive Answer where
  | bytes (taken : List Byte)
  | byte (value : Byte)
  | word (value : Word)
  | skipped (count : Nat)
  deriving DecidableEq, Repr

/-- The bytes that an answer stands for. Those that have been skipped were in front of the reader.
-/
def Answer.consumed (r : Reader) : Answer → List Byte
  | bytes taken => taken
  | byte value => [value]
  | word value => Word.toBytes value
  | skipped count => r.rest.take count

namespace Request

/-- There is a next multiple to go to. -/
def Proper : Request → Prop
  | align m => 0 < m
  | _ => True

/-- The number of bytes that have to be left for the request to succeed. -/
def Wants (position : Nat) : Request → (wanted : Nat) → Prop
  | take n, wanted => wanted = n
  | byte, wanted => wanted = 1
  | word, wanted => wanted = 2
  | align m, wanted => IsLeast {count | m ∣ position + count} wanted

/-- What the request makes of the bytes that it wants. -/
def answer (taken : List Byte) : Request → Answer
  | take _ => .bytes taken
  | byte => .byte (taken.getD 0 0)
  | word => .word (Word.ofBytes (taken.getD 0 0) (taken.getD 1 0))
  | align _ => .skipped taken.length

def attempt (r : Reader) : Request → Except Overrun (Answer × Reader)
  | take n => (r.take n).map fun result => (.bytes result.1, result.2)
  | byte => r.byte.map fun result => (.byte result.1, result.2)
  | word => r.word.map fun result => (.word result.1, result.2)
  | align m => (r.align m).map fun result => (.skipped result.1, result.2)

/-- The answer, and the reader to go on with: the same one if the request fails. -/
def perform (r : Reader) (request : Request) : Except Overrun Answer × Reader :=
  match request.attempt r with
  | .ok result => (.ok result.1, result.2)
  | .error overrun => (.error overrun, r)

/-- The bytes that the request consumes; none if it fails. -/
def consumed (r : Reader) (request : Request) : List Byte :=
  match (request.perform r).1 with
  | .ok answer => answer.consumed r
  | .error _ => []

end Request

/-! ## One request after the other -/

/-- The reader behind some requests. -/
def after (r : Reader) (requests : List Request) : Reader :=
  requests.foldl (fun now request => (request.perform now).2) r

/-- The answers to some requests. -/
def answers : List Request → Reader → List (Except Overrun Answer)
  | [], _ => []
  | request :: requests, r =>
    (request.perform r).1 :: answers requests (request.perform r).2

/-- The bytes that some requests consume together. -/
def consumed : List Request → Reader → List Byte
  | [], _ => []
  | request :: requests, r => request.consumed r ++ consumed requests (request.perform r).2

end Reader

/-! ## The same of a cursor -/

namespace Checked.Cursor

open Reader

def attempt (c : Cursor) : Request → Attempt FormatError (Answer × Cursor)
  | .take n => do
    let result ← c.nextBytes n
    return (.bytes result.1, result.2)
  | .byte => do
    let result ← c.nextByte
    return (.byte result.1, result.2)
  | .word => do
    let result ← c.nextWord
    return (.word result.1, result.2)
  | .align m => do
    let result ← c.nextMultiple m
    return (.skipped result.1, result.2)

/-- The answer, and the cursor to go on with: the same one if the request fails. -/
def perform (c : Cursor) (request : Request) : Option (Except FormatError Answer × Cursor) := do
  match ← (c.attempt request).run with
  | .ok result => return (.ok result.1, result.2)
  | .error error => return (.error error, c)

/-- The answers to some requests, and the cursor behind them. -/
def performAll : List Request → Cursor → Option (List (Except FormatError Answer) × Cursor)
  | [], c => some ([], c)
  | request :: requests, c => do
    let first ← c.perform request
    let others ← performAll requests first.2
    return (first.1 :: others.1, others.2)

end Checked.Cursor

end CmStream

import PsqlTcpProxy.Library.Region

/-!
# The bipartite buffer

`io/bipartite_buf.hpp` and `io/bipartite_buf_impl.hpp`: a circular buffer that
hands out *linear* regions.  A writer asks for `free_required` cells in one
piece; when they do not fit before the end of the array, the write wraps to the
front and the index `_i` records where the written data ends.

The buffer is the substrate of both `io::channel` (one thread, every request of
one size) and `query_processor` (two threads, requests of every size), so the
decisions are kept apart from the loads and stores that feed them: `acquireAt`,
`releaseAt`, `readAt` and `readReleaseAt` are the arithmetic of the four
operations on the values that were loaded.  The sequential operations below
apply them to the fields; the concurrent model applies them to what each side
has loaded so far.

A pointer into `_data` is its index, `nullptr` is `none`, and a failed `assert`
is the `none` of `writeRelease` and `readRelease`.  The indexes never leave
`0 … size`, so `size_t` is `ℕ`.
-/

namespace PsqlTcpProxy
namespace Io

open Library

variable {α : Type*}

/-! ## The arithmetic of the four operations -/

/-- `_calc_free`: the free cells, one slot being reserved to tell a full buffer
from an empty one. -/
def calcFree (size w r : ℕ) : ℕ :=
  if r > w then (r - w) - 1 else (size - (w - r)) - 1

/-- The decision of `write_acquire` for the loaded `w` and `r`: where the linear
region starts and whether the write wraps. -/
def acquireAt (size w r freeRequired : ℕ) : Option (ℕ × Bool) :=
  let free := calcFree size w r
  let linearSpace := size - w
  let linearFree := min free linearSpace
  if freeRequired ≤ linearFree then some (w, false)
  else if freeRequired ≤ free - linearFree then some (0, true)
  else none

/-- The new `(i, w)` of `write_release`, from the `w` and `i` it starts with.
`none` is the failed assertion `w + written <= size`. -/
def releaseAt (size w i written : ℕ) : Option (ℕ × ℕ) :=
  if w + written ≤ size then
    let w := w + written
    let i := if w > i then w else i
    some (i, if w = size then 0 else w)
  else none

/-- What `write_release` starts with: after a wrap the old write index is the
invalidate index and writing starts over at the front. -/
def releaseStart (wrapped : Bool) (w i : ℕ) : ℕ × ℕ :=
  if wrapped then (0, w) else (w, i)

/-- The region `read_acquire` hands out for the loaded `r`, `w` and `i`: its
start (`none` for `nullptr`), its length, and whether the read wraps. -/
def readAt (r w i : ℕ) : Option ℕ × ℕ × Bool :=
  if r = w then (none, 0, false)
  else if r < w then (some r, w - r, false)
  else if r = i then (some 0, w, true)
  else (some r, i - r, false)

/-- The new `r` of `read_release`.  `none` is the failed assertion
`r + read <= size`. -/
def readReleaseAt (size : ℕ) (wrapped : Bool) (r read : ℕ) : Option ℕ :=
  let r := if wrapped then 0 else r
  if r + read ≤ size then some (if r + read = size then 0 else r + read) else none

/-! ## The buffer -/

/-- `bipartite_buffer<T, size>`. -/
structure BipartiteBuffer (α : Type*) (size : ℕ) where
  /-- `_data` -/
  data : ℕ → α
  /-- `_write_wrapped` -/
  writeWrapped : Bool
  /-- `_read_wrapped` -/
  readWrapped : Bool
  /-- `_r`, the read index -/
  r : ℕ
  /-- `_w`, the write index -/
  w : ℕ
  /-- `_i`, the invalidate index -/
  i : ℕ

namespace BipartiteBuffer

variable {size : ℕ}

/-- The constructor; `_data` is left uninitialised, that is, arbitrary. -/
def init (data : ℕ → α) : BipartiteBuffer α size :=
  { data, writeWrapped := false, readWrapped := false, r := 0, w := 0, i := 0 }

/-- `write_acquire` -/
def writeAcquire (b : BipartiteBuffer α size) (freeRequired : ℕ) :
    Option ℕ × BipartiteBuffer α size :=
  match acquireAt size b.w b.r freeRequired with
  | some (p, true) => (some p, { b with writeWrapped := true })
  | some (p, false) => (some p, b)
  | none => (none, b)

/-- Storing cells through the pointer `write_acquire` returned. -/
def store (b : BipartiteBuffer α size) (p : ℕ) (xs : List α) : BipartiteBuffer α size :=
  { b with data := blit b.data p xs }

/-- `write_release` -/
def writeRelease (b : BipartiteBuffer α size) (written : ℕ) :
    Option (BipartiteBuffer α size) :=
  let start := releaseStart b.writeWrapped b.w b.i
  (releaseAt size start.1 start.2 written).map fun iw =>
    { b with writeWrapped := false, i := iw.1, w := iw.2 }

/-- `read_acquire` -/
def readAcquire (b : BipartiteBuffer α size) : Option ℕ × ℕ × BipartiteBuffer α size :=
  match readAt b.r b.w b.i with
  | (p, len, true) => (p, len, { b with readWrapped := true })
  | (p, len, false) => (p, len, b)

/-- `read_release` -/
def readRelease (b : BipartiteBuffer α size) (read : ℕ) : Option (BipartiteBuffer α size) :=
  (readReleaseAt size b.readWrapped b.r read).map fun r => { b with readWrapped := false, r }

/-- The stored cells in the order they will be read. -/
def held (b : BipartiteBuffer α size) : List α :=
  if b.r ≤ b.w then region b.data b.r (b.w - b.r)
  else region b.data b.r (b.i - b.r) ++ region b.data 0 b.w

end BipartiteBuffer

end Io
end PsqlTcpProxy

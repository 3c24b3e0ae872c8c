import K8sDev.Lts.Loop
import Mathlib.Data.Int.Basic

/-!
# The unused image

How `article-image-lifecycle/run.py` sizes the image that nothing uses, and writes its blob. Python
integers are unbounded, and `//` is the floor.
-/

namespace K8sDev.ImageLifecycle

/-- The first `required`. -/
def needed (capacity used : ℤ) : ℤ :=
  max (512 * 1024 * 1024) (capacity / 100 - used + 256 * 1024 * 1024)

/-- `required`, in the end. -/
def required (capacity used : ℤ) : ℤ :=
  (needed capacity used + 63 * 1024 * 1024) / (64 * 1024 * 1024) * 64 * 1024 * 1024

/-- `RuntimeError`: the image would be too large. -/
structure RuntimeError where
  required : ℤ
deriving DecidableEq, Repr

/-- Where the loop is: what is left, and what the stream has got. -/
structure Writer where
  remaining : ℤ
  stream : List UInt8

/-- `required`, and the start of the loop. -/
def start (capacity used : ℤ) : Except RuntimeError Writer :=
  if required capacity used > 6 * 1024 * 1024 * 1024 then .error ⟨required capacity used⟩
  else .ok { remaining := required capacity used, stream := [] }

/-- `chunk[:size]`; a negative size counts from the end. -/
def pyPrefix (chunk : List UInt8) (size : ℤ) : List UInt8 :=
  if 0 ≤ size then chunk.take size.toNat else chunk.take (chunk.length + size).toNat

/-- `while remaining`, once. -/
def Writer.step (chunk : List UInt8) (s : Writer) : Option Writer :=
  if s.remaining = 0 then none
  else
    let size := min (chunk.length : ℤ) s.remaining
    some { remaining := s.remaining - size, stream := s.stream ++ pyPrefix chunk size }

/-- `os.urandom(1024 * 1024)` has this many bytes. -/
def chunkSize : ℕ := 1024 * 1024

end K8sDev.ImageLifecycle

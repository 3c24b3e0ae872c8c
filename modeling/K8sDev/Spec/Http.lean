import Mathlib.Data.Nat.Digits.Defs
import Mathlib.Data.Int.Notation

/-!
# Requests and integer parameters

What a handler reads of a request: its method and the values of its query string.
Numbers come as text, read by `atoi`.
-/

namespace K8sDev

/-- Clock readings and durations are counted in nanoseconds. -/
def millisecond : ℕ := 1000000

def second : ℕ := 1000 * millisecond

/-- At least one decimal digit and nothing else. -/
def decimal (cs : List Char) : Option ℤ :=
  if cs ≠ [] ∧ cs.all Char.isDigit then some (Nat.ofDigitChars 10 cs 0) else none

/-- `strconv.Atoi`: an optional sign and decimal digits. Go also refuses a number
outside `int`; every caller refuses it by its own range check with the same answer, so
the model keeps the number. -/
def atoi (s : String) : Option ℤ :=
  match s.toList with
  | '+' :: cs => decimal cs
  | '-' :: cs => (decimal cs).map fun n => -n
  | cs => decimal cs

/-- A request: `r.Method` and the pairs of `r.URL.Query()`, in order. -/
structure Request where
  method : String
  query : List (String × String)
deriving DecidableEq, Repr

/-- `r.URL.Query().Get(key)`: the first value, or the empty string. -/
def Request.get (r : Request) (key : String) : String :=
  ((r.query.find? fun kv => kv.1 = key).map Prod.snd).getD ""

/-- A decimal numeral is read back. -/
theorem atoi_repr (n : ℕ) : atoi n.repr = some (n : ℤ) := by
  have hd : ∀ c ∈ Nat.toDigits 10 n, c.isDigit := fun c hc =>
    Nat.isDigit_of_mem_toDigits (by decide) (by decide) hc
  have hne : Nat.toDigits 10 n ≠ [] := Nat.toDigits_ne_nil
  have hall : (Nat.toDigits 10 n).all Char.isDigit = true := List.all_eq_true.2 hd
  unfold atoi
  rw [Nat.toList_repr]
  -- a numeral starts with a digit, not with a sign
  split
  · rename_i cs hcs
    have := hd '+' (by rw [hcs]; exact List.mem_cons_self)
    simp at this
  · rename_i cs hcs
    have := hd '-' (by rw [hcs]; exact List.mem_cons_self)
    simp at this
  · rw [decimal, if_pos ⟨hne, hall⟩, Nat.ofDigitChars_ten_toDigits]

example : atoi "-12" = some (-12) ∧ atoi "12s" = none ∧ atoi "" = none := by decide

end K8sDev

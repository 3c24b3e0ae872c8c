import K8sDev.Spec.Suite
import K8sDev.Table.Basic
import K8sDev.Text.Lines

/-!
# The report of the suites

`collect-results.py` merges the `results.json` of several rounds: `attempts.json` has every row,
`summary.json` the last one of each number. Both hold the same dicts, so what is set on an item of
the summary is seen in the attempts; a dict is its place in `history` here.
-/

namespace K8sDev.Results

open Suite (Row Status)

/-- `{'round': directory, **row}`, and `item['evidence']`. -/
structure Item where
  round : String
  row : Row
  evidence : Option String := none
deriving DecidableEq, Repr

/-- A `results.json`: the directory it is in, when it was written, and its rows. -/
structure ResultFile where
  directory : String
  mtime : ℕ
  rows : List Row
deriving DecidableEq, Repr

/-- `case.split('-')[0]`. -/
def number (case : String) : String := String.ofList (case.toList.takeWhile (· ≠ '-'))

def Item.number (item : Item) : String := Results.number item.row.case

structure Collected where
  history : List Item := []
  latest : Table String ℕ := Table.empty

/-- One turn of the inner loop. -/
def addRow (directory : String) (c : Collected) (row : Row) : Collected where
  history := c.history ++ [{ round := directory, row := row }]
  latest := c.latest.set (number row.case) c.history.length

/-- `sorted(…, key=mtime)`. -/
def byTime (files : List ResultFile) : List ResultFile :=
  files.mergeSort fun f g => decide (f.mtime ≤ g.mtime)

/-- The two loops. -/
def collect (files : List ResultFile) : Collected :=
  (byTime files).foldl (fun c file => file.rows.foldl (addRow file.directory) c) {}

/-- `item['evidence'] = item['case'] + '/'`. -/
def mark (history : List Item) (place : ℕ) : List Item :=
  history.modify place fun item => { item with evidence := some (item.row.case ++ "/") }

/-- The loop over `sorted(latest.items())`. -/
def marked (c : Collected) : List Item :=
  ((c.latest.entries.mergeSort fun e e' => decide (e.1 ≤ e'.1)).map Prod.snd).foldl mark c.history

/-- What is written at the end. -/
structure Report where
  /-- `attempts.json`. -/
  attempts : List Item
  /-- `summary.json`: `latest.values()`. -/
  summary : List Item
deriving DecidableEq, Repr

def report (files : List ResultFile) : Report :=
  let c := collect files
  let history := marked c
  { attempts := history, summary := c.latest.entries.filterMap fun e => history[e.2]? }

/-! ## The logs -/

/-- Where `str.splitlines` cuts. -/
def isLineBreak (c : Char) : Bool :=
  (0x0a ≤ c.toNat && c.toNat ≤ 0x0d) || (0x1c ≤ c.toNat && c.toNat ≤ 0x1e) || c.toNat == 0x85 ||
    c.toNat == 0x2028 || c.toNat == 0x2029

/-- `str.isspace`, which `str.rstrip` strips. -/
def isSpace (c : Char) : Bool :=
  (0x09 ≤ c.toNat && c.toNat ≤ 0x0d) || (0x1c ≤ c.toNat && c.toNat ≤ 0x20) || c.toNat == 0x85 ||
    c.toNat == 0xa0 || c.toNat == 0x1680 || (0x2000 ≤ c.toNat && c.toNat ≤ 0x200a) ||
    c.toNat == 0x2028 || c.toNat == 0x2029 || c.toNat == 0x202f || c.toNat == 0x205f ||
    c.toNat == 0x3000

/-- What is written back to a log: `'\n'.join(line.rstrip() for …).rstrip() + '\n'`. -/
def normalizeLog (text : List Char) : List Char := Text.normalize isLineBreak isSpace text

/-- A file below the output directory, by its path. -/
structure OutputFile where
  path : String
  text : List Char
deriving DecidableEq, Repr

/-- `a.output.rglob('*.log')`. -/
def OutputFile.isLog (f : OutputFile) : Bool := ".log".toList.isSuffixOf f.path.toList

/-- A file after the last loop. -/
def normalizeFile (f : OutputFile) : OutputFile :=
  if f.isLog then { f with text := normalizeLog f.text } else f

/-- The last loop. -/
def normalizeLogs (output : List OutputFile) : List OutputFile := output.map normalizeFile

/-! ## What the report is to be -/

/-- Every row with its file, by the time of the file. -/
def timed (files : List ResultFile) : List (ResultFile × Row) :=
  (byTime files).flatMap fun file => file.rows.map fun row => (file, row)

/-- The lines of a log that count: without the spaces at their ends, and without the empty ones at
the end. -/
def logLines (text : List Char) : List (List Char) := Text.trimmed isLineBreak isSpace text

/-- No later attempt has the number. -/
def IsLast (attempts : List Item) (i : ℕ) : Prop :=
  ∀ j item item', i < j → attempts[i]? = some item → attempts[j]? = some item' →
    item'.number ≠ item.number

end K8sDev.Results

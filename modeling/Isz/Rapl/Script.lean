import Isz.Library.Dict
import Isz.Library.Runs
import Isz.Library.Text

namespace Isz.Rapl

-- the code points str.isspace accepts
def isSpace (c : Char) : Bool :=
  let n := c.toNat
  (9 ≤ n && n ≤ 13) || (28 ≤ n && n ≤ 32) || n == 0x85 || n == 0xa0 || n == 0x1680 ||
    (0x2000 ≤ n && n ≤ 0x200a) || n == 0x2028 || n == 0x2029 || n == 0x202f || n == 0x205f ||
    n == 0x3000

def strip (text : Str) : Str := (text.dropWhile isSpace).rdropWhile isSpace

def digit (c : Char) : Nat := c.toNat - '0'.toNat

-- the digits after the first one, each after at most one underscore
def digits (n : Nat) : Str → Option Nat
  | [] => some n
  | '_' :: c :: text => if c.isDigit then digits (10 * n + digit c) text else none
  | c :: text => if c.isDigit then digits (10 * n + digit c) text else none

def natural : Str → Option Nat
  | [] => none
  | c :: text => if c.isDigit then digits (digit c) text else none

-- int(text); none is a ValueError
def int : Str → Option Int
  | '-' :: text => (natural text).map fun n => -n
  | '+' :: text => (natural text).map fun n => n
  | text => (natural text).map fun n => n

abbrev energyKey : Str := "energy_uj".toList

abbrev rangeKey : Str := "max_energy_range_uj".toList

abbrev cumulativeKey : Str := "energy_uj_cumulative".toList

-- text is none where the read raises an OSError
structure DirEntry where
  name : Str
  isFile : Bool
  text : Option Str

-- the kernel gives no file the name that the script adds
structure Directory where
  entries : List DirEntry
  distinct : (entries.map DirEntry.name).Nodup
  unreserved : cumulativeKey ∉ entries.map DirEntry.name

abbrev Result := List (Str × Int)

def readFiles (dir : Directory) : List (Str × Str) :=
  dir.entries.filterMap fun de =>
    if de.isFile then de.text.map fun text => (de.name, strip text) else none

def Kept (e : Str × Str) : Prop :=
  e.1 ≠ "name".toList ∧ e.2 ≠ [] ∧ ¬"constraint_".toList <+: e.1

instance (e : Str × Str) : Decidable (Kept e) := inferInstanceAs (Decidable (_ ∧ _ ∧ ¬_))

def kept (files : List (Str × Str)) : List (Str × Str) := files.filter Kept

def integers (files : List (Str × Str)) : Option Result :=
  files.mapM fun e => (int e.2).map fun v => (e.1, v)

def accumulate (lastResult result : Result) : Result :=
  match result.lookup energyKey with
  | none => result
  | some energy =>
    let lastEnergy := (lastResult.lookup energyKey).getD 0
    let energy :=
      if energy < lastEnergy then energy + (result.lookup rangeKey).getD 0 else energy
    let cumulative := (lastResult.lookup cumulativeKey).getD 0 + (energy - lastEnergy)
    assign result cumulativeKey (if 0x7fffffffffffffff < cumulative then 0 else cumulative)

structure Line where
  device : Str
  name : Option Str
  result : Result
  deriving DecidableEq

def Line.fields (l : Line) : Result := l.result.filter fun e => e.2 ≠ 0

structure Script where
  lastResultByDevice : List (Str × Result)
  printed : List Line
  deriving DecidableEq

def start : Script := ⟨[], []⟩

-- one device of one scrape; none where int raises and the script ends
def step (s : Script) (scraped : Str × Directory) : Option Script :=
  let device := scraped.1
  let lastResult := (s.lastResultByDevice.lookup device).getD []
  let files := readFiles scraped.2
  (integers (kept files)).map fun integers =>
    let result := accumulate lastResult integers
    { lastResultByDevice := assign s.lastResultByDevice device result
      printed := s.printed ++ [⟨device, files.lookup "name".toList, result⟩] }

example : int "1_000".toList = some 1000 ∧ int "-7".toList = some (-7) ∧
    int "1__0".toList = none := by decide

end Isz.Rapl

import Isz.Library.Text
import Isz.Library.Except
import Mathlib.Data.Rat.Floor

namespace Isz.Grafana

open Except

inductive EvalError where
  | abort (message : Str)
  | cannotCoerce
deriving DecidableEq

-- `literalExpression` carries the set's `text`; `other` is any other set, a path or a function
inductive Value where
  | null
  | bool (b : Bool)
  | int (n : Int)
  | float (x : ℚ)
  | string (s : Str)
  | list (vs : List Value)
  | literalExpression (text : Str)
  | other

def intToString : Int → Str
  | .ofNat n => Nat.toDigits 10 n
  | .negSucc n => '-' :: Nat.toDigits 10 (n + 1)

def roundHalfEven (x : ℚ) : Nat :=
  let n := x.floor.toNat
  if x - n < 1 / 2 then n else if 1 / 2 < x - n then n + 1 else n + n % 2

-- six decimals, as %f prints a finite double
def floatToString (x : ℚ) : Str :=
  let n := roundHalfEven (|x| * 10 ^ 6)
  let decimals := Nat.toDigits 10 (n % 10 ^ 6)
  (if x < 0 then ['-'] else []) ++ Nat.toDigits 10 (n / 10 ^ 6) ++ '.' ::
    List.replicate (6 - decimals.length) '0' ++ decimals

def boolToString (b : Bool) : Str := if b then "true".toList else "false".toList

def interpolate : Value → Except EvalError Str
  | .string s => ok s
  | _ => error .cannotCoerce

def escape (c : Char) (s : Str) : Str := s.flatMap fun x => if x = c then ['\\', x] else [x]

def double (c : Char) (s : Str) : Str := s.flatMap fun x => if x = c then [x, x] else [x]

mutual

def fluxValue : Value → Except EvalError Str
  | .literalExpression text => ok text
  | .list vs => do return '[' :: concatStringsSep ", ".toList (← fluxValues vs) ++ [']']
  | .int n => ok (intToString n)
  | .float x => ok (floatToString x)
  | .string s => ok ('"' :: escape '"' s ++ ['"'])
  | .bool b => ok (boolToString b)
  | .null | .other => error (.abort "Unknown type".toList)

def fluxValues : List Value → Except EvalError (List Str)
  | [] => ok []
  | v :: vs => do return (← fluxValue v) :: (← fluxValues vs)

end

inductive FluxOp where
  | equal
  | unequal
  | matching
  | unmatching
deriving DecidableEq

def FluxOp.text : FluxOp → Str
  | equal => "==".toList
  | unequal => "!=".toList
  | matching => "=~".toList
  | unmatching => "!~".toList

def fluxComparison (field : Str) (op : FluxOp) (value : Value) : Except EvalError Str := do
  let name ← fluxValue (.string field)
  let operand ← if op = .matching ∨ op = .unmatching then do
      return '/' :: (← interpolate value) ++ ['/']
    else fluxValue value
  return "r[".toList ++ name ++ "] ".toList ++ op.text ++ " ".toList ++ operand

def fluxFilter (field : Str) (op : FluxOp) (values : List Value) : Except EvalError Str := do
  return concatStringsSep
    (if op = .unequal ∨ op = .unmatching then " and ".toList else " or ".toList)
    (← values.mapM (fluxComparison field op))

def sqlIdentifier : Value → Except EvalError Str
  | .literalExpression text => ok text
  | .string s => ok ('"' :: double '"' s ++ ['"'])
  | _ => error .cannotCoerce

def sqlValue : Value → Except EvalError Str
  | .literalExpression text => ok text
  | .list vs => do return '(' :: concatStringsSep ", ".toList (← fluxValues vs) ++ [')']
  | .int n => ok (intToString n)
  | .float x => ok (floatToString x)
  | .string s => ok ('\'' :: double '\'' s ++ ['\''])
  | .bool b => ok (boolToString b)
  | .null | .other => error (.abort "Unknown type".toList)

inductive SqlOp where
  | equal
  | unequal
deriving DecidableEq

def SqlOp.text : SqlOp → Str
  | equal => "=".toList
  | unequal => "!=".toList

def sqlComparison (field : Str) (op : SqlOp) : Value → Except EvalError Str
  | .null => do
    return (← sqlIdentifier (.string field)) ++ " IS ".toList ++
      (if op = .unequal then "NOT ".toList else []) ++ "NULL".toList
  | value => do
    return (← sqlIdentifier (.string field)) ++ " ".toList ++ op.text ++ " ".toList ++
      (← sqlValue value)

def sqlFilter (field : Str) (op : SqlOp) (values : List Value) : Except EvalError Str := do
  return concatStringsSep (if op = .unequal then " and ".toList else " or ".toList)
    (← values.mapM (sqlComparison field op))

theorem fluxValues_ok {text : Value → Str} {vs : List Value}
    (h : ∀ v ∈ vs, fluxValue v = ok (text v)) : fluxValues vs = ok (vs.map text) := by
  induction vs with
  | nil => rfl
  | cons v vs ih =>
    rw [List.forall_mem_cons] at h
    rw [fluxValues, h.1, ih h.2]
    rfl

inductive IsLiteral : Value → Prop
  | string (s : Str) : IsLiteral (.string s)
  | int (n : Int) : IsLiteral (.int n)
  | bool (b : Bool) : IsLiteral (.bool b)
  | list {vs : List Value} (h : ∀ v ∈ vs, IsLiteral v) : IsLiteral (.list vs)

inductive Occurs (s : Str) : Value → Prop
  | here : Occurs s (.string s)
  | inside {v : Value} {vs : List Value} (hv : v ∈ vs) (h : Occurs s v) : Occurs s (.list vs)

end Isz.Grafana

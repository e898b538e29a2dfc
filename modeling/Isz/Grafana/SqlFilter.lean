import Isz.Grafana.Sql

namespace Isz.Grafana.Sql

open Lexer Lexicon Except

inductive Scalar where
  | string (s : Str)
  | int (n : Int)
  | bool (b : Bool)
deriving DecidableEq

def Scalar.value : Scalar → Value
  | string s => .string s
  | int n => .int n
  | bool b => .bool b

-- a null in a row or in a filter is `none`
def cellValue : Option Scalar → Value
  | none => .null
  | some x => x.value

abbrev Row := Str → Option Scalar

def compare (op : SqlOp) (name : Str) (x : Scalar) (r : Row) : Option Bool :=
  (r name).map fun y => if op = .equal then y = x else y ≠ x

def isNull (op : SqlOp) (name : Str) (r : Row) : Option Bool :=
  some (if op = .equal then (r name).isNone else (r name).isSome)

def test (op : SqlOp) (name : Str) : Option Scalar → Row → Option Bool
  | none => isNull op name
  | some x => compare op name x

def scalar : List Token → Option Scalar
  | [.quoted mark s] => if mark = '\'' then some (.string s) else none
  | [.number n] => some (.int n)
  | [.symbol s, .number n] => if s = ['-'] then some (.int (-n)) else none
  | [.word w] =>
    if w = "true".toList then some (.bool true)
    else if w = "false".toList then some (.bool false)
    else none
  | _ => none

def atom : List Token → Option (Row → Option Bool)
  | .quoted mark name :: .symbol op :: ts =>
    if mark = '"' then
      if op = SqlOp.equal.text then (scalar ts).map (compare .equal name)
      else if op = SqlOp.unequal.text then (scalar ts).map (compare .unequal name)
      else none
    else none
  | [.quoted mark name, .word a, .word b] =>
    if mark = '"' ∧ a = "is".toList ∧ b = "null".toList then some (isNull .equal name) else none
  | [.quoted mark name, .word a, .word b, .word c] =>
    if mark = '"' ∧ a = "is".toList ∧ b = "not".toList ∧ c = "null".toList then
      some (isNull .unequal name)
    else none
  | _ => none

def predicate (text : Str) : Option (Row → Option Bool) :=
  (lexicon.lex text).bind (Condition.read atom)

def testTokens (op : SqlOp) (name : Str) : Option Scalar → List Token
  | none => .quoted '"' name :: .word "is".toList ::
      ((if op = .unequal then [.word "not".toList] else []) ++ [.word "null".toList])
  | some x => .quoted '"' name :: .symbol op.text :: literal dialect x.value

theorem scalar_literal (x : Scalar) : scalar (literal dialect x.value) = some x := by
  cases x with
  | string s => rfl
  | int n =>
    cases n with
    | ofNat n => rfl
    | negSucc n => rfl
  | bool b => cases b <;> rfl

theorem atom_test (op : SqlOp) (name : Str) (x : Option Scalar) :
    atom (testTokens op name x) = some (test op name x) := by
  cases x with
  | none => cases op <;> rfl
  | some x => cases op <;> simp [atom, testTokens, SqlOp.text, scalar_literal, test]

theorem simple_test (op : SqlOp) (name : Str) (x : Option Scalar) :
    Condition.Simple (testTokens op name x) := by
  rcases x with - | s | (n | n) | b
  · cases op <;> simp [Condition.Simple, testTokens, Condition.or, Condition.and]
  · simp [Condition.Simple, testTokens, Condition.or, Condition.and, Scalar.value, literal]
  · simp [Condition.Simple, testTokens, Condition.or, Condition.and, Scalar.value, literal, integer]
  · simp [Condition.Simple, testTokens, Condition.or, Condition.and, Scalar.value, literal, integer]
  · cases b <;> simp [Condition.Simple, testTokens, Condition.or, Condition.and, Scalar.value,
      literal, boolToString]

theorem isLiteral_value (x : Scalar) : IsLiteral x.value := by
  cases x with
  | string s => exact .string s
  | int n => exact .int n
  | bool b => exact .bool b

theorem renderable_value (x : Scalar) : Renderable x.value := by
  cases x with
  | string s => exact .string s
  | int n => exact .int n
  | bool b => exact .bool b

def testText (op : SqlOp) (field : Str) (x : Option Scalar) : Str :=
  (sqlComparison field op (cellValue x)).toOption.getD []

theorem sqlComparison_eq (op : SqlOp) (field : Str) (x : Option Scalar) :
    sqlComparison field op (cellValue x) = ok (testText op field x) := by
  cases x with
  | none => rfl
  | some x => cases x <;> rfl

theorem boundary_space (s : Str) : lexicon.Boundary (' ' :: s) := boundary_plain rfl (by decide)

theorem opens_is : lexicon.Opens " IS ".toList [.word "is".toList] :=
  opens_space.append (Opens.word (c := 'I') (w := ['S']) rfl rfl rfl opens_space
    boundary_space)

theorem opens_not : lexicon.Opens "NOT ".toList [.word "not".toList] :=
  Opens.word (c := 'N') (w := ['O', 'T']) rfl rfl rfl opens_space boundary_space

theorem exact_null : lexicon.Exact "NULL".toList [.word "null".toList] True :=
  exact_word (c := 'N') (w := ['U', 'L', 'L']) rfl rfl rfl

theorem opens_op (op : SqlOp) :
    lexicon.Opens (" ".toList ++ op.text ++ " ".toList) [.symbol op.text] := by
  have hop : lexicon.Opens op.text [.symbol op.text] := by
    cases op with
    | equal => exact opens_operator (w := []) rfl (by decide) rfl rfl fun s => rfl
    | unequal => exact opens_operator (w := ['=']) rfl (by decide) rfl rfl fun s => rfl
  exact (opens_space.append hop).append opens_space

theorem exact_test (op : SqlOp) (field : Str) (x : Option Scalar) :
    lexicon.Exact (testText op field x) (testTokens op field x) True := by
  have hname := exact_quoted (.inr rfl) field
  cases x with
  | none =>
    have hnull : lexicon.Exact (" IS ".toList ++ ((if op = .unequal then "NOT ".toList else []) ++
        "NULL".toList)) (.word "is".toList ::
          ((if op = .unequal then [.word "not".toList] else []) ++ [.word "null".toList]))
          True := by
      cases op with
      | equal => exact opens_is.exact exact_null
      | unequal => exact opens_is.exact (opens_not.exact exact_null)
    have htext : testText op field none = ('"' :: double '"' field ++ ['"']) ++
        (" IS ".toList ++ ((if op = .unequal then "NOT ".toList else []) ++ "NULL".toList)) := by
      simp [testText, sqlComparison, cellValue, sqlIdentifier, Except.toOption]
    rw [htext]
    exact (hname.append hnull fun rest _ => boundary_space _).congr (and_self_iff)
  | some x =>
    have hvalue := (opens_op op).exact
      ((exact_sqlText (isLiteral_value x)).congr (iff_true_intro (renderable_value x)))
    have htext : testText op field (some x) = ('"' :: double '"' field ++ ['"']) ++
        ((" ".toList ++ op.text ++ " ".toList) ++ sqlText x.value) := by
      cases x <;> simp [testText, sqlComparison, cellValue, Scalar.value, sqlIdentifier, sqlValue,
        sqlText, Except.toOption]
    rw [htext]
    exact (hname.append hvalue fun rest _ => boundary_space _).congr and_self_iff

def join (op : SqlOp) : Condition.Join := if op = .unequal then .all else .any

theorem separator_join (op : SqlOp) :
    lexicon.Separator (if op = .unequal then " and ".toList else " or ".toList) (join op).word := by
  cases op with
  | equal =>
    exact ⟨opens_space.append (Opens.word (c := 'o') (w := ['r']) rfl rfl rfl opens_space
      boundary_space), fun s => boundary_space _⟩
  | unequal =>
    exact ⟨opens_space.append (Opens.word (c := 'a') (w := ['n', 'd']) rfl rfl rfl opens_space
      boundary_space), fun s => boundary_space _⟩

def filterText (op : SqlOp) (field : Str) (values : List (Option Scalar)) : Str :=
  concatStringsSep (if op = .unequal then " and ".toList else " or ".toList)
    (values.map (testText op field))

theorem sqlFilter_eq (op : SqlOp) (field : Str) (values : List (Option Scalar)) :
    sqlFilter field op (values.map cellValue) = ok (filterText op field values) := by
  have hparts : (values.map cellValue).mapM (sqlComparison field op) =
      ok (values.map (testText op field)) := by
    rw [List.mapM_map]
    exact mapM_ok fun x _ => sqlComparison_eq op field x
  rw [sqlFilter, hparts]
  rfl

theorem predicate_filterText (op : SqlOp) (field : Str) {values : List (Option Scalar)}
    (hne : values ≠ []) :
    predicate (filterText op field values) =
      some fun r => (join op).combine (values.map fun x => test op field x r) := by
  have hall := Exact.intercalate (separator_join op) fun x (_ : x ∈ values) => exact_test op field x
  rw [predicate, filterText, hall.lex_iff.mpr fun _ _ => trivial, Option.bind_some]
  exact Condition.read_map (join op) hne (fun x _ => simple_test op field x)
    fun x _ => atom_test op field x

def Means (field : Str) (op : SqlOp) (values : List (Option Scalar)) : Prop :=
  ∃ text p, sqlFilter field op (values.map cellValue) = ok text ∧ predicate text = some p ∧
    (∀ (r : Row) x, r field = some x →
      (p r = some true ↔ (op = .equal ∧ some x ∈ values) ∨ (op = .unequal ∧ some x ∉ values))) ∧
    (∀ r : Row, r field = none → op = .equal → (p r = some true ↔ none ∈ values))

theorem test_equal {field : Str} {x : Option Scalar} {r : Row} :
    test .equal field x r = some true ↔ r field = x := by
  cases x with
  | none => simp [test, isNull]
  | some x => simp [test, compare]

theorem test_unequal {field : Str} {x : Option Scalar} {y : Scalar} {r : Row}
    (hr : r field = some y) : test .unequal field x r = some true ↔ some y ≠ x := by
  cases x with
  | none => simp [test, isNull, hr]
  | some x => simp [test, compare, hr]

theorem means {op : SqlOp} (field : Str) {values : List (Option Scalar)} (hne : values ≠ []) :
    Means field op values := by
  refine ⟨_, _, sqlFilter_eq op field values, predicate_filterText op field hne,
    fun r x hr => ?_, fun r hr hop => ?_⟩
  · cases op with
    | equal =>
      rw [join, if_neg (by decide), Condition.Join.combine, Condition.any_eq_true, List.mem_map]
      simp only [test_equal, hr]
      simp
    | unequal =>
      rw [join, if_pos rfl, Condition.Join.combine, Condition.all_eq_true, List.forall_mem_map]
      constructor
      · exact fun hall => .inr ⟨rfl, fun hin => (test_unequal hr).mp (hall _ hin) rfl⟩
      · rintro (⟨hop, -⟩ | ⟨-, hnot⟩) y hy
        · cases hop
        · exact (test_unequal hr).mpr fun heq => hnot (heq ▸ hy)
  · subst hop
    rw [join, if_neg (by decide), Condition.Join.combine, Condition.any_eq_true, List.mem_map]
    simp only [test_equal, hr]
    simp

def InjectionFree (v : Value) (name field : Str) (op : SqlOp) (values : List (Option Scalar)) :
    Prop := Reads v ∧ ReadsIdentifier name ∧ Means field op values

theorem sql_injectionFree_iff {v : Value} (hv : IsLiteral v) (name field : Str) (op : SqlOp)
    {values : List (Option Scalar)} (hne : values ≠ []) :
    InjectionFree v name field op values ↔ Renderable v := by
  rw [InjectionFree, reads_iff hv]
  exact and_iff_left ⟨readsIdentifier name, means field hne⟩

theorem sql_injectionFree_iff_channels :
    InjectionFree (.list [.int (-1), .bool true]) "greptime \"value\"".toList "host".toList .unequal
      [some (.string "workshop's".toList), none, some (.int 4)] := by
  refine (sql_injectionFree_iff (.list ?_) _ _ _ (List.cons_ne_nil _ _)).mpr (.list ?_)
  · simp only [List.mem_cons, List.not_mem_nil, or_false]
    rintro v (rfl | rfl)
    · exact .int _
    · exact .bool true
  · simp only [List.mem_cons, List.not_mem_nil, or_false]
    rintro v (rfl | rfl)
    · exact .int _
    · exact .bool true

theorem stations_not_injectionFree :
    ¬InjectionFree (.list [.string "Kitchen".toList]) "name".toList "host".toList .equal
      [some (.string "workshop".toList)] := by
  rintro ⟨⟨text, htext, hlex⟩, -⟩
  cases htext
  exact absurd hlex (by decide)

end Isz.Grafana.Sql

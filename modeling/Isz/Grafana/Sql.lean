import Isz.Grafana.Literals
import Isz.Library.Condition

namespace Isz.Grafana.Sql

open Lexer Lexicon Except

-- what follows an opening quote; two quotes in a row are one that does not close
def doubled (mark : Char) : Str → Option (Str × Str)
  | [] => none
  | [c] => if c = mark then some ([], []) else none
  | c :: d :: s =>
    if c = mark then
      if d = mark then (doubled mark s).map fun r => (mark :: r.1, r.2) else some ([], d :: s)
    else (doubled mark (d :: s)).map fun r => (c :: r.1, r.2)

theorem doubled_le {mark : Char} {s t r : Str} (h : doubled mark s = some (t, r)) :
    r.length ≤ s.length := by
  induction s using doubled.induct mark generalizing t r with
  | case1 => cases h
  | case2 =>
    simp only [doubled, if_true, Option.some.injEq, Prod.mk.injEq] at h
    simp [← h.2]
  | case3 c hc => simp [doubled, hc] at h
  | case4 s ih =>
    rw [doubled, if_pos rfl, if_pos rfl] at h
    obtain ⟨x, hx, heq⟩ := Option.map_eq_some_iff.mp h
    rw [← (Prod.mk.inj heq).2]
    exact (ih hx).trans (by simp only [List.length_cons]; omega)
  | case5 d s hd =>
    rw [doubled, if_pos rfl, if_neg hd] at h
    rw [← (Prod.mk.inj (Option.some.inj h)).2]
    exact Nat.le_succ _
  | case6 c d s hc ih =>
    rw [doubled, if_neg hc] at h
    obtain ⟨x, hx, heq⟩ := Option.map_eq_some_iff.mp h
    rw [← (Prod.mk.inj heq).2]
    exact (ih hx).trans (Nat.le_succ _)

theorem doubled_cons {mark c : Char} (hc : c ≠ mark) (s : Str) :
    doubled mark (c :: s) = (doubled mark s).map fun r => (c :: r.1, r.2) := by
  cases s with
  | nil => simp [doubled, hc]
  | cons d s => rw [doubled, if_neg hc]

theorem doubled_close {mark : Char} {rest : Str} (hrest : ∀ c ∈ rest.head?, c ≠ mark) :
    doubled mark (mark :: rest) = some ([], rest) := by
  cases rest with
  | nil => simp [doubled]
  | cons d rest => rw [doubled, if_pos rfl, if_neg (hrest d rfl)]

theorem doubled_double {mark : Char} (w : Str) {rest : Str} (hrest : ∀ c ∈ rest.head?, c ≠ mark) :
    doubled mark (double mark w ++ mark :: rest) = some (w, rest) := by
  induction w with
  | nil => exact doubled_close hrest
  | cons c w ih =>
    by_cases hc : c = mark
    · subst hc
      have hcons : double c (c :: w) = c :: c :: double c w := by simp [double]
      rw [hcons, List.cons_append, List.cons_append, doubled, if_pos rfl, if_pos rfl, ih]
      rfl
    · have hcons : double mark (c :: w) = c :: double mark w := by simp [double, hc]
      rw [hcons, List.cons_append, doubled_cons hc, ih]
      rfl

def operators : List Str := ["!=", "<>", "<=", ">=", "||", "::", "--", "/*", "+", "-", "*", "/",
  "%", "<", ">", "=", "(", ")", "[", "]", ",", ".", ";", ":"].map String.toList

-- keywords and unquoted names do not keep their case
def lexicon : Lexicon where
  body c := if c = '\'' ∨ c = '"' then some (doubled c) else none
  body_word := fun {c} hc => if_neg fun hmark => by
    obtain rfl | rfl := hmark <;> cases hc
  body_le := by
    intro c read s t r hc hread
    split_ifs at hc
    cases hc
    exact doubled_le hread
  symbols := operators
  symbols_ne := by decide
  fold := Char.toLower

theorem exact_quoted {mark : Char} (hmark : mark = '\'' ∨ mark = '"') (w : Str) :
    lexicon.Exact (mark :: double mark w ++ [mark]) [.quoted mark w] True := by
  refine exact_of_lex fun rest hrest => ?_
  have hbody : lexicon.body mark = some (doubled mark) := if_pos hmark
  have hnext : ∀ c ∈ rest.head?, c ≠ mark := fun c hc heq => by
    have := (hrest c hc).2
    rw [heq, hbody] at this
    cases this
  have hspace : isSpace mark = false := by
    obtain rfl | rfl := hmark <;> rfl
  rw [List.cons_append, List.cons_append, List.append_assoc, List.singleton_append,
    lex_quoted hspace hbody, doubled_double w hnext]
  rfl

theorem opens_operator {c : Char} {w : Str} (hspace : isSpace c = false)
    (hmark : ¬(c = '\'' ∨ c = '"')) (hdigit : c.isDigit = false) (hletter : isLetter c = false)
    (hfind : ∀ s, operators.find? (·.isPrefixOf (c :: (w ++ s))) = some (c :: w)) :
    lexicon.Opens (c :: w) [.symbol (c :: w)] :=
  opens_symbol hspace (if_neg hmark) hdigit hletter hfind

theorem boundary_plain {c : Char} {s : Str} (hc : continues c = false)
    (hmark : ¬(c = '\'' ∨ c = '"')) : lexicon.Boundary (c :: s) :=
  boundary_cons hc (if_neg hmark)

def dialect : Dialect := ⟨'\'', ['('], [')']⟩

inductive Element : Value → Prop
  | int (n : Int) : Element (.int n)
  | bool (b : Bool) : Element (.bool b)

inductive Renderable : Value → Prop
  | string (s : Str) : Renderable (.string s)
  | int (n : Int) : Renderable (.int n)
  | bool (b : Bool) : Renderable (.bool b)
  | list {vs : List Value} (h : ∀ v ∈ vs, Element v) : Renderable (.list vs)

theorem lex_minus {c : Char} (s : Str) (hc : c.isDigit) :
    lexicon.lex ('-' :: c :: s) = (lexicon.lex (c :: s)).map (.symbol ['-'] :: ·) := by
  have hne : ¬c = '-' := fun heq => by
    rw [heq] at hc
    cases hc
  refine lex_of_token rfl ?_
  simp [token, lexicon, operators, isLetter, Ne.symm hne]

theorem exact_element {v : Value} (hv : IsLiteral v) :
    lexicon.Exact (fluxText v) (literal dialect v) (Element v) := by
  cases hv with
  | string s =>
    intro rest ts _
    refine iff_of_false (fun h => ?_) fun h => by cases h.1
    have hquoted : lexicon.lex (fluxText (.string s) ++ rest) =
        (doubled '"' ((escape '"' s ++ ['"']) ++ rest)).bind fun r =>
          (lexicon.lex r.2).map (.quoted '"' r.1 :: ·) := lex_quoted rfl rfl
    rw [hquoted] at h
    obtain ⟨r, -, h⟩ := Option.bind_eq_some_iff.mp h
    obtain ⟨ts', -, heq⟩ := Option.map_eq_some_iff.mp h
    cases heq
  | int n => exact (exact_int lex_minus n).congr (iff_of_true trivial (.int n))
  | bool b =>
    refine (exact_bool ?_).congr (iff_of_true trivial (.bool b))
    cases b <;> rfl
  | list h =>
    intro rest ts _
    refine iff_of_false (fun hlex => ?_) fun h => by cases h.1
    have hopening : lexicon.Opens ['['] [.symbol ['[']] :=
      opens_operator (w := []) rfl (by decide) rfl rfl fun s => rfl
    rw [fluxText_list h, List.cons_append, ← List.singleton_append, hopening] at hlex
    obtain ⟨ts', -, heq⟩ := Option.map_eq_some_iff.mp hlex
    cases heq

theorem separator_comma : lexicon.Separator ", ".toList (.symbol [',']) where
  opens := (opens_operator (w := []) rfl (by decide) rfl rfl fun s => rfl).append opens_space
  boundary s := boundary_plain rfl (by decide)

def sqlText (v : Value) : Str := (sqlValue v).toOption.getD []

theorem sqlValue_eq {v : Value} (hv : IsLiteral v) : sqlValue v = ok (sqlText v) := by
  cases hv with
  | string | int | bool => rfl
  | list h => rw [sqlText, sqlValue, fluxValues_ok fun v hv => fluxValue_eq (h v hv)]; rfl

theorem exact_sqlText {v : Value} (hv : IsLiteral v) :
    lexicon.Exact (sqlText v) (literal dialect v) (Renderable v) := by
  cases hv with
  | string s => exact (exact_quoted (.inl rfl) s).congr (iff_of_true trivial (.string s))
  | int n => exact (exact_int lex_minus n).congr (iff_of_true trivial (.int n))
  | bool b =>
    refine (exact_bool ?_).congr (iff_of_true trivial (.bool b))
    cases b <;> rfl
  | @list vs h =>
    have hitems := Exact.intercalate separator_comma fun v hv => exact_element (h v hv)
    have hopening : lexicon.Opens ['('] [.symbol ['(']] :=
      opens_operator (w := []) rfl (by decide) rfl rfl fun s => rfl
    have hclosing : lexicon.Opens [')'] [.symbol [')']] :=
      opens_operator (w := []) rfl (by decide) rfl rfl fun s => rfl
    have hall := hopening.exact (hitems.append hclosing.toExact fun rest _ =>
      boundary_plain rfl (by decide))
    have htext : sqlText (.list vs) =
        '(' :: (concatStringsSep ", ".toList (vs.map fluxText) ++ [')']) := by
      rw [sqlText, sqlValue, fluxValues_ok fun v hv => fluxValue_eq (h v hv)]
      rfl
    rw [htext, literal, literals_eq_map]
    refine hall.congr ⟨fun hin => .list hin.1, fun hin => ⟨?_, trivial⟩⟩
    cases hin with
    | list hin => exact hin

def Reads (v : Value) : Prop :=
  ∃ text, sqlValue v = ok text ∧ lexicon.lex text = some (literal dialect v)

theorem reads_iff {v : Value} (hv : IsLiteral v) : Reads v ↔ Renderable v := by
  rw [← (exact_sqlText hv).lex_iff, Reads, sqlValue_eq hv]
  simp

def ReadsIdentifier (s : Str) : Prop :=
  ∃ text, sqlIdentifier (.string s) = ok text ∧ lexicon.lex text = some [.quoted '"' s]

theorem readsIdentifier (s : Str) : ReadsIdentifier s :=
  ⟨_, rfl, (exact_quoted (.inr rfl) s).lex_iff.mpr trivial⟩

end Isz.Grafana.Sql

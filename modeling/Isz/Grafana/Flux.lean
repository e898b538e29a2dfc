import Isz.Grafana.Literals
import Isz.Library.Condition
import Mathlib.Data.List.Count

namespace Isz.Grafana.Flux

open Lexer Lexicon Except

structure Escapes where
  table : Char → Option Char
  quote : table '"' = some '"'
  backslash : table '\\' = some '\\'

section Strings

variable (E : Escapes)

-- what follows an opening quote, none when it is not closed or has an interpolation
def body : Str → Option (Str × Str)
  | [] => none
  | [c] => if c = '"' then some ([], []) else none
  | c :: d :: s =>
    if c = '"' then some ([], d :: s)
    else if c = '\\' then (E.table d).bind fun e => (body s).map fun r => (e :: r.1, r.2)
    else if c = '$' ∧ d = '{' then none
    else (body (d :: s)).map fun r => (c :: r.1, r.2)

theorem body_close (s : Str) : body E ('"' :: s) = some ([], s) := by
  cases s <;> simp [body]

theorem body_escape (d : Char) (s : Str) :
    body E ('\\' :: d :: s) =
      (E.table d).bind fun e => (body E s).map fun r => (e :: r.1, r.2) := by
  simp [body]

theorem body_plain {c : Char} {s : Str} (hquote : c ≠ '"') (hback : c ≠ '\\')
    (hdollar : c = '$' → s.head? ≠ some '{') :
    body E (c :: s) = (body E s).map fun r => (c :: r.1, r.2) := by
  cases s with
  | nil => simp [body, hquote]
  | cons d s =>
    have : ¬(c = '$' ∧ d = '{') := fun h => hdollar h.1 (by rw [h.2]; rfl)
    rw [body, if_neg hquote, if_neg hback, if_neg this]

theorem body_le {s t r : Str} (h : body E s = some (t, r)) : r.length ≤ s.length := by
  induction s using body.induct generalizing t r with
  | case1 => cases h
  | case2 => simp_all [body]
  | case3 c hc => simp [body, hc] at h
  | case4 d s =>
    rw [body_close] at h
    cases h
    simp
  | case5 d s hne ih =>
    rw [body_escape] at h
    obtain ⟨e, -, h⟩ := Option.bind_eq_some_iff.mp h
    obtain ⟨x, hx, heq⟩ := Option.map_eq_some_iff.mp h
    rw [← (Prod.mk.inj heq).2]
    exact (ih hx).trans (by simp only [List.length_cons]; omega)
  | case6 c d s _ _ hdollar => simp [body, hdollar] at h
  | case7 c d s hquote hback hdollar ih =>
    rw [body, if_neg hquote, if_neg hback, if_neg hdollar] at h
    obtain ⟨x, hx, heq⟩ := Option.map_eq_some_iff.mp h
    rw [← (Prod.mk.inj heq).2]
    exact (ih hx).trans (Nat.le_succ _)

def Uninterpolated (s : Str) : Prop := ¬['$', '{'] <:+: s

def closed : Str → Option Str
  | [] => some []
  | [c] => if c = '\\' then none else some [c]
  | c :: d :: w =>
    if c = '\\' then
      if d = '"' then none else (E.table d).bind fun e => (closed w).map (e :: ·)
    else (closed (d :: w)).map (c :: ·)

theorem escape_cons_quote (w : Str) :
    escape '"' ('"' :: w) = '\\' :: '"' :: escape '"' w := rfl

theorem escape_cons {c : Char} (hc : c ≠ '"') (w : Str) :
    escape '"' (c :: w) = c :: escape '"' w := by
  simp [escape, hc]

theorem head?_escape {c : Char} {w rest : Str} (hback : c ≠ '\\') (hquote : c ≠ '"')
    (h : (escape '"' w ++ '"' :: rest).head? = some c) : w.head? = some c := by
  cases w with
  | nil => exact absurd (Option.some.inj h).symm hquote
  | cons x w =>
    by_cases hx : x = '"'
    · subst hx
      exact absurd (Option.some.inj h).symm hback
    · rw [escape_cons hx] at h
      exact h

theorem closed_cons {c : Char} (hc : c ≠ '\\') (w : Str) :
    closed E (c :: w) = (closed E w).map (c :: ·) := by
  cases w with
  | nil => simp [closed, hc]
  | cons d w => rw [closed, if_neg hc]

theorem body_escaped_cons {c : Char} {w rest : Str} (hback : c ≠ '\\')
    (hun : Uninterpolated (c :: w)) :
    body E (escape '"' (c :: w) ++ '"' :: rest) =
      (body E (escape '"' w ++ '"' :: rest)).map fun r => (c :: r.1, r.2) := by
  by_cases hquote : c = '"'
  · subst hquote
    rw [escape_cons_quote, List.cons_append, List.cons_append, body_escape, E.quote,
      Option.bind_some]
  · rw [escape_cons hquote, List.cons_append]
    refine body_plain E hquote hback fun hc hhead => hun ?_
    have hw := head?_escape (by decide) (by decide) hhead
    obtain ⟨w, rfl⟩ := List.head?_eq_some_iff.mp hw
    exact ⟨[], w, by rw [hc]; rfl⟩

theorem Uninterpolated.tail {c : Char} {w : Str} (h : Uninterpolated (c :: w)) :
    Uninterpolated w := fun hw => h (hw.trans (List.suffix_cons c w).isInfix)

theorem body_closed {w d : Str} (hun : Uninterpolated w) (h : closed E w = some d) (rest : Str) :
    body E (escape '"' w ++ '"' :: rest) = some (d, rest) := by
  induction w using closed.induct generalizing d with
  | case1 =>
    cases h
    exact body_close E rest
  | case2 => simp [closed] at h
  | case3 c hc =>
    rw [closed, if_neg hc] at h
    cases h
    rw [body_escaped_cons E hc hun]
    exact congrArg (Option.map _) (body_close E rest)
  | case4 w => simp [closed] at h
  | case5 d' w hne ih =>
    rw [closed, if_pos rfl, if_neg hne] at h
    obtain ⟨e, he, h⟩ := Option.bind_eq_some_iff.mp h
    obtain ⟨x, hx, rfl⟩ := Option.map_eq_some_iff.mp h
    rw [escape_cons (by decide), escape_cons hne, List.cons_append, List.cons_append, body_escape,
      he, Option.bind_some, ih hun.tail.tail hx]
    rfl
  | case6 c d' w hc ih =>
    rw [closed_cons E hc] at h
    obtain ⟨x, hx, rfl⟩ := Option.map_eq_some_iff.mp h
    rw [body_escaped_cons E hc hun, ih hun.tail hx]
    rfl

theorem body_cases {w rest d r : Str} (hun : Uninterpolated w)
    (h : body E (escape '"' w ++ '"' :: rest) = some (d, r)) :
    (closed E w = some d ∧ r = rest) ∨
    (d.length < w.length ∧ ∃ u, r = escape '"' u ++ '"' :: rest) ∨
    (w.count '"' < d.count '"' ∧ ∃ d', body E rest = some (d', r)) := by
  induction w using closed.induct generalizing d with
  | case1 =>
    rw [escape, List.flatMap_nil, List.nil_append, body_close] at h
    cases h
    exact .inl ⟨rfl, rfl⟩
  | case2 =>
    rw [escape_cons (by decide), List.cons_append, escape, List.flatMap_nil, List.nil_append,
      body_escape, E.quote, Option.bind_some] at h
    obtain ⟨x, hx, heq⟩ := Option.map_eq_some_iff.mp h
    cases heq
    exact .inr (.inr ⟨by simp, x.1, hx⟩)
  | case3 c hc =>
    have hclose : body E (escape '"' [] ++ '"' :: rest) = some ([], rest) := body_close E rest
    rw [body_escaped_cons E hc hun, hclose] at h
    cases h
    exact .inl ⟨by simp [closed, hc], rfl⟩
  | case4 w =>
    rw [escape_cons (by decide), escape_cons_quote, List.cons_append, List.cons_append,
      List.cons_append, body_escape, E.backslash, Option.bind_some, body_close] at h
    cases h
    exact .inr (.inl ⟨by simp, w, rfl⟩)
  | case5 d' w hne ih =>
    rw [escape_cons (by decide), escape_cons hne, List.cons_append, List.cons_append,
      body_escape] at h
    obtain ⟨e, he, h⟩ := Option.bind_eq_some_iff.mp h
    obtain ⟨x, hx, heq⟩ := Option.map_eq_some_iff.mp h
    cases heq
    obtain ⟨hclosed, hr⟩ | ⟨hlt, hu⟩ | ⟨hlt, hd'⟩ := ih hun.tail.tail hx
    · exact .inl ⟨by simp [closed, hne, he, hclosed], hr⟩
    · exact .inr (.inl ⟨by simp only [List.length_cons]; omega, hu⟩)
    · refine .inr (.inr ⟨?_, hd'⟩)
      have := List.count_le_count_cons (a := '"') (b := e) (l := x.1)
      rw [List.count_cons_of_ne (by decide), List.count_cons_of_ne hne]
      omega
  | case6 c d' w hc ih =>
    rw [body_escaped_cons E hc hun] at h
    obtain ⟨x, hx, heq⟩ := Option.map_eq_some_iff.mp h
    cases heq
    obtain ⟨hclosed, hr⟩ | ⟨hlt, hu⟩ | ⟨hlt, hd'⟩ := ih hun.tail hx
    · exact .inl ⟨by rw [closed_cons E hc, hclosed]; rfl, hr⟩
    · exact .inr (.inl ⟨Nat.succ_lt_succ hlt, hu⟩)
    · refine .inr (.inr ⟨?_, hd'⟩)
      rw [List.count_cons (l := d' :: w), List.count_cons (l := x.1)]
      omega

theorem closed_length {w d : Str} (h : closed E w = some d) :
    ('\\' ∉ w ∧ d = w) ∨ ('\\' ∈ w ∧ d.length < w.length) := by
  induction w using closed.induct generalizing d with
  | case1 =>
    cases h
    exact .inl ⟨List.not_mem_nil, rfl⟩
  | case2 => simp [closed] at h
  | case3 c hc =>
    rw [closed, if_neg hc] at h
    cases h
    exact .inl ⟨by simpa using Ne.symm hc, rfl⟩
  | case4 w => simp [closed] at h
  | case5 d' w hne ih =>
    rw [closed, if_pos rfl, if_neg hne] at h
    obtain ⟨e, he, h⟩ := Option.bind_eq_some_iff.mp h
    obtain ⟨x, hx, rfl⟩ := Option.map_eq_some_iff.mp h
    have hle : x.length ≤ w.length := by
      obtain ⟨-, rfl⟩ | ⟨-, hlt⟩ := ih hx
      · exact le_rfl
      · exact hlt.le
    exact .inr ⟨List.mem_cons_self, by simp only [List.length_cons]; omega⟩
  | case6 c d' w hc ih =>
    rw [closed_cons E hc] at h
    obtain ⟨x, hx, rfl⟩ := Option.map_eq_some_iff.mp h
    obtain ⟨hnot, rfl⟩ | ⟨hin, hlt⟩ := ih hx
    · exact .inl ⟨by rw [List.mem_cons, not_or]; exact ⟨Ne.symm hc, hnot⟩, rfl⟩
    · exact .inr ⟨List.mem_cons_of_mem c hin, Nat.succ_lt_succ hlt⟩

theorem closed_of_notMem {w : Str} (h : '\\' ∉ w) : closed E w = some w := by
  induction w with
  | nil => rfl
  | cons c w ih =>
    rw [List.mem_cons, not_or] at h
    rw [closed_cons E (Ne.symm h.1), ih h.2]
    rfl

theorem closed_eq_self {w : Str} : closed E w = some w ↔ '\\' ∉ w := by
  refine ⟨fun h => ?_, closed_of_notMem E⟩
  obtain ⟨hnot, -⟩ | ⟨-, hlt⟩ := closed_length E h
  · exact hnot
  · exact absurd hlt (lt_irrefl _)

theorem body_eq_self {w rest r : Str} (hun : Uninterpolated w) :
    body E (escape '"' w ++ '"' :: rest) = some (w, r) ↔ '\\' ∉ w ∧ r = rest := by
  constructor
  · intro h
    obtain ⟨hclosed, hr⟩ | ⟨hlt, -⟩ | ⟨hlt, -⟩ := body_cases E hun h
    · exact ⟨(closed_eq_self E).mp hclosed, hr⟩
    · exact absurd hlt (lt_irrefl _)
    · exact absurd hlt (lt_irrefl _)
  · rintro ⟨hnot, rfl⟩
    exact body_closed E hun (closed_of_notMem E hnot) r

end Strings

def operators : List Str := ["==", "!=", "=~", "!~", "<=", ">=", "<-", "=>", "|>", "//", "+", "-",
  "*", "/", "%", "^", "<", ">", "=", "(", ")", "[", "]", "\x7b", "\x7d", ",", ":", ".", "?"].map
  String.toList

theorem operators_plain : ∀ t ∈ operators, '"' ∉ t ∧ '\\' ∉ t := by decide

section Lexing

variable (E : Escapes)

def lexicon : Lexicon where
  body c := if c = '"' then some (body E) else none
  body_word := fun {c} hc => if_neg fun hquote => by
    rw [hquote] at hc
    cases hc
  body_le := by
    intro c read s t r hc hread
    split_ifs at hc
    cases hc
    exact body_le E hread
  symbols := operators
  symbols_ne := by decide
  fold := id

theorem body_of_ne {c : Char} (hc : c ≠ '"') : (lexicon E).body c = none := if_neg hc

theorem foreign_quote : (lexicon E).Foreign '"' :=
  ⟨rfl, rfl, fun t ht => (operators_plain t ht).1⟩

theorem foreign_backslash : (lexicon E).Foreign '\\' :=
  ⟨rfl, rfl, fun t ht => (operators_plain t ht).2⟩

theorem lex_backslash (s : Str) : (lexicon E).lex ('\\' :: s) = none := by
  rw [lex_token rfl]
  simp [token, lexicon, operators, isLetter]

theorem lex_string (s : Str) :
    (lexicon E).lex ('"' :: s) =
      (body E s).bind fun r => ((lexicon E).lex r.2).map (.quoted '"' r.1 :: ·) :=
  lex_quoted rfl rfl

def Plain (o : Str) : Prop := ∀ c ∈ o, c ≠ '"' ∧ c ≠ '\\' ∧ c ≠ '$'

inductive Tail : Str → Prop
  | done : Tail []
  | string {o w t : Str} (ho : Plain o) (ht : Tail t) :
      Tail (o ++ '"' :: (escape '"' w ++ '"' :: t))

theorem body_outer {o s : Str} (ho : Plain o) :
    body E (o ++ s) = (body E s).map fun r => (o ++ r.1, r.2) := by
  induction o with
  | nil => cases h : body E s <;> simp [h]
  | cons c o ih =>
    rw [Plain, List.forall_mem_cons] at ho
    obtain ⟨⟨hquote, hback, hdollar⟩, ho⟩ := ho
    rw [List.cons_append, body_plain E hquote hback (fun hc => absurd hc hdollar), ih ho,
      Option.map_map]
    rfl

theorem escape_eq_self {w : Str} (h : '"' ∉ w) : escape '"' w = w := by
  induction w with
  | nil => rfl
  | cons c w ih =>
    rw [List.mem_cons, not_or] at h
    rw [escape_cons (Ne.symm h.1), ih h.2]

theorem escape_split {w : Str} (h : '"' ∈ w ∨ '\\' ∈ w) :
    ∃ u v, escape '"' w = u ++ '\\' :: v ∧ '"' ∉ u := by
  induction w with
  | nil => simp at h
  | cons c w ih =>
    by_cases hquote : c = '"'
    · subst hquote
      exact ⟨[], _, escape_cons_quote w, List.not_mem_nil⟩
    by_cases hback : c = '\\'
    · subst hback
      exact ⟨[], _, escape_cons hquote w, List.not_mem_nil⟩
    · have hw : '"' ∈ w ∨ '\\' ∈ w := by
        simpa [Ne.symm hquote, Ne.symm hback] using h
      obtain ⟨u, v, heq, hu⟩ := ih hw
      exact ⟨c :: u, v, by rw [escape_cons hquote, heq, List.cons_append],
        by rw [List.mem_cons, not_or]; exact ⟨Ne.symm hquote, hu⟩⟩

theorem lex_inside {t : Str} (ht : (lexicon E).lex ('"' :: t) = none) (w : Str) :
    (lexicon E).lex (escape '"' w ++ '"' :: t) = none := by
  by_cases h : '"' ∈ w ∨ '\\' ∈ w
  · obtain ⟨u, v, heq, hu⟩ := escape_split h
    rw [heq, List.append_assoc, List.cons_append]
    exact lex_break (fun c hc => body_of_ne E (ne_of_mem_of_not_mem hc hu)) (foreign_backslash E)
      (lex_backslash E _)
  · rw [not_or] at h
    rw [escape_eq_self h.1]
    exact lex_break (fun c hc => body_of_ne E (ne_of_mem_of_not_mem hc h.1)) (foreign_quote E) ht

theorem lex_flipped {t : Str} (ht : Tail t) (w : Str) :
    (lexicon E).lex (escape '"' w ++ '"' :: t) = none := by
  induction ht generalizing w with
  | done => exact lex_inside E (by rw [lex_string]; rfl) w
  | @string o w' t ho ht ih =>
    refine lex_inside E ?_ w
    rw [lex_string, body_outer E ho, body_close, Option.map_some, Option.bind_some, ih w',
      Option.map_none]

theorem lex_rendered {w t : Str} (hun : Uninterpolated w) (ht : Tail t) :
    (lexicon E).lex ('"' :: (escape '"' w ++ '"' :: t)) =
      (closed E w).bind fun d => ((lexicon E).lex t).map (.quoted '"' d :: ·) := by
  rw [lex_string]
  cases hclosed : closed E w with
  | some d => rw [body_closed E hun hclosed t]; rfl
  | none =>
    refine Option.bind_eq_none_iff.mpr fun r hr => ?_
    obtain ⟨hsome, -⟩ | ⟨-, u, hu⟩ | ⟨-, d', hd'⟩ := body_cases (d := r.1) (r := r.2) E hun hr
    · rw [hclosed] at hsome
      cases hsome
    · rw [hu, lex_flipped E ht u, Option.map_none]
    · cases ht with
      | done => cases hd'
      | @string o w' t ho ht =>
        rw [body_outer E ho, body_close, Option.map_some] at hd'
        rw [← (Prod.mk.inj (Option.some.inj hd')).2, lex_flipped E ht w', Option.map_none]

theorem exact_string {w : Str} (hun : Uninterpolated w) :
    (lexicon E).Exact ('"' :: escape '"' w ++ ['"']) [.quoted '"' w] ('\\' ∉ w) := by
  intro rest ts _
  rw [List.cons_append, List.cons_append, List.append_assoc, List.singleton_append, lex_string]
  constructor
  · intro h
    obtain ⟨r, hr, h⟩ := Option.bind_eq_some_iff.mp h
    obtain ⟨ts', hts, heq⟩ := Option.map_eq_some_iff.mp h
    simp only [List.singleton_append, List.cons.injEq, Token.quoted.injEq, true_and] at heq
    obtain ⟨hw, rfl⟩ := heq
    have hself : body E (escape '"' w ++ '"' :: rest) = some (w, r.2) := by rw [hr, ← hw]
    obtain ⟨hnot, hrest⟩ := (body_eq_self E hun).mp hself
    exact ⟨hnot, hrest ▸ hts⟩
  · rintro ⟨hnot, hts⟩
    rw [(body_eq_self E hun).mpr ⟨hnot, rfl⟩, Option.bind_some, hts]
    rfl

theorem opens_operator {c : Char} {w : Str} (hspace : isSpace c = false) (hquote : c ≠ '"')
    (hdigit : c.isDigit = false) (hletter : isLetter c = false)
    (hfind : ∀ s, operators.find? (·.isPrefixOf (c :: (w ++ s))) = some (c :: w)) :
    (lexicon E).Opens (c :: w) [.symbol (c :: w)] :=
  opens_symbol hspace (body_of_ne E hquote) hdigit hletter hfind

theorem separator_comma : (lexicon E).Separator ", ".toList (.symbol [',']) where
  opens := (opens_operator E (w := []) rfl (by decide) rfl rfl fun s => rfl).append opens_space
  boundary s := boundary_cons rfl (body_of_ne E (by decide))

end Lexing

def dialect : Dialect := ⟨'"', ['['], [']']⟩

theorem exact_fluxText (E : Escapes) {v : Value} (hv : IsLiteral v)
    (hun : ∀ s, Occurs s v → Uninterpolated s) :
    (lexicon E).Exact (fluxText v) (literal dialect v) (∀ s, Occurs s v → '\\' ∉ s) := by
  induction hv with
  | string s =>
    refine (exact_string E (hun s .here)).congr ⟨fun h s' hs' => ?_, fun h => h s .here⟩
    cases hs'
    exact h
  | int n =>
    refine (exact_int (fun s _ => ?_) n).congr (iff_of_true trivial fun s hs => by cases hs)
    exact opens_operator E (w := []) rfl (by decide) rfl rfl (fun s => rfl) (_ :: s)
  | bool b =>
    exact (exact_bool (List.map_id _)).congr (iff_of_true trivial fun s hs => by cases hs)
  | @list vs h ih =>
    have hin := fun v hv => ih v hv fun s hs => hun s (.inside hv hs)
    have hitems := Exact.intercalate (separator_comma E) hin
    have hopening : (lexicon E).Opens ['['] [.symbol ['[']] :=
      opens_operator E (w := []) rfl (by decide) rfl rfl fun s => rfl
    have hclosing : (lexicon E).Opens [']'] [.symbol [']']] :=
      opens_operator E (w := []) rfl (by decide) rfl rfl fun s => rfl
    have hall := hopening.exact (hitems.append hclosing.toExact fun rest _ =>
      boundary_cons rfl (body_of_ne E (by decide)))
    rw [fluxText_list h, literal, literals_eq_map]
    refine hall.congr ⟨fun hno s hs => ?_, fun hno => ⟨fun v hv s hs => hno s (.inside hv hs),
      trivial⟩⟩
    cases hs with
    | inside hv hs => exact hno.1 _ hv s hs

def Reads (E : Escapes) (v : Value) : Prop :=
  ∃ text, fluxValue v = ok text ∧ (lexicon E).lex text = some (literal dialect v)

theorem reads_iff (E : Escapes) {v : Value} (hv : IsLiteral v)
    (hun : ∀ s, Occurs s v → Uninterpolated s) : Reads E v ↔ ∀ s, Occurs s v → '\\' ∉ s := by
  rw [← (exact_fluxText E hv hun).lex_iff, Reads, fluxValue_eq hv]
  simp

end Isz.Grafana.Flux

import Isz.Library.Dict
import Isz.Library.PyNumber

namespace Pyparsing

open Except PyNumber

-- Python objects, and pyparsing's results: tokens, some of them with a name
inductive PyObject where
  | int (n : Int)
  | bytes (b : List UInt8)
  | str (s : Str)
  | list (vs : List PyObject)
  | dict (items : List (Str × PyObject))
  | results (toks : List PyObject) (names : List (Str × PyObject))

mutual

def toItem : PyObject → PyObject
  | .results toks names => if names.isEmpty then .list (toItems toks) else .dict (asDict names)
  | o => o

def toItems : List PyObject → List PyObject
  | [] => []
  | o :: os => toItem o :: toItems os

def asDict : List (Str × PyObject) → List (Str × PyObject)
  | [] => []
  | (k, o) :: rest => (k, toItem o) :: asDict rest

end

mutual

def asItem : PyObject → PyObject
  | .results toks _ => .list (asList toks)
  | o => o

def asList : List PyObject → List PyObject
  | [] => []
  | o :: os => asItem o :: asList os

end

theorem toItems_eq_map (os : List PyObject) : toItems os = os.map toItem := by
  induction os with
  | nil => rfl
  | cons o os ih => rw [toItems, ih, List.map_cons]

theorem asDict_eq_map (names : List (Str × PyObject)) :
    asDict names = names.map fun x => (x.1, toItem x.2) := by
  induction names with
  | nil => rfl
  | cons x names ih => rw [asDict, ih, List.map_cons]

theorem asList_eq_map (os : List PyObject) : asList os = os.map asItem := by
  induction os with
  | nil => rfl
  | cons o os ih => rw [asList, ih, List.map_cons]

structure Results where
  toks : List PyObject
  names : List (Str × PyObject)

namespace Results

def empty : Results := ⟨[], []⟩

def single (o : PyObject) : Results := ⟨[o], []⟩

def append (a b : Results) : Results :=
  ⟨a.toks ++ b.toks, b.names.foldl (fun names x => assign names x.1 x.2) a.names⟩

-- the strings that Combine joins
def joined (r : Results) : Str := r.toks.flatMap fun
  | .str s => s
  | _ => []

def dictValue : List PyObject → List (Str × PyObject) → PyObject
  | [], _ => .str []
  | [.results toks names], [] => .results toks names
  | [.results toks names], names' => .results [.results toks names] names'
  | [o], _ => o
  | os, names => .results os names

def dictEntry : PyObject → Option (Str × PyObject)
  | .results (.str key :: rest) names => some (key, dictValue rest names)
  | _ => none

-- each group is a name and its value
def toDict (r : Results) : Results :=
  ⟨r.toks, (r.toks.filterMap dictEntry).foldl (fun names x => assign names x.1 x.2) r.names⟩

end Results

inductive Failure where
  | noMatch
  | raised (e : PyError)
  | tooDeep
deriving DecidableEq

abbrev Outcome := Except Failure (Results × Str)

-- `ν` names the Forwards; an action returns an object that is neither None nor a list
inductive Grammar (ν : Type) where
  | literal (text : Str)
  | word (initial body : Char → Bool)
  | quotedString (mark : Char)
  | and (a b : Grammar ν)
  | matchFirst (a b : Grammar ν)
  | optional (a : Grammar ν)
  | zeroOrMore (a : Grammar ν)
  | suppress (a : Grammar ν)
  | group (a : Grammar ν)
  | dict (a : Grammar ν)
  | combine (a : Grammar ν)
  | parseAction (a : Grammar ν) (action : Results → Except PyError PyObject)
  | forward (name : ν)

def isBlank (c : Char) : Bool := c == ' ' || c == '\n' || c == '\t' || c == '\r'

def preParse (skipping : Bool) (s : Str) : Str := if skipping then s.dropWhile isBlank else s

def isInside (mark c : Char) : Bool := c != mark && c != '\n' && c != '\r'

-- convertWhitespaceEscapes
def convertEscapes : Str → Str
  | '\\' :: 't' :: s => '\t' :: convertEscapes s
  | '\\' :: 'n' :: s => '\n' :: convertEscapes s
  | '\\' :: 'f' :: s => Char.ofNat 12 :: convertEscapes s
  | '\\' :: 'r' :: s => '\r' :: convertEscapes s
  | c :: s => c :: convertEscapes s
  | [] => []

def readLiteral (text s : Str) : Outcome :=
  if text.isPrefixOf s then ok (.single (.str text), s.drop text.length) else error .noMatch

def readWord (initial body : Char → Bool) : Str → Outcome
  | [] => error .noMatch
  | c :: s =>
    if initial c then ok (.single (.str (c :: s.takeWhile body)), s.dropWhile body)
    else error .noMatch

def readQuoted (mark : Char) : Str → Outcome
  | [] => error .noMatch
  | c :: s =>
    if c = mark ∧ (s.dropWhile (isInside mark)).head? = some mark then
      ok (.single (.str (convertEscapes (s.takeWhile (isInside mark)))),
        (s.dropWhile (isInside mark)).drop 1)
    else error .noMatch

namespace Outcome

def seq (x : Outcome) (next : Str → Outcome) : Outcome :=
  x.bind fun a => (next a.2).map fun b => (a.1.append b.1, b.2)

def orElse : Outcome → Outcome → Outcome
  | error .noMatch, y => y
  | x, _ => x

def mapResults (f : Results → Results) (x : Outcome) : Outcome := x.map fun a => (f a.1, a.2)

def acted (s : Str) : Except PyError PyObject → Outcome
  | ok o => ok (.single o, s)
  | error e => error (.raised e)

def act (action : Results → Except PyError PyObject) (x : Outcome) : Outcome :=
  x.bind fun a => acted a.2 (action a.1)

end Outcome

def many (step : Str → Outcome) : Nat → Str → Outcome
  | 0, s => ok (.empty, s)
  | k + 1, s =>
    match step s with
    | ok (r, s) => (many step k s).map fun x => (r.append x.1, x.2)
    | error .noMatch => ok (.empty, s)
    | error e => error e

namespace Grammar

variable {ν : Type}

def run (call : ν → Bool → Str → Outcome) : Grammar ν → Bool → Str → Outcome
  | literal text, skipping, s => readLiteral text (preParse skipping s)
  | word initial body, skipping, s => readWord initial body (preParse skipping s)
  | quotedString mark, skipping, s => readQuoted mark (preParse skipping s)
  | and a b, skipping, s => .seq (a.run call skipping s) (b.run call skipping)
  | matchFirst a b, skipping, s => .orElse (a.run call skipping s) (b.run call skipping s)
  | optional a, skipping, s => .orElse (a.run call skipping s) (ok (.empty, s))
  | zeroOrMore a, skipping, s => many (a.run call skipping) s.length s
  | suppress a, skipping, s => .mapResults (fun _ => .empty) (a.run call skipping s)
  | group a, skipping, s =>
    .mapResults (fun r => .single (.results r.toks r.names)) (a.run call skipping s)
  | dict a, skipping, s => .mapResults Results.toDict (a.run call skipping s)
  | combine a, skipping, s =>
    .mapResults (fun r => .single (.str r.joined)) (a.run call false (preParse skipping s))
  | parseAction a action, skipping, s => .act action (a.run call skipping s)
  | forward name, skipping, s => call name skipping s

def oneOrMore (a : Grammar ν) : Grammar ν := and a (zeroOrMore a)

def delimitedList (a : Grammar ν) : Grammar ν :=
  and a (zeroOrMore (and (suppress (literal ",".toList)) a))

def dictOf (key value : Grammar ν) : Grammar ν := dict (oneOrMore (group (and key value)))

-- Forwards within Forwards, to a depth
def calls (rules : ν → Grammar ν) : Nat → ν → Bool → Str → Outcome
  | 0, _, _, _ => error .tooDeep
  | n + 1, name, skipping, s => (rules name).run (calls rules n) skipping s

def parseString (rules : ν → Grammar ν) (a : Grammar ν) (s : Str) : Outcome :=
  a.run (calls rules (s.length + 1)) true s

variable {call : ν → Bool → Str → Outcome} {a b : Grammar ν} {skipping : Bool} {s : Str}

theorem preParse_cons {c : Char} (hc : isBlank c = false) (s : Str) :
    preParse skipping (c :: s) = c :: s := by
  cases skipping <;> simp [preParse, hc]

theorem run_literal {c : Char} (hc : isBlank c = false) (t s : Str) :
    (literal (c :: t)).run call skipping (c :: t ++ s) = ok (.single (.str (c :: t)), s) := by
  change readLiteral (c :: t) (preParse skipping (c :: (t ++ s))) = _
  rw [preParse_cons hc, ← List.cons_append, readLiteral, if_pos (by simp), List.drop_left]

theorem run_literal_of_ne {c d : Char} (hc : isBlank c = false) (hne : d ≠ c) (t s : Str) :
    (literal (d :: t)).run call skipping (c :: s) = error .noMatch := by
  change readLiteral (d :: t) (preParse skipping (c :: s)) = _
  rw [preParse_cons hc, readLiteral, if_neg (by simp [hne])]

theorem run_word {initial body : Char → Bool} {c : Char} {w s : Str} (hc : isBlank c = false)
    (hinitial : initial c) (hw : ∀ x ∈ w, body x) (hs : ∀ x ∈ s.head?, body x = false) :
    (word initial body).run call skipping (c :: w ++ s) = ok (.single (.str (c :: w)), s) := by
  have hstop : s.takeWhile body = [] ∧ s.dropWhile body = s := by
    cases s with
    | nil => exact ⟨rfl, rfl⟩
    | cons x s => simp [hs x rfl]
  change readWord initial body (preParse skipping (c :: (w ++ s))) = _
  rw [preParse_cons hc, readWord, if_pos hinitial, List.takeWhile_append_of_pos hw,
    List.dropWhile_append_of_pos hw, hstop.1, hstop.2, List.append_nil]

theorem run_word_of_not {initial body : Char → Bool} {c : Char} (hc : isBlank c = false)
    (hinitial : initial c = false) (s : Str) :
    (word initial body).run call skipping (c :: s) = error .noMatch := by
  change readWord initial body (preParse skipping (c :: s)) = _
  rw [preParse_cons hc, readWord, if_neg (by simp [hinitial])]

theorem convertEscapes_eq_self {s : Str} (h : '\\' ∉ s) : convertEscapes s = s := by
  induction s with
  | nil => rfl
  | cons c s ih =>
    rw [List.mem_cons, not_or] at h
    rw [convertEscapes.eq_def]
    split
    case h_5 _ _ heq =>
      cases heq
      rw [ih h.2]
    case h_6 heq => cases heq
    all_goals
      rename_i heq
      exact absurd (List.cons.inj heq).1.symm h.1

theorem run_quotedString {mark : Char} {w : Str} (hmark : isBlank mark = false)
    (hw : ∀ c ∈ w, isInside mark c) (hback : '\\' ∉ w) (s : Str) :
    (quotedString mark).run call skipping (mark :: (w ++ mark :: s)) =
      ok (.single (.str w), s) := by
  have hstop : isInside mark mark = false := by simp [isInside]
  have htake : (w ++ mark :: s).takeWhile (isInside mark) = w := by
    rw [List.takeWhile_append_of_pos hw, List.takeWhile_cons_of_neg (by simp [hstop]),
      List.append_nil]
  have hdrop : (w ++ mark :: s).dropWhile (isInside mark) = mark :: s := by
    rw [List.dropWhile_append_of_pos hw, List.dropWhile_cons_of_neg (by simp [hstop])]
  change readQuoted mark (preParse skipping (mark :: (w ++ mark :: s))) = _
  rw [preParse_cons hmark, readQuoted, htake, hdrop, convertEscapes_eq_self hback,
    if_pos ⟨rfl, rfl⟩]
  rfl

theorem run_quotedString_of_ne {mark c : Char} (hc : isBlank c = false) (hne : c ≠ mark) (s : Str) :
    (quotedString mark).run call skipping (c :: s) = error .noMatch := by
  change readQuoted mark (preParse skipping (c :: s)) = _
  rw [preParse_cons hc, readQuoted, if_neg fun h => hne h.1]

theorem run_and {r : Results} {t : Str} (h : a.run call skipping s = ok (r, t)) :
    (and a b).run call skipping s = (b.run call skipping t).map fun x => (r.append x.1, x.2) := by
  change Outcome.seq (a.run call skipping s) (b.run call skipping) = _
  rw [h]
  rfl

theorem run_and_noMatch (h : a.run call skipping s = error .noMatch) :
    (and a b).run call skipping s = error .noMatch := by
  change Outcome.seq (a.run call skipping s) (b.run call skipping) = _
  rw [h]
  rfl

theorem run_matchFirst_ok {x : Results × Str} (h : a.run call skipping s = ok x) :
    (matchFirst a b).run call skipping s = ok x := by
  change Outcome.orElse (a.run call skipping s) (b.run call skipping s) = _
  rw [h]
  rfl

theorem run_matchFirst (h : a.run call skipping s = error .noMatch) :
    (matchFirst a b).run call skipping s = b.run call skipping s := by
  change Outcome.orElse (a.run call skipping s) (b.run call skipping s) = _
  rw [h]
  rfl

theorem run_optional_ok {x : Results × Str} (h : a.run call skipping s = ok x) :
    (optional a).run call skipping s = ok x := by
  change Outcome.orElse (a.run call skipping s) (ok (.empty, s)) = _
  rw [h]
  rfl

theorem run_optional_noMatch (h : a.run call skipping s = error .noMatch) :
    (optional a).run call skipping s = ok (.empty, s) := by
  change Outcome.orElse (a.run call skipping s) (ok (.empty, s)) = _
  rw [h]
  rfl

theorem run_suppress {r : Results} {t : Str} (h : a.run call skipping s = ok (r, t)) :
    (suppress a).run call skipping s = ok (.empty, t) := by
  change Outcome.mapResults (fun _ => .empty) (a.run call skipping s) = _
  rw [h]
  rfl

theorem run_suppress_noMatch (h : a.run call skipping s = error .noMatch) :
    (suppress a).run call skipping s = error .noMatch := by
  change Outcome.mapResults (fun _ => .empty) (a.run call skipping s) = _
  rw [h]
  rfl

theorem run_group {r : Results} {t : Str} (h : a.run call skipping s = ok (r, t)) :
    (group a).run call skipping s = ok (.single (.results r.toks r.names), t) := by
  change Outcome.mapResults (fun r => .single (.results r.toks r.names)) (a.run call skipping s) = _
  rw [h]
  rfl

theorem run_group_noMatch (h : a.run call skipping s = error .noMatch) :
    (group a).run call skipping s = error .noMatch := by
  change Outcome.mapResults (fun r => .single (.results r.toks r.names)) (a.run call skipping s) = _
  rw [h]
  rfl

theorem run_dict {r : Results} {t : Str} (h : a.run call skipping s = ok (r, t)) :
    (dict a).run call skipping s = ok (r.toDict, t) := by
  change Outcome.mapResults Results.toDict (a.run call skipping s) = _
  rw [h]
  rfl

theorem run_dict_noMatch (h : a.run call skipping s = error .noMatch) :
    (dict a).run call skipping s = error .noMatch := by
  change Outcome.mapResults Results.toDict (a.run call skipping s) = _
  rw [h]
  rfl

theorem run_combine {r : Results} {t : Str} {c : Char} (hc : isBlank c = false)
    (h : a.run call false (c :: s) = ok (r, t)) :
    (combine a).run call skipping (c :: s) = ok (.single (.str r.joined), t) := by
  change Outcome.mapResults (fun r => .single (.str r.joined))
    (a.run call false (preParse skipping (c :: s))) = _
  rw [preParse_cons hc, h]
  rfl

theorem run_combine_noMatch {c : Char} (hc : isBlank c = false)
    (h : a.run call false (c :: s) = error .noMatch) :
    (combine a).run call skipping (c :: s) = error .noMatch := by
  change Outcome.mapResults (fun r => .single (.str r.joined))
    (a.run call false (preParse skipping (c :: s))) = _
  rw [preParse_cons hc, h]
  rfl

theorem run_parseAction {r : Results} {t : Str} {o : PyObject}
    {action : Results → Except PyError PyObject} (h : a.run call skipping s = ok (r, t))
    (ho : action r = ok o) : (parseAction a action).run call skipping s = ok (.single o, t) := by
  change Outcome.act action (a.run call skipping s) = _
  rw [h]
  change Outcome.acted t (action r) = _
  rw [ho]
  rfl

theorem run_parseAction_noMatch {action : Results → Except PyError PyObject}
    (h : a.run call skipping s = error .noMatch) :
    (parseAction a action).run call skipping s = error .noMatch := by
  change Outcome.act action (a.run call skipping s) = _
  rw [h]
  rfl

end Grammar

section Many

variable {α : Type} {step : Str → Outcome} {text : α → Str} {tok : α → PyObject} {l : List α}
  {rest : Str} {k : Nat} {Next : Str → Prop} (hnext : ∀ a s, Next (text a ++ s)) (hrest : Next rest)

include hnext hrest

theorem next_flatMap (l : List α) : Next (l.flatMap text ++ rest) := by
  cases l with
  | nil => exact hrest
  | cons a l =>
    rw [List.flatMap_cons, List.append_assoc]
    exact hnext a _

theorem many_all
    (hstep : ∀ a ∈ l, ∀ s, Next s → step (text a ++ s) = ok (.single (tok a), s))
    (hstop : step rest = error .noMatch) (hk : l.length ≤ k) :
    many step k (l.flatMap text ++ rest) = ok (⟨l.map tok, []⟩, rest) := by
  induction l generalizing k with
  | nil =>
    cases k with
    | zero => rfl
    | succ k => rw [List.flatMap_nil, List.nil_append, many, hstop]; rfl
  | cons a l ih =>
    cases k with
    | zero => cases hk
    | succ k =>
      rw [List.forall_mem_cons] at hstep
      rw [List.flatMap_cons, List.append_assoc, many,
        hstep.1 _ (next_flatMap hnext hrest l)]
      simp only [ih hstep.2 (Nat.le_of_succ_le_succ hk)]
      rfl

theorem many_stops {Good : α → Prop}
    (hgood : ∀ a ∈ l, Good a → ∀ s, Next s → step (text a ++ s) = ok (.single (tok a), s))
    (hbad : ∀ a ∈ l, ¬Good a → ∀ s, Next s → step (text a ++ s) = error .noMatch)
    (hex : ∃ a ∈ l, ¬Good a) (hk : l.length ≤ k) :
    ∃ r a s, many step k (l.flatMap text ++ rest) = ok (r, text a ++ s) := by
  induction l generalizing k with
  | nil =>
    obtain ⟨a, ha, -⟩ := hex
    cases ha
  | cons a l ih =>
    cases k with
    | zero => cases hk
    | succ k =>
      rw [List.forall_mem_cons] at hgood hbad
      rw [List.flatMap_cons, List.append_assoc, many]
      by_cases ha : Good a
      · have hex' : ∃ a ∈ l, ¬Good a := by
          obtain ⟨b, hb, hnot⟩ := hex
          obtain rfl | hb := List.mem_cons.mp hb
          · exact absurd ha hnot
          · exact ⟨b, hb, hnot⟩
        obtain ⟨r, b, s, hmany⟩ := ih hgood.2 hbad.2 hex' (Nat.le_of_succ_le_succ hk)
        rw [hgood.1 ha _ (next_flatMap hnext hrest l)]
        exact ⟨_, b, s, by simp only [hmany]; rfl⟩
      · rw [hbad.1 ha _ (next_flatMap hnext hrest l)]
        exact ⟨.empty, a, _, rfl⟩

omit hnext hrest in
theorem length_le_flatMap (hne : ∀ a, text a ≠ []) :
    l.length ≤ (l.flatMap text ++ rest).length := by
  induction l with
  | nil => exact Nat.zero_le _
  | cons a l ih =>
    have := List.length_pos_iff.mpr (hne a)
    rw [List.flatMap_cons, List.append_assoc, List.length_append, List.length_cons]
    omega

variable {ν : Type} {call : ν → Bool → Str → Outcome} {g : Grammar ν} {skipping : Bool}
  (hne : ∀ a, text a ≠ [])

include hne

theorem run_zeroOrMore_all
    (hstep : ∀ a ∈ l, ∀ s, Next s → g.run call skipping (text a ++ s) = ok (.single (tok a), s))
    (hstop : g.run call skipping rest = error .noMatch) :
    (Grammar.zeroOrMore g).run call skipping (l.flatMap text ++ rest) =
      ok (⟨l.map tok, []⟩, rest) :=
  many_all hnext hrest hstep hstop (length_le_flatMap hne)

theorem run_zeroOrMore_stops {Good : α → Prop}
    (hgood : ∀ a ∈ l, Good a → ∀ s, Next s →
      g.run call skipping (text a ++ s) = ok (.single (tok a), s))
    (hbad : ∀ a ∈ l, ¬Good a → ∀ s, Next s → g.run call skipping (text a ++ s) = error .noMatch)
    (hex : ∃ a ∈ l, ¬Good a) :
    ∃ r a s, (Grammar.zeroOrMore g).run call skipping (l.flatMap text ++ rest) =
      ok (r, text a ++ s) :=
  many_stops hnext hrest hgood hbad hex (length_le_flatMap hne)

end Many

end Pyparsing

import Isz.Library.Pyparsing
import Mathlib.Data.Nat.Digits.Defs

namespace Isz.Mikrotik.Swos

open Except PyNumber Pyparsing Pyparsing.Grammar

def isHexnum (c : Char) : Bool :=
  c.isDigit || ('A' ≤ c && c ≤ 'F') || ('a' ≤ c && c ≤ 'f')

def dropBase : Str → Str
  | '0' :: 'x' :: s | '0' :: 'X' :: s => dropUnderscore s
  | s => s

-- int(s, 16)
def intBase16 (s : Str) : Except PyError Int := do
  let (negative, body) := sign (strip (s.map toAscii))
  pure (signed negative (← natural exact 16 (dropBase body)))

-- chunked(s, 2)
def pairs : Str → List Str
  | a :: b :: s => [a, b] :: pairs s
  | [a] => [[a]]
  | [] => []

def toByte (s : Str) : Except PyError UInt8 := do
  let n ← intBase16 s
  if 0 ≤ n ∧ n < 256 then pure (UInt8.ofNat n.toNat) else error .valueError

-- toks[0], where it is a string
def firstString (r : Results) : Str :=
  match r.toks with
  | .str s :: _ => s
  | _ => []

inductive Name where
  | array
  | obj

def number : Grammar Name :=
  parseAction (combine (and (literal "0x".toList) (word isHexnum isHexnum))) fun toks => do
    return .int (← intBase16 (firstString toks))

def qs : Grammar Name :=
  parseAction (quotedString '\'') fun toks => do
    return .bytes (← (pairs (firstString toks)).mapM toByte)

def value : Grammar Name :=
  matchFirst (matchFirst (matchFirst number qs) (forward .array)) (forward .obj)

def key : Grammar Name := word Char.isAlpha Char.isAlphanum

def entry : Grammar Name :=
  and (and (suppress (optional (literal ",".toList))) key) (suppress (literal ":".toList))

def rules : Name → Grammar Name
  | .array =>
    group (and (and (suppress (literal "[".toList)) (optional (delimitedList value)))
      (suppress (literal "]".toList)))
  | .obj =>
    parseAction (and (and (suppress (literal "\x7b".toList)) (dictOf entry value))
      (suppress (literal "\x7d".toList))) fun toks => ok (.dict (asDict toks.names))

def parseJs (text : Str) : Except Failure PyObject := do
  let (r, _) ← parseString rules value text
  match asList r.toks with
  | [] => error (.raised .valueError)
  | o :: _ => pure o

inductive Js where
  | number (n : Nat)
  | bytes (b : List UInt8)
  | list (vs : List Js)
  | object (members : List (Str × Js))

-- how hex digits are written, and how many a number has at least
structure HexStyle where
  digit : Nat → Char
  isHexnum : ∀ {d}, d < 16 → isHexnum (digit d)
  value : ∀ {d}, d < 16 → digitValue (digit d) = d
  width : Nat

variable (H : HexStyle)

def hexDigits (n : Nat) : List Nat :=
  let ds := (Nat.digits 16 n).reverse
  List.replicate (max 1 H.width - ds.length) 0 ++ ds

def hexPair (b : UInt8) : Str := [H.digit (b.toNat / 16), H.digit (b.toNat % 16)]

mutual

def text : Js → Str
  | .number n => '0' :: 'x' :: (hexDigits H n).map H.digit
  | .bytes b => '\'' :: b.flatMap (hexPair H) ++ ['\'']
  | .list vs => '[' :: concatStringsSep [','] (texts vs) ++ [']']
  | .object members => '\x7b' :: concatStringsSep [','] (memberTexts members) ++ ['\x7d']

def texts : List Js → List Str
  | [] => []
  | v :: vs => text v :: texts vs

def memberTexts : List (Str × Js) → List Str
  | [] => []
  | (k, v) :: members => (k ++ ':' :: text v) :: memberTexts members

end

mutual

def python : Js → PyObject
  | .number n => .int n
  | .bytes b => .bytes b
  | .list vs => .list (pythons vs)
  | .object members => .dict (pythonMembers members)

def pythons : List Js → List PyObject
  | [] => []
  | v :: vs => python v :: pythons vs

def pythonMembers : List (Str × Js) → List (Str × PyObject)
  | [] => []
  | (k, v) :: members => (k, python v) :: pythonMembers members

end

def IsKey (k : Str) : Prop := ∃ c w, k = c :: w ∧ c.isAlpha ∧ ∀ x ∈ w, x.isAlphanum

inductive WellKeyed : Js → Prop
  | number (n : Nat) : WellKeyed (.number n)
  | bytes (b : List UInt8) : WellKeyed (.bytes b)
  | list {vs : List Js} (h : ∀ v ∈ vs, WellKeyed v) : WellKeyed (.list vs)
  | object {members : List (Str × Js)} (hkeys : ∀ m ∈ members, IsKey m.1)
      (hdistinct : (members.map Prod.fst).Nodup) (h : ∀ m ∈ members, WellKeyed m.2) :
      WellKeyed (.object members)

inductive Filled : Js → Prop
  | number (n : Nat) : Filled (.number n)
  | bytes (b : List UInt8) : Filled (.bytes b)
  | list {vs : List Js} (h : ∀ v ∈ vs, Filled v) : Filled (.list vs)
  | object {members : List (Str × Js)} (hne : members ≠ []) (h : ∀ m ∈ members, Filled m.2) :
      Filled (.object members)

theorem isAlphanum_of_isHexnum {c : Char} (h : isHexnum c) : c.isAlphanum := by
  have halpha : c.isUpper ∨ c.isLower → c.isAlphanum := fun hletter =>
    Bool.or_eq_true_iff.mpr (.inl (Bool.or_eq_true_iff.mpr hletter))
  simp only [isHexnum, Bool.or_eq_true, Bool.and_eq_true, decide_eq_true_eq] at h
  obtain (hdigit | ⟨hlow, hhigh⟩) | ⟨hlow, hhigh⟩ := h
  · exact Bool.or_eq_true_iff.mpr (.inr hdigit)
  · have hupper : c ≤ 'Z' := le_trans hhigh (by decide)
    exact halpha (.inl (decide_eq_true ⟨hlow, hupper⟩))
  · have hlower : c ≤ 'z' := le_trans hhigh (by decide)
    exact halpha (.inr (Bool.and_eq_true_iff.mpr ⟨decide_eq_true hlow, decide_eq_true hlower⟩))

theorem isBlank_alphanum {c : Char} (h : c.isAlphanum) : isBlank c = false := by
  by_contra hblank
  simp only [isBlank, Bool.not_eq_false, Bool.or_eq_true, beq_iff_eq] at hblank
  obtain ((heq | heq) | heq) | heq := hblank <;> rw [heq] at h <;> cases h

variable {H}

theorem alphanum_digits {ds : List Nat} (h : ∀ d ∈ ds, d < 16) :
    ∀ c ∈ ds.map H.digit, c.isAlphanum := by
  rw [List.forall_mem_map]
  exact fun d hd => isAlphanum_of_isHexnum (H.isHexnum (h d hd))

theorem natural_digits {ds : List Nat} (hne : ds ≠ []) (h : ∀ d ∈ ds, d < 16) :
    natural exact 16 (ds.map H.digit) = ok (ds.foldl (fun n d => 16 * n + d) 0) := by
  have halnum := alphanum_digits (H := H) h
  have hall : (ds.map H.digit).all (isDigitOf 16) := by
    rw [List.all_map, List.all_eq_true]
    intro d hd
    simp [isDigitOf, halnum _ (List.mem_map_of_mem hd), H.value (h d hd), h d hd]
  have hvalue : ofDigits 16 (ds.map H.digit) = ds.foldl (fun n d => 16 * n + d) 0 := by
    rw [ofDigits, List.foldl_map]
    exact List.foldl_ext _ _ _ fun n d hd => by rw [H.value (h d hd)]
  rw [natural, (sanitized_alphanum halnum).2]
  simp [hall, hne, hvalue]

theorem dropUnderscore_alphanum {s : Str} (h : ∀ c ∈ s, c.isAlphanum) : dropUnderscore s = s := by
  rw [dropUnderscore.eq_def]
  split
  · cases h '_' List.mem_cons_self
  · rfl

theorem intBase16_number {ds : List Nat} (hne : ds ≠ []) (h : ∀ d ∈ ds, d < 16) :
    intBase16 ('0' :: 'x' :: ds.map H.digit) =
      ok ((ds.foldl (fun n d => 16 * n + d) 0 : Nat) : Int) := by
  have halnum := alphanum_digits (H := H) h
  have hall : ∀ c ∈ '0' :: 'x' :: ds.map H.digit, c.isAlphanum := by
    rw [List.forall_mem_cons, List.forall_mem_cons]
    exact ⟨rfl, rfl, halnum⟩
  have hbase : dropBase ('0' :: 'x' :: ds.map H.digit) = ds.map H.digit :=
    dropUnderscore_alphanum halnum
  rw [intBase16, (sanitized_alphanum hall).1]
  simp only [hbase, natural_digits hne h]
  rfl

theorem intBase16_pair {a b : Nat} (ha : a < 16) (hb : b < 16) :
    intBase16 [H.digit a, H.digit b] = ok ((16 * a + b : Nat) : Int) := by
  have h : ∀ d ∈ [a, b], d < 16 := by simp [ha, hb]
  have hsign : sign (strip ([H.digit a, H.digit b].map toAscii)) =
      (false, [H.digit a, H.digit b]) := (sanitized_alphanum (alphanum_digits (H := H) h)).1
  have hnatural : natural exact 16 [H.digit a, H.digit b] = ok (16 * a + b) :=
    (natural_digits (H := H) (List.cons_ne_nil a [b]) h).trans (by simp)
  have hbase : dropBase [H.digit a, H.digit b] = [H.digit a, H.digit b] := by
    have hhex := H.isHexnum hb
    rw [dropBase.eq_def]
    split
    case h_1 s heq =>
      simp only [List.cons.injEq] at heq
      rw [heq.2.1] at hhex
      cases hhex
    case h_2 s heq =>
      simp only [List.cons.injEq] at heq
      rw [heq.2.1] at hhex
      cases hhex
    case h_3 => rfl
  rw [intBase16, hsign]
  simp only [hbase, hnatural]
  rfl

theorem toByte_pair (b : UInt8) : toByte (hexPair H b) = ok b := by
  have hb := b.toNat_lt
  have hvalue : 16 * (b.toNat / 16) + b.toNat % 16 = b.toNat := Nat.div_add_mod _ _
  rw [toByte, hexPair, intBase16_pair (by omega) (by omega), hvalue, ok_bind]
  simp only [Int.natCast_nonneg, true_and, Int.toNat_natCast]
  rw [if_pos (by exact_mod_cast hb)]
  simp

theorem pairs_flatMap (b : List UInt8) : pairs (b.flatMap (hexPair H)) = b.map (hexPair H) := by
  induction b with
  | nil => rfl
  | cons x b ih =>
    rw [List.flatMap_cons, List.map_cons, ← ih]
    rfl

theorem hexDigits_lt (n : Nat) : ∀ d ∈ hexDigits H n, d < 16 := by
  intro d hd
  obtain hd | hd := List.mem_append.mp hd
  · rw [List.eq_of_mem_replicate hd]
    decide
  · exact Nat.digits_lt_base (by decide) (List.mem_reverse.mp hd)

theorem hexDigits_ne_nil (n : Nat) : hexDigits H n ≠ [] := by
  intro h
  have := congrArg List.length h
  simp only [hexDigits, List.length_append, List.length_replicate, List.length_nil] at this
  omega

theorem foldl_hexDigits (n : Nat) : (hexDigits H n).foldl (fun n d => 16 * n + d) 0 = n := by
  have hzero : ∀ k, (List.replicate k 0).foldl (fun n d => 16 * n + d) 0 = 0 := by
    intro k
    induction k with
    | zero => rfl
    | succ k ih => rw [List.replicate_succ, List.foldl_cons, ih]
  rw [hexDigits, List.foldl_append, hzero, List.foldl_reverse]
  have := Nat.ofDigits_digits 16 n
  rw [Nat.ofDigits_eq_foldr] at this
  simpa [add_comm] using this

theorem texts_eq_map (vs : List Js) : texts H vs = vs.map (text H) := by
  induction vs with
  | nil => rfl
  | cons v vs ih => rw [texts, ih, List.map_cons]

variable (H) in
def memberText (m : Str × Js) : Str := m.1 ++ ':' :: text H m.2

theorem memberTexts_eq_map (members : List (Str × Js)) :
    memberTexts H members = members.map (memberText H) := by
  induction members with
  | nil => rfl
  | cons m members ih => rw [memberTexts, ih, List.map_cons, memberText]

theorem pythons_eq_map (vs : List Js) : pythons vs = vs.map python := by
  induction vs with
  | nil => rfl
  | cons v vs ih => rw [pythons, ih, List.map_cons]

theorem pythonMembers_eq_map (members : List (Str × Js)) :
    pythonMembers members = members.map fun m => (m.1, python m.2) := by
  induction members with
  | nil => rfl
  | cons m members ih => rw [pythonMembers, ih, List.map_cons]

mutual

def token : Js → PyObject
  | .number n => .int n
  | .bytes b => .bytes b
  | .list vs => .results (tokens vs) []
  | .object members => .dict (pythonMembers members)

def tokens : List Js → List PyObject
  | [] => []
  | v :: vs => token v :: tokens vs

end

theorem tokens_eq_map (vs : List Js) : tokens vs = vs.map token := by
  induction vs with
  | nil => rfl
  | cons v vs ih => rw [tokens, ih, List.map_cons]

theorem asItem_token {v : Js} (hv : WellKeyed v) : asItem (token v) = python v := by
  induction hv with
  | number | bytes | object => rfl
  | list h ih =>
    rw [token, asItem, tokens_eq_map, asList_eq_map, List.map_map, python, pythons_eq_map]
    exact congrArg PyObject.list (List.map_congr_left ih)

theorem toItem_token {v : Js} (hv : WellKeyed v) : toItem (token v) = python v := by
  induction hv with
  | number | bytes | object => rfl
  | list h ih =>
    rw [token, toItem, tokens_eq_map, toItems_eq_map, List.map_map, python, pythons_eq_map]
    exact congrArg PyObject.list (List.map_congr_left ih)

def Ends (rest : Str) : Prop := ∀ c ∈ rest.head?, isHexnum c = false

theorem ends_cons {c : Char} (hc : isHexnum c = false) (s : Str) : Ends (c :: s) := by
  intro x hx
  cases hx
  exact hc

section Values

variable {call : Name → Bool → Str → Outcome}

theorem run_mark {c : Char} (hc : isBlank c = false) (s : Str) :
    (suppress (literal [c])).run call true (c :: s) = ok (.empty, s) :=
  run_suppress (run_literal hc [] s)

theorem run_mark_of_ne {c d : Char} (hc : isBlank c = false) (hne : d ≠ c) (s : Str) :
    (suppress (literal [d])).run call true (c :: s) = error .noMatch :=
  run_suppress_noMatch (run_literal_of_ne hc hne [] s)

theorem run_number (n : Nat) {rest : Str} (hrest : Ends rest) :
    number.run call true ('0' :: 'x' :: (hexDigits H n).map H.digit ++ rest) =
      ok (.single (.int n), rest) := by
  obtain ⟨d, ds, hds⟩ := List.exists_cons_of_ne_nil (hexDigits_ne_nil (H := H) n)
  have hlt := hexDigits_lt (H := H) n
  have hint := intBase16_number (H := H) (hexDigits_ne_nil n) hlt
  rw [foldl_hexDigits] at hint
  rw [hds] at hlt hint ⊢
  rw [List.forall_mem_cons] at hlt
  have hhex : ∀ x ∈ ds.map H.digit, isHexnum x :=
    List.forall_mem_map.mpr fun d hd => H.isHexnum (hlt.2 d hd)
  have hblank : isBlank (H.digit d) = false :=
    isBlank_alphanum (isAlphanum_of_isHexnum (H.isHexnum hlt.1))
  have hword : (word isHexnum isHexnum : Grammar Name).run call false
      (H.digit d :: ds.map H.digit ++ rest) =
        ok (.single (.str (H.digit d :: ds.map H.digit)), rest) :=
    run_word hblank (H.isHexnum hlt.1) hhex hrest
  have hzero : (literal "0x".toList : Grammar Name).run call false
      ("0x".toList ++ (H.digit d :: ds.map H.digit ++ rest)) =
        ok (.single (.str "0x".toList), H.digit d :: ds.map H.digit ++ rest) :=
    run_literal rfl ['x'] _
  have hand := run_and (b := word isHexnum isHexnum) hzero
  rw [hword] at hand
  have hjoined : ((Results.single (.str "0x".toList)).append
      (.single (.str (H.digit d :: ds.map H.digit)))).joined =
        '0' :: 'x' :: (d :: ds).map H.digit := by
    simp [Results.joined, Results.append, Results.single]
  refine run_parseAction (run_combine rfl hand) ?_
  change (intBase16 (Results.joined _) >>= fun i => pure (PyObject.int i)) = _
  rw [hjoined, hint]
  rfl

theorem run_number_of_ne {c : Char} (hc : isBlank c = false) (hne : '0' ≠ c) (s : Str) :
    number.run call true (c :: s) = error .noMatch :=
  run_parseAction_noMatch (run_combine_noMatch hc
    (run_and_noMatch (run_literal_of_ne hc hne ['x'] s)))

theorem run_qs (b : List UInt8) (rest : Str) :
    qs.run call true ('\'' :: (b.flatMap (hexPair H) ++ '\'' :: rest)) =
      ok (.single (.bytes b), rest) := by
  have halnum : ∀ c ∈ b.flatMap (hexPair H), c.isAlphanum := by
    intro c hc
    obtain ⟨x, -, hx⟩ := List.mem_flatMap.mp hc
    have hlt := x.toNat_lt
    have hdigits : ∀ d ∈ [x.toNat / 16, x.toNat % 16], d < 16 := by
      simp
      omega
    exact alphanum_digits (H := H) hdigits c hx
  have hinside : ∀ c ∈ b.flatMap (hexPair H), isInside '\'' c := by
    intro c hc
    have hne : ∀ x : Char, x.isAlphanum = false → c ≠ x := fun x hx heq => by
      rw [← heq, halnum c hc] at hx
      cases hx
    simp [isInside, hne '\'' rfl, hne '\n' rfl, hne '\r' rfl]
  have hback : '\\' ∉ b.flatMap (hexPair H) := fun hin => by cases halnum _ hin
  have hbytes : (pairs (b.flatMap (hexPair H))).mapM toByte = ok b := by
    rw [pairs_flatMap, List.mapM_map]
    exact (mapM_ok fun x _ => toByte_pair x).trans (congrArg ok (List.map_id b))
  refine run_parseAction (run_quotedString rfl hinside hback rest) ?_
  change ((pairs (b.flatMap (hexPair H))).mapM toByte >>= fun b => pure (PyObject.bytes b)) = _
  rw [hbytes]
  rfl

theorem run_qs_of_ne {c : Char} (hc : isBlank c = false) (hne : c ≠ '\'') (s : Str) :
    qs.run call true (c :: s) = error .noMatch :=
  run_parseAction_noMatch (run_quotedString_of_ne hc hne s)

theorem run_scalar_of_ne {c : Char} (hc : isBlank c = false) (hzero : '0' ≠ c) (hquote : c ≠ '\'')
    (s : Str) : (matchFirst number qs).run call true (c :: s) = error .noMatch :=
  (run_matchFirst (run_number_of_ne hc hzero s)).trans (run_qs_of_ne hc hquote s)

theorem run_array_of_ne {c : Char} (hc : isBlank c = false) (hne : '[' ≠ c) (s : Str) :
    (rules .array).run call true (c :: s) = error .noMatch :=
  run_group_noMatch (run_and_noMatch (run_and_noMatch (run_mark_of_ne hc hne s)))

theorem run_obj_of_ne {c : Char} (hc : isBlank c = false) (hne : '\x7b' ≠ c) (s : Str) :
    (rules .obj).run call true (c :: s) = error .noMatch :=
  run_parseAction_noMatch (run_and_noMatch (run_and_noMatch (run_mark_of_ne hc hne s)))

theorem value_bracket (n : Nat) (s : Str) :
    value.run (calls rules (n + 1)) true ('[' :: s) =
      (rules .array).run (calls rules n) true ('[' :: s) := by
  have harray : (matchFirst (matchFirst number qs) (forward .array)).run (calls rules (n + 1)) true
      ('[' :: s) = (rules .array).run (calls rules n) true ('[' :: s) :=
    run_matchFirst (run_scalar_of_ne rfl (by decide) (by decide) s)
  have hobj : (forward .obj).run (calls rules (n + 1)) true ('[' :: s) = error .noMatch := by
    change (rules .obj).run (calls rules n) true ('[' :: s) = _
    exact run_obj_of_ne rfl (by decide) s
  change Outcome.orElse _ _ = _
  rw [harray, hobj]
  cases (rules .array).run (calls rules n) true ('[' :: s) with
  | ok x => rfl
  | error e => cases e <;> rfl

theorem value_of_ne {n : Nat} {c : Char} (hc : isBlank c = false) (hzero : '0' ≠ c)
    (hquote : c ≠ '\'') (harray : '[' ≠ c) (s : Str) :
    value.run (calls rules (n + 1)) true (c :: s) =
      (rules .obj).run (calls rules n) true (c :: s) := by
  have hforward : (forward .array).run (calls rules (n + 1)) true (c :: s) = error .noMatch := by
    change (rules .array).run (calls rules n) true (c :: s) = _
    exact run_array_of_ne hc harray s
  exact run_matchFirst ((run_matchFirst (run_scalar_of_ne hc hzero hquote s)).trans hforward)

theorem value_number (n : Nat) {rest : Str} (hrest : Ends rest) :
    value.run call true (text H (.number n) ++ rest) = ok (.single (token (.number n)), rest) :=
  run_matchFirst_ok (run_matchFirst_ok (run_matchFirst_ok (run_number n hrest)))

theorem value_bytes (b : List UInt8) (rest : Str) :
    value.run call true (text H (.bytes b) ++ rest) = ok (.single (token (.bytes b)), rest) := by
  have htext : text H (.bytes b) ++ rest = '\'' :: (b.flatMap (hexPair H) ++ '\'' :: rest) := by
    simp [text]
  rw [htext]
  exact run_matchFirst_ok (run_matchFirst_ok
    ((run_matchFirst (run_number_of_ne rfl (by decide) _)).trans (run_qs b rest)))

variable (H call) in
def Reads (v : Js) : Prop :=
  ∀ rest, Ends rest →
    (Filled v → value.run call true (text H v ++ rest) = ok (.single (token v), rest)) ∧
    (¬Filled v → value.run call true (text H v ++ rest) = error .noMatch)

def commaText (t : Str) : Str := ',' :: t

theorem ends_comma (t s : Str) : Ends (commaText t ++ s) := ends_cons rfl _

theorem separated_text {α : Type} (text : α → Str) (a : α) (l : List α) :
    concatStringsSep [','] ((a :: l).map text) =
      text a ++ l.flatMap fun a => commaText (text a) := by
  rw [concatStringsSep, List.map_cons, intercalate_cons, List.flatMap_map]
  rfl

def nextValue : Grammar Name := and (suppress (literal ",".toList)) value

theorem run_nextValue (s : Str) :
    nextValue.run call true (',' :: s) =
      (value.run call true s).map fun x => (Results.empty.append x.1, x.2) :=
  run_and (run_mark rfl s)

theorem run_nextValue_of_ne {c : Char} (hc : isBlank c = false) (hne : ',' ≠ c) (s : Str) :
    nextValue.run call true (c :: s) = error .noMatch :=
  run_and_noMatch (run_mark_of_ne hc hne s)

theorem Reads.next {v : Js} (h : Reads H call v) {s : Str} (hs : Ends s) :
    (Filled v → nextValue.run call true (commaText (text H v) ++ s) = ok (.single (token v), s)) ∧
    (¬Filled v → nextValue.run call true (commaText (text H v) ++ s) = error .noMatch) := by
  obtain ⟨hfilled, hempty⟩ := h s hs
  rw [commaText, List.cons_append, run_nextValue]
  refine ⟨fun hv => ?_, fun hv => ?_⟩
  · rw [hfilled hv]
    rfl
  · rw [hempty hv]
    rfl

theorem list_reads {vs : List Js} (h : ∀ v ∈ vs, Reads H call v) (hall : ∀ v ∈ vs, Filled v)
    (hclose : ∀ s, value.run call true (']' :: s) = error .noMatch) (rest : Str) :
    (optional (delimitedList value)).run call true
      (concatStringsSep [','] (vs.map (text H)) ++ ']' :: rest) =
        ok (⟨vs.map token, []⟩, ']' :: rest) := by
  cases vs with
  | nil => exact run_optional_noMatch (run_and_noMatch (hclose rest))
  | cons v vs =>
    rw [List.forall_mem_cons] at h hall
    rw [separated_text, List.append_assoc]
    have hends : Ends (']' :: rest) := ends_cons rfl rest
    have hnext : Ends (vs.flatMap (fun v => commaText (text H v)) ++ ']' :: rest) :=
      next_flatMap (fun v => ends_comma (text H v)) hends vs
    have hfirst := (h.1 _ hnext).1 hall.1
    have hmany : (zeroOrMore nextValue).run call true
        (vs.flatMap (fun v => commaText (text H v)) ++ ']' :: rest) =
          ok (⟨vs.map token, []⟩, ']' :: rest) :=
      run_zeroOrMore_all (fun v => ends_comma (text H v)) hends (fun _ => List.cons_ne_nil _ _)
        (fun v hv s hs => ((h.2 v hv).next hs).1 (hall.2 v hv))
        (run_nextValue_of_ne rfl (by decide) rest)
    have hlist := run_and (b := zeroOrMore nextValue) hfirst
    rw [hmany] at hlist
    exact run_optional_ok hlist

theorem text_of_not_filled {v : Js} (hv : ¬Filled v) :
    ∃ c s, text H v = c :: s ∧ ']' ≠ c ∧ isBlank c = false := by
  cases v with
  | number n => exact absurd (.number n) hv
  | bytes b => exact absurd (.bytes b) hv
  | list vs => exact ⟨_, _, rfl, by decide, rfl⟩
  | object members => exact ⟨_, _, rfl, by decide, rfl⟩

theorem list_stuck {vs : List Js} (h : ∀ v ∈ vs, Reads H call v) (hex : ∃ v ∈ vs, ¬Filled v)
    (rest : Str) :
    ∃ r c s, (optional (delimitedList value)).run call true
      (concatStringsSep [','] (vs.map (text H)) ++ ']' :: rest) = ok (r, c :: s) ∧
        ']' ≠ c ∧ isBlank c = false := by
  cases vs with
  | nil =>
    obtain ⟨v, hv, -⟩ := hex
    cases hv
  | cons v vs =>
    rw [List.forall_mem_cons] at h
    rw [separated_text, List.append_assoc]
    have hends : Ends (']' :: rest) := ends_cons rfl rest
    have hnext : Ends (vs.flatMap (fun v => commaText (text H v)) ++ ']' :: rest) :=
      next_flatMap (fun v => ends_comma (text H v)) hends vs
    by_cases hv : Filled v
    · have hex' : ∃ v ∈ vs, ¬Filled v := by
        obtain ⟨w, hw, hnot⟩ := hex
        obtain rfl | hw := List.mem_cons.mp hw
        · exact absurd hv hnot
        · exact ⟨w, hw, hnot⟩
      obtain ⟨r, w, s, hmany⟩ := run_zeroOrMore_stops (g := nextValue) (l := vs)
        (fun v => ends_comma (text H v)) hends (fun _ => List.cons_ne_nil _ _)
        (fun v hv hgood s hs => ((h.2 v hv).next hs).1 hgood)
        (fun v hv hnot s hs => ((h.2 v hv).next hs).2 hnot) hex'
      have hlist := run_and (b := zeroOrMore nextValue) ((h.1 _ hnext).1 hv)
      rw [hmany] at hlist
      exact ⟨_, ',', _, run_optional_ok hlist, by decide, rfl⟩
    · obtain ⟨c, s, htext, hne, hc⟩ := text_of_not_filled (H := H) hv
      have hstuck := run_optional_noMatch (run_and_noMatch (b := zeroOrMore nextValue)
        ((h.1 _ hnext).2 hv))
      rw [htext] at hstuck ⊢
      exact ⟨_, c, _, hstuck, hne, hc⟩

def enclosed (c d : Char) (g : Grammar Name) : Grammar Name :=
  and (and (suppress (literal [c])) g) (suppress (literal [d]))

section Enclosed

variable {c d : Char} {g : Grammar Name} {s : Str} (hc : isBlank c = false)

include hc

theorem run_enclosed {r : Results} {rest : Str} (hd : isBlank d = false)
    (h : g.run call true s = ok (r, d :: rest)) :
    (enclosed c d g).run call true (c :: s) =
      ok ((Results.empty.append r).append .empty, rest) := by
  have hopen : (and (suppress (literal [c])) g).run call true (c :: s) =
      ok (Results.empty.append r, d :: rest) := by
    rw [run_and (run_mark hc s), h]
    rfl
  rw [enclosed, run_and hopen, run_mark hd rest]
  rfl

theorem run_enclosed_stuck {r : Results} {e : Char} {t : Str} (he : isBlank e = false)
    (hne : d ≠ e) (h : g.run call true s = ok (r, e :: t)) :
    (enclosed c d g).run call true (c :: s) = error .noMatch := by
  have hopen : (and (suppress (literal [c])) g).run call true (c :: s) =
      ok (Results.empty.append r, e :: t) := by
    rw [run_and (run_mark hc s), h]
    rfl
  rw [enclosed, run_and hopen, run_mark_of_ne he hne t]
  rfl

theorem run_enclosed_noMatch (h : g.run call true s = error .noMatch) :
    (enclosed c d g).run call true (c :: s) = error .noMatch := by
  have hopen : (and (suppress (literal [c])) g).run call true (c :: s) = error .noMatch := by
    rw [run_and (run_mark hc s), h]
    rfl
  exact run_and_noMatch hopen

end Enclosed

theorem array_text (vs : List Js) (rest : Str) :
    text H (.list vs) ++ rest =
      '[' :: (concatStringsSep [','] (vs.map (text H)) ++ ']' :: rest) := by
  simp [text, texts_eq_map]

theorem array_reads {vs : List Js} (h : ∀ v ∈ vs, Reads H call v) (hall : ∀ v ∈ vs, Filled v)
    (hclose : ∀ s, value.run call true (']' :: s) = error .noMatch) (rest : Str) :
    (rules .array).run call true (text H (.list vs) ++ rest) =
      ok (.single (token (.list vs)), rest) := by
  rw [array_text]
  refine (run_group (run_enclosed rfl rfl (list_reads h hall hclose rest))).trans ?_
  simp [token, tokens_eq_map, Results.append, Results.empty, Results.single]

theorem array_stuck {vs : List Js} (h : ∀ v ∈ vs, Reads H call v) (hex : ∃ v ∈ vs, ¬Filled v)
    (rest : Str) :
    (rules .array).run call true (text H (.list vs) ++ rest) = error .noMatch := by
  rw [array_text]
  obtain ⟨r, c, s, hstuck, hne, hc⟩ := list_stuck h hex rest
  exact run_group_noMatch (run_enclosed_stuck rfl hc hne hstuck)

theorem run_entry {k s t : Str} (hk : IsKey k)
    (h : (suppress (optional (literal ",".toList))).run call true s = ok (.empty, k ++ ':' :: t)) :
    entry.run call true s = ok (.single (.str k), t) := by
  obtain ⟨c, w, rfl, hc, hw⟩ := hk
  have hkey : key.run call true (c :: w ++ ':' :: t) = ok (.single (.str (c :: w)), ':' :: t) :=
    run_word (isBlank_alphanum (by simp [Char.isAlphanum, hc])) hc hw fun x hx => by
      cases hx
      rfl
  have hname : (and (suppress (optional (literal ",".toList))) key).run call true s =
      ok (.single (.str (c :: w)), ':' :: t) := by
    rw [run_and h, hkey]
    rfl
  have hcolon : (suppress (literal ":".toList)).run call true (':' :: t) = ok (.empty, t) :=
    run_mark rfl t
  rw [entry, run_and hname, hcolon]
  rfl

theorem run_entry_first {k : Str} (hk : IsKey k) (t : Str) :
    entry.run call true (k ++ ':' :: t) = ok (.single (.str k), t) := by
  refine run_entry hk (run_suppress (run_optional_noMatch ?_))
  obtain ⟨c, w, rfl, hc, -⟩ := hk
  refine run_literal_of_ne (isBlank_alphanum (by simp [Char.isAlphanum, hc])) ?_ [] _
  rintro rfl
  cases hc

theorem run_entry_next {k : Str} (hk : IsKey k) (t : Str) :
    entry.run call true (commaText (k ++ ':' :: t)) = ok (.single (.str k), t) :=
  run_entry hk (run_suppress (run_optional_ok (run_literal rfl [] _)))

def element : Grammar Name := group (and entry value)

def memberToken (m : Str × Js) : PyObject := .results [.str m.1, token m.2] []

theorem run_element {m : Str × Js} {s t : Str} (h : Reads H call m.2) (ht : Ends t)
    (hentry : entry.run call true s = ok (.single (.str m.1), text H m.2 ++ t)) :
    (Filled m.2 → element.run call true s = ok (.single (memberToken m), t)) ∧
    (¬Filled m.2 → element.run call true s = error .noMatch) := by
  obtain ⟨hfilled, hempty⟩ := h t ht
  refine ⟨fun hm => ?_, fun hm => run_group_noMatch ?_⟩
  · refine run_group (r := ⟨[.str m.1, token m.2], []⟩) ?_
    rw [run_and hentry, hfilled hm]
    rfl
  · rw [run_and hentry, hempty hm]
    rfl

theorem memberText_append (m : Str × Js) (s : Str) :
    memberText H m ++ s = m.1 ++ ':' :: (text H m.2 ++ s) := by
  simp [memberText]

theorem run_element_first {m : Str × Js} {t : Str} (hk : IsKey m.1) (h : Reads H call m.2)
    (ht : Ends t) :
    (Filled m.2 → element.run call true (memberText H m ++ t) =
      ok (.single (memberToken m), t)) ∧
    (¬Filled m.2 → element.run call true (memberText H m ++ t) = error .noMatch) := by
  rw [memberText_append]
  exact run_element h ht (run_entry_first hk _)

theorem run_element_next {m : Str × Js} {t : Str} (hk : IsKey m.1) (h : Reads H call m.2)
    (ht : Ends t) :
    (Filled m.2 → element.run call true (commaText (memberText H m) ++ t) =
      ok (.single (memberToken m), t)) ∧
    (¬Filled m.2 → element.run call true (commaText (memberText H m) ++ t) = error .noMatch) := by
  have htext : commaText (memberText H m) ++ t = commaText (m.1 ++ ':' :: (text H m.2 ++ t)) := by
    rw [commaText, List.cons_append, memberText_append, commaText]
  rw [htext]
  exact run_element h ht (run_entry_next hk _)

theorem run_element_brace (s : Str) : element.run call true ('\x7d' :: s) = error .noMatch := by
  have hcomma : (suppress (optional (literal ",".toList))).run call true ('\x7d' :: s) =
      ok (.empty, '\x7d' :: s) :=
    run_suppress (run_optional_noMatch (run_literal_of_ne rfl (by decide) [] s))
  have hname : (and (suppress (optional (literal ",".toList))) key).run call true ('\x7d' :: s) =
      error .noMatch := by
    rw [run_and hcomma, key, run_word_of_not rfl rfl s]
    rfl
  exact run_group_noMatch (run_and_noMatch (run_and_noMatch hname))

theorem object_text (members : List (Str × Js)) (rest : Str) :
    text H (.object members) ++ rest =
      '\x7b' :: (concatStringsSep [','] (members.map (memberText H)) ++ '\x7d' :: rest) := by
  simp [text, memberTexts_eq_map]

theorem dictEntry_memberToken (m : Str × Js) :
    Results.dictEntry (memberToken m) = some (m.1, token m.2) := by
  obtain ⟨k, v⟩ := m
  cases v <;> rfl

variable {members : List (Str × Js)}

theorem toDict_members (hdistinct : (members.map Prod.fst).Nodup) :
    (Results.mk (members.map memberToken) []).toDict =
      ⟨members.map memberToken, members.map fun m => (m.1, token m.2)⟩ := by
  have hentries : (members.map memberToken).filterMap Results.dictEntry =
      members.map fun m => (m.1, token m.2) := by
    rw [List.filterMap_map, ← List.filterMap_eq_map]
    exact congrArg (members.filterMap ·) (funext dictEntry_memberToken)
  rw [Results.toDict, hentries,
    foldl_assign_distinct (by simpa [Function.comp_def] using hdistinct)]
  rfl

section Members

variable (hkeys : ∀ m ∈ members, IsKey m.1) (h : ∀ m ∈ members, Reads H call m.2)

include hkeys h

theorem members_read (hne : members ≠ []) (hdistinct : (members.map Prod.fst).Nodup)
    (hall : ∀ m ∈ members, Filled m.2) (rest : Str) :
    (dictOf entry value).run call true
      (concatStringsSep [','] (members.map (memberText H)) ++ '\x7d' :: rest) =
        ok (⟨members.map memberToken, members.map fun m => (m.1, token m.2)⟩, '\x7d' :: rest) := by
  cases members with
  | nil => exact absurd rfl hne
  | cons m members =>
    rw [← toDict_members hdistinct]
    rw [List.forall_mem_cons] at hkeys h hall
    rw [separated_text, List.append_assoc]
    have hends : Ends ('\x7d' :: rest) := ends_cons rfl rest
    have hnext : Ends (members.flatMap (fun m => commaText (memberText H m)) ++ '\x7d' :: rest) :=
      next_flatMap (fun m => ends_comma (memberText H m)) hends members
    have hfirst := (run_element_first hkeys.1 h.1 hnext).1 hall.1
    have hmany : (zeroOrMore element).run call true
        (members.flatMap (fun m => commaText (memberText H m)) ++ '\x7d' :: rest) =
          ok (⟨members.map memberToken, []⟩, '\x7d' :: rest) :=
      run_zeroOrMore_all (fun m => ends_comma (memberText H m)) hends
        (fun _ => List.cons_ne_nil _ _)
        (fun m hm s hs => (run_element_next (hkeys.2 m hm) (h.2 m hm) hs).1 (hall.2 m hm))
        (run_element_brace rest)
    have hlist := run_and (b := zeroOrMore element) hfirst
    rw [hmany] at hlist
    exact run_dict hlist

theorem members_stuck (hex : ∃ m ∈ members, ¬Filled m.2) (rest : Str) :
    (dictOf entry value).run call true
        (concatStringsSep [','] (members.map (memberText H)) ++ '\x7d' :: rest) = error .noMatch ∨
      ∃ r s, (dictOf entry value).run call true
        (concatStringsSep [','] (members.map (memberText H)) ++ '\x7d' :: rest) =
          ok (r, ',' :: s) := by
  cases members with
  | nil =>
    obtain ⟨m, hm, -⟩ := hex
    cases hm
  | cons m members =>
    rw [List.forall_mem_cons] at hkeys h
    rw [separated_text, List.append_assoc]
    have hends : Ends ('\x7d' :: rest) := ends_cons rfl rest
    have hnext : Ends (members.flatMap (fun m => commaText (memberText H m)) ++ '\x7d' :: rest) :=
      next_flatMap (fun m => ends_comma (memberText H m)) hends members
    by_cases hm : Filled m.2
    · have hex' : ∃ m ∈ members, ¬Filled m.2 := by
        obtain ⟨w, hw, hnot⟩ := hex
        obtain rfl | hw := List.mem_cons.mp hw
        · exact absurd hm hnot
        · exact ⟨w, hw, hnot⟩
      obtain ⟨r, w, s, hmany⟩ := run_zeroOrMore_stops (g := element) (l := members)
        (fun m => ends_comma (memberText H m)) hends (fun _ => List.cons_ne_nil _ _)
        (fun m hm hgood s hs => (run_element_next (hkeys.2 m hm) (h.2 m hm) hs).1 hgood)
        (fun m hm hnot s hs => (run_element_next (hkeys.2 m hm) (h.2 m hm) hs).2 hnot) hex'
      have hlist := run_and (b := zeroOrMore element) ((run_element_first hkeys.1 h.1 hnext).1 hm)
      rw [hmany] at hlist
      exact .inr ⟨_, _, run_dict hlist⟩
    · exact .inl (run_dict_noMatch (run_and_noMatch
        ((run_element_first hkeys.1 h.1 hnext).2 hm)))

end Members

theorem object_reads (hk : WellKeyed (.object members)) (h : ∀ m ∈ members, Reads H call m.2)
    (hfilled : Filled (.object members)) (rest : Str) :
    (rules .obj).run call true (text H (.object members) ++ rest) =
      ok (.single (token (.object members)), rest) := by
  cases hk with
  | object hkeys hdistinct hk =>
    cases hfilled with
    | object hne hall =>
      have hnames : (members.map fun m => (m.1, token m.2)).foldl
          (fun names x => assign names x.1 x.2) [] = members.map fun m => (m.1, token m.2) :=
        foldl_assign_distinct (by simpa [Function.comp_def] using hdistinct)
      rw [object_text]
      refine run_parseAction
        (run_enclosed rfl rfl (members_read hkeys h hne hdistinct hall rest)) ?_
      have hdict : asDict (members.map fun m => (m.1, token m.2)) = pythonMembers members := by
        rw [asDict_eq_map, pythonMembers_eq_map, List.map_map]
        exact List.map_congr_left fun m hm => congrArg (Prod.mk m.1) (toItem_token (hk m hm))
      simp only [Results.append, Results.empty, hnames, List.foldl_nil, hdict, token]

theorem object_stuck (hk : WellKeyed (.object members)) (h : ∀ m ∈ members, Reads H call m.2)
    (hempty : ¬Filled (.object members)) (rest : Str) :
    (rules .obj).run call true (text H (.object members) ++ rest) = error .noMatch := by
  cases hk with
  | object hkeys hdistinct hk =>
    rw [object_text]
    by_cases hne : members = []
    · rw [hne]
      exact run_parseAction_noMatch (run_enclosed_noMatch rfl
        (run_dict_noMatch (run_and_noMatch (run_element_brace rest))))
    · have hex : ∃ m ∈ members, ¬Filled m.2 := by
        by_contra hall
        push Not at hall
        exact hempty (.object hne hall)
      obtain hstuck | ⟨r, s, hstuck⟩ := members_stuck hkeys h hex rest
      · exact run_parseAction_noMatch (run_enclosed_noMatch rfl hstuck)
      · exact run_parseAction_noMatch (run_enclosed_stuck rfl rfl (by decide) hstuck)

end Values

theorem length_le_separated {t : Str} {l : List Str} (h : t ∈ l) :
    t.length ≤ (concatStringsSep [','] l).length := by
  obtain ⟨x, l, rfl⟩ := List.exists_cons_of_ne_nil (List.ne_nil_of_mem h)
  rw [concatStringsSep, intercalate_cons, List.length_append]
  obtain rfl | h := List.mem_cons.mp h
  · exact Nat.le_add_right _ _
  · obtain ⟨before, after, rfl⟩ := List.append_of_mem h
    simp only [List.flatMap_append, List.flatMap_cons, List.length_append]
    omega

theorem length_list (vs : List Js) :
    (text H (.list vs)).length = (concatStringsSep [','] (vs.map (text H))).length + 2 := by
  simp [text, texts_eq_map]

theorem length_object (members : List (Str × Js)) :
    (text H (.object members)).length =
      (concatStringsSep [','] (members.map (memberText H))).length + 2 := by
  simp [text, memberTexts_eq_map]

theorem value_reads {v : Js} (hv : WellKeyed v) {n : Nat} (hn : (text H v).length ≤ n) :
    Reads H (calls rules n) v := by
  induction hv generalizing n with
  | number k =>
    exact fun rest hrest => ⟨fun _ => value_number k hrest, fun h => absurd (.number k) h⟩
  | bytes b =>
    exact fun rest _ => ⟨fun _ => value_bytes b rest, fun h => absurd (.bytes b) h⟩
  | @list vs hvs ih =>
    rw [length_list] at hn
    obtain ⟨n, rfl⟩ := Nat.exists_eq_add_of_le' (le_trans (Nat.le_add_left 2 _) hn)
    have hread : ∀ v ∈ vs, Reads H (calls rules (n + 1)) v := fun v hv =>
      ih v hv (by have := length_le_separated (List.mem_map_of_mem (f := text H) hv); omega)
    have hclose : ∀ s, value.run (calls rules (n + 1)) true (']' :: s) = error .noMatch := fun s =>
      (value_of_ne rfl (by decide) (by decide) (by decide) s).trans
        (run_obj_of_ne rfl (by decide) s)
    intro rest _
    have hvalue : value.run (calls rules (n + 2)) true (text H (.list vs) ++ rest) =
        (rules .array).run (calls rules (n + 1)) true (text H (.list vs) ++ rest) := by
      rw [array_text]
      exact value_bracket (n + 1) _
    rw [hvalue]
    refine ⟨fun hfilled => ?_, fun hempty => array_stuck hread ?_ rest⟩
    · cases hfilled with
      | list hall => exact array_reads hread hall hclose rest
    · by_contra hall
      push Not at hall
      exact hempty (.list hall)
  | @object members hkeys hdistinct hms ih =>
    rw [length_object] at hn
    obtain ⟨n, rfl⟩ := Nat.exists_eq_add_of_le' (le_trans (Nat.le_add_left 2 _) hn)
    have hread : ∀ m ∈ members, Reads H (calls rules (n + 1)) m.2 := fun m hm =>
      ih m hm (by
        have := length_le_separated (List.mem_map_of_mem (f := memberText H) hm)
        simp only [memberText, List.length_append, List.length_cons] at this
        omega)
    have hk : WellKeyed (.object members) := .object hkeys hdistinct hms
    intro rest _
    have hvalue : value.run (calls rules (n + 2)) true (text H (.object members) ++ rest) =
        (rules .obj).run (calls rules (n + 1)) true (text H (.object members) ++ rest) := by
      rw [object_text]
      exact value_of_ne rfl (by decide) (by decide) (by decide) _
    rw [hvalue]
    exact ⟨fun hfilled => object_reads hk hread hfilled rest,
      fun hempty => object_stuck hk hread hempty rest⟩

theorem parseJs_text {v : Js} (hv : WellKeyed v) (hfilled : Filled v) :
    parseJs (text H v) = ok (python v) := by
  have hread := value_reads (H := H) hv (Nat.le_succ (text H v).length) [] (fun _ hc => by cases hc)
  rw [List.append_nil] at hread
  rw [parseJs, parseString, hread.1 hfilled]
  change ok (asItem (token v)) = _
  rw [asItem_token hv]

theorem parseJs_text_of_not_filled {v : Js} (hv : WellKeyed v) (hempty : ¬Filled v) :
    parseJs (text H v) = error .noMatch := by
  have hread := value_reads (H := H) hv (Nat.le_succ (text H v).length) [] (fun _ hc => by cases hc)
  rw [List.append_nil] at hread
  rw [parseJs, parseString, hread.2 hempty]
  rfl

theorem parseJs_roundTrips_iff (H : HexStyle) {v : Js} (hv : WellKeyed v) :
    parseJs (text H v) = ok (python v) ↔ Filled v := by
  refine ⟨fun h => ?_, parseJs_text hv⟩
  by_contra hempty
  rw [parseJs_text_of_not_filled hv hempty] at h
  cases h

def lowerHex : HexStyle where
  digit := Nat.digitChar
  isHexnum {d} h := (by decide : ∀ d < 16, isHexnum (Nat.digitChar d)) d h
  value {d} h := (by decide : ∀ d < 16, digitValue (Nat.digitChar d) = d) d h
  width := 2

def portDocument : Js :=
  .object [("en".toList, .number 63), ("p".toList, .list [.bytes [80, 49], .list []])]

theorem parseJs_roundTrips_iff_port :
    text lowerHex portDocument = "\x7ben:0x3f,p:['5031',[]]\x7d".toList ∧
      parseJs (text lowerHex portDocument) = ok (python portDocument) := by
  refine ⟨rfl, (parseJs_roundTrips_iff lowerHex (.object ?_ (by decide) ?_)).mpr
    (.object (List.cons_ne_nil _ _) ?_)⟩
  · rw [List.forall_mem_cons, List.forall_mem_singleton]
    exact ⟨⟨'e', ['n'], rfl, rfl, List.forall_mem_singleton.mpr rfl⟩,
      ⟨'p', [], rfl, rfl, List.forall_mem_nil _⟩⟩
  all_goals
    rw [List.forall_mem_cons, List.forall_mem_singleton]
    refine ⟨.number 63, .list ?_⟩
    rw [List.forall_mem_cons, List.forall_mem_singleton]
    exact ⟨.bytes _, .list (List.forall_mem_nil _)⟩

theorem emptyObject_not_roundTrips :
    WellKeyed (.object []) ∧ text lowerHex (.object []) = "\x7b\x7d".toList ∧
      parseJs (text lowerHex (.object [])) = error .noMatch ∧
      parseJs (text lowerHex (.object [])) ≠ ok (python (.object [])) := by
  have hparse : parseJs (text lowerHex (.object [])) = error .noMatch := rfl
  refine ⟨.object (List.forall_mem_nil _) .nil (List.forall_mem_nil _), rfl, hparse, ?_⟩
  rw [hparse]
  exact fun h => by cases h

end Isz.Mikrotik.Swos

import Isz.Grafana.Flux
import Mathlib.Data.Fintype.EquivFin
import Mathlib.Data.Finset.Max

namespace Isz.Grafana.Flux

open Lexer Lexicon Except

-- a column that the record does not have is null
abbrev Record := Str → Option Str

def compare (op : FluxOp) (name x : Str) (r : Record) : Option Bool :=
  (r name).map fun y => if op = .equal then y == x else y != x

def comparisonTokens (op : FluxOp) (name x : Str) : List Token :=
  [.word ['r'], .symbol ['['], .quoted '"' name, .symbol [']'], .symbol op.text, .quoted '"' x]

def atom : List Token → Option (Record → Option Bool)
  | [.word r, .symbol a, .quoted _ name, .symbol b, .symbol op, .quoted _ x] =>
    if r = ['r'] ∧ a = ['['] ∧ b = [']'] then
      if op = FluxOp.equal.text then some (compare .equal name x)
      else if op = FluxOp.unequal.text then some (compare .unequal name x)
      else none
    else none
  | _ => none

def predicate (E : Escapes) (text : Str) : Option (Record → Option Bool) :=
  ((lexicon E).lex text).bind (Condition.read atom)

def comparisonText (op : FluxOp) (field x t : Str) : Str :=
  "r[".toList ++ '"' :: (escape '"' field ++ '"' ::
    (("] ".toList ++ op.text ++ " ".toList) ++ '"' :: (escape '"' x ++ '"' :: t)))

def joinText (op : FluxOp) : Str := if op = .equal then " or ".toList else " and ".toList

def join (op : FluxOp) : Condition.Join := if op = .equal then .any else .all

def restText (op : FluxOp) (field : Str) : List Str → Str
  | [] => []
  | x :: xs => joinText op ++ comparisonText op field x (restText op field xs)

def Membership (op : FluxOp) : Prop := op = .equal ∨ op = .unequal

theorem fluxComparison_string {op : FluxOp} (hop : Membership op) (field x : Str) :
    fluxComparison field op (.string x) = ok (comparisonText op field x []) := by
  obtain rfl | rfl := hop
  · simp [fluxComparison, fluxValue, comparisonText]
  · simp [fluxComparison, fluxValue, comparisonText]

theorem comparisonText_append (op : FluxOp) (field x t : Str) :
    comparisonText op field x [] ++ t = comparisonText op field x t := by
  simp [comparisonText]

theorem restText_eq (op : FluxOp) (field : Str) (xs : List Str) :
    restText op field xs =
      (xs.map fun x => comparisonText op field x []).flatMap (joinText op ++ ·) := by
  induction xs with
  | nil => rfl
  | cons x xs ih =>
    rw [restText, ih, List.map_cons, List.flatMap_cons, List.append_assoc, comparisonText_append]

theorem fluxFilter_strings {op : FluxOp} (hop : Membership op) (field x : Str) (xs : List Str) :
    fluxFilter field op ((x :: xs).map .string) =
      ok (comparisonText op field x (restText op field xs)) := by
  have hparts : ((x :: xs).map Value.string).mapM (fluxComparison field op) =
      ok ((x :: xs).map fun x => comparisonText op field x []) := by
    rw [List.mapM_map]
    exact mapM_ok fun x _ => fluxComparison_string hop field x
  have hsep : (if op = .unequal ∨ op = .unmatching then " and ".toList else " or ".toList) =
      joinText op := by
    obtain rfl | rfl := hop <;> rfl
  rw [fluxFilter, hparts, ok_bind, hsep, concatStringsSep, List.map_cons,
    intercalate_cons, ← restText_eq, comparisonText_append]
  rfl

variable (E : Escapes)

def piece (op : FluxOp) (field x : Str) : Option (List Token) :=
  (closed E field).bind fun f => (closed E x).map (comparisonTokens op f)

theorem opens_r : (lexicon E).Opens "r[".toList [.word ['r'], .symbol ['[']] :=
  Opens.word (w := []) (t := ['[']) rfl rfl rfl
    (opens_operator E (w := []) rfl (by decide) rfl rfl fun s => rfl)
    fun s => boundary_cons rfl (body_of_ne E (by decide))

theorem opens_op {op : FluxOp} (hop : Membership op) :
    (lexicon E).Opens ("] ".toList ++ op.text ++ " ".toList)
      [.symbol [']'], .symbol op.text] := by
  have hclosing : (lexicon E).Opens [']'] [.symbol [']']] :=
    opens_operator E (w := []) rfl (by decide) rfl rfl fun s => rfl
  have hop : (lexicon E).Opens op.text [.symbol op.text] := by
    obtain rfl | rfl := hop
    · exact opens_operator E (w := ['=']) rfl (by decide) rfl rfl fun s => rfl
    · exact opens_operator E (w := ['=']) rfl (by decide) rfl rfl fun s => rfl
  exact ((hclosing.append opens_space).append hop).append opens_space

theorem opens_join (op : FluxOp) : (lexicon E).Opens (joinText op) [(join op).word] := by
  have hspace : ∀ s, (lexicon E).Boundary ([' '] ++ s) := fun s =>
    boundary_cons rfl (body_of_ne E (by decide))
  by_cases hop : op = .equal
  · rw [joinText, join, if_pos hop, if_pos hop]
    exact opens_space.append
      (Opens.word (c := 'o') (w := ['r']) rfl rfl rfl opens_space hspace)
  · rw [joinText, join, if_neg hop, if_neg hop]
    exact opens_space.append
      (Opens.word (c := 'a') (w := ['n', 'd']) rfl rfl rfl opens_space hspace)

theorem plain_op {op : FluxOp} (hop : Membership op) :
    Plain ("] ".toList ++ op.text ++ " ".toList) := by
  obtain rfl | rfl := hop
  · simp [Plain, FluxOp.text]
  · simp [Plain, FluxOp.text]

theorem lex_comparison {op : FluxOp} (hop : Membership op) {field x t : Str}
    (hfield : Uninterpolated field) (hx : Uninterpolated x) (ht : Tail t) :
    (lexicon E).lex (comparisonText op field x t) =
      (piece E op field x).bind fun p => ((lexicon E).lex t).map (p ++ ·) := by
  rw [comparisonText, opens_r E, lex_rendered E hfield (.string (plain_op hop) ht), opens_op E hop,
    lex_rendered E hx ht, piece]
  cases closed E field with
  | none => rfl
  | some f =>
    cases closed E x with
    | none => rfl
    | some d => cases (lexicon E).lex t <;> rfl

theorem tail_comparison {op : FluxOp} (hop : Membership op) {o t : Str} (ho : Plain o)
    (field x : Str) (ht : Tail t) : Tail (o ++ comparisonText op field x t) := by
  have hopening : Plain "r[".toList := by simp [Plain]
  have hr : Plain (o ++ "r[".toList) := List.forall_mem_append.mpr ⟨ho, hopening⟩
  rw [comparisonText, ← List.append_assoc]
  exact .string hr (.string (plain_op hop) ht)

theorem tail_restText {op : FluxOp} (hop : Membership op) (field : Str) (xs : List Str) :
    Tail (restText op field xs) := by
  induction xs with
  | nil => exact .done
  | cons x xs ih =>
    refine tail_comparison hop ?_ field x ih
    obtain rfl | rfl := hop
    · simp [Plain, joinText]
    · simp [Plain, joinText]

theorem lex_restText {op : FluxOp} (hop : Membership op) {field : Str} {xs : List Str}
    (hfield : Uninterpolated field) (hxs : ∀ x ∈ xs, Uninterpolated x) :
    (lexicon E).lex (restText op field xs) =
      (xs.mapM (piece E op field)).map fun ps => ps.flatMap ((join op).word :: ·) := by
  induction xs with
  | nil => rfl
  | cons x xs ih =>
    rw [List.forall_mem_cons] at hxs
    rw [restText, opens_join E op, lex_comparison E hop hfield hxs.1 (tail_restText hop field xs),
      ih hxs.2, List.mapM_cons]
    cases piece E op field x with
    | none => rfl
    | some p => cases xs.mapM (piece E op field) <;> rfl

theorem lex_fluxFilter {op : FluxOp} (hop : Membership op) {field x : Str} {xs : List Str}
    (hfield : Uninterpolated field) (hxs : ∀ y ∈ x :: xs, Uninterpolated y) :
    (lexicon E).lex (comparisonText op field x (restText op field xs)) =
      ((x :: xs).mapM (piece E op field)).map ([(join op).word].intercalate ·) := by
  rw [List.forall_mem_cons] at hxs
  rw [lex_comparison E hop hfield hxs.1 (tail_restText hop field xs),
    lex_restText E hop hfield hxs.2, List.mapM_cons]
  cases piece E op field x with
  | none => rfl
  | some p =>
    cases xs.mapM (piece E op field) with
    | none => rfl
    | some ps => exact congrArg some (intercalate_cons [(join op).word] p ps).symm

theorem mapM_piece (op : FluxOp) (field : Str) {xs : List Str} (hne : xs ≠ []) :
    xs.mapM (piece E op field) =
      (closed E field).bind fun f => (xs.mapM (closed E)).map (·.map (comparisonTokens op f)) := by
  cases hfield : closed E field with
  | none =>
    obtain ⟨x, xs, rfl⟩ := List.exists_cons_of_ne_nil hne
    rw [List.mapM_cons, piece, hfield]
    rfl
  | some f =>
    have hpiece : ∀ x, piece E op field x = (closed E x).map (comparisonTokens op f) := fun x => by
      rw [piece, hfield, Option.bind_some]
    clear hne
    induction xs with
    | nil => rfl
    | cons x xs ih =>
      rw [List.mapM_cons, List.mapM_cons, ih, hpiece x]
      cases closed E x with
      | none => rfl
      | some d => cases xs.mapM (closed E) <;> rfl

theorem simple_comparison {op : FluxOp} (f d : Str) :
    Condition.Simple (comparisonTokens op f d) := by
  constructor
  · simp [comparisonTokens, Condition.or]
  · simp [comparisonTokens, Condition.and]

theorem atom_comparison {op : FluxOp} (hop : Membership op) (f d : Str) :
    atom (comparisonTokens op f d) = some (compare op f d) := by
  obtain rfl | rfl := hop <;> simp [atom, comparisonTokens, FluxOp.text]

theorem read_comparisons {op : FluxOp} (hop : Membership op) (f : Str) {ds : List Str}
    (hne : ds ≠ []) :
    Condition.read atom ([(join op).word].intercalate (ds.map (comparisonTokens op f))) =
      some fun r => (join op).combine (ds.map fun d => compare op f d r) :=
  Condition.read_map (join op) hne (fun d _ => simple_comparison f d)
    fun d _ => atom_comparison hop f d

def Selects (op : FluxOp) (l : List Str) (y : Str) : Prop :=
  (op = .equal ∧ y ∈ l) ∨ (op = .unequal ∧ y ∉ l)

theorem compare_equal {f d : Str} {r : Record} :
    compare .equal f d r = some true ↔ r f = some d := by
  simp [compare]

theorem compare_unequal {f d : Str} {r : Record} :
    compare .unequal f d r = some true ↔ ∃ y, r f = some y ∧ y ≠ d := by
  simp [compare]

theorem combine_eq_true {op : FluxOp} (hop : Membership op) (f : Str) {ds : List Str}
    (hne : ds ≠ []) (r : Record) :
    (join op).combine (ds.map fun d => compare op f d r) = some true ↔
      ∃ y, r f = some y ∧ Selects op ds y := by
  obtain rfl | rfl := hop
  · rw [join, if_pos rfl, Condition.Join.combine, Condition.any_eq_true, List.mem_map]
    constructor
    · rintro ⟨d, hd, heq⟩
      exact ⟨d, compare_equal.mp heq, .inl ⟨rfl, hd⟩⟩
    · rintro ⟨y, hy, ⟨-, hin⟩ | ⟨hop, -⟩⟩
      · exact ⟨y, hin, compare_equal.mpr hy⟩
      · cases hop
  · rw [join, if_neg (by decide), Condition.Join.combine, Condition.all_eq_true,
      List.forall_mem_map]
    constructor
    · intro hall
      obtain ⟨d, ds, rfl⟩ := List.exists_cons_of_ne_nil hne
      obtain ⟨y, hy, -⟩ := compare_unequal.mp (hall d List.mem_cons_self)
      refine ⟨y, hy, .inr ⟨rfl, fun hin => ?_⟩⟩
      obtain ⟨y', hy', hne'⟩ := compare_unequal.mp (hall y hin)
      rw [hy] at hy'
      exact hne' (Option.some.inj hy').symm
    · rintro ⟨y, hy, ⟨hop, -⟩ | ⟨-, hnot⟩⟩ d hd
      · cases hop
      · exact compare_unequal.mpr ⟨y, hy, fun heq => hnot (heq ▸ hd)⟩

def Means (field : Str) (op : FluxOp) (values : List Str) : Prop :=
  ∃ text p, fluxFilter field op (values.map .string) = ok text ∧ predicate E text = some p ∧
    ∀ r, p r = some true ↔ ∃ y, r field = some y ∧ Selects op values y

theorem predicate_eq {op : FluxOp} (hop : Membership op) {field x : Str} {xs : List Str}
    (hfield : Uninterpolated field) (hxs : ∀ y ∈ x :: xs, Uninterpolated y) :
    predicate E (comparisonText op field x (restText op field xs)) =
      (closed E field).bind fun f => ((x :: xs).mapM (closed E)).map fun ds r =>
        (join op).combine (ds.map fun d => compare op f d r) := by
  rw [predicate, lex_fluxFilter E hop hfield hxs, mapM_piece E op field (List.cons_ne_nil x xs)]
  cases closed E field with
  | none => rfl
  | some f =>
    cases hds : (x :: xs).mapM (closed E) with
    | none => rfl
    | some ds => exact read_comparisons hop f (Condition.ne_nil_of_mapM hds)

theorem means_iff {op : FluxOp} (hop : Membership op) {field : Str} {values : List Str}
    (hne : values ≠ []) (hfield : Uninterpolated field) (hvalues : ∀ x ∈ values, Uninterpolated x) :
    Means E field op values ↔ ∃ f ds, closed E field = some f ∧
      values.mapM (closed E) = some ds ∧ ∀ r : Record,
        (∃ y, r f = some y ∧ Selects op ds y) ↔ ∃ y, r field = some y ∧ Selects op values y := by
  obtain ⟨x, xs, rfl⟩ := List.exists_cons_of_ne_nil hne
  rw [Means, fluxFilter_strings hop field x xs]
  constructor
  · rintro ⟨text, p, htext, hp, hmeans⟩
    cases htext
    rw [predicate_eq E hop hfield hvalues] at hp
    obtain ⟨f, hf, hp⟩ := Option.bind_eq_some_iff.mp hp
    obtain ⟨ds, hds, rfl⟩ := Option.map_eq_some_iff.mp hp
    refine ⟨f, ds, hf, hds, fun r => ?_⟩
    rw [← hmeans r, combine_eq_true hop f (Condition.ne_nil_of_mapM hds)]
  · rintro ⟨f, ds, hf, hds, hmeans⟩
    refine ⟨_, fun r => (join op).combine (ds.map fun d => compare op f d r), rfl, ?_, fun r => ?_⟩
    · rw [predicate_eq E hop hfield hvalues, hf, hds]
      rfl
    · rw [← hmeans r, combine_eq_true hop f (Condition.ne_nil_of_mapM hds)]

theorem exists_selected {op : FluxOp} (hop : Membership op) {values : List Str}
    (hne : values ≠ []) : ∃ y, Selects op values y := by
  obtain rfl | rfl := hop
  · obtain ⟨x, xs, rfl⟩ := List.exists_cons_of_ne_nil hne
    exact ⟨x, .inl ⟨rfl, List.mem_cons_self⟩⟩
  · obtain ⟨y, hy⟩ := Infinite.exists_notMem_finset values.toFinset
    exact ⟨y, .inr ⟨rfl, fun hin => hy (List.mem_toFinset.mpr hin)⟩⟩

theorem selects_congr {op : FluxOp} (hop : Membership op) {l l' : List Str}
    (h : ∀ y, Selects op l y ↔ Selects op l' y) (y : Str) : y ∈ l ↔ y ∈ l' := by
  obtain rfl | rfl := hop
  · simpa [Selects] using h y
  · simpa [Selects, not_iff_not] using h y

theorem same_selection {op : FluxOp} (hop : Membership op) {field f : Str} {values ds : List Str}
    (hne : values ≠ []) (h : ∀ r : Record, (∃ y, r f = some y ∧ Selects op ds y) ↔
      ∃ y, r field = some y ∧ Selects op values y) : f = field ∧ ∀ y, y ∈ ds ↔ y ∈ values := by
  obtain ⟨y, hy⟩ := exists_selected hop hne
  have hname : f = field := by
    obtain ⟨y', hy', -⟩ := (h fun k => if k = field then some y else none).mpr
      ⟨y, if_pos rfl, hy⟩
    by_contra hf
    rw [if_neg hf] at hy'
    cases hy'
  subst hname
  refine ⟨rfl, selects_congr hop fun y => ?_⟩
  simpa using h fun _ => some y

theorem no_backslash_of_same {values ds : List Str} (hds : values.mapM (closed E) = some ds)
    (hsame : ∀ y, y ∈ ds ↔ y ∈ values) : ∀ x ∈ values, '\\' ∉ x := by
  by_contra hsome
  simp only [not_forall, not_not] at hsome
  obtain ⟨x, hx, hback⟩ := hsome
  have hin : x ∈ values.toFinset.filter ('\\' ∈ ·) := by simp [hx, hback]
  obtain ⟨m, hm, hmax⟩ := Finset.exists_max_image _ List.length ⟨x, hin⟩
  simp only [Finset.mem_filter, List.mem_toFinset] at hm hmax
  obtain ⟨a, ha, hread⟩ := Condition.exists_of_mem_mapM hds ((hsame m).mpr hm.1)
  obtain ⟨hnot, rfl⟩ | ⟨hin, hlt⟩ := closed_length E hread
  · exact hnot hm.2
  · exact absurd hlt (Nat.not_lt.mpr (hmax a ⟨ha, hin⟩))

theorem means_iff_no_backslash {op : FluxOp} (hop : Membership op) {field : Str}
    {values : List Str} (hne : values ≠ []) (hfield : Uninterpolated field)
    (hvalues : ∀ x ∈ values, Uninterpolated x) :
    Means E field op values ↔ '\\' ∉ field ∧ ∀ x ∈ values, '\\' ∉ x := by
  rw [means_iff E hop hne hfield hvalues]
  constructor
  · rintro ⟨f, ds, hf, hds, h⟩
    obtain ⟨rfl, hsame⟩ := same_selection hop hne h
    exact ⟨(closed_eq_self E).mp hf, no_backslash_of_same E hds hsame⟩
  · rintro ⟨hnot, hvalues⟩
    refine ⟨field, values, closed_of_notMem E hnot, ?_, fun r => Iff.rfl⟩
    have hsome := Condition.mapM_congr fun x hx => closed_of_notMem E (hvalues x hx)
    rw [hsome]
    exact List.mapM_pure.trans (congrArg some (List.map_id values))

def InjectionFree (v : Value) (field : Str) (op : FluxOp) (values : List Str) : Prop :=
  Reads E v ∧ Means E field op values

theorem flux_injectionFree_iff {v : Value} (hv : IsLiteral v)
    (hun : ∀ s, Occurs s v → Uninterpolated s)
    {op : FluxOp} (hop : Membership op) {field : Str} {values : List Str} (hne : values ≠ [])
    (hfield : Uninterpolated field) (hvalues : ∀ x ∈ values, Uninterpolated x) :
    InjectionFree E v field op values ↔
      (∀ s, Occurs s v → '\\' ∉ s) ∧ '\\' ∉ field ∧ ∀ x ∈ values, '\\' ∉ x := by
  rw [InjectionFree, reads_iff E hv hun, means_iff_no_backslash E hop hne hfield hvalues]

def standardTable (c : Char) : Option Char :=
  if c = 'n' then some '\n' else if c = 'r' then some '\r' else if c = 't' then some '\t'
  else if c = '"' ∨ c = '\\' ∨ c = '$' then some c else none

def standard : Escapes := ⟨standardTable, rfl, rfl⟩

def tagged : Value := .list [.string "a\"b".toList, .int (-1), .list [.bool true]]

theorem tagged_isLiteral : IsLiteral tagged := by
  refine .list ?_
  simp only [List.mem_cons, List.not_mem_nil, or_false]
  rintro v (rfl | rfl | rfl)
  · exact .string _
  · exact .int _
  · refine .list fun v hv => ?_
    rw [List.mem_singleton.mp hv]
    exact .bool true

theorem occurs_tagged {s : Str} (h : Occurs s tagged) : s = "a\"b".toList := by
  cases h with
  | inside hv h =>
    simp only [List.mem_cons, List.not_mem_nil, or_false] at hv
    obtain rfl | rfl | rfl := hv
    · cases h
      rfl
    · cases h
    · cases h with
      | inside hv h =>
        rw [List.mem_singleton.mp hv] at h
        cases h

theorem flux_injectionFree_iff_tagged :
    InjectionFree standard tagged "_field".toList .unequal
      ["x, y".toList, "say \"hi\"".toList] := by
  refine (flux_injectionFree_iff standard tagged_isLiteral ?_ (.inr rfl) (List.cons_ne_nil _ _) ?_
    ?_).mpr ⟨?_, by decide, by decide⟩
  · intro s hs
    rw [occurs_tagged hs, Uninterpolated]
    decide
  · unfold Uninterpolated
    decide
  · unfold Uninterpolated
    decide
  · intro s hs
    rw [occurs_tagged hs]
    decide

theorem windowsPath_not_injectionFree :
    ¬InjectionFree standard (.string "C:\\temp".toList) "path".toList .equal
      ["C:\\temp".toList] := by
  rintro ⟨⟨text, htext, hlex⟩, -⟩
  cases htext
  exact absurd hlex (by decide)

end Isz.Grafana.Flux

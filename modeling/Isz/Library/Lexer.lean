import Isz.Library.Text

namespace Lexer

inductive Token where
  | quoted (mark : Char) (text : Str)
  | number (n : Nat)
  | word (text : Str)
  | symbol (text : Str)
deriving DecidableEq

def isSpace (c : Char) : Bool := c == ' ' || c == '\n' || c == '\t' || c == '\r'

def isLetter (c : Char) : Bool := c.isAlpha || c == '_'

def isWordChar (c : Char) : Bool := c.isAlphanum || c == '_'

def continues (c : Char) : Bool := isWordChar c || c == '.'

-- `body` reads what follows an opening mark, up to and with the closing one
structure Lexicon where
  body : Char → Option (Str → Option (Str × Str))
  body_word : ∀ {c}, isWordChar c → body c = none
  body_le : ∀ {c read s t r}, body c = some read → read s = some (t, r) → r.length ≤ s.length
  symbols : List Str
  symbols_ne : [] ∉ symbols
  fold : Char → Char

namespace Lexicon

variable (L : Lexicon)

def token : Str → Option (Token × Str)
  | [] => none
  | c :: s =>
    match L.body c with
    | some read => (read s).map fun r => (.quoted c r.1, r.2)
    | none =>
      if c.isDigit then
        if ((c :: s).dropWhile Char.isDigit).head?.any continues then none
        else some (.number (Nat.ofDigitChars 10 ((c :: s).takeWhile Char.isDigit) 0),
          (c :: s).dropWhile Char.isDigit)
      else if isLetter c then
        some (.word (((c :: s).takeWhile isWordChar).map L.fold), (c :: s).dropWhile isWordChar)
      else (L.symbols.find? (·.isPrefixOf (c :: s))).map fun t =>
        (.symbol t, (c :: s).drop t.length)

def lexWith : Nat → Str → Option (List Token)
  | _, [] => some []
  | 0, _ :: _ => none
  | n + 1, c :: s =>
    if isSpace c then lexWith n s
    else (L.token (c :: s)).bind fun r => (lexWith n r.2).map (r.1 :: ·)

def lex (s : Str) : Option (List Token) := L.lexWith s.length s

variable {L}

theorem length_dropWhile_lt {p : Char → Bool} {c : Char} {s : Str} (hc : p c) :
    ((c :: s).dropWhile p).length < (c :: s).length := by
  rw [List.dropWhile_cons_of_pos hc]
  exact Nat.lt_succ_of_le (List.dropWhile_suffix p).length_le

theorem isWordChar_of_isLetter {c : Char} (h : isLetter c) : isWordChar c := by
  simp only [isLetter, isWordChar, Char.isAlphanum, Bool.or_eq_true] at h ⊢
  tauto

theorem token_lt {s r : Str} {t : Token} (h : L.token s = some (t, r)) : r.length < s.length := by
  cases s with
  | nil => cases h
  | cons c s =>
    rw [token] at h
    split at h
    next read hread =>
      obtain ⟨x, hx, heq⟩ := Option.map_eq_some_iff.mp h
      rw [← (Prod.mk.inj heq).2]
      exact Nat.lt_succ_of_le (L.body_le hread hx)
    next =>
      split_ifs at h with hdigit hnext hletter
      · rw [← (Prod.mk.inj (Option.some.inj h)).2]
        exact length_dropWhile_lt hdigit
      · rw [← (Prod.mk.inj (Option.some.inj h)).2]
        exact length_dropWhile_lt (isWordChar_of_isLetter hletter)
      · obtain ⟨t', ht, heq⟩ := Option.map_eq_some_iff.mp h
        have hne : t' ≠ [] := fun hnil =>
          L.symbols_ne (hnil ▸ List.mem_of_find?_eq_some ht)
        rw [← (Prod.mk.inj heq).2, List.length_drop]
        have := List.length_pos_iff.mpr hne
        simp only [List.length_cons]
        omega

theorem lexWith_enough {n m : Nat} {s : Str} (hn : s.length ≤ n) (hm : s.length ≤ m) :
    L.lexWith n s = L.lexWith m s := by
  induction n generalizing m s with
  | zero =>
    rw [List.eq_nil_of_length_eq_zero (Nat.le_zero.mp hn)]
    cases m <;> rfl
  | succ n ih =>
    cases s with
    | nil => cases m <;> rfl
    | cons c s =>
      cases m with
      | zero => cases hm
      | succ m =>
        simp only [List.length_cons, Nat.add_le_add_iff_right] at hn hm
        rw [lexWith, lexWith, ih hn hm]
        split_ifs
        · rfl
        · refine Option.bind_congr fun r hr => ?_
          have := token_lt (t := r.1) (r := r.2) hr
          simp only [List.length_cons] at this
          rw [ih (s := r.2) (m := m) (by omega) (by omega)]

@[simp] theorem lex_nil : L.lex [] = some [] := rfl

theorem lex_space {c : Char} {s : Str} (hc : isSpace c) : L.lex (c :: s) = L.lex s := by
  rw [lex, List.length_cons, lexWith, if_pos hc, lex]

theorem lex_token {c : Char} {s : Str} (hc : isSpace c = false) :
    L.lex (c :: s) = (L.token (c :: s)).bind fun r => (L.lex r.2).map (r.1 :: ·) := by
  rw [lex, List.length_cons, lexWith, if_neg (by simp [hc])]
  refine Option.bind_congr fun r hr => ?_
  have := token_lt (t := r.1) (r := r.2) hr
  rw [lex, lexWith_enough (Nat.lt_succ_iff.mp this) le_rfl]

theorem lex_of_token {c : Char} {s r : Str} {t : Token} (hc : isSpace c = false)
    (h : L.token (c :: s) = some (t, r)) : L.lex (c :: s) = (L.lex r).map (t :: ·) := by
  rw [lex_token hc, h, Option.bind_some]

theorem lex_quoted {c : Char} {s : Str} {read : Str → Option (Str × Str)}
    (hc : isSpace c = false) (hread : L.body c = some read) :
    L.lex (c :: s) = (read s).bind fun r => (L.lex r.2).map (.quoted c r.1 :: ·) := by
  rw [lex_token hc]
  simp only [token, hread]
  cases read s <;> rfl

variable (L) in
def Boundary (rest : Str) : Prop := ∀ c ∈ rest.head?, continues c = false ∧ L.body c = none

theorem boundary_nil : L.Boundary [] := fun _ hc => by cases hc

theorem boundary_cons {c : Char} {s : Str} (hc : continues c = false) (hbody : L.body c = none) :
    L.Boundary (c :: s) := by
  intro c' hc'
  cases hc'
  exact ⟨hc, hbody⟩

theorem takeWhile_boundary {p : Char → Bool} {w rest : Str} (hw : ∀ c ∈ w, p c)
    (hrest : ∀ c ∈ rest.head?, p c = false) :
    (w ++ rest).takeWhile p = w ∧ (w ++ rest).dropWhile p = rest := by
  have hstop : rest.takeWhile p = [] ∧ rest.dropWhile p = rest := by
    cases rest with
    | nil => exact ⟨rfl, rfl⟩
    | cons c rest => simp [hrest c rfl]
  rw [List.takeWhile_append_of_pos hw, List.dropWhile_append_of_pos hw, hstop.1, hstop.2,
    List.append_nil]
  exact ⟨rfl, rfl⟩

variable (L) in
def Exact (text : Str) (tokens : List Token) (P : Prop) : Prop :=
  ∀ rest ts, L.Boundary rest →
    (L.lex (text ++ rest) = some (tokens ++ ts) ↔ P ∧ L.lex rest = some ts)

theorem exact_of_lex {text : Str} {tokens : List Token}
    (h : ∀ rest, L.Boundary rest → L.lex (text ++ rest) = (L.lex rest).map (tokens ++ ·)) :
    L.Exact text tokens True := by
  intro rest ts hrest
  rw [h rest hrest, true_and]
  cases L.lex rest <;> simp

theorem Exact.lex_iff {text : Str} {tokens : List Token} {P : Prop} (h : L.Exact text tokens P) :
    L.lex text = some tokens ↔ P := by
  have := h [] [] boundary_nil
  simpa using this

theorem Exact.congr {text : Str} {tokens : List Token} {P Q : Prop} (h : L.Exact text tokens P)
    (hiff : P ↔ Q) : L.Exact text tokens Q := by
  intro rest ts hrest
  rw [h rest ts hrest, hiff]

theorem exact_nil : L.Exact [] [] True := fun rest ts _ => by simp

theorem Exact.append {t₁ t₂ : Str} {k₁ k₂ : List Token} {P₁ P₂ : Prop} (h₁ : L.Exact t₁ k₁ P₁)
    (h₂ : L.Exact t₂ k₂ P₂) (hbound : ∀ rest, L.Boundary rest → L.Boundary (t₂ ++ rest)) :
    L.Exact (t₁ ++ t₂) (k₁ ++ k₂) (P₁ ∧ P₂) := by
  intro rest ts hrest
  rw [List.append_assoc, List.append_assoc, h₁ _ _ (hbound rest hrest), h₂ rest ts hrest, and_assoc]

variable (L) in
def Opens (text : Str) (tokens : List Token) : Prop :=
  ∀ s, L.lex (text ++ s) = (L.lex s).map (tokens ++ ·)

theorem Opens.toExact {text : Str} {tokens : List Token} (h : L.Opens text tokens) :
    L.Exact text tokens True := exact_of_lex fun rest _ => h rest

theorem Opens.append {t₁ t₂ : Str} {k₁ k₂ : List Token} (h₁ : L.Opens t₁ k₁) (h₂ : L.Opens t₂ k₂) :
    L.Opens (t₁ ++ t₂) (k₁ ++ k₂) := by
  intro s
  rw [List.append_assoc, h₁, h₂, Option.map_map]
  simp [Function.comp_def]

theorem Opens.exact {t₁ t₂ : Str} {k₁ k₂ : List Token} {P : Prop} (h₁ : L.Opens t₁ k₁)
    (h₂ : L.Exact t₂ k₂ P) : L.Exact (t₁ ++ t₂) (k₁ ++ k₂) P := by
  intro rest ts hrest
  rw [← h₂ rest ts hrest, List.append_assoc, h₁, List.append_assoc]
  cases L.lex (t₂ ++ rest) <;> simp

variable (L) in
structure Separator (sep : Str) (t : Token) : Prop where
  opens : L.Opens sep [t]
  boundary : ∀ s, L.Boundary (sep ++ s)

theorem Exact.intercalate {α : Type} {f : α → Str} {g : α → List Token} {P : α → Prop} {sep : Str}
    {t : Token} (hsep : L.Separator sep t) {l : List α} (h : ∀ a ∈ l, L.Exact (f a) (g a) (P a)) :
    L.Exact (concatStringsSep sep (l.map f)) ([t].intercalate (l.map g)) (∀ a ∈ l, P a) := by
  induction l with
  | nil => simpa [concatStringsSep, List.intercalate] using exact_nil
  | cons a l ih =>
    cases l with
    | nil => simpa [concatStringsSep, List.intercalate] using h a
    | cons b l =>
      have htail := hsep.opens.exact (ih fun c hc => h c (List.mem_cons_of_mem a hc))
      have := (h a List.mem_cons_self).append htail fun rest _ => by
        rw [List.append_assoc]
        exact hsep.boundary _
      refine Exact.congr ?_ (List.forall_mem_cons (p := P)).symm
      simpa [concatStringsSep, List.intercalate] using this

theorem isSpace_of_isWordChar {c : Char} (h : isWordChar c) : isSpace c = false := by
  by_contra hspace
  simp only [isSpace, Bool.not_eq_false, Bool.or_eq_true, beq_iff_eq] at hspace
  obtain ((rfl | rfl) | rfl) | rfl := hspace <;> cases h

theorem lex_word {c : Char} {w rest : Str} (hdigit : c.isDigit = false) (hletter : isLetter c)
    (hw : (c :: w).all isWordChar) (hrest : L.Boundary rest) :
    L.lex (c :: w ++ rest) = (L.lex rest).map (.word ((c :: w).map L.fold) :: ·) := by
  have hword := isWordChar_of_isLetter hletter
  have hstop : ∀ x ∈ rest.head?, isWordChar x = false := fun x hx => by
    have := (hrest x hx).1
    rw [continues, Bool.or_eq_false_iff] at this
    exact this.1
  obtain ⟨htake, hdrop⟩ := takeWhile_boundary (List.all_eq_true.mp hw) hstop
  rw [List.cons_append] at htake hdrop ⊢
  refine lex_of_token (isSpace_of_isWordChar hword) ?_
  simp only [token, L.body_word hword, hdigit, Bool.false_eq_true, if_false, if_pos hletter]
  rw [htake, hdrop]

theorem exact_word {c : Char} {w : Str} (hdigit : c.isDigit = false) (hletter : isLetter c)
    (hw : (c :: w).all isWordChar) :
    L.Exact (c :: w) [.word ((c :: w).map L.fold)] True :=
  exact_of_lex fun _ hrest => lex_word hdigit hletter hw hrest

theorem Opens.word {c : Char} {w t : Str} {tokens : List Token} (hdigit : c.isDigit = false)
    (hletter : isLetter c) (hw : (c :: w).all isWordChar) (h : L.Opens t tokens)
    (hbound : ∀ s, L.Boundary (t ++ s)) :
    L.Opens (c :: w ++ t) (.word ((c :: w).map L.fold) :: tokens) := by
  intro s
  rw [List.append_assoc, lex_word hdigit hletter hw (hbound s), h, Option.map_map]
  rfl

theorem opens_space : L.Opens [' '] [] := fun s => by
  rw [List.singleton_append, lex_space rfl]
  simp

theorem opens_symbol {c : Char} {w : Str} (hspace : isSpace c = false) (hbody : L.body c = none)
    (hdigit : c.isDigit = false) (hletter : isLetter c = false)
    (hfind : ∀ s, L.symbols.find? (·.isPrefixOf (c :: (w ++ s))) = some (c :: w)) :
    L.Opens (c :: w) [.symbol (c :: w)] := by
  intro s
  rw [List.cons_append]
  refine lex_of_token hspace ?_
  simp only [token, hbody, hdigit, Bool.false_eq_true, if_false, hletter]
  rw [hfind s, Option.map_some, ← List.cons_append, List.drop_left]

theorem exact_number (n : Nat) : L.Exact (Nat.toDigits 10 n) [.number n] True := by
  have hdigits : ∀ c ∈ Nat.toDigits 10 n, c.isDigit := fun c hc =>
    Nat.isDigit_of_mem_toDigits (by decide) (by decide) hc
  have hvalue := Nat.ofDigitChars_ten_toDigits (n := n)
  obtain ⟨c, ds, hds⟩ := List.exists_cons_of_ne_nil (Nat.toDigits_ne_nil (n := n) (b := 10))
  rw [hds] at hdigits hvalue ⊢
  have hc : c.isDigit := hdigits c List.mem_cons_self
  have hword : isWordChar c := by simp [isWordChar, Char.isAlphanum, hc]
  refine exact_of_lex fun rest hrest => ?_
  have hstop : ∀ x ∈ rest.head?, x.isDigit = false := fun x hx => by
    have := (hrest x hx).1
    simp only [continues, isWordChar, Char.isAlphanum, Bool.or_eq_false_iff] at this
    exact this.1.1.2
  obtain ⟨htake, hdrop⟩ := takeWhile_boundary hdigits hstop
  rw [List.cons_append] at htake hdrop ⊢
  refine lex_of_token (isSpace_of_isWordChar hword) ?_
  have hnext : rest.head?.any continues = false := by
    cases hhead : rest.head? with
    | none => rfl
    | some x => exact (hrest x hhead).1
  simp only [token, L.body_word hword, hc, if_true, htake, hdrop, hnext, Bool.false_eq_true,
    if_false, hvalue]

variable (L) in
def Foreign (c : Char) : Prop :=
  isSpace c = false ∧ continues c = false ∧ ∀ t ∈ L.symbols, c ∉ t

theorem span_break {p : Char → Bool} {w s : Str} {c : Char} (hc : p c = false) :
    (w ++ c :: s).dropWhile p = w.dropWhile p ++ c :: s := by
  induction w with
  | nil => simp [hc]
  | cons x w ih => by_cases hx : p x <;> simp [hx, ih]

theorem prefix_break {t w s : Str} {c : Char} (hc : c ∉ t) (h : t.isPrefixOf (w ++ c :: s)) :
    (w ++ c :: s).drop t.length = w.drop t.length ++ c :: s := by
  have hle : t.length ≤ w.length := by
    by_contra hlt
    have hpre := List.isPrefixOf_iff_prefix.mp h
    have hmem : (w ++ c :: s)[w.length]? = some c := by simp
    rw [List.prefix_iff_eq_take] at hpre
    refine hc (hpre ▸ List.mem_of_getElem? (i := w.length) ?_)
    rw [List.getElem?_take_of_lt (by omega), hmem]
  rw [List.drop_append_of_le_length hle]

theorem token_break {w s r : Str} {x c : Char} {t : Token} (hx : L.body x = none)
    (hc : L.Foreign c) (h : L.token (x :: (w ++ c :: s)) = some (t, r)) :
    ∃ u, u <:+ x :: w ∧ u.length < (x :: w).length ∧ r = u ++ c :: s := by
  obtain ⟨-, hcontinues, hsymbols⟩ := hc
  simp only [continues, isWordChar, Char.isAlphanum, Bool.or_eq_false_iff] at hcontinues
  simp only [token, hx] at h
  split_ifs at h with hdigit hnext hletter
  · rw [← List.cons_append, span_break hcontinues.1.1.2] at h
    exact ⟨_, List.dropWhile_suffix _, length_dropWhile_lt hdigit,
      (Prod.mk.inj (Option.some.inj h)).2.symm⟩
  · rw [← List.cons_append, span_break (by simp [isWordChar, Char.isAlphanum, hcontinues])] at h
    exact ⟨_, List.dropWhile_suffix _, length_dropWhile_lt (isWordChar_of_isLetter hletter),
      (Prod.mk.inj (Option.some.inj h)).2.symm⟩
  · obtain ⟨t', ht, heq⟩ := Option.map_eq_some_iff.mp h
    have hmem := List.mem_of_find?_eq_some ht
    have hpre := List.find?_some ht
    rw [← List.cons_append] at hpre heq
    rw [prefix_break (hsymbols t' hmem) hpre] at heq
    refine ⟨_, List.drop_suffix _ _, ?_, (Prod.mk.inj heq).2.symm⟩
    have hpos : 0 < t'.length := List.length_pos_iff.mpr fun hnil => L.symbols_ne (hnil ▸ hmem)
    rw [List.length_drop, List.length_cons]
    omega

theorem lex_break {w s : Str} {c : Char} (hw : ∀ x ∈ w, L.body x = none) (hc : L.Foreign c)
    (h : L.lex (c :: s) = none) : L.lex (w ++ c :: s) = none := by
  induction hn : w.length using Nat.strong_induction_on generalizing w with
  | _ n ih =>
    cases w with
    | nil => exact h
    | cons x w =>
      have hrest : ∀ u, u <:+ x :: w → u.length < (x :: w).length → L.lex (u ++ c :: s) = none :=
        fun u hu hlt => ih u.length (hn ▸ hlt) (fun y hy => hw y (hu.subset hy)) rfl
      rw [List.cons_append]
      cases hspace : isSpace x with
      | true =>
        rw [lex_space hspace]
        exact hrest w (List.suffix_cons x w) (Nat.lt_succ_self _)
      | false =>
        rw [lex_token hspace]
        refine Option.bind_eq_none_iff.mpr fun r hr => ?_
        obtain ⟨u, hu, hlt, heq⟩ :=
          token_break (t := r.1) (r := r.2) (hw x List.mem_cons_self) hc hr
        rw [heq, hrest u hu hlt, Option.map_none]

end Lexicon

end Lexer

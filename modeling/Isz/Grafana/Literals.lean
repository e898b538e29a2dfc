import Isz.Grafana.Rendering
import Isz.Library.Lexer

namespace Isz.Grafana

open Lexer Lexicon Except

def integer : Int → List Token
  | .ofNat n => [.number n]
  | .negSucc n => [.symbol ['-'], .number (n + 1)]

structure Dialect where
  mark : Char
  opening : Str
  closing : Str

mutual

def literal (D : Dialect) : Value → List Token
  | .string s => [.quoted D.mark s]
  | .int n => integer n
  | .bool b => [.word (boolToString b)]
  | .list vs => .symbol D.opening ::
      ([.symbol [',']].intercalate (literals D vs) ++ [.symbol D.closing])
  | .null | .float _ | .literalExpression _ | .other => []

def literals (D : Dialect) : List Value → List (List Token)
  | [] => []
  | v :: vs => literal D v :: literals D vs

end

theorem literals_eq_map (D : Dialect) (vs : List Value) : literals D vs = vs.map (literal D) := by
  induction vs with
  | nil => rfl
  | cons v vs ih => rw [literals, ih, List.map_cons]

theorem exact_int {L : Lexicon}
    (hminus : ∀ {c : Char} (s : Str), c.isDigit →
      L.lex ('-' :: c :: s) = (L.lex (c :: s)).map (.symbol ['-'] :: ·))
    (n : Int) : L.Exact (intToString n) (integer n) True := by
  cases n with
  | ofNat n => exact exact_number n
  | negSucc n =>
    intro rest ts hrest
    obtain ⟨c, ds, hds⟩ := List.exists_cons_of_ne_nil (Nat.toDigits_ne_nil (n := n + 1) (b := 10))
    have hc : c.isDigit := Nat.isDigit_of_mem_toDigits (by decide) (by decide)
      (hds ▸ List.mem_cons_self)
    have hnumber := exact_number (n + 1) rest ts hrest
    rw [← hnumber, intToString, integer, hds, List.cons_append, List.cons_append, hminus _ hc]
    cases L.lex (c :: (ds ++ rest)) <;> simp

theorem exact_bool {L : Lexicon} {b : Bool}
    (hfold : (boolToString b).map L.fold = boolToString b) :
    L.Exact (boolToString b) [.word (boolToString b)] True := by
  have hword : L.Exact (boolToString b) [.word ((boolToString b).map L.fold)] True := by
    cases b with
    | false => exact exact_word rfl rfl rfl
    | true => exact exact_word rfl rfl rfl
  rwa [hfold] at hword

def fluxText (v : Value) : Str := (fluxValue v).toOption.getD []

theorem fluxValue_eq {v : Value} (hv : IsLiteral v) : fluxValue v = ok (fluxText v) := by
  induction hv with
  | string | int | bool => rfl
  | @list vs h ih => rw [fluxText, fluxValue, fluxValues_ok ih]; rfl

theorem fluxText_list {vs : List Value} (h : ∀ v ∈ vs, IsLiteral v) :
    fluxText (.list vs) = '[' :: (concatStringsSep ", ".toList (vs.map fluxText) ++ [']']) := by
  rw [fluxText, fluxValue, fluxValues_ok fun v hv => fluxValue_eq (h v hv)]
  rfl

end Isz.Grafana

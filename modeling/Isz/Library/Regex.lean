import Isz.Library.Text
import Mathlib.Logic.Function.Basic

-- Python's re: greedy, backtracking, the first match in order of preference
inductive Regex (κ : Type) where
  | set (p : Char → Bool)
  | many (p : Char → Bool) (lo : Nat) (hi : Option Nat)
  | seq (a b : Regex κ)
  | alt (a b : Regex κ)
  | opt (a : Regex κ)
  | group (name : κ) (a : Regex κ)
  | stop

namespace Regex

variable {κ : Type}

abbrev Captures (κ : Type) := κ → Option Str

def literal : Str → Regex κ
  | [] => many (fun _ => false) 0 none
  | c :: s => seq (set (· == c)) (literal s)

-- how many characters a greedy repetition takes, the most first
def lengths (p : Char → Bool) (lo : Nat) (hi : Option Nat) (s : Str) : List Nat :=
  let most := match hi with
    | none => (s.takeWhile p).length
    | some hi => min hi (s.takeWhile p).length
  ((List.range (most + 1)).filter (lo ≤ ·)).reverse

-- `stop` is $ without MULTILINE: the end, or before a last newline
def run [DecidableEq κ] : Regex κ → Captures κ → Str → List (Captures κ × Str)
  | set _, _, [] => []
  | set p, caps, c :: s => if p c then [(caps, s)] else []
  | many p lo hi, caps, s => (lengths p lo hi s).map fun n => (caps, s.drop n)
  | seq a b, caps, s => (a.run caps s).flatMap fun (caps, s) => b.run caps s
  | alt a b, caps, s => a.run caps s ++ b.run caps s
  | opt a, caps, s => a.run caps s ++ [(caps, s)]
  | group name a, caps, s => (a.run caps s).map fun (caps, rest) =>
      (Function.update caps name (some (s.take (s.length - rest.length))), rest)
  | stop, caps, s => if s = [] ∨ s = ['\n'] then [(caps, s)] else []

def firstMatch [DecidableEq κ] (r : Regex κ) (s : Str) : Option (Captures κ) :=
  (r.run (fun _ => none) s).head?.map Prod.fst

def Accepts : Regex κ → Str → Prop
  | set p, t => ∃ c, p c ∧ t = [c]
  | many p lo hi, t => (∀ c ∈ t, p c) ∧ lo ≤ t.length ∧ ∀ n ∈ hi, t.length ≤ n
  | seq a b, t => ∃ u v, t = u ++ v ∧ a.Accepts u ∧ b.Accepts v
  | alt a b, t => a.Accepts t ∨ b.Accepts t
  | opt a, t => a.Accepts t ∨ t = []
  | group _ a, t => a.Accepts t
  | stop, t => t = []

def groups : Regex κ → List (κ × Regex κ)
  | set _ | many _ _ _ | stop => []
  | seq a b | alt a b => a.groups ++ b.groups
  | opt a => a.groups
  | group name a => (name, a) :: a.groups

theorem mem_lengths {p : Char → Bool} {lo : Nat} {hi : Option Nat} {s : Str} {n : Nat} :
    n ∈ lengths p lo hi s ↔ lo ≤ n ∧ n ≤ (s.takeWhile p).length ∧ ∀ m ∈ hi, n ≤ m := by
  cases hi with
  | none =>
    simp [lengths]
    omega
  | some hi =>
    simp [lengths]
    omega

theorem take_all {p : Char → Bool} {s : Str} {n : Nat} (hn : n ≤ (s.takeWhile p).length) :
    ∀ c ∈ s.take n, p c := by
  intro c hc
  have hsub : s.take n <+: s.takeWhile p :=
    List.prefix_of_prefix_length_le (List.take_prefix n s) (List.takeWhile_prefix p)
      (by rw [List.length_take]; omega)
  exact List.all_eq_true.mp (List.all_takeWhile (p := p) (l := s)) c (hsub.subset hc)

variable [DecidableEq κ]

theorem run_set (p : Char → Bool) (caps : Captures κ) (c : Char) (s : Str) :
    (set p).run caps (c :: s) = if p c then [(caps, s)] else [] := rfl

theorem run_many (p : Char → Bool) (lo : Nat) (hi : Option Nat) (caps : Captures κ) (s : Str) :
    (many p lo hi).run caps s = (lengths p lo hi s).map fun n => (caps, s.drop n) := rfl

theorem run_seq (a b : Regex κ) (caps : Captures κ) (s : Str) :
    (seq a b).run caps s = (a.run caps s).flatMap fun x => b.run x.1 x.2 := rfl

theorem run_alt (a b : Regex κ) (caps : Captures κ) (s : Str) :
    (alt a b).run caps s = a.run caps s ++ b.run caps s := rfl

theorem run_opt (a : Regex κ) (caps : Captures κ) (s : Str) :
    (opt a).run caps s = a.run caps s ++ [(caps, s)] := rfl

theorem run_group (name : κ) (a : Regex κ) (caps : Captures κ) (s : Str) :
    (group name a).run caps s = (a.run caps s).map fun x =>
      (Function.update x.1 name (some (s.take (s.length - x.2.length))), x.2) := rfl

theorem run_stop (caps : Captures κ) (s : Str) :
    (stop : Regex κ).run caps s = if s = [] ∨ s = ['\n'] then [(caps, s)] else [] := rfl

theorem run_accepts {r : Regex κ} {caps caps' : Captures κ} {s rest : Str}
    (h : (caps', rest) ∈ r.run caps s) : ∃ t, s = t ++ rest ∧ r.Accepts t := by
  induction r generalizing caps caps' s rest with
  | set p =>
    cases s with
    | nil => cases h
    | cons c s =>
      rw [run_set] at h
      split at h
      case isTrue hp =>
        obtain ⟨rfl, rfl⟩ := Prod.mk.inj (List.mem_singleton.mp h)
        exact ⟨[c], rfl, c, hp, rfl⟩
      case isFalse => cases h
  | many p lo hi =>
    obtain ⟨n, hn, heq⟩ := List.mem_map.mp h
    obtain ⟨rfl, rfl⟩ := Prod.mk.inj heq
    obtain ⟨hlo, htake, hhi⟩ := mem_lengths.mp hn
    have hlength : (s.take n).length = n := by
      have := (List.takeWhile_prefix p (l := s)).length_le
      rw [List.length_take]
      omega
    exact ⟨s.take n, (List.take_append_drop n s).symm, take_all htake, by omega,
      fun m hm => by have := hhi m hm; omega⟩
  | seq a b iha ihb =>
    obtain ⟨⟨caps₁, s₁⟩, ha, hb⟩ := List.mem_flatMap.mp h
    obtain ⟨u, rfl, hu⟩ := iha ha
    obtain ⟨v, rfl, hv⟩ := ihb hb
    exact ⟨u ++ v, (List.append_assoc u v rest).symm, u, v, rfl, hu, hv⟩
  | alt a b iha ihb =>
    rcases List.mem_append.mp h with ha | hb
    · obtain ⟨t, hs, ht⟩ := iha ha
      exact ⟨t, hs, .inl ht⟩
    · obtain ⟨t, hs, ht⟩ := ihb hb
      exact ⟨t, hs, .inr ht⟩
  | opt a ih =>
    rcases List.mem_append.mp h with ha | hskip
    · obtain ⟨t, hs, ht⟩ := ih ha
      exact ⟨t, hs, .inl ht⟩
    · obtain ⟨rfl, rfl⟩ := Prod.mk.inj (List.mem_singleton.mp hskip)
      exact ⟨[], rfl, .inr rfl⟩
  | group name a ih =>
    obtain ⟨⟨caps₁, s₁⟩, ha, heq⟩ := List.mem_map.mp h
    obtain ⟨-, rfl⟩ := Prod.mk.inj heq
    exact ih ha
  | stop =>
    rw [run_stop] at h
    split at h
    case isTrue =>
      obtain ⟨rfl, rfl⟩ := Prod.mk.inj (List.mem_singleton.mp h)
      exact ⟨[], rfl, rfl⟩
    case isFalse => cases h

theorem run_captures {r : Regex κ} {caps caps' : Captures κ} {s rest : Str}
    (h : (caps', rest) ∈ r.run caps s) {k : κ} {t : Str} (hk : caps' k = some t) :
    caps k = some t ∨ ∃ a, (k, a) ∈ r.groups ∧ a.Accepts t := by
  induction r generalizing caps caps' s rest with
  | set p =>
    cases s with
    | nil => cases h
    | cons c s =>
      rw [run_set] at h
      split at h
      case isTrue =>
        obtain ⟨rfl, rfl⟩ := Prod.mk.inj (List.mem_singleton.mp h)
        exact .inl hk
      case isFalse => cases h
  | many p lo hi =>
    obtain ⟨n, -, heq⟩ := List.mem_map.mp h
    obtain ⟨rfl, rfl⟩ := Prod.mk.inj heq
    exact .inl hk
  | seq a b iha ihb =>
    obtain ⟨⟨caps₁, s₁⟩, ha, hb⟩ := List.mem_flatMap.mp h
    rcases ihb hb hk with hbefore | ⟨g, hg, ht⟩
    · rcases iha ha hbefore with hbefore | ⟨g, hg, ht⟩
      · exact .inl hbefore
      · exact .inr ⟨g, List.mem_append_left _ hg, ht⟩
    · exact .inr ⟨g, List.mem_append_right _ hg, ht⟩
  | alt a b iha ihb =>
    rcases List.mem_append.mp h with ha | hb
    · rcases iha ha hk with hbefore | ⟨g, hg, ht⟩
      · exact .inl hbefore
      · exact .inr ⟨g, List.mem_append_left _ hg, ht⟩
    · rcases ihb hb hk with hbefore | ⟨g, hg, ht⟩
      · exact .inl hbefore
      · exact .inr ⟨g, List.mem_append_right _ hg, ht⟩
  | opt a ih =>
    rcases List.mem_append.mp h with ha | hskip
    · exact ih ha hk
    · obtain ⟨rfl, rfl⟩ := Prod.mk.inj (List.mem_singleton.mp hskip)
      exact .inl hk
  | group name a ih =>
    obtain ⟨⟨caps₁, s₁⟩, ha, heq⟩ := List.mem_map.mp h
    obtain ⟨rfl, rfl⟩ := Prod.mk.inj heq
    rcases eq_or_ne k name with rfl | hne
    · obtain ⟨u, rfl, hu⟩ := run_accepts ha
      rw [Function.update_self, List.length_append, Nat.add_sub_cancel, List.take_left] at hk
      obtain rfl := Option.some.inj hk
      exact .inr ⟨a, List.mem_cons_self, hu⟩
    · rw [Function.update_of_ne hne] at hk
      rcases ih ha hk with hbefore | ⟨g, hg, ht⟩
      · exact .inl hbefore
      · exact .inr ⟨g, List.mem_cons_of_mem _ hg, ht⟩
  | stop =>
    rw [run_stop] at h
    split at h
    case isTrue =>
      obtain ⟨rfl, rfl⟩ := Prod.mk.inj (List.mem_singleton.mp h)
      exact .inl hk
    case isFalse => cases h

theorem firstMatch_captures {r : Regex κ} {s : Str} {caps : Captures κ}
    (h : r.firstMatch s = some caps)
    {k : κ} {t : Str} (hk : caps k = some t) : ∃ a, (k, a) ∈ r.groups ∧ a.Accepts t := by
  obtain ⟨⟨caps', rest⟩, hhead, rfl⟩ := Option.map_eq_some_iff.mp h
  rcases run_captures (List.mem_of_mem_head? hhead) hk with hnone | hgroup
  · cases hnone
  · exact hgroup

def First (r : Regex κ) (caps : Captures κ) (s : Str) (caps' : Captures κ) (rest : Str) : Prop :=
  (r.run caps s).head? = some (caps', rest)

section First

variable {a b : Regex κ} {caps caps₁ caps₂ : Captures κ} {s s₁ s₂ : Str}

theorem First.firstMatch (h : a.First (fun _ => none) s caps s₁) : a.firstMatch s = some caps := by
  rw [Regex.firstMatch, h]
  rfl

theorem First.seq (ha : a.First caps s caps₁ s₁) (hb : b.First caps₁ s₁ caps₂ s₂) :
    (seq a b).First caps s caps₂ s₂ := by
  obtain ⟨l, hl⟩ := List.head?_eq_some_iff.mp ha
  rw [First, run_seq, List.head?_flatMap, hl, List.findSome?_cons, hb]

theorem run_seq_nil (h : a.run caps s = []) : (Regex.seq a b).run caps s = [] := by
  rw [run_seq, h, List.flatMap_nil]

theorem First.opt (h : a.First caps s caps₁ s₁) : (opt a).First caps s caps₁ s₁ := by
  rw [First, run_opt, List.head?_append, h, Option.some_or]

theorem First.skip (h : a.run caps s = []) : (Regex.opt a).First caps s caps s := by
  rw [First, run_opt, h]
  rfl

theorem First.alt_right (ha : a.run caps s = []) (hb : b.First caps s caps₁ s₁) :
    (alt a b).First caps s caps₁ s₁ := by
  rw [First, run_alt, ha, List.nil_append]
  exact hb

theorem First.stop : (stop : Regex κ).First caps [] caps [] := rfl

end First

theorem lengths_most {p : Char → Bool} {lo : Nat} {s : Str} (h : lo ≤ (s.takeWhile p).length) :
    ∃ l, lengths p lo none s = (s.takeWhile p).length :: l ∧
      ∀ n ∈ l, n < (s.takeWhile p).length := by
  refine ⟨((List.range (s.takeWhile p).length).filter (lo ≤ ·)).reverse, ?_, by simp; omega⟩
  simp [lengths, List.range_succ, List.filter_append, h]

theorem takeWhile_run {p : Char → Bool} {d rest : Str} (hd : ∀ c ∈ d, p c)
    (hrest : ∀ c ∈ rest.head?, p c = false) : (d ++ rest).takeWhile p = d := by
  rw [List.takeWhile_append_of_pos hd]
  cases rest with
  | nil => simp
  | cons c rest => simp [hrest c rfl]

theorem run_many_nil {p : Char → Bool} {lo : Nat} {hi : Option Nat} {r : Regex κ}
    {caps : Captures κ} {s : Str}
    (h : ∀ n ≤ (s.takeWhile p).length, r.run caps (s.drop n) = []) :
    (seq (many p lo hi) r).run caps s = [] := by
  simp only [run_seq, run_many, List.flatMap_map, List.flatMap_eq_nil_iff]
  exact fun n hn => h n (mem_lengths.mp hn).2.1

theorem run_group_many {p : Char → Bool} {k : κ} {r : Regex κ} (caps : Captures κ) {d rest : Str}
    (hne : d ≠ []) (hd : ∀ c ∈ d, p c) (hrest : ∀ c ∈ rest.head?, p c = false)
    (hfail : ∀ caps c s, p c → r.run caps (c :: s) = []) :
    (seq (group k (many p 1 none)) r).run caps (d ++ rest) =
      r.run (Function.update caps k (some d)) rest := by
  have htake := takeWhile_run hd hrest
  have hpos : 1 ≤ ((d ++ rest).takeWhile p).length := by
    rw [htake]
    exact List.length_pos_iff.mpr hne
  obtain ⟨l, hl, hlt⟩ := lengths_most hpos
  rw [htake] at hl hlt
  have hshort : ∀ n ∈ l, ∀ caps, r.run caps ((d ++ rest).drop n) = [] := by
    intro n hn caps
    have hlt := hlt n hn
    rw [List.drop_append_of_le_length (by omega), List.drop_eq_getElem_cons hlt, List.cons_append]
    exact hfail caps _ _ (hd _ (List.getElem_mem hlt))
  simp only [run_seq, run_group, run_many, hl, List.map_map, List.flatMap_map, List.flatMap_cons,
    Function.comp_apply]
  rw [List.flatMap_eq_nil_iff.mpr fun n hn => hshort n hn _, List.append_nil, List.drop_left,
    List.length_append, Nat.add_sub_cancel, List.take_left]

end Regex

import Isz.Fluke.Pairing
import Isz.Library.Delimited

namespace Isz.Fluke

open Delimited Runs

def delimiter : Str := ['>', '\r', '\n']

theorem delimiter_ne_nil : delimiter ≠ [] := List.cons_ne_nil _ _

-- received, responses and answers are what the calls so far got, extracted and set
structure Fluke45Protocol where
  buf : Str
  pendingResponse : Option Fut
  received : Str
  responses : List Str
  answers : List Answer

def Fluke45Protocol.init : Fluke45Protocol := ⟨[], none, [], [], []⟩

-- set_result and set_exception raise on a future that is done or cancelled
def Raises : Option Fut → Prop
  | none | some .pending => False
  | _ => True

instance : (pending : Option Fut) → Decidable (Raises pending)
  | none | some .pending => .isFalse id
  | some (.done _) | some .cancelled => .isTrue trivial

def Fluke45Protocol.settle (fluke : Fluke45Protocol) (resp : Str) : Fluke45Protocol :=
  match fluke.pendingResponse with
  | some .pending =>
    { fluke with pendingResponse := none, answers := fluke.answers ++ [answer resp] }
  | _ => fluke

def Fluke45Protocol.take (fluke : Fluke45Protocol) (resp rest : Str) : Fluke45Protocol :=
  { fluke with buf := rest, responses := fluke.responses ++ [resp] }.settle resp

@[simp] theorem take_buf (fluke : Fluke45Protocol) (resp rest : Str) :
    (fluke.take resp rest).buf = rest := by
  simp only [Fluke45Protocol.take, Fluke45Protocol.settle]
  split <;> rfl

@[simp] theorem take_responses (fluke : Fluke45Protocol) (resp rest : Str) :
    (fluke.take resp rest).responses = fluke.responses ++ [resp] := by
  simp only [Fluke45Protocol.take, Fluke45Protocol.settle]
  split <;> rfl

@[simp] theorem take_received (fluke : Fluke45Protocol) (resp rest : Str) :
    (fluke.take resp rest).received = fluke.received := by
  simp only [Fluke45Protocol.take, Fluke45Protocol.settle]
  split <;> rfl

def Fluke45Protocol.extract (fluke : Fluke45Protocol) : Fluke45Protocol :=
  match _h : partition delimiter fluke.buf with
  | none => fluke
  | some (resp, rest) =>
    if Raises fluke.pendingResponse then fluke.take resp rest
    else (fluke.take resp rest).extract
termination_by fluke.buf.length
decreasing_by
  rw [take_buf]
  exact partition_rest_lt delimiter_ne_nil _h

def Fluke45Protocol.dataReceived (fluke : Fluke45Protocol) (data : Str) : Fluke45Protocol :=
  { fluke with buf := fluke.buf ++ data, received := fluke.received ++ data }.extract

-- between two calls the other tasks make, settle and cancel futures
inductive Event where
  | received (data : Str)
  | tasks (pendingResponse : Option Fut)

def Fluke45Protocol.advance (fluke : Fluke45Protocol) : Event → Fluke45Protocol
  | .received data => fluke.dataReceived data
  | .tasks pendingResponse => { fluke with pendingResponse := pendingResponse }

structure Framed (fluke : Fluke45Protocol) : Prop where
  oneCall : fluke.responses = (Fluke45Protocol.init.dataReceived fluke.received).responses ∧
    fluke.buf = (Fluke45Protocol.init.dataReceived fluke.received).buf
  pieces : Framing delimiter fluke.received fluke.responses fluke.buf

def StaysFramed (first : Fluke45Protocol) (events : List Event) : Prop :=
  ∀ fluke ∈ events.scanl Fluke45Protocol.advance first, Framed fluke

def Clear (fluke : Fluke45Protocol) : Event → Prop
  | .received data => Raises fluke.pendingResponse →
      ∀ p r, fluke.buf ++ data = p ++ delimiter ++ r → ¬delimiter <:+: r
  | .tasks _ => True

def AllClear : Fluke45Protocol → List Event → Prop := Each Fluke45Protocol.advance Clear

def State.pendingResponse (s : State) : Option Fut := s.slot.map s.fut

theorem dataReceived_settle {s s' : State} {r : Response} {rest : List Response}
    (hfrom : s.fromMeter = r :: rest) (hstep : s.dataReceived = some s') {fluke : Fluke45Protocol}
    (hport : fluke.pendingResponse = s.pendingResponse) :
    (fluke.settle r.resp).pendingResponse = s'.pendingResponse := by
  simp only [State.dataReceived, hfrom] at hstep
  simp only [Fluke45Protocol.settle, hport]
  cases hslot : s.slot with
  | none =>
    rw [hslot] at hstep
    obtain rfl := Option.some.inj hstep
    simp [State.pendingResponse, hslot, hport]
  | some c =>
    simp only [hslot] at hstep
    cases hfut : s.fut c with
    | pending =>
      rw [hfut] at hstep
      obtain rfl := Option.some.inj hstep
      simp [State.pendingResponse, State.setFut, hslot, hfut]
    | done _ | cancelled =>
      rw [hfut] at hstep
      obtain rfl := Option.some.inj hstep
      simp [State.pendingResponse, hslot, hfut, hport]

section Extract

variable {fluke : Fluke45Protocol}

theorem take_not_raises (h : ¬Raises fluke.pendingResponse) (resp rest : Str) :
    ¬Raises (fluke.take resp rest).pendingResponse := by
  obtain ⟨buf, pending, received, responses, answers⟩ := fluke
  rcases pending with _ | _ | _ | _
  · exact not_false
  · exact not_false
  · exact absurd trivial h
  · exact absurd trivial h

theorem extract_of_none (h : partition delimiter fluke.buf = none) : fluke.extract = fluke := by
  rw [Fluke45Protocol.extract]
  split
  case h_1 => rfl
  case h_2 heq => cases h.symm.trans heq

theorem extract_of_some {resp rest : Str} (h : partition delimiter fluke.buf = some (resp, rest)) :
    fluke.extract = if Raises fluke.pendingResponse then fluke.take resp rest
      else (fluke.take resp rest).extract := by
  rw [Fluke45Protocol.extract]
  split
  case h_1 heq => cases h.symm.trans heq
  case h_2 heq =>
    obtain ⟨rfl, rfl⟩ := Prod.mk.inj (Option.some.inj (h.symm.trans heq))
    rfl

theorem extract_received (fluke : Fluke45Protocol) : fluke.extract.received = fluke.received := by
  induction fluke using Fluke45Protocol.extract.induct with
  | case1 fluke h => rw [extract_of_none h]
  | case2 fluke resp rest h hraises =>
    rw [extract_of_some h, if_pos hraises, take_received]
  | case3 fluke resp rest h hraises ih =>
    rw [extract_of_some h, if_neg hraises, ih, take_received]

theorem extract_framing (h : ¬Raises fluke.pendingResponse) :
    ∃ pieces, fluke.extract.responses = fluke.responses ++ pieces ∧
      Framing delimiter fluke.buf pieces fluke.extract.buf := by
  induction fluke using Fluke45Protocol.extract.induct with
  | case1 fluke hnone =>
    rw [extract_of_none hnone]
    exact ⟨[], (List.append_nil _).symm, .rest_self (partition_none delimiter_ne_nil hnone)⟩
  | case2 fluke resp rest hsome hraises => exact absurd hraises h
  | case3 fluke resp rest hsome hraises ih =>
    obtain ⟨pieces, hresponses, hframing⟩ := ih (take_not_raises h resp rest)
    obtain ⟨hwhole, hleftmost⟩ := partition_some delimiter_ne_nil hsome
    rw [extract_of_some hsome, if_neg hraises]
    refine ⟨resp :: pieces, ?_, ?_⟩
    · rw [hresponses, take_responses, List.append_assoc]
      rfl
    · rw [take_buf] at hframing
      rw [hwhole]
      exact hframing.piece hleftmost

theorem extract_framing_raises (h : Raises fluke.pendingResponse)
    (hclear : ∀ p r, fluke.buf = p ++ delimiter ++ r → ¬delimiter <:+: r) :
    ∃ pieces, fluke.extract.responses = fluke.responses ++ pieces ∧
      Framing delimiter fluke.buf pieces fluke.extract.buf := by
  cases hpartition : partition delimiter fluke.buf with
  | none =>
    rw [extract_of_none hpartition]
    exact ⟨[], (List.append_nil _).symm, .rest_self (partition_none delimiter_ne_nil hpartition)⟩
  | some found =>
    obtain ⟨resp, rest⟩ := found
    obtain ⟨hwhole, hleftmost⟩ := partition_some delimiter_ne_nil hpartition
    rw [extract_of_some hpartition, if_pos h, take_responses, take_buf]
    refine ⟨[resp], rfl, ?_⟩
    rw [hwhole]
    exact (Framing.rest_self (hclear resp rest hwhole)).piece hleftmost

theorem extract_stuck (h : Raises fluke.pendingResponse) {p r : Str}
    (hwhole : fluke.buf = p ++ delimiter ++ r) (hsub : delimiter <:+: r) :
    delimiter <:+: fluke.extract.buf := by
  cases hpartition : partition delimiter fluke.buf with
  | none =>
    refine absurd ?_ (partition_none delimiter_ne_nil hpartition)
    exact ⟨p, r, hwhole.symm⟩
  | some found =>
    obtain ⟨resp, rest⟩ := found
    obtain ⟨hfirst, hleftmost⟩ := partition_some delimiter_ne_nil hpartition
    rw [extract_of_some hpartition, if_pos h, take_buf]
    have hlength := leftmost_length_le hleftmost (hfirst.symm.trans hwhole)
    refine hsub.trans (List.IsSuffix.isInfix ?_)
    have hr : r <:+ fluke.buf := hwhole ▸ List.suffix_append _ _
    have hrest : rest <:+ fluke.buf := hfirst ▸ List.suffix_append _ _
    refine List.suffix_of_suffix_length_le hr hrest ?_
    have := congrArg List.length (hfirst.symm.trans hwhole)
    simp only [List.length_append] at this
    omega

end Extract

section Step

variable {fluke : Fluke45Protocol}

theorem framed_iff : Framed fluke ↔ Framing delimiter fluke.received fluke.responses fluke.buf := by
  refine ⟨Framed.pieces, fun h => ⟨?_, h⟩⟩
  let loaded : Fluke45Protocol :=
    { Fluke45Protocol.init with buf := fluke.received, received := fluke.received }
  obtain ⟨pieces, hresponses, hframing⟩ :=
    extract_framing (show ¬Raises loaded.pendingResponse from not_false)
  obtain ⟨hpieces, hrest⟩ := h.unique hframing
  exact ⟨hpieces.trans hresponses.symm, hrest⟩

theorem init_framed : Framed Fluke45Protocol.init :=
  framed_iff.mpr (.rest_self (partition_none delimiter_ne_nil rfl))

theorem dataReceived_framed_iff (h : Framed fluke) (data : Str) :
    Framed (fluke.dataReceived data) ↔ Clear fluke (.received data) := by
  rw [framed_iff, Fluke45Protocol.dataReceived, extract_received]
  constructor
  · intro hframing hraises p r hwhole hsub
    exact hframing.rest (extract_stuck hraises hwhole hsub)
  · intro hclear
    obtain ⟨pieces, hresponses, hframing⟩ : ∃ pieces,
        (fluke.dataReceived data).responses = fluke.responses ++ pieces ∧
          Framing delimiter (fluke.buf ++ data) pieces (fluke.dataReceived data).buf := by
      by_cases hraises : Raises fluke.pendingResponse
      · exact extract_framing_raises hraises (hclear hraises)
      · exact extract_framing hraises
    rw [Fluke45Protocol.dataReceived] at hresponses hframing
    rw [hresponses]
    exact h.pieces.append hframing

theorem advance_framed_iff (h : Framed fluke) (e : Event) :
    Framed (fluke.advance e) ↔ Clear fluke e := by
  cases e with
  | received data => exact dataReceived_framed_iff h data
  | tasks pendingResponse => exact ⟨fun _ => trivial, fun _ => ⟨h.oneCall, h.pieces⟩⟩

theorem staysFramed_iff (h : Framed fluke) (events : List Event) :
    StaysFramed fluke events ↔ AllClear fluke events :=
  forall_scanl_iff_each (fun _ => id) (fun _ h e _ => ⟨advance_framed_iff h e, id⟩) h

end Step

theorem framing_iff (events : List Event) :
    StaysFramed Fluke45Protocol.init events ↔ AllClear Fluke45Protocol.init events :=
  staysFramed_iff init_framed events

theorem cancelledResponse_keeps_prompt : ∃ s, Reachable step (fun _ _ => True) initial s ∧
    ¬StaysFramed Fluke45Protocol.init
      [.tasks s.pendingResponse, .received "1\r\n=>\r\n2\r\n=>\r\n".toList] := by
  have hrun : run step (fun _ _ => True) initial (startUp ++
      [.start (.ask 0), .cancel 0, .resume (.ask 0) none, .cancel 0]) = some _ := rfl
  refine ⟨_, Reachable.first.run hrun, fun hstays => ?_⟩
  obtain ⟨-, hclear, -⟩ := (staysFramed_iff init_framed _).mp hstays
  exact hclear trivial "1\r\n=".toList "2\r\n=>\r\n".toList rfl ⟨"2\r\n=".toList, [], rfl⟩

end Isz.Fluke

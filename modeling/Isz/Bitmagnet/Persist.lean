import Isz.Library.FileSystem
import Isz.Library.Runs
import Isz.Library.Text
import Mathlib.Tactic.Common

namespace Isz.Bitmagnet

open FileSystem Runs

-- protocol.ID as its String() prints it
structure InfoHash where
  hex : Str
  length_eq : hex.length = 40
  lower : hex.map Char.toLower = hex

-- with a suffix that stays in the directory: of a file name of at most 255 bytes, 48 are taken
structure Setup (Crawler : Type) where
  saveTorrentsRoot : Str
  saveTorrentsTempSuffix : Crawler → Str
  plain : ∀ c, '/' ∉ saveTorrentsTempSuffix c ∧ '\x00' ∉ saveTorrentsTempSuffix c
  short : ∀ c, (String.ofList (saveTorrentsTempSuffix c)).utf8ByteSize ≤ 207
  metaInfoBytes : InfoHash → List UInt8

-- d4:info
def header : List UInt8 := [100, 52, 58, 105, 110, 102, 111]

def trailer : List UInt8 := [101]

inductive Saving where
  | idle
  | checking (infoHash : InfoHash)
  | creating (infoHash : InfoHash)
  | writing (infoHash : InfoHash) (tempFile : Descriptor) (pending : List (List UInt8))
  | closed (infoHash : InfoHash)

structure State (Crawler : Type) where
  fs : FileSystem Str
  saving : Crawler → Saving

-- stop is a call that failed, or the end of the process
inductive Action (Crawler : Type) where
  | save (c : Crawler) (infoHash : InfoHash)
  | stat (c : Crawler)
  | statError (c : Crawler)
  | create (c : Crawler)
  | write (c : Crawler) (n : Nat)
  | close (c : Crawler)
  | rename (c : Crawler)
  | stop (c : Crawler)

variable {Crawler : Type}

def Action.crawler : Action Crawler → Crawler
  | .save c _ | .stat c | .statError c | .create c | .write c _ | .close c | .rename c
  | .stop c => c

namespace Setup

variable (setup : Setup Crawler)

def finalFilePath (infoHash : InfoHash) : Str :=
  let infoHash := infoHash.hex.map Char.toLower
  let dir1 := infoHash.take 2
  setup.saveTorrentsRoot ++ '/' :: dir1 ++ '/' :: infoHash ++ ".torrent".toList

def tempFilePath (c : Crawler) (infoHash : InfoHash) : Str :=
  setup.finalFilePath infoHash ++ setup.saveTorrentsTempSuffix c

def chunks (infoHash : InfoHash) : List (List UInt8) :=
  [header, setup.metaInfoBytes infoHash, trailer]

def torrent (infoHash : InfoHash) : List UInt8 := (setup.chunks infoHash).flatten

-- a write may take the kernel several turns
def rest (n : Nat) (chunk : List UInt8) (pending : List (List UInt8)) : List (List UInt8) :=
  if chunk.drop n = [] then pending else chunk.drop n :: pending

variable [DecidableEq Crawler]

def turn (s : State Crawler) (c : Crawler) (fs : FileSystem Str) (saving : Saving) :
    State Crawler :=
  ⟨fs, Function.update s.saving c saving⟩

def step (s : State Crawler) : Action Crawler → Option (State Crawler)
  | .save c infoHash =>
    match s.saving c with
    | .idle => some (turn s c s.fs (.checking infoHash))
    | _ => none
  | .stat c =>
    match s.saving c with
    | .checking infoHash =>
      if s.fs.Exists (setup.finalFilePath infoHash) then some (turn s c s.fs .idle)
      else some (turn s c s.fs (.creating infoHash))
    | _ => none
  | .statError c =>
    match s.saving c with
    | .checking infoHash => some (turn s c s.fs (.creating infoHash))
    | _ => none
  | .create c =>
    match s.saving c with
    | .creating infoHash =>
      let created := s.fs.create (setup.tempFilePath c infoHash)
      some (turn s c created.2 (.writing infoHash created.1 (setup.chunks infoHash)))
    | _ => none
  | .write c n =>
    match s.saving c with
    | .writing infoHash tempFile (chunk :: pending) =>
      let written := s.fs.write tempFile (chunk.take n)
      some (turn s c written.2 (.writing infoHash written.1 (rest n chunk pending)))
    | _ => none
  | .close c =>
    match s.saving c with
    | .writing infoHash _ [] => some (turn s c s.fs (.closed infoHash))
    | _ => none
  | .rename c =>
    match s.saving c with
    | .closed infoHash =>
      let renamed := s.fs.rename (setup.tempFilePath c infoHash) (setup.finalFilePath infoHash)
      some (turn s c (renamed.getD s.fs) .idle)
    | _ => none
  | .stop c => some (turn s c s.fs .idle)

end Setup

def Anytime (_ : State Crawler) (_ : Action Crawler) : Prop := True

def Saved (setup : Setup Crawler) (s : State Crawler) (infoHash : InfoHash) : Prop :=
  s.fs.Exists (setup.finalFilePath infoHash)

def Complete (setup : Setup Crawler) (s : State Crawler) : Prop :=
  ∀ infoHash n, s.fs.inode (setup.finalFilePath infoHash) = some n →
    s.fs.content n = setup.torrent infoHash

structure Start (setup : Setup Crawler) (s : State Crawler) : Prop where
  sound : s.fs.Sound
  complete : Complete setup s
  idle : ∀ c, s.saving c = .idle

section Paths

variable {setup : Setup Crawler}

theorem length_finalFilePath (infoHash : InfoHash) :
    (setup.finalFilePath infoHash).length = setup.saveTorrentsRoot.length + 52 := by
  have hsuffix : (".torrent".toList : Str).length = 8 := by decide
  rw [Setup.finalFilePath, infoHash.lower]
  simp only [List.length_append, List.length_cons, List.length_take, infoHash.length_eq, hsuffix]
  omega

theorem finalFilePath_injective {h h' : InfoHash}
    (heq : setup.finalFilePath h = setup.finalFilePath h') : h = h' := by
  rw [Setup.finalFilePath, Setup.finalFilePath, h.lower, h'.lower] at heq
  have hfile := List.append_cancel_right heq
  simp only [List.append_assoc, List.append_cancel_left_eq, List.cons_append,
    List.cons.injEq, true_and] at hfile
  have hlength : (h.hex.take 2).length = (h'.hex.take 2).length := by
    rw [List.length_take, List.length_take, h.length_eq, h'.length_eq]
  have hhex := (List.cons.inj (List.append_inj hfile hlength).2).2
  obtain ⟨hex, hlen, hlower⟩ := h
  obtain ⟨hex', hlen', hlower'⟩ := h'
  obtain rfl : hex = hex' := hhex
  rfl

theorem tempFilePath_inj {c c' : Crawler} {h h' : InfoHash}
    (heq : setup.tempFilePath c h = setup.tempFilePath c' h') :
    h = h' ∧ setup.saveTorrentsTempSuffix c = setup.saveTorrentsTempSuffix c' := by
  have hlength : (setup.finalFilePath h).length = (setup.finalFilePath h').length := by
    rw [length_finalFilePath, length_finalFilePath]
  obtain ⟨hfinal, hsuffix⟩ := List.append_inj heq hlength
  exact ⟨finalFilePath_injective hfinal, hsuffix⟩

theorem tempFilePath_ne_final {c : Crawler} (hsuffix : setup.saveTorrentsTempSuffix c ≠ [])
    (h h' : InfoHash) : setup.tempFilePath c h ≠ setup.finalFilePath h' := by
  intro heq
  have hlength := congrArg List.length heq
  rw [Setup.tempFilePath, List.length_append, length_finalFilePath, length_finalFilePath] at hlength
  exact hsuffix (List.length_eq_zero_iff.mp (by omega))

end Paths

section Invariant

variable (setup : Setup Crawler)

def Ready (fs : FileSystem Str) (c : Crawler) : Saving → Prop
  | .writing h fd pending => fs.inode (setup.tempFilePath c h) = some fd.inode ∧
      fd.offset = (fs.content fd.inode).length ∧
      fs.content fd.inode ++ pending.flatten = setup.torrent h
  | .closed h => ∃ n, fs.inode (setup.tempFilePath c h) = some n ∧
      fs.content n = setup.torrent h
  | _ => True

structure Inv (s : State Crawler) : Prop where
  sound : s.fs.Sound
  complete : Complete setup s
  ready : ∀ c, Ready setup s.fs c (s.saving c)

variable {setup}

theorem Start.inv {s : State Crawler} (h : Start setup s) : Inv setup s where
  sound := h.sound
  complete := h.complete
  ready := fun c => by
    rw [h.idle c]
    exact trivial

theorem Ready.congr {fs fs' : FileSystem Str} {c : Crawler} {saving : Saving}
    (hinode : ∀ h, fs'.inode (setup.tempFilePath c h) = fs.inode (setup.tempFilePath c h))
    (hcontent : ∀ h n, fs.inode (setup.tempFilePath c h) = some n → fs'.content n = fs.content n)
    (hready : Ready setup fs c saving) : Ready setup fs' c saving := by
  cases saving with
  | writing h fd pending =>
    obtain ⟨htemp, hoffset, hbytes⟩ := hready
    have hsame := hcontent h fd.inode htemp
    exact ⟨(hinode h).trans htemp, by rw [hsame]; exact hoffset, by rw [hsame]; exact hbytes⟩
  | closed h =>
    obtain ⟨n, htemp, hbytes⟩ := hready
    exact ⟨n, (hinode h).trans htemp, (hcontent h n htemp).trans hbytes⟩
  | idle => exact trivial
  | checking => exact trivial
  | creating => exact trivial

theorem flatten_rest (n : Nat) (chunk : List UInt8) (pending : List (List UInt8)) :
    (Setup.rest n chunk pending).flatten = chunk.drop n ++ pending.flatten := by
  rw [Setup.rest]
  split
  case isTrue h => rw [h, List.nil_append]
  case isFalse => rfl

variable [DecidableEq Crawler]

theorem inv_turn {s : State Crawler} (hs : Inv setup s) {c : Crawler} {fs : FileSystem Str}
    {saving : Saving} (hsound : fs.Sound) (hcomplete : Complete setup ⟨fs, s.saving⟩)
    (hown : Ready setup fs c saving)
    (hinode : ∀ c', c' ≠ c → ∀ h,
      fs.inode (setup.tempFilePath c' h) = s.fs.inode (setup.tempFilePath c' h))
    (hcontent : ∀ c', c' ≠ c → ∀ h n, s.fs.inode (setup.tempFilePath c' h) = some n →
      fs.content n = s.fs.content n) :
    Inv setup (Setup.turn s c fs saving) where
  sound := hsound
  complete := hcomplete
  ready := fun c' => by
    by_cases hc : c' = c
    · subst hc
      simp only [Setup.turn, Function.update_self]
      exact hown
    · simp only [Setup.turn, Function.update_of_ne hc]
      exact (hs.ready c').congr (hinode c' hc) (hcontent c' hc)

theorem inv_same {s : State Crawler} (hs : Inv setup s) {c : Crawler} {saving : Saving}
    (hown : Ready setup s.fs c saving) : Inv setup (Setup.turn s c s.fs saving) :=
  inv_turn hs hs.sound hs.complete hown (fun _ _ _ => rfl) fun _ _ _ _ _ => rfl

variable (hnonempty : ∀ c, setup.saveTorrentsTempSuffix c ≠ [])
  (hdistinct : Function.Injective setup.saveTorrentsTempSuffix)
include hnonempty hdistinct

omit [DecidableEq Crawler] hnonempty in
theorem tempFilePath_ne {c c' : Crawler} (hc : c' ≠ c) (h h' : InfoHash) :
    setup.tempFilePath c' h' ≠ setup.tempFilePath c h := fun heq =>
  hc (hdistinct (tempFilePath_inj heq).2)

theorem inv_create {s : State Crawler} (hs : Inv setup s) (c : Crawler) (h : InfoHash) :
    Inv setup (Setup.turn s c (s.fs.create (setup.tempFilePath c h)).2
      (.writing h (s.fs.create (setup.tempFilePath c h)).1 (setup.chunks h))) := by
  obtain ⟨hself, hempty, hoffset⟩ := s.fs.create_self (setup.tempFilePath c h)
  refine inv_turn hs (create_sound hs.sound) (fun h' n hn => ?_) ⟨hself, ?_, ?_⟩
    (fun c' hc h' => create_inode (tempFilePath_ne hdistinct hc h h'))
    fun c' hc h' n hn => create_content hs.sound (tempFilePath_ne hdistinct hc h h') hn
  · have hne := (tempFilePath_ne_final (hnonempty c) h h').symm
    change (s.fs.create (setup.tempFilePath c h)).2.inode _ = some n at hn
    rw [create_inode hne] at hn
    exact (create_content hs.sound hne hn).trans (hs.complete h' n hn)
  · rw [hoffset, hempty]
    rfl
  · rw [hempty]
    rfl

theorem inv_write {s : State Crawler} (hs : Inv setup s) {c : Crawler} {h : InfoHash}
    {fd : Descriptor} {chunk : List UInt8} {pending : List (List UInt8)}
    (hsaving : s.saving c = .writing h fd (chunk :: pending)) (k : Nat) :
    Inv setup (Setup.turn s c (s.fs.write fd (chunk.take k)).2
      (.writing h (s.fs.write fd (chunk.take k)).1 (Setup.rest k chunk pending))) := by
  have hready := hs.ready c
  rw [hsaving] at hready
  obtain ⟨htemp, hoffset, hbytes⟩ := hready
  have hself := write_content_self (chunk.take k) hoffset
  have hother : ∀ q n, q ≠ setup.tempFilePath c h → s.fs.inode q = some n →
      (s.fs.write fd (chunk.take k)).2.content n = s.fs.content n := by
    intro q n hq hn
    refine write_content_other ?_
    rintro rfl
    exact hq (hs.sound.injective q _ _ hn htemp)
  refine inv_turn hs ⟨hs.sound.injective, hs.sound.lt_next⟩ (fun h' n hn => ?_) ⟨htemp, ?_, ?_⟩
    (fun _ _ _ => rfl) fun c' hc h' n hn => hother _ n (tempFilePath_ne hdistinct hc h h') hn
  · exact (hother _ n (tempFilePath_ne_final (hnonempty c) h h').symm hn).trans
      (hs.complete h' n hn)
  · change fd.offset + (chunk.take k).length = _
    rw [show (s.fs.write fd (chunk.take k)).1.inode = fd.inode from rfl, hself,
      List.length_append, hoffset]
  · rw [show (s.fs.write fd (chunk.take k)).1.inode = fd.inode from rfl, hself, flatten_rest,
      List.append_assoc, ← List.append_assoc (chunk.take k), List.take_append_drop]
    exact hbytes

theorem inv_rename {s : State Crawler} (hs : Inv setup s) {c : Crawler} {h : InfoHash}
    (hsaving : s.saving c = .closed h) :
    Inv setup (Setup.turn s c ((s.fs.rename (setup.tempFilePath c h)
      (setup.finalFilePath h)).getD s.fs) .idle) := by
  have hready := hs.ready c
  rw [hsaving] at hready
  obtain ⟨n, htemp, hbytes⟩ := hready
  obtain ⟨fs, hfs⟩ : ∃ fs, s.fs.rename (setup.tempFilePath c h) (setup.finalFilePath h) =
      some fs := by
    rw [FileSystem.rename, htemp]
    exact ⟨_, rfl⟩
  rw [hfs, Option.getD_some]
  obtain ⟨-, -, hcontent, -, -⟩ := rename_eq hfs
  refine inv_turn hs (rename_sound hs.sound hfs) (fun h' n' hn' => ?_) trivial
    (fun c' hc h' => rename_inode hfs (tempFilePath_ne hdistinct hc h h')
      (tempFilePath_ne_final (hnonempty c') h' h)) fun c' hc h' n' _ => by rw [hcontent]
  dsimp only at hn' ⊢
  rw [hcontent]
  by_cases heq : h' = h
  · subst heq
    rw [rename_new hfs, htemp] at hn'
    obtain rfl := Option.some.inj hn'
    exact hbytes
  · rw [rename_inode hfs (tempFilePath_ne_final (hnonempty c) h h').symm
      fun hfinal => heq (finalFilePath_injective hfinal)] at hn'
    exact hs.complete h' n' hn'

theorem inv_step {s s' : State Crawler} (hs : Inv setup s) {a : Action Crawler}
    (hstep : setup.step s a = some s') : Inv setup s' := by
  cases a with
  | save c h =>
    simp only [Setup.step] at hstep
    split at hstep
    · obtain rfl := Option.some.inj hstep
      exact inv_same hs trivial
    · cases hstep
  | stat c =>
    simp only [Setup.step] at hstep
    split at hstep
    · split at hstep
      · obtain rfl := Option.some.inj hstep
        exact inv_same hs trivial
      · obtain rfl := Option.some.inj hstep
        exact inv_same hs trivial
    · cases hstep
  | statError c =>
    simp only [Setup.step] at hstep
    split at hstep
    · obtain rfl := Option.some.inj hstep
      exact inv_same hs trivial
    · cases hstep
  | create c =>
    simp only [Setup.step] at hstep
    split at hstep
    · obtain rfl := Option.some.inj hstep
      exact inv_create hnonempty hdistinct hs c _
    · cases hstep
  | write c k =>
    simp only [Setup.step] at hstep
    split at hstep
    case h_1 hsaving =>
      obtain rfl := Option.some.inj hstep
      exact inv_write hnonempty hdistinct hs hsaving k
    case h_2 => cases hstep
  | close c =>
    simp only [Setup.step] at hstep
    split at hstep
    case h_1 h fd hsaving =>
      obtain rfl := Option.some.inj hstep
      have hready := hs.ready c
      rw [hsaving] at hready
      obtain ⟨htemp, -, hbytes⟩ := hready
      refine inv_same hs ⟨fd.inode, htemp, ?_⟩
      rwa [List.flatten_nil, List.append_nil] at hbytes
    case h_2 => cases hstep
  | rename c =>
    simp only [Setup.step] at hstep
    split at hstep
    case h_1 hsaving =>
      obtain rfl := Option.some.inj hstep
      exact inv_rename hnonempty hdistinct hs hsaving
    case h_2 => cases hstep
  | stop c =>
    obtain rfl := Option.some.inj hstep
    exact inv_same hs trivial

end Invariant

section Alone

variable (setup : Setup Crawler) [DecidableEq Crawler]

def Alone (c : Crawler) (_ : State Crawler) (a : Action Crawler) : Prop := a.crawler = c

theorem reach_created {s : State Crawler} {c : Crawler} (h : InfoHash) (hidle : s.saving c = .idle)
    (hnew : ¬Saved setup s h) :
    Reachable setup.step (Alone c) s
      (Setup.turn s c (s.fs.create (setup.tempFilePath c h)).2
        (.writing h (s.fs.create (setup.tempFilePath c h)).1 (setup.chunks h))) := by
  have hsave : setup.step s (.save c h) = some (Setup.turn s c s.fs (.checking h)) := by
    simp [Setup.step, hidle]
  have hstat : setup.step (Setup.turn s c s.fs (.checking h)) (.stat c) =
      some (Setup.turn s c s.fs (.creating h)) := by
    have hnot : ¬s.fs.Exists (setup.finalFilePath h) := hnew
    simp [Setup.step, Setup.turn, hnot]
  have hcreate : setup.step (Setup.turn s c s.fs (.creating h)) (.create c) =
      some (Setup.turn s c (s.fs.create (setup.tempFilePath c h)).2
        (.writing h (s.fs.create (setup.tempFilePath c h)).1 (setup.chunks h))) := by
    simp [Setup.step, Setup.turn]
  have hown : ∀ s a, a.crawler = c → Alone c s a := fun _ _ ha => ha
  exact ((Reachable.first.next (hown _ _ rfl) hsave).next (hown _ _ rfl) hstat).next
    (hown _ _ rfl) hcreate

theorem reach_closed {s : State Crawler} {c : Crawler} {h : InfoHash} {fd : Descriptor}
    {pending : List (List UInt8)} (hwriting : s.saving c = .writing h fd pending) :
    ∃ s', Reachable setup.step (Alone c) s s' ∧ s'.fs.inode = s.fs.inode ∧
      s'.saving = Function.update s.saving c (.closed h) := by
  induction pending generalizing s fd with
  | nil =>
    have hown : Alone c s (.close c) := rfl
    refine ⟨Setup.turn s c s.fs (.closed h), Reachable.first.next hown ?_, rfl, rfl⟩
    simp [Setup.step, hwriting]
  | cons chunk pending ih =>
    have hwrite : setup.step s (.write c chunk.length) =
        some (Setup.turn s c (s.fs.write fd chunk).2
          (.writing h (s.fs.write fd chunk).1 pending)) := by
      simp [Setup.step, hwriting, Setup.rest]
    obtain ⟨s', hreach, hinode, hsaving⟩ := ih (s := Setup.turn s c (s.fs.write fd chunk).2
      (.writing h (s.fs.write fd chunk).1 pending)) (Function.update_self ..)
    have hown : Alone c s (.write c chunk.length) := rfl
    refine ⟨s', (Reachable.first.next hown hwrite).append hreach fun _ _ ha => ha, hinode, ?_⟩
    rw [hsaving, Setup.turn]
    exact Function.update_idem ..

theorem step_rename {s : State Crawler} {c : Crawler} {h : InfoHash}
    (hclosed : s.saving c = .closed h) {fs : FileSystem Str}
    (hfs : s.fs.rename (setup.tempFilePath c h) (setup.finalFilePath h) = some fs) :
    setup.step s (.rename c) = some (Setup.turn s c fs .idle) := by
  simp [Setup.step, hclosed, hfs]

theorem exists_rename {fs : FileSystem Str} {p q : Str} (h : fs.Exists p) :
    ∃ fs', fs.rename p q = some fs' := by
  obtain ⟨n, hn⟩ := Option.isSome_iff_exists.mp h
  exact ⟨_, by rw [FileSystem.rename, hn]; rfl⟩

theorem created_exists (fs : FileSystem Str) (p : Str) : (fs.create p).2.Exists p := by
  rw [FileSystem.Exists, (fs.create_self p).1]
  rfl

end Alone

section Violations

variable {setup : Setup Crawler} [DecidableEq Crawler]

def vacant : State Crawler := ⟨FileSystem.empty, fun _ => .idle⟩

omit [DecidableEq Crawler] in
theorem start_vacant : Start setup vacant :=
  ⟨sound_empty, fun _ _ h => (by cases h), fun _ => rfl⟩

def zeroHash : InfoHash := ⟨List.replicate 40 '0', List.length_replicate, by decide⟩

omit [DecidableEq Crawler] in
theorem not_complete {s : State Crawler} {h : InfoHash} {n : Nat}
    (hinode : s.fs.inode (setup.finalFilePath h) = some n) (hempty : s.fs.content n = []) :
    ¬Complete setup s := by
  intro hcomplete
  have hbytes := hcomplete h n hinode
  rw [hempty] at hbytes
  cases hbytes

theorem empty_suffix_shows {c : Crawler} (hsuffix : setup.saveTorrentsTempSuffix c = []) :
    ∃ s, Reachable setup.step (Alone c) vacant s ∧ ¬Complete setup s := by
  have htemp : setup.tempFilePath c zeroHash = setup.finalFilePath zeroHash := by
    rw [Setup.tempFilePath, hsuffix, List.append_nil]
  obtain ⟨hself, hempty, -⟩ := (vacant : State Crawler).fs.create_self
    (setup.tempFilePath c zeroHash)
  refine ⟨_, reach_created setup zeroHash rfl Bool.false_ne_true, ?_⟩
  refine not_complete (h := zeroHash) ?_ hempty
  rw [← htemp]
  exact hself

theorem same_suffix_shows {c c' : Crawler} (hne : c ≠ c')
    (hsuffix : setup.saveTorrentsTempSuffix c = setup.saveTorrentsTempSuffix c')
    (hnonempty : setup.saveTorrentsTempSuffix c ≠ []) :
    ∃ s, Reachable setup.step Anytime vacant s ∧ ¬Complete setup s := by
  have hany : ∀ (c : Crawler) s a, Alone c s a → Anytime s a := fun _ _ _ _ => trivial
  have htemp : setup.tempFilePath c' zeroHash = setup.tempFilePath c zeroHash := by
    rw [Setup.tempFilePath, Setup.tempFilePath, hsuffix]
  have hfinal := tempFilePath_ne_final hnonempty zeroHash zeroHash
  have hcreated : Reachable setup.step (Alone c) vacant _ :=
    reach_created setup zeroHash rfl Bool.false_ne_true
  obtain ⟨s₁, hclosed, hinode, hsaving⟩ := reach_closed setup (c := c) (h := zeroHash)
    (s := Setup.turn vacant c _ (.writing zeroHash _ _)) (Function.update_self ..)
  have hidle : s₁.saving c' = .idle := by
    rw [hsaving, Function.update_of_ne hne.symm]
    exact Function.update_of_ne hne.symm _ _
  have hnew : ¬Saved setup s₁ zeroHash := by
    rw [Saved, FileSystem.Exists, hinode]
    change ¬(((vacant : State Crawler).fs.create (setup.tempFilePath c zeroHash)).2.inode
      (setup.finalFilePath zeroHash)).isSome
    rw [create_inode hfinal.symm]
    exact Bool.false_ne_true
  set created := s₁.fs.create (setup.tempFilePath c' zeroHash) with hcreate
  have hother : Reachable setup.step (Alone c') s₁ _ := reach_created setup zeroHash hidle hnew
  obtain ⟨hself, hempty, -⟩ := s₁.fs.create_self (setup.tempFilePath c' zeroHash)
  obtain ⟨fs, hfs⟩ := exists_rename (q := setup.finalFilePath zeroHash)
    (created_exists s₁.fs (setup.tempFilePath c' zeroHash))
  rw [htemp] at hfs
  have hstill : (Setup.turn s₁ c' created.2
      (.writing zeroHash created.1 (setup.chunks zeroHash))).saving c = .closed zeroHash := by
    rw [Setup.turn]
    dsimp only
    rw [Function.update_of_ne hne, hsaving, Function.update_self]
  have hrename := step_rename setup hstill <| by
    rw [Setup.turn, hcreate, htemp]
    exact hfs
  refine ⟨_, ((Reachable.append ((Reachable.first.append hcreated (hany c)).append hclosed
    (hany c)) hother (hany c')).next trivial hrename), ?_⟩
  obtain ⟨-, -, hcontent, -, -⟩ := rename_eq hfs
  rw [htemp] at hself hempty
  refine not_complete (h := zeroHash) ((rename_new hfs).trans hself) ?_
  change fs.content _ = []
  rw [hcontent]
  exact hempty

end Violations

theorem torrents_complete_iff [DecidableEq Crawler] (setup : Setup Crawler) :
    (∀ first, Start setup first → ∀ s, Reachable setup.step Anytime first s → Complete setup s) ↔
      (∀ c, setup.saveTorrentsTempSuffix c ≠ []) ∧
        Function.Injective setup.saveTorrentsTempSuffix := by
  constructor
  · intro hcomplete
    have hnonempty : ∀ c, setup.saveTorrentsTempSuffix c ≠ [] := by
      intro c hsuffix
      obtain ⟨s, hreach, hnot⟩ := empty_suffix_shows hsuffix
      exact hnot (hcomplete _ start_vacant s
        (Reachable.first.append hreach fun _ _ _ => trivial))
    refine ⟨hnonempty, fun c c' hsuffix => ?_⟩
    by_contra hne
    obtain ⟨s, hreach, hnot⟩ := same_suffix_shows hne hsuffix (hnonempty c)
    exact hnot (hcomplete _ start_vacant s hreach)
  · rintro ⟨hnonempty, hdistinct⟩ first hfirst s hreach
    exact (hreach.invariant hfirst.inv fun _ _ _ hs _ hstep =>
      inv_step hnonempty hdistinct hs hstep).complete

section Kept

variable {setup : Setup Crawler} [DecidableEq Crawler]

theorem step_inode {s s' : State Crawler} {a : Action Crawler}
    (hstep : setup.step s a = some s') :
    s'.fs.inode = s.fs.inode ∨
      (∃ c h, s'.fs.inode = (s.fs.create (setup.tempFilePath c h)).2.inode) ∨
      ∃ c h, s.fs.rename (setup.tempFilePath c h) (setup.finalFilePath h) = some s'.fs := by
  cases a with
  | create c =>
    simp only [Setup.step] at hstep
    split at hstep
    · obtain rfl := Option.some.inj hstep
      exact .inr (.inl ⟨c, _, rfl⟩)
    · cases hstep
  | rename c =>
    simp only [Setup.step] at hstep
    split at hstep
    case h_1 h _ =>
      obtain rfl := Option.some.inj hstep
      cases hfs : s.fs.rename (setup.tempFilePath c h) (setup.finalFilePath h) with
      | none => exact .inl rfl
      | some fs => exact .inr (.inr ⟨c, h, hfs⟩)
    case h_2 => cases hstep
  | stat c =>
    simp only [Setup.step] at hstep
    split at hstep
    · split at hstep <;> exact .inl (Option.some.inj hstep ▸ rfl)
    · cases hstep
  | stop c => exact .inl (Option.some.inj hstep ▸ rfl)
  | save | statError | write | close =>
    simp only [Setup.step] at hstep
    split at hstep
    · exact .inl (Option.some.inj hstep ▸ rfl)
    · cases hstep

theorem saved_step (hnonempty : ∀ c, setup.saveTorrentsTempSuffix c ≠ []) {s s' : State Crawler}
    {a : Action Crawler} (hstep : setup.step s a = some s') {h : InfoHash}
    (hsaved : Saved setup s h) : Saved setup s' h := by
  rw [Saved, FileSystem.Exists] at hsaved ⊢
  rcases step_inode hstep with heq | ⟨c, h', heq⟩ | ⟨c, h', hfs⟩
  · rwa [heq]
  · rwa [heq, create_inode (tempFilePath_ne_final (hnonempty c) h' h).symm]
  · by_cases hsame : h = h'
    · subst hsame
      obtain ⟨n, hn, -⟩ := rename_eq hfs
      rw [rename_new hfs, hn]
      rfl
    · rwa [rename_inode hfs (tempFilePath_ne_final (hnonempty c) h' h).symm
        fun heq => hsame (finalFilePath_injective heq)]

theorem reach_saved {s : State Crawler} {c : Crawler} (hidle : s.saving c = .idle)
    (h : InfoHash) : ∃ s', Reachable setup.step (Alone c) s s' ∧ s'.saving c = .idle ∧
      Saved setup s' h := by
  by_cases hsaved : Saved setup s h
  · exact ⟨s, .first, hidle, hsaved⟩
  · have hcreated := reach_created setup h hidle hsaved
    obtain ⟨s₁, hclosed, hinode, hsaving⟩ := reach_closed setup (c := c) (h := h)
      (s := Setup.turn s c _ (.writing h _ _)) (Function.update_self ..)
    have hexists : s₁.fs.Exists (setup.tempFilePath c h) := by
      rw [FileSystem.Exists, hinode]
      exact created_exists s.fs _
    obtain ⟨fs, hfs⟩ := exists_rename (q := setup.finalFilePath h) hexists
    have hrename := step_rename setup
      (show s₁.saving c = .closed h by rw [hsaving]; exact Function.update_self ..) hfs
    have hown : Alone c s₁ (.rename c) := rfl
    refine ⟨_, (hcreated.append hclosed fun _ _ ha => ha).next hown hrename,
      Function.update_self .., ?_⟩
    obtain ⟨n, hn, -⟩ := rename_eq hfs
    change (fs.inode (setup.finalFilePath h)).isSome
    rw [rename_new hfs, hn]
    rfl

end Kept

theorem torrents_kept [DecidableEq Crawler] {setup : Setup Crawler}
    (hnonempty : ∀ c, setup.saveTorrentsTempSuffix c ≠ [])
    (hdistinct : Function.Injective setup.saveTorrentsTempSuffix) {first s : State Crawler}
    (hfirst : Start setup first) (hreach : Reachable setup.step Anytime first s) :
    (∀ h, Saved setup s h → ∀ s', Reachable setup.step Anytime s s' →
      ∃ n, s'.fs.inode (setup.finalFilePath h) = some n ∧ s'.fs.content n = setup.torrent h) ∧
    ∀ c, s.saving c = .idle → ∀ h, ∃ s', Reachable setup.step (Alone c) s s' ∧
      s'.saving c = .idle ∧ Saved setup s' h := by
  refine ⟨fun h hsaved s' hlater => ?_, fun c hidle h => reach_saved hidle h⟩
  have hinv : Inv setup s' := (hreach.append hlater fun _ _ ha => ha).invariant hfirst.inv
    fun _ _ _ hs _ hstep => inv_step hnonempty hdistinct hs hstep
  have hkeep : ∀ s a s', Saved setup s h → Anytime s a → setup.step s a = some s' →
      Saved setup s' h := fun _ _ _ hs _ hstep => saved_step hnonempty hstep hs
  have hstill : Saved setup s' h := by
    refine hlater.invariant ?_ hkeep
    exact hsaved
  obtain ⟨n, hn⟩ := Option.isSome_iff_exists.mp hstill
  exact ⟨n, hn, hinv.complete h n hn⟩

def twoCrawlers : Setup Bool where
  saveTorrentsRoot := "torrents".toList
  saveTorrentsTempSuffix := fun c => if c then ".a".toList else ".b".toList
  plain := by decide
  short := by decide
  metaInfoBytes := fun _ => [100, 101]

theorem torrents_kept_two_crawlers :
    (∀ h, Saved twoCrawlers vacant h → ∀ s', Reachable twoCrawlers.step Anytime vacant s' →
      ∃ n, s'.fs.inode (twoCrawlers.finalFilePath h) = some n ∧
        s'.fs.content n = twoCrawlers.torrent h) ∧
    ∀ c, (vacant : State Bool).saving c = .idle → ∀ h, ∃ s',
      Reachable twoCrawlers.step (Alone c) vacant s' ∧ s'.saving c = .idle ∧
        Saved twoCrawlers s' h :=
  torrents_kept (by decide) (fun c c' => by revert c c'; decide) start_vacant .first

end Isz.Bitmagnet

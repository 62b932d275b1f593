import NanoDB.Coordinator.ConfigFile

/-!
# Saves and loads that interleave

A temporary file belongs to one save until its rename: no other save has its name, and no
file has two names.  So it holds exactly what that save has written, and what is renamed
over the config file is a whole document.  A file that has been renamed is never written
again, and a load that has opened it reads it to its end whatever is renamed meanwhile.

Main results:

- Theorem {lit}`Inv.step`: every access keeps the ownership of the temporary files, and
  the config file is a whole document once there has been a save.
- Theorem {lit}`Settled.step`: a file that has no temporary name is not written.
- Theorem {lit}`load_returns_saved_list`: a load that is opened after a save returns the
  list of a save that was there when it was opened.
-/

namespace NanoDB.Coordinator

open Lib (Exec FileSystem guardedRun)
open Raft (Bytes)

namespace ConfigSystem

variable {ω ρ : Type} [DecidableEq ω]

/-! ## Ownership -/

/-- Every list that is saved is not empty. -/
def SavesNonempty (_ : ConfigSystem ω ρ) : ConfigAction ω ρ → Prop
  | .beginSave _ _ shards => shards ≠ []
  | _ => True

/-- The ownership invariant. -/
structure Inv (lib : JsonLibrary) (path : Bytes) (s : ConfigSystem ω ρ) : Prop where
  noLinks : s.fs.NoLinks
  issued : ∀ w t, (s.saves w).ticket = some t → t.seq < s.counter t.pid
  exclusive : ∀ w w' t, (s.saves w).ticket = some t → (s.saves w').ticket = some t → w = w'
  nonempty : ∀ w shards, (s.saves w).shards = some shards → shards ≠ []
  /-- The temporary file holds what its save has written. -/
  written : ∀ w t shards file offset rest, s.saves w = .writing t shards file offset rest →
    s.fs.dir (tempPath path t) = some file ∧ (s.fs.data file).length = offset ∧
      lib.dump (configJson shards) = some (s.fs.data file ++ rest)
  /-- Once a save is done the config file is the document of one that is done. -/
  published : ∀ w shards, s.saves w = .done shards →
    ∃ file w' shards', s.fs.dir path = some file ∧ s.saves w' = .done shards' ∧
      lib.dump (configJson shards') = some (s.fs.data file)

variable {lib : JsonLibrary} {path : Bytes} {s s' : ConfigSystem ω ρ} {act : ConfigAction ω ρ}

@[simp]
theorem setSave_self (s : ConfigSystem ω ρ) (w : ω) (phase : SavePhase) :
    (s.setSave w phase).saves w = phase :=
  Function.update_self ..

theorem setSave_of_ne {w w' : ω} {phase : SavePhase} (h : w' ≠ w) :
    (s.setSave w phase).saves w' = s.saves w' :=
  Function.update_of_ne h ..

/-- One save moves on.  What has to be checked: its name is its own, its file holds what it
has written, the files of the others stay, and so does the config file unless it is
replaced by the document of this save. -/
theorem Inv.advance (h : Inv lib path s) {w : ω} {phase : SavePhase}
    {fs : FileSystem Bytes UInt8} {counter : Nat → Nat} (hnoLinks : fs.NoLinks)
    (hcounter : ∀ pid, s.counter pid ≤ counter pid)
    (hticket : ∀ t, phase.ticket = some t →
      t.seq < counter t.pid ∧ ∀ w', w' ≠ w → (s.saves w').ticket ≠ some t)
    (hnonempty : ∀ shards, phase.shards = some shards → shards ≠ [])
    (hmine : ∀ t shards file offset rest, phase = .writing t shards file offset rest →
      fs.dir (tempPath path t) = some file ∧ (fs.data file).length = offset ∧
        lib.dump (configJson shards) = some (fs.data file ++ rest))
    (hothers : ∀ w' t shards file offset rest, w' ≠ w →
      s.saves w' = .writing t shards file offset rest →
        fs.dir (tempPath path t) = s.fs.dir (tempPath path t) ∧ fs.data file = s.fs.data file)
    (hpath : (∃ file shards, phase = .done shards ∧ fs.dir path = some file ∧
        lib.dump (configJson shards) = some (fs.data file)) ∨
      ((∀ shards, phase ≠ .done shards) ∧ (∀ shards, s.saves w ≠ .done shards) ∧
        fs.dir path = s.fs.dir path ∧
        ∀ file, s.fs.dir path = some file → fs.data file = s.fs.data file)) :
    Inv lib path { s.setSave w phase with fs := fs, counter := counter } := by
  have hother : ∀ {w' : ω}, w' ≠ w → (s.setSave w phase).saves w' = s.saves w' :=
    fun hw => setSave_of_ne hw
  refine ⟨hnoLinks, ?_, ?_, ?_, ?_, ?_⟩
  · intro w' t ht
    by_cases hw : w' = w
    · rw [hw, setSave_self] at ht
      exact (hticket t ht).1
    · rw [hother hw] at ht
      exact lt_of_lt_of_le (h.issued w' t ht) (hcounter t.pid)
  · intro w' w'' t ht ht'
    by_cases hw : w' = w
    · by_cases hw' : w'' = w
      · rw [hw, hw']
      · rw [hw, setSave_self] at ht
        rw [hother hw'] at ht'
        exact absurd ht' ((hticket t ht).2 w'' hw')
    · by_cases hw' : w'' = w
      · rw [hw', setSave_self] at ht'
        rw [hother hw] at ht
        exact absurd ht ((hticket t ht').2 w' hw)
      · rw [hother hw] at ht
        rw [hother hw'] at ht'
        exact h.exclusive w' w'' t ht ht'
  · intro w' shards hshards
    by_cases hw : w' = w
    · rw [hw, setSave_self] at hshards
      exact hnonempty shards hshards
    · rw [hother hw] at hshards
      exact h.nonempty w' shards hshards
  · intro w' t shards file offset rest hw'
    by_cases hw : w' = w
    · rw [hw, setSave_self] at hw'
      exact hmine t shards file offset rest hw'
    · rw [hother hw] at hw'
      rcases hothers w' t shards file offset rest hw hw' with ⟨hdir, hdata⟩
      dsimp only
      rw [hdir, hdata]
      exact h.written w' t shards file offset rest hw'
  · intro w' shards hw'
    rcases hpath with ⟨file, shards', hphase, hdir, hdump⟩ | ⟨hphase, hbefore, hdir, hdata⟩
    · exact ⟨file, w, shards', hdir, by rw [setSave_self, hphase], hdump⟩
    · have hw : w' ≠ w := by
        rintro rfl
        rw [setSave_self] at hw'
        exact hphase shards hw'
      rw [hother hw] at hw'
      rcases h.published w' shards hw' with ⟨file, w'', shards'', hfile, hw'', hdump⟩
      have hne : w'' ≠ w := by
        rintro rfl
        exact hbefore shards'' hw''
      refine ⟨file, w'', shards'', ?_, by rw [hother hne, hw''], ?_⟩
      · dsimp only
        rw [hdir, hfile]
      · dsimp only
        rw [hdata file hfile, hdump]

omit [DecidableEq ω] in
/-- The temporary name of one save is not that of another. -/
theorem Inv.tempPath_ne_of_ne (h : Inv lib path s) {w w' : ω} {t t' : Ticket} (hw : w' ≠ w)
    (ht : (s.saves w).ticket = some t) (ht' : (s.saves w').ticket = some t') :
    tempPath path t' ≠ tempPath path t := by
  intro heq
  rw [tempPath_injective heq] at ht'
  exact hw (h.exclusive w' w t ht' ht)

/-- A failed save leaves its file behind. -/
theorem Inv.setFailed (h : Inv lib path s) {w : ω} (hticket : (s.saves w).ticket.isSome = true) :
    Inv lib path (s.setSave w .failed) := by
  refine h.advance h.noLinks (fun _ => le_rfl) ?_ ?_ ?_ (fun _ _ _ _ _ _ _ _ => ⟨rfl, rfl⟩)
    (.inr ⟨?_, ?_, rfl, fun _ _ => rfl⟩)
  · intro t ht
    contradiction
  · intro shards hshards
    contradiction
  · intro t shards file offset rest hphase
    contradiction
  · intro shards hphase
    contradiction
  · intro shards hw
    rw [hw] at hticket
    contradiction

theorem Inv.beginSave (h : Inv lib path s) {w : ω} (hidle : s.saves w = .idle) (pid : Nat)
    {shards : List ShardEndpoint} (hne : shards ≠ []) :
    Inv lib path { s.setSave w (.started ⟨pid, s.counter pid⟩ shards) with
      counter := Function.update s.counter pid (s.counter pid + 1) } := by
  refine h.advance h.noLinks ?_ ?_ ?_ ?_ (fun _ _ _ _ _ _ _ _ => ⟨rfl, rfl⟩)
    (.inr ⟨?_, ?_, rfl, fun _ _ => rfl⟩)
  · intro pid'
    by_cases hpid : pid' = pid
    · rw [hpid, Function.update_self]
      exact Nat.le_succ _
    · rw [Function.update_of_ne hpid]
  · intro t ht
    rw [SavePhase.ticket, Option.some_inj] at ht
    subst ht
    constructor
    · dsimp only
      rw [Function.update_self]
      exact Nat.lt_succ_self _
    · intro w' _ hw'
      exact absurd (h.issued w' _ hw') (lt_irrefl _)
  · intro shards' hshards
    rw [SavePhase.shards, Option.some_inj] at hshards
    rwa [← hshards]
  · intro t shards' file offset rest hphase
    contradiction
  · intro shards' hphase
    contradiction
  · intro shards' hw
    rw [hidle] at hw
    contradiction

theorem Inv.openTemp (h : Inv lib path s) {w : ω} {t : Ticket} {shards : List ShardEndpoint}
    (hw : s.saves w = .started t shards) {phase : SavePhase}
    (hphase : phase = .failed ∨ ∃ text, lib.dump (configJson shards) = some text ∧
      phase = .writing t shards (s.fs.openTrunc (tempPath path t)).1 0 text) :
    Inv lib path { s.setSave w phase with fs := (s.fs.openTrunc (tempPath path t)).2 } := by
  have hticket : (s.saves w).ticket = some t := by
    rw [hw]
    rfl
  rcases FileSystem.openTrunc_self s.fs (tempPath path t) with ⟨hself, hempty⟩
  -- A file with another name is neither emptied nor renamed.
  have hkeep : ∀ q file, q ≠ tempPath path t → s.fs.dir q = some file →
      (s.fs.openTrunc (tempPath path t)).2.data file = s.fs.data file := by
    intro q file hq hfile
    refine FileSystem.data_openTrunc_of_ne ?_ (h.noLinks.lt q file hfile)
    intro htemp
    exact hq (h.noLinks.inj q _ file hfile htemp)
  refine h.advance (h.noLinks.openTrunc _) (fun _ => le_rfl) ?_ ?_ ?_ ?_ (.inr ⟨?_, ?_, ?_, ?_⟩)
  · intro t' ht'
    rcases hphase with rfl | ⟨text, -, rfl⟩
    · contradiction
    · rw [SavePhase.ticket, Option.some_inj] at ht'
      subst ht'
      exact ⟨h.issued w t hticket, fun w' hne hw' => hne (h.exclusive w' w t hw' hticket)⟩
  · intro shards' hshards
    rcases hphase with rfl | ⟨text, -, rfl⟩
    · contradiction
    · apply h.nonempty w
      rw [hw]
      exact hshards
  · intro t' shards' file offset rest hwriting
    rcases hphase with rfl | ⟨text, hdump, rfl⟩
    · contradiction
    · rw [SavePhase.writing.injEq] at hwriting
      rcases hwriting with ⟨rfl, rfl, rfl, rfl, rfl⟩
      rw [hempty]
      exact ⟨hself, rfl, hdump⟩
  · intro w' t' shards' file offset rest hne hw'
    have hticket' : (s.saves w').ticket = some t' := by
      rw [hw']
      rfl
    have htemp := h.tempPath_ne_of_ne hne hticket hticket'
    have hfile := (h.written w' t' shards' file offset rest hw').1
    exact ⟨FileSystem.dir_openTrunc_of_ne htemp, hkeep _ file htemp hfile⟩
  · intro shards' hdone
    rcases hphase with rfl | ⟨text, -, rfl⟩
    · contradiction
    · contradiction
  · intro shards' hdone
    rw [hw] at hdone
    contradiction
  · exact FileSystem.dir_openTrunc_of_ne (tempPath_ne path t).symm
  · intro file hfile
    exact hkeep path file (tempPath_ne path t).symm hfile

theorem Inv.write (h : Inv lib path s) {w : ω} {t : Ticket} {shards : List ShardEndpoint}
    {file offset : Nat} {rest : Bytes} (hw : s.saves w = .writing t shards file offset rest)
    (size : Nat) :
    Inv lib path { s.setSave w (.writing t shards file (offset + (rest.take (size + 1)).length)
        (rest.drop (size + 1))) with
      fs := s.fs.writeAt file offset (rest.take (size + 1)) } := by
  have hticket : (s.saves w).ticket = some t := by
    rw [hw]
    rfl
  rcases h.written w t shards file offset rest hw with ⟨hdir, hlen, hdump⟩
  have hmine : (s.fs.writeAt file offset (rest.take (size + 1))).data file =
      s.fs.data file ++ rest.take (size + 1) := FileSystem.data_writeAt_self hlen
  have hkeep : ∀ q file', q ≠ tempPath path t → s.fs.dir q = some file' →
      (s.fs.writeAt file offset (rest.take (size + 1))).data file' = s.fs.data file' := by
    intro q file' hq hfile'
    apply Function.update_of_ne
    rintro rfl
    exact hq (h.noLinks.inj q _ file' hfile' hdir)
  refine h.advance (h.noLinks.writeAt ..) (fun _ => le_rfl) ?_ ?_ ?_ ?_ (.inr ⟨?_, ?_, rfl, ?_⟩)
  · intro t' ht'
    rw [SavePhase.ticket, Option.some_inj] at ht'
    subst ht'
    exact ⟨h.issued w t hticket, fun w' hne hw' => hne (h.exclusive w' w t hw' hticket)⟩
  · intro shards' hshards
    apply h.nonempty w
    rw [hw]
    exact hshards
  · intro t' shards' file' offset' rest' hwriting
    rw [SavePhase.writing.injEq] at hwriting
    rcases hwriting with ⟨rfl, rfl, rfl, rfl, rfl⟩
    refine ⟨hdir, ?_, ?_⟩
    · rw [hmine, List.length_append, hlen]
    · rw [hmine, List.append_assoc, List.take_append_drop, hdump]
  · intro w' t' shards' file' offset' rest' hne hw'
    have hticket' : (s.saves w').ticket = some t' := by
      rw [hw']
      rfl
    have htemp := h.tempPath_ne_of_ne hne hticket hticket'
    exact ⟨rfl, hkeep _ file' htemp (h.written w' t' shards' file' offset' rest' hw').1⟩
  · intro shards' hdone
    contradiction
  · intro shards' hdone
    rw [hw] at hdone
    contradiction
  · intro file' hfile'
    exact hkeep path file' (tempPath_ne path t).symm hfile'

theorem Inv.rename (h : Inv lib path s) {w : ω} {t : Ticket} {shards : List ShardEndpoint}
    {file offset : Nat} (hw : s.saves w = .writing t shards file offset [])
    {fs : FileSystem Bytes UInt8} (hr : s.fs.rename (tempPath path t) path = some fs) :
    Inv lib path { s.setSave w (.done shards) with fs := fs } := by
  have hticket : (s.saves w).ticket = some t := by
    rw [hw]
    rfl
  rcases h.written w t shards file offset [] hw with ⟨hdir, -, hdump⟩
  rcases FileSystem.rename_cases (tempPath_ne path t) h.noLinks hr with
    ⟨file', hfile', hpath, -, hother, hdata, -⟩
  have heq : file' = file := Option.some_inj.mp (hfile'.symm.trans hdir)
  subst heq
  refine h.advance (h.noLinks.rename (tempPath_ne path t) hr) (fun _ => le_rfl) ?_ ?_ ?_ ?_
    (.inl ⟨file', shards, rfl, hpath, ?_⟩)
  · intro t' ht'
    contradiction
  · intro shards' hshards
    apply h.nonempty w
    rw [hw]
    exact hshards
  · intro t' shards' file'' offset' rest' hwriting
    contradiction
  · intro w' t' shards' file'' offset' rest' hne hw'
    have hticket' : (s.saves w').ticket = some t' := by
      rw [hw']
      rfl
    have htemp := h.tempPath_ne_of_ne hne hticket hticket'
    exact ⟨hother _ htemp (tempPath_ne path t'), by rw [hdata]⟩
  · rw [hdata, hdump, List.append_nil]

variable [DecidableEq ρ]

/-- Every access keeps the invariant. -/
theorem Inv.step (h : Inv lib path s) (hok : SavesNonempty s act)
    (hstep : ConfigSystem.step lib path s act = some s') : Inv lib path s' := by
  rcases step_cases lib path hstep with ⟨w, pid, shards, rfl, hidle, rfl⟩ |
    ⟨w, t, shards, phase, rfl, hw, rfl, hphase⟩ |
    ⟨w, t, shards, file, offset, rest, size, rfl, hw, rfl⟩ |
    ⟨w, t, shards, file, offset, fs, rfl, hw, hr, rfl⟩ | ⟨w, -, hw, rfl⟩ |
    ⟨r, phase, rfl, -, rfl, -⟩ | ⟨r, file, text, size, phase, rfl, -, rfl, -⟩
  · exact h.beginSave hidle pid hok
  · exact h.openTemp hw hphase
  · exact h.write hw size
  · exact h.rename hw hr
  · exact h.setFailed hw
  · exact ⟨h.noLinks, h.issued, h.exclusive, h.nonempty, h.written, h.published⟩
  · exact ⟨h.noLinks, h.issued, h.exclusive, h.nonempty, h.written, h.published⟩

/-! ## Loads -/

/-- A file that was made and has no name but that of the config file. -/
def Settled (path : Bytes) (s : ConfigSystem ω ρ) (file : Nat) : Prop :=
  file < s.fs.next ∧ ∀ p, s.fs.dir p = some file → p = path

/-- Such a file stays as it is. -/
theorem Settled.step {file : Nat} (hsettled : Settled path s file) (h : Inv lib path s)
    (hstep : ConfigSystem.step lib path s act = some s') :
    Settled path s' file ∧ s'.fs.data file = s.fs.data file := by
  rcases hsettled with ⟨hlt, hname⟩
  rcases step_cases lib path hstep with ⟨w, pid, shards, rfl, hidle, rfl⟩ |
    ⟨w, t, shards, phase, rfl, hw, rfl, hphase⟩ |
    ⟨w, t, shards, file', offset, rest, size, rfl, hw, rfl⟩ |
    ⟨w, t, shards, file', offset, fs, rfl, hw, hr, rfl⟩ | ⟨w, -, hw, rfl⟩ |
    ⟨r, phase, rfl, -, rfl, -⟩ | ⟨r, file', text, size, phase, rfl, -, rfl, -⟩
  · exact ⟨⟨hlt, hname⟩, rfl⟩
  · have htemp : s.fs.dir (tempPath path t) ≠ some file :=
      fun hdir => tempPath_ne path t (hname _ hdir)
    refine ⟨⟨lt_of_lt_of_le hlt (FileSystem.next_le_openTrunc ..), ?_⟩,
      FileSystem.data_openTrunc_of_ne htemp hlt⟩
    intro p hp
    by_cases hpt : p = tempPath path t
    · dsimp only at hp
      rw [hpt, (FileSystem.openTrunc_self ..).1, Option.some_inj] at hp
      exact absurd (FileSystem.dir_of_openTrunc_eq hp hlt) htemp
    · dsimp only at hp
      rw [FileSystem.dir_openTrunc_of_ne hpt] at hp
      exact hname p hp
  · refine ⟨⟨hlt, hname⟩, Function.update_of_ne ?_ ..⟩
    rintro rfl
    exact tempPath_ne path t (hname _ (h.written w t shards file offset rest hw).1)
  · rcases FileSystem.rename_cases (tempPath_ne path t) h.noLinks hr with
      ⟨file'', -, hpath, htemp, hother, hdata, hnext⟩
    refine ⟨⟨?_, ?_⟩, by dsimp only; rw [hdata]⟩
    · dsimp only
      rwa [hnext]
    · intro p hp
      dsimp only at hp
      by_cases hpp : p = path
      · exact hpp
      · by_cases hpt : p = tempPath path t
        · rw [hpt, htemp] at hp
          contradiction
        · rw [hother p hpt hpp] at hp
          exact hname p hp
  · exact ⟨⟨hlt, hname⟩, rfl⟩
  · exact ⟨⟨hlt, hname⟩, rfl⟩
  · exact ⟨⟨hlt, hname⟩, rfl⟩

/-- A load that is reading the document of a list, or has returned the list.  {lit}`left`
bounds the number of reads that it still takes. -/
def Follows (lib : JsonLibrary) (path : Bytes) (r : ρ) (shards : List ShardEndpoint)
    (s : ConfigSystem ω ρ) (left : Nat) : Prop :=
  (∃ file text rest, s.loads r = .reading file text ∧ Settled path s file ∧
    s.fs.data file = text ++ rest ∧ lib.dump (configJson shards) = some (text ++ rest) ∧
    rest.length < left) ∨
  s.loads r = .finished (.ok shards)

/-- Whether an action is a read of a load. -/
def isRead (r : ρ) : ConfigAction ω ρ → Bool
  | .read r' _ => decide (r' = r)
  | _ => false

/-- The phase of a load changes only when it is opened and when it reads. -/
theorem loads_of_not_isRead {r : ρ} (hopened : s.loads r ≠ .idle) (hread : isRead r act = false)
    (hstep : ConfigSystem.step lib path s act = some s') : s'.loads r = s.loads r := by
  rcases step_cases lib path hstep with ⟨w, pid, shards, rfl, hidle, rfl⟩ |
    ⟨w, t, shards, phase, rfl, hw, rfl, hphase⟩ |
    ⟨w, t, shards, file', offset, rest, size, rfl, hw, rfl⟩ |
    ⟨w, t, shards, file', offset, fs, rfl, hw, hr, rfl⟩ | ⟨w, -, hw, rfl⟩ |
    ⟨r', phase, rfl, hidle, rfl, -⟩ | ⟨r', file', text, size, phase, rfl, -, rfl, -⟩
  · rfl
  · rfl
  · rfl
  · rfl
  · rfl
  · refine Function.update_of_ne ?_ ..
    rintro rfl
    exact hopened hidle
  · refine Function.update_of_ne ?_ ..
    rintro rfl
    simp [isRead] at hread

/-- A read of a document gets closer to its end, and the one at the end returns the
list. -/
theorem Follows.read {r : ρ} {shards : List ShardEndpoint} {left size file : Nat}
    {text rest : Bytes} (hne : shards ≠ []) (hr : s.loads r = .reading file text)
    (hsettled : Settled path s file) (hdata : s.fs.data file = text ++ rest)
    (hdump : lib.dump (configJson shards) = some (text ++ rest)) (hleft : rest.length < left)
    (hstep : ConfigSystem.step lib path s (.read r size) = some s') :
    Follows lib path r shards s' (left - 1) := by
  simp only [ConfigSystem.step, hr, hdata, List.drop_left] at hstep
  cases rest with
  | nil =>
      rw [List.take_nil, Option.some_inj] at hstep
      subst hstep
      rw [List.append_nil] at hdump
      have hresult := lib.loadText_dump hne hdump
      rw [hresult]
      exact .inr (Function.update_self ..)
  | cons b rest =>
      rw [List.take_succ_cons, Option.some_inj] at hstep
      subst hstep
      have hsplit : text ++ b :: rest = text ++ (b :: rest.take size) ++ rest.drop size := by
        rw [List.append_assoc, List.cons_append, List.take_append_drop]
      left
      refine ⟨file, text ++ (b :: rest.take size), rest.drop size, Function.update_self ..,
        hsettled, ?_, ?_, ?_⟩
      · rw [← hsplit]
        exact hdata
      · rw [← hsplit, hdump]
      · rw [List.length_cons] at hleft
        rw [List.length_drop]
        omega

theorem Follows.step {r : ρ} {shards : List ShardEndpoint} {left : Nat}
    (hfollows : Follows lib path r shards s left) (hne : shards ≠ []) (h : Inv lib path s)
    (hstep : ConfigSystem.step lib path s act = some s') :
    Follows lib path r shards s' (left - if isRead r act then 1 else 0) := by
  cases hread : isRead r act with
  | true =>
      have hact : ∃ size, act = .read r size := by
        cases act with
        | read r' size =>
            rw [isRead, decide_eq_true_eq] at hread
            exact ⟨size, by rw [hread]⟩
        | _ => contradiction
      rcases hact with ⟨size, rfl⟩
      rcases hfollows with ⟨file, text, rest, hr, hsettled, hdata, hdump, hleft⟩ | hr
      · exact Follows.read hne hr hsettled hdata hdump hleft hstep
      · simp only [ConfigSystem.step, hr] at hstep
        contradiction
  | false =>
      rcases hfollows with ⟨file, text, rest, hr, hsettled, hdata, hdump, hleft⟩ | hr
      · have hsame := loads_of_not_isRead (by rw [hr]; exact LoadPhase.noConfusion) hread hstep
        rcases hsettled.step h hstep with ⟨hsettled', hdata'⟩
        exact .inl ⟨file, text, rest, hsame.trans hr, hsettled', hdata'.trans hdata, hdump, hleft⟩
      · have hsame := loads_of_not_isRead (by rw [hr]; exact LoadPhase.noConfusion) hread hstep
        exact .inr (hsame.trans hr)

theorem Follows.run {r : ρ} {shards : List ShardEndpoint} {left : Nat}
    {acts : List (ConfigAction ω ρ)}
    (hrun : Exec (ConfigSystem.step lib path) SavesNonempty s acts s')
    (hfollows : Follows lib path r shards s left) (hne : shards ≠ []) (h : Inv lib path s) :
    Follows lib path r shards s' (left - acts.countP (isRead r)) := by
  induction hrun generalizing left with
  | nil s => exact hfollows
  | @cons s t s'' a as hok hstep _ ih =>
      have hnext := ih (hfollows.step hne h hstep) (h.step hok hstep)
      rw [List.countP_cons]
      rw [Nat.sub_sub, Nat.add_comm] at hnext
      exact hnext

/-- A file system without links on which no save has begun. -/
structure Initial (s : ConfigSystem ω ρ) : Prop where
  noLinks : s.fs.NoLinks
  idle : ∀ w, s.saves w = .idle

omit [DecidableEq ω] [DecidableEq ρ] in
theorem Initial.inv (h : Initial s) : Inv lib path s := by
  refine ⟨h.noLinks, ?_, ?_, ?_, ?_, ?_⟩
  · intro w t ht
    rw [h.idle w] at ht
    contradiction
  · intro w w' t ht
    rw [h.idle w] at ht
    contradiction
  · intro w shards hshards
    rw [h.idle w] at hshards
    contradiction
  · intro w t shards file offset rest hw
    rw [h.idle w] at hw
    contradiction
  · intro w shards hw
    rw [h.idle w] at hw
    contradiction

/-- A load can always take its next read. -/
theorem step_read_isSome {r : ρ} {file : Nat} {text : Bytes} (hr : s.loads r = .reading file text)
    (size : Nat) : (ConfigSystem.step lib path s (.read r size)).isSome = true := by
  simp only [ConfigSystem.step, hr]
  split <;> rfl

/-- A load that is opened when a save is done follows the document of a save that is
done. -/
theorem Inv.openLoad (h : Inv lib path s) {w : ω} {shards : List ShardEndpoint}
    (hdone : s.saves w = .done shards) {r : ρ}
    (hopen : ConfigSystem.step lib path s (.openLoad r) = some s') :
    ∃ w' shards' left, s.saves w' = .done shards' ∧ shards' ≠ [] ∧
      Follows lib path r shards' s' left := by
  rcases h.published w shards hdone with ⟨file, w', shards', hdir, hw', hdump⟩
  have hne : shards' ≠ [] := by
    apply h.nonempty w'
    rw [hw']
    rfl
  simp only [ConfigSystem.step] at hopen
  split at hopen
  · rw [hdir, Option.some_inj] at hopen
    subst hopen
    refine ⟨w', shards', (s.fs.data file).length + 1, hw', hne, .inl ⟨file, [], s.fs.data file,
      Function.update_self .., ⟨h.noLinks.lt path file hdir, ?_⟩, rfl, hdump, Nat.lt_succ_self _⟩⟩
    intro p hp
    exact h.noLinks.inj p path file hp hdir
  · contradiction

/-- In every interleaving: a load that is opened after a save is done returns, after at
most {lit}`bound` reads, the list of a save that was done when it was opened. -/
theorem load_returns_saved_list (lib : JsonLibrary) (path : Bytes) {s₀ s s₁ : ConfigSystem ω ρ}
    {acts : List (ConfigAction ω ρ)} (hinit : Initial s₀)
    (hrun : Exec (ConfigSystem.step lib path) SavesNonempty s₀ acts s) {w : ω}
    {shards : List ShardEndpoint} (hdone : s.saves w = .done shards) {r : ρ}
    (hopen : ConfigSystem.step lib path s (.openLoad r) = some s₁) :
    ∃ w' shards' bound, s.saves w' = .done shards' ∧
      ∀ acts' s', Exec (ConfigSystem.step lib path) SavesNonempty s₁ acts' s' →
        (∀ result, s'.loads r = .finished result → result = .ok shards') ∧
        (bound ≤ acts'.countP (isRead r) → s'.loads r = .finished (.ok shards')) ∧
        (s'.loads r = .finished (.ok shards') ∨
          ∀ size, (ConfigSystem.step lib path s' (.read r size)).isSome = true) := by
  have hinv : Inv lib path s :=
    hrun.invariant (Inv lib path) (fun _ _ _ h hok hstep => h.step hok hstep) hinit.inv
  rcases hinv.openLoad hdone hopen with ⟨w', shards', bound, hw', hne, hfollows⟩
  have hok : SavesNonempty s (.openLoad r) := trivial
  have hinv₁ : Inv lib path s₁ := hinv.step hok hopen
  refine ⟨w', shards', bound, hw', ?_⟩
  intro acts' s' hrun'
  rcases Follows.run hrun' hfollows hne hinv₁ with
    ⟨file, text, rest, hr, -, -, -, hleft⟩ | hr
  · refine ⟨?_, ?_, .inr fun size => step_read_isSome hr size⟩
    · intro result hresult
      rw [hr] at hresult
      contradiction
    · intro hbound
      omega
  · refine ⟨?_, fun _ => hr, .inl hr⟩
    intro result hresult
    rw [hr] at hresult
    exact (LoadPhase.finished.inj hresult).symm

/-! ## Two saves at once -/

/-- A cluster of one replica. -/
def oneReplica : List ShardEndpoint :=
  [⟨0, 0, [97], 7001, true⟩]

/-- A cluster whose replica is on another port. -/
def movedReplica : List ShardEndpoint :=
  [⟨0, 0, [97], 7002, true⟩]

/-- The text of {lit}`dump(2)` for a cluster of one replica on the host {lit}`a`. -/
def dumpText (port : Bytes) : Bytes :=
  [123, 10, 32, 32, 34, 115, 104, 97, 114, 100, 115, 34, 58, 32, 91, 10, 32, 32, 32, 32, 123, 10,
    32, 32, 32, 32, 32, 32, 34, 104, 111, 115, 116, 34, 58, 32, 34, 97, 34, 44, 10, 32, 32, 32,
    32, 32, 32, 34, 112, 111, 114, 116, 34, 58, 32] ++
    port ++
  [44, 10, 32, 32, 32, 32, 32, 32, 34, 112, 114, 105, 109, 97, 114, 121, 34, 58, 32, 116, 114,
    117, 101, 44, 10, 32, 32, 32, 32, 32, 32, 34, 114, 101, 112, 108, 105, 99, 97, 95, 105, 100,
    34, 58, 32, 48, 44, 10, 32, 32, 32, 32, 32, 32, 34, 115, 104, 97, 114, 100, 95, 105, 100, 34,
    58, 32, 48, 10, 32, 32, 32, 32, 125, 10, 32, 32, 93, 10, 125]

/-- The library on the two documents. -/
def twoDocuments : JsonLibrary where
  dump j :=
    if j = configJson oneReplica then some (dumpText [55, 48, 48, 49])
    else if j = configJson movedReplica then some (dumpText [55, 48, 48, 50])
    else none
  parse text :=
    if text = dumpText [55, 48, 48, 49] then some (configJson oneReplica)
    else if text = dumpText [55, 48, 48, 50] then some (configJson movedReplica)
    else none
  parse_dump j text h := by
    have hne : dumpText [55, 48, 48, 50] ≠ dumpText [55, 48, 48, 49] := by decide +kernel
    split_ifs at h with hone hmoved
    · rw [← Option.some_inj.mp h, if_pos rfl, hone]
    · rw [← Option.some_inj.mp h, if_neg hne, if_pos rfl, hmoved]

/-- No files, and no calls yet. -/
def noFiles : ConfigSystem Bool Unit where
  fs := ⟨fun _ => none, fun _ => [], 0⟩
  counter _ := 0
  saves _ := .idle
  loads _ := .idle

/-- Two processes write their files at the same time, and the one that began first renames
last. -/
def twoSaves : List (ConfigAction Bool Unit) :=
  [.beginSave false 10 oneReplica, .beginSave true 11 movedReplica, .openTemp false,
    .write false 40, .openTemp true, .write true 9, .write false 200, .write true 200, .rename true,
    .rename false]

instance (s : ConfigSystem Bool Unit) (act : ConfigAction Bool Unit) :
    Decidable (SavesNonempty s act) :=
  match act with
  | .beginSave _ _ shards => inferInstanceAs (Decidable (shards ≠ []))
  | .openTemp _ => .isTrue trivial
  | .write _ _ => .isTrue trivial
  | .rename _ => .isTrue trivial
  | .fail _ => .isTrue trivial
  | .openLoad _ => .isTrue trivial
  | .read _ _ => .isTrue trivial

private theorem twoSaves_isSome : (guardedRun (ConfigSystem.step twoDocuments [99]) SavesNonempty
    noFiles twoSaves).isSome := by
  decide +kernel

theorem load_returns_saved_list_twoSaves :
    ∃ s s₁ : ConfigSystem Bool Unit,
      Exec (ConfigSystem.step twoDocuments [99]) SavesNonempty noFiles twoSaves s ∧
      ConfigSystem.step twoDocuments [99] s (.openLoad ()) = some s₁ ∧
      ∃ w shards bound, s.saves w = .done shards ∧
        ∀ acts' s', Exec (ConfigSystem.step twoDocuments [99]) SavesNonempty s₁ acts' s' →
          (∀ result, s'.loads () = .finished result → result = .ok shards) ∧
          (bound ≤ acts'.countP (isRead ()) → s'.loads () = .finished (.ok shards)) ∧
          (s'.loads () = .finished (.ok shards) ∨
            ∀ size, (ConfigSystem.step twoDocuments [99] s' (.read () size)).isSome = true) := by
  have hinit : Initial noFiles := by
    refine ⟨⟨?_, ?_⟩, fun _ => rfl⟩
    · intro p q i hp
      contradiction
    · intro p i hp
      contradiction
  have hrun := Exec.of_guardedRun (ConfigSystem.step twoDocuments [99]) SavesNonempty noFiles
    twoSaves twoSaves_isSome
  have hdone : ((guardedRun (ConfigSystem.step twoDocuments [99]) SavesNonempty noFiles
      twoSaves).get twoSaves_isSome).saves false = .done oneReplica := by
    decide +kernel
  have hopen : (ConfigSystem.step twoDocuments [99] ((guardedRun (ConfigSystem.step twoDocuments
      [99]) SavesNonempty noFiles twoSaves).get twoSaves_isSome) (.openLoad ())).isSome := by
    decide +kernel
  exact ⟨_, _, hrun, (Option.some_get hopen).symm,
    load_returns_saved_list twoDocuments [99] hinit hrun hdone (Option.some_get hopen).symm⟩

end ConfigSystem

end NanoDB.Coordinator

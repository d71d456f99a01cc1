/-
# `MP1.OpenFiles` — open files of the host

The kernel keeps twenty pointers to open files, and an open file is a descriptor
of the host with an offset.  `Read` adds to the offset whatever `read` returned,
also -1, and `ReadAFile` looks at the sum of nothing but 0: it returns the -1,
and the offset has gone back by one.  `WriteFile` asserts that everything was
written, which is true of -1 bytes if `write` fails.

A call is made with the answers of the host.  The bytes themselves go between
the host and the buffer of the caller, and nothing here looks at them.

The offset is an `int`, and nothing stops it at the end of that type: the sum
wraps, as it does in the compiled kernel.  So a file that is read without an end
(a device, or one that is written as fast) has a negative offset after two
gigabytes, and `Fine` has to say that this does not happen.
-/
import Mathlib.Data.List.FinRange
import EroikoBlue.Debug
import EroikoBlue.Lib.Bytes
import EroikoBlue.Lib.Trace

namespace EroikoBlue.MP1

open Bytes (int32 int32_of_range)

abbrev OpenFileId := Int

/-- What the host returns while one call is made. -/
structure Host where
  «open» : Int
  lseek (offset : Int) : Int
  read (nBytes : Int) : Int
  write (nBytes : Int) : Int
  close : Int
  read_cases : ∀ n, read n = -1 ∨ 0 ≤ read n ∧ read n ≤ n
  write_cases : ∀ n, write n = -1 ∨ 0 ≤ write n ∧ write n ≤ n

namespace Host

/-- `Lseek`; the two below it must not fail either. -/
def Lseek (host : Host) (offset : Int) : Except Fault Unit :=
  assertMsg (0 ≤ host.lseek offset) ""

def WriteFile (host : Host) (nBytes : Int) : Except Fault Unit :=
  assertMsg (host.write nBytes = nBytes) ""

def Close (host : Host) : Except Fault Unit := assertMsg (0 ≤ host.close) ""

end Host

/-! ## `OpenFile` -/

structure OpenFile where
  file : Int
  currentOffset : Int

namespace OpenFile

/-- `ReadAt`. -/
def readAt (host : Host) (numBytes position : Int) : Except Fault Int := do
  host.Lseek position
  pure (host.read numBytes)

/-- `WriteAt`. -/
def writeAt (host : Host) (numBytes position : Int) : Except Fault Int := do
  host.Lseek position
  host.WriteFile numBytes
  pure numBytes

/-- `Read`. -/
def read (f : OpenFile) (host : Host) (numBytes : Int) :
    Except Fault (Int × OpenFile) := do
  let numRead ← readAt host numBytes f.currentOffset
  pure (numRead, { f with currentOffset := int32 (f.currentOffset + numRead) })

/-- `Write`. -/
def write (f : OpenFile) (host : Host) (numBytes : Int) :
    Except Fault (Int × OpenFile) := do
  let numWritten ← writeAt host numBytes f.currentOffset
  pure (numWritten,
    { f with currentOffset := int32 (f.currentOffset + numWritten) })

end OpenFile

/-! ## `FileSystem` -/

structure FileSystem where
  openFileTable : Fin 20 → Option OpenFile

namespace FileSystem

/-- `FileSystem()`. -/
def new : FileSystem := ⟨fun _ => none⟩

/-- `Open`; `none` is NULL. -/
def «open» (host : Host) : Option OpenFile := if host.open = -1 then none
    else some ⟨host.open, 0⟩

/-- `OpenFileTable[id] = fp`. -/
def set (fs : FileSystem) (id : Fin 20) (fp : Option OpenFile) : FileSystem :=
  ⟨Function.update fs.openFileTable id fp⟩

/-- The first free entry. -/
def free (fs : FileSystem) : Option (Fin 20) :=
  (List.finRange 20).find? fun id => (fs.openFileTable id).isNone

/-- `OpenAFile`. -/
def openAFile (fs : FileSystem) (host : Host) : Int × FileSystem :=
  match fs.free with
  | none => (-1, fs)
  | some id =>
    match FileSystem.open host with
    | none => (-1, fs)
    | some fp => (id, fs.set id (some fp))

/-- The entry of an identifier, if it is one and is in use. -/
def entry (fs : FileSystem) (id : OpenFileId) : Option (Fin 20 × OpenFile) :=
  if h : 0 ≤ id ∧ id < 20 then
    let i : Fin 20 := ⟨id.toNat, (Int.toNat_lt h.1).mpr h.2⟩
    (fs.openFileTable i).map fun f => (i, f)
  else none

/-- `ReadAFile`. -/
def readAFile (fs : FileSystem) (host : Host) (size : Int) (id : OpenFileId) :
    Except Fault (Int × FileSystem) :=
  match fs.entry id with
  | none => pure (-1, fs)
  | some (i, f) => do
    let (ret, f) ← f.read host size
    pure (if ret = 0 then -1 else ret, fs.set i (some f))

/-- `WriteAFile`. -/
def writeAFile (fs : FileSystem) (host : Host) (size : Int) (id : OpenFileId) :
    Except Fault (Int × FileSystem) :=
  match fs.entry id with
  | none => pure (-1, fs)
  | some (i, f) => do
    let (ret, f) ← f.write host size
    pure (if ret = 0 then -1 else ret, fs.set i (some f))

/-- `CloseAFile`, with `~OpenFile`. -/
def closeAFile (fs : FileSystem) (host : Host) (id : OpenFileId) :
    Except Fault (Int × FileSystem) :=
  match fs.entry id with
  | none => pure (-1, fs)
  | some (i, _) => do
    host.Close
    pure (1, fs.set i none)

end FileSystem

/-! ## Calls -/

inductive Call where
  | openAFile
  | readAFile (size : Int) (id : OpenFileId)
  | writeAFile (size : Int) (id : OpenFileId)
  | closeAFile (id : OpenFileId)

/-- A call: what it returns, and the file system after it. -/
def Call.run (fs : FileSystem) (host : Host) : Call →
    Except Fault (Int × FileSystem)
  | .openAFile => pure (fs.openAFile host)
  | .readAFile size id => fs.readAFile host size id
  | .writeAFile size id => fs.writeAFile host size id
  | .closeAFile id => fs.closeAFile host id

/-- The bytes that were read and written through each entry since it was opened,
as the calls returned them. -/
abbrev Sums := Fin 20 → Int

/-- The sums after a call that returned `r`. -/
def Call.tally (r : Int) (sums : Sums) : Call → Sums
  | .openAFile => fun i => if (i : Int) = r then 0 else sums i
  | .readAFile _ id | .writeAFile _ id => fun i => if (i : Int) = id ∧
        r ≠ -1 then sums i + r else sums i
  | .closeAFile _ => sums

structure State where
  fs : FileSystem
  sums : Sums

def State.new : State := ⟨.new, fun _ => 0⟩

/-- A call that returns. -/
def Step (s : State) (a : Call × Host) (s' : State) : Prop :=
  ∃ r, a.1.run s.fs a.2 = .ok (r, s'.fs) ∧ s'.sums = a.1.tally r s.sums

/-- What is asked of a call. -/
structure Law (s : State) (a : Call × Host) : Prop where
  offsets : ∀ s', Step s a s' → ∀ i f, s'.fs.openFileTable i = some f →
    f.currentOffset = s'.sums i
  /-- `OpenAFile` returns an identifier that was not in use, or fails. -/
  opened : a.1 = .openAFile → ∃ r fs', a.1.run s.fs a.2 = .ok (r, fs') ∧
    (r = -1 ↔ (∀ i, s.fs.openFileTable i ≠ none) ∨ a.2.open = -1) ∧
      (r = -1 → fs' = s.fs) ∧
    (r ≠ -1 → ∃ i : Fin 20, r = i ∧ s.fs.openFileTable i = none ∧
      fs' = s.fs.set i (some ⟨a.2.open, 0⟩))
  failed : ∀ size id fs', a.1 = .readAFile size id →
    a.1.run s.fs a.2 = .ok (-1, fs') → fs' = s.fs

/-- The host does not fail to read, nor to write -1 bytes, where that is tried,
and what it reads or writes ends at an offset that is an `int`. -/
def Fine (s : State) (a : Call × Host) : Prop :=
  match a.1 with
  | .readAFile size id => ∀ i f, s.fs.entry id = some (i, f) →
        0 ≤ a.2.lseek f.currentOffset →
      a.2.read size ≠ -1 ∧ f.currentOffset + a.2.read size ≤ 2147483647
  | .writeAFile size id => ∀ i f, s.fs.entry id = some (i, f) →
        0 ≤ a.2.lseek f.currentOffset →
      ¬ (size = -1 ∧ a.2.write size = -1) ∧
        (a.2.write size = size → f.currentOffset + size ≤ 2147483647)
  | _ => True

/-! ## What a call does -/

section
variable {fs fs' : FileSystem} {host : Host} {id : OpenFileId} {i : Fin 20}
  {f : OpenFile} {size r : Int}

theorem FileSystem.entry_eq_some : fs.entry id = some (i, f) ↔ (i : Int) = id ∧
    fs.openFileTable i = some f := by
  rw [entry]
  split
  · next h =>
      have hval : ((⟨id.toNat, (Int.toNat_lt h.1).mpr h.2⟩ : Fin 20) : Int) =
        id := Int.toNat_of_nonneg h.1
      dsimp only
      rw [Option.map_eq_some_iff]
      constructor
      · rintro ⟨_, hf, ⟨⟩⟩
        exact ⟨hval, hf⟩
      · rintro ⟨hi, hf⟩
        have heq : i = ⟨id.toNat, (Int.toNat_lt h.1).mpr h.2⟩ :=
          Fin.ext (Int.ofNat_inj.mp (hi.trans hval.symm))
        exact ⟨f, heq ▸ hf, by rw [heq]⟩
  · next h =>
      constructor
      · nofun
      · rintro ⟨rfl, _⟩
        exact absurd ⟨Int.natCast_nonneg _, Int.ofNat_lt.mpr i.isLt⟩ h

/-- `n` bytes more of the file `f` at `i` are done, and `r` is returned. -/
structure Moves (fs : FileSystem) (host : Host) (i : Fin 20) (f : OpenFile)
    (n r : Int) (fs' : FileSystem) : Prop where
  sought : 0 ≤ host.lseek f.currentOffset
  returned : r = if n = 0 then -1 else n
  moved : fs' =
    fs.set i (some { f with currentOffset := int32 (f.currentOffset + n) })

theorem readAFile_none (h : fs.entry id = none) :
    fs.readAFile host size id = .ok (-1, fs) := by
  rw [FileSystem.readAFile, h]
  rfl

theorem writeAFile_none (h : fs.entry id = none) :
    fs.writeAFile host size id = .ok (-1, fs) := by
  rw [FileSystem.writeAFile, h]
  rfl

theorem closeAFile_none (h : fs.entry id = none) :
    fs.closeAFile host id = .ok (-1, fs) := by
  rw [FileSystem.closeAFile, h]
  rfl

theorem readAFile_some (h : fs.entry id = some (i, f)) :
    fs.readAFile host size id = .ok (r, fs') ↔
      Moves fs host i f (host.read size) r fs' := by
  rw [FileSystem.readAFile, h]
  dsimp only
  rw [OpenFile.read, OpenFile.readAt, Host.Lseek]
  constructor
  · intro hrun
    obtain ⟨⟨ret, f'⟩, hread, hpure⟩ := Outcome.bind_eq_ok.mp hrun
    obtain ⟨n, hat, hread⟩ := Outcome.bind_eq_ok.mp hread
    obtain ⟨_, hseek, hn⟩ := Outcome.bind_eq_ok.mp hat
    cases hn
    cases hread
    cases hpure
    exact ⟨assertMsg_eq_ok.mp hseek, rfl, rfl⟩
  · rintro ⟨hseek, rfl, rfl⟩
    rw [assertMsg_pos hseek]
    rfl

theorem writeAFile_some (h : fs.entry id = some (i, f)) :
    fs.writeAFile host size id = .ok (r, fs') ↔ host.write size = size ∧
      Moves fs host i f size r fs' := by
  rw [FileSystem.writeAFile, h]
  dsimp only
  rw [OpenFile.write, OpenFile.writeAt, Host.Lseek, Host.WriteFile]
  constructor
  · intro hrun
    obtain ⟨⟨ret, f'⟩, hwrite, hpure⟩ := Outcome.bind_eq_ok.mp hrun
    obtain ⟨n, hat, hwrite⟩ := Outcome.bind_eq_ok.mp hwrite
    obtain ⟨_, hseek, hat⟩ := Outcome.bind_eq_ok.mp hat
    obtain ⟨_, hall, hn⟩ := Outcome.bind_eq_ok.mp hat
    cases hn
    cases hwrite
    cases hpure
    exact ⟨assertMsg_eq_ok.mp hall, assertMsg_eq_ok.mp hseek, rfl, rfl⟩
  · rintro ⟨hall, hseek, rfl, rfl⟩
    rw [assertMsg_pos hseek, Outcome.ok_bind, assertMsg_pos hall]
    rfl

end

/-! ## Offsets and sums -/

/-- The offset of every open file is its sum, and an `int`. -/
structure Sound (s : State) : Prop where
  sums : ∀ i f, s.fs.openFileTable i = some f → f.currentOffset = s.sums i
  range : ∀ i f, s.fs.openFileTable i = some f → 0 ≤ f.currentOffset ∧
    f.currentOffset < 2147483648

section
variable {s s' : State} {host : Host} {id : OpenFileId} {i : Fin 20}
  {f : OpenFile} {n r size : Int}
  {fs fs' : FileSystem}

/-- The sums after bytes were read or written. -/
def moveSums (id : OpenFileId) (r : Int) (sums : Sums) : Sums :=
  fun i => if (i : Int) = id ∧ r ≠ -1 then sums i + r else sums i

theorem FileSystem.set_self (fs : FileSystem) (i : Fin 20)
    (fp : Option OpenFile) :
    (fs.set i fp).openFileTable i = fp := Function.update_self _ _ _

theorem FileSystem.set_of_ne {j : Fin 20} (fs : FileSystem)
    (fp : Option OpenFile) (h : j ≠ i) :
    (fs.set i fp).openFileTable j = fs.openFileTable j :=
  Function.update_of_ne h _ _

theorem FileSystem.set_same (h : fs.openFileTable i = some f) :
    fs.set i (some f) = fs := by
  rw [set, ← h, Function.update_eq_self]

theorem Sound.set {fp : Option OpenFile}
    {sums : Sums} (h : Sound s) (hsums : ∀ j, j ≠ i → sums j = s.sums j)
    (hnew : ∀ f, fp = some f → f.currentOffset = sums i ∧ 0 ≤ f.currentOffset ∧
      f.currentOffset < 2147483648) :
    Sound ⟨s.fs.set i fp, sums⟩ := by
  constructor
  case sums =>
    intro j f hf
    dsimp only at hf
    by_cases hj : j = i
    · subst hj
      rw [FileSystem.set_self] at hf
      exact (hnew f hf).1
    · rw [FileSystem.set_of_ne _ _ hj] at hf
      exact (h.sums j f hf).trans (hsums j hj).symm
  case range =>
    intro j f hf
    dsimp only at hf
    by_cases hj : j = i
    · subst hj
      rw [FileSystem.set_self] at hf
      exact (hnew f hf).2
    · rw [FileSystem.set_of_ne _ _ hj] at hf
      exact h.range j f hf

theorem Sound.moves (h : Sound s) (hentry : s.fs.entry id = some (i, f))
    (hn : 0 ≤ n) (hfits : f.currentOffset + n ≤ 2147483647)
    (hmoves : Moves s.fs host i f n r fs') :
    Sound ⟨fs', moveSums id r s.sums⟩ := by
  obtain ⟨hi, hf⟩ := FileSystem.entry_eq_some.mp hentry
  obtain ⟨_, rfl, rfl⟩ := hmoves
  have hrange := h.range i f hf
  have hsum := h.sums i f hf
  have hexact : int32 (f.currentOffset + n) = f.currentOffset + n :=
    int32_of_range ⟨by omega, by omega⟩
  rw [hexact]
  refine h.set ?_ ?_
  · intro j hj
    exact if_neg fun heq =>
      hj (Fin.ext (Int.ofNat_inj.mp (heq.1.trans hi.symm)))
  · rintro _ ⟨⟩
    refine ⟨?_, Int.add_nonneg hrange.1 hn, Int.lt_of_le_sub_one hfits⟩
    dsimp only
    rw [moveSums]
    by_cases hzero : n = 0
    · rw [if_pos hzero, if_neg fun heq => heq.2 rfl, hzero, Int.add_zero, hsum]
    · rw [if_neg hzero, if_pos ⟨hi, by omega⟩, hsum]

theorem Sound.unknown (h : Sound s) :
    Sound ⟨s.fs, moveSums id (-1) s.sums⟩ := by
  have hsame : moveSums id (-1) s.sums = s.sums :=
    funext fun i => if_neg fun heq => heq.2 rfl
  rw [hsame]
  exact h

theorem openAFile_cases (fs : FileSystem) (host : Host) :
    (fs.openAFile host = (-1, fs) ∧
        ((∀ i, fs.openFileTable i ≠ none) ∨ host.open = -1)) ∨
      ∃ i : Fin 20, fs.openAFile host = ((i : Int),
          fs.set i (some ⟨host.open, 0⟩)) ∧ fs.openFileTable i = none ∧
        host.open ≠ -1 := by
  rw [FileSystem.openAFile]
  cases hfree : fs.free with
  | none =>
      refine .inl ⟨rfl, .inl fun i hi => ?_⟩
      have hused := List.find?_eq_none.mp hfree i (List.mem_finRange i)
      rw [hi] at hused
      exact hused rfl
  | some i =>
      have hfound := List.find?_some hfree
      have hnone : fs.openFileTable i = none :=
        Option.isNone_iff_eq_none.mp hfound
      rw [FileSystem.open]
      by_cases hopen : host.open = -1
      · rw [if_pos hopen]
        exact .inl ⟨rfl, .inr hopen⟩
      · rw [if_neg hopen]
        exact .inr ⟨i, rfl, hnone, hopen⟩

theorem Sound.step {a : Call × Host} (h : Sound s) (hfine : Fine s a)
    (hstep : Step s a s') : Sound s' := by
  obtain ⟨c, host⟩ := a
  obtain ⟨fs', sums'⟩ := s'
  obtain ⟨r, hrun, rfl⟩ := hstep
  cases c with
  | openAFile =>
      rcases openAFile_cases s.fs host with ⟨heq, _⟩ | ⟨i, heq, _, _⟩
      · cases (congrArg Except.ok heq).symm.trans hrun
        refine ⟨fun i f hf => ?_, h.range⟩
        have hne : ¬ (i : Int) = -1 := by omega
        show _ = if (i : Int) = -1 then 0 else s.sums i
        rw [if_neg hne]
        exact h.sums i f hf
      · cases (congrArg Except.ok heq).symm.trans hrun
        refine h.set ?_ ?_
        · intro j hj
          exact if_neg fun heq => hj (Fin.ext (Int.ofNat_inj.mp heq))
        · rintro _ ⟨⟩
          exact ⟨(if_pos rfl).symm, Int.le_refl 0,
            show (0 : Int) < 2147483648 by decide⟩
  | readAFile size id =>
      cases hentry : s.fs.entry id with
      | none =>
          cases (readAFile_none hentry).symm.trans hrun
          exact h.unknown
      | some e =>
          obtain ⟨i, f⟩ := e
          have hmoves := (readAFile_some hentry).mp hrun
          obtain ⟨hreads, hfits⟩ := hfine i f hentry hmoves.sought
          have hread : 0 ≤ host.read size ∧ _ :=
            (host.read_cases size).resolve_left hreads
          exact h.moves hentry hread.1 hfits hmoves
  | writeAFile size id =>
      cases hentry : s.fs.entry id with
      | none =>
          cases (writeAFile_none hentry).symm.trans hrun
          exact h.unknown
      | some e =>
          obtain ⟨i, f⟩ := e
          obtain ⟨hall, hmoves⟩ := (writeAFile_some hentry).mp hrun
          obtain ⟨hsize, hfits⟩ := hfine i f hentry hmoves.sought
          have hwrite := host.write_cases size
          rw [hall] at hsize hwrite
          exact h.moves hentry (by omega) (hfits hall) hmoves
  | closeAFile id =>
      cases hentry : s.fs.entry id with
      | none =>
          cases (closeAFile_none hentry).symm.trans hrun
          exact h
      | some e =>
          obtain ⟨i, f⟩ := e
          have hclose : s.fs.closeAFile host id = .ok (r, fs') := hrun
          rw [FileSystem.closeAFile, hentry] at hclose
          obtain ⟨_, _, hpure⟩ := Outcome.bind_eq_ok.mp hclose
          cases hpure
          exact h.set (fun j _ => rfl) nofun

theorem law_of_fine {a : Call × Host} (h : Sound s) (hfine : Fine s a) :
    Law s a where
  offsets s' hstep := (h.step hfine hstep).sums
  opened hopen := by
    obtain ⟨c, host⟩ := a
    cases hopen
    rcases openAFile_cases s.fs host with ⟨heq, hwhy⟩ | ⟨i, heq, hnone, hopen⟩
    · exact ⟨_, _, congrArg Except.ok heq, iff_of_true rfl hwhy, fun _ => rfl,
        fun hne => absurd rfl hne⟩
    · have hne : ¬ (i : Int) = -1 := by omega
      refine ⟨_, _, congrArg Except.ok heq, iff_of_false hne ?_,
        fun h => absurd h hne, fun _ => ⟨i, rfl, hnone, rfl⟩⟩
      rintro (hused | hfail)
      · exact hused i hnone
      · exact hopen hfail
  failed size id fs' hread hrun := by
    obtain ⟨c, host⟩ := a
    cases hread
    cases hentry : s.fs.entry id with
    | none =>
        cases (readAFile_none hentry).symm.trans hrun
        rfl
    | some e =>
        obtain ⟨i, f⟩ := e
        have hmoves := (readAFile_some hentry).mp hrun
        obtain ⟨hreads, _⟩ := hfine i f hentry hmoves.sought
        have hread : 0 ≤ host.read size ∧ _ :=
          (host.read_cases size).resolve_left hreads
        have hzero : host.read size = 0 := by
          have hr : -1 = if host.read size = 0 then -1 else host.read size :=
            hmoves.returned
          split at hr <;> omega
        have hf := (FileSystem.entry_eq_some.mp hentry).2
        have hrange := h.range i f hf
        have hmoved := hmoves.moved
        rw [hzero, Int.add_zero, int32_of_range ⟨by omega, by omega⟩] at hmoved
        exact hmoved.trans (FileSystem.set_same hf)

/-- One byte back is what both failures do. -/
theorem Sound.back (h : Sound s) (hentry : s.fs.entry id = some (i, f)) :
    int32 (f.currentOffset + -1) ≠ f.currentOffset := by
  have hrange := h.range i f (FileSystem.entry_eq_some.mp hentry).2
  rw [int32_of_range ⟨by omega, by omega⟩]
  omega

/-- The law follows an offset that was moved: it is where the sum of the file
is. -/
theorem Sound.offset_of_law {a : Call × Host}
    (h : Sound s) (hlaw : Law s a) (hentry : s.fs.entry id = some (i, f))
    (hmoves : Moves s.fs host i f n r fs')
    (hrun : a.1.run s.fs a.2 = .ok (r, fs'))
    (htally : a.1.tally r s.sums = moveSums id r s.sums) :
    int32 (f.currentOffset + n) = if r = -1 then f.currentOffset
      else f.currentOffset + r := by
  obtain ⟨hi, hf⟩ := FileSystem.entry_eq_some.mp hentry
  have hoffset := hlaw.offsets ⟨fs', moveSums id r s.sums⟩ ⟨r, hrun,
    htally.symm⟩ i
    { f with currentOffset := int32 (f.currentOffset + n) }
      (hmoves.moved ▸ FileSystem.set_self ..)
  rw [h.sums i f hf]
  rw [h.sums i f hf] at hoffset
  refine hoffset.trans ?_
  dsimp only [moveSums]
  by_cases hr : r = -1
  · rw [if_neg fun heq => heq.2 hr, if_pos hr]
  · rw [if_pos ⟨hi, hr⟩, if_neg hr]

/-- A sum beyond `int` is not the offset. -/
theorem Sound.fits (h : Sound s) (hentry : s.fs.entry id = some (i, f))
    (hn : 0 ≤ n) (hoffset : int32 (f.currentOffset + n) =
      if (if n = 0 then -1 else n) = -1 then f.currentOffset
        else f.currentOffset + if n = 0 then -1 else n) :
    f.currentOffset + n ≤ 2147483647 := by
  have hrange := h.range i f (FileSystem.entry_eq_some.mp hentry).2
  have hint := Bytes.int32_range (f.currentOffset + n)
  by_cases hzero : n = 0
  · omega
  · rw [if_neg hzero, if_neg (by omega)] at hoffset
    have hlt := hint.2
    omega

theorem fine_of_law {a : Call × Host} (h : Sound s) (hlaw : Law s a) :
    Fine s a := by
  obtain ⟨c, host⟩ := a
  cases c with
  | openAFile | closeAFile id => trivial
  | readAFile size id =>
      intro i f hentry hseek
      have hmoves : Moves s.fs host i f (host.read size) _ _ :=
        ⟨hseek, rfl, rfl⟩
      have hrun := (readAFile_some hentry).mpr hmoves
      have hreads : host.read size ≠ -1 := by
        intro hfail
        have hreturned : (if host.read size = 0 then -1
            else host.read size) = -1 := by
          rw [hfail]
          rfl
        have hsame := hlaw.failed size id _ rfl (hreturned ▸ hrun)
        have hf := (FileSystem.entry_eq_some.mp hentry).2
        rw [← hsame, FileSystem.set_self, hfail] at hf
        exact h.back hentry
          (congrArg OpenFile.currentOffset (Option.some.inj hf))
      have hread : 0 ≤ host.read size ∧ _ :=
        (host.read_cases size).resolve_left hreads
      exact ⟨hreads,
        h.fits hentry hread.1 (h.offset_of_law hlaw hentry hmoves hrun rfl)⟩
  | writeAFile size id =>
      intro i f hentry hseek
      have hmoves : Moves s.fs host i f size _ _ := ⟨hseek, rfl, rfl⟩
      have hoffset (hall : host.write size = size) :=
        h.offset_of_law hlaw hentry hmoves
          ((writeAFile_some hentry).mpr ⟨hall, hmoves⟩) rfl
      have hsize : ¬ (size = -1 ∧ host.write size = -1) := by
        rintro ⟨rfl, hfail⟩
        exact h.back hentry (hoffset hfail)
      refine ⟨hsize, fun hall => h.fits hentry ?_ (hoffset hall)⟩
      have hwrite := host.write_cases size
      rw [hall] at hsize hwrite
      omega

end

/-- A run keeps the table and the offsets right just when the host does not fail to read, nor to write
-1 bytes, and no offset passes the end of `int`. -/
theorem open_files_law_iff (as : List (Call × Host)) :
    Trace.Along Step Law State.new as ↔ Trace.Along Step Fine State.new as := by
  have hnew : Sound State.new := ⟨nofun, nofun⟩
  refine Trace.along_iff (I := Sound) ?_ ?_ hnew
  · exact fun s a _ h => ⟨fine_of_law h, law_of_fine h⟩
  · exact fun s s' a _ h hlaw hstep => h.step (fine_of_law h hlaw) hstep

/-- A host that has every file, is always where it is asked to be, and cannot
read. -/
def unreadable : Host where
  «open» := 3
  lseek offset := if 0 ≤ offset then offset else -1
  read _ := -1
  write n := if 0 ≤ n then n else -1
  close := 0
  read_cases _ := .inl rfl
  write_cases n := by
    split
    · next h => exact .inr ⟨h, Int.le_refl n⟩
    · exact .inl rfl

/-- The file is opened, and the first `ReadAFile` fails: the next one is for an
offset of -1, and stops the kernel. -/
theorem failed_read_moves : ¬ Trace.Along Step Law State.new [(.openAFile,
      unreadable), (.readAFile 10 0, unreadable)] ∧
    ∃ fs fs', Call.run .new unreadable .openAFile = .ok (0, fs) ∧
      Call.run fs unreadable (.readAFile 10 0) = .ok (-1, fs') ∧
      (fs'.openFileTable 0).map (·.currentOffset) = some (-1) ∧
      Call.run fs' unreadable (.readAFile 10 0) =
        .error (.assertFailed "") := by
  let fs := FileSystem.new.set 0 (some ⟨3, 0⟩)
  let fs' := fs.set 0 (some ⟨3, -1⟩)
  have hopen : Call.run .new unreadable .openAFile = .ok (0, fs) := rfl
  have hread : Call.run fs unreadable (.readAFile 10 0) = .ok (-1, fs') := rfl
  refine ⟨?_, fs, fs', hopen, hread, rfl, rfl⟩
  rintro ⟨_, hrest⟩
  have hlaw :=
    (hrest ⟨fs, Call.tally 0 (fun _ => 0) .openAFile⟩ ⟨0, hopen, rfl⟩).1
  have hsame : fs' = fs := hlaw.failed 10 0 fs' rfl hread
  have hoffset : (fs'.openFileTable 0).map (·.currentOffset) =
      (fs.openFileTable 0).map (·.currentOffset) := by
    rw [hsame]
  exact absurd hoffset (by decide)

end EroikoBlue.MP1

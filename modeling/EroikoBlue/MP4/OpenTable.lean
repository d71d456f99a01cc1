/-
# `MP4.OpenTable` — the table of open files

A program opens, reads, writes and closes, in any order and with any
identifiers.  Each call changes the entry of one identifier (`run_cases`), none
of them changes the tree on the disk (`run_on`), and what `Open` puts into the
table is decided by the traversal of the path.  So one thing can go wrong: the
parent of the path exists and the file does not.  `OpenAsOpenFile` then returns
a pointer it never set, `Open` does not look at it, and the table has an entry
that is no file.

A run in which no such `Open` is made keeps everything that is asked of the
table, and a run that makes one does not (`open_table_law_iff`).

## Why the condition is on the call

Whether an `Open` fails that way depends on the path and on the tree, and the
tree is the same before and after every call, so the condition can be read off
the list of calls (`Found`).  `Sound` is the invariant: the disk holds the tree,
and every entry of the table is a file of it.  `law_of_found` and `found_of_law`
are the two directions for one call, and the run theorem is an induction with
them.

The identifier that `Open` gives out is a random number that is not in use.
`freeId` takes the numbers as an argument, so nothing depends on which ones they
are.
-/
import EroikoBlue.Lib.Trace
import EroikoBlue.MP4.Completeness

namespace EroikoBlue.MP4

open Bytes

/-! ## Calls -/

/-- The calls on open files, with what `rand()` returns while a file is
opened. -/
inductive Call where
  | «open» (path : List Byte) (rand : List OpenFileId)
  | read (size : Int) (id : OpenFileId)
  | write (buf : List Byte) (size : Int) (id : OpenFileId)
  | close (id : OpenFileId)

namespace Call

/-- A call: what it returns, and the file system after it. -/
def run (fs : FileSystem) : Call → FsM (Int × FileSystem)
  | .open path rand => fs.open path rand
  | .read size id => do
    let (got, fs) ← fs.read size id
    pure (got.length, fs)
  | .write buf size id => fs.write buf size id
  | .close id => fs.close id

/-- The identifier passed to a call. -/
def passed : Call → Option OpenFileId
  | .open _ _ => none
  | .read _ id => some id
  | .write _ _ id => some id
  | .close id => some id

/-- The identifier a call is about; for `Open` it is the one returned. -/
def id (c : Call) (r : Int) : OpenFileId := c.passed.getD r

/-- A call that returns, on a file system and the disk under it. -/
def Step (s : FileSystem × Disk) (c : Call) (s' : FileSystem × Disk) : Prop :=
  ∃ r, c.run s.1 s.2 = .ok (r, s'.1) s'.2

end Call

/-! ## What is asked of the table -/

/-- The file `hdr` is at `path`. -/
def Volume.FileAt (v : Volume) (path : List Byte) (hdr : HdrTree) : Prop :=
  ∃ p G name, Resolves v path p G name ∧
    G.entries.lookup (DirectoryEntry.keyOf name IS_FILE) = some (hdr, none)

/-- The parent of `path` exists, and there is no such file in it. -/
def Volume.Missing (v : Volume) (path : List Byte) : Prop :=
  (∃ l, parsePath path = .ok l ∧ (v.root.get (pathKeys l)).isSome = true) ∧
    ∀ hdr, ¬ v.FileAt path hdr

/-- The entry of the table is an `OpenFile` made for a file of the tree. -/
def Volume.IsOpenFile (v : Volume) (entry : Option OpenFile) : Prop :=
  ∃ file o, entry = some file ∧ o ∈ v.root.objs ∧ o.table = none ∧
    file.hdr = o.hdr.header

namespace Call

/-- What is asked of a call on a disk with the tree `v`, which no call
changes. -/
structure Law (v : Volume) (s : FileSystem × Disk) (c : Call) : Prop where
  tree : ∀ r fs' d', c.run s.1 s.2 = .ok (r, fs') d' → v.On d'
  files : ∀ r fs' d', c.run s.1 s.2 = .ok (r, fs') d' →
    ∀ id entry, fs'.opTable id = some entry → v.IsOpenFile entry
  /-- An identifier that `Open` returns was not in use. -/
  fresh : ∀ path rand r fs' d', c = .open path rand →
    c.run s.1 s.2 = .ok (r, fs') d' →
    s.1.opTable r = none ∧ ∃ hdr, v.FileAt path hdr ∧
      fs'.opTable r = some (some ⟨hdr.header, 0⟩)
  others : ∀ r fs' d', c.run s.1 s.2 = .ok (r, fs') d' → ∀ id, id ≠ c.id r →
    fs'.opTable id = s.1.opTable id
  unknown : ∀ id, c.passed = some id → s.1.opTable id = none →
    c.run s.1 s.2 = .ok (0, s.1) s.2
  /-- `Open` stops the program, or returns without an entry. -/
  missing : ∀ path rand, c = .open path rand → v.Missing path →
    (∃ e d', c.run s.1 s.2 = .error e d' ∧ e.ends = true) ∨
      ∃ r d', c.run s.1 s.2 = .ok (r, s.1) d'

/-- No file is opened that is missing from a directory that exists. -/
def Found (v : Volume) : Call → Prop
  | .open path _ => ¬ v.Missing path
  | _ => True

end Call

/-! ## What a call does -/

section Cases
variable {d d' : Disk} {v : Volume} {fs fs' : FileSystem} {c : Call} {r : Int}

/-- The entry that a call leaves for its identifier: none, the file that was
there, read or written further, or what `OpenAsOpenFile` returned. -/
inductive NewEntry (fs : FileSystem) (d : Disk) (c : Call) (r : Int) :
    Option (Option OpenFile) → Prop
  | gone : NewEntry fs d c r none
  | moved {file file' : OpenFile} (hid : fs.opTable (c.id r) = some (some file))
      (hhdr : file'.hdr = file.hdr) :
      NewEntry fs d c r (some (some file'))
  | opened {path : List Byte} {rand : List OpenFileId}
      {file : Option OpenFile} {d₁ : Disk}
      (hc : c = .open path rand) (hid : fs.opTable r = none)
        (hfile : fs.openAsOpenFile path d = .ok file d₁) :
      NewEntry fs d c r (some file)

theorem newEntry_of_moved {id : OpenFileId} (hid : c.id r = id)
    (h : Moved fs id fs') :
    ∃ entry, NewEntry fs d c r entry ∧
      fs' =
        { fs with opTable := Function.update fs.opTable (c.id r) entry } := by
  subst hid
  rcases h with ⟨hnone, rfl⟩ | ⟨file, file', hid, rfl, hhdr⟩
  · refine ⟨none, .gone, ?_⟩
    rw [← hnone, Function.update_eq_self]
  · exact ⟨_, .moved hid hhdr, rfl⟩

theorem run_cases (hrun : c.run fs d = .ok (r, fs') d') :
    ∃ entry, NewEntry fs d c r entry ∧
    fs' = { fs with opTable := Function.update fs.opTable (c.id r) entry } := by
  cases c with
  | «open» path rand =>
      obtain ⟨file, ⟨d₁, hfile⟩, hid, hfs'⟩ := open_inv hrun
      exact ⟨some file, .opened rfl hid hfile, hfs'⟩
  | read size id =>
      obtain ⟨⟨got, fs₁⟩, d₁, hread, hpure⟩ := Outcome.bind_run_eq_ok.mp hrun
      cases hpure
      exact newEntry_of_moved rfl (read_moved hread)
  | write buf size id => exact newEntry_of_moved rfl (write_moved hrun)
  | close id => exact ⟨none, .gone, close_inv hrun⟩

theorem run_unknown {id : OpenFileId} (hc : c.passed = some id)
    (hid : fs.opTable id = none) :
    c.run fs d = .ok (0, fs) d := by
  cases c with
  | «open» path rand => cases hc
  | read size id' =>
      cases hc
      rw [Call.run, FileSystem.read, hid]
      rfl
  | write buf size id' =>
      cases hc
      rw [Call.run, FileSystem.write, hid]
      rfl
  | close id' =>
      cases hc
      rw [Call.run, FileSystem.close, hid]
      rfl

end Cases

/-! ## Opening -/

section Open
variable {d d' : Disk} {v : Volume} {fs fs' : FileSystem} {path : List Byte}
  {p : List Key} {G : Folder}
  {name : List Byte}

theorem Resolves.unique {p' : List Key} {G' : Folder} {name' : List Byte}
    (h : Resolves v path p G name) (h' : Resolves v path p' G' name') : G = G' ∧
    name = name' := by
  obtain ⟨l, hl, rfl, rfl⟩ := h.parse
  obtain ⟨l', hl', rfl, rfl⟩ := h'.parse
  cases hl.symm.trans hl'
  exact ⟨Option.some.inj (h.get.symm.trans h'.get), rfl⟩

theorem Resolves.missing (h : Resolves v path p G name)
    (hk : G.entries.lookup (DirectoryEntry.keyOf name IS_FILE) = none) :
    v.Missing path := by
  refine ⟨?_, ?_⟩
  · obtain ⟨l, hl, hkeys, _⟩ := h.parse
    exact ⟨l, hl, by rw [hkeys, h.get]; rfl⟩
  · rintro hdr ⟨p', G', name', h', hk'⟩
    obtain ⟨rfl, rfl⟩ := h.unique h'
    cases hk.symm.trans hk'

/-- `OpenAsOpenFile` on a path that is not missing returns a new `OpenFile`. -/
theorem openAsOpenFile_found (hon : v.On d) (hfs : fs.Mounts v)
    (hfound : ¬ v.Missing path) {file : Option OpenFile}
    (hrun : fs.openAsOpenFile path d = .ok file d') :
    ∃ hdr, v.FileAt path hdr ∧ file = some ⟨hdr.header, 0⟩ := by
  obtain ⟨tr, d₁, htr, _⟩ := Outcome.bind_run_eq_ok.mp hrun
  obtain ⟨htr, -⟩ := Outcome.reads_eq_ok.mp htr
  rcases traversePath_cases hon hfs.root htr with
    ⟨p, G, name, hr, hat, _⟩ | ⟨_, htarget⟩
  · cases hk : G.entries.lookup (DirectoryEntry.keyOf name IS_FILE) with
    | none => exact absurd (hr.missing hk) hfound
    | some found =>
        obtain ⟨hdr, sub⟩ := found
        cases Entries.lookup_file (Folder.tidy_get p hon.tidy hr.get) hk
        rw [openAsOpenFile_ok hon hfs hr hk] at hrun
        cases hrun
        exact ⟨hdr, ⟨p, G, name, hr, hk⟩, rfl⟩
  · rw [FileSystem.openAsOpenFile, Outcome.bind_of_ok (Outcome.reads_of_ok htr),
      htarget] at hrun
    cases hrun

theorem freeId_error {e : Fault} :
    ∀ {rand : List OpenFileId}, fs.freeId rand = .error e → e = .diverges
  | [], h => by
      cases h
      rfl
  | id :: rest, h => by
      rw [FileSystem.freeId] at h
      split at h
      · cases h
      · exact freeId_error h

/-- On one that is, `Open` neither stops the program nor leaves the table as it
was. -/
theorem open_missing (hon : v.On d) (hfs : fs.Mounts v)
    (hmissing : v.Missing path) (rand : List OpenFileId) :
    (∃ e d', fs.open path rand d = .error e d' ∧ e.ends = false) ∨
      ∃ r fs', fs.open path rand d = .ok (r, fs') d ∧ fs.opTable r = none ∧
      fs'.opTable r = some none := by
  obtain ⟨⟨l, hl, hparent⟩, hnone⟩ := hmissing
  obtain ⟨G, hG⟩ := Option.isSome_iff_exists.mp hparent
  rcases Nat.lt_or_ge FileNameMaxLen (l.getLastD []).length with hlong | hshort
  · -- the name does not fit into its buffer
    obtain ⟨q, file, _, _, hrun⟩ := traversePath_eq hon hfs.root hl IS_FILE
    rw [if_pos hparent, if_pos hlong] at hrun
    refine .inl ⟨.undefined "strcpy(name, …)", d, ?_, rfl⟩
    exact Outcome.bind_of_error
      (Outcome.bind_of_error (Outcome.reads_of_error hrun))
  · have hr : Resolves v path (pathKeys l) G (l.getLastD []) :=
      ⟨⟨l, hl, rfl, rfl⟩, hG, hshort⟩
    have hk : G.entries.lookup (DirectoryEntry.keyOf (l.getLastD []) IS_FILE) =
        none := by
      by_contra hsome
      obtain ⟨⟨hdr, sub⟩, hk⟩ := Option.ne_none_iff_exists'.mp hsome
      cases Entries.lookup_file (Folder.tidy_get _ hon.tidy hG) hk
      exact hnone hdr ⟨_, G, _, hr, hk⟩
    have hopen := openAsOpenFile_none hon hfs hr hk
    cases hid : fs.freeId rand with
    | error e =>
        refine .inl ⟨e, d, (Outcome.bind_of_ok hopen).trans
          (Outcome.bind_of_error (Outcome.lift_of_error hid)), ?_⟩
        rw [freeId_error hid]
        rfl
    | ok r =>
        refine .inr ⟨r, _, (Outcome.bind_of_ok hopen).trans
          (Outcome.bind_of_ok (Outcome.lift_of_ok hid)),
          freeId_free hid, ?_⟩
        exact Function.update_self r _ _

theorem Volume.FileAt.isOpenFile {hdr : HdrTree} (h : v.FileAt path hdr)
    (pos : Int) :
    v.IsOpenFile (some ⟨hdr.header, pos⟩) := by
  obtain ⟨p, G, name, hr, hk⟩ := h
  exact ⟨_, ⟨hdr, none⟩, rfl, (gone_subperm hr.get hk).subset (.head _), rfl,
    rfl⟩

end Open

/-! ## Runs -/

/-- A file system on a disk with the tree `v`, all of whose open files are files
of it. -/
structure Sound (v : Volume) (s : FileSystem × Disk) : Prop where
  on : v.On s.2
  mounts : s.1.Mounts v
  files : ∀ id entry, s.1.opTable id = some entry → v.IsOpenFile entry

theorem sound_boot {d : Disk} {v : Volume} {fs : FileSystem} (hon : v.On d)
    (hboot : FileSystem.boot d = .ok fs) : Sound v (fs, d) := by
  rw [boot_eq hon] at hboot
  cases hboot
  exact ⟨hon, FileSystem.serving_mounts v, nofun⟩

section Run
variable {s s' : FileSystem × Disk} {v : Volume} {c : Call}

/-- No call changes the tree. -/
theorem run_on (h : Sound v s) {r : Int} {fs' : FileSystem} {d' : Disk}
    (hrun : c.run s.1 s.2 = .ok (r, fs') d') : v.On d' := by
  cases c with
  | «open» path rand =>
      have hfinal := open_final h.on h.mounts path rand
      rw [show s.1.open path rand s.2 = .ok (r, fs') d' from hrun,
        Outcome.final_ok] at hfinal
      rw [hfinal]
      exact h.on
  | read size id =>
      obtain ⟨⟨got, fs₁⟩, d₁, hread, hpure⟩ := Outcome.bind_run_eq_ok.mp hrun
      cases hpure
      have hfinal := read_final s.1 size id s.2
      rw [hread, Outcome.final_ok] at hfinal
      rw [hfinal]
      exact h.on
  | write buf size id =>
      have hwrite : s.1.write buf size id s.2 = .ok (r, fs') d' := hrun
      cases hid : s.1.opTable id with
      | none =>
          rw [FileSystem.write, hid] at hwrite
          cases hwrite
          exact h.on
      | some entry =>
          obtain ⟨file, o, rfl, ho, hfile, hhdr⟩ := h.files id entry hid
          have hholder : Holder s.1 v id o.hdr.sector o :=
            ⟨ho, hfile, rfl, file, hid, hhdr⟩
          refine h.on.rewrite ho hfile fun x hx => ?_
          rw [← write_frame h.on hholder buf size hx, hwrite]
          rfl
  | close id =>
      have hfinal := close_final s.1 id s.2
      rw [show s.1.close id s.2 = .ok (r, fs') d' from hrun,
        Outcome.final_ok] at hfinal
      rw [hfinal]
      exact h.on

/-- What `Open` brought into the table is an open file, unless the file was
missing. -/
theorem run_files (h : Sound v s) (hfound : c.Found v) {r : Int}
    {fs' : FileSystem} {d' : Disk} (hrun : c.run s.1 s.2 = .ok (r, fs') d')
    {id : OpenFileId} {entry : Option OpenFile}
    (hid' : fs'.opTable id = some entry) : v.IsOpenFile entry := by
  obtain ⟨new, hnew, rfl⟩ := run_cases hrun
  by_cases heq : id = c.id r
  · subst heq
    simp only [Function.update_self] at hid'
    subst hid'
    cases hnew with
    | @moved file file' hid hhdr =>
        obtain ⟨_, o, hsome, ho, hfile, hobj⟩ := h.files _ _ hid
        cases hsome
        exact ⟨file', o, rfl, ho, hfile, hhdr.trans hobj⟩
    | opened hc hid hfile =>
        subst hc
        obtain ⟨hdr, hat, rfl⟩ :=
          openAsOpenFile_found h.on h.mounts hfound hfile
        exact hat.isOpenFile 0
  · simp only [Function.update_of_ne heq] at hid'
    exact h.files id entry hid'

/-- A call that finds its file keeps the law. -/
theorem law_of_found (h : Sound v s) (hfound : c.Found v) : c.Law v s where
  tree := fun r fs' d' => run_on h
  files := fun r fs' d' hrun id entry => run_files h hfound hrun
  fresh := by
    rintro path rand r fs' d' rfl hrun
    obtain ⟨file, ⟨d₁, hfile⟩, hid, rfl⟩ := open_inv hrun
    obtain ⟨hdr, hat, rfl⟩ := openAsOpenFile_found h.on h.mounts hfound hfile
    exact ⟨hid, hdr, hat, Function.update_self r _ _⟩
  others := by
    intro r fs' d' hrun id hne
    obtain ⟨new, _, rfl⟩ := run_cases hrun
    exact Function.update_of_ne hne _ _
  unknown := fun id => run_unknown
  missing := by
    rintro path rand rfl hmissing
    exact absurd hmissing hfound

/-- A call that does not find its file breaks the law. -/
theorem found_of_law (h : Sound v s) (hlaw : c.Law v s) : c.Found v := by
  cases c with
  | «open» path rand =>
      intro hmissing
      have hfails := hlaw.missing path rand rfl hmissing
      rw [show (Call.open path rand).run s.1 s.2 = s.1.open path rand s.2
        from rfl] at hfails
      rcases open_missing h.on h.mounts hmissing rand with
        ⟨e, d', hrun, hends⟩ | ⟨r, fs', hrun, hnone, hnew⟩
      · rw [hrun] at hfails
        rcases hfails with ⟨e', d₁, heq, hends'⟩ | ⟨r, d₁, heq⟩
        · cases heq
          exact Bool.false_ne_true (hends.symm.trans hends')
        · cases heq
      · rw [hrun] at hfails
        rcases hfails with ⟨e', d₁, heq, hends'⟩ | ⟨r', d₁, heq⟩
        · cases heq
        · cases heq
          cases hnone.symm.trans hnew
  | _ => trivial

/-- A call that keeps the law keeps the file system sound. -/
theorem sound_step (h : Sound v s) (hlaw : c.Law v s) (hstep : c.Step s s') :
    Sound v s' := by
  obtain ⟨r, hrun⟩ := hstep
  obtain ⟨new, _, hs'⟩ := run_cases hrun
  refine ⟨hlaw.tree r _ _ hrun, ?_, hlaw.files r _ _ hrun⟩
  rw [hs']
  exact ⟨h.mounts.map, h.mounts.root⟩

end Run

/-- The table of open files is kept, in every run of the calls, just when no
`Open` in it is for a file that is missing from a directory that exists. -/
theorem open_table_law_iff {d : Disk} {v : Volume} {fs : FileSystem}
    (hon : v.On d) (hboot : FileSystem.boot d = .ok fs) (calls : List Call) :
    Trace.Along Call.Step (Call.Law v) (fs, d) calls ↔
      Trace.Along Call.Step (fun _ => Call.Found v) (fs, d) calls := by
  refine Trace.along_iff (I := Sound v) ?_ ?_ (sound_boot hon hboot)
  · intro s c _ h
    exact ⟨found_of_law h, law_of_found h⟩
  · intro s s' c _ h hlaw hstep
    exact sound_step h hlaw hstep

/-- The file "/f" is opened, read, read under another identifier, and closed. -/
theorem open_table_law_iff_file : ∃ d v fs, Volume.On d v ∧
    FileSystem.boot d = .ok fs ∧
    Trace.Along Call.Step (Call.Law v) (fs, d)
      [.open (rootPath 102) [1], .read 1 1, .read 1 7, .close 1] := by
  obtain ⟨s, v, t, _, hinv, hr, hk, _⟩ :=
    formatted_file (show 0 < 1 by decide) (by decide)
  have hboot := boot_eq hinv.on
  refine ⟨s.disk, v, _, hinv.on, hboot,
    (open_table_law_iff hinv.on hboot _).mpr ?_⟩
  refine Trace.along_of_inv (I := fun _ => True) ?_
    (fun _ _ _ _ _ _ => trivial) trivial
  intro _ c hc _
  rcases List.mem_cons.mp hc with rfl | hc
  · exact fun hmissing => hmissing.2 t ⟨[], v.root, [102], hr, hk⟩
  · simp only [List.mem_cons, List.not_mem_nil, or_false] at hc
    rcases hc with rfl | rfl | rfl <;> trivial

/-- On a disk without files, `Open` of "/f" returns an identifier that is no
file; nothing is defined about a `Read` through it. -/
theorem open_table_law_fails : ∃ d v fs fs', Volume.On d v ∧
    FileSystem.boot d = .ok fs ∧
    v.Missing (rootPath 102) ∧
      (Call.open (rootPath 102) [1]).run fs d = .ok (1, fs') d ∧
      fs'.opTable 1 = some none ∧
      (Call.read 1 1).run fs' d = .error (.undefined "file->Read") d ∧
      ¬ Trace.Along Call.Step (Call.Law v) (fs,
        d) [.open (rootPath 102) [1]] := by
  obtain ⟨s, v, _, hinv, hempty, _⟩ := formatted fun _ => Sector.ofBytes []
  have hr := resolves_root v (c := 102) (by decide) (by decide)
  have hk : v.root.entries.lookup (DirectoryEntry.keyOf [102] IS_FILE) =
      none := by
    rw [hempty, Entries.lookup_empty]
  have hopen := openAsOpenFile_none hinv.on (FileSystem.serving_mounts v) hr hk
  have hid : (FileSystem.serving v).freeId [1] = .ok 1 := rfl
  obtain ⟨fs', hfs'⟩ : ∃ fs', fs' = { FileSystem.serving v with
    opTable := Function.update (FileSystem.serving v).opTable 1 (some none) } :=
      ⟨_, rfl⟩
  have hrun : (Call.open (rootPath 102) [1]).run (.serving v) s.disk =
      .ok (1, fs') s.disk := by
    rw [hfs']
    exact (Outcome.bind_of_ok hopen).trans
      (Outcome.bind_of_ok (Outcome.lift_of_ok hid))
  have hentry : fs'.opTable 1 = some none := by
    rw [hfs']
    exact Function.update_self (1 : OpenFileId) (some none)
      (FileSystem.serving v).opTable
  refine ⟨s.disk, v, _, fs', hinv.on, boot_eq hinv.on, hr.missing hk, hrun,
    hentry, ?_, ?_⟩
  · refine Outcome.bind_of_error ?_
    rw [FileSystem.read, hentry]
    rfl
  · intro hlaw
    obtain ⟨file, _, hnone, _⟩ := hlaw.1.files 1 fs' s.disk hrun 1 none hentry
    cases hnone

end EroikoBlue.MP4

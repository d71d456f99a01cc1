/-
# `MP4.Copy` — what is copied in is printed later

`Copy` of `threads/main.cc` makes a file as long as a UNIX file and writes the
bytes in pieces of `TransferSize`; `Print` reads pieces until one is empty.
Between a `-cp` and a `-p` there may be any number of other operations, failed
assertions and new starts of the program.

    `copy_names`        `Copy` puts the file into the tree of names
    `Spares`            an operation is not about the place `q`, nor about a
                        directory on the way to it, nor writes to the file there
    `Spared.names`      then what is at `q` stays
    `print_eq`          `Print` prints what is there

## What is said, and what is not

`Copy` and `Print` are functions of `main.cc`, not operations of a system: the
start of a program runs one of them and goes on.  So they stand before and after
a run and are not steps of it.

`copied_printed` needs that the UNIX file is shorter than 2^31, for its length
is an `int` in the source, and that `Copy` got to its end; then every later run
that spares the place prints the same bytes.  `printed_again` says it of any
file that can be printed now.
-/
import EroikoBlue.MP4.Effects
import EroikoBlue.MP4.RoundTrip
import EroikoBlue.MP4.Transfers

namespace EroikoBlue.MP4

open Bytes
open DirectoryEntry (keyOf)

/-! ## `Copy` and `Print` -/

abbrev TransferSize : Nat := 128

/-- The loop of `Copy`; `rest` is what `ReadPartial` has not read of the UNIX
file. -/
def copyLoop : Nat → List Byte → OpenFile → FsM OpenFile
  | 0, _, _ => throw .diverges
  | fuel + 1, rest, openFile => do
    let buffer := rest.take TransferSize
    if buffer.length = 0 then pure openFile
    else do
      let (_, openFile) ← openFile.write buffer buffer.length
      copyLoop fuel (rest.drop TransferSize) openFile

/-- How `Copy` returns. -/
inductive Copied where
  /-- "Copy: couldn't open input file" -/
  | noInput
  /-- "Copy: couldn't create output file" -/
  | noOutput
  | copied
deriving DecidableEq

/-- `Copy(from, to)`, where `unix` are the bytes of `from` if it can be
opened. -/
def copy (fs : FileSystem) (unix : Option (List Byte)) (name : List Byte) :
    FsM Copied :=
  match unix with
  | none => pure .noInput
  | some bytes => do
    let fileLength := int32 bytes.length
    Outcome.lift (assertMsg (fileLength ≥ 0) "retVal >= 0")
    let created ← fs.create name fileLength
    if created then do
      match ← fs.openAsOpenFile name with
      | none => throw (.undefined "openFile")
      | some openFile => do
        let _ ← copyLoop (bytes.length + 1) bytes openFile
        pure .copied
    else pure .noOutput

/-- The loop of `Print`: the bytes it prints. -/
def printLoop (d : Disk) : Nat → OpenFile → Except Fault (List Byte)
  | 0, _ => .error .diverges
  | fuel + 1, openFile => do
    let (buffer, openFile) ← openFile.read d TransferSize
    if buffer.length = 0 then pure []
    else do
      let rest ← printLoop d fuel openFile
      pure (buffer ++ rest)

/-- `Print(name)`. -/
def print (fs : FileSystem) (name : List Byte) : FsM (List Byte) := do
  match ← fs.openAsOpenFile name with
  | none => throw (.undefined "openFile")
  | some openFile => Outcome.reads fun d => printLoop d (openFile.length.toNat + 1) openFile

/-! ## The loops -/

theorem copyLoop_eq : ∀ {fuel : Nat} {rest : List Byte}, rest.length < fuel →
    ∃ pieces : List (List Byte), pieces.flatten = rest ∧ ∀ openFile : OpenFile,
      copyLoop fuel rest openFile = (·.2) <$> openFile.writePieces pieces
  | 0, rest, h => absurd h (Nat.not_lt_zero _)
  | fuel + 1, [], h => ⟨[], rfl, fun openFile => rfl⟩
  | fuel + 1, b :: bs, h => by
      have hdrop : ((b :: bs).drop TransferSize).length < fuel := by
        have hpos : 0 < TransferSize := by decide
        rw [List.length_drop]
        rw [List.length_cons] at h ⊢
        omega
      obtain ⟨pieces, hflat, hrest⟩ := copyLoop_eq hdrop
      refine ⟨(b :: bs).take TransferSize :: pieces, ?_, fun openFile => ?_⟩
      · rw [List.flatten_cons, hflat, List.take_append_drop]
      · have hne : ¬ ((b :: bs).take TransferSize).length = 0 := by simp
        rw [copyLoop]
        simp only
        rw [if_neg hne, OpenFile.writePieces, map_bind]
        refine bind_congr fun r => ?_
        rw [hrest, map_bind]
        rfl

/-- The loop of `Print` is a sequence of reads until one returns nothing. -/
theorem printLoop_eq {d : Disk} :
    ∀ {fuel : Nat} {openFile : OpenFile} {pieces : List (List Byte)},
    openFile.readPieces d (List.replicate fuel TransferSize) = .ok (pieces, true) →
    printLoop d fuel openFile = .ok pieces.flatten
  | 0, openFile, pieces, h => by cases h
  | fuel + 1, openFile, pieces, h => by
      rw [List.replicate_succ, OpenFile.readPieces] at h
      obtain ⟨⟨buffer, openFile'⟩, hread, h⟩ := Outcome.bind_eq_ok.mp h
      rw [printLoop, hread, Outcome.ok_bind]
      dsimp only at h ⊢
      split at h
      · next hzero =>
          cases h
          rw [if_pos hzero]
          rfl
      · next hne =>
          obtain ⟨⟨pieces', done⟩, hrest, h⟩ := Outcome.bind_eq_ok.mp h
          cases h
          rw [if_neg hne, printLoop_eq hrest]
          rfl

theorem readsFit_replicate {length : Nat} (h : length < 134217729) :
    ∀ (k : Nat) {p : Nat}, p ≤ length →
    ReadsFit length p (List.replicate k TransferSize)
  | 0, p, _ => trivial
  | k + 1, p, hp => ⟨by decide, by simp only [TransferSize]; omega,
        readsFit_replicate h k (Nat.min_le_right _ _)⟩

/-! ## Opening, printing and copying -/

section Calls
variable {d : Disk} {v : Volume} {fs : FileSystem} {path content : List Byte}
  {q : List Key}

theorem openAsOpenFile_file (h : v.On d)
    (hfs : fs.Mounts v) (hplace : place path IS_FILE = some q)
    (hq : v.names d q = some (.file content)) :
    ∃ hdr : HdrTree, v.root.find q = some (hdr, none) ∧
      hdr.content d = content ∧ fs.openAsOpenFile path d =
        .ok (some { hdr := hdr.header, seekPosition := 0 }) d := by
  obtain ⟨hdr, hfind, hcontent⟩ := Volume.names_eq_file hq
  obtain ⟨l, hl, hshort, rfl⟩ := place_eq hplace
  obtain ⟨G, hG⟩ := Folder.get_of_find hfind
  have hk := (Folder.find_key hG).symm.trans hfind
  exact ⟨hdr, hfind, hcontent,
    openAsOpenFile_ok h hfs ⟨⟨l, hl, rfl, rfl⟩, hG, hshort⟩ hk⟩

theorem openAsOpenFile_some (h : v.On d)
    (hfs : fs.Mounts v) {openFile : OpenFile} {d' : Disk}
    (hrun : fs.openAsOpenFile path d = .ok (some openFile) d') :
    ∃ q content, place path IS_FILE = some q ∧
      v.names d q = some (.file content) := by
  rw [FileSystem.openAsOpenFile] at hrun
  obtain ⟨tr, d₁, htr, hrun'⟩ := Outcome.bind_run_eq_ok.mp hrun
  obtain ⟨htr, rfl⟩ := Outcome.reads_eq_ok.mp htr
  rcases traversePath_cases h hfs.root htr with
    ⟨p, G, name, hr, -⟩ | ⟨-, htarget⟩
  · cases hk : G.entries.lookup (keyOf name IS_FILE) with
    | none => cases (openAsOpenFile_none h hfs hr hk).symm.trans hrun
    | some found =>
        obtain ⟨hdr, sub⟩ := found
        cases Entries.lookup_file (Folder.tidy_get p h.tidy hr.get) hk
        exact ⟨_, _, hr.place IS_FILE,
          (names_key hr.get _).trans (congrArg (Option.map _) hk)⟩
  · rw [htarget] at hrun'
    cases hrun'

theorem print_eq (h : v.On d)
    (hfs : fs.Mounts v) (hplace : place path IS_FILE = some q)
    (hq : v.names d q = some (.file content)) :
    print fs path d = .ok content d := by
  obtain ⟨hdr, hfind, rfl, hopen⟩ := openAsOpenFile_file h hfs hplace hq
  have hwf := (h.objs _ (Folder.find_mem hfind)).wf
  have hlt : hdr.bytes < 134217729 :=
    Nat.lt_succ_of_le (HdrTree.Backed.bytes_disk hwf.backed)
  obtain ⟨pieces, done, hread, hall, hdone⟩ := HdrTree.readPieces_eq hwf d
    (show (OpenFile.mk hdr.header 0).hdr = hdr.header from rfl)
      (show (0 : Int) = (0 : Nat) from rfl) (Nat.zero_le _)
    (readsFit_replicate hlt (hdr.bytes + 1) (Nat.zero_le _))
  cases hdone (by rw [List.length_replicate]; exact Nat.lt_succ_self _)
  have hloop := printLoop_eq hread
  rw [hall rfl] at hloop
  rw [print, Outcome.bind_of_ok hopen]
  exact Outcome.reads_of_ok hloop

/-- `Create` answers TRUE for a new name only. -/
theorem create_true_new (h : v.On d) (hfs : fs.Mounts v)
    (hplace : place path IS_FILE = some q) {size : Int} {d' : Disk}
    (hrun : fs.create path size d = .ok true d') : v.names d q = none := by
  refine Option.eq_none_iff_forall_ne_some.mpr fun x hx => ?_
  obtain ⟨p, G, name, hr⟩ :=
    resolves_of_names hplace (r := []) (by rw [List.append_nil]; exact hx)
  cases (hr.place IS_FILE).symm.trans hplace
  have hsome : (G.entries.lookup (keyOf name IS_FILE)).isSome = true := by
    rw [names_key hr.get] at hx
    rw [← Option.isSome_map (f := Folder.node d), hx]
    rfl
  cases (createFileDir_exists h hfs hr hsome size).symm.trans hrun

theorem copyLoop_file (h : v.On d) {hdr : HdrTree}
    (hfind : v.root.find q = some (hdr, none)) {bytes : List Byte}
    (hlen : bytes.length = hdr.bytes) : ∃ file' d',
      copyLoop (bytes.length + 1) bytes { hdr := hdr.header, seekPosition := 0 } d = .ok file' d' ∧ v.On d' ∧
        v.names d' = (v.names d).put q (.file bytes) := by
  obtain ⟨pieces, rfl, hloop⟩ := copyLoop_eq (Nat.lt_succ_self bytes.length)
  have ho := Folder.find_mem hfind
  have hwf := (h.objs _ ho).wf
  obtain ⟨file', d', hpieces, hframe, hwritten⟩ := HdrTree.writePieces_eq hwf d
    (show (OpenFile.mk hdr.header 0).hdr = hdr.header from rfl)
      (show (0 : Int) = (0 : Nat) from rfl)
    (show 0 + pieces.flatten.length ≤ hdr.bytes by omega)
  rw [blit_zero
    (hlen.trans (HdrTree.length_content hwf.backed d).symm)] at hwritten
  refine ⟨file', d', ?_, h.rewrite ho rfl hframe, ?_⟩
  · rw [hloop, map_eq_pure_bind, Outcome.bind_of_ok hpieces]
    rfl
  · rw [h.names_rewrite ho hframe hfind, ← hwritten]

theorem Makes.file {n n' : Names Key (List Byte)}
    {size : Int} (h : Makes n n' path IS_FILE (IsNew IS_FILE size))
    (hplace : place path IS_FILE = some q) (hnew : n q = none)
    (hq : n' q = some (.file content)) :
    (content.length : Int) = size ∧ n' = n.put q (.file content) := by
  rcases h with rfl | ⟨p, k, x, hplace', -, -, ⟨content', hlen, rfl⟩, rfl⟩
  · cases hnew.symm.trans hq
  · cases hplace.symm.trans hplace'
    rw [Names.put_self] at hq
    cases hq
    exact ⟨hlen, rfl⟩

/-- `Copy` is done when `Create` has made the file and put it into its
directory. -/
theorem copy_done (hlen : content.length < 2147483648) {d₁ : Disk}
    (hcreate : fs.create path content.length d = .ok true d₁) (h : v.On d₁)
    (hfs : fs.Mounts v) (hplace : place path IS_FILE = some q)
    {hdr : HdrTree} (hfind : v.root.find q = some (hdr, none))
    (hbytes : content.length = hdr.bytes) :
    ∃ d', copy fs (some content) path d = .ok .copied d' := by
  obtain ⟨hdr', hfind', -, hopen⟩ :=
    openAsOpenFile_file h hfs hplace (Volume.names_file hfind)
  cases hfind.symm.trans hfind'
  obtain ⟨file', d', hloop, -, -⟩ := copyLoop_file h hfind hbytes
  refine ⟨d', ?_⟩
  rw [copy, int32_of_nat hlen, Outcome.bind_of_ok
    (Outcome.lift_of_ok (assertMsg_pos (Int.natCast_nonneg _))),
    Outcome.bind_of_ok hcreate, if_pos rfl, Outcome.bind_of_ok hopen]
  exact Outcome.bind_of_ok hloop

/-- When `Copy` is done, the bytes are at the place the path names, and nothing
else is different. -/
theorem copy_names (h : v.On d) (hfs : fs.Mounts v)
    {bytes : List Byte} (hlen : bytes.length < 2147483648) {d' : Disk}
    (hrun : copy fs (some bytes) path d = .ok .copied d') :
    ∃ (v' : Volume) (q : List Key), v'.On d' ∧ place path IS_FILE = some q ∧
      v'.names d' = (v.names d).put q (.file bytes) := by
  rw [copy, int32_of_nat hlen] at hrun
  obtain ⟨_, _, hassert, hrun⟩ := Outcome.bind_run_eq_ok.mp hrun
  cases (Outcome.lift_eq_ok.mp hassert).2
  obtain ⟨created, d₁, hcreate, hrun⟩ := Outcome.bind_run_eq_ok.mp hrun
  cases created with
  | false => cases hrun
  | true =>
      obtain ⟨v₁, hnext, hmakes⟩ :=
        createFileDir_shows h hfs path IS_FILE bytes.length
      rw [show fs.createFileDir path IS_FILE bytes.length d = _ from hcreate,
        Outcome.final_ok] at hnext hmakes
      obtain ⟨opened, d₂, hopen, hrun⟩ := Outcome.bind_run_eq_ok.mp hrun
      cases opened with
      | none => cases hrun
      | some openFile =>
          obtain ⟨q, content, hplace, hq⟩ :=
            openAsOpenFile_some hnext.on (hfs.next hnext) hopen
          obtain ⟨hdr, hfind, hcontent, hopen'⟩ :=
            openAsOpenFile_file hnext.on (hfs.next hnext) hplace hq
          cases hopen.symm.trans hopen'
          obtain ⟨hlength, hput⟩ :=
            hmakes.file hplace (create_true_new h hfs hplace hcreate) hq
          obtain ⟨_, d₃, hwrite, hpure⟩ := Outcome.bind_run_eq_ok.mp hrun
          cases hpure
          have hbytes : bytes.length = hdr.bytes := by
            rw [← HdrTree.length_content
              (hnext.on.objs _ (Folder.find_mem hfind)).wf.backed d₁, hcontent]
            exact (Int.ofNat_inj.mp hlength).symm
          obtain ⟨file', d₂, hloop, hon, hnames⟩ :=
            copyLoop_file hnext.on hfind hbytes
          cases hloop.symm.trans hwrite
          exact ⟨v₁, q, hon, hplace, by rw [hnames, hput, Names.put_put]⟩

end Calls

/-! ## What nobody touches stays -/

/-- The operation is not about what is at `q`, nor about a directory above it,
and does not write to it. -/
def Op.Spares (s : System) (q : List Key) : Op → Prop
  | .remove path => ∀ p, place path IS_FILE = some p → ¬ p <+: q
  | .recursiveRemove path => ∀ isDir p, place path isDir = some p → ¬ p <+: q
  | .write _ _ id => s.live id ≠ s.sectorAt q
  | _ => True

/-- A run in which every operation spares `q`, and the program may end and start
again. -/
inductive Spared (q : List Key) : System → System → Prop
  | refl (s : System) : Spared q s s
  | step {s s' s'' : System} (op : Option Op)
      (hspares : op.elim True (Op.Spares s' q)) (hleads : Leads s' op s'') :
      Spared q s s' → Spared q s s''

section Spared
variable {s s' : System} {v : Volume} {q : List Key} {content : List Byte}

theorem Makes.spares {n n' : Names Key (List Byte)}
    {path : List Byte} {isDir : Bool} {New : Node (List Byte) → Prop}
    (h : Makes n n' path isDir New) {x : Node (List Byte)} (hq : n q = some x) :
    n' q = some x := by
  rcases h with rfl | ⟨p, k, y, -, -, hnew, -, rfl⟩
  · exact hq
  · rw [Names.put_of_ne, hq]
    rintro rfl
    cases hnew.symm.trans hq

theorem cutAll_spares {n : Names Key (List Byte)}
    {path : List Byte} (h : ∀ isDir p, place path isDir = some p → ¬ p <+: q) :
    cutAll n path q = n q := by
  unfold cutAll
  cases hfile : place path IS_FILE with
  | none => rfl
  | some file =>
      cases hdir : place path IS_DIR with
      | none => rfl
      | some dir =>
          dsimp only
          split
          · exact Names.cut_of_not (h _ file hfile)
          · exact Names.cut_of_not (h _ dir hdir)

theorem Op.Does.spares {op : Op} (h : op.Does s s') (hspares : op.Spares s q)
    {x : Node (List Byte)} (hq : s.names q = some x) : s'.names q = some x := by
  cases op with
  | create path initialSize => exact Makes.spares h hq
  | mkdir path => exact Makes.spares h hq
  | remove path =>
      rw [show s'.names = _ from h]
      cases hplace : place path IS_FILE with
      | none => exact hq
      | some p => exact (Names.cut_of_not (hspares p hplace)).trans hq
  | recursiveRemove path =>
      rw [show s'.names = _ from h, ← hq]
      exact cutAll_spares hspares
  | write buf size id =>
      rcases h with ⟨-, heq⟩ | ⟨p, file, content, content', -, hlive, hwrites⟩
      · rw [heq, hq]
      · rw [hwrites.after, Names.put_of_ne, hq]
        rintro rfl
        exact hspares hlive
  | «open» path rand => exact (congrFun h q).trans hq
  | read size id => exact (congrFun h q).trans hq
  | seek position id => exact (congrFun h q).trans hq
  | close id => exact (congrFun h q).trans hq

/-- In every state of the run the file is where it was. -/
theorem Spared.names (h : Spared q s s') (hinv : Inv s v) {x : Node (List Byte)}
    (hq : s.names q = some x) :
    (∃ v', Inv s' v') ∧ s'.names q = some x := by
  induction h with
  | refl => exact ⟨⟨v, hinv⟩, hq⟩
  | step op hspares hleads _ ih =>
      obtain ⟨⟨v', hinv'⟩, hq'⟩ := ih
      refine ⟨(step_iff.mpr ⟨op, hleads⟩).inv hinv', ?_⟩
      have hturns := hleads.turns hinv'
      cases op with
      | none => rwa [show System.names _ = _ from hturns]
      | some op => exact Op.Does.spares hturns hspares hq'

theorem Spared.print (h : Spared q s s') (hinv : Inv s v)
    {path : List Byte} (hplace : place path IS_FILE = some q)
    (hq : s.names q = some (.file content)) :
    print s'.fs path s'.disk = .ok content s'.disk := by
  obtain ⟨⟨v', hinv'⟩, hq'⟩ := h.names hinv hq
  rw [System.names_eq hinv'.on] at hq'
  exact print_eq hinv'.on hinv'.mounts hplace hq'

/-- What `Print` prints of a file it prints again, until somebody removes the
file or writes to it. -/
theorem printed_again (h : Reachable s) {path : List Byte}
    {d : Disk} (hprint : print s.fs path s.disk = .ok content d)
    (hplace : place path IS_FILE = some q) (hrun : Spared q s s') :
    print s'.fs path s'.disk = .ok content s'.disk := by
  obtain ⟨v, hinv⟩ := h.inv
  have hrun' := hprint
  rw [MP4.print] at hrun'
  obtain ⟨opened, d₁, hopen, hrun'⟩ := Outcome.bind_run_eq_ok.mp hrun'
  cases opened with
  | none => cases hrun'
  | some openFile =>
      obtain ⟨q', content', hplace', hq⟩ :=
        openAsOpenFile_some hinv.on hinv.mounts hopen
      cases hplace.symm.trans hplace'
      cases (print_eq hinv.on hinv.mounts hplace hq).symm.trans hprint
      exact hrun.print hinv hplace (by rw [System.names_eq hinv.on, hq])

/-- The file "/f", before and after "/d" and what is in it are removed and the
program starts again. -/
theorem printed_again_removed : ∃ s s₁ s₂ content, Reachable s ∧
    print s.fs (rootPath 102) s.disk = .ok content s.disk ∧
    Leads s (some (.recursiveRemove (rootPath 100))) s₁ ∧ Leads s₁ none s₂ ∧
    print s₂.fs (rootPath 102) s₂.disk = .ok content s₂.disk := by
  obtain ⟨s, v, t, sub, h, hinv, hv⟩ := formatted_populated
  have hr := resolves_root v (c := 102) (by decide) (by decide)
  have hrd := resolves_root v (c := 100) (by decide) (by decide)
  obtain ⟨⟨hdr, entries⟩, hk⟩ := Option.isSome_iff_exists.mp hv.file
  cases Entries.lookup_file hinv.on.tidy hk
  have hq : v.names s.disk ([] ++ [keyOf [102] IS_FILE]) =
      some (.file (hdr.content s.disk)) :=
    Volume.names_file ((Folder.find_key hr.get).trans hk)
  have hprint := print_eq hinv.on hinv.mounts (hr.place IS_FILE) hq
  obtain ⟨d', hrun, hrem⟩ :=
    recursiveRemove_dir hinv.on hinv.mounts hrd hv.notFile hv.dir
  have hnext := hrem.next hinv.on hrd.get hv.dir
  have hop : Op.run s.fs (.recursiveRemove (rootPath 100)) s.disk =
    .ok s.fs d' := Outcome.bind_of_ok hrun
  obtain ⟨s₁, hremove, rfl⟩ : ∃ s₁,
      Leads s (some (.recursiveRemove (rootPath 100))) s₁ ∧ s₁.disk = d' :=
    ⟨_, .op _ trivial hop, rfl⟩
  have hreboot := Leads.reboot (boot_eq hnext.on)
  -- "/d" is not on the way to "/f"
  have hspares : Op.Spares s ([] ++ [keyOf [102] IS_FILE])
      (.recursiveRemove (rootPath 100)) := by
    intro isDir p hp hprefix
    rw [hrd.place] at hp
    cases hp
    cases isDir with
    | false => exact absurd hprefix (by decide)
    | true => exact absurd hprefix (by decide)
  exact ⟨s, _, _, _, h, hprint, hremove, hreboot,
    printed_again h hprint (hr.place IS_FILE)
    (.step none trivial hreboot (.step (some (.recursiveRemove (rootPath 100)))
      hspares hremove (.refl s)))⟩

/-- What `Copy` puts into a file, `Print` prints in every later start of the
program, until somebody removes the file or writes to it. -/
theorem copied_printed (h : Reachable s)
    {bytes name : List Byte} (hlen : bytes.length < 2147483648) {d : Disk}
    (hcopy : copy s.fs (some bytes) name s.disk = .ok .copied d)
    {fs : FileSystem} (hboot : FileSystem.boot d = .ok fs)
    (hplace : place name IS_FILE = some q)
    (hrun : Spared q ⟨fs, d, fun _ => none⟩ s') :
    print s'.fs name s'.disk = .ok bytes s'.disk := by
  obtain ⟨v, hinv⟩ := h.inv
  obtain ⟨v', q', hon, hplace', hnames⟩ :=
    copy_names hinv.on hinv.mounts hlen hcopy
  cases hplace.symm.trans hplace'
  rw [boot_eq hon] at hboot
  cases hboot
  have hinv' : Inv ⟨.serving v', d, fun _ => none⟩ v' :=
    ⟨hon, FileSystem.serving_mounts v', nofun⟩
  refine hrun.print hinv' hplace ?_
  rw [System.names_eq hon, hnames, Names.put_self]

/-- One byte, printed after another start of the program. -/
theorem copied_printed_seven : ∃ s d fs s', Reachable s ∧
    copy s.fs (some [7]) (rootPath 102) s.disk = .ok .copied d ∧
    FileSystem.boot d = .ok fs ∧ Leads ⟨fs, d, fun _ => none⟩ none s' ∧
      print s'.fs (rootPath 102) s'.disk = .ok [7] s'.disk := by
  obtain ⟨s, v, h, hinv, hempty, hclear, -⟩ :=
    formatted fun _ => Sector.ofBytes []
  have hr := resolves_root v (c := 102) (by decide) (by decide)
  have hnew : v.root.entries.lookup (keyOf [102] IS_FILE) = none := by
    rw [hempty, Entries.lookup_empty]
  obtain ⟨s₁, t, fm', -, hfs, hcreate, hinv₁, hres, -⟩ :=
    h.create_small hinv hr hnew (show 0 < 1 by decide) (by decide) (by omega)
  obtain ⟨e, hfree⟩ :=
    Option.isSome_iff_exists.mp (Entries.find?_empty NumDirEntries (by decide))
  have hk := Entries.lookup_insert [102] t none
    (Folder.tidy_get [] hinv.on.tidy rfl) (hempty ▸ hfree) hnew
  have hfind :=
    (Folder.find_key (hr.set (v.root.entries.insert [102] t none)).get).trans hk
  obtain ⟨d, hcopy⟩ := copy_done (show [7].length < 2147483648 by decide)
    hcreate hinv₁.on (hfs ▸ hinv₁.mounts)
    (hr.place IS_FILE) hfind hres.bytes.symm
  obtain ⟨v', q, hon, -⟩ := copy_names hinv.on hinv.mounts (by decide) hcopy
  have hboot := boot_eq hon
  have hleads : Leads ⟨.serving v', d, fun _ => none⟩ none ⟨.serving v', d,
    fun _ => none⟩ := .reboot hboot
  exact ⟨s, d, _, _, h, hcopy, hboot, hleads,
    copied_printed h (by decide) hcopy hboot (hr.place IS_FILE)
      (.step none trivial hleads (.refl _))⟩

end Spared

end EroikoBlue.MP4

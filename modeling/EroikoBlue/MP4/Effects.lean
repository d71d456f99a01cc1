/-
# `MP4.Effects` — what each operation does to the names

`Op.Does s s'` says for each operation which tree of names a user sees after it,
given the tree from before: `Create` and `Mkdir` put something at the place of
the path or change nothing, `Remove` and `RecursiveRemove` cut, `Write` puts
other bytes into the file behind the identifier, and the rest changes nothing.
`names_refined`: it does so in every run, also when an assertion stops the
operation on its way.

## What a user can rely on

The tree of names is read off the disk, so `names_refined` is about what the
next program would find there.  It does not say that an operation succeeds.  It
says that what it leaves is one of the trees that `Op.Does` allows, and that a
failure leaves one of these as well.

The exception is the one of `MP4.System`: a `Write` through an identifier whose
file was removed is no step.

`Op.Does` is stated in terms of `put` and `cut` of `Lib.Names`.  No table and no
free map is mentioned there, and a sector only to say which file an identifier
stands for.
-/
import EroikoBlue.MP4.NameSpace
import EroikoBlue.MP4.OpenTable

namespace EroikoBlue.MP4

open Bytes
open DirectoryEntry (keyOf)

/-! ## Places -/

/-- The keys that a path stands for. -/
def place (path : List Byte) (isDir : Bool) : Option (List Key) :=
  match parsePath path with
  | .ok l =>
      if (l.getLastD []).length ≤ FileNameMaxLen then
        some (pathKeys l ++ [keyOf (l.getLastD []) isDir]) else none
  | .error _ => none

section Place
variable {d : Disk} {v : Volume} {path name : List Byte} {isDir : Bool}
  {p q r : List Key} {G : Folder}

theorem Resolves.place (h : Resolves v path p G name) (isDir : Bool) :
    place path isDir = some (p ++ [keyOf name isDir]) := by
  obtain ⟨l, hl, rfl, rfl⟩ := h.parse
  rw [MP4.place, hl]
  exact if_pos h.short

theorem place_eq (h : place path isDir = some q) : ∃ l, parsePath path = .ok l ∧
    (l.getLastD []).length ≤ FileNameMaxLen ∧
      q = pathKeys l ++ [keyOf (l.getLastD []) isDir] := by
  rw [place] at h
  split at h
  · next l hl =>
      split at h
      · next hshort =>
          cases h
          exact ⟨l, hl, hshort, rfl⟩
      · cases h
  · cases h

/-- There is something at the place of a path only if the path resolves. -/
theorem resolves_of_names (hplace : place path isDir = some q)
    {x : Node (List Byte)} (h : v.names d (q ++ r) = some x) :
    ∃ p G name, Resolves v path p G name := by
  obtain ⟨l, hl, hshort, rfl⟩ := place_eq hplace
  obtain ⟨found, hfind, -⟩ := Option.map_eq_some_iff.mp h
  rw [List.append_assoc, List.singleton_append] at hfind
  obtain ⟨G, hG⟩ := Folder.get_of_find hfind
  exact ⟨pathKeys l, G, l.getLastD [], ⟨l, hl, rfl, rfl⟩, hG, hshort⟩

theorem cut_unresolved (hno : ∀ p G name, ¬ Resolves v path p G name)
    (hplace : place path isDir = some q) :
    (v.names d).cut q = v.names d := by
  refine Names.cut_eq_self fun r => Option.eq_none_iff_forall_ne_some.mpr
    fun x hx => ?_
  obtain ⟨p, G, name, hr⟩ := resolves_of_names hplace hx
  exact hno p G name hr

theorem cut_missing {k : Key} (hG : v.root.get p = some G)
    (hk : G.entries.lookup k = none) :
    (v.names d).cut (p ++ [k]) = v.names d :=
  Names.cut_eq_self fun r =>
    congrArg (Option.map _) (Folder.find_missing hG hk r)

theorem names_key (hG : v.root.get p = some G) (k : Key) :
    v.names d (p ++ [k]) = (G.entries.lookup k).map (Folder.node d) :=
  congrArg _ (Folder.find_key hG)

end Place

/-! ## The operations -/

/-- There is a new object at the place of the path, or everything is as
before. -/
def Makes (n n' : Names Key (List Byte)) (path : List Byte) (isDir : Bool)
    (New : Node (List Byte) → Prop) : Prop :=
  n' = n ∨ ∃ p k x, place path isDir = some (p ++ [k]) ∧ n p = some .dir ∧
    n (p ++ [k]) = none ∧ New x ∧
    n' = n.put (p ++ [k]) x

/-- `RecursiveRemove` takes the file of that name, and the directory if there is
no file. -/
def cutAll (n : Names Key (List Byte)) (path : List Byte) :
    Names Key (List Byte) :=
  match place path IS_FILE, place path IS_DIR with
  | some file, some dir => if (n file).isSome then n.cut file else n.cut dir
  | _, _ => n

/-- The header sector of the file at a place. -/
def System.sectorAt (s : System) (q : List Key) : Option Int :=
  match Volume.read s.disk with
  | .ok v => match v.root.find q with
    | some (hdr, none) => some hdr.sector
    | _ => none
  | .error _ => none

/-- What `Write` does to the file at `q` that `file` has open. -/
structure Writes (n n' : Names Key (List Byte)) (q : List Key) (file : OpenFile)
    (buf : List Byte) (size : Int) (content content' : List Byte) : Prop where
  before : n q = some (.file content)
  after : n' = n.put q (.file content')
  length : content'.length = content.length
  /-- A request that an `int` can take is done to the end of the file. -/
  exact : ∀ position : Nat, file.seekPosition = position → 0 ≤ size →
    size ≤ buf.length →
    position + size < 2147483648 →
    content' = blit content
      (buf.take (min size.toNat (content.length - position))) position

/-- What the disk of `s'` shows when an operation has changed the disk of `s`
into it. -/
def Op.Does (s s' : System) : Op → Prop
  | .create path initialSize => Makes s.names s'.names path IS_FILE fun x =>
      ∃ content : List Byte, (content.length : Int) = initialSize ∧
        x = .file content
  | .mkdir path => Makes s.names s'.names path IS_DIR (· = .dir)
  | .remove path => s'.names = (place path IS_FILE).elim s.names s.names.cut
  | .recursiveRemove path => s'.names = cutAll s.names path
  | .write buf size id => s.fs.opTable id = none ∧ s'.names = s.names ∨
      ∃ q file content content', s.fs.opTable id = some (some file) ∧
        s.live id = s.sectorAt q ∧
        Writes s.names s'.names q file buf size content content'
  | _ => s'.names = s.names

/-! ## One operation -/

section Calls
variable {d : Disk} {v : Volume} {fs : FileSystem} {path : List Byte}

/-- The disk holds a next volume, and what that shows is so. -/
def Volume.Shows (v : Volume) (d d' : Disk)
    (P : Names Key (List Byte) → Prop) : Prop :=
  ∃ v', Volume.Next d d' v v' ∧ P (v'.names d')

theorem shows_same (h : v.On d) {d' : Disk} (hsame : d' = d)
    {P : Names Key (List Byte) → Prop} (hP : P (v.names d)) :
    v.Shows d d' P := by
  subst hsame
  exact ⟨v, .refl h, hP⟩

/-- The object that is made is a directory, or a file of the size asked for. -/
def IsNew (isDir : Bool) (initialSize : Int) (x : Node (List Byte)) : Prop :=
  if isDir then x = .dir else ∃ content : List Byte,
    (content.length : Int) = initialSize ∧ x = .file content

theorem Reserved.isNew {isDir : Bool} {initialSize : Int} {t : HdrTree}
    {fm fm' : Bitmap} {d' : Disk} (hpos : 0 < objectSize isDir initialSize)
    (h : Reserved fm (objectSize isDir initialSize).toNat t fm') :
    IsNew isDir initialSize (Folder.node d' (t, newEntries isDir)) := by
  cases isDir with
  | true => rfl
  | false =>
      refine ⟨t.content d', ?_, rfl⟩
      rw [HdrTree.length_content h.wf.backed, h.bytes]
      exact Int.toNat_of_nonneg (Int.le_of_lt hpos)

theorem createFileDir_shows (h : v.On d) (hfs : fs.Mounts v) (path : List Byte)
    (isDir : Bool) (initialSize : Int) :
    v.Shows d (Outcome.final (fs.createFileDir path isDir initialSize d))
      fun n' =>
      Makes (v.names d) n' path isDir (IsNew isDir initialSize) := by
  by_cases hres : ∃ p G name, Resolves v path p G name
  · obtain ⟨p, G, name, hr⟩ := hres
    cases hlook : G.entries.lookup (keyOf name isDir) with
    | some found =>
        rw [createFileDir_exists h hfs hr (by rw [hlook]; rfl)]
        exact shows_same h rfl (.inl rfl)
    | none =>
        by_cases hroom : 0 < objectSize isDir initialSize ∧
            ∃ x, reserve (v.map.freeMap d) (objectSize isDir initialSize) =
              .ok x
        · obtain ⟨hpos, x, hx⟩ := hroom
          obtain ⟨t, d', hrun, hreserved, hcreated⟩ :=
            createFileDir_ok h hfs hr hlook hpos hx
          have hu := hcreated.update h hr.get hlook hreserved
          rw [hrun]
          refine ⟨_, hu.next h hr.get, ?_⟩
          cases hfree : G.entries.table.find? (!·.inUse) with
          | some e =>
              refine .inr ⟨p, _, _, hr.place isDir, Volume.names_dir hr.get, ?_,
                hreserved.isNew hpos,
                hu.names_put h hr.get rfl hlook hfree⟩
              rw [names_key hr.get, hlook]
              rfl
          | none =>
              -- the directory is full, and the entry is not written
              have hfull := Entries.insert_full name t (newEntries isDir)
                (Folder.tidy_get p h.tidy hr.get) hfree
              refine .inl (funext fun q => ?_)
              by_cases hpq : p <+: q
              · obtain ⟨r, rfl⟩ := hpq
                exact hu.names_same h hr.get (by rw [hfull])
              · exact hu.names_outside h hr.get hpq
        · obtain ⟨e, hrun⟩ := createFileDir_error h hfs hr hlook
            fun hpos x hx => hroom ⟨hpos, x, hx⟩
          rw [hrun]
          exact shows_same h rfl (.inl rfl)
  · obtain ⟨e, hrun⟩ := createFileDir_unresolved h hfs
      (fun p G name hr => hres ⟨p, G, name, hr⟩) isDir initialSize
    rw [hrun]
    exact shows_same h rfl (.inl rfl)

theorem Removed.shows {p : List Key} {G : Folder} {k : Key} {hdr : HdrTree}
    {sub : Option Entries} {d' : Disk} (h : v.On d) (hG : v.root.get p = some G)
    (hk : G.entries.lookup k = some (hdr, sub)) (hremoved : Removed d d' v G
      (G.entries.erase k) (Entries.subtree hdr sub)) :
    v.Shows d d' (· = (v.names d).cut (p ++ [k])) :=
  ⟨_, hremoved.next h hG hk, (hremoved.update h hG hk).names_cut h hG rfl⟩

theorem remove_final (h : v.On d) (hfs : fs.Mounts v) (hno : ∀ p G name,
      Resolves v path p G name → G.entries.lookup (keyOf name IS_FILE) = none) :
    Outcome.final (fs.remove path d) = d := by
  cases hrun : traversePath path IS_FILE fs.directoryFile d with
  | error e =>
      rw [FileSystem.remove,
        Outcome.bind_of_error (Outcome.reads_of_error hrun)]
      rfl
  | ok tr =>
      rw [FileSystem.remove, Outcome.bind_of_ok (Outcome.reads_of_ok hrun)]
      rcases traversePath_cases h hfs.root hrun with
        ⟨p, G, name, hr, _, htarget⟩ | ⟨_, htarget⟩
      · rw [htarget, hno p G name hr]
        rfl
      · rw [htarget]
        rfl

theorem remove_shows (h : v.On d) (hfs : fs.Mounts v) (path : List Byte) :
    v.Shows d (Outcome.final (fs.remove path d))
      (· = (place path IS_FILE).elim (v.names d) (v.names d).cut) := by
  by_cases hres : ∃ p G name, Resolves v path p G name
  · obtain ⟨p, G, name, hr⟩ := hres
    rw [hr.place]
    cases hk : G.entries.lookup (keyOf name IS_FILE) with
    | some found =>
        obtain ⟨d', hrun, hremoved⟩ := remove_ok h hfs hr hk
        rw [hrun]
        exact hremoved.shows h hr.get hk
    | none =>
        refine shows_same h (remove_final h hfs fun p' G' name' hr' => ?_)
          (cut_missing hr.get hk).symm
        obtain ⟨rfl, rfl⟩ := hr.unique hr'
        exact hk
  · have hno : ∀ p G name, ¬ Resolves v path p G name :=
      fun p G name hr => hres ⟨p, G, name, hr⟩
    refine shows_same h (remove_final h hfs fun p G name hr =>
      absurd hr (hno p G name)) ?_
    cases hplace : place path IS_FILE with
    | none => rfl
    | some q => exact (cut_unresolved hno hplace).symm

theorem traversePath_missing (h : v.On d)
    (hfs : fs.Mounts v) {isDir : Bool} {tr : TraversePath} (hno : ∀ p G name,
      Resolves v path p G name → G.entries.lookup (keyOf name isDir) = none)
    (hrun : traversePath path isDir fs.directoryFile d = .ok tr) :
    tr.flush d = .ok () d ∧
      (tr.target = none ∨ ∃ name, tr.target = some (name, false)) := by
  rcases traversePath_cases h hfs.root hrun with
    ⟨p, G, name, hr, hat, htarget⟩ | ⟨⟨p, G, hat⟩, htarget⟩
  · rw [hno p G name hr] at htarget
    exact ⟨hat.flush_eq h, .inr ⟨name, htarget⟩⟩
  · exact ⟨hat.flush_eq h, .inl htarget⟩

theorem recursiveRemove_second (h : v.On d) (hfs : fs.Mounts v)
    (hno : ∀ p G name, Resolves v path p G name →
      G.entries.lookup (keyOf name IS_DIR) = none) :
    Outcome.final ((do
      let tr ← Outcome.reads (traversePath path IS_DIR fs.directoryFile)
      match tr.target with
      | some (name, true) => fs.removeTarget tr name IS_DIR
      | _ => throw (.assertFailed "Invalid path in RecursiveRemove") :
            FsM Bool) d) = d := by
  cases hrun : traversePath path IS_DIR fs.directoryFile d with
  | error e =>
      rw [Outcome.bind_of_error (Outcome.reads_of_error hrun)]
      rfl
  | ok tr =>
      rw [Outcome.bind_of_ok (Outcome.reads_of_ok hrun)]
      rcases (traversePath_missing h hfs hno hrun).2 with
        htarget | ⟨name, htarget⟩ <;> rw [htarget] <;> rfl

theorem recursiveRemove_final (h : v.On d)
    (hfs : fs.Mounts v) (hno : ∀ p G name isDir, Resolves v path p G name →
      G.entries.lookup (keyOf name isDir) = none) :
    Outcome.final (fs.recursiveRemove path d) = d := by
  have hsecond := recursiveRemove_second h hfs fun p G name =>
    hno p G name IS_DIR
  rw [FileSystem.recursiveRemove]
  cases hrun : traversePath path IS_FILE fs.directoryFile d with
  | error e =>
      rw [Outcome.bind_of_error (Outcome.reads_of_error hrun)]
      rfl
  | ok tr =>
      rw [Outcome.bind_of_ok (Outcome.reads_of_ok hrun)]
      obtain ⟨hflush, htarget | ⟨name, htarget⟩⟩ :=
        traversePath_missing h hfs (fun p G name => hno p G name IS_FILE) hrun
      · rw [htarget]
        exact (congrArg Outcome.final (Outcome.bind_of_ok hflush)).trans hsecond
      · rw [htarget]
        exact (congrArg Outcome.final (Outcome.bind_of_ok hflush)).trans hsecond

theorem recursiveRemove_shows (h : v.On d) (hfs : fs.Mounts v)
    (path : List Byte) :
    v.Shows d (Outcome.final (fs.recursiveRemove path d))
      (· = cutAll (v.names d) path) := by
  by_cases hres : ∃ p G name, Resolves v path p G name
  · obtain ⟨p, G, name, hr⟩ := hres
    rw [cutAll, hr.place, hr.place]
    dsimp only
    rw [names_key hr.get, Option.isSome_map]
    cases hfile : G.entries.lookup (keyOf name IS_FILE) with
    | some found =>
        obtain ⟨d', hrun, hremoved⟩ := recursiveRemove_file h hfs hr hfile
        rw [hrun]
        exact hremoved.shows h hr.get hfile
    | none =>
        cases hdir : G.entries.lookup (keyOf name IS_DIR) with
        | some found =>
            obtain ⟨d', hrun, hremoved⟩ :=
              recursiveRemove_dir h hfs hr hfile hdir
            rw [hrun]
            exact hremoved.shows h hr.get hdir
        | none =>
            refine shows_same h (recursiveRemove_final h hfs
              fun p' G' name' isDir hr' => ?_)
              (cut_missing hr.get hdir).symm
            obtain ⟨rfl, rfl⟩ := hr.unique hr'
            cases isDir with
            | false => exact hfile
            | true => exact hdir
  · have hno : ∀ p G name, ¬ Resolves v path p G name :=
      fun p G name hr => hres ⟨p, G, name, hr⟩
    refine shows_same h (recursiveRemove_final h hfs fun p G name _ hr =>
      absurd hr (hno p G name)) ?_
    rw [cutAll]
    split
    · next q q' hq hq' =>
        rw [cut_unresolved hno hq, cut_unresolved hno hq', ite_self]
    · rfl

theorem write_shows (h : v.On d) {id : OpenFileId} {sector : Int} {o : Obj}
    (ho : Holder fs v id sector o) (buf : List Byte) (size : Int) :
    v.Shows d (Outcome.final (fs.write buf size id d)) fun n' =>
      ∃ q file content content',
      v.root.find q = some (o.hdr, none) ∧ fs.opTable id = some (some file) ∧
        Writes (v.names d) n' q file buf size content content' := by
  obtain ⟨file, hid, hhdr⟩ := ho.handle
  obtain ⟨q, hq⟩ := h.place_of_mem ho.mem ho.file
  have hframe := fun x (hx : x ∉ o.hdr.leaves) => write_frame h ho buf size hx
  have hwf := (h.objs o ho.mem).wf
  have hlen := HdrTree.length_content hwf.backed
  refine ⟨v, h.next_rewrite ho.mem ho.file hframe, q, file, _, _, hq, hid,
    Volume.names_file hq,
    h.names_rewrite ho.mem hframe hq, (hlen _).trans (hlen d).symm, ?_⟩
  intro position hpos hsize hbuf hsum
  obtain ⟨n, rfl⟩ := Int.eq_ofNat_of_zero_le hsize
  obtain ⟨d', hrun, -, hcontent⟩ := HdrTree.writeAt_eq hwf.backed hhdr d
    (Int.ofNat_le.mp hbuf)
    (show position + n < 2147483648 by omega)
  rw [← hpos] at hrun
  rw [FileSystem.write_of_ok hid (OpenFile.write_of_ok hrun), hlen]
  exact hcontent

end Calls

/-! ## Every step -/

/-- A step with the operation that makes it, or the end of the program. -/
inductive Leads : System → Option Op → System → Prop
  | op {s : System} (op : Op) {fs' : FileSystem} {d' : Disk}
      (hallowed : s.Allowed op)
      (hrun : op.run s.fs s.disk = .ok fs' d') :
      Leads s op ⟨fs', d', fun id => (s.holder op fs' id).filter (isFileAt d')⟩
  | halt {s : System} (op : Op) {e : Fault} {d' : Disk} {fs' : FileSystem}
      (hallowed : s.Allowed op)
      (hrun : op.run s.fs s.disk = .error e d') (hends : e.ends = true)
      (hboot : FileSystem.boot d' = .ok fs') : Leads s op ⟨fs', d',
        fun _ => none⟩
  | reboot {s : System} {fs' : FileSystem}
      (hboot : FileSystem.boot s.disk = .ok fs') :
      Leads s none ⟨fs', s.disk, fun _ => none⟩

theorem step_iff {s s' : System} : Step s s' ↔ ∃ op, Leads s op s' := by
  constructor
  · rintro (⟨op, hallowed, hrun⟩ | ⟨op, hallowed, hrun, hends, hboot⟩ | hboot)
    · exact ⟨_, .op op hallowed hrun⟩
    · exact ⟨_, .halt op hallowed hrun hends hboot⟩
    · exact ⟨_, .reboot hboot⟩
  · rintro ⟨-, ⟨op, hallowed, hrun⟩ | ⟨op, hallowed, hrun, hends,
      hboot⟩ | hboot⟩
    · exact .op op hallowed hrun
    · exact .halt op hallowed hrun hends hboot
    · exact .reboot hboot

section Run
variable {s s' : System} {v : Volume}

theorem System.names_eq (h : v.On s.disk) : s.names = v.names s.disk := by
  rw [System.names, h.read_eq]

theorem System.sectorAt_eq (h : v.On s.disk) {q : List Key} {hdr : HdrTree}
    (hq : v.root.find q = some (hdr, none)) :
    s.sectorAt q = some (hdr.sector : Int) := by
  rw [System.sectorAt, h.read_eq]
  dsimp only
  rw [hq]

theorem final_bind_pure {α β : Type} {x : FsM α}
    {f : α → FsM β} {d : Disk} (hf : ∀ a d', Outcome.final (f a d') = d') :
    Outcome.final ((x >>= f) d) = Outcome.final (x d) :=
  Outcome.final_bind (P := (· = Outcome.final (x d))) rfl fun a d' _ hd =>
    (hf a d').trans hd

theorem Volume.Shows.names {α β : Type} {x : FsM α} {f : α → FsM β} {d : Disk}
    {P : Names Key (List Byte) → Prop} (h : v.Shows d (Outcome.final (x d)) P)
    (hf : ∀ a d', Outcome.final (f a d') = d')
    (hdisk : s.disk = Outcome.final ((x >>= f) d)) : P s.names := by
  rw [← final_bind_pure hf, ← hdisk] at h
  obtain ⟨v', hnext, hP⟩ := h
  rw [System.names_eq hnext.on]
  exact hP

/-- An operation that ends with the disk of `s'`, well or not, does this. -/
theorem Op.does_of_final (h : Inv s v) {op : Op} (hallowed : s.Allowed op)
    (hdisk : s'.disk = Outcome.final (op.run s.fs s.disk)) : op.Does s s' := by
  have hnames := System.names_eq h.on
  have hsame (hfinal : Outcome.final (op.run s.fs s.disk) = s.disk) : s'.names =
      s.names := by
    rw [System.names, System.names, hdisk, hfinal]
  cases op with
  | create path initialSize =>
      rw [Op.Does, hnames]
      exact (createFileDir_shows h.on h.mounts path IS_FILE initialSize).names
        (fun _ _ => rfl) hdisk
  | mkdir path =>
      rw [Op.Does, hnames]
      exact (createFileDir_shows h.on h.mounts path IS_DIR 0).names
        (fun _ _ => rfl) hdisk
  | remove path =>
      rw [Op.Does, hnames]
      exact (remove_shows h.on h.mounts path).names (fun _ _ => rfl) hdisk
  | recursiveRemove path =>
      rw [Op.Does, hnames]
      exact (recursiveRemove_shows h.on h.mounts path).names
        (fun _ _ => rfl) hdisk
  | «open» path rand =>
      exact hsame ((final_bind_pure fun _ _ => rfl).trans
        (open_final h.on h.mounts path rand))
  | read size id => exact hsame ((final_bind_pure fun _ _ => rfl).trans
        (read_final s.fs size id s.disk))
  | write buf size id =>
      cases hlive : s.live id with
      | some sector =>
          obtain ⟨o, ho⟩ := h.live id sector hlive
          obtain ⟨q, file, content, content', hq, hid, hwrites⟩ :=
            (write_shows h.on ho buf size).names (fun _ _ => rfl) hdisk
          rw [← hnames] at hwrites
          refine .inr ⟨q, file, content, content', hid, ?_, hwrites⟩
          rw [hlive, System.sectorAt_eq h.on hq, ho.sector]
      | none =>
          -- then the identifier is not in use
          have hid : s.fs.opTable id = none := by
            refine Option.not_isSome_iff_eq_none.mp fun hsome => ?_
            have hl := hallowed hsome
            rw [hlive] at hl
            cases hl
          refine .inl ⟨hid, hsame ((final_bind_pure fun _ _ => rfl).trans ?_)⟩
          rw [FileSystem.write, hid]
          rfl
  | seek position id => exact hsame rfl
  | close id => exact hsame ((final_bind_pure fun _ _ => rfl).trans (close_final s.fs id s.disk))

/-- Also when the program ends between two operations, what the disk shows
stays. -/
def System.Turns (s : System) (op : Option Op) (s' : System) : Prop :=
  op.elim (s'.names = s.names) (Op.Does s s')

theorem Leads.turns {op : Option Op} (hleads : Leads s op s') (h : Inv s v) :
    s.Turns op s' := by
  cases hleads with
  | op op hallowed hrun => exact Op.does_of_final h hallowed (by rw [hrun]; rfl)
  | halt op hallowed hrun hends hboot =>
      exact Op.does_of_final h hallowed (by rw [hrun]; rfl)
  | reboot hboot => rfl

/-- What a user sees of the file system is a tree of names, in every run. -/
theorem names_refined (h : Reachable s) {op : Option Op}
    (hleads : Leads s op s') : s.Turns op s' := by
  obtain ⟨v, hinv⟩ := h.inv
  exact hleads.turns hinv

/-- After formatting there is the root. -/
theorem names_formatted {d₀ d : Disk} {fs : FileSystem}
    (hrun : FileSystem.format d₀ = .ok fs d) (p : List Key) :
    System.names ⟨fs, d, fun _ => none⟩ p = if p = [] then some .dir
      else none := by
  obtain ⟨v, d', hformat, hon, hentries, -⟩ := format_ok d₀
  rw [hformat] at hrun
  cases hrun
  rw [System.names_eq hon]
  cases p with
  | nil => exact Volume.names_dir rfl
  | cons k ks =>
      rw [if_neg (List.cons_ne_nil k ks), Volume.names, Folder.find, hentries,
        Entries.lookup_empty]
      rfl

end Run

/-- The file "/f" is removed. -/
theorem names_refined_remove : ∃ s s', Reachable s ∧
    (s.names [keyOf [102] IS_FILE]).isSome = true ∧
    Leads s (some (.remove (rootPath 102))) s' ∧
      s'.names [keyOf [102] IS_FILE] = none := by
  obtain ⟨s, v, t, h, hinv, hr, hk, -⟩ :=
    formatted_file (show 0 < 1 by decide) (by decide)
  obtain ⟨d', hrun, -⟩ := remove_ok hinv.on hinv.mounts hr hk
  have hop : Op.run s.fs (.remove (rootPath 102)) s.disk = .ok s.fs d' :=
    Outcome.bind_of_ok hrun
  have hleads := Leads.op (s := s) (.remove (rootPath 102)) trivial hop
  refine ⟨s, _, h, ?_, hleads, ?_⟩
  · rw [System.names_eq hinv.on, Volume.names, Folder.find_one, hk]
    rfl
  · have hturns : System.names _ = (place (rootPath 102) IS_FILE).elim s.names
      s.names.cut := names_refined h hleads
    rw [hr.place] at hturns
    exact (congrFun hturns _).trans (Names.cut_below (List.prefix_refl _))

end EroikoBlue.MP4

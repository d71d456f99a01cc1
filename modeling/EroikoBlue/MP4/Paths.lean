/-
# `MP4.Paths` — walking a path

A path is written as a delimiter before each component (`joinPath`).
`ParsePath` is then the inverse of writing (`parsePath_joinPath`): it is the
library's `splitOn` on everything behind the first character, and no component
holds a delimiter.

`TraversePath` looks for every component but the last among the directories and
reads their tables one after the other.  On a disk that holds a volume this is a
walk down the tree: the traversal ends in some directory of the volume (`At`),
with its table in memory, and succeeds exactly when every component names a
directory of the one before (`Resolves`).

A component that names nothing is passed over; the walk goes on and is only
reported as a failure at the end.  So a traversal always holds a directory, and
its destructor writes that one back, which changes nothing (`At.flush_eq`).
-/
import EroikoBlue.MP4.Volume

namespace EroikoBlue.MP4

open Bytes

/-! ## Paths and their components -/

/-- The directories a parsed path leads through. -/
def pathKeys (path_list : List (List Byte)) : List Key :=
  (path_list.drop 1).dropLast.map (DirectoryEntry.keyOf · IS_DIR)

/-- The components of a path as names of directories. -/
def dirKeys (comps : List (List Byte)) : List Key :=
  comps.map (DirectoryEntry.keyOf · IS_DIR)

/-- A component: some characters of a C string, none of them the delimiter. -/
structure IsComponent (c : List Byte) : Prop where
  ne_nil : c ≠ []
  no_delimeter : delimeter ∉ c
  no_zero : (0 : Byte) ∉ c

/-- `"/" + c₁ + "/" + … + "/" + cₙ`. -/
def joinPath (comps : List (List Byte)) : List Byte :=
  comps.flatMap (delimeter :: ·)

theorem splitAtDelimeter_eq (s : List Byte) :
    splitAtDelimeter s = s.splitOn delimeter := by
  induction s with
  | nil => rfl
  | cons c cs ih =>
      rw [splitAtDelimeter, List.splitOn_cons_eq_if_modifyHead, ih]
      by_cases hc : c = delimeter
      · rw [if_pos hc, if_pos (beq_iff_eq.mpr hc)]
      · rw [if_neg hc, if_neg (mt beq_iff_eq.mp hc)]
        cases hsplit : cs.splitOn delimeter with
        | nil => exact absurd hsplit (List.splitOn_ne_nil delimeter cs)
        | cons w ws => rfl

theorem cstr_eq_self {s : List Byte} (h : (0 : Byte) ∉ s) : cstr s = s := by
  refine List.takeWhile_eq_self_iff.mpr fun b hb => ?_
  rw [decide_eq_true_eq]
  rintro rfl
  exact h hb

section Join
variable {comps : List (List Byte)}

theorem joinPath_no_zero (h : ∀ c ∈ comps, IsComponent c) :
    (0 : Byte) ∉ joinPath comps := by
  intro h0
  obtain ⟨c, hc, h0⟩ := List.mem_flatMap.mp h0
  rcases List.mem_cons.mp h0 with h0 | h0
  · exact absurd h0 (by decide)
  · exact (h c hc).no_zero h0

theorem splitOn_joinPath : ∀ {c : List Byte} {cs : List (List Byte)},
    (∀ c' ∈ c :: cs, IsComponent c') →
    (c ++ joinPath cs).splitOn delimeter = c :: cs
  | c, [], h => by
      rw [joinPath, List.flatMap_nil, List.append_nil]
      exact List.splitOn_eq_singleton (h c (.head _)).no_delimeter
  | c, c' :: cs, h => by
      have hrest : (c' ++ joinPath cs).splitOn delimeter = c' :: cs :=
        splitOn_joinPath fun c hc => h c (.tail _ hc)
      calc (c ++ joinPath (c' :: cs)).splitOn delimeter
          = (c ++ delimeter :: (c' ++ joinPath cs)).splitOn delimeter := rfl
        _ = c :: (c' ++ joinPath cs).splitOn delimeter :=
            List.splitOn_append_cons_self_of_not_mem
              (h c (.head _)).no_delimeter _
        _ = c :: c' :: cs := by rw [hrest]

/-- `ParsePath` gives the components back, the root before them. -/
theorem parsePath_joinPath (hne : comps ≠ []) (h : ∀ c ∈ comps, IsComponent c) :
    parsePath (joinPath comps) = .ok ([delimeter] :: comps) := by
  obtain ⟨c, cs, rfl⟩ := List.exists_cons_of_ne_nil hne
  have hjoin : joinPath (c :: cs) = delimeter :: (c ++ joinPath cs) := rfl
  have hroot : joinPath (c :: cs) ≠ [delimeter] := by
    intro heq
    rw [hjoin, List.cons.injEq] at heq
    exact (h c (.head _)).ne_nil (List.append_eq_nil_iff.mp heq.2).1
  have hsplit : splitAtDelimeter ((joinPath (c :: cs)).drop 1) = c :: cs :=
    (splitAtDelimeter_eq _).trans (splitOn_joinPath h)
  have hnil : joinPath (c :: cs) ≠ [] := List.cons_ne_nil _ _
  have hcstr := cstr_eq_self (joinPath_no_zero h)
  rw [parsePath, hcstr, if_neg hroot, if_neg hnil, hsplit]
  rfl

theorem parsePath_append {cs : List (List Byte)} {cn : List Byte}
    (h : ∀ c ∈ cs ++ [cn], IsComponent c) :
    parsePath (joinPath (cs ++ [cn])) = .ok ([delimeter] :: (cs ++ [cn])) :=
  parsePath_joinPath
    (List.append_ne_nil_of_right_ne_nil cs (List.cons_ne_nil cn [])) h

end Join

theorem pathKeys_concat (cs : List (List Byte)) (cn : List Byte) :
    pathKeys ([delimeter] :: (cs ++ [cn])) = dirKeys cs := by
  rw [pathKeys, List.drop_one, List.tail_cons, List.dropLast_concat]
  rfl

theorem last_component (cs : List (List Byte)) (cn : List Byte) :
    ([delimeter] :: (cs ++ [cn])).getLastD [] = cn := by
  rw [← List.cons_append, List.getLastD_concat]

theorem isComponent_letter {c : Byte} (h0 : c ≠ 0) (hc : c ≠ delimeter) :
    IsComponent [c] where
  ne_nil := List.cons_ne_nil c []
  no_delimeter := mt List.mem_singleton.mp hc.symm
  no_zero := mt List.mem_singleton.mp h0.symm

/-! ## Resolved paths -/

/-- The last component of `path` is `name`, the ones before lead to the
directory `G` at `p`, and the name fits into its buffer. -/
structure Resolves (v : Volume) (path : List Byte) (p : List Key) (G : Folder)
    (name : List Byte) : Prop where
  parse : ∃ l, parsePath path = .ok l ∧ pathKeys l = p ∧ l.getLastD [] = name
  get : v.root.get p = some G
  short : name.length ≤ FileNameMaxLen

/-- A path that is written down leads where its components do. -/
theorem resolves_joinPath {v : Volume} {G : Folder} (cs : List (List Byte))
    (cn : List Byte) (h : ∀ c ∈ cs ++ [cn], IsComponent c)
    (hget : v.root.get (dirKeys cs) = some G)
    (hlen : cn.length ≤ FileNameMaxLen) :
    Resolves v (joinPath (cs ++ [cn])) (dirKeys cs) G cn where
  parse := ⟨_, parsePath_append h, pathKeys_concat cs cn, last_component cs cn⟩
  get := hget
  short := hlen

theorem Resolves.set {v : Volume} {path : List Byte} {p : List Key} {G : Folder}
    {name : List Byte} (h : Resolves v path p G name) (es : Entries) :
    Resolves (v.set p es) path p ⟨G.hdr, es⟩ name where
  parse := h.parse
  get := Folder.get_set p es h.get
  short := h.short

namespace Folder

/-- Where a walk down from `F` ends when the names that are not there are passed
over. -/
def reach : List Key → Folder → Folder
  | [], F => F
  | k :: ks, F => match F.entries.lookup k with
    | some (hdr, some sub) => reach ks ⟨hdr, sub⟩
    | _ => reach ks F

theorem reach_cons_of {k : Key} {ks : List Key} {F : Folder} {hdr : HdrTree}
    {sub : Entries} (h : F.entries.lookup k = some (hdr, some sub)) :
    F.reach (k :: ks) = reach ks ⟨hdr, sub⟩ := by
  rw [reach, h]

theorem reach_skip {k : Key} {ks : List Key} {F : Folder}
    (h : F.entries.lookup k = none) :
    F.reach (k :: ks) = F.reach ks := by
  rw [reach, h]

theorem get_skip {k : Key} {ks : List Key} {F : Folder}
    (h : F.entries.lookup k = none) :
    F.get (k :: ks) = none := by
  rw [get, h]

theorem reach_of_get : ∀ (ks : List Key) {F G : Folder}, F.get ks = some G →
    F.reach ks = G
  | [], F, G, h => Option.some.inj h
  | k :: ks, F, G, h => by
      obtain ⟨hdr, sub, hk, hks⟩ := get_cons h
      rw [reach_cons_of hk]
      exact reach_of_get ks hks

theorem get_reach : ∀ (ks : List Key) (F : Folder), ∃ p, F.get p =
    some (F.reach ks)
  | [], F => ⟨[], rfl⟩
  | k :: ks, F => by
      rw [reach]
      split
      · next hdr sub hk =>
          obtain ⟨p, hp⟩ := get_reach ks ⟨hdr, sub⟩
          exact ⟨k :: p, (get_cons_of hk).trans hp⟩
      · exact get_reach ks F

end Folder

namespace TraversePath

/-- The traversal holds the directory `G`, which is at `p` in the volume. -/
structure At (v : Volume) (p : List Key) (G : Folder)
    (tr : TraversePath) : Prop where
  get : v.root.get p = some G
  dir : tr.dir = .ofTable G.entries.table
  file : tr.dirFile.hdr = G.hdr.header

end TraversePath

/-! ## Lookups -/

theorem Entries.find_eq {es : Entries} (h : es.Tidy) (name : List Byte)
    (isDir : Bool) :
    (Directory.ofTable es.table).find name isDir =
      match es.lookup (DirectoryEntry.keyOf name isDir) with
      | some (hdr, _) => (hdr.sector : Int)
      | none => -1 := by
  have hfind := es.find?_hasKey h (DirectoryEntry.keyOf name isDir)
  rw [Directory.find_eq]
  rw [show (Directory.ofTable es.table).table = es.table from rfl]
  cases htable :
      es.table.find? (Directory.hasKey (DirectoryEntry.keyOf name isDir)) with
  | none =>
      rw [htable] at hfind
      cases hes : es.lookup (DirectoryEntry.keyOf name isDir) with
      | none => rfl
      | some found =>
          rw [hes] at hfind
          cases hfind
  | some e =>
      rw [htable] at hfind
      cases hes : es.lookup (DirectoryEntry.keyOf name isDir) with
      | none =>
          rw [hes] at hfind
          cases hfind
      | some found =>
          rw [hes] at hfind
          exact Option.some.inj hfind

theorem Entries.find_isSome {es : Entries} (h : es.Tidy) (name : List Byte)
    (isDir : Bool) :
    decide ((Directory.ofTable es.table).find name isDir ≠ -1) =
      (es.lookup (DirectoryEntry.keyOf name isDir)).isSome := by
  rw [es.find_eq h]
  cases es.lookup (DirectoryEntry.keyOf name isDir) with
  | none => rfl
  | some found =>
      rw [Option.isSome_some, decide_eq_true_eq]
      intro hneg
      have hle : (0 : Int) ≤ (found.1.sector : Int) := Int.natCast_nonneg _
      simp only at hneg
      rw [hneg] at hle
      exact absurd hle (by decide)

/-- The name is absent from the table when it is absent from the tree. -/
theorem Entries.find?_isNone {es : Entries} (h : es.Tidy) {k : Key} :
    es.table.find? (Directory.hasKey k) = none ↔ es.lookup k = none := by
  have hfind := es.find?_hasKey h k
  rw [← Option.map_eq_none_iff (f := (·.sector)), hfind, Option.map_eq_none_iff]

section Traverse
variable {d : Disk} {v : Volume}

theorem traverseLoop_eq (h : v.On d) :
    ∀ (comps : List (List Byte)) {p : List Key} {F : Folder}
    {file : OpenFile} (ok : Bool), v.root.get p = some F →
    file.hdr = F.hdr.header →
    ∃ q file', traverseLoop d comps (.ofTable F.entries.table) file ok =
        .ok (.ofTable (F.reach (dirKeys comps)).entries.table, file',
          ok && (F.get (dirKeys comps)).isSome) ∧
      v.root.get q = some (F.reach (dirKeys comps)) ∧
      file'.hdr = (F.reach (dirKeys comps)).hdr.header
  | [], p, F, file, ok, hF, hfile => by
      refine ⟨p, file, ?_, hF, hfile⟩
      rw [dirKeys, List.map_nil, Folder.get, Option.isSome_some, Bool.and_true]
      rfl
  | comp :: comps, p, F, file, ok, hF, hfile => by
      have ht := Folder.tidy_get p h.tidy hF
      have hfind := F.entries.find_eq ht comp IS_DIR
      have hkeys : dirKeys (comp :: comps) =
        DirectoryEntry.keyOf comp IS_DIR :: dirKeys comps := rfl
      rw [traverseLoop, hkeys]
      cases hk : F.entries.lookup (DirectoryEntry.keyOf comp IS_DIR) with
      | none =>
          -- the component is passed over, and the walk has failed
          rw [hk] at hfind
          obtain ⟨q, file', hrun, hG, hfile'⟩ :=
            traverseLoop_eq h comps false hF hfile
          rw [Folder.reach_skip hk, Folder.get_skip hk, Option.isSome_none,
            Bool.and_false]
          exact ⟨q, file', (if_pos hfind).trans hrun, hG, hfile'⟩
      | some found =>
          obtain ⟨hdr, sub⟩ := found
          rw [hk] at hfind
          obtain ⟨sub, rfl⟩ :=
            Option.isSome_iff_exists.mp (Entries.lookup_kind ht hk)
          have hsub : v.root.get (p ++ [DirectoryEntry.keyOf comp IS_DIR]) =
              some ⟨hdr, sub⟩ := by
            rw [Folder.get_append p _ hF, Folder.get_cons_of hk]
            rfl
          have hheld := h.holds_get hsub
          have hlen : (Directory.ofTable F.entries.table).table.length =
              NumDirEntries :=
            ((h.holds_get hF).table _ rfl).1.length
          obtain ⟨q, file', hrun, hG, hfile'⟩ := traverseLoop_eq h comps ok hsub
            (show (OpenFile.mk hdr.header 0).hdr = hdr.header from rfl)
          rw [Folder.reach_cons_of hk, Folder.get_cons_of hk]
          refine ⟨q, file', ?_, hG, hfile'⟩
          rw [← hrun]
          refine (if_neg ?_).trans ?_
          · rw [hfind]
            exact fun hneg => absurd hneg (by simp)
          · rw [hfind, hheld.open_eq, Outcome.ok_bind,
              hheld.fetchFrom_eq rfl hlen]
            rfl

variable {root : OpenFile} {path : List Byte} {isDir : Bool}

/-- A traversal of a parsed path: it ends where the walk ends, and its last step
decides on the last component. -/
theorem traversePath_eq (h : v.On d) (hroot : root.hdr = v.root.hdr.header)
    {l : List (List Byte)} (hl : parsePath path = .ok l) (isDir : Bool) :
    ∃ q file, v.root.get q = some (v.root.reach (pathKeys l)) ∧
      file.hdr = (v.root.reach (pathKeys l)).hdr.header ∧
      traversePath path isDir root d =
        if (v.root.get (pathKeys l)).isSome = true then
          if (l.getLastD []).length > FileNameMaxLen then
            .error (.undefined "strcpy(name, …)")
          else .ok {
            dir := .ofTable (v.root.reach (pathKeys l)).entries.table
            dirFile := file
            target := some (l.getLastD [],
              ((v.root.reach (pathKeys l)).entries.lookup
              (DirectoryEntry.keyOf (l.getLastD []) isDir)).isSome) }
        else .ok {
          dir := .ofTable (v.root.reach (pathKeys l)).entries.table
          dirFile := file
          target := none } := by
  have hself : v.root.get [] = some v.root := rfl
  have hlen : (Directory.new NumDirEntries).table.length = NumDirEntries :=
    List.length_replicate
  have hkeys : pathKeys l = dirKeys (l.drop 1).dropLast := rfl
  obtain ⟨q, file, hrun, hG, hfile⟩ :=
    traverseLoop_eq h (l.drop 1).dropLast true hself hroot
  refine ⟨q, file, hG, hfile, ?_⟩
  rw [traversePath, hkeys, hl, Outcome.ok_bind,
    (h.holds_get hself).fetchFrom_eq hroot hlen, Outcome.ok_bind,
    hrun, Outcome.ok_bind, Bool.true_and, ←
      Entries.find_isSome (Folder.tidy_get q h.tidy hG)]
  rfl

/-- A path that resolves: the traversal holds the parent directory, and reports
whether the last component is in it. -/
theorem Resolves.traversePath_eq {p : List Key} {G : Folder}
    {name : List Byte} (h : v.On d) (hroot : root.hdr = v.root.hdr.header)
    (hr : Resolves v path p G name) (isDir : Bool) :
    ∃ tr, traversePath path isDir root d = .ok tr ∧ tr.At v p G ∧
      tr.target = some (name,
        (G.entries.lookup (DirectoryEntry.keyOf name isDir)).isSome) := by
  obtain ⟨l, hl, rfl, rfl⟩ := hr.parse
  obtain ⟨q, file, _, hfile, hrun⟩ := MP4.traversePath_eq h hroot hl isDir
  rw [Folder.reach_of_get _ hr.get] at hfile hrun
  rw [hr.get, Option.isSome_some, if_pos rfl,
    if_neg (Nat.not_lt.mpr hr.short)] at hrun
  exact ⟨_, hrun, ⟨hr.get, rfl, hfile⟩, rfl⟩

/-- Every traversal that does not stop holds a directory; if it has a target,
the path resolves. -/
theorem traversePath_cases (h : v.On d) (hroot : root.hdr = v.root.hdr.header)
    {tr : TraversePath} (ht : traversePath path isDir root d = .ok tr) :
    (∃ p G name, Resolves v path p G name ∧ tr.At v p G ∧
      tr.target = some (name,
        (G.entries.lookup (DirectoryEntry.keyOf name isDir)).isSome)) ∨
    ((∃ p G, tr.At v p G) ∧ tr.target = none) := by
  obtain ⟨l, hl, _⟩ := Outcome.bind_eq_ok.mp ht
  obtain ⟨q, file, hG, hfile, hrun⟩ := MP4.traversePath_eq h hroot hl isDir
  rw [hrun] at ht
  cases hget : v.root.get (pathKeys l) with
  | none =>
      rw [hget] at ht
      cases ht
      exact .inr ⟨⟨q, _, hG, rfl, hfile⟩, rfl⟩
  | some G =>
      rw [Folder.reach_of_get _ hget] at ht hfile
      rw [hget, Option.isSome_some, if_pos rfl] at ht
      split at ht
      · cases ht
      · next hshort =>
          cases ht
          exact .inl ⟨pathKeys l, G, _,
            ⟨⟨l, hl, rfl, rfl⟩, hget, Nat.not_lt.mp hshort⟩,
            ⟨hget, rfl, hfile⟩, rfl⟩

/-- The destructor of a traversal that changed nothing leaves the disk as it
is. -/
theorem TraversePath.At.flush_eq {tr : TraversePath} {p : List Key} {G : Folder}
    (h : v.On d) (hat : tr.At v p G) : tr.flush d = .ok () d := by
  have hheld := ((h.holds_get hat.get).table _ rfl).1
  refine hheld.writeBack_same hat.file ?_
  rw [hat.dir]
  rfl

end Traverse

end EroikoBlue.MP4

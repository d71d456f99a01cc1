/-
# `MP4.NameSpace` — the file system as a tree of names

What a user sees of a disk is a tree of names (`Lib.Names`): under the keys of a
path there is a directory, a file with its bytes, or nothing.  `Volume.names` is
the tree a volume shows.  Under it are header trees, tables and a free map; this
file proves that none of that shows.

    `Folder.find`           what the tables say about a path
    `place_unique`          a file is in one place only
    `On.names_rewrite`      writing to a file changes the bytes at its place
    `Update.names_put`,
    `Update.names_cut`      rewriting the tables of one directory puts an object into
                            the tree or cuts one off, and nothing else

What each operation does to the tree is in `MP4.Effects`.
-/
import EroikoBlue.Lib.Names
import EroikoBlue.MP4.Subtree

namespace EroikoBlue.MP4

open Bytes

/-! ## Looking up a path -/

namespace Entries
variable {es : Entries} {k j : Key}

theorem lookup_erase_of_ne (h : j ≠ k) :
    (es.erase k).lookup j = es.lookup j := by
  induction es with
  | nil => rfl
  | free e rest ih => exact ih
  | file e hdr rest ih =>
      rw [erase]
      split
      · next hk => rw [lookup, lookup, if_neg (hk ▸ h.symm)]
      · rw [lookup, lookup, ih]
  | dir e hdr sub rest ihs ihr =>
      rw [erase]
      split
      · next hk => rw [lookup, lookup, if_neg (hk ▸ h.symm)]
      · rw [lookup, lookup, ihr]

/-- No two entries have one key. -/
theorem lookup_erase (ht : es.Tidy)
    (hgood : Directory.GoodTable es.table) (k : Key) :
    (es.erase k).lookup k = none := by
  rw [← find?_isNone (tidy_erase ht k), table_erase ht]
  exact hgood.find?_vacate k

/-- What is behind two keys is apart. -/
theorem subtrees_subperm {found found' : HdrTree × Option Entries} (hne : j ≠ k)
    (hk : es.lookup k = some found) (hj : es.lookup j = some found') :
    (subtree found.1 found.2 ++ subtree found'.1 found'.2).Subperm es.objs := by
  have hrest := objs_erase (k := j) (by rw [lookup_erase_of_ne hne, hj])
  refine List.Subperm.trans ?_ (objs_erase hk).symm.subperm
  exact (List.Subperm.refl _).append
    ((List.sublist_append_left _ _).subperm.trans hrest.symm.subperm)

end Entries

namespace Folder
variable {F G : Folder} {p q : List Key} {k : Key}

/-- What a path leads to: the header, and the entries of a directory. -/
def find : List Key → Folder → Option (HdrTree × Option Entries)
  | [], F => some (F.hdr, some F.entries)
  | k :: ks, F => match F.entries.lookup k with
    | some (hdr, some sub) => find ks ⟨hdr, sub⟩
    | some (hdr, none) => if ks.isEmpty then some (hdr, none) else none
    | none => none

theorem find_append : ∀ {p : List Key} {F : Folder}, F.get p = some G →
    ∀ r, F.find (p ++ r) = G.find r
  | [], F, h, r => by
      cases h
      rfl
  | k :: ks, F, h, r => by
      obtain ⟨hdr, sub, hk, hks⟩ := get_cons h
      rw [List.cons_append, find, hk]
      exact find_append hks r

theorem find_dir (h : F.get p = some G) :
    F.find p = some (G.hdr, some G.entries) := by
  rw [← List.append_nil p, find_append h]
  rfl

theorem find_one : F.find [k] = F.entries.lookup k := by
  rw [find]
  split
  · next hk => exact hk.symm ▸ rfl
  · next hk => exact hk.symm ▸ rfl
  · next hk => exact hk.symm

theorem find_key (h : F.get p = some G) :
    F.find (p ++ [k]) = G.entries.lookup k :=
  (find_append h [k]).trans find_one

theorem find_missing (h : F.get p = some G) (hk : G.entries.lookup k = none)
    (r : List Key) :
    F.find (p ++ [k] ++ r) = none := by
  rw [List.append_assoc, find_append h, List.singleton_append, find, hk]

/-- A path that leads to something leads through directories. -/
theorem get_of_find {r : List Key} :
    ∀ {p : List Key} {F : Folder} {found : HdrTree × Option Entries},
    F.find (p ++ k :: r) = some found → ∃ G, F.get p = some G
  | [], F, found, _ => ⟨F, rfl⟩
  | j :: ks, F, found, h => by
      rw [List.cons_append, find] at h
      split at h
      · next hdr sub hj =>
          rw [get_cons_of hj]
          exact get_of_find h
      · next hdr hj =>
          cases ks <;> cases h
      · cases h

theorem find_new {t : HdrTree} {isDir : Bool} {r : List Key}
    (hk : F.entries.lookup k = some (t, newEntries isDir)) (hr : r ≠ []) :
    F.find (k :: r) = none := by
  obtain ⟨j, js, rfl⟩ := List.exists_cons_of_ne_nil hr
  rw [find, hk]
  cases isDir with
  | false => rfl
  | true =>
      show Folder.find (j :: js) ⟨t, .empty NumDirEntries⟩ = none
      rw [find, Entries.lookup_empty]

/-! ### One directory is rewritten -/

/-- What shows of what was found: the kind, and what a file has in it. -/
def node (d : Disk) : HdrTree × Option Entries → Node (List Byte)
  | (_, some _) => .dir
  | (hdr, none) => .file (hdr.content d)

theorem find_set_below {new : Entries} (h : F.get p = some G) (r : List Key) :
    (F.set p new).find (p ++ r) = Folder.find r ⟨G.hdr, new⟩ :=
  find_append (get_set p new h) r

theorem find_set_outside (d : Disk) {new : Entries} :
    ∀ {p q : List Key} {F : Folder}, F.get p = some G → ¬ p <+: q →
    ((F.set p new).find q).map (node d) = (F.find q).map (node d)
  | [], q, F, _, hq => absurd (List.nil_prefix) hq
  | k :: ks, [], F, _, _ => rfl
  | k :: ks, j :: js, F, h, hq => by
      obtain ⟨hdr, sub, hk, hks⟩ := get_cons h
      by_cases hj : j = k
      · subst hj
        have hq' : ¬ ks <+: js :=
          fun hpre => hq (List.cons_prefix_cons.mpr ⟨rfl, hpre⟩)
        have hlook := Entries.lookup_updateSub hk (Entries.setAt new ks)
        rw [set, Entries.setAt, find, find, hk, hlook]
        exact find_set_outside d hks hq'
      · rw [set, Entries.setAt, find, find, Entries.lookup_updateSub_of_ne hj]

end Folder

/-! ## Files and their places -/

namespace Folder
variable {F : Folder} {p q ks js : List Key} {k j : Key} {hdr : HdrTree}
  {sub : Option Entries}

open Entries (subtree)

theorem find_in_dir {hdr' : HdrTree} {sub' : Entries}
    (hk : F.entries.lookup k = some (hdr', some sub')) :
    F.find (k :: ks) = Folder.find ks ⟨hdr', sub'⟩ := by
  rw [find, hk]

theorem find_in_file {hdr' : HdrTree}
    (hk : F.entries.lookup k = some (hdr', none))
    (h : F.find (k :: ks) = some (hdr, sub)) : ks = [] ∧ hdr' = hdr ∧
    sub = none := by
  rw [find, hk] at h
  cases ks with
  | nil =>
      cases h
      exact ⟨rfl, rfl, rfl⟩
  | cons j js => cases h

theorem lookup_of_find (h : F.find (k :: ks) = some (hdr, sub)) :
    ∃ found, F.entries.lookup k = some found := by
  rw [find] at h
  split at h
  · next hk => exact ⟨_, hk⟩
  · next hk => exact ⟨_, hk⟩
  · cases h

theorem find_mem : ∀ {p : List Key} {F : Folder}, F.find p = some (hdr, sub) →
    (⟨hdr, sub.map Entries.table⟩ : Obj) ∈ F.objs
  | [], F, h => by
      cases h
      exact .head _
  | k :: ks, F, h => by
      obtain ⟨⟨hdr', sub'⟩, hk⟩ := lookup_of_find h
      refine .tail _ ((Entries.objs_erase hk).mem_iff.mpr
        (List.mem_append_left _ ?_))
      cases sub' with
      | some sub' =>
          rw [find_in_dir hk] at h
          exact find_mem h
      | none =>
          obtain ⟨-, rfl, rfl⟩ := find_in_file hk h
          exact .head _

theorem find_subtree {found : HdrTree × Option Entries}
    (hk : F.entries.lookup k = some found)
    (h : F.find (k :: ks) = some (hdr, sub)) :
    (⟨hdr, sub.map Entries.table⟩ : Obj) ∈ subtree found.1 found.2 := by
  obtain ⟨hdr', sub'⟩ := found
  cases sub' with
  | some sub' =>
      rw [find_in_dir hk] at h
      exact find_mem h
  | none =>
      obtain ⟨-, rfl, rfl⟩ := find_in_file hk h
      exact .head _

/-- A file is in one place. -/
theorem place_unique : ∀ {p q : List Key} {F : Folder}, F.objs.Nodup →
    F.find p = some (hdr, none) →
    F.find q = some (hdr, none) → p = q
  | [], _, _, _, hp, _ => by cases hp
  | _ :: _, [], _, _, _, hq => by cases hq
  | k :: ks, j :: js, F, hnodup, hp, hq => by
      obtain ⟨found, hk⟩ := lookup_of_find hp
      obtain ⟨found', hj⟩ := lookup_of_find hq
      have hes : F.entries.objs.Nodup := (List.nodup_cons.mp hnodup).2
      by_cases hne : j = k
      · subst hne
        cases hk.symm.trans hj
        obtain ⟨hdr', sub'⟩ := found
        cases sub' with
        | some sub' =>
            have hsub : List.Nodup (Folder.objs ⟨hdr', sub'⟩) :=
              List.Nodup.sublist (List.sublist_append_left _ _)
                ((Entries.objs_erase hk).nodup_iff.mp hes)
            rw [find_in_dir hk] at hp hq
            rw [place_unique hsub hp hq]
        | none => rw [(find_in_file hk hp).1, (find_in_file hk hq).1]
      · -- it would be there twice
        obtain ⟨l, hperm, hsub⟩ := Entries.subtrees_subperm hne hk hj
        have happ := hperm.nodup_iff.mp (hes.sublist hsub)
        exact absurd rfl ((List.nodup_append.mp happ).2.2 _ (find_subtree hk hp)
          _ (find_subtree hj hq))

end Folder

namespace Entries
variable {es : Entries} {o : Obj}

theorem find_rest {e : DirectoryEntry} {hdr : HdrTree}
    {sub : Option Entries} {rest : Entries} {k : Key}
    {ks : List Key} {root : HdrTree} {found : HdrTree × Option Entries}
    (hrest : rest.Tidy) (hkeys : e.key ∉ Directory.keys rest.table)
    (h : Folder.find (k :: ks) ⟨root, rest⟩ = some found)
    (hes : es.lookup k = if e.key = k then some (hdr, sub) else rest.lookup k) :
    Folder.find (k :: ks) ⟨root, es⟩ = some found := by
  have hne : e.key ≠ k := by
    rintro rfl
    have hnone :=
      (find?_isNone hrest).mp (Directory.find?_hasKey_isNone.mpr hkeys)
    rw [Folder.find, hnone] at h
    cases h
  rw [← h, Folder.find, Folder.find, hes, if_neg hne]

/-- Every file has a place. -/
theorem place_of_mem (hfile : o.table = none) (ht : es.Tidy)
    (hkeys : (Directory.keys es.table).Nodup) (hgood : ∀ o ∈ es.objs, ∀ table,
      o.table = some table → (Directory.keys table).Nodup) (ho : o ∈ es.objs) :
    ∃ k ks, ∀ root, Folder.find (k :: ks) ⟨root, es⟩ = some (o.hdr, none) := by
  induction es with
  | nil => cases ho
  | free e rest ih =>
      refine ih ht.2 ?_ hgood ho
      rw [table, Directory.keys_cons, ht.1] at hkeys
      exact hkeys
  | file e hdr rest ih =>
      rw [table, Directory.keys_cons, ht.1.1] at hkeys
      obtain ⟨hnew, hkeys⟩ := List.nodup_cons.mp hkeys
      rcases List.mem_cons.mp ho with rfl | ho
      · refine ⟨e.key, [], fun root => ?_⟩
        rw [Folder.find, lookup, if_pos rfl]
        rfl
      · obtain ⟨k, ks, h⟩ := ih ht.2 hkeys (fun o ho => hgood o (.tail _ ho)) ho
        exact ⟨k, ks, fun root => find_rest ht.2 hnew (h root) rfl⟩
  | dir e hdr sub rest ihs ihr =>
      rw [table, Directory.keys_cons, ht.1.1] at hkeys
      obtain ⟨hnew, hkeys⟩ := List.nodup_cons.mp hkeys
      rcases List.mem_cons.mp ho with rfl | ho
      · cases hfile
      rcases List.mem_append.mp ho with ho | ho
      · obtain ⟨k, ks, h⟩ := ihs ht.2.1 (hgood _ (.head _) _ rfl)
          (fun o ho => hgood o (.tail _ (List.mem_append_left _ ho))) ho
        refine ⟨e.key, k :: ks, fun root => ?_⟩
        rw [Folder.find, lookup, if_pos rfl]
        exact h hdr
      · obtain ⟨k, ks, h⟩ := ihr ht.2.2 hkeys
          (fun o ho => hgood o (.tail _ (List.mem_append_right _ ho))) ho
        exact ⟨k, ks, fun root => find_rest ht.2.2 hnew (h root) rfl⟩

end Entries

/-! ## The tree a volume shows -/

/-- What a disk shows when it holds the volume. -/
def Volume.names (v : Volume) (d : Disk) : Names Key (List Byte) :=
  fun p => (v.root.find p).map (Folder.node d)

/-- What the disk of a system shows. -/
def System.names (s : System) : Names Key (List Byte) :=
  match Volume.read s.disk with
  | .ok v => v.names s.disk
  | .error _ => fun _ => none

namespace Volume
variable {d d' : Disk} {v : Volume} {p q : List Key} {k : Key} {G : Folder}
  {es : Entries} {gone new : List Obj}
  {hdr : HdrTree} {name : List Byte}

theorem names_file (h : v.root.find q = some (hdr, none)) :
    v.names d q = some (.file (hdr.content d)) := by
  rw [names, h]
  rfl

theorem names_dir (h : v.root.get p = some G) : v.names d p = some .dir := by
  rw [names, Folder.find_dir h]
  rfl

theorem names_set_below (h : v.root.get p = some G) (es : Entries)
    (r : List Key) :
    (v.set p es).names d (p ++ r) =
      (Folder.find r ⟨G.hdr, es⟩).map (Folder.node d) :=
  congrArg _ (Folder.find_set_below h r)

theorem names_eq_file {content : List Byte}
    (h : v.names d q = some (.file content)) :
    ∃ hdr, v.root.find q = some (hdr, none) ∧ hdr.content d = content := by
  obtain ⟨⟨hdr, sub⟩, hfind, hnode⟩ := Option.map_eq_some_iff.mp h
  cases sub with
  | some sub => cases hnode
  | none =>
      cases hnode
      exact ⟨hdr, hfind, rfl⟩

theorem On.place_of_mem (h : v.On d) {o : Obj} (ho : o ∈ v.root.objs)
    (hfile : o.table = none) :
    ∃ q, v.root.find q = some (o.hdr, none) := by
  have hkeys : ∀ o ∈ v.root.objs, ∀ table, o.table = some table →
      (Directory.keys table).Nodup :=
    fun o ho table htable => (((h.objs o ho).table table htable).2).keys
  rcases List.mem_cons.mp ho with rfl | ho
  · cases hfile
  · obtain ⟨k, ks, hfind⟩ := Entries.place_of_mem hfile h.tidy
      (hkeys _ (.head _) _ rfl)
      (fun o ho => hkeys o (.tail _ ho)) ho
    exact ⟨k :: ks, hfind v.root.hdr⟩

section Update
variable (h : v.On d) (hp : v.root.get p = some G)
  (hu : Update d d' v G es gone new)
include h hp hu

theorem Update.content (hfind : v.root.find q = some (hdr, none)) :
    hdr.content d' = hdr.content d := by
  have ho := Folder.find_mem hfind
  refine HdrTree.content_congr fun s hs => ?_
  have hs' : s ∈ Obj.sectors ⟨hdr, none⟩ := HdrTree.mem_sectors.mpr (.inr hs)
  refine hu.frame s (h.obj_marked ho hs') (fun hG => ?_) fun hm => ?_
  · have heq :=
      h.obj_eq ho (Folder.get_mem hp) hs' (HdrTree.mem_sectors.mpr (.inr hG))
    cases congrArg Obj.table heq
  · exact h.map_disjoint ho (HdrTree.mem_sectors.mpr (.inr hm)) hs'

theorem Update.node (found : Option (HdrTree × Option Entries))
    (hfound : v.root.find q = found) :
    found.map (Folder.node d') = found.map (Folder.node d) := by
  obtain - | ⟨hdr, sub⟩ := found
  · rfl
  · cases sub with
    | some sub => rfl
    | none => exact congrArg (some ∘ Node.file) (hu.content h hp hfound)

theorem Update.names_outside (hq : ¬ p <+: q) :
    (v.set p es).names d' q = v.names d q :=
  (Folder.find_set_outside d' hp hq).trans (hu.node h hp _ rfl)

/-- In the directory only the keys whose entries changed show a difference. -/
theorem Update.names_same {r : List Key}
    (hr : Folder.find r ⟨G.hdr, es⟩ = G.find r) :
    (v.set p es).names d' (p ++ r) = v.names d (p ++ r) := by
  rw [names_set_below hp, hr, ← Folder.find_append hp]
  exact hu.node h hp _ rfl

/-- Nothing changes outside the place `p ++ [k]`, if only the entry of `k`
changes. -/
theorem Update.outside (hk : ∀ j, j ≠ k → es.lookup j = G.entries.lookup j) :
    Names.Outside (p ++ [k]) (v.names d) ((v.set p es).names d') := by
  intro q hq
  by_cases hpq : p <+: q
  · obtain ⟨r, rfl⟩ := hpq
    cases r with
    | nil =>
        rw [List.append_nil, names_dir hp, names_dir (Folder.get_set p es hp)]
    | cons j js =>
        have hj : j ≠ k := by
          rintro rfl
          exact hq ⟨js, by rw [List.append_assoc, List.singleton_append]⟩
        refine hu.names_same h hp ?_
        rw [Folder.find, Folder.find, hk j hj]
  · exact hu.names_outside h hp hpq

theorem Update.names_put {name : List Byte} {isDir : Bool} {t : HdrTree}
    {e : DirectoryEntry} (hes : es = G.entries.insert name t (newEntries isDir))
    (hnew : G.entries.lookup (DirectoryEntry.keyOf name isDir) = none)
    (hfree : G.entries.table.find? (!·.inUse) = some e) :
    (v.set p es).names d' =
      (v.names d).put (p ++ [DirectoryEntry.keyOf name isDir])
        (Folder.node d' (t, newEntries isDir)) := by
  subst hes
  have hkey : DirectoryEntry.keyOf name (newEntries isDir).isSome =
      DirectoryEntry.keyOf name isDir := by
    rw [newEntries_isSome]
  have hlook := Entries.lookup_insert name t (newEntries isDir)
    (Folder.tidy_get p h.tidy hp) hfree
    (hkey.symm ▸ hnew)
  rw [hkey] at hlook
  refine Names.eq_put (fun q hq => ?_) ?_
  · by_cases hpq : p ++ [DirectoryEntry.keyOf name isDir] <+: q
    · obtain ⟨r, rfl⟩ := hpq
      have hr : r ≠ [] := by
        rintro rfl
        exact hq (List.append_nil _)
      have hbefore : v.names d (p ++ [DirectoryEntry.keyOf name isDir] ++ r) =
          none :=
        congrArg _ (Folder.find_missing hp hnew r)
      rw [hbefore, List.append_assoc, names_set_below hp]
      exact congrArg _ (Folder.find_new hlook hr)
    · refine hu.outside h hp
        (fun j hj => Entries.lookup_insert_of_ne name t _ (hkey ▸ hj) _) q hpq
  · rw [names_set_below hp, Folder.find_one]
    exact congrArg _ hlook

theorem Update.names_cut (hes : es = G.entries.erase k) :
    (v.set p es).names d' = (v.names d).cut (p ++ [k]) := by
  subst hes
  have hget := Folder.get_set p (G.entries.erase k) hp
  have hgood := ((h.holds_get hp).table _ rfl).2
  have hnone := Entries.lookup_erase (Folder.tidy_get p h.tidy hp) hgood k
  refine Names.eq_cut
    (hu.outside h hp fun j hj => Entries.lookup_erase_of_ne hj) fun r => ?_
  exact congrArg _ (Folder.find_missing hget hnone r)

end Update

theorem On.next_rewrite (h : v.On d) {o : Obj} (ho : o ∈ v.root.objs)
    (hfile : o.table = none) (hframe : ∀ s, s ∉ o.hdr.leaves → d' s = d s) :
    Next d d' v v :=
  ⟨h.rewrite ho hfile hframe, rfl, rfl, fun _ ho _ => .inl ho⟩

theorem On.names_rewrite (h : v.On d) {o : Obj}
    (ho : o ∈ v.root.objs) (hframe : ∀ s, s ∉ o.hdr.leaves → d' s = d s)
    (hq : v.root.find q = some (o.hdr, none)) :
    v.names d' = (v.names d).put q (.file (o.hdr.content d')) := by
  refine Names.eq_put (fun q' hne => ?_) (names_file hq)
  refine Option.map_congr fun ⟨hdr, sub⟩ hfind => ?_
  cases sub with
  | some sub => rfl
  | none =>
      refine congrArg Node.file (HdrTree.content_congr fun s hs => hframe s
        fun hs' => hne ?_)
      have heq := h.obj_eq (Folder.find_mem hfind) ho
        (HdrTree.mem_sectors.mpr (.inr hs))
        (HdrTree.mem_sectors.mpr (.inr hs'))
      have hhdr : hdr = o.hdr := congrArg Obj.hdr heq
      exact Folder.place_unique h.objs_nodup (hhdr ▸ hfind) hq

end Volume

end EroikoBlue.MP4

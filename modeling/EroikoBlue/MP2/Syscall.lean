/-
# `MP2.Syscall` — the system calls that take a pointer

A program gives an address of its own; its loads and stores go through the page
table, where `Machine::Translate` and `AddrSpace::Translate` find the same byte.
The handlers of `Create`, `Open`, `Read` and `Write` use the address as an index
into `mainMemory` instead.

`SyscallsSee` says that an argument is what the process has there, and
`syscalls_see_iff` that this is so just when every page of the argument is in
the frame of its own number, as it is for the first program loaded.

## Two programs in memory

The second program loaded has other frames than the numbers of its pages, so the
handlers read what the first one has at the same address
(`second_program_unseen`).  For the first one they are right
(`syscalls_see_first`), which is how the defect can stay unnoticed.

The files are those of the host.  What the result says of them is only that the
bytes that were read or written are the ones the process has at the address, and
no others.
-/
import EroikoBlue.MP2.FrameTable

namespace EroikoBlue.MP2

open Bytes (Byte)

/-! ## `FileSystem`, on the files of the host -/

structure OpenFile where
  /-- The file of the host. -/
  file : List Byte
  currentOffset : Nat

structure FileSystem where
  /-- The contents of the files of the host, by name. -/
  files : List Byte → Option (List Byte)
  /-- The host lets a file of this name be made. -/
  mayCreate : List Byte → Bool
  openFileTable : Nat → Option OpenFile

namespace FileSystem

/-- `Create`: `OpenForWrite` truncates a file that is there. -/
def create (fs : FileSystem) (name : List Byte) :
    Except Fault (Int × FileSystem) := do
  assertMsg (fs.mayCreate name) ""
  pure (1, { fs with files := fun x => if x = name then some [] else fs.files x })

/-- `Open`. -/
def «open» (fs : FileSystem) (name : List Byte) : Option OpenFile :=
  (fs.files name).map fun _ => ⟨name, 0⟩

/-- `OpenAFile`. -/
def openAFile (fs : FileSystem) (name : List Byte) : Int × FileSystem :=
  match (List.range 20).find? fun id => (fs.openFileTable id).isNone with
  | none => (-1, fs)
  | some id => match fs.open name with
    | none => (-1, fs)
    | some fp => (id, { fs with openFileTable := fun x => if x = id then some fp else fs.openFileTable x })

/-- `OpenFileTable[id]`, after the check of `id`. -/
def opened (fs : FileSystem) (id : Int) : Option OpenFile :=
  if id < 0 ∨ 20 ≤ id then none else fs.openFileTable id.toNat

/-- The file has a new offset, and maybe new contents. -/
def seek (fs : FileSystem) (id : Int) (fp : OpenFile) (contents : List Byte)
    (n : Nat) : FileSystem :=
  { fs with
    files := fun x => if x = fp.file then some contents else fs.files x
    openFileTable := fun x => if x = id.toNat then some { fp with currentOffset := fp.currentOffset + n }
      else fs.openFileTable x }

def contents (fs : FileSystem) (fp : OpenFile) : List Byte :=
  (fs.files fp.file).getD []

/-- What a `write` of the host leaves in the file; a hole is filled with
zeros. -/
def overwrite (contents : List Byte) (offset : Nat) (bytes : List Byte) :
    List Byte :=
  contents.take offset ++ List.replicate (offset - contents.length) 0 ++
    bytes ++ contents.drop (offset + bytes.length)

/-- The return value of `ReadAFile` and `WriteAFile`: a count of 0 is a
failure. -/
def ret (n : Nat) : Int := if n = 0 then -1 else n

end FileSystem

/-! ## The handlers -/

/-- `n` bytes from `mainMemory + addr`. -/
def Memory.read (mem : Memory) (addr n : Nat) : Except Fault (List Byte) :=
  if MemorySize < addr + n then
    .error (.undefined "a read past the end of mainMemory")
  else pure ((List.range n).map fun k => mem (addr + k))

/-- The bytes from `mainMemory + addr` to the next zero. -/
def Memory.cString (mem : Memory) (addr : Nat) : Except Fault (List Byte) :=
  match (List.range (MemorySize - addr)).find? fun k => mem (addr + k) = 0 with
  | none => .error (.undefined "a string past the end of mainMemory")
  | some len => pure ((List.range len).map fun k => mem (addr + k))

structure System where
  mainMemory : Memory
  fileSystem : FileSystem

/-- `val` is register 4; `size` and `id` are registers 5 and 6. -/
inductive Syscall where
  | Create (val : Nat)
  | Open (val : Nat)
  | Read (val size : Nat) (id : Int)
  | Write (val size : Nat) (id : Int)

namespace System

/-- `ReadAFile(&mainMemory[val], size, id)`. -/
def readAFile (s : System) (val size : Nat) (id : Int) :
    Except Fault (Int × System) :=
  match s.fileSystem.opened id with
  | none => pure (-1, s)
  | some fp => do
    let contents := s.fileSystem.contents fp
    let bytes := (contents.drop fp.currentOffset).take size
    let mem ← s.mainMemory.write val bytes
    pure (FileSystem.ret bytes.length,
      ⟨mem, s.fileSystem.seek id fp contents bytes.length⟩)

/-- `WriteAFile(&mainMemory[val], size, id)`. -/
def writeAFile (s : System) (val size : Nat) (id : Int) :
    Except Fault (Int × System) :=
  match s.fileSystem.opened id with
  | none => pure (-1, s)
  | some fp => do
    let bytes ← s.mainMemory.read val size
    let contents :=
      FileSystem.overwrite (s.fileSystem.contents fp) fp.currentOffset bytes
    pure (FileSystem.ret size,
      ⟨s.mainMemory, s.fileSystem.seek id fp contents size⟩)

/-- `ExceptionHandler(SyscallException)`: what is written to register 2. -/
def call (s : System) : Syscall → Except Fault (Int × System)
  | .Create val => do
    let filename ← s.mainMemory.cString val
    let (status, fileSystem) ← s.fileSystem.create filename
    pure (status, ⟨s.mainMemory, fileSystem⟩)
  | .Open val => do
    let filename ← s.mainMemory.cString val
    let (status, fileSystem) := s.fileSystem.openAFile filename
    pure (status, ⟨s.mainMemory, fileSystem⟩)
  | .Read val size id => s.readAFile val size id
  | .Write val size id => s.writeAFile val size id

end System

/-! ## What the process has at an address -/

/-- `Machine::Translate` with a page table and no TLB. -/
def machineTranslate (pageTable : Option PageTable) (pageTableSize : Nat)
    (virtAddr size : Nat) (writing : Bool) :
    Except Fault (ExceptionType × Nat × Option PageTable) := do
  if size = 4 ∧ virtAddr % 4 ≠ 0 ∨ size = 2 ∧ virtAddr % 2 ≠ 0 then
    pure (.AddressErrorException, 0, pageTable)
  else match pageTable with
    | none => .error (.assertFailed "")
    | some ptb => do
      let vpn := virtAddr / PageSize
      let offset := virtAddr % PageSize
      if pageTableSize ≤ vpn then pure (.AddressErrorException, 0, pageTable)
      else do
        let entry ← ptb.entry vpn
        if ¬ entry.valid then pure (.PageFaultException, 0, pageTable)
        else if entry.readOnly ∧
          writing then pure (.ReadOnlyException, 0, pageTable)
        else if NumPhysPages ≤ entry.physicalPage then
          pure (.BusErrorException, 0, pageTable)
        else do
          let entry :=
            { entry with use := true, dirty := entry.dirty || writing }
          let physAddr := entry.physicalPage * PageSize + offset
          assertMsg (physAddr + size ≤ MemorySize) ""
          pure (.NoException, physAddr, some (ptb.set vpn entry))

/-- The address `Translate` gives, if it gives one. -/
def AddrSpace.physical (a : AddrSpace) (vaddr : Nat) : Option Nat :=
  match a.translate vaddr false with
  | .ok (.NoException, paddr, _) => some paddr
  | _ => none

/-- The process has these bytes at its address `p`. -/
def AddrSpace.Holds (a : AddrSpace) (mem : Memory) (p : Nat)
    (bytes : List Byte) : Prop :=
  ∀ k b, bytes[k]? = some b → ∃ paddr, a.physical (p + k) = some paddr ∧
    mem paddr = b

/-- The calls with the argument `p`, `n` see the memory of the `i`-th process,
and no other. -/
structure SyscallsSee (pool : Pool) (i : Nat) (a : AddrSpace)
    (p n : Nat) : Prop where
  create : ∀ (s : System) name, name.length + 1 = n → 0 ∉ name →
    a.Holds s.mainMemory p (name ++ [0]) →
    s.call (.Create p) = (s.fileSystem.create name).map fun r =>
      (r.1, ⟨s.mainMemory, r.2⟩)
  opens : ∀ (s : System) name, name.length + 1 = n → 0 ∉ name → a.Holds s.mainMemory p (name ++ [0]) →
    s.call (.Open p) = .ok ((s.fileSystem.openAFile name).1,
      ⟨s.mainMemory, (s.fileSystem.openAFile name).2⟩)
  read : ∀ (s : System) id fp, s.fileSystem.opened id = some fp →
    ∃ bytes s',
      bytes = ((s.fileSystem.contents fp).drop fp.currentOffset).take n ∧
      s.call (.Read p n id) = .ok (FileSystem.ret bytes.length, s') ∧
        a.Holds s'.mainMemory p bytes ∧
      ∀ x, (∀ k < n, a.physical (p + k) ≠ some x) →
        s'.mainMemory x = s.mainMemory x
  write : ∀ (s : System) id fp bytes, s.fileSystem.opened id = some fp →
    bytes.length = n →
    a.Holds s.mainMemory p bytes →
    s.call (.Write p n id) = .ok (FileSystem.ret n, ⟨s.mainMemory,
      s.fileSystem.seek id fp
      (FileSystem.overwrite (s.fileSystem.contents fp) fp.currentOffset bytes)
        n⟩)
  /-- No other process is written to. -/
  spares : ∀ j b, pool.live[j]? = some b → j ≠ i → ∀ (s s' : System) id status,
    s.call (.Read p n id) = .ok (status, s') → ∀ x, x / PageSize ∈ b.frames →
      s'.mainMemory x = s.mainMemory x
  /-- No other process is read from: the file gets the same whatever they have
  in memory. -/
  ignores : ∀ j b, pool.live[j]? = some b → j ≠ i →
    ∀ (s : System) (mem : Memory) id,
    (∀ x, x / PageSize ∉ b.frames → mem x = s.mainMemory x) →
    (System.call ⟨mem, s.fileSystem⟩ (.Write p n id)).map
      (fun r => (r.1, r.2.fileSystem)) =
      (s.call (.Write p n id)).map fun r => (r.1, r.2.fileSystem)

/-! ## Memory -/

section
variable {mem mem' : Memory} {p n : Nat} {bytes name : List Byte}

theorem Memory.read_ok (h : p + n ≤ MemorySize) :
    mem.read p n = .ok ((List.range n).map fun k => mem (p + k)) :=
  if_neg (Nat.not_lt.mpr h)

theorem Memory.read_eq (h : p + n ≤ MemorySize) (hlen : bytes.length = n)
    (hmem : ∀ k b, bytes[k]? = some b → mem (p + k) = b) :
    mem.read p n = .ok bytes := by
  rw [read_ok h]
  refine congrArg Except.ok
    (List.ext_getElem (by rw [List.length_map, List.length_range, hlen]) ?_)
  intro k _ hk
  rw [List.getElem_map, List.getElem_range]
  exact hmem k _ (List.getElem?_eq_getElem hk)

theorem Memory.cString_eq (h : p + (name.length + 1) ≤ MemorySize)
    (hname : 0 ∉ name)
    (hmem : ∀ k b, (name ++ [0])[k]? = some b → mem (p + k) = b) :
    mem.cString p = .ok name := by
  have hfind : (List.range (MemorySize - p)).find? (fun k => mem (p + k) = 0) =
      some name.length := by
    rw [List.find?_range_eq_some]
    refine ⟨?_, List.mem_range.mpr (by omega), ?_⟩
    · rw [decide_eq_true_eq]
      exact hmem _ _ List.getElem?_concat_length
    · intro k hk
      rw [Bool.not_eq_true', decide_eq_false_iff_not, hmem k name[k] (by
        rw [List.getElem?_append_left hk, List.getElem?_eq_getElem hk])]
      exact fun hzero => hname (hzero ▸ List.getElem_mem hk)
  rw [cString, hfind]
  refine congrArg Except.ok
    (List.ext_getElem (by rw [List.length_map, List.length_range]) ?_)
  intro k _ hk
  rw [List.getElem_map, List.getElem_range]
  exact hmem k
    _ (by rw [List.getElem?_append_left hk, List.getElem?_eq_getElem hk])

theorem Memory.write_ok (h : p + bytes.length ≤ MemorySize) :
    ∃ mem', mem.write p bytes = .ok mem' ∧
    (∀ k b, bytes[k]? = some b → mem' (p + k) = b) ∧
      ∀ x, (∀ k < bytes.length, x ≠ p + k) → mem' x = mem x := by
  refine ⟨_, if_neg (Nat.not_lt.mpr h), ?_, ?_⟩
  · intro k b hk
    rw [if_pos (Nat.le_add_right p k), Nat.add_sub_cancel_left, hk]
    rfl
  · intro x hx
    split
    · next hle =>
        have hout : bytes.length ≤ x - p := by
          by_contra hlt
          exact hx (x - p) (Nat.lt_of_not_le hlt) (Nat.add_sub_cancel' hle).symm
        rw [List.getElem?_eq_none hout]
        rfl
    · rfl

end

/-! ## Addresses -/

section
variable {a : AddrSpace} {p n vaddr : Nat}

theorem AddrSpace.physical_eq (ha : a.Mapped)
    (h : vaddr < a.numPages * PageSize) :
    ∃ f, a.frames[vaddr / PageSize]? = some f ∧
      a.physical vaddr = some (f * PageSize + vaddr % PageSize) := by
  obtain ⟨f, a', hf, _, _, hrun | ⟨hrw, _⟩⟩ := translate_in false ha h
  · refine ⟨f, hf, ?_⟩
    rw [physical, hrun]
  · cases hrw

/-- The process finds a byte where the handlers do, if its page is in the frame
of its own number. -/
theorem AddrSpace.physical_self (ha : a.Mapped)
    (h : vaddr < a.numPages * PageSize) :
    a.physical vaddr = some vaddr ↔
      a.frames[vaddr / PageSize]? = some (vaddr / PageSize) := by
  obtain ⟨f, hf, hphys⟩ := physical_eq ha h
  rw [hf, hphys, Option.some.injEq, Option.some.injEq]
  constructor
  · intro heq
    rw [← heq, Pool.paddr_div]
  · rintro rfl
    exact Nat.div_add_mod' vaddr PageSize

end

/-! ## What the handlers see -/

section
variable {pool : Pool} {i p n : Nat} {a : AddrSpace}

/-- A file is open, empty, and the only one. -/
def oneFile : FileSystem where
  files := fun name => if name = [] then some [] else none
  mayCreate := fun _ => true
  openFileTable := fun id => if id = 0 then some ⟨[], 0⟩ else none

theorem overwrite_nil (bytes : List Byte) :
    FileSystem.overwrite [] 0 bytes = bytes := by
  rw [FileSystem.overwrite, List.drop_nil, List.append_nil]
  rfl

/-- A `Write` that is right on memory with a single 1 in it finds that byte
where the process has it. -/
theorem SyscallsSee.direct (h : SyscallsSee pool i a p n)
    (hrange : p + n ≤ MemorySize)
    (hphys : ∀ k < n, ∃ paddr, a.physical (p + k) = some paddr) {k : Nat}
    (hk : k < n) :
    a.physical (p + k) = some (p + k) := by
  obtain ⟨paddr, hpaddr⟩ := hphys k hk
  let mem : Memory := fun x => if x = p + k then 1 else 0
  let bytes : List Byte := (List.range n).map fun k =>
    mem ((a.physical (p + k)).getD 0)
  have hlen : bytes.length = n := (List.length_map ..).trans List.length_range
  have hholds : a.Holds mem p bytes := by
    intro j b hb
    obtain ⟨hj, rfl⟩ := List.getElem?_eq_some_iff.mp hb
    obtain ⟨q, hq⟩ := hphys j (hj.trans_eq hlen)
    refine ⟨q, hq, ?_⟩
    rw [List.getElem_map, List.getElem_range, hq]
    rfl
  have hwrite := h.write ⟨mem, oneFile⟩ 0 ⟨[], 0⟩ bytes rfl hlen hholds
  have hcode : System.call ⟨mem, oneFile⟩ (.Write p n 0) =
      .ok (FileSystem.ret n, ⟨mem, oneFile.seek 0 ⟨[], 0⟩
      (FileSystem.overwrite [] 0 ((List.range n).map fun k => mem (p + k)))
          n⟩) := by
    rw [System.call, System.writeAFile,
      show oneFile.opened 0 = some ⟨[], 0⟩ from rfl]
    dsimp only
    rw [Memory.read_ok hrange]
    rfl
  have hfiles : some (FileSystem.overwrite [] 0
      ((List.range n).map fun k => mem (p + k))) =
      some (FileSystem.overwrite [] 0 bytes) :=
    congrArg (fun r : Int × System => r.2.fileSystem.files [])
      (Except.ok.inj (hcode.symm.trans hwrite))
  rw [Option.some.injEq, overwrite_nil, overwrite_nil] at hfiles
  have hbyte : mem (p + k) = mem paddr := by
    have hget := congrArg (·[k]?) hfiles
    rw [List.getElem?_map, List.getElem?_map, List.getElem?_range hk,
      Option.map_some, Option.map_some, hpaddr] at hget
    exact Option.some.inj hget
  have heq : paddr = p + k := by
    by_contra hne
    have hone : mem (p + k) = 1 := if_pos rfl
    have hzero : mem paddr = 0 := if_neg hne
    cases hone.symm.trans (hbyte.trans hzero)
  rw [hpaddr, heq]

theorem AddrSpace.Holds.direct {mem : Memory} {bytes : List Byte}
    (h : a.Holds mem p bytes)
    (hdirect : ∀ k < n, a.physical (p + k) = some (p + k))
    (hlen : bytes.length ≤ n) :
    ∀ k b, bytes[k]? = some b → mem (p + k) = b := by
  intro k b hk
  obtain ⟨paddr, hpaddr, hmem⟩ := h k b hk
  obtain ⟨hlt, _⟩ := List.getElem?_eq_some_iff.mp hk
  cases (hdirect k (hlt.trans_le hlen)).symm.trans hpaddr
  exact hmem

theorem System.readAFile_ok {s : System}
    {id : Int} {fp : OpenFile} (hid : s.fileSystem.opened id = some fp)
    (hrange : p + n ≤ MemorySize) : ∃ bytes s',
      bytes = ((s.fileSystem.contents fp).drop fp.currentOffset).take n ∧
      bytes.length ≤ n ∧
      s.call (.Read p n id) = .ok (FileSystem.ret bytes.length, s') ∧
      (∀ k b, bytes[k]? = some b → s'.mainMemory (p + k) = b) ∧
      ∀ x, (∀ k < n, x ≠ p + k) → s'.mainMemory x = s.mainMemory x := by
  obtain ⟨bytes, hbytes⟩ : ∃ bytes, bytes =
    ((s.fileSystem.contents fp).drop fp.currentOffset).take n := ⟨_, rfl⟩
  have hlen : bytes.length ≤ n := hbytes ▸ List.length_take_le ..
  obtain ⟨mem, hwrite, hin, hout⟩ := @Memory.write_ok s.mainMemory p
    _ ((Nat.add_le_add_left hlen p).trans hrange)
  refine ⟨bytes, ⟨mem, s.fileSystem.seek id fp (s.fileSystem.contents fp)
    bytes.length⟩, hbytes, hlen, ?_, hin,
    fun x hx => hout x fun k hk => hx k (hk.trans_le hlen)⟩
  rw [call, readAFile, hid]
  dsimp only
  rw [← hbytes, hwrite]
  rfl

theorem System.writeAFile_ok {s : System} {id : Int}
    {fp : OpenFile} {bytes : List Byte} (hid : s.fileSystem.opened id = some fp)
    (hread : s.mainMemory.read p n = .ok bytes) :
    s.call (.Write p n id) = .ok (FileSystem.ret n,
      ⟨s.mainMemory, s.fileSystem.seek id fp
      (FileSystem.overwrite (s.fileSystem.contents fp) fp.currentOffset bytes)
        n⟩) := by
  rw [call, writeAFile, hid]
  dsimp only
  rw [hread]
  rfl

theorem syscallsSee_of_direct (hpool : pool.Whole)
    (ha : pool.live[i]? = some a) (hrange : p + n ≤ MemorySize)
    (hdirect : ∀ k < n, a.physical (p + k) = some (p + k))
    (hown : ∀ k < n, (p + k) / PageSize ∈ a.frames) :
    SyscallsSee pool i a p n := by
  have hother : ∀ {j b x}, pool.live[j]? = some b → j ≠ i →
      x / PageSize ∈ b.frames → ∀ k < n, x ≠ p + k := by
    rintro j b x hb hji hx k hk rfl
    exact hpool.frames.disjoint hb ha hji hx (hown k hk)
  have hstring : ∀ (s : System) (name : List Byte), name.length + 1 = n →
      0 ∉ name →
      a.Holds s.mainMemory p (name ++ [0]) →
          s.mainMemory.cString p = .ok name := by
    intro s name hlen hname hholds
    have hlen' : (name ++ [0]).length ≤ n := (List.length_append.trans hlen).le
    exact Memory.cString_eq (by rw [hlen]; exact hrange) hname
      (hholds.direct hdirect hlen')
  constructor
  case create =>
    intro s name hlen hname hholds
    rw [System.call, hstring s name hlen hname hholds, Outcome.ok_bind]
    cases s.fileSystem.create name with
    | ok r => rfl
    | error e => rfl
  case opens =>
    intro s name hlen hname hholds
    rw [System.call, hstring s name hlen hname hholds]
    rfl
  case read =>
    intro s id fp hid
    obtain ⟨bytes, s', hbytes, hlen, hcall, hin, hout⟩ :=
      System.readAFile_ok hid hrange
    refine ⟨bytes, s', hbytes, hcall, ?_, ?_⟩
    · intro k b hk
      obtain ⟨hlt, _⟩ := List.getElem?_eq_some_iff.mp hk
      exact ⟨p + k, hdirect k (hlt.trans_le hlen), hin k b hk⟩
    · exact fun x hx => hout x fun k hk heq => hx k hk (heq ▸ hdirect k hk)
  case write =>
    intro s id fp bytes hid hlen hholds
    exact System.writeAFile_ok hid
      (Memory.read_eq hrange hlen (hholds.direct hdirect hlen.le))
  case spares =>
    intro j b hb hji s s' id status hcall x hx
    cases hid : s.fileSystem.opened id with
    | none =>
        rw [System.call, System.readAFile, hid] at hcall
        cases hcall
        rfl
    | some fp =>
        obtain ⟨_, _, _, _, hcall', _, hout⟩ := System.readAFile_ok hid hrange
        cases hcall'.symm.trans hcall
        exact hout x (hother hb hji hx)
  case ignores =>
    intro j b hb hji s mem id hmem
    cases hid : s.fileSystem.opened id with
    | none =>
        rw [System.call, System.call, System.writeAFile, System.writeAFile, hid]
        rfl
    | some fp =>
        have hsame : mem.read p n = s.mainMemory.read p n := by
          rw [Memory.read_ok hrange, Memory.read_ok hrange]
          refine congrArg Except.ok
            (List.map_congr_left fun k hk => hmem _ fun hx => ?_)
          exact hother hb hji hx k (List.mem_range.mp hk) rfl
        rw [System.writeAFile_ok hid (Memory.read_ok hrange),
          System.writeAFile_ok (s := ⟨mem, s.fileSystem⟩) hid
            (hsame.trans (Memory.read_ok hrange))]
        rfl

end

theorem syscalls_see_iff {mem : Memory}
    {calls : List Call} {pool : Pool} (hrun : Pool.run mem calls = .ok pool)
    {i : Nat} {a : AddrSpace} (ha : pool.live[i]? = some a) {p n : Nat}
    (hrange : p + n ≤ a.numPages * PageSize) :
    SyscallsSee pool i a p n ↔
      ∀ k < n, a.frames[(p + k) / PageSize]? = some ((p + k) / PageSize) := by
  obtain ⟨_, hrun', hpool⟩ := Pool.run_whole mem calls
  cases hrun'.symm.trans hrun
  have hmapped := hpool.mapped (List.mem_of_getElem? ha)
  obtain ⟨ptb, hptb, hlen⟩ := hmapped.table
  have hpages : a.numPages ≤ NumPhysPages := by
    have hle := hpool.frames.length_le ha
    rw [AddrSpace.frames, hptb, List.length_map, Option.getD_some, hlen] at hle
    exact hle
  have hmem : p + n ≤ MemorySize := hrange.trans (Nat.mul_le_mul_right _ hpages)
  have hin : ∀ k < n, p + k < a.numPages * PageSize :=
    fun k hk => (Nat.add_lt_add_left hk p).trans_le hrange
  constructor
  · intro h k hk
    refine (AddrSpace.physical_self hmapped (hin k hk)).mp (h.direct hmem ?_ hk)
    intro k hk
    obtain ⟨f, _, hphys⟩ := AddrSpace.physical_eq hmapped (hin k hk)
    exact ⟨_, hphys⟩
  · intro h
    refine syscallsSee_of_direct hpool ha hmem (fun k hk => ?_) fun k hk =>
      List.mem_of_getElem? (h k hk)
    exact (AddrSpace.physical_self hmapped (hin k hk)).mpr (h k hk)

/-- Two programs of eight pages are loaded.  The second one's address 0 is in
frame 8. -/
theorem second_program_unseen : ∃ pool a, Pool.run (fun _ => 0) [.allocate 8,
      .allocate 8] = .ok pool ∧
    pool.live[1]? = some a ∧ 0 + 1 ≤ a.numPages * PageSize ∧
      a.physical 0 = some 1024 ∧
    ¬ SyscallsSee pool 1 a 0 1 := by
  obtain ⟨pool, hrun, _⟩ :=
    Pool.run_whole (fun _ => 0) [.allocate 8, .allocate 8]
  obtain ⟨a, ha, hphys⟩ := Option.map_eq_some_iff.mp (show (pool.live[1]?).map
      (fun a => (a.physical 0, a.numPages)) =
      some (some 1024, 8) by
    have heval : (Pool.run (fun _ => 0) [.allocate 8, .allocate 8]).toOption.map
        (fun pool => (pool.live[1]?).map fun a => (a.physical 0, a.numPages)) =
            some (some (some 1024, 8)) := by
      decide +kernel
    rw [hrun] at heval
    exact Option.some.inj heval)
  rw [Prod.mk.injEq] at hphys
  refine ⟨pool, a, hrun, ha, by rw [hphys.2]; decide, hphys.1, ?_⟩
  intro hsee
  have hsome : ∀ k < 1, ∃ paddr, a.physical (0 + k) = some paddr := by
    intro k hk
    obtain rfl := Nat.lt_one_iff.mp hk
    exact ⟨1024, hphys.1⟩
  cases hphys.1.symm.trans (hsee.direct (by decide) hsome Nat.one_pos)

/-- The first program is where the handlers look. -/
theorem syscalls_see_first : ∃ pool a,
    Pool.run (fun _ => 0) [.allocate 8] = .ok pool ∧ pool.live[0]? = some a ∧
    a.frames = [0, 1, 2, 3, 4, 5, 6, 7] ∧
    (SyscallsSee pool 0 a 0 1024 ↔
      ∀ k < 1024, a.frames[(0 + k) / PageSize]? =
          some ((0 + k) / PageSize)) := by
  obtain ⟨pool, hrun, _⟩ := Pool.run_whole (fun _ => 0) [.allocate 8]
  obtain ⟨a, ha, hframes⟩ := Option.map_eq_some_iff.mp (show (pool.live[0]?).map
      (fun a => (a.frames, a.numPages)) =
      some ([0, 1, 2, 3, 4, 5, 6, 7], 8) by
    have heval : (Pool.run (fun _ => 0) [.allocate 8]).toOption.map
        (fun pool => (pool.live[0]?).map fun a => (a.frames, a.numPages)) =
          some (some ([0, 1, 2, 3, 4, 5, 6, 7], 8)) := by
      decide +kernel
    rw [hrun] at heval
    exact Option.some.inj heval)
  rw [Prod.mk.injEq] at hframes
  exact ⟨pool, a, hrun, ha, hframes.1,
    syscalls_see_iff hrun ha (by rw [hframes.2]; decide)⟩

end EroikoBlue.MP2

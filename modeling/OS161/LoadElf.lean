import OS161.AddrSpace

/-!
# `syscall/loadelf.c`

`load_elf` reads the ELF header of an executable, checks that it is a 32-bit MIPS
executable, and goes through the program headers : a loadable one becomes a region of the
address space, some kinds are skipped, any other kind ends the load with `ENOEXEC`. The
pages themselves are read later, on demand (`load_page`).

`loadProgram` is the part of `runprogram` that sets an address space up : `load_elf`,
then `as_define_stack` and `as_define_pt`. `scanHeaders` reads the program headers
without defining regions, and `loadElfLoop_eq` says that the loop defines the regions of
the loadable headers it meets, one after the other.
-/

namespace OS161

variable {σ : Type}

/-! ## Files -/

/-- A file as `VOP_READ` sees it : its bytes, and the reads that fail with an error. -/
structure Vnode where
  contents : List UInt8
  ioError : ℕ → ℕ → Option Errno

namespace Vnode

/-- A byte of the file. -/
def byte (v : Vnode) (i : ℕ) : UInt8 :=
  v.contents.getD i 0

/-- The big-endian 16-bit number at offset `i`. -/
def be16 (v : Vnode) (i : ℕ) : ℕ :=
  (v.byte i).toNat * 2 ^ 8 + (v.byte (i + 1)).toNat

/-- The big-endian 32-bit number at offset `i`. -/
def be32 (v : Vnode) (i : ℕ) : ℕ :=
  v.be16 i * 2 ^ 16 + v.be16 (i + 2)

theorem be16_lt (v : Vnode) (i : ℕ) : v.be16 i < 2 ^ 16 := by
  have h1 := (v.byte i).toNat_lt
  have h2 := (v.byte (i + 1)).toNat_lt
  unfold be16
  omega

theorem be32_lt (v : Vnode) (i : ℕ) : v.be32 i < 2 ^ 32 := by
  have h1 := v.be16_lt i
  have h2 := v.be16_lt (i + 2)
  unfold be32
  omega

end Vnode

/-- `VOP_READ` of `len` bytes at `offset` : an error, or the number of bytes moved. -/
def vopRead (v : Vnode) (offset len : ℕ) : Except Errno ℕ :=
  match v.ioError offset len with
  | some e => .error e
  | none => .ok (min len (v.contents.length - offset))

/-! ## Headers -/

/-- The fields of `Elf32_Ehdr` that the loader reads. -/
structure ElfEhdr where
  eIdent : ℕ → UInt8
  eType : ℕ
  eMachine : ℕ
  eVersion : ℕ
  eEntry : ℕ
  ePhoff : ℕ
  ePhentsize : ℕ
  ePhnum : ℕ

/-- The fields of `Elf32_Phdr` that the loader reads. -/
structure ElfPhdr where
  pType : ℕ
  pOffset : ℕ
  pVaddr : ℕ
  pFilesz : ℕ
  pMemsz : ℕ
  deriving DecidableEq, Repr

/-- `sizeof(Elf_Ehdr)`. -/
def sizeofEhdr : ℕ :=
  52

/-- `sizeof(Elf_Phdr)`. -/
def sizeofPhdr : ℕ :=
  32

namespace Vnode

/-- The header at the start of the file. -/
def ehdr (v : Vnode) : ElfEhdr where
  eIdent := v.byte
  eType := v.be16 16
  eMachine := v.be16 18
  eVersion := v.be32 20
  eEntry := v.be32 24
  ePhoff := v.be32 28
  ePhentsize := v.be16 42
  ePhnum := v.be16 44

/-- The program header at offset `i`. -/
def phdr (v : Vnode) (i : ℕ) : ElfPhdr where
  pType := v.be32 i
  pOffset := v.be32 (i + 4)
  pVaddr := v.be32 (i + 8)
  pFilesz := v.be32 (i + 16)
  pMemsz := v.be32 (i + 20)

end Vnode

/-- The test for a 32-bit big-endian version-1 executable for MIPS. -/
def ElfEhdr.Executable (eh : ElfEhdr) : Prop :=
  eh.eIdent 0 = 0x7f ∧ eh.eIdent 1 = 0x45 ∧ eh.eIdent 2 = 0x4c ∧ eh.eIdent 3 = 0x46 ∧
    eh.eIdent 4 = 1 ∧ eh.eIdent 5 = 2 ∧ eh.eIdent 6 = 1 ∧
    eh.eVersion = 1 ∧ eh.eType = 2 ∧ eh.eMachine = 8

instance (eh : ElfEhdr) : Decidable eh.Executable :=
  inferInstanceAs (Decidable (_ ∧ _))

/-- What the loop does with a program header of a given type. -/
inductive PhdrKind
  | skip
  | load
  | unknown
  deriving DecidableEq, Repr

/-- `PT_NULL`, `PT_PHDR` and `PT_MIPS_REGINFO` are skipped, `PT_LOAD` is loaded. -/
def ElfPhdr.kind (ph : ElfPhdr) : PhdrKind :=
  if ph.pType = 0 ∨ ph.pType = 6 ∨ ph.pType = 0x70000000 then .skip
  else if ph.pType = 1 then .load
  else .unknown

/-- Read and check the ELF header. -/
def readEhdr (v : Vnode) : Except Errno ElfEhdr := do
  let moved ← vopRead v 0 sizeofEhdr
  if moved ≠ sizeofEhdr then .error .ENOEXEC
  else if v.ehdr.Executable then .ok v.ehdr
  else .error .ENOEXEC

/-- Read the `i`-th program header, at `e_phoff + i*e_phentsize` in 32 bits. -/
def readPhdr (v : Vnode) (eh : ElfEhdr) (i : ℕ) : Except Errno ElfPhdr := do
  let offset := word32 (eh.ePhoff + i * eh.ePhentsize)
  let moved ← vopRead v offset sizeofPhdr
  if moved ≠ sizeofPhdr then .error .ENOEXEC
  else .ok (v.phdr offset)

/-! ## Loading -/

/-- The loop of `load_elf` over the last `n` headers, from header `i` on : the error it
returns, if any, and the address space it leaves. -/
def loadElfLoop (kmalloc : Kmalloc σ) (v : Vnode) (eh : ElfEhdr) :
    ℕ → ℕ → AddrSpace → σ → Except Halt (Option Errno × AddrSpace × σ)
  | 0, _, as, heap => .ok (none, as, heap)
  | n + 1, i, as, heap =>
    match readPhdr v eh i with
    | .error e => .ok (some e, as, heap)
    | .ok ph =>
      match ph.kind with
      | .skip => loadElfLoop kmalloc v eh n (i + 1) as heap
      | .unknown => .ok (some .ENOEXEC, as, heap)
      | .load => do
        let (as, heap) ← asDefineRegion kmalloc heap as ph.pVaddr ph.pMemsz ph.pOffset ph.pFilesz
        loadElfLoop kmalloc v eh n (i + 1) as heap

/-- `load_elf` into the address space `as` : the entry point or an error. -/
def loadElf (kmalloc : Kmalloc σ) (v : Vnode) (as : AddrSpace) (heap : σ) :
    Except Halt (Except Errno ℕ × AddrSpace × σ) :=
  match readEhdr v with
  | .error e => .ok (.error e, as, heap)
  | .ok eh => do
    let (err, as, heap) ← loadElfLoop kmalloc v eh eh.ePhnum 0 as heap
    match err with
    | some e => .ok (.error e, as, heap)
    | none => .ok (.ok eh.eEntry, as, heap)

/-- The set-up of an address space in `runprogram` : `load_elf` into a new address space,
and when it returns `0`, `as_define_stack` and `as_define_pt`. The result is the entry
point and the stack pointer, or an error. -/
def loadProgram (kmalloc : Kmalloc σ) (v : Vnode) (heap : σ) :
    Except Halt (Except Errno (ℕ × ℕ) × AddrSpace × σ) := do
  let (result, as, heap) ← loadElf kmalloc v asCreate heap
  match result with
  | .error e => .ok (.error e, as, heap)
  | .ok entrypoint => do
    let (as, stackptr, heap) ← asDefineStack kmalloc heap as
    let (as, heap) ← asDefinePt kmalloc heap as
    .ok (.ok (entrypoint, stackptr), as, heap)

/-! ## Writing headers -/

/-- The bytes of a 32-bit number, most significant first. -/
def be32Bytes (n : ℕ) : List UInt8 :=
  [n / 2 ^ 24, n / 2 ^ 16, n / 2 ^ 8, n].map UInt8.ofNat

/-- A program header as it is in the file. -/
def ElfPhdr.bytes (ph : ElfPhdr) : List UInt8 :=
  be32Bytes ph.pType ++ be32Bytes ph.pOffset ++ be32Bytes ph.pVaddr ++ be32Bytes 0 ++
    be32Bytes ph.pFilesz ++ be32Bytes ph.pMemsz ++ be32Bytes 0 ++ be32Bytes 0

/-- A MIPS executable with fewer than 256 program headers, followed by `rest`, on a disk
without errors. -/
def elfFile (entry : ℕ) (phs : List ElfPhdr) (rest : List UInt8) : Vnode where
  contents :=
    [0x7f, 0x45, 0x4c, 0x46, 1, 2, 1, 0, 0, 0, 0, 0, 0, 0, 0, 0, 0, 2, 0, 8] ++ be32Bytes 1 ++
      be32Bytes entry ++ be32Bytes sizeofEhdr ++ be32Bytes 0 ++ be32Bytes 0 ++
      [0, UInt8.ofNat sizeofEhdr, 0, UInt8.ofNat sizeofPhdr, 0, UInt8.ofNat phs.length,
        0, 0, 0, 0, 0, 0] ++
      phs.flatMap ElfPhdr.bytes ++ rest
  ioError _ _ := none

/-! ## The headers on their own -/

/-- The loadable headers among the last `n`, from header `i` on, up to the header at
which the loop returns an error, and that error. -/
def scanHeaders (v : Vnode) (eh : ElfEhdr) : ℕ → ℕ → List ElfPhdr × Option Errno
  | 0, _ => ([], none)
  | n + 1, i =>
    match readPhdr v eh i with
    | .error e => ([], some e)
    | .ok ph =>
      match ph.kind with
      | .skip => scanHeaders v eh n (i + 1)
      | .unknown => ([], some .ENOEXEC)
      | .load => (ph :: (scanHeaders v eh n (i + 1)).1, (scanHeaders v eh n (i + 1)).2)

/-- Define a region for each header. -/
def defineRegions (kmalloc : Kmalloc σ) : List ElfPhdr → AddrSpace → σ →
    Except Halt (AddrSpace × σ)
  | [], as, heap => .ok (as, heap)
  | ph :: phs, as, heap => do
    let (as, heap) ← asDefineRegion kmalloc heap as ph.pVaddr ph.pMemsz ph.pOffset ph.pFilesz
    defineRegions kmalloc phs as heap

/-- The loop defines the regions of the headers it meets. -/
theorem loadElfLoop_eq (kmalloc : Kmalloc σ) (v : Vnode) (eh : ElfEhdr) :
    ∀ (n i : ℕ) (as : AddrSpace) (heap : σ), loadElfLoop kmalloc v eh n i as heap = do
      let (as, heap) ← defineRegions kmalloc (scanHeaders v eh n i).1 as heap
      .ok ((scanHeaders v eh n i).2, as, heap)
  | 0, _, _, _ => rfl
  | n + 1, i, as, heap => by
    rw [loadElfLoop, scanHeaders]
    cases readPhdr v eh i with
    | error e => rfl
    | ok ph =>
      dsimp only
      cases ph.kind with
      | skip => exact loadElfLoop_eq kmalloc v eh n (i + 1) as heap
      | unknown => rfl
      | load =>
        dsimp only [defineRegions]
        cases asDefineRegion kmalloc heap as ph.pVaddr ph.pMemsz ph.pOffset ph.pFilesz with
        | error e => rfl
        | ok r => exact loadElfLoop_eq kmalloc v eh n (i + 1) r.1 r.2

/-- Every header of a scan was read from the file, so that its fields are 32-bit numbers. -/
theorem scanHeaders_phdr (v : Vnode) (eh : ElfEhdr) :
    ∀ (n i : ℕ), ∀ ph ∈ (scanHeaders v eh n i).1, ∃ offset, ph = v.phdr offset
  | 0, _, ph, h => by simp [scanHeaders] at h
  | n + 1, i, ph, h => by
    rw [scanHeaders] at h
    cases hr : readPhdr v eh i with
    | error e => simp [hr] at h
    | ok ph' =>
      rw [hr] at h
      dsimp only at h
      cases hk : ph'.kind with
      | skip =>
        rw [hk] at h
        exact scanHeaders_phdr v eh n (i + 1) ph h
      | unknown => simp [hk] at h
      | load =>
        rw [hk] at h
        rcases List.mem_cons.mp h with rfl | h
        · simp only [readPhdr, bind_eq_ok] at hr
          obtain ⟨m, -, hr⟩ := hr
          split_ifs at hr with hm
          exact ⟨_, (Except.ok.inj hr).symm⟩
        · exact scanHeaders_phdr v eh n (i + 1) ph h

end OS161

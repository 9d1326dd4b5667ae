import OS161.LoadSafety

/-!
# Setting a process up and destroying it

`common_prog` creates a process and forks a thread for it; the thread runs `runprogram`,
which opens the file, creates the address space, loads the headers of the executable and
defines the stack and the page table. `setup` is this sequence with every way it can end. A
process has been given a piece of kernel memory or a reference for each `Block` it holds; a
field of `struct proc` that nothing has written is `Field.uninit`.

`procDestroy` gives the blocks back one by one. It fails (`Misuse`) if it reads a field that was
not written, follows a `NULL` pointer, or gives back what is not held. It closes `p_vnode`
whatever the set-up came to, so that it works exactly if the set-up came to its end
(`procDestroy_safe_iff`).
-/

namespace OS161

/-! ## State -/

/-- A field of a structure from `kmalloc`, which does not clear it. -/
inductive Field (α : Type)
  | uninit
  | set (a : α)

/-- What a process is given : the memory of `struct proc` and its name, the three parts of a
semaphore, the references to the directory and to the executable, and the parts of an address
space. -/
inductive Block
  | proc
  | name
  | sem
  | semName
  | wchan
  | cwd
  | vnode
  | addrspace
  | segment (ty : SegType)
  | ptable
  deriving DecidableEq, Repr

/-- What goes wrong : the machine stops, a field is read that was not written, or a block is
given back that is not held. -/
inductive Misuse
  | halt (why : Halt)
  | uninitialised
  | notHeld (b : Block)
  deriving DecidableEq, Repr

/-- Code that only stops the machine. -/
def halting {α : Type} : Except Halt α → Except Misuse α
  | .ok a => .ok a
  | .error why => .error (.halt why)

@[simp] theorem halting_ok {α : Type} (a : α) : halting (.ok a) = .ok a :=
  rfl

theorem halting_eq_ok {α : Type} {x : Except Halt α} {a : α} : halting x = .ok a ↔ x = .ok a := by
  cases x <;> simp [halting]

/-- `kfree` or `VOP_DECREF` of a block. -/
def release (b : Block) (held : List Block) : Except Misuse (List Block) :=
  if b ∈ held then .ok (held.erase b) else .error (.notHeld b)

/-- `struct proc`. Of the name, the lock, the directory and the semaphore it says only whether
they are there. -/
structure ProcStruct where
  pNumthreads : ℕ
  pAddrspace : Option AddrSpace
  pCwd : Bool
  pVnode : Field Vnode
  status : Field (BitVec 32)
  pSem : Bool

variable {σ : Type} {p : ProcStruct} {held held' : List Block} {err : Option Errno}

/-- What a start from the menu meets : whether the menu has a current directory, whether there is
memory for the semaphore, the thread and the address space, what `vfs_open` returns, and the
kernel heap for the rest. -/
structure Launch (σ : Type) where
  cwd : Bool
  semCreated : Bool
  forked : Bool
  opened : Except Errno Vnode
  asCreated : Bool
  kmalloc : Kmalloc σ
  heap : σ

/-! ## Set-up -/

/-- The blocks of the parts of an address space. -/
def AddrSpace.blocks (as : AddrSpace) : List Block :=
  (as.asText.toList.map fun _ => .segment .text) ++
    (as.asData.toList.map fun _ => .segment .data) ++
    (as.asStack.toList.map fun _ => .segment .stack) ++ as.asPtable.toList.map fun _ => .ptable

/-- `proc_create_runprogram`, with memory for the structure and its name. -/
def procCreateRunprogram (l : Launch σ) : ProcStruct × List Block :=
  (⟨0, none, l.cwd, .uninit, .uninit, l.semCreated⟩,
    [.proc, .name] ++ (if l.semCreated then [.sem, .semName, .wchan] else []) ++
      if l.cwd then [.cwd] else [])

/-- `runprogram` up to `enter_new_process` : the error it returns, if any. -/
def runprogram (l : Launch σ) (p : ProcStruct) (held : List Block) :
    Except Misuse (Option Errno × ProcStruct × List Block) :=
  match l.opened with
  | .error e => .ok (some e, p, held)
  | .ok v => do
    let held := .vnode :: held
    halting (kassert (p.pAddrspace = none) "proc_getas() == NULL")
    if l.asCreated = false then do
      let held ← release .vnode held
      .ok (some .ENOMEM, p, held)
    else do
      let held := .addrspace :: held
      let (result, as, heap) ← halting (loadElf l.kmalloc v asCreate l.heap)
      match result with
      | .error e => do
        let held ← release .vnode (as.blocks ++ held)
        .ok (some e, { p with pAddrspace := some as }, held)
      | .ok _ => do
        let (as, _, heap) ← halting (asDefineStack l.kmalloc heap as)
        let (as, _) ← halting (asDefinePt l.kmalloc heap as)
        .ok (none, { p with pAddrspace := some as, pVnode := .set v }, as.blocks ++ held)

/-- The set-up of a process by `common_prog` and the thread it forks : the error it ended with, if
any, and the process with what it holds. The thread, if there was one, has left the process. -/
def setup (l : Launch σ) : Except Misuse (Option Errno × ProcStruct × List Block) :=
  let (p, held) := procCreateRunprogram l
  if l.forked then do
    let (err, p, held) ← runprogram l { p with pNumthreads := p.pNumthreads + 1 } held
    .ok (err, { p with pNumthreads := p.pNumthreads - 1 }, held)
  else .ok (some .ENOMEM, p, held)

/-! ## Destruction -/

/-- `as_destroy` of an address space none of whose pages has been used. -/
def asDestroyUnused (as : AddrSpace) (held : List Block) : Except Misuse (List Block) := do
  let _ ← halting (deref as.asData)
  let _ ← halting (deref as.asText)
  let _ ← halting (deref as.asStack)
  halting (kassert as.asPtable.isSome "pt != NULL")
  let held ← release .ptable held
  let held ← release (.segment .text) held
  let held ← release (.segment .data) held
  let held ← release (.segment .stack) held
  release .addrspace held

/-- The part of `proc_destroy` for the directory. -/
def destroyCwd (p : ProcStruct) (held : List Block) : Except Misuse (List Block) :=
  if p.pCwd then release .cwd held else .ok held

/-- The part of `proc_destroy` for the address space. -/
def destroyAs (p : ProcStruct) (held : List Block) : Except Misuse (List Block) :=
  match p.pAddrspace with
  | none => .ok held
  | some as => asDestroyUnused as held

/-- `sem_destroy`. -/
def semDestroy (p : ProcStruct) (held : List Block) : Except Misuse (List Block) := do
  halting (kassert p.pSem "sem != NULL")
  let held ← release .wchan held
  let held ← release .semName held
  release .sem held

/-- `proc_destroy`. -/
def procDestroy (p : ProcStruct) (held : List Block) : Except Misuse (List Block) :=
  match p.pVnode with
  | .uninit => .error .uninitialised
  | .set _ => do
    let held ← release .vnode held
    let held ← destroyCwd p held
    let held ← destroyAs p held
    halting (kassert (p.pNumthreads = 0) "proc->p_numthreads == 0")
    let held ← semDestroy p held
    let held ← release .name held
    release .proc held

/-! ## Which processes can be destroyed -/

/-- The process was set up to the end : the executable is open, the semaphore is there, and the
address space has its segments and its page table. -/
structure ProcStruct.Complete (p : ProcStruct) : Prop where
  vnode : ∃ v, p.pVnode = .set v
  sem : p.pSem = true
  space : ∃ t d s n, p.pAddrspace = some ⟨some t, some d, some s, some n⟩

/-- What a complete process holds. -/
def Block.all (cwd : Bool) : List Block :=
  [.segment .text, .segment .data, .segment .stack, .ptable, .addrspace, .vnode, .proc, .name, .sem,
    .semName, .wchan] ++ if cwd then [.cwd] else []

theorem procDestroy_complete (h : p.Complete) (hn : p.pNumthreads = 0) :
    procDestroy p (Block.all p.pCwd) = .ok [] := by
  obtain ⟨n, as, cwd, vnode, status, sem⟩ := p
  obtain ⟨⟨v, rfl⟩, rfl, t, d, s, m, rfl⟩ := h
  obtain rfl : n = 0 := hn
  cases cwd <;> rfl

/-- What destroys the process without misuse has found it complete. -/
theorem complete_of_procDestroy
    (h : procDestroy p held = .ok held') (hspace : p.pAddrspace.isSome) : p.Complete := by
  obtain ⟨n, as, cwd, vnode, status, sem⟩ := p
  cases vnode with
  | uninit => cases h
  | set v =>
    obtain ⟨held₁, -, h⟩ := bind_eq_ok.mp h
    obtain ⟨held₂, -, h⟩ := bind_eq_ok.mp h
    obtain ⟨held₃, has, h⟩ := bind_eq_ok.mp h
    obtain ⟨-, -, h⟩ := bind_eq_ok.mp h
    obtain ⟨held₄, hsem, -⟩ := bind_eq_ok.mp h
    obtain ⟨u, hexists, -⟩ := bind_eq_ok.mp hsem
    obtain ⟨⟨text, data, stack, ptable⟩, rfl⟩ := Option.isSome_iff_exists.mp hspace
    obtain ⟨d, hd, has⟩ := bind_eq_ok.mp has
    obtain ⟨t, ht, has⟩ := bind_eq_ok.mp has
    obtain ⟨s, hs, has⟩ := bind_eq_ok.mp has
    obtain ⟨u', hpt, -⟩ := bind_eq_ok.mp has
    refine ⟨⟨v, rfl⟩, kassert_eq_ok.mp (halting_eq_ok.mp hexists), ?_⟩
    cases data with
    | none => cases hd
    | some data =>
      cases text with
      | none => cases ht
      | some text =>
        cases stack with
        | none => cases hs
        | some stack =>
          obtain ⟨n, rfl⟩ := Option.isSome_iff_exists.mp (kassert_eq_ok.mp (halting_eq_ok.mp hpt))
          exact ⟨text, data, stack, n, rfl⟩

/-- `as_define_pt` finds the three segments. -/
theorem segments_of_asDefinePt {kmalloc : Kmalloc σ} {heap heap' : σ} {as as' : AddrSpace}
    (h : asDefinePt kmalloc heap as = .ok (as', heap')) :
    ∃ t d s n, as' = ⟨some t, some d, some s, n⟩ := by
  obtain ⟨text, data, stack, ptable⟩ := as
  obtain ⟨d, hd, h⟩ := bind_eq_ok.mp h
  obtain ⟨t, ht, h⟩ := bind_eq_ok.mp h
  obtain ⟨s, hs, h⟩ := bind_eq_ok.mp h
  obtain ⟨⟨n, heap₁⟩, -, h⟩ := bind_eq_ok.mp h
  cases h
  cases text <;> cases ht
  cases data <;> cases hd
  cases stack <;> cases hs
  exact ⟨t, d, s, n, rfl⟩

/-- What `runprogram` leaves : after an error the executable is not stored in the process, after
success it is, and the address space has its segments. -/
theorem runprogram_spec {l : Launch σ} {p' : ProcStruct}
    (h : runprogram l p held = .ok (err, p', held')) :
    (err.isSome ∧ ∃ as, p' = { p with pAddrspace := as }) ∨
      (err = none ∧ ∃ v t d s n, p' = { p with
        pAddrspace := some ⟨some t, some d, some s, n⟩
        pVnode := .set v } ∧
        held' = AddrSpace.blocks ⟨some t, some d, some s, n⟩ ++ .addrspace :: .vnode :: held) := by
  unfold runprogram at h
  cases hopen : l.opened with
  | error e =>
    rw [hopen] at h
    cases h
    exact Or.inl ⟨rfl, _, rfl⟩
  | ok v =>
    rw [hopen] at h
    obtain ⟨-, -, h⟩ := bind_eq_ok.mp h
    split_ifs at h with has
    · cases h
      exact Or.inl ⟨rfl, _, rfl⟩
    · obtain ⟨⟨result, as, heap⟩, -, h⟩ := bind_eq_ok.mp h
      cases result with
      | error e =>
        obtain ⟨held₁, -, h⟩ := bind_eq_ok.mp h
        cases h
        exact Or.inl ⟨rfl, _, rfl⟩
      | ok entrypoint =>
        obtain ⟨⟨as₁, sp, heap₁⟩, -, h⟩ := bind_eq_ok.mp h
        obtain ⟨⟨as₂, heap₂⟩, hpt, h⟩ := bind_eq_ok.mp h
        cases h
        obtain ⟨t, d, s, n, rfl⟩ := segments_of_asDefinePt (halting_eq_ok.mp hpt)
        exact Or.inr ⟨rfl, v, t, d, s, n, rfl, rfl⟩

/-- A process can be destroyed, with everything it was given released exactly once, exactly if its
set-up came to the end and found memory for the semaphore and the page table. -/
theorem procDestroy_safe_iff (l : Launch σ)
    (h : setup l = .ok (err, p, held)) :
    procDestroy p held = .ok [] ↔ err = none ∧ l.semCreated = true ∧
      ∃ as, p.pAddrspace = some as ∧ as.asPtable.isSome := by
  unfold setup at h
  dsimp only at h
  cases hfork : l.forked with
  | false =>
    rw [hfork] at h
    cases h
    constructor
    · intro hd
      cases hd
    · rintro ⟨⟨⟩, -⟩
  | true =>
    rw [hfork, if_pos rfl] at h
    obtain ⟨⟨err₁, p₁, held₁⟩, hrun, h⟩ := bind_eq_ok.mp h
    cases h
    rcases runprogram_spec hrun with ⟨herr, as, rfl⟩ | ⟨rfl, v, t, d, s, n, rfl, rfl⟩
    · constructor
      · intro hd
        cases hd
      · rintro ⟨rfl, -⟩
        cases herr
    · constructor
      · intro hd
        obtain ⟨-, hsem, t', d', s', n', has⟩ := complete_of_procDestroy hd rfl
        cases has
        exact ⟨rfl, hsem, _, rfl, rfl⟩
      · rintro ⟨-, hsem, as, has, hn⟩
        cases has
        obtain ⟨n, rfl⟩ := Option.isSome_iff_exists.mp hn
        have hheld : AddrSpace.blocks ⟨some t, some d, some s, some n⟩ ++ .addrspace :: .vnode ::
            (procCreateRunprogram l).2 = Block.all l.cwd := by
          simp only [procCreateRunprogram, hsem, if_true]
          rfl
        rw [hheld]
        exact procDestroy_complete (p := ⟨0, _, l.cwd, .set v, .uninit, l.semCreated⟩)
          ⟨⟨v, rfl⟩, hsem, t, d, s, n, rfl⟩ rfl

/-- A start of an executable with the program headers `phs`, with memory for everything. -/
def Launch.ofHeaders (phs : List ElfPhdr) : Launch Unit :=
  ⟨true, true, true, .ok (elfFile 0x400000 phs []), true, fun _ _ => .block (), ()⟩

/-- A program with two regions is set up, and destroyed before it runs. -/
theorem procDestroy_safe_iff_small : ∃ p held,
    setup (.ofHeaders [⟨1, 0, 0x400000, 4, 4⟩, ⟨1, 0, 0x10000000, 4, 16⟩]) = .ok (none, p, held) ∧
      procDestroy p held = .ok [] := by
  have h : (setup (.ofHeaders [⟨1, 0, 0x400000, 4, 4⟩, ⟨1, 0, 0x10000000, 4, 16⟩])).toOption.map
      (fun r => (r.1, r.2.1.pAddrspace.map fun as => as.asPtable.isSome)) =
        some (none, some true) := by
    decide +kernel
  obtain ⟨⟨err, p, held⟩, hr, heq⟩ := Option.map_eq_some_iff.mp h
  obtain ⟨rfl, has⟩ := Prod.mk.inj heq
  obtain ⟨as, has, hn⟩ := Option.map_eq_some_iff.mp has
  have hsetup := eq_ok_of_toOption hr
  exact ⟨p, held, hsetup, (procDestroy_safe_iff _ hsetup).mpr ⟨rfl, rfl, as, has, hn⟩⟩

/-- `load_elf` returns `ENOEXEC` at the second header. The process has a text segment and nothing
in `p_vnode`, which `proc_destroy` reads first. -/
theorem procDestroy_unset_small : ∃ p held text,
    setup (.ofHeaders [⟨1, 0, 0x400000, 4, 4⟩, ⟨9, 0, 0, 0, 0⟩]) = .ok (some .ENOEXEC, p, held) ∧
      p.pAddrspace = some ⟨some text, none, none, none⟩ ∧
      procDestroy p held = .error .uninitialised := by
  have h : (setup (.ofHeaders [⟨1, 0, 0x400000, 4, 4⟩, ⟨9, 0, 0, 0, 0⟩])).toOption.map
      (fun r => decide (r.1 = some .ENOEXEC ∧
        r.2.1.pAddrspace = some ⟨some ⟨0x400000, 0x400004, 4, 0, 1⟩, none, none, none⟩ ∧
        procDestroy r.2.1 r.2.2 = .error .uninitialised)) = some true := by
    decide +kernel
  obtain ⟨⟨err, p, held⟩, hr, heq⟩ := Option.map_eq_some_iff.mp h
  obtain ⟨rfl, has, hd⟩ := of_decide_eq_true heq
  exact ⟨p, held, _, eq_ok_of_toOption hr, has, hd⟩

end OS161

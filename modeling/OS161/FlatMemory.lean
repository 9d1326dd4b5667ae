import OS161.Contents

/-!
# Demand paging as flat memory

To a process, memory is flat and private : a load returns the byte the process last stored
there, or the byte of its initial image. `flatMemory` computes this memory from the trace
of a run, with `imageOf`, the initial image, read off the program headers. The simulation
relation is `Kernel.Holds` with the agreement of the TLB; every operation keeps it
(`Sys.step_flat`), so that a load of a valid address returns the byte of the flat memory,
whatever was evicted, dropped, read again or fetched from swap in between
(`load_returns_flat_byte`).
-/

namespace OS161

open Function

variable {a p va : ℕ}

/-! ## The flat memory of a trace -/

/-- The initial image of a program : the bytes of the file where its loadable headers have
them, zero elsewhere. -/
def imageOf (v : Vnode) (a : ℕ) : UInt8 :=
  match (elfHeaders v).1.find? fun ph =>
    ph.Fits ∧ ph.pVaddr ≤ a ∧ a < ph.pVaddr + ph.pMemsz with
  | some ph =>
    if a - ph.pVaddr < min ph.pFilesz ph.pMemsz then v.byte (ph.pOffset + (a - ph.pVaddr)) else 0
  | none => 0

/-- The memory of the processes after a run, newest event first. -/
def flatMemory : List Event → ℕ → ℕ → UInt8
  | [], _, _ => 0
  | .built p v :: tr, q, a => if q = p then imageOf v a else flatMemory tr q a
  | .stored p va b :: tr, q, a => if q = p ∧ a = va then b else flatMemory tr q a
  | _ :: tr, q, a => flatMemory tr q a

/-- A segment that contains an address is the region of its header. -/
theorem ElfPhdr.contains_segment {ph : ElfPhdr} (hacc : ph.Accepted)
    (hm : ph.pMemsz < 2 ^ 32) : ph.segment.Contains a ↔
      ph.Fits ∧ ph.pVaddr ≤ a ∧ a < ph.pVaddr + ph.pMemsz := by
  obtain ⟨h0, hv, hle⟩ := hacc
  simp only [Segment.Contains, ElfPhdr.segment, Fits, word32, userspacetop, mipsKseg0] at *
  omega

theorem ElfPhdr.elfSize_segment {ph : ElfPhdr} (hacc : ph.Accepted)
    (hm : ph.pMemsz < 2 ^ 32) (h : ph.segment.Contains a) :
    ph.segment.segElfSize = min ph.pFilesz ph.pMemsz := by
  obtain ⟨⟨-, hle⟩, -⟩ := (contains_segment hacc hm).mp h
  have hmem : word32 (word32 (ph.pVaddr + ph.pMemsz) + 2 ^ 32 - ph.pVaddr) = ph.pMemsz := by
    simp only [word32, userspacetop, mipsKseg0] at *
    omega
  simp only [ElfPhdr.segment, hmem]
  split_ifs <;> omega

/-- The image of the segments is that of the headers. -/
theorem Proc.Built.imageByte {pr : Proc} {L : Layout} (h : pr.Built L) (hd : L.PagesDisjoint)
    {ty : SegType} (ha : (L.seg ty).Contains a) :
    L.imageByte pr.pVnode.byte ty a = imageOf pr.pVnode a := by
  have hty := fun ty' h' => hd ty' ty a a h' ha rfl
  obtain ⟨-, t, d, hh, ht, hd', htm, hdm, rfl⟩ := h
  have htext := ElfPhdr.contains_segment (a := a) ht htm
  have hdata := ElfPhdr.contains_segment (a := a) hd' hdm
  unfold imageOf
  rw [hh]
  simp only [List.find?_cons, List.find?_nil, ← htext, ← hdata]
  cases ty with
  | text =>
    rw [decide_eq_true (show t.segment.Contains a from ha)]
    simp only [Layout.imageByte, Layout.seg, fileLayout, ElfPhdr.elfSize_segment ht htm ha]
    rfl
  | data =>
    have hnt : ¬t.segment.Contains a := fun h' => by cases hty .text h'
    rw [decide_eq_false hnt, decide_eq_true (show d.segment.Contains a from ha)]
    simp only [Layout.imageByte, Layout.seg, fileLayout, ElfPhdr.elfSize_segment hd' hdm ha]
    rfl
  | stack =>
    have hnt : ¬t.segment.Contains a := fun h' => by cases hty .text h'
    have hnd : ¬d.segment.Contains a := fun h' => by cases hty .data h'
    rw [decide_eq_false hnt, decide_eq_false hnd]
    exact if_neg (Nat.not_lt_zero _)

/-! ## Accesses -/

section Access

variable {k k' : Kernel} {mem : ℕ → ℕ → UInt8} {ty : FaultType} {va : ℕ} {write : Bool}

theorem FaultPost.holds {r : FaultResult × Kernel} (h : FaultPost k ty va r) (hk : k.Inv)
    (hm : k.Holds mem) : r.2.Holds mem := by
  match r, h with
  | (.ret none, _), ⟨_, L, fp, k₁, stats, hat, hres, hr⟩ =>
    subst hr
    exact (hres.holds hk.owned hat hm).congr rfl rfl rfl rfl
  | (.ret (some e), _), ⟨_, hr⟩ =>
    subst hr
    exact hm
  | (.exit status, _), ⟨_, hr⟩ =>
    subst hr
    exact hm

theorem Attempt.holds (h : Attempt write va k k') (hk : k.Inv)
    (hm : k.Holds mem) : k'.Holds mem := by
  rcases h with rfl | ⟨ty, -, hf⟩
  · exact hm
  · exact hf.holds (hk.hit _).inv (hm.congr rfl rfl rfl rfl)

theorem AccessPost.holds {r : Option ℕ × Kernel} (h : AccessPost write va k r)
    (hk : k.Inv) (hm : k.Holds mem) : r.2.Holds mem := by
  match r, h with
  | (some pa, k'), ⟨hatt, _⟩ => exact hatt.holds hk hm
  | (none, k'), ⟨k₁, ty, status, hatt, _, _, hr⟩ =>
    subst hr
    exact (hatt.holds hk hm).congr rfl rfl rfl rfl

/-- An address the TLB translates lies on a page of the running process that is in memory;
a write goes to a page outside the text segment. -/
theorem Kernel.TlbOk.translate {p pa : ℕ} {pr : Proc} {L : Layout} (ht : k.TlbOk)
    (hs : k.tlb.Shaped) (hva : va < userspacetop) (hc : k.curproc = some p)
    (hp : k.procs p = some pr) (hL : pr.Built L) (h : k.tlb.translate write va = .inr pa) :
    ∃ ty a f, k.At p pr L ty a ∧ pageFrame va = pageFrame a ∧
      (k.pt ⟨p, L.indexIn ty a⟩).InFrame f ∧ pa = f * pageSize + pageOffset va ∧
      (write = true → ty ≠ .text) := by
  unfold Tlb.translate at h
  cases hpr : k.tlb.probe va with
  | none =>
    rw [hpr] at h
    cases h
  | some i =>
    obtain ⟨hv, he⟩ := hs.valid_of_probe hva hpr
    obtain ⟨ty, a, f, hca, hea, hf, hpa, hd⟩ := (ht p pr L hc hp hL).maps i hv
    rw [hpr] at h
    simp only [hv, Bool.true_eq_false, if_false] at h
    split_ifs at h with hw
    obtain rfl := Sum.inr.inj h
    refine ⟨ty, a, f, ⟨hp, hL, hca⟩, he.symm.trans hea, hf, by rw [hpa], fun hwr => hd.mp ?_⟩
    by_contra hnd
    exact hw ⟨hwr, by simpa using hnd⟩

/-- A load does not fault on a page that is mapped. -/
theorem Tlb.translate_load_ne (tlb : Tlb) (va : ℕ) : tlb.translate false va ≠ .inl .readonly := by
  unfold Tlb.translate
  cases tlb.probe va with
  | none => simp
  | some i => by_cases hv : (tlb.slot i).valid = false <;> simp [hv]

end Access

namespace Kernel.Holds

variable {k : Kernel} {mem : ℕ → ℕ → UInt8} {p va a f : ℕ} {pr : Proc} {L : Layout} {ty : SegType}

/-- A store into a page that is in memory, outside the text segment. -/
theorem store (h : k.Holds mem) (hk : k.Owned (.quiet k.Live)) (hd : L.PagesDisjoint)
    (hat : k.At p pr L ty a) (hva : pageFrame va = pageFrame a)
    (hf : (k.pt ⟨p, L.indexIn ty a⟩).InFrame f) (hty : ty ≠ .text) (b : UInt8) :
    Holds { k with ram := update k.ram (f * pageSize + pageOffset va) b }
      fun q c => if q = p ∧ c = va then b else mem q c := by
  -- The address of the store, where it is in a segment, is on the page that was written.
  have hsame : ∀ {q pr' L' ty' c}, k.At q pr' L' ty' c → q = p ∧ c = va →
      ty' = ty ∧ (⟨q, L'.indexIn ty' c⟩ : PtPtr) = ⟨p, L.indexIn ty a⟩ := by
    rintro q pr' L' ty' c hat' ⟨rfl, rfl⟩
    obtain rfl := Option.some.inj (hat'.proc.symm.trans hat.proc)
    obtain rfl := hat'.built.1.unique hat.built.1
    obtain rfl := hd ty' ty c a hat'.contains hat.contains hva
    exact ⟨rfl, congrArg _ ((Layout.indexIn_inj hat.built.wf hat'.contains hat.contains).mpr
      ⟨rfl, hva⟩)⟩
  refine ⟨?_, ?_, fun hat' => h.rdonly (hat'.of_procs rfl)⟩
  · intro q pr' L' ty' c hat'
    have hat' : k.At q pr' L' ty' c := hat'.of_procs rfl
    rw [← h.byte hat']
    by_cases he : (⟨q, L'.indexIn ty' c⟩ : PtPtr) = ⟨p, L.indexIn ty a⟩
    · rw [← he] at hf
      obtain ⟨rfl, rfl, rfl, rfl, hpage⟩ := hat'.unique hat he
      have hf' : (Kernel.pt { k with ram := update k.ram (f * pageSize + pageOffset va) b }
          ⟨q, L'.indexIn ty' c⟩).InFrame f := hf
      rw [byteAt_inFrame hf, byteAt_inFrame hf']
      by_cases hc : c = va
      · subst hc
        simp
      · have hne : pageOffset c ≠ pageOffset va := by
          have h1 := pageFrame_add_pageOffset c
          have h2 := pageFrame_add_pageOffset va
          omega
        simp [hc, hne]
    · have hne : ¬(q = p ∧ c = va) := fun hq => he (hsame hat' hq).2
      rw [if_neg hne]
      refine byteAt_congr (peek_congr rfl (fun f' hf' => ?_) fun _ _ => rfl)
      have hpa : f' * pageSize + pageOffset c ≠ f * pageSize + pageOffset va := by
        intro heq
        have h1 := mul_pageSize_add_div (f := f') (pageOffset_lt c)
        rw [heq, mul_pageSize_add_div (pageOffset_lt va)] at h1
        subst h1
        exact he (hk.frames.resident_inj hat'.live hat.live hf' hf)
      dsimp only
      rw [update_of_ne hpa]
  · intro q pr' L' c hat'
    have hat' : k.At q pr' L' .text c := hat'.of_procs rfl
    rw [if_neg fun hq => hty (hsame hat' hq).1.symm]
    exact h.text hat'

/-- A process is built. -/
theorem build {v : Vnode} {as : AddrSpace} (h : k.Holds mem) (hL : Proc.Built ⟨as, v⟩ L)
    (hd : L.PagesDisjoint) :
    (k.build p v as).Holds fun q c => if q = p then imageOf v c else mem q c := by
  have hcases : ∀ {q pr' L' ty' c}, (k.build p v as).At q pr' L' ty' c →
      (q = p ∧ pr' = ⟨as, v⟩ ∧ L' = L) ∨ (q ≠ p ∧ k.At q pr' L' ty' c) := by
    rintro q pr' L' ty' c ⟨hp, hb, hc⟩
    by_cases hq : q = p
    · subst hq
      simp only [Kernel.build, update_self, Option.some.injEq] at hp
      subst hp
      exact Or.inl ⟨rfl, rfl, hb.1.unique hL.1⟩
    · exact Or.inr ⟨hq, by simpa [Kernel.build, hq] using hp, hb, hc⟩
  refine ⟨?_, ?_, ?_⟩
  · intro q pr' L' ty' c hat
    rcases hcases hat with ⟨rfl, rfl, rfl⟩ | ⟨hq, hat'⟩
    · rw [byteAt_notLoaded (by simp [Kernel.build]), if_pos rfl]
      exact hL.imageByte hd hat.contains
    · rw [if_neg hq, ← h.byte hat']
      exact byteAt_congr (peek_congr (by simp [Kernel.build, hq]) (fun _ _ => rfl) fun _ _ => rfl)
  · intro q pr' L' c hat
    rcases hcases hat with ⟨rfl, rfl, rfl⟩ | ⟨hq, hat'⟩
    · rw [if_pos rfl]
      exact (hL.imageByte hd hat.contains).symm
    · rw [if_neg hq]
      exact h.text hat'
  · intro q pr' L' ty' c hat hst
    rcases hcases hat with ⟨rfl, rfl, rfl⟩ | ⟨hq, hat'⟩
    · simp [Kernel.build] at hst
    · exact h.rdonly hat' (by simpa [Kernel.build, hq] using hst)

end Kernel.Holds

/-! ## Runs -/

namespace Sys

variable {s s' : Sys} {ev : Event} {tr : List Event}

/-- The page an access of the running process goes to. -/
theorem access_page {write : Bool} {va pa p : ℕ} {k' : Kernel} (hs : s.TlbInv)
    (h : AccessPost write va s.kernel (some pa, k')) (hva : va < userspacetop)
    (hc : s.kernel.curproc = some p) :
    ∃ pr L ty a f, k'.At p pr L ty a ∧ L.PagesDisjoint ∧ pageFrame va = pageFrame a ∧
      (k'.pt ⟨p, L.indexIn ty a⟩).InFrame f ∧ pa = f * pageSize + pageOffset va ∧
      (write = true → ty ≠ .text) := by
  obtain ⟨pr, hpr⟩ := Option.isSome_iff_exists.mp (hs.current p hc)
  obtain ⟨L, hL⟩ := hs.inv.kernel.procs p pr hpr
  have hkeeps := h.keeps hs.inv.kernel
  have hpr' : k'.procs p = some pr := by rw [hkeeps.procs, hpr]
  have hc' : k'.curproc = some p := h.1.curproc.trans hc
  have htlb := h.tlbOk hs.inv.kernel hs.tlbOk hva
  obtain ⟨ty, a, f, hat, hpage, hrest⟩ :=
    Kernel.TlbOk.translate htlb hkeeps.inv.shaped hva hc' hpr' hL h.2
  exact ⟨pr, L, ty, a, f, hat, hL.pagesDisjoint (hs.disjoint p pr hpr), hpage, hrest⟩

/-- A step of the disciplined system does to the pages what its event does to the flat
memory. -/
theorem step_flat (hs : s.TlbInv) (hm : s.kernel.Holds (flatMemory tr)) (h : s.Step ev s')
    (hd : s.Disciplined ev) : s'.kernel.Holds (flatMemory (ev :: tr)) := by
  obtain ⟨op, hal, hpost⟩ := step_cases hs.inv h
  cases op with
  | build p v =>
    rcases hpost with ⟨as, L, rfl, hL, rfl⟩ | ⟨e, rfl, rfl⟩
    · exact hm.build hL (hL.pagesDisjoint hd)
    · exact hm.congr rfl rfl rfl rfl
  | destroy p =>
    obtain ⟨rfl, k₁, he, rfl, -⟩ := hpost
    have hat : ∀ {q pr L ty a}, Kernel.At { k₁ with procs := update s.kernel.procs p none }
        q pr L ty a → k₁.At q pr L ty a := by
      rintro q pr L ty a ⟨hp, hb, hc⟩
      refine ⟨?_, hb, hc⟩
      rw [he.procs]
      by_cases hq : q = p
      · simp [hq] at hp
      · simpa [hq] using hp
    have hm₁ := hm.congr he.procs he.pt he.ram he.swapfile
    exact ⟨fun h => hm₁.byte (hat h), fun h => hm₁.text (hat h), fun h => hm₁.rdonly (hat h)⟩
  | switch p =>
    obtain ⟨rfl, rfl⟩ := hpost
    obtain ⟨tlb, stats, htlb⟩ := asActivate_eq { s.kernel with curproc := p }
    rw [htlb]
    exact hm.congr rfl rfl rfl rfl
  | allocKpages n =>
    obtain ⟨b, k', h0, hgr, rfl, rfl⟩ := hpost
    exact hgr.holds hs.inv.kernel.owned hm
  | freeKpages addr =>
    obtain ⟨rfl, b, -, -, rfl⟩ := hpost
    exact hm.congr rfl rfl rfl rfl
  | fault ty va =>
    obtain ⟨r, k', hf, rfl, rfl⟩ := hpost
    have hm' := hf.holds (hs.inv.kernel.hit _).inv (hm.congr rfl rfl rfl rfl)
    cases r with
    | ret e => exact hm'
    | exit status => exact hm'.congr rfl rfl rfl rfl
  | load va =>
    obtain ⟨r, k', hva, hacc, rfl, rfl⟩ := hpost
    have hm' := hacc.holds hs.inv.kernel hm
    cases r <;> exact hm'
  | store va b =>
    obtain ⟨r, k', hva, hacc, hr⟩ := hpost
    have hm' := hacc.holds hs.inv.kernel hm
    cases r with
    | none =>
      obtain ⟨rfl, rfl⟩ := hr
      exact hm'
    | some pa =>
      obtain ⟨rfl, rfl⟩ := hr
      obtain ⟨p, hc⟩ := Option.isSome_iff_exists.mp hal
      obtain ⟨pr, L, ty, a, f, hat, hdis, hpage, hf, rfl, hty⟩ := access_page hs hacc hva hc
      have hown := (hacc.keeps hs.inv.kernel).inv.owned
      have hcur : s.current = p := by rw [current, hc, Option.getD_some]
      rw [hcur]
      exact hm'.store hown hdis hat hpage hf (hty rfl) b

theorem run_flat {ramsize firstfree : ℕ} {s₀ : Sys} (hb : Boot ramsize firstfree s₀)
    (hr : Run (guarded Disciplined Step) s₀ tr s) : s.kernel.Holds (flatMemory tr) := by
  refine hr.trace_induct (I := fun tr s => s.kernel.Holds (flatMemory tr)) ?_ ?_
  · obtain ⟨cm, ram, swapfile, ioError, -, -, rfl⟩ := hb
    refine ⟨fun h => ?_, fun h => ?_, fun h => ?_⟩ <;> cases h.proc
  · intro tr s ev s' hrun hm hstep
    exact step_flat (run_tlbInv hb hrun) hm hstep.1 hstep.2

end Sys

/-- An address of a segment of process `p`. -/
def Kernel.Valid (k : Kernel) (p va : ℕ) : Prop :=
  ∃ pr ty, k.procs p = some pr ∧ asGetSegmentType pr.pAddrspace va = .ok (some ty)

theorem Kernel.valid_of_map {k : Kernel} {ty : SegType}
    (h : ((k.procs p).map fun pr => (asGetSegmentType pr.pAddrspace va).toOption) =
      some (some (some ty))) : k.Valid p va := by
  obtain ⟨pr, hpr, hty⟩ := Option.map_eq_some_iff.mp h
  refine ⟨pr, ty, hpr, ?_⟩
  cases ht : asGetSegmentType pr.pAddrspace va with
  | error e =>
    rw [ht] at hty
    cases hty
  | ok r =>
    rw [ht] at hty
    cases hty
    rfl

/-- A load of a valid address by the running process returns the byte of the memory that the
processes find, unless the machine stops for want of memory or swap space. -/
theorem Sys.TlbInv.load_spec {s : Sys} {mem : ℕ → ℕ → UInt8} (hs : s.TlbInv)
    (hm : s.kernel.Holds mem) (hp : s.kernel.curproc = some p)
    (hva : s.kernel.Valid p va) :
    Meets Halt.Resource (fun r => r.1 = .loaded p va (mem p va)) (s.exec (.load va)) := by
  have hal : s.Allowed (.load va) := by
    rw [Sys.Allowed, hp]
    rfl
  have hcur : s.current = p := by rw [Sys.current, hp, Option.getD_some]
  refine (Sys.exec_spec hs.inv hal (by simp)).mono ?_
  rintro ⟨ev, s'⟩ ⟨r, k', htop, hacc, rfl, rfl⟩
  obtain ⟨pr, ty, hpr, hty⟩ := hva
  obtain ⟨L, hL⟩ := hs.inv.kernel.procs p pr hpr
  rw [asGetSegmentType_of_has hL.1] at hty
  have hseg : L.segType va = some ty := Except.ok.inj hty
  cases r with
  | none =>
    -- A load of a valid address is not killed.
    obtain ⟨k₁, fty, status, hatt, htr, ⟨⟨-, hlook⟩, -⟩, -⟩ := hacc
    rcases hlook with rfl | ⟨-, p', pr', L', hp', hpr', hL', hnone⟩
    · exact absurd htr (Tlb.translate_load_ne _ _)
    · obtain rfl : p = p' := Option.some.inj ((hatt.curproc.trans hp).symm.trans hp')
      have hprocs : k₁.procs p = some pr := by rw [(hatt.keeps hs.inv.kernel).procs, hpr]
      obtain rfl := Option.some.inj (hprocs.symm.trans hpr')
      obtain rfl := hL.1.unique hL'.1
      rw [hseg] at hnone
      cases hnone
  | some pa =>
    obtain ⟨pr', L', ty', a, f, hat, hdis, hpage, hf, rfl, -⟩ := Sys.access_page hs hacc htop hp
    obtain rfl : pr' = pr := by
      have := hat.proc
      rw [(hacc.keeps hs.inv.kernel).procs, hpr] at this
      exact (Option.some.inj this).symm
    obtain rfl := hat.built.1.unique hL.1
    have hc := Layout.contains_of_segType hseg
    obtain rfl := hdis ty ty' va a hc hat.contains hpage
    have hidx := (Layout.indexIn_inj hL.wf hc hat.contains).mpr ⟨rfl, hpage⟩
    have hbyte := (hacc.holds hs.inv.kernel hm).byte ⟨hat.proc, hL, hc⟩
    rw [Kernel.byteAt_inFrame (by rw [hidx]; exact hf)] at hbyte
    dsimp only
    rw [hcur, hbyte]

/-- In a state that a run with trace `tr` reached, a load of a valid address by the running
process returns the byte of the flat memory of `tr`, unless the machine stops for want of
memory or swap space. -/
theorem load_returns_flat_byte {ramsize firstfree : ℕ} {s₀ s : Sys} {tr : List Event}
    (hb : Sys.Boot ramsize firstfree s₀) (hr : Run (guarded Sys.Disciplined Sys.Step) s₀ tr s)
    (hp : s.kernel.curproc = some p) (hva : s.kernel.Valid p va) :
    Meets Halt.Resource (fun r => r.1 = .loaded p va (flatMemory tr p va))
      (s.exec (.load va)) :=
  (Sys.run_tlbInv hb hr).load_spec (Sys.run_flat hb hr) hp hva

/-- With two frames for three pages, the byte stored into the data segment is read back after
its page was in swap. -/
theorem load_returns_flat_byte_small : ∃ tr s,
    Run (guarded Sys.Disciplined Sys.Step) (.small 4) tr s ∧
      (s.kernel.pt ⟨1, 1⟩).ptStatus = .inSwap ∧ s.kernel.Valid 1 0x10000001 ∧
      Meets Halt.Resource (fun r => r.1 = .loaded 1 0x10000001 7)
        (s.exec (.load 0x10000001)) := by
  obtain ⟨tr, s, hrun, hcur, hst, hflat, hseg⟩ := Run.exists_of_execute Sys.nextSmall
    Sys.guarded_of_nextSmall (.small 4) [.build 1 Sys.smallFile, .store 0x10000001 7,
      .store 0x7ffffff0 9, .load 0x400002, .load 0x7ffffff0]
    (fun tr s => s.kernel.curproc = some 1 ∧ (s.kernel.pt ⟨1, 1⟩).ptStatus = .inSwap ∧
      flatMemory tr 1 0x10000001 = 7 ∧ ((s.kernel.procs 1).map fun pr =>
        (asGetSegmentType pr.pAddrspace 0x10000001).toOption) = some (some (some .data)))
    (by decide +kernel)
  have hvalid : s.kernel.Valid 1 0x10000001 := Kernel.valid_of_map hseg
  have hload := load_returns_flat_byte (Sys.small_boot (by decide) (by decide)) hrun hcur hvalid
  rw [hflat] at hload
  exact ⟨tr, s, hrun, hst, hvalid, hload⟩

end OS161

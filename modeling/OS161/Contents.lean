import OS161.TlbAgree

/-!
# Where the bytes of a page are

The page of an entry is in a frame, in a swap slot, or nowhere yet; `Kernel.peek` reads a
byte of it from where it is, and `Kernel.byteAt` falls back on the initial image, which is
what the first fault will load. `Kernel.Holds` says that these bytes are those of a given
memory, and that the pages that may be dropped from their frames are text pages, whose
bytes are still those of the image.

A request for frames moves pages between frames and slots but keeps what they hold
(`Granted.peek`, `Granted.holds`); so does the fault that brings a page in
(`Resolved.holds`), whether it loads it from the file, clears it, or fetches it from swap.
-/

namespace OS161

open Function

variable {src dst : ℕ → UInt8}

/-! ## Pages of bytes -/

theorem moveBytes_page_ne {offset b n f o : ℕ} (ho : o < pageSize)
    (h : ¬(b ≤ f ∧ f < b + n)) :
    moveBytes src offset dst (b * pageSize) (pageSize * n) (f * pageSize + o) =
      dst (f * pageSize + o) := by
  refine if_neg ?_
  rintro ⟨h1, h2⟩
  refine h ⟨?_, ?_⟩
  · by_contra hlt
    have := Nat.mul_le_mul_right pageSize (show f + 1 ≤ b by omega)
    rw [Nat.add_mul] at this
    omega
  · by_contra hge
    have := Nat.mul_le_mul_right pageSize (not_lt.mp hge)
    rw [Nat.add_mul, Nat.mul_comm n] at this
    omega

theorem moveBytes_page_self {offset b o : ℕ} (ho : o < pageSize) :
    moveBytes src offset dst (b * pageSize) pageSize (b * pageSize + o) = src (offset + o) := by
  rw [moveBytes, if_pos ⟨Nat.le_add_right _ _, Nat.add_lt_add_left ho _⟩, Nat.add_sub_cancel_left]

namespace Kernel

theorem ram_take {k : Kernel} {b n f o : ℕ} {e : Option PtPtr} (ho : o < pageSize)
    (h : ¬(b ≤ f ∧ f < b + n)) :
    (k.take b n e).ram (f * pageSize + o) = k.ram (f * pageSize + o) := by
  simp only [take]
  exact moveBytes_page_ne ho h

/-- The byte at offset `o` of the page of entry `e`, where the page is now. -/
def peek (k : Kernel) (e : PtPtr) (o : ℕ) : Option UInt8 :=
  match (k.pt e).ptStatus with
  | .notLoaded => none
  | .inMemory => some (k.ram ((k.pt e).ptFrameIndex * pageSize + o))
  | .inMemoryRdonly => some (k.ram ((k.pt e).ptFrameIndex * pageSize + o))
  | .inSwap => some (k.swap.swapfile ((k.pt e).ptSwapIndex * pageSize + o))

variable {k k' : Kernel} {e : PtPtr} {f s o : ℕ} {mem : ℕ → ℕ → UInt8}

theorem peek_notLoaded (h : (k.pt e).ptStatus = .notLoaded) : k.peek e o = none := by
  rw [peek, h]

theorem peek_inFrame (h : (k.pt e).InFrame f) : k.peek e o = some (k.ram (f * pageSize + o)) := by
  obtain ⟨hst, rfl⟩ := h
  rcases hst with hst | hst <;> rw [peek, hst]

theorem peek_inSlot (h : (k.pt e).InSlot s) :
    k.peek e o = some (k.swap.swapfile (s * pageSize + o)) := by
  obtain ⟨hst, rfl⟩ := h
  rw [peek, hst]

/-- A page reads the same as long as its entry and the bytes where it is stay. -/
theorem peek_congr (hpt : k'.pt e = k.pt e)
    (hram : ∀ f, (k.pt e).InFrame f → k'.ram (f * pageSize + o) = k.ram (f * pageSize + o))
    (hswap : ∀ s, (k.pt e).InSlot s →
      k'.swap.swapfile (s * pageSize + o) = k.swap.swapfile (s * pageSize + o)) :
    k'.peek e o = k.peek e o := by
  unfold peek
  rw [hpt]
  cases hst : (k.pt e).ptStatus with
  | notLoaded => rfl
  | inMemory => exact congrArg some (hram _ ⟨Or.inl hst, rfl⟩)
  | inMemoryRdonly => exact congrArg some (hram _ ⟨Or.inr hst, rfl⟩)
  | inSwap => exact congrArg some (hswap _ ⟨hst, rfl⟩)

/-- `a` is an address of segment `ty` of process `p`. -/
structure At (k : Kernel) (p : ℕ) (pr : Proc) (L : Layout) (ty : SegType) (a : ℕ) : Prop where
  proc : k.procs p = some pr
  built : pr.Built L
  contains : (L.seg ty).Contains a

/-- The byte process `p` finds at address `a`, once the page is in memory. -/
def byteAt (k : Kernel) (p : ℕ) (pr : Proc) (L : Layout) (ty : SegType) (a : ℕ) : UInt8 :=
  (k.peek ⟨p, L.indexIn ty a⟩ (pageOffset a)).getD (L.imageByte pr.pVnode.byte ty a)

section ByteAt

variable {p : ℕ} {pr : Proc} {L : Layout} {ty : SegType} {a : ℕ}

theorem byteAt_notLoaded (h : (k.pt ⟨p, L.indexIn ty a⟩).ptStatus = .notLoaded) :
    k.byteAt p pr L ty a = L.imageByte pr.pVnode.byte ty a := by
  rw [byteAt, peek_notLoaded h, Option.getD_none]

theorem byteAt_inFrame (h : (k.pt ⟨p, L.indexIn ty a⟩).InFrame f) :
    k.byteAt p pr L ty a = k.ram (f * pageSize + pageOffset a) := by
  rw [byteAt, peek_inFrame h, Option.getD_some]

theorem byteAt_inSlot (h : (k.pt ⟨p, L.indexIn ty a⟩).InSlot s) :
    k.byteAt p pr L ty a = k.swap.swapfile (s * pageSize + pageOffset a) := by
  rw [byteAt, peek_inSlot h, Option.getD_some]

theorem byteAt_congr
    (h : k'.peek ⟨p, L.indexIn ty a⟩ (pageOffset a) = k.peek ⟨p, L.indexIn ty a⟩ (pageOffset a)) :
    k'.byteAt p pr L ty a = k.byteAt p pr L ty a := by
  rw [byteAt, h, byteAt]

end ByteAt

/-- The processes find the bytes of `mem`; the pages that may be dropped are in the text
segment, which is as it was loaded. -/
structure Holds (k : Kernel) (mem : ℕ → ℕ → UInt8) : Prop where
  byte : ∀ {p pr L ty a}, k.At p pr L ty a → k.byteAt p pr L ty a = mem p a
  text : ∀ {p pr L a}, k.At p pr L .text a → mem p a = L.imageByte pr.pVnode.byte .text a
  rdonly : ∀ {p pr L ty a}, k.At p pr L ty a →
    (k.pt ⟨p, L.indexIn ty a⟩).ptStatus = .inMemoryRdonly → ty = .text

variable {p : ℕ} {pr : Proc} {L : Layout} {ty ty' : SegType} {a b : ℕ}

theorem At.live (h : k.At p pr L ty a) : k.Live ⟨p, L.indexIn ty a⟩ :=
  (live_iff h.proc h.built.1).mpr (Layout.indexIn_lt_npages h.built.wf h.contains)

theorem At.of_procs (h : k'.At p pr L ty a) (hp : k'.procs = k.procs) : k.At p pr L ty a :=
  ⟨hp ▸ h.proc, h.built, h.contains⟩

/-- Addresses with one entry belong to one process and segment and lie on one page. -/
theorem At.unique {q : ℕ} {pr' : Proc} {L' : Layout} (h : k.At p pr L ty a)
    (h' : k.At q pr' L' ty' b) (he : (⟨p, L.indexIn ty a⟩ : PtPtr) = ⟨q, L'.indexIn ty' b⟩) :
    p = q ∧ pr = pr' ∧ L = L' ∧ ty = ty' ∧ pageFrame a = pageFrame b := by
  obtain ⟨rfl, hi⟩ := PtPtr.mk.inj he
  obtain rfl := Option.some.inj (h.proc.symm.trans h'.proc)
  obtain rfl := h.built.1.unique h'.built.1
  obtain ⟨rfl, hp⟩ := (Layout.indexIn_inj h.built.wf h.contains h'.contains).mp hi
  exact ⟨rfl, rfl, rfl, rfl, hp⟩

/-- What moves pages about, or drops pages of text, keeps the memory. -/
theorem Holds.of_peek (h : k.Holds mem) (hp : k'.procs = k.procs)
    (hpeek : ∀ e o, k.Live e → o < pageSize → k'.peek e o = k.peek e o ∨
      (k.pt e).ptStatus = .inMemoryRdonly ∧ k'.peek e o = none)
    (hro : ∀ e, k.Live e → (k'.pt e).ptStatus = .inMemoryRdonly →
      (k.pt e).ptStatus = .inMemoryRdonly) : k'.Holds mem where
  byte := by
    intro p pr L ty a hat
    have hat := hat.of_procs hp
    rcases hpeek _ (pageOffset a) hat.live (pageOffset_lt a) with heq | ⟨hst, hnone⟩
    · rw [byteAt_congr heq]
      exact h.byte hat
    · obtain rfl := h.rdonly hat hst
      rw [byteAt, hnone]
      exact (h.text hat).symm
  text hat := h.text (hat.of_procs hp)
  rdonly hat hst := h.rdonly (hat.of_procs hp) (hro _ (hat.of_procs hp).live hst)

/-- Only page tables, memory and swap space matter. -/
theorem Holds.congr (h : k.Holds mem) (hp : k'.procs = k.procs)
    (hpt : k'.pt = k.pt) (hram : k'.ram = k.ram) (hswap : k'.swap.swapfile = k.swap.swapfile) :
    k'.Holds mem := by
  refine h.of_peek hp (fun e o _ _ => Or.inl ?_) fun e _ hst => ?_
  · exact peek_congr (by rw [hpt]) (fun _ _ => by rw [hram]) fun _ _ => by rw [hswap]
  · rwa [hpt] at hst

end Kernel

/-! ## Requests for frames -/

section Granted

variable {k k' : Kernel} {n b : ℕ} {e₀ : Option PtPtr} {e : PtPtr}

/-- A request for frames keeps what pages hold, unless it drops the page. -/
theorem Granted.peek (hg : Granted k.Live k n e₀ b k') (hk : k.Owned (.quiet k.Live)) {o : ℕ}
    (hl : k.Live e) (ho : o < pageSize) : k'.peek e o = k.peek e o ∨
      (k.pt e).ptStatus = .inMemoryRdonly ∧ k'.peek e o = none := by
  cases hg with
  | free hrun =>
    refine Or.inl (Kernel.peek_congr rfl (fun f hf => ?_) fun _ _ => rfl)
    refine Kernel.ram_take ho ?_
    rintro ⟨h1, h2⟩
    have := (hk.frames.resident e f hl hf).2.1
    rw [hrun.2 f h1 h2] at this
    cases this
  | @dropped e' _ hl' hf' hro =>
    by_cases he : e = e'
    · subst he
      exact Or.inr ⟨hro, Kernel.peek_notLoaded (by simp [Kernel.take, Kernel.discard])⟩
    · refine Or.inl (Kernel.peek_congr (update_of_ne he _ _) (fun f₁ hf => ?_)
        fun _ _ => rfl)
      refine Kernel.ram_take ho fun h => he ?_
      obtain rfl : f₁ = b := by omega
      exact hk.frames.resident_inj hl hl' hf hf'
  | @swapped s e' bm _ hl' hf' hst hbm =>
    by_cases he : e = e'
    · subst he
      have hslot : ((((k.startOut b s bm).finishOut b s e).take b 1 e₀).pt e).InSlot s := by
        simp only [Kernel.take, Kernel.finishOut, update_self]
        exact inSlot_inSwap 0 s
      rw [Kernel.peek_inSlot hslot, Kernel.peek_inFrame hf']
      refine Or.inl (congrArg some ?_)
      exact moveBytes_page_self ho
    · refine Or.inl (Kernel.peek_congr (update_of_ne he _ _) (fun f₁ hf => ?_)
        fun s₁ hs => ?_)
      · refine Kernel.ram_take ho fun h => he ?_
        obtain rfl : f₁ = b := by omega
        exact hk.frames.resident_inj hl hl' hf hf'
      · have hne : s₁ ≠ s := by
          rintro rfl
          exact hbm.2.1 (hk.slots.marked_of_inSlot hl hs).2
        exact moveBytes_page_ne (n := 1) ho (show ¬(s ≤ s₁ ∧ s₁ < s + 1) by omega)

theorem Granted.rdonly (hg : Granted k.Live k n e₀ b k')
    (h : (k'.pt e).ptStatus = .inMemoryRdonly) : (k.pt e).ptStatus = .inMemoryRdonly := by
  cases hg with
  | free => exact h
  | @dropped e' =>
    by_cases he : e = e'
    · subst he
      simp [Kernel.take, Kernel.discard] at h
    · simpa [Kernel.take, Kernel.discard, he] using h
  | @swapped s e' =>
    by_cases he : e = e'
    · subst he
      simp [Kernel.take, Kernel.finishOut] at h
    · simpa [Kernel.take, Kernel.finishOut, Kernel.startOut, he] using h

theorem Granted.holds {mem : ℕ → ℕ → UInt8} (hg : Granted k.Live k n e₀ b k')
    (hk : k.Owned (.quiet k.Live)) (h : k.Holds mem) : k'.Holds mem :=
  h.of_peek hg.procs (fun _ _ hl ho => hg.peek hk hl ho) fun _ _ => hg.rdonly

/-- The frame of a page comes cleared. -/
theorem Granted.ram_zero (hg : Granted k.Live k 1 e₀ b k') {o : ℕ} (ho : o < pageSize) :
    k'.ram (b * pageSize + o) = 0 := by
  cases hg <;> simp only [Kernel.take, Nat.mul_one] <;> exact moveBytes_page_self ho

end Granted

/-! ## Pages brought in -/

/-- A page is brought into frame `f`, which no other page is in, with the bytes it has. -/
theorem Kernel.Holds.fill {k k' : Kernel} {mem : ℕ → ℕ → UInt8} {e₀ : PtPtr} {f : ℕ}
    {ty₀ : SegType} (h : k.Holds mem) (hp : k'.procs = k.procs)
    (hpt : k'.pt = update k.pt e₀ ⟨f, 0, ty₀.resident⟩)
    (hother : ∀ e, k.Live e → e ≠ e₀ → ¬(k.pt e).InFrame f)
    (hram : ∀ f' o, f' ≠ f → o < pageSize →
      k'.ram (f' * pageSize + o) = k.ram (f' * pageSize + o))
    (hswap : k'.swap.swapfile = k.swap.swapfile)
    (hself : ∀ {p pr L ty a}, k.At p pr L ty a → (⟨p, L.indexIn ty a⟩ : PtPtr) = e₀ →
      ty = ty₀ ∧ k'.ram (f * pageSize + pageOffset a) = k.byteAt p pr L ty a) :
    k'.Holds mem where
  byte := by
    intro p pr L ty a hat
    have hat := hat.of_procs hp
    rw [← h.byte hat]
    by_cases he : (⟨p, L.indexIn ty a⟩ : PtPtr) = e₀
    · have hf : (k'.pt ⟨p, L.indexIn ty a⟩).InFrame f := by
        rw [hpt, he, update_self]
        exact ty₀.resident_inFrame f 0
      rw [← (hself hat he).2, Kernel.byteAt_inFrame hf]
    · have hpt' : k'.pt ⟨p, L.indexIn ty a⟩ = k.pt ⟨p, L.indexIn ty a⟩ := by
        rw [hpt, update_of_ne he]
      refine Kernel.byteAt_congr (Kernel.peek_congr hpt' ?_ ?_)
      · intro f' hf'
        refine hram f' _ ?_ (pageOffset_lt a)
        rintro rfl
        exact hother _ hat.live he hf'
      · intro s _
        rw [hswap]
  text hat := h.text (hat.of_procs hp)
  rdonly := by
    intro p pr L ty a hat hst
    have hat := hat.of_procs hp
    by_cases he : (⟨p, L.indexIn ty a⟩ : PtPtr) = e₀
    · obtain ⟨rfl, -⟩ := hself hat he
      rw [hpt, he, update_self] at hst
      cases ty <;> first | rfl | cases hst
    · rw [hpt, update_of_ne he] at hst
      exact h.rdonly hat hst

section Resolved

variable {k k' : Kernel} {L : Layout} {fp : FaultPage} {va f : ℕ} {ram : ℕ → UInt8}

/-- The read stays in the frame. -/
theorem loadRam_ne {v : Vnode} {f' o : ℕ}
    (hf : f' ≠ f) (ho : o < pageSize) :
    LoadPlan.loadRam v ram (fp.plan L va f) (f' * pageSize + o) = ram (f' * pageSize + o) := by
  unfold FaultPage.plan
  split_ifs
  · have hle := (L.seg fp.segType).loadPlan_le va
    refine if_neg ?_
    rintro ⟨h1, h2⟩
    dsimp only at h1 h2
    rcases Nat.lt_or_gt_of_ne hf with hlt | hlt
    · have := Nat.mul_le_mul_right pageSize (Nat.succ_le_of_lt hlt)
      rw [Nat.succ_mul] at this
      omega
    · have := Nat.mul_le_mul_right pageSize (Nat.succ_le_of_lt hlt)
      rw [Nat.succ_mul] at this
      omega
  · rfl

/-- A cleared frame into which the page is read holds the initial image. -/
theorem loadRam_image {v : Vnode} {a : ℕ} (hw : L.WF)
    (hstack : L.stack.segElfSize = 0) (h : (L.seg fp.segType).Contains a)
    (h₀ : (L.seg fp.segType).Contains va) (hp : pageFrame a = pageFrame va)
    (hz : ∀ o < pageSize, ram (f * pageSize + o) = 0) :
    LoadPlan.loadRam v ram (fp.plan L va f) (f * pageSize + pageOffset a) =
      L.imageByte v.byte fp.segType a := by
  unfold FaultPage.plan Layout.imageByte
  by_cases hin : fp.segType ≠ .stack ∧ va < roundup32 (L.seg fp.segType).elfEnd
  · rw [if_pos hin]
    have hbyte := Segment.loadPlan_byte (hw.seg _) h h₀ hp hin.2
    dsimp only at hbyte
    simp only [LoadPlan.loadRam, moveBytes]
    split_ifs at hbyte with hr
    · obtain ⟨hlt, hoff⟩ := hbyte
      rw [if_pos (by omega), if_pos hlt, ← hoff, Nat.add_sub_add_left]
    · rw [if_neg (by omega), if_neg hbyte, hz _ (pageOffset_lt a)]
  · rw [if_neg hin]
    refine (hz _ (pageOffset_lt a)).trans (if_neg ?_).symm
    by_cases hs : fp.segType = .stack
    · rw [hs, Layout.seg, hstack]
      exact Nat.not_lt_zero _
    · exact Segment.not_lt_elfSize (hw.seg _) h₀ hp fun hlt => hin ⟨hs, hlt⟩

theorem Proc.Built.stack_elfSize {pr : Proc} (h : pr.Built L) : L.stack.segElfSize = 0 := by
  obtain ⟨-, t, d, -, -, -, -, -, rfl⟩ := h
  rfl

theorem FaultAt.toAt (h : FaultAt k L fp va) : k.At fp.p fp.proc L fp.segType va :=
  ⟨h.proc, h.built, Layout.contains_of_segType h.segType⟩

/-- No other page is in the frame that a fault was granted. -/
theorem Granted.not_inFrame {e₀ e : PtPtr} (hg : Granted k.Live k 1 (some e₀) f k')
    (hk : k.Owned (.quiet k.Live)) (hl : k.Live e) (he : e ≠ e₀) : ¬(k'.pt e).InFrame f := by
  intro hf
  have ho := (hg.owned hk Nat.one_pos fun _ => rfl).frames.resident e f hl hf
  exact he (Option.some.inj (ho.2.2.2.symm.trans hg.owner_self))

theorem Resolved.holds {mem : ℕ → ℕ → UInt8} (hr : Resolved L fp va k k')
    (hk : k.Owned (.quiet k.Live)) (hat : FaultAt k L fp va) (h : k.Holds mem) : k'.Holds mem := by
  have hc := hat.toAt.contains
  cases hr with
  | reload => exact h.congr rfl rfl rfl rfl
  | @loaded f k₁ stats hst hgr =>
    have hno := PtEntry.not_inFrame_of_notLoaded hst
    refine (hgr.holds hk h).fill rfl rfl (fun e hl he => ?_) (fun f' o hf' ho => ?_) rfl ?_
    · exact hgr.not_inFrame hk (by simpa only [Kernel.Live, hgr.procs] using hl) he
    · exact loadRam_ne hf' ho
    · intro p pr L' ty a h₁ he
      have hst₁ : (k₁.pt ⟨p, L'.indexIn ty a⟩).ptStatus = .notLoaded := by
        rw [he, hgr.pt_eq hno, hst]
      obtain ⟨rfl, rfl, rfl, rfl, hp⟩ :=
        (h₁.of_procs hgr.procs).unique hat.toAt (he.trans hat.ptRow)
      rw [Kernel.byteAt_notLoaded hst₁]
      exact ⟨rfl, loadRam_image hat.built.wf hat.built.stack_elfSize h₁.contains hc hp
        fun o ho => hgr.ram_zero ho⟩
  | @fetched f s k₁ bm stats hslot hgr =>
    refine (hgr.holds hk h).fill rfl rfl (fun e hl he => ?_) (fun f' o hf' ho => ?_) rfl ?_
    · exact hgr.not_inFrame hk (by simpa only [Kernel.Live, hgr.procs] using hl) he
    · exact moveBytes_page_ne (n := 1) ho (by omega)
    · intro p pr L' ty a h₁ he
      have hslot₁ : (k₁.pt ⟨p, L'.indexIn ty a⟩).InSlot s := by
        rw [he, hgr.pt_eq hslot.not_inFrame]
        exact hslot
      obtain ⟨rfl, rfl, rfl, rfl, hp⟩ :=
        (h₁.of_procs hgr.procs).unique hat.toAt (he.trans hat.ptRow)
      rw [Kernel.byteAt_inSlot hslot₁]
      exact ⟨rfl, moveBytes_page_self (pageOffset_lt a)⟩

end Resolved

end OS161

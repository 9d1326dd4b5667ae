import OS161.Concurrent
import OS161.Exact

/-!
# Transfers under way

While threads sleep, the records of ownership agree up to what the sleeping threads are
doing : a frame that is written to swap is locked and its slot is marked, and a frame that a
page is read into from swap has its owner in the coremap but not yet in the page table.
`Matches` ties these transfers (`Ghost`) to the threads, `Kernel.TaskOk` says what a
sleeping thread will find when it goes on, and `InFlight` is the invariant made of both and
of the agreement of the records.

A thread that runs keeps the invariant, up to the frame it was just granted (`Got`), as long
as no frame is taken from a page that is being read in. Two conditions on the other threads
are needed for that : the victim of an eviction is not being read in (`Reading`), and an
address space is destroyed only when none of its pages is on its way to swap.
-/

namespace OS161

open Function

variable {g : Ghost} {cm : Coremap} {pt : PtPtr → PtEntry} {f : ℕ}

/-! ## Threads and transfers -/

/-- The entry a sleeping thread will come back to. -/
def Sleep.row : Sleep → Option PtPtr
  | .swapOut req _ _ => req.ptentry
  | .load fp _ _ => some fp.ptRow
  | .swapIn fp _ _ _ => some fp.ptRow

/-- What is between two owners while a thread sleeps : a frame that is written to a slot, or
a frame that a page is read into from swap. -/
inductive Transfer
  | out (f s : ℕ)
  | limbo (f : ℕ)

/-- The frame of a transfer. -/
def Transfer.frame : Transfer → ℕ
  | .out f _ => f
  | .limbo f => f

/-- The transfer a thread waits for. -/
def Sleep.transfer : Sleep → Option Transfer
  | .swapOut _ victim swapIndex => some (.out victim swapIndex)
  | .load _ _ _ => none
  | .swapIn _ _ paddr _ => some (.limbo (paddr / pageSize))

/-- The transfers of the threads. -/
def transfers (sleep : ℕ → Option Sleep) (t : ℕ) : Option Transfer :=
  (sleep t).bind Sleep.transfer

theorem transfers_update (sleep : ℕ → Option Sleep) (t : ℕ) (w : Option Sleep) :
    transfers (update sleep t w) =
      update (transfers sleep) t (w.bind Sleep.transfer) := by
  funext t'
  by_cases h : t' = t
  · subst h
    simp [transfers]
  · simp [transfers, h]

/-- The transfers in the ghost state are those of the threads, each of its own frame. -/
structure Matches (g : Ghost) (tr : ℕ → Option Transfer) : Prop where
  out : ∀ f s, g.out f = some s ↔ ∃ t, tr t = some (.out f s)
  limbo : ∀ f, g.limbo f ↔ ∃ t, tr t = some (.limbo f)
  inj : ∀ t t' x y, tr t = some x → tr t' = some y → x.frame = y.frame → t = t'

namespace Matches

variable {g g' : Ghost} {tr : ℕ → Option Transfer} {t f s : ℕ}

/-- Thread `t` ends its transfer, if it has one, and begins `x`. -/
theorem succ (h : Matches g tr) {x : Option Transfer}
    (hout : ∀ f s, g'.out f = some s ↔ x = some (.out f s) ∨
      g.out f = some s ∧ tr t ≠ some (.out f s))
    (hlimbo : ∀ f, g'.limbo f ↔ x = some (.limbo f) ∨ g.limbo f ∧ tr t ≠ some (.limbo f))
    (hinj : ∀ y t' z, x = some y → t' ≠ t → tr t' = some z → z.frame ≠ y.frame) :
    Matches g' (update tr t x) := by
  -- A transfer is that of thread `t`, or of another thread.
  have hcases : ∀ y, (∃ t', update tr t x t' = some y) ↔
      x = some y ∨ (∃ t', tr t' = some y) ∧ tr t ≠ some y := by
    intro y
    constructor
    · rintro ⟨t', ht'⟩
      by_cases htt : t' = t
      · subst htt
        exact Or.inl (by rwa [update_self] at ht')
      · rw [update_of_ne htt] at ht'
        exact Or.inr ⟨⟨t', ht'⟩, fun hy => htt (h.inj _ _ _ _ ht' hy rfl)⟩
    · rintro (rfl | ⟨⟨t', ht'⟩, hne⟩)
      · exact ⟨t, update_self ..⟩
      · have htt : t' ≠ t := by
          rintro rfl
          exact hne ht'
        exact ⟨t', by rwa [update_of_ne htt]⟩
  refine ⟨fun f s => ?_, fun f => ?_, fun t₁ t₂ y z hy hz hyz => ?_⟩
  · rw [hout, hcases, h.out]
  · rw [hlimbo, hcases, h.limbo]
  · by_cases h1 : t₁ = t <;> by_cases h2 : t₂ = t
    · rw [h1, h2]
    · rw [h1, update_self] at hy
      rw [update_of_ne h2] at hz
      exact absurd hyz.symm (hinj y t₂ z hy h2 hz)
    · rw [h2, update_self] at hz
      rw [update_of_ne h1] at hy
      exact absurd hyz (hinj z t₁ y hz h1 hy)
    · rw [update_of_ne h1] at hy
      rw [update_of_ne h2] at hz
      exact h.inj t₁ t₂ y z hy hz hyz

/-- A frame that is in no transfer. -/
theorem ne_frame (h : Matches g tr) (ho : g.out f = none) (hl : ¬g.limbo f) {z : Transfer}
    (hz : tr t = some z) : z.frame ≠ f := by
  rintro rfl
  cases z with
  | out f s => cases ho.symm.trans ((h.out f s).mpr ⟨t, hz⟩)
  | limbo f => exact hl ((h.limbo f).mpr ⟨t, hz⟩)

theorem idle (h : Matches g tr) (ht : tr t = none) : Matches g (update tr t none) := by
  rw [← ht, update_eq_self]
  exact h

/-- A thread starts to write frame `f` to slot `s`. -/
theorem startOut (h : Matches g tr) (ht : tr t = none) (ho : g.out f = none) (hl : ¬g.limbo f) :
    Matches (g.setOut f (some s)) (update tr t (some (.out f s))) := by
  refine h.succ (fun f' s' => ?_) (fun f' => by simp [Ghost.setOut, ht]) ?_
  · by_cases hf : f' = f
    · subst hf
      simp [Ghost.setOut, ht, ho]
    · simp [Ghost.setOut, ht, hf, Ne.symm hf]
  · rintro y t' z hy - hz
    cases hy
    exact h.ne_frame ho hl hz

/-- A thread starts to read its page from swap into frame `f`. -/
theorem startIn {e : PtPtr} (h : Matches g tr) (ht : tr t = none) (ho : g.out f = none)
    (hl : ¬g.limbo f) : Matches (g.grant f (some e)) (update tr t (some (.limbo f))) := by
  refine h.succ (fun f' s' => by simp [Ghost.grant, ht]) (fun f' => ?_) ?_
  · by_cases hf : f' = f
    · subst hf
      simp [Ghost.grant]
    · simp [Ghost.grant, ht, hf, Ne.symm hf]
  · rintro y t' z hy - hz
    cases hy
    exact h.ne_frame ho hl hz

/-- Frame `f` is written. -/
theorem endOut (h : Matches g tr) (ht : tr t = some (.out f s)) :
    Matches (g.setOut f none) (update tr t none) := by
  refine h.succ (fun f' s' => ?_) (fun f' => by simp [Ghost.setOut, ht]) (by simp)
  by_cases hf : f' = f
  · subst hf
    have := (h.out f' s).mpr ⟨t, ht⟩
    simp [Ghost.setOut, ht, this]
  · simp [Ghost.setOut, ht, hf, Ne.symm hf]

/-- The page of frame `f` is read. -/
theorem endIn (h : Matches g tr) (ht : tr t = some (.limbo f)) :
    Matches (g.fill f) (update tr t none) := by
  refine h.succ (fun f' s' => by simp [Ghost.fill, ht]) (fun f' => ?_) (by simp)
  by_cases hf : f' = f
  · subst hf
    simp [Ghost.fill, ht]
  · simp [Ghost.fill, ht, hf, Ne.symm hf]

end Matches

/-! ## What a sleeping thread finds -/

/-- Process `fp.p` has a fault at `va`, for the page `fp`. -/
def Kernel.Faulting (k : Kernel) (L : Layout) (fp : FaultPage) (va : ℕ) : Prop :=
  FaultAt { k with curproc := some fp.p } L fp va

/-- What thread `t` relies on when it asks for a frame : the page it is for is not in memory. -/
def Kernel.RequestOk (k : Kernel) (t : ℕ) : Request → Prop
  | .kernel => True
  | .page fp va swapped => fp.p = t ∧ (∃ L, k.Faulting L fp va) ∧
      (k.pt fp.ptRow).ptStatus = if swapped then .inSwap else .notLoaded

/-- What thread `t` relies on while it sleeps. The page it reads from the file has its frame, which
is not on its way to swap; the frame it reads into from swap is its own. -/
def Kernel.TaskOk (k : Kernel) (g : Ghost) (t : ℕ) : Sleep → Prop
  | .swapOut req _ _ => k.RequestOk t req
  | .load fp va plan => fp.p = t ∧ ∃ L f, k.Faulting L fp va ∧ (k.pt fp.ptRow).InFrame f ∧
      g.out f = none ∧ fp.plan L va f = some plan
  | .swapIn fp va paddr s => fp.p = t ∧ ∃ L f, k.Faulting L fp va ∧ paddr = f * pageSize ∧
      (k.pt fp.ptRow).InSlot s ∧ k.coremap.owner f = some fp.ptRow

/-- The invariant of the concurrent system : the records agree up to the transfers of the
threads that sleep, and those find what they rely on. -/
structure InFlight (g : Ghost) (k : Kernel) (sleep : ℕ → Option Sleep) : Prop where
  owned : k.Owned g
  live : g.live = k.Live
  procs : k.ProcsOk
  marks : Matches g (transfers sleep)
  tasks : ∀ t w, sleep t = some w → k.TaskOk g t w

/-- A sleeping thread reads a page into frame `f`. -/
def Reading (sleep : ℕ → Option Sleep) (f : ℕ) : Prop :=
  ∃ t fp va, (∃ plan, sleep t = some (.load fp va plan) ∧ plan.target / pageSize = f) ∨
    ∃ paddr s, sleep t = some (.swapIn fp va paddr s) ∧ paddr / pageSize = f

section Tasks

variable {g g' : Ghost} {k k' : Kernel} {sleep : ℕ → Option Sleep} {t f : ℕ} {w : Sleep}
  {L : Layout} {fp : FaultPage} {va : ℕ} {e : PtPtr}

theorem Kernel.Faulting.congr (h : k.Faulting L fp va)
    (hp : k'.procs fp.p = k.procs fp.p) : k'.Faulting L fp va :=
  ⟨rfl, hp.trans h.proc, h.built, h.segType, h.ptRow⟩

theorem Kernel.Faulting.live (h : k.Faulting L fp va) :
    k.Live fp.ptRow :=
  FaultAt.live (k := { k with curproc := some fp.p }) h

theorem Kernel.RequestOk.congr {req : Request} (h : k.RequestOk t req)
    (hp : k'.procs t = k.procs t) (hpt : ∀ e, req.ptentry = some e → k'.pt e = k.pt e) :
    k'.RequestOk t req := by
  match req, h with
  | .kernel, _ => trivial
  | .page fp va swapped, ⟨hfp, ⟨L, hL⟩, hst⟩ =>
    subst hfp
    exact ⟨rfl, ⟨L, hL.congr hp⟩, by rw [hpt _ rfl, hst]⟩

theorem Kernel.RequestOk.not_inFrame {req : Request} (h : k.RequestOk t req)
    (he : req.ptentry = some e) : ¬(k.pt e).InFrame f := by
  match req, h, he with
  | .page fp va swapped, ⟨_, _, hst⟩, he =>
    cases he
    rintro ⟨hf | hf, -⟩ <;> rw [hst] at hf <;> split_ifs at hf

/-- A thread still finds what it relies on if its entry and its frame stay. -/
theorem Kernel.TaskOk.congr (h : k.TaskOk g t w) (hp : k'.procs t = k.procs t)
    (hpt : ∀ e, w.row = some e → k'.pt e = k.pt e)
    (hout : ∀ e f, w.row = some e → (k.pt e).InFrame f → g.out f = none → g'.out f = none)
    (howner : ∀ f, w.transfer = some (.limbo f) → k'.coremap.owner f = k.coremap.owner f) :
    k'.TaskOk g' t w := by
  match w, h with
  | .swapOut req _ _, h => exact RequestOk.congr h hp hpt
  | .load fp va plan, ⟨hfp, L, f, hL, hf, ho, hplan⟩ =>
    subst hfp
    exact ⟨rfl, L, f, hL.congr hp, by rwa [hpt _ rfl], hout _ f rfl hf ho, hplan⟩
  | .swapIn fp va paddr s, ⟨hfp, L, f, hL, hpa, hs, hown⟩ =>
    subst hfp hpa
    refine ⟨rfl, L, f, hL.congr hp, rfl, by rwa [hpt _ rfl], ?_⟩
    rwa [howner f (by rw [Sleep.transfer, mul_pageSize_div])]

theorem Kernel.TaskOk.row_asid (h : k.TaskOk g t w) (hrow : w.row = some e) :
    e.asid = t := by
  match w, h, hrow with
  | .swapOut (.page fp va swapped) _ _, ⟨hfp, ⟨L, hL⟩, _⟩, hrow =>
    cases hrow
    rw [hL.ptRow, hfp]
  | .load fp va plan, ⟨hfp, L, f', hL, _⟩, hrow =>
    cases hrow
    rw [hL.ptRow, hfp]
  | .swapIn fp va paddr s, ⟨hfp, L, f', hL, _⟩, hrow =>
    cases hrow
    rw [hL.ptRow, hfp]

/-- The frame of a page that is read from the file is the one the read goes to. -/
theorem plan_target {plan : LoadPlan}
    (hp : fp.plan L va f = some plan) : plan.target / pageSize = f := by
  unfold FaultPage.plan at hp
  split_ifs at hp
  cases hp
  exact mul_pageSize_add_div (Segment.loadPlan_target_lt _ _)

theorem InFlight.live_of_row (h : InFlight g k sleep) (ht : sleep t = some w)
    (hrow : w.row = some e) : g.live e := by
  rw [h.live]
  have htask := h.tasks t w ht
  match w, htask, hrow with
  | .swapOut (.page fp va swapped) _ _, ⟨_, ⟨L, hL⟩, _⟩, hrow =>
    cases hrow
    exact hL.live
  | .load fp va plan, ⟨_, L, f', hL, _⟩, hrow =>
    cases hrow
    exact hL.live
  | .swapIn fp va paddr s, ⟨_, L, f', hL, _⟩, hrow =>
    cases hrow
    exact hL.live

/-- The entry of a page that is in a frame no thread reads into is not the entry of a thread
that sleeps. -/
theorem InFlight.row_ne (h : InFlight g k sleep) {e' : PtPtr} (ht : sleep t = some w)
    (hrow : w.row = some e') (hf : (k.pt e).InFrame f) (hr : ¬Reading sleep f) : e' ≠ e := by
  rintro rfl
  have htask := h.tasks t w ht
  match w, htask, hrow with
  | .swapOut req _ _, hreq, hrow => exact Kernel.RequestOk.not_inFrame hreq hrow hf
  | .load fp va plan, ⟨_, L, f', _, hf', _, hplan⟩, hrow =>
    cases hrow
    obtain rfl := hf'.unique hf
    exact hr ⟨t, fp, va, Or.inl ⟨plan, ht, plan_target hplan⟩⟩
  | .swapIn fp va paddr s, ⟨_, _, _, _, _, hs, _⟩, hrow =>
    cases hrow
    exact hs.not_inFrame f hf

end Tasks

/-! ## Getting a frame -/

/-- A thread that runs was granted frame `b`, which is in no transfer, for the entry `e` or
for the kernel. -/
structure Got (g : Ghost) (k : Kernel) (sleep : ℕ → Option Sleep) (b : ℕ) (e : Option PtPtr) :
    Prop where
  owned : k.Owned (g.grant b e)
  live : g.live = k.Live
  procs : k.ProcsOk
  marks : Matches g (transfers sleep)
  tasks : ∀ t w, sleep t = some w → k.TaskOk g t w
  lt : b < k.coremap.nRamFrames
  owner : k.coremap.owner b = e
  out : g.out b = none
  limbo : ¬g.limbo b

theorem FrameOwn.not_out_of_free
    (h : FrameOwn g cm pt) (hu : cm.used f = false) : g.out f = none := by
  cases ho : g.out f with
  | none => rfl
  | some s =>
    obtain ⟨e, hl, hf⟩ := h.out f s ho
    have := (h.resident e f hl hf).2.1
    rw [hu] at this
    cases this

theorem FrameOwn.used_of_locked
    (h : FrameOwn g cm pt) (hf : f < cm.nRamFrames) (hl : cm.locked f = true) :
    cm.used f = true := by
  by_contra hu
  rw [h.locked f hf, h.not_out_of_free (by simpa using hu)] at hl
  cases hl

theorem FrameOwn.not_limbo_of_resident
    {e : PtPtr} (h : FrameOwn g cm pt) (hl : g.live e) (hf : (pt e).InFrame f) : ¬g.limbo f :=
  fun hlim => (h.limbo f hlim).2.2 e hl hf

namespace InFlight

variable {g : Ghost} {k k' : Kernel} {sleep : ℕ → Option Sleep} {t b f s n : ℕ} {e : PtPtr}
  {e₀ : Option PtPtr} {req : Request}

/-- The bytes of memory and swap, the TLB, the counters and the running process take no
part. -/
theorem congr (h : InFlight g k sleep) (hcm : k'.coremap = k.coremap) (hpt : k'.pt = k.pt)
    (hs : k'.swap.swapmap = k.swap.swapmap) (hp : k'.procs = k.procs) : InFlight g k' sleep := by
  refine ⟨⟨?_, ?_⟩, ?_, ?_, h.marks, fun t w ht => ?_⟩
  · rw [hcm, hpt]
    exact h.owned.frames
  · rw [hpt, hs]
    exact h.owned.slots
  · rw [h.live]
    funext e
    simp only [Kernel.Live, hp]
  · intro p pr hpr
    rw [hp] at hpr
    exact h.procs p pr hpr
  · exact (h.tasks t w ht).congr (by rw [hp]) (fun _ _ => by rw [hpt]) (fun _ _ _ _ => id)
      fun _ _ => by rw [hcm]

/-- The frame of a page that is read into from swap is in limbo. -/
theorem limbo_of_task {w : Sleep} (h : InFlight g k sleep) (ht : sleep t = some w)
    (hw : w.transfer = some (.limbo f)) : g.limbo f :=
  (h.marks.limbo f).mpr ⟨t, by rw [transfers, ht, Option.bind_some, hw]⟩

/-- A frame in limbo is read into by a thread. -/
theorem reading_of_limbo (h : InFlight g k sleep) (hl : g.limbo f) : Reading sleep f := by
  obtain ⟨t, ht⟩ := (h.marks.limbo f).mp hl
  obtain ⟨w, hw, hx⟩ := Option.bind_eq_some_iff.mp ht
  cases w with
  | swapOut req f' s => cases hx
  | load fp va plan => cases hx
  | swapIn fp va paddr s =>
    cases hx
    exact ⟨t, fp, va, Or.inr ⟨paddr, s, hw, rfl⟩⟩

/-- A frame that is written to swap is written by a thread. -/
theorem swapOut_of_out (h : InFlight g k sleep) (ho : g.out f = some s) :
    ∃ t req, sleep t = some (.swapOut req f s) := by
  obtain ⟨t, ht⟩ := (h.marks.out f s).mp ho
  obtain ⟨w, hw, hx⟩ := Option.bind_eq_some_iff.mp ht
  cases w with
  | swapOut req f' s =>
    cases hx
    exact ⟨t, req, hw⟩
  | load fp va plan => cases hx
  | swapIn fp va paddr s => cases hx

/-- The frame a thread writes to swap is locked. -/
theorem locked_of_swapOut (h : InFlight g k sleep)
    (ht : sleep t = some (.swapOut req f s)) : g.out f = some s ∧ k.coremap.locked f = true := by
  have ho : g.out f = some s := (h.marks.out f s).mpr ⟨t, by rw [transfers, ht]; rfl⟩
  obtain ⟨e, hl, hf⟩ := h.owned.frames.out f s ho
  refine ⟨ho, ?_⟩
  rw [h.owned.frames.locked f (h.owned.frames.resident e f hl hf).1, ho]
  rfl

/-- Two threads write different frames to swap. -/
theorem swapOut_inj {t' s' : ℕ} {req' : Request} (h : InFlight g k sleep)
    (ht : sleep t = some (.swapOut req f s)) (ht' : sleep t' = some (.swapOut req' f s')) :
    t = t' := by
  refine h.marks.inj t t' (.out f s) (.out f s') ?_ ?_ rfl
  · rw [transfers, ht]
    rfl
  · rw [transfers, ht']
    rfl

/-- A thread that runs gets free frames. -/
theorem take_free (h : InFlight g k sleep) (hrun : k.coremap.FreeRun n b) (hn : 0 < n)
    (he : e₀.isSome → n = 1) : Got g (k.take b n e₀) sleep b e₀ := by
  have hfree := hrun.2 b le_rfl (by omega)
  refine ⟨h.owned.take_free hrun hn he, h.live, h.procs, h.marks, fun t w ht => ?_, ?_, ?_,
    h.owned.frames.not_out_of_free hfree, h.owned.frames.not_limbo_of_free hfree⟩
  · refine (h.tasks t w ht).congr rfl (fun _ _ => rfl) (fun _ _ _ _ => id) fun f hf => ?_
    obtain ⟨⟨e, ho⟩, -⟩ := h.owned.frames.limbo f (h.limbo_of_task ht hf)
    have hout : ¬(b ≤ f ∧ f < b + n) := by
      rintro ⟨h1, h2⟩
      have := ho.2.1
      rw [hrun.2 f h1 h2] at this
      cases this
    rw [Kernel.take, Coremap.owner_mark, if_neg hout]
  · have := hrun.1
    change b < k.coremap.nRamFrames
    omega
  · rw [Kernel.take, Coremap.owner_mark, if_pos (by omega)]

/-- A thread that runs gets the frame of a read-only page. -/
theorem take_discarded (h : InFlight g k sleep) (hv : Victim g k f e) (hr : ¬Reading sleep f) :
    Got g ((k.discard f e).take f 1 e₀) sleep f e₀ := by
  have hlim := h.owned.frames.not_limbo_of_resident hv.live hv.inFrame
  have hd := (h.owned.discard hv.live hv.inFrame hv.out).take_limbo (e := e₀) (Ghost.limbo_evict ..)
  rw [Ghost.grant_evict] at hd
  refine ⟨hd, h.live, h.procs, h.marks, fun t w ht => ?_, ?_, ?_, hv.out, hlim⟩
  · refine (h.tasks t w ht).congr rfl (fun e' he' => ?_) (fun _ _ _ _ => id) fun f' hf' => ?_
    · exact update_of_ne (h.row_ne ht he' hv.inFrame hr) _ _
    · have hne : f' ≠ f := by
        rintro rfl
        exact hlim (h.limbo_of_task ht hf')
      rw [Kernel.take, Coremap.owner_mark, if_neg (by omega)]
      rfl
  · exact (h.owned.frames.resident e f hv.live hv.inFrame).1
  · rw [Kernel.take, Coremap.owner_mark, if_pos (by omega)]

/-- A frame that is written to swap is read into by no thread. -/
theorem not_reading_of_out (h : InFlight g k sleep) (ho : g.out f = some s) : ¬Reading sleep f := by
  rintro ⟨t, fp, va, ⟨plan, ht, hp⟩ | ⟨paddr, s', ht, hp⟩⟩
  · obtain ⟨-, L, f', -, -, hnone, hplan⟩ := h.tasks t _ ht
    obtain rfl : f' = f := by rw [← plan_target hplan, hp]
    rw [ho] at hnone
    cases hnone
  · have hlim := h.limbo_of_task (f := f) ht (by rw [Sleep.transfer, hp])
    rw [(h.owned.frames.limbo f hlim).2.1] at ho
    cases ho

/-- A thread that wrote a frame to swap gets it. -/
theorem take_written (h : InFlight g k sleep)
    (ht : sleep t = some (.swapOut req f s)) (e₀ : Option PtPtr) :
    ∃ e, g.live e ∧ (k.pt e).InFrame f ∧ k.coremap.owner f = some e ∧ s < swapfileNpages ∧
      Got (g.setOut f none) ((k.finishOut f s e).take f 1 e₀) (update sleep t none) f e₀ := by
  have htr : transfers sleep t = some (.out f s) := by
    rw [transfers, ht]
    rfl
  have ho := (h.locked_of_swapOut ht).1
  obtain ⟨e, hl, hf⟩ := h.owned.frames.out f s ho
  have hown := h.owned.frames.resident e f hl hf
  have hlim := h.owned.frames.not_limbo_of_resident hl hf
  have hr := h.not_reading_of_out ho
  have hd := (h.owned.finishOut hl hf ho).take_limbo (e := e₀) (Ghost.limbo_evict _ _)
  rw [Ghost.grant_evict] at hd
  have hmarks := h.marks.endOut htr
  refine ⟨e, hl, hf, hown.2.2.2, h.owned.slots.lt (.frame f) s ho, hd, h.live, h.procs, ?_, ?_,
    hown.1, ?_, Ghost.out_setOut _ _ _, hlim⟩
  · rwa [transfers_update]
  · intro t' w hw
    have htt : t' ≠ t := by
      rintro rfl
      rw [update_self] at hw
      cases hw
    rw [update_of_ne htt] at hw
    refine (h.tasks t' w hw).congr rfl (fun e' he' => ?_) (fun e' f' _ _ hn => ?_) fun f' hf' => ?_
    · exact update_of_ne (h.row_ne hw he' hf hr) _ _
    · by_cases hff : f' = f
      · subst hff
        exact Ghost.out_setOut _ _ _
      · rwa [Ghost.out_setOut_of_ne _ hff]
    · have hne : f' ≠ f := by
        rintro rfl
        exact hlim (h.limbo_of_task hw hf')
      rw [Kernel.take, Coremap.owner_mark, if_neg (by omega), Kernel.finishOut,
        Coremap.owner_setLock]
  · rw [Kernel.take, Coremap.owner_mark, if_pos (by omega)]

/-- A thread that runs starts to write the frame of a page to swap. -/
theorem startOut {bm : Bitmap} (h : InFlight g k sleep) (ht : sleep t = none)
    (hv : Victim g k f e) (hr : ¬Reading sleep f)
    (hbm : AllocPost k.swap.swapmap (some (s, bm)))
    (hreq : (k.startOut f s bm).TaskOk (g.setOut f (some s)) t (.swapOut req f s)) :
    InFlight (g.setOut f (some s)) (k.startOut f s bm)
      (update sleep t (some (.swapOut req f s))) := by
  have htr : transfers sleep t = none := by
    rw [transfers, ht]
    rfl
  have hlim := h.owned.frames.not_limbo_of_resident hv.live hv.inFrame
  refine ⟨h.owned.startOut hv.live hv.inFrame hv.out hbm, h.live, h.procs, ?_, fun t' w hw => ?_⟩
  · rw [transfers_update]
    exact h.marks.startOut htr hv.out hlim
  · by_cases htt : t' = t
    · subst htt
      rw [update_self] at hw
      cases hw
      exact hreq
    · rw [update_of_ne htt] at hw
      refine (h.tasks t' w hw).congr rfl (fun _ _ => rfl) (fun e' f' he' hf' hn => ?_)
        fun f' _ => ?_
      · have hff : f' ≠ f := by
          rintro rfl
          exact h.row_ne hw he' hv.inFrame hr
            (h.owned.frames.resident_inj (h.live_of_row hw he') hv.live hf' hv.inFrame)
        rwa [Ghost.out_setOut_of_ne _ hff]
      · rw [Kernel.startOut, Coremap.owner_setLock]
        rfl

end InFlight

/-! ## Using the frame -/

namespace Got

variable {g : Ghost} {k : Kernel} {sleep : ℕ → Option Sleep} {t b s : ℕ} {L : Layout}
  {fp : FaultPage} {va : ℕ}

/-- The kernel keeps its frame. -/
theorem kernel (h : Got g k sleep b none) : InFlight g k sleep := by
  have ho := h.owned
  rw [Ghost.grant_none _ h.limbo] at ho
  exact ⟨ho, h.live, h.procs, h.marks, h.tasks⟩

/-- The threads that sleep have other entries than the thread that runs. -/
theorem tasks_update (h : Got g k sleep b (some fp.ptRow)) (hp : fp.p = t)
    (hL : k.Faulting L fp va) {t' : ℕ} {w : Sleep} (htt : t' ≠ t) (hw : sleep t' = some w)
    (x : PtEntry) {k' : Kernel} (hpt : k'.pt = update k.pt fp.ptRow x)
    (hcm : k'.coremap = k.coremap) (hprocs : k'.procs = k.procs) : k'.TaskOk g t' w := by
  refine (h.tasks t' w hw).congr (by rw [hprocs]) (fun e he => ?_) (fun _ _ _ _ => id)
    fun _ _ => by rw [hcm]
  rw [hpt]
  refine update_of_ne ?_ _ _
  rintro rfl
  have := (h.tasks t' w hw).row_asid he
  rw [hL.ptRow, hp] at this
  exact htt this.symm

/-- The entry of a page that was not loaded is set, and the thread goes on or reads the
page from the file. -/
theorem load (h : Got g k sleep b (some fp.ptRow)) (ht : sleep t = none) (hp : fp.p = t)
    (hL : k.Faulting L fp va) (hst : (k.pt fp.ptRow).ptStatus = .notLoaded)
    {w : Option Sleep} (hw : ∀ x, w = some x → ∃ plan, x = .load fp va plan ∧
      fp.plan L va b = some plan) (stats : Vmstat → ℕ) :
    InFlight g { k with
      pt := update k.pt fp.ptRow ⟨b, 0, fp.segType.resident⟩
      vmstats := stats } (update sleep t w) := by
  have hx := fp.segType.resident_inFrame b 0
  have hlive : g.live fp.ptRow := h.live ▸ hL.live
  have hfill := h.owned.frames.fill hlive (Ghost.limbo_grant _ _ _) h.owner
    (PtEntry.not_inFrame_of_notLoaded hst) hx
  rw [Ghost.fill_grant _ h.limbo] at hfill
  have hslots := h.owned.slots.setRow (e := fp.ptRow) (PtEntry.not_inSlot_of_notLoaded hst)
    hx.not_inSlot
  refine ⟨⟨hfill, ⟨hslots.wf, hslots.nbits, hslots.lt, hslots.marked, hslots.unique⟩⟩, h.live,
    h.procs, ?_, fun t' w' hw' => ?_⟩
  · have htr : w.bind Sleep.transfer = none := by
      cases w with
      | none => rfl
      | some x =>
        obtain ⟨plan, rfl, -⟩ := hw x rfl
        rfl
    rw [transfers_update, htr]
    exact h.marks.idle (by rw [transfers, ht]; rfl)
  · by_cases htt : t' = t
    · subst htt
      rw [update_self] at hw'
      obtain ⟨plan, rfl, hplan⟩ := hw w' hw'
      refine ⟨hp, L, b, hL.congr rfl, ?_, h.out, hplan⟩
      simpa only [update_self] using hx
    · rw [update_of_ne htt] at hw'
      exact h.tasks_update hp hL htt hw' _ rfl rfl rfl

/-- A page is to be read from swap. -/
theorem swapIn (h : Got g k sleep b (some fp.ptRow)) (ht : sleep t = none) (hp : fp.p = t)
    (hL : k.Faulting L fp va) (hs : (k.pt fp.ptRow).InSlot s) :
    InFlight (g.grant b (some fp.ptRow)) k
      (update sleep t (some (.swapIn fp va (b * pageSize) s))) := by
  refine ⟨h.owned, h.live, h.procs, ?_, fun t' w' hw' => ?_⟩
  · have htr : (some (Sleep.swapIn fp va (b * pageSize) s)).bind Sleep.transfer =
        some (.limbo b) := by
      rw [Option.bind_some, Sleep.transfer, mul_pageSize_div]
    rw [transfers_update, htr]
    exact h.marks.startIn (by rw [transfers, ht]; rfl) h.out h.limbo
  · by_cases htt : t' = t
    · subst htt
      rw [update_self] at hw'
      cases hw'
      exact ⟨hp, L, b, hL, rfl, hs, h.owner⟩
    · rw [update_of_ne htt] at hw'
      exact (h.tasks t' w' hw').congr rfl (fun _ _ => rfl) (fun _ _ _ _ => id) fun _ _ => rfl

end Got

/-! ## Waking up -/

namespace InFlight

variable {g : Ghost} {k : Kernel} {sleep : ℕ → Option Sleep} {t s va paddr : ℕ} {fp : FaultPage}

/-- The page is read from the file : the thread goes on with its frame. -/
theorem loaded {plan : LoadPlan} (h : InFlight g k sleep) (ht : sleep t = some (.load fp va plan)) :
    InFlight g k (update sleep t none) := by
  refine ⟨h.owned, h.live, h.procs, ?_, fun t' w hw => ?_⟩
  · rw [transfers_update]
    exact h.marks.idle (by rw [transfers, ht]; rfl)
  · by_cases htt : t' = t
    · subst htt
      rw [update_self] at hw
      cases hw
    · rw [update_of_ne htt] at hw
      exact h.tasks t' w hw

/-- The page is read from swap : its entry is set and its slot is free. -/
theorem fetched (h : InFlight g k sleep) (ht : sleep t = some (.swapIn fp va paddr s)) :
    ∃ f, paddr = f * pageSize ∧ f < k.coremap.nRamFrames ∧ s < swapfileNpages ∧
      k.swap.swapmap.Marked s ∧
      ∀ (bm : Bitmap) (ram : ℕ → UInt8), bm.nbits = k.swap.swapmap.nbits → bm.WF →
        (∀ i, bm.Marked i ↔ k.swap.swapmap.Marked i ∧ i ≠ s) →
        InFlight (g.fill f) { k with
          pt := update k.pt fp.ptRow ⟨f, 0, fp.segType.resident⟩
          ram := ram
          swap := { k.swap with swapmap := bm } } (update sleep t none) := by
  obtain ⟨hp, L, f, hL, rfl, hs, hown⟩ := h.tasks t _ ht
  have htr : transfers sleep t = some (.limbo f) := by
    rw [transfers, ht, Option.bind_some, Sleep.transfer, mul_pageSize_div]
  have hlim := (h.marks.limbo f).mpr ⟨t, htr⟩
  have hlive : g.live fp.ptRow := h.live ▸ hL.live
  obtain ⟨hlt, hm⟩ := h.owned.slots.marked_of_inSlot hlive hs
  obtain ⟨⟨e, howned⟩, -⟩ := h.owned.frames.limbo f hlim
  refine ⟨f, rfl, howned.1, hlt, hm, fun bm ram hn hwf hbm => ?_⟩
  have hx := fp.segType.resident_inFrame f 0
  have hfill := h.owned.frames.fill hlive hlim hown hs.not_inFrame hx
  have hslots := h.owned.slots.fetch (e := fp.ptRow) hlive hs hx.not_inSlot hwf hn hbm
  refine ⟨⟨hfill, ⟨hslots.wf, hslots.nbits, hslots.lt, hslots.marked, hslots.unique⟩⟩, h.live,
    h.procs, ?_, fun t' w hw => ?_⟩
  · rw [transfers_update]
    exact h.marks.endIn htr
  · by_cases htt : t' = t
    · subst htt
      rw [update_self] at hw
      cases hw
    · rw [update_of_ne htt] at hw
      refine (h.tasks t' w hw).congr rfl (fun e' he' => ?_) (fun _ _ _ _ => id) fun _ _ => rfl
      refine update_of_ne ?_ _ _
      rintro rfl
      have := (h.tasks t' w hw).row_asid he'
      rw [hL.ptRow, hp] at this
      exact htt this.symm

end InFlight

end OS161

import OS161.Fault

/-!
# Who owns a frame and who owns a swap slot

The page tables, the back pointers of the coremap and the swap bitmap record the same
thing three times : where a page is. `FrameOwn` says that the page tables and the coremap
agree, `SlotOwn` that the page tables and the swap bitmap do. Both are stated for a set
`live` of page-table entries, and with room for the transfers that are under way while a
fault sleeps or a function is in the middle of its work (`Ghost`) : a frame that is being
written to a swap slot is locked and its slot is already marked, and a frame in `limbo`
has been taken from its owner, or was given to a new one, without a page-table entry that
says so. Between operations of the sequential system nothing is under way.

For each thing the kernel does to a frame or a slot there is one lemma : granting frames
(`FrameOwn.grant_free`, `FrameOwn.grant_limbo`), locking and unlocking, evicting a page
(`FrameOwn.evict`), filling it (`FrameOwn.fill`), and freeing the frame of an entry that is
going away (`FrameOwn.drop`) or a block of the kernel (`FrameOwn.release`).
-/

namespace OS161

open Function

/-! ## Definitions -/

/-- The page is in memory, in frame `f`. -/
def PtEntry.InFrame (x : PtEntry) (f : ℕ) : Prop :=
  (x.ptStatus = .inMemory ∨ x.ptStatus = .inMemoryRdonly) ∧ x.ptFrameIndex = f

instance (x : PtEntry) (f : ℕ) : Decidable (x.InFrame f) :=
  inferInstanceAs (Decidable (_ ∧ _))

/-- The page is in swap slot `s`. -/
def PtEntry.InSlot (x : PtEntry) (s : ℕ) : Prop :=
  x.ptStatus = .inSwap ∧ x.ptSwapIndex = s

instance (x : PtEntry) (s : ℕ) : Decidable (x.InSlot s) :=
  inferInstanceAs (Decidable (_ ∧ _))

/-- The coremap attributes frame `f` to the entry `e`. -/
def Coremap.OwnedBy (cm : Coremap) (f : ℕ) (e : PtPtr) : Prop :=
  f < cm.nRamFrames ∧ cm.used f = true ∧ cm.size f = 1 ∧ cm.owner f = some e

/-- The entries that count, the swap-outs under way (frame and slot) and the frames
between two owners. -/
structure Ghost where
  live : PtPtr → Prop
  out : ℕ → Option ℕ
  limbo : ℕ → Prop

/-- Nothing is under way. -/
def Ghost.quiet (live : PtPtr → Prop) : Ghost :=
  ⟨live, fun _ => none, fun _ => False⟩

/-- The page tables and the coremap agree. -/
structure FrameOwn (g : Ghost) (cm : Coremap) (pt : PtPtr → PtEntry) : Prop where
  wf : cm.WF
  zero : cm.owner 0 = none ∧ (0 < cm.nRamFrames → cm.used 0 = true)
  resident : ∀ e f, g.live e → (pt e).InFrame f → cm.OwnedBy f e
  owned : ∀ f e, f < cm.nRamFrames → cm.used f = true → cm.owner f = some e →
    cm.size f = 1 ∧ (g.limbo f ∨ g.live e ∧ (pt e).InFrame f)
  limbo : ∀ f, g.limbo f → (∃ e, cm.OwnedBy f e) ∧ g.out f = none ∧
    ∀ e, g.live e → ¬(pt e).InFrame f
  locked : ∀ f < cm.nRamFrames, cm.locked f = (g.out f).isSome
  out : ∀ f s, g.out f = some s → ∃ e, g.live e ∧ (pt e).InFrame f

/-- What a swap slot can belong to : a page, or a frame that is being written. -/
inductive Holder
  | page (e : PtPtr)
  | frame (f : ℕ)

/-- Who holds a slot. -/
def Holder.Holds (g : Ghost) (pt : PtPtr → PtEntry) : Holder → ℕ → Prop
  | .page e, s => g.live e ∧ (pt e).InSlot s
  | .frame f, s => g.out f = some s

/-- The page tables and the swap bitmap agree. -/
structure SlotOwn (g : Ghost) (pt : PtPtr → PtEntry) (bm : Bitmap) : Prop where
  wf : bm.WF
  nbits : bm.nbits = swapfileNpages
  lt : ∀ x s, Holder.Holds g pt x s → s < swapfileNpages
  marked : ∀ s < swapfileNpages, bm.Marked s ↔ ∃ x, Holder.Holds g pt x s
  unique : ∀ x y s, Holder.Holds g pt x s → Holder.Holds g pt y s → x = y

namespace Coremap.OwnedBy

variable {cm : Coremap} {b f n : ℕ} {e : PtPtr}

/-- Marking a block leaves the frames outside it to their owners. -/
theorem mark {e' : Option PtPtr} (h : cm.OwnedBy f e) (hn : 0 < n)
    (hout : ¬(b ≤ f ∧ f < b + n)) : (cm.mark b n e').OwnedBy f e := by
  obtain ⟨h1, h2, h3, h4⟩ := h
  refine ⟨h1, ?_, ?_, ?_⟩
  · rw [used_mark, if_neg hout, h2]
  · rw [size_mark, if_neg (by omega), h3]
  · rw [owner_mark, if_neg hout, h4]

theorem mark_self (hf : f < cm.nRamFrames) : (cm.mark f 1 (some e)).OwnedBy f e := by
  have hin : f ≤ f ∧ f < f + 1 := by omega
  refine ⟨hf, ?_, ?_, ?_⟩
  · rw [used_mark, if_pos hin]
  · rw [size_mark, if_pos rfl]
    rfl
  · rw [owner_mark, if_pos hin]

theorem setLock {g : ℕ} {l : Bool} (h : cm.OwnedBy f e) : (cm.setLock g l).OwnedBy f e := by
  obtain ⟨h1, h2, h3, h4⟩ := h
  exact ⟨h1, by rwa [used_setLock], by rwa [size_setLock], by rwa [owner_setLock]⟩

/-- Releasing another block leaves a frame to its owner. -/
theorem release {h : ℕ} (ho : cm.OwnedBy f e) (hw : cm.WF) (hh : h < cm.nRamFrames)
    (hne : h ≠ f) : (cm.release h).OwnedBy f e := by
  obtain ⟨h1, h2, h3, h4⟩ := ho
  have hout : ¬(h ≤ f ∧ f < h + cm.size h) := by
    rintro ⟨h5, h6⟩
    have := (hw.tiled.inner h hh f (by omega) h6).2
    omega
  refine ⟨h1, ?_, ?_, ?_⟩
  · rw [used_release, if_neg hout, h2]
  · rw [size_release, if_neg hne.symm, h3]
  · rw [owner_release, h4]

end Coremap.OwnedBy

/-! ## Transfers -/

namespace Ghost

variable (g : Ghost) {f : ℕ}

/-- Frame `b` goes to the entry `e`, or to the kernel. -/
def grant (b : ℕ) (e : Option PtPtr) : Ghost :=
  { g with limbo := fun f => if f = b then e.isSome = true else g.limbo f }

/-- Frame `f` is being written to slot `s`, or no longer. -/
def setOut (f : ℕ) (s : Option ℕ) : Ghost :=
  { g with out := update g.out f s }

/-- Frame `f` is taken from its page. -/
def evict (f : ℕ) : Ghost :=
  { g with limbo := fun f' => if f' = f then True else g.limbo f' }

/-- The page of frame `f` has its entry set. -/
def fill (f : ℕ) : Ghost :=
  { g with limbo := fun f' => if f' = f then False else g.limbo f' }

/-- The entry `e` goes away. -/
def drop (e : PtPtr) : Ghost :=
  { g with live := fun e' => g.live e' ∧ e' ≠ e }

theorem limbo_evict (f : ℕ) : (g.evict f).limbo f := by
  simp [evict]

theorem limbo_grant (f : ℕ) (e : PtPtr) : (g.grant f (some e)).limbo f := by
  simp [grant]

theorem out_setOut (f : ℕ) (s : Option ℕ) : (g.setOut f s).out f = s := by
  simp [setOut]

theorem out_setOut_of_ne {f' : ℕ} (h : f' ≠ f) (s : Option ℕ) :
    (g.setOut f s).out f' = g.out f' := by
  simp [setOut, h]

/-- Taking a frame from its page and granting it is granting it. -/
@[simp] theorem grant_evict (f : ℕ) (e : Option PtPtr) : (g.evict f).grant f e = g.grant f e := by
  unfold grant evict
  congr 1
  funext f'
  by_cases h : f' = f <;> simp [h]

@[simp] theorem setOut_setOut (f : ℕ) (s t : Option ℕ) :
    (g.setOut f s).setOut f t = g.setOut f t := by
  simp [setOut]

theorem setOut_eq_self (h : g.out f = none) : g.setOut f none = g := by
  simp [setOut, ← h]

/-- The frame of the kernel is in no transfer. -/
theorem grant_none (h : ¬g.limbo f) : g.grant f none = g := by
  unfold grant
  congr 1
  funext f'
  by_cases hf : f' = f <;> simp [hf, h]

/-- A frame that goes to a page and whose entry is then set is in no transfer. -/
theorem fill_grant (h : ¬g.limbo f) (e : Option PtPtr) : (g.grant f e).fill f = g := by
  unfold grant fill
  congr 1
  funext f'
  by_cases hf : f' = f <;> simp [hf, h]

end Ghost

/-! ## Frames -/

section Pt

variable {x : PtEntry} {f f' : ℕ}

theorem PtEntry.InFrame.unique (h : x.InFrame f) (h' : x.InFrame f') : f = f' :=
  h.2.symm.trans h'.2

theorem PtEntry.InFrame.not_inSlot (h : x.InFrame f) (s : ℕ) : ¬x.InSlot s := by
  rintro ⟨hs, -⟩
  rcases h.1 with h' | h' <;> rw [hs] at h' <;> cases h'

theorem PtEntry.InSlot.not_inFrame {s : ℕ} (h : x.InSlot s) (f : ℕ) : ¬x.InFrame f :=
  fun hf => hf.not_inSlot s h

theorem PtEntry.not_inFrame_of_notLoaded (h : x.ptStatus = .notLoaded) (f : ℕ) :
    ¬x.InFrame f := by
  rintro ⟨hf | hf, -⟩ <;> rw [h] at hf <;> cases hf

theorem PtEntry.not_inSlot_of_notLoaded (h : x.ptStatus = .notLoaded) (s : ℕ) : ¬x.InSlot s := by
  rintro ⟨hs, -⟩
  rw [h] at hs
  cases hs

end Pt

namespace FrameOwn

variable {g : Ghost} {cm : Coremap} {pt : PtPtr → PtEntry} {b f n : ℕ} {e : PtPtr}
  {x : PtEntry}

/-- No frame belongs to two entries. -/
theorem resident_inj (h : FrameOwn g cm pt) {e' : PtPtr} (hl : g.live e) (hl' : g.live e')
    (hf : (pt e).InFrame f) (hf' : (pt e').InFrame f) : e = e' := by
  have h1 := (h.resident e f hl hf).2.2.2
  have h2 := (h.resident e' f hl' hf').2.2.2
  exact Option.some.inj (h1.symm.trans h2)

/-- The frame of a page is not frame `0`. -/
theorem resident_ne_zero (h : FrameOwn g cm pt) (hl : g.live e) (hf : (pt e).InFrame f) :
    f ≠ 0 := by
  rintro rfl
  have := (h.resident e 0 hl hf).2.2.2
  rw [h.zero.1] at this
  cases this

theorem limbo_ne_zero (h : FrameOwn g cm pt) (hf : g.limbo f) : f ≠ 0 := by
  rintro rfl
  obtain ⟨⟨e, -, -, -, he⟩, -⟩ := h.limbo 0 hf
  rw [h.zero.1] at he
  cases he

/-- A free frame takes part in no transfer and belongs to no page. -/
theorem not_limbo_of_free (h : FrameOwn g cm pt) (hu : cm.used f = false) : ¬g.limbo f := by
  intro hl
  obtain ⟨⟨e, -, he, -⟩, -⟩ := h.limbo f hl
  rw [hu] at he
  cases he

/-- The victim search of a full coremap meets no failed assertion. -/
theorem swappable (h : FrameOwn g cm pt) (hfull : ∀ f < cm.nRamFrames, cm.used f = true) (f : ℕ)
    (hf : cm.Swappable f) : cm.used f = true ∧ cm.size f = 1 := by
  obtain ⟨hlt, ho, -⟩ := hf
  obtain ⟨e, he⟩ := Option.isSome_iff_exists.mp ho
  exact ⟨hfull f hlt, (h.owned f e hlt (hfull f hlt) he).1⟩

/-- Free frames are granted. -/
theorem grant_free (h : FrameOwn g cm pt) {e : Option PtPtr} (hrun : cm.FreeRun n b) (hn : 0 < n)
    (he : e.isSome → n = 1) : FrameOwn (g.grant b e) (cm.mark b n e) pt := by
  obtain ⟨hb, hfree⟩ := hrun
  have hout : ∀ f, cm.used f = true → ¬(b ≤ f ∧ f < b + n) := by
    rintro f hu ⟨h1, h2⟩
    rw [hfree f h1 h2] at hu
    cases hu
  have hout0 : ¬(b ≤ 0 ∧ 0 < b + n) := hout 0 (h.zero.2 (by omega))
  have hown : ∀ f e', cm.OwnedBy f e' → (cm.mark b n e).OwnedBy f e' := fun f e' ho =>
    ho.mark hn (hout f ho.2.1)
  refine ⟨h.wf.mark_free hn hb hfree, ⟨?_, ?_⟩, ?_, ?_, ?_, ?_, h.out⟩
  · rw [Coremap.owner_mark, if_neg hout0, h.zero.1]
  · intro h0
    rw [Coremap.used_mark, if_neg hout0, h.zero.2 h0]
  · intro e' f hl hf
    exact hown f e' (h.resident e' f hl hf)
  · intro f e' hlt hu ho
    rw [Coremap.owner_mark] at ho
    rw [Coremap.used_mark] at hu
    by_cases hin : b ≤ f ∧ f < b + n
    · rw [if_pos hin] at ho
      subst ho
      obtain rfl := he rfl
      obtain rfl : f = b := by omega
      rw [Coremap.size_mark, if_pos rfl]
      exact ⟨rfl, Or.inl (by simp [Ghost.grant])⟩
    · rw [if_neg hin] at ho hu
      obtain ⟨hs, hor⟩ := h.owned f e' hlt hu ho
      have hfb : f ≠ b := by omega
      rw [Coremap.size_mark, if_neg hfb]
      exact ⟨hs, by simpa [Ghost.grant, hfb] using hor⟩
  · intro f hl
    by_cases hfb : f = b
    · subst hfb
      have hfu := hfree f le_rfl (by omega)
      obtain ⟨e', rfl⟩ : ∃ e', e = some e' := by
        simpa [Ghost.grant, Option.isSome_iff_exists] using hl
      obtain rfl := he rfl
      have hno : ∀ e'', g.live e'' → ¬(pt e'').InFrame f := by
        intro e'' hl'' hf''
        have := (h.resident e'' f hl'' hf'').2.1
        rw [hfu] at this
        cases this
      refine ⟨⟨e', .mark_self hb⟩, ?_, hno⟩
      cases ho : g.out f with
      | none => exact ho
      | some s =>
        obtain ⟨e'', hl'', hf''⟩ := h.out f s ho
        exact absurd hf'' (hno e'' hl'')
    · have hl' : g.limbo f := by simpa [Ghost.grant, hfb] using hl
      obtain ⟨⟨e', he'⟩, ho, hno⟩ := h.limbo f hl'
      exact ⟨⟨e', hown f e' he'⟩, ho, hno⟩
  · intro f hf
    rw [Coremap.locked_mark]
    exact h.locked f hf

/-- A frame between two owners is granted. -/
theorem grant_limbo (h : FrameOwn g cm pt) {e : Option PtPtr} (hl : g.limbo f) :
    FrameOwn (g.grant f e) (cm.mark f 1 e) pt := by
  obtain ⟨⟨e₀, hlt, hu, hs, ho⟩, hout, hno⟩ := h.limbo f hl
  have h0 := h.limbo_ne_zero hl
  have hother : ∀ f' e', f' ≠ f → cm.OwnedBy f' e' → (cm.mark f 1 e).OwnedBy f' e' :=
    fun f' e' hne ho' => ho'.mark Nat.one_pos (by omega)
  refine ⟨h.wf.mark_one hu hs, ⟨?_, ?_⟩, ?_, ?_, ?_, ?_, h.out⟩
  · rw [Coremap.owner_mark, if_neg (by omega), h.zero.1]
  · intro hn
    rw [Coremap.used_mark, if_neg (by omega), h.zero.2 hn]
  · intro e' f' hl' hf'
    refine hother f' e' ?_ (h.resident e' f' hl' hf')
    rintro rfl
    exact hno e' hl' hf'
  · intro f' e' hlt' hu' ho'
    by_cases hne : f' = f
    · subst hne
      rw [Coremap.owner_mark, if_pos (by omega)] at ho'
      rw [Coremap.size_mark, if_pos rfl]
      exact ⟨rfl, Or.inl (by simp [Ghost.grant, ho'])⟩
    · rw [Coremap.owner_mark, if_neg (by omega)] at ho'
      rw [Coremap.used_mark, if_neg (by omega)] at hu'
      simpa [Ghost.grant, hne] using h.owned f' e' hlt' hu' ho'
  · intro f' hl'
    by_cases hne : f' = f
    · subst hne
      obtain ⟨e', rfl⟩ : ∃ e', e = some e' := by
        simpa [Ghost.grant, Option.isSome_iff_exists] using hl'
      exact ⟨⟨e', .mark_self hlt⟩, hout, hno⟩
    · have hl'' : g.limbo f' := by simpa [Ghost.grant, hne] using hl'
      obtain ⟨⟨e', he'⟩, ho', hno'⟩ := h.limbo f' hl''
      exact ⟨⟨e', hother f' e' hne he'⟩, ho', hno'⟩
  · intro f' hf'
    rw [Coremap.locked_mark]
    exact h.locked f' hf'

/-- A frame whose page is in memory is locked, to be written to a slot, or unlocked. -/
theorem setLock (h : FrameOwn g cm pt) (o : Option ℕ)
    (ho : o.isSome → ∃ e, g.live e ∧ (pt e).InFrame f) :
    FrameOwn (g.setOut f o) (cm.setLock f o.isSome) pt := by
  refine ⟨h.wf.setLock, ⟨?_, ?_⟩, ?_, ?_, ?_, ?_, ?_⟩
  · rw [Coremap.owner_setLock, h.zero.1]
  · rw [Coremap.used_setLock]
    exact h.zero.2
  · intro e' f' hl' hf'
    exact (h.resident e' f' hl' hf').setLock
  · intro f' e' hlt hu ho'
    rw [Coremap.used_setLock] at hu
    rw [Coremap.owner_setLock] at ho'
    rw [Coremap.size_setLock]
    exact h.owned f' e' hlt hu ho'
  · intro f' hl'
    obtain ⟨⟨e', hown⟩, hout, hno⟩ := h.limbo f' hl'
    refine ⟨⟨e', hown.setLock⟩, ?_, hno⟩
    by_cases hne : f' = f
    · subst hne
      cases o with
      | none => simp [Ghost.setOut]
      | some s =>
        obtain ⟨e, hl, hf⟩ := ho rfl
        exact absurd hf (hno e hl)
    · simpa [Ghost.setOut, hne] using hout
  · intro f' hlt
    by_cases hne : f' = f
    · simp [Ghost.setOut, hne]
    · simpa [Ghost.setOut, hne] using h.locked f' hlt
  · intro f' s hout
    by_cases hne : f' = f
    · subst hne
      exact ho (by simpa [Ghost.setOut] using congrArg Option.isSome hout)
    · exact h.out f' s (by simpa [Ghost.setOut, hne] using hout)

/-- The page of a frame that is not locked gets an entry that is not in memory. -/
theorem evict (h : FrameOwn g cm pt) (hl : g.live e) (hf : (pt e).InFrame f)
    (hout : g.out f = none) (hx : ∀ f', ¬x.InFrame f') :
    FrameOwn (g.evict f) cm (update pt e x) := by
  have hkeep : ∀ e' f', (update pt e x e').InFrame f' → e' ≠ e ∧ (pt e').InFrame f' := by
    intro e' f' hf'
    by_cases hne : e' = e
    · subst hne
      rw [update_self] at hf'
      exact absurd hf' (hx f')
    · rw [update_of_ne hne] at hf'
      exact ⟨hne, hf'⟩
  refine ⟨h.wf, h.zero, ?_, ?_, ?_, h.locked, ?_⟩
  · intro e' f' hl' hf'
    exact h.resident e' f' hl' (hkeep e' f' hf').2
  · intro f' e' hlt hu ho
    obtain ⟨hs, hor⟩ := h.owned f' e' hlt hu ho
    refine ⟨hs, ?_⟩
    by_cases hff : f' = f
    · exact Or.inl (by simp [Ghost.evict, hff])
    · rcases hor with hlim | ⟨hl', hf'⟩
      · exact Or.inl (by simpa [Ghost.evict, hff] using hlim)
      · have hne : e' ≠ e := by
          rintro rfl
          exact hff (hf'.unique hf)
        exact Or.inr ⟨hl', by rwa [update_of_ne hne]⟩
  · intro f' hl'
    by_cases hff : f' = f
    · subst hff
      refine ⟨⟨e, h.resident e f' hl hf⟩, hout, fun e' hle hf' => ?_⟩
      obtain ⟨hne, hf''⟩ := hkeep e' f' hf'
      exact hne (h.resident_inj hle hl hf'' hf)
    · obtain ⟨hown, ho, hno⟩ := h.limbo f' (by simpa [Ghost.evict, hff] using hl')
      exact ⟨hown, ho, fun e' hle hf' => hno e' hle (hkeep e' f' hf').2⟩
  · intro f' s hs
    obtain ⟨e', hl', hf'⟩ := h.out f' s hs
    have hne : e' ≠ e := by
      rintro rfl
      obtain rfl := hf'.unique hf
      have := hout.symm.trans hs
      cases this
    exact ⟨e', hl', by rwa [update_of_ne hne]⟩

/-- The entry a frame was granted to says so. -/
theorem fill (h : FrameOwn g cm pt) (hl : g.live e) (hlim : g.limbo f)
    (hown : cm.owner f = some e) (hpt : ∀ f', ¬(pt e).InFrame f') (hx : x.InFrame f) :
    FrameOwn (g.fill f) cm (update pt e x) := by
  obtain ⟨⟨e₀, h1, h2, h3, h4⟩, hout, hno⟩ := h.limbo f hlim
  refine ⟨h.wf, h.zero, ?_, ?_, ?_, h.locked, ?_⟩
  · intro e' f' hl' hf'
    by_cases hne : e' = e
    · subst hne
      rw [update_self] at hf'
      obtain rfl := hx.unique hf'
      exact ⟨h1, h2, h3, hown⟩
    · rw [update_of_ne hne] at hf'
      exact h.resident e' f' hl' hf'
  · intro f' e' hlt hu ho
    obtain ⟨hs, hor⟩ := h.owned f' e' hlt hu ho
    refine ⟨hs, ?_⟩
    by_cases hff : f' = f
    · subst hff
      obtain rfl := Option.some.inj (hown.symm.trans ho)
      exact Or.inr ⟨hl, by rwa [update_self]⟩
    · rcases hor with hlim' | ⟨hl', hf'⟩
      · exact Or.inl (by simpa [Ghost.fill, hff] using hlim')
      · have hne : e' ≠ e := by
          rintro rfl
          exact hpt f' hf'
        exact Or.inr ⟨hl', by rwa [update_of_ne hne]⟩
  · intro f' hl'
    by_cases hff : f' = f
    · simp [Ghost.fill, hff] at hl'
    · obtain ⟨hown', ho, hno'⟩ := h.limbo f' (by simpa [Ghost.fill, hff] using hl')
      refine ⟨hown', ho, fun e' hle hf' => ?_⟩
      by_cases hne : e' = e
      · subst hne
        rw [update_self] at hf'
        exact hff (hf'.unique hx)
      · rw [update_of_ne hne] at hf'
        exact hno' e' hle hf'
  · intro f' s hs
    obtain ⟨e', hl', hf'⟩ := h.out f' s hs
    have hne : e' ≠ e := by
      rintro rfl
      exact hpt f' hf'
    exact ⟨e', hl', by rwa [update_of_ne hne]⟩

/-- An entry whose page is not in memory goes away. -/
theorem drop_absent (h : FrameOwn g cm pt) (hpt : ∀ f, ¬(pt e).InFrame f) :
    FrameOwn (g.drop e) cm pt := by
  refine ⟨h.wf, h.zero, fun e' f hl hf => h.resident e' f hl.1 hf, ?_, ?_, h.locked, ?_⟩
  · intro f e' hlt hu ho
    obtain ⟨hs, hor⟩ := h.owned f e' hlt hu ho
    refine ⟨hs, hor.imp id fun ⟨hl, hf⟩ => ⟨⟨hl, ?_⟩, hf⟩⟩
    rintro rfl
    exact hpt f hf
  · intro f hlim
    obtain ⟨hown, ho, hno⟩ := h.limbo f hlim
    exact ⟨hown, ho, fun e' hl => hno e' hl.1⟩
  · intro f s hs
    obtain ⟨e', hl, hf⟩ := h.out f s hs
    refine ⟨e', ⟨hl, ?_⟩, hf⟩
    rintro rfl
    exact hpt f hf

/-- An entry goes away, and its frame, if it is not locked, is freed. -/
theorem drop (h : FrameOwn g cm pt) (hl : g.live e) (hf : (pt e).InFrame f)
    (hout : g.out f = none) : FrameOwn (g.drop e) (cm.release f) pt := by
  obtain ⟨h1, h2, h3, h4⟩ := h.resident e f hl hf
  have h0 := h.resident_ne_zero hl hf
  have hown : ∀ f' e', f' ≠ f → cm.OwnedBy f' e' → (cm.release f).OwnedBy f' e' :=
    fun f' e' hne ho => ho.release h.wf h1 hne.symm
  refine ⟨h.wf.release h1, ⟨h.zero.1, ?_⟩, ?_, ?_, ?_, h.locked, ?_⟩
  · intro hn
    rw [Coremap.used_release, if_neg (by omega)]
    exact h.zero.2 hn
  · rintro e' f' ⟨hl', hne⟩ hf'
    refine hown f' e' ?_ (h.resident e' f' hl' hf')
    rintro rfl
    exact hne (h.resident_inj hl' hl hf' hf)
  · intro f' e' hlt hu ho
    rw [Coremap.used_release] at hu
    have hff : f' ≠ f := by
      rintro rfl
      rw [if_pos (by omega)] at hu
      cases hu
    rw [if_neg (by omega)] at hu
    obtain ⟨hs, hor⟩ := h.owned f' e' hlt hu ho
    rw [Coremap.size_release, if_neg hff]
    refine ⟨hs, hor.imp id fun ⟨hl', hf'⟩ => ⟨⟨hl', ?_⟩, hf'⟩⟩
    rintro rfl
    exact hff (hf'.unique hf)
  · intro f' hlim
    obtain ⟨⟨e', ho⟩, hout', hno⟩ := h.limbo f' hlim
    have hff : f' ≠ f := by
      rintro rfl
      exact hno e hl hf
    exact ⟨⟨e', hown f' e' hff ho⟩, hout', fun e' hl' => hno e' hl'.1⟩
  · intro f' s hs
    obtain ⟨e', hl', hf'⟩ := h.out f' s hs
    refine ⟨e', ⟨hl', ?_⟩, hf'⟩
    rintro rfl
    obtain rfl := hf'.unique hf
    cases hout.symm.trans hs

/-- A block of the kernel is freed. -/
theorem release (h : FrameOwn g cm pt) (hf : f < cm.nRamFrames) (h0 : f ≠ 0)
    (hown : cm.owner f = none) : FrameOwn g (cm.release f) pt := by
  have hkeep : ∀ f' e', cm.OwnedBy f' e' → (cm.release f).OwnedBy f' e' := by
    intro f' e' ho
    refine ho.release h.wf hf ?_
    rintro rfl
    have := ho.2.2.2
    rw [hown] at this
    cases this
  refine ⟨h.wf.release hf, ⟨h.zero.1, ?_⟩, ?_, ?_, ?_, h.locked, h.out⟩
  · intro hn
    rw [Coremap.used_release, if_neg (by omega)]
    exact h.zero.2 hn
  · intro e f' hl hf'
    exact hkeep f' e (h.resident e f' hl hf')
  · intro f' e hlt hu ho
    rw [Coremap.used_release] at hu
    split_ifs at hu with hin
    obtain ⟨hs, hor⟩ := h.owned f' e hlt hu ho
    have hff : f' ≠ f := by
      rintro rfl
      rw [Coremap.owner_release, hown] at ho
      cases ho
    rw [Coremap.size_release, if_neg hff]
    exact ⟨hs, hor⟩
  · intro f' hlim
    obtain ⟨⟨e, ho⟩, hrest⟩ := h.limbo f' hlim
    exact ⟨⟨e, hkeep f' e ho⟩, hrest⟩

/-- New entries, of pages that are not loaded, count. -/
theorem revive (h : FrameOwn g cm pt) {live : PtPtr → Prop} {pt' : PtPtr → PtEntry}
    (hold : ∀ e, g.live e → live e ∧ pt' e = pt e)
    (hnew : ∀ e, live e → g.live e ∨ ∀ f, ¬(pt' e).InFrame f) :
    FrameOwn { g with live := live } cm pt' := by
  have hback : ∀ e f, live e → (pt' e).InFrame f → g.live e ∧ (pt e).InFrame f := by
    intro e f hl hf
    rcases hnew e hl with hl' | hno
    · rw [(hold e hl').2] at hf
      exact ⟨hl', hf⟩
    · exact absurd hf (hno f)
  have hforth : ∀ e f, g.live e → (pt e).InFrame f → live e ∧ (pt' e).InFrame f := by
    intro e f hl hf
    rw [(hold e hl).2]
    exact ⟨(hold e hl).1, hf⟩
  refine ⟨h.wf, h.zero, ?_, ?_, ?_, h.locked, ?_⟩
  · intro e f hl hf
    obtain ⟨hl', hf'⟩ := hback e f hl hf
    exact h.resident e f hl' hf'
  · intro f e hlt hu ho
    obtain ⟨hs, hor⟩ := h.owned f e hlt hu ho
    exact ⟨hs, hor.imp id fun ⟨hl, hf⟩ => hforth e f hl hf⟩
  · intro f hlim
    obtain ⟨hown, ho, hno⟩ := h.limbo f hlim
    refine ⟨hown, ho, fun e hl hf => ?_⟩
    obtain ⟨hl', hf'⟩ := hback e f hl hf
    exact hno e hl' hf'
  · intro f s hs
    obtain ⟨e, hl, hf⟩ := h.out f s hs
    exact ⟨e, hforth e f hl hf⟩

end FrameOwn

/-! ## Slots -/

namespace SlotOwn

variable {g : Ghost} {pt : PtPtr → PtEntry} {bm bm' : Bitmap} {e : PtPtr} {x : PtEntry} {f s : ℕ}
  {g' : Ghost} {pt' : PtPtr → PtEntry}

/-- The slot of a swapped page is marked. -/
theorem marked_of_inSlot (h : SlotOwn g pt bm) (hl : g.live e) (hs : (pt e).InSlot s) :
    s < swapfileNpages ∧ bm.Marked s := by
  have hx : Holder.Holds g pt (.page e) s := ⟨hl, hs⟩
  exact ⟨h.lt _ _ hx, (h.marked s (h.lt _ _ hx)).mpr ⟨_, hx⟩⟩

/-- The agreement carries over to a state whose slots have the same holders up to a
renaming of the holders. -/
theorem rename (h : SlotOwn g pt bm) (φ : Holder → Holder)
    (hinj : ∀ x y, φ x = φ y → x = y)
    (hφ : ∀ x s, Holder.Holds g' pt' x s ↔ Holder.Holds g pt (φ x) s)
    (hsurj : ∀ y s, Holder.Holds g pt y s → ∃ x, φ x = y) : SlotOwn g' pt' bm where
  wf := h.wf
  nbits := h.nbits
  lt x s hx := h.lt _ s ((hφ x s).mp hx)
  marked s hs := by
    rw [h.marked s hs]
    constructor
    · rintro ⟨y, hy⟩
      obtain ⟨x, rfl⟩ := hsurj y s hy
      exact ⟨x, (hφ x s).mpr hy⟩
    · rintro ⟨x, hx⟩
      exact ⟨φ x, (hφ x s).mp hx⟩
  unique x y s hx hy := hinj x y (h.unique _ _ s ((hφ x s).mp hx) ((hφ y s).mp hy))

/-- The agreement depends only on who holds what. -/
theorem congr (h : SlotOwn g pt bm)
    (hx : ∀ x s, Holder.Holds g' pt' x s ↔ Holder.Holds g pt x s) : SlotOwn g' pt' bm :=
  h.rename id (fun _ _ => id) hx fun y _ _ => ⟨y, rfl⟩

/-- An entry that is in no slot, before and after, may change. -/
theorem setRow (h : SlotOwn g pt bm) (hpt : ∀ s, ¬(pt e).InSlot s) (hx : ∀ s, ¬x.InSlot s) :
    SlotOwn g (update pt e x) bm := by
  refine h.congr fun y s => ?_
  cases y with
  | frame f => exact Iff.rfl
  | page e' =>
    by_cases hne : e' = e
    · subst hne
      simp [Holder.Holds, hpt, hx]
    · simp [Holder.Holds, hne]

/-- A new holder takes a slot that was not marked. -/
theorem take (h : SlotOwn g pt bm) (hout : g.out f = none) (hlt : s < swapfileNpages)
    (hnew : ¬bm.Marked s) (hwf : bm'.WF) (hn : bm'.nbits = bm.nbits)
    (hm : ∀ i, bm'.Marked i ↔ bm.Marked i ∨ i = s) : SlotOwn (g.setOut f (some s)) pt bm' := by
  have hholds : ∀ y i, Holder.Holds (g.setOut f (some s)) pt y i ↔
      Holder.Holds g pt y i ∨ y = .frame f ∧ i = s := by
    intro y i
    cases y with
    | page e => simp [Holder.Holds, Ghost.setOut]
    | frame f' =>
      by_cases hne : f' = f
      · subst hne
        simp [Holder.Holds, Ghost.setOut, hout, eq_comm]
      · simp [Holder.Holds, Ghost.setOut, hne]
  have hfree : ∀ y, ¬Holder.Holds g pt y s := fun y hy => hnew ((h.marked s hlt).mpr ⟨y, hy⟩)
  refine ⟨hwf, hn.trans h.nbits, ?_, ?_, ?_⟩
  · intro y i hy
    rcases (hholds y i).mp hy with hy | ⟨-, rfl⟩
    · exact h.lt y i hy
    · exact hlt
  · intro i hi
    rw [hm, h.marked i hi]
    constructor
    · rintro (⟨y, hy⟩ | rfl)
      · exact ⟨y, (hholds y i).mpr (Or.inl hy)⟩
      · exact ⟨.frame f, (hholds _ i).mpr (Or.inr ⟨rfl, rfl⟩)⟩
    · rintro ⟨y, hy⟩
      exact ((hholds y i).mp hy).imp (fun hy => ⟨y, hy⟩) And.right
  · intro y z i hy hz
    rcases (hholds y i).mp hy with hy' | ⟨rfl, rfl⟩ <;>
      rcases (hholds z _).mp hz with hz' | ⟨rfl, hi⟩
    · exact h.unique y z i hy' hz'
    · subst hi
      exact absurd hy' (hfree y)
    · exact absurd hz' (hfree z)
    · rfl

/-- The write of a frame to its slot is over : the page has the slot now. -/
theorem transfer (h : SlotOwn g pt bm) (hl : g.live e) (hpt : ∀ i, ¬(pt e).InSlot i)
    (hout : g.out f = some s) (hx : x.InSlot s) :
    SlotOwn (g.setOut f none) (update pt e x) bm := by
  have hxi : ∀ i, x.InSlot i ↔ s = i := fun i =>
    ⟨fun hi => hx.2.symm.trans hi.2, fun hi => hi ▸ hx⟩
  -- The holder of the slot was the frame and is the page.
  let φ : Holder → Holder
    | .page e' => if e' = e then .frame f else .page e'
    | .frame f' => if f' = f then .page e else .frame f'
  have hinv : ∀ y, φ (φ y) = y := by
    intro y
    cases y with
    | page e' =>
      by_cases hne : e' = e
      · simp [φ, hne]
      · simp [φ, hne]
    | frame f' =>
      by_cases hne : f' = f
      · simp [φ, hne]
      · simp [φ, hne]
  refine h.rename φ (fun y z hyz => by rw [← hinv y, hyz, hinv]) ?_ fun y _ _ => ⟨φ y, hinv y⟩
  intro y i
  cases y with
  | page e' =>
    by_cases hne : e' = e
    · subst hne
      simp [φ, Holder.Holds, Ghost.setOut, hl, hxi, hout]
    · simp [φ, Holder.Holds, Ghost.setOut, hne]
  | frame f' =>
    by_cases hne : f' = f
    · subst hne
      simp [φ, Holder.Holds, Ghost.setOut, hpt]
    · simp [φ, Holder.Holds, Ghost.setOut, hne]

/-- A holder gives its slot up. -/
theorem give {y : Holder} (h : SlotOwn g pt bm)
    (hy : Holder.Holds g pt y s)
    (hholds : ∀ z i, Holder.Holds g' pt' z i ↔ Holder.Holds g pt z i ∧ z ≠ y)
    (hwf : bm'.WF) (hn : bm'.nbits = bm.nbits) (hm : ∀ i, bm'.Marked i ↔ bm.Marked i ∧ i ≠ s) :
    SlotOwn g' pt' bm' := by
  refine ⟨hwf, hn.trans h.nbits, fun z i hz => h.lt z i ((hholds z i).mp hz).1, ?_, ?_⟩
  · intro i hi
    rw [hm, h.marked i hi]
    constructor
    · rintro ⟨⟨z, hz⟩, hne⟩
      refine ⟨z, (hholds z i).mpr ⟨hz, ?_⟩⟩
      rintro rfl
      -- A holder has only one slot.
      cases z with
      | page e => exact hne (hz.2.2.symm.trans hy.2.2)
      | frame f => exact hne (Option.some.inj (hz.symm.trans hy))
    · rintro ⟨z, hz⟩
      obtain ⟨hz', hne⟩ := (hholds z i).mp hz
      refine ⟨⟨z, hz'⟩, ?_⟩
      rintro rfl
      exact hne (h.unique z y i hz' hy)
  · intro z w i hz hw
    exact h.unique z w i ((hholds z i).mp hz).1 ((hholds w i).mp hw).1

/-- A swapped page is read back, and its slot is free. -/
theorem fetch (h : SlotOwn g pt bm) (hl : g.live e) (hpt : (pt e).InSlot s)
    (hx : ∀ i, ¬x.InSlot i) (hwf : bm'.WF) (hn : bm'.nbits = bm.nbits)
    (hm : ∀ i, bm'.Marked i ↔ bm.Marked i ∧ i ≠ s) :
    SlotOwn g (update pt e x) bm' := by
  refine h.give (y := .page e) ⟨hl, hpt⟩ ?_ hwf hn hm
  intro z i
  cases z with
  | frame f => simp [Holder.Holds]
  | page e' =>
    by_cases hne : e' = e
    · subst hne
      simp [Holder.Holds, hx]
    · simp [Holder.Holds, hne]

theorem drop (h : SlotOwn g pt bm) (hl : g.live e) (hpt : (pt e).InSlot s) (hwf : bm'.WF)
    (hn : bm'.nbits = bm.nbits) (hm : ∀ i, bm'.Marked i ↔ bm.Marked i ∧ i ≠ s) :
    SlotOwn (g.drop e) pt bm' := by
  refine h.give (y := .page e) ⟨hl, hpt⟩ ?_ hwf hn hm
  intro z i
  cases z with
  | frame f => simp [Holder.Holds, Ghost.drop]
  | page e' => simp [Holder.Holds, Ghost.drop, and_right_comm]

theorem drop_absent (h : SlotOwn g pt bm) (hpt : ∀ s, ¬(pt e).InSlot s) :
    SlotOwn (g.drop e) pt bm := by
  refine h.congr fun y s => ?_
  cases y with
  | frame f => exact Iff.rfl
  | page e' =>
    by_cases hne : e' = e
    · subst hne
      simp [Holder.Holds, Ghost.drop, hpt]
    · simp [Holder.Holds, Ghost.drop, hne]

theorem revive (h : SlotOwn g pt bm) {live : PtPtr → Prop}
    (hold : ∀ e, g.live e → live e ∧ pt' e = pt e)
    (hnew : ∀ e, live e → g.live e ∨ ∀ s, ¬(pt' e).InSlot s) :
    SlotOwn { g with live := live } pt' bm := by
  refine h.congr fun y s => ?_
  cases y with
  | frame f => exact Iff.rfl
  | page e =>
    constructor
    · rintro ⟨hl, hs⟩
      rcases hnew e hl with hl' | hno
      · exact ⟨hl', by rwa [(hold e hl').2] at hs⟩
      · exact absurd hs (hno s)
    · rintro ⟨hl, hs⟩
      exact ⟨(hold e hl).1, by rwa [(hold e hl).2]⟩

end SlotOwn

end OS161

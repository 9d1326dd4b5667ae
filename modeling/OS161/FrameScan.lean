import Mathlib.Data.List.ReduceOption
import OS161.Allocators
import OS161.Livelock

/-!
# Which frames the coremap hands out

`coremap_find_freeframes` jumps over each block by the size at its head. It still returns what
a scan frame by frame would (`findFreeframes_first_fit`), and it reads no other size.

`coremap_get_victim` goes around the frames from `victim_index`
(`coremapGetVictim_cases`). In a run of any number of threads that allocate and free, the
choices are turns of a round robin (`Allocators.run_turns`) : between two choices of a frame,
every other frame that could be chosen all the time was chosen, and if the frame itself could
be chosen all the time, exactly once (`victims_take_turns`). While a frame is locked the
others may come twice (`victim_twice_small`).
-/

namespace OS161

/-! ## The first fit -/

namespace Coremap

variable {cm : Coremap} {heads : Set ℕ} {npages : ℕ}

/-- The coremap with the sizes at other frames than `heads` cleared. -/
noncomputable def headsOnly (cm : Coremap) (heads : Set ℕ) : Coremap :=
  { cm with entry := fun f => { cm.entry f with cmSizeAlloc := headSize heads cm.size f } }

/-- The scan reads no size but those at the heads. -/
theorem findFreeframesLoop_headsOnly (c : BlockCover cm.nRamFrames cm.used cm.size heads) :
    ∀ (fuel stop : ℕ) (beginning : Option ℕ),
      Tiled.StartsAt cm.nRamFrames (headSize heads cm.size) stop →
      findFreeframesLoop (cm.headsOnly heads) npages fuel stop beginning =
        findFreeframesLoop cm npages fuel stop beginning
  | 0, _, _, _ => rfl
  | fuel + 1, stop, beginning, hstart => by
    have ih := findFreeframesLoop_headsOnly c fuel
    have hused : (cm.headsOnly heads).used stop = cm.used stop := rfl
    have hn : (cm.headsOnly heads).nRamFrames = cm.nRamFrames := rfl
    unfold findFreeframesLoop
    dsimp only
    rw [hused, hn]
    split_ifs with hlt hu hdone
    · -- Between two blocks, a frame in use is a head.
      have hpos := c.tiled.size_pos_of_startsAt hstart hlt hu
      rw [show (cm.headsOnly heads).size stop = cm.size stop from (BlockCover.headSize_pos hpos).2,
        ih]
      have hskip := c.tiled.startsAt_skip hstart hlt
      rwa [(BlockCover.headSize_pos hpos).2] at hskip
    · rfl
    · exact ih _ _ (c.tiled.startsAt_succ hstart hlt (by simpa using hu))
    · rfl

end Coremap

/-- `coremap_find_freeframes` ends and returns the first run of `npages` free frames, or `-1`
exactly if there is none. -/
theorem findFreeframes_first_fit {cm : Coremap} {heads : Set ℕ} {npages : ℕ}
    (c : BlockCover cm.nRamFrames cm.used cm.size heads) (hn : 1 ≤ npages) :
    ∃ r, coremapFindFreeframes cm npages = .ok r ∧
      (∀ b, r = some b ↔ IsLeast {b | cm.FreeRun npages b} b) ∧
      (r = none ↔ ∀ b, ¬cm.FreeRun npages b) := by
  have heq : coremapFindFreeframes (cm.headsOnly heads) npages =
      coremapFindFreeframes cm npages := by
    unfold coremapFindFreeframes
    rw [show (cm.headsOnly heads).nRamFrames = cm.nRamFrames from rfl,
      Coremap.findFreeframesLoop_headsOnly c _ _ _ Tiled.startsAt_zero]
  have ht : Tiled (cm.headsOnly heads).nRamFrames (cm.headsOnly heads).used
      (cm.headsOnly heads).size := c.tiled
  rcases coremapFindFreeframes_tiled ht hn with ⟨b, hb, hrun, hleast⟩ | ⟨hb, hnone⟩
  · refine ⟨some b, heq ▸ hb, fun b' => ⟨?_, fun h => ?_⟩, by simp, fun h => absurd hrun (h b)⟩
    · rintro ⟨⟩
      exact ⟨hrun, hleast⟩
    · exact congrArg some (le_antisymm (hleast b' h.1) (h.2 hrun))
  · exact ⟨none, heq ▸ hb, fun b => ⟨by simp, fun h => absurd h.1 (hnone b)⟩,
      fun _ => hnone, fun _ => rfl⟩

/-- Six frames : two reserved ones, a free one, a block of two, whose second frame still has
an old size, and a free one. -/
def Coremap.small : Coremap :=
  ((Coremap.initial 6 2).mark 3 2 none).setSize 4 7

theorem Coremap.small_cover :
    BlockCover Coremap.small.nRamFrames Coremap.small.used Coremap.small.size {0, 1, 3} := by
  refine ⟨?_, ?_, ?_, ?_⟩
  · simp [Coremap.small]
  · simp [Coremap.small]
  · intro f hf
    simp [Coremap.small]
    omega
  · simp [Coremap.small]

theorem findFreeframes_first_fit_small : ∃ r, coremapFindFreeframes .small 1 = .ok r ∧
    (∀ b, r = some b ↔ IsLeast {b | Coremap.small.FreeRun 1 b} b) ∧
    (r = none ↔ ∀ b, ¬Coremap.small.FreeRun 1 b) :=
  findFreeframes_first_fit Coremap.small_cover le_rfl

/-! ## Turns -/

/-- The eviction a step of a thread begins : the frames it could choose from, and the one it
chose. -/
def Allocators.eviction (s : Allocators) : AllocOp → Option Turn
  | .get _ npages _ =>
    match coremapFindFreeframes s.kernel.coremap npages, coremapGetVictim s.kernel.coremap with
    | .ok none, .ok (some f, _) => some ⟨s.kernel.coremap.eligible, f⟩
    | _, _ => none
  | _ => none

/-- A step of a thread, with the eviction it begins. -/
def Allocators.Evicts (s : Allocators) (ev : Option Turn) (s' : Allocators) : Prop :=
  ∃ op, s.Step op s' ∧ ev = s.eviction op

section Turns

variable {k : Kernel} {n : ℕ}

/-- `coremap_getppages` finds free frames and leaves `victim_index`, or it moves it to the
victim. -/
theorem coremapGetBegin_turn {e : Option PtPtr} {r : GetState × Kernel}
    (h : coremapGetBegin k n e = .ok r) : r.2.coremap.nRamFrames = k.coremap.nRamFrames ∧
    ((∃ b, coremapFindFreeframes k.coremap n = .ok (some b) ∧
      r.2.coremap.victimIndex = k.coremap.victimIndex) ∨
    coremapFindFreeframes k.coremap n = .ok none ∧ ∃ f, k.coremap.Picks f ∧
      r.2.coremap.victimIndex = f) := by
  obtain ⟨st, k'⟩ := r
  have hbegun := coremapGetBegin_coremap h
  cases st with
  | done b =>
    rcases hbegun with ⟨hfind, hcm⟩ | ⟨hfind, -, hpick, hcm⟩
    · exact ⟨by simp [hcm], Or.inl ⟨b, hfind, by simp [hcm]⟩⟩
    · exact ⟨by simp [hcm], Or.inr ⟨hfind, b, hpick, by simp [hcm]⟩⟩
  | writing f s =>
    obtain ⟨hfind, -, hpick, hcm⟩ := hbegun
    exact ⟨by simp [hcm], Or.inr ⟨hfind, f, hpick, by rw [hcm]; rfl⟩⟩

/-- Freeing frames leaves `victim_index`. -/
theorem coremapFreeLoop_cursor : ∀ (n f : ℕ) {cm cm' : Coremap},
    coremapFreeLoop n f cm = .ok cm' →
      cm'.nRamFrames = cm.nRamFrames ∧ cm'.victimIndex = cm.victimIndex
  | 0, _, _, _, h => by
    cases h
    exact ⟨rfl, rfl⟩
  | n + 1, f, _, _, h => by
    obtain ⟨_, -, h⟩ := bind_eq_ok.mp h
    have ih := coremapFreeLoop_cursor n (f + 1) h
    exact ih

theorem coremapFreeBegin_cursor {cm : Coremap} {addr : ℕ} {r : ℕ × ℕ × Coremap}
    (h : coremapFreeBegin cm addr = .ok r) :
    r.2.2.nRamFrames = cm.nRamFrames ∧ r.2.2.victimIndex = cm.victimIndex := by
  obtain ⟨_, -, h⟩ := bind_eq_ok.mp h
  obtain ⟨_, -, h⟩ := bind_eq_ok.mp h
  obtain ⟨_, -, h⟩ := bind_eq_ok.mp h
  cases h
  exact ⟨rfl, rfl⟩

end Turns

namespace Allocators

variable {s s' : Allocators} {op : AllocOp}

/-- A step of a thread moves `victim_index` only when it evicts a page, and then to the first
frame it may choose. -/
theorem step_turn (hv : s.kernel.coremap.victimIndex < s.kernel.coremap.nRamFrames)
    (h : s.Step op s') : s'.kernel.coremap.nRamFrames = s.kernel.coremap.nRamFrames ∧
      match s.eviction op with
      | none => s'.kernel.coremap.victimIndex = s.kernel.coremap.victimIndex
      | some x => x.eligible = s.kernel.coremap.eligible ∧
          s'.kernel.coremap.victimIndex = x.chosen ∧
          FirstAfter s.kernel.coremap.nRamFrames s.kernel.coremap.victimIndex x.eligible
            x.chosen := by
  obtain ⟨hal, h⟩ := h
  cases op with
  | get t n e =>
    obtain ⟨r, hget, h⟩ := bind_eq_ok.mp h
    obtain ⟨hn, hturn⟩ := coremapGetBegin_turn hget
    have hkernel : s'.kernel = r.2 := by
      obtain ⟨st, k⟩ := r
      cases st <;> cases h <;> rfl
    rw [hkernel]
    refine ⟨hn, ?_⟩
    rcases hturn with ⟨b, hfind, hvi⟩ | ⟨hfind, f, hpick, hvi⟩
    · simpa [eviction, hfind] using hvi
    · have hvictim : coremapGetVictim s.kernel.coremap = _ := hpick
      have hfirst := (coremapGetVictim_ok hvictim).1
      rw [Nat.mod_eq_of_lt hv] at hfirst
      simpa [eviction, hfind, hvictim] using ⟨hvi, hfirst⟩
  | resume t =>
    obtain ⟨f, i, e, ht⟩ := hal
    rw [exec, ht] at h
    obtain ⟨k, hend, h⟩ := bind_eq_ok.mp h
    cases h
    rw [coremapGetEnd_coremap hend]
    exact ⟨rfl, rfl⟩
  | freeBegin t first =>
    obtain ⟨r, hbegin, h⟩ := bind_eq_ok.mp h
    cases h
    exact coremapFreeBegin_cursor hbegin
  | freeEnd t =>
    obtain ⟨first, n, ht⟩ := hal
    rw [exec, ht] at h
    obtain ⟨cm, hloop, h⟩ := bind_eq_ok.mp h
    cases h
    exact coremapFreeLoop_cursor n first hloop
  | other k =>
    cases h
    rw [show k.coremap = s.kernel.coremap from hal]
    exact ⟨rfl, rfl⟩

/-- The evictions of a run are turns, from the `victim_index` at its start. -/
theorem run_turns {s₀ : Allocators} {tr : List (Option Turn)}
    (hv : s₀.kernel.coremap.victimIndex < s₀.kernel.coremap.nRamFrames)
    (h : Run Evicts s₀ tr s) : s.kernel.coremap.nRamFrames = s₀.kernel.coremap.nRamFrames ∧
      s.kernel.coremap.victimIndex = cursor s₀.kernel.coremap.victimIndex tr.reduceOption ∧
      Turns s₀.kernel.coremap.nRamFrames s₀.kernel.coremap.victimIndex tr.reduceOption ∧
      ∀ x ∈ tr.reduceOption, ∀ g, x.eligible g = true → g < s₀.kernel.coremap.nRamFrames := by
  refine h.trace_induct (I := fun tr s =>
    s.kernel.coremap.nRamFrames = s₀.kernel.coremap.nRamFrames ∧
      s.kernel.coremap.victimIndex = cursor s₀.kernel.coremap.victimIndex tr.reduceOption ∧
      Turns s₀.kernel.coremap.nRamFrames s₀.kernel.coremap.victimIndex tr.reduceOption ∧
      ∀ x ∈ tr.reduceOption, ∀ g, x.eligible g = true → g < s₀.kernel.coremap.nRamFrames)
    ⟨rfl, rfl, trivial, by simp⟩ ?_
  rintro tr s ev s' - ⟨hn, hvi, hturns, hlt⟩ ⟨op, hstep, rfl⟩
  have hv' : s.kernel.coremap.victimIndex < s.kernel.coremap.nRamFrames := by
    rw [hn, hvi]
    exact hturns.cursor_lt hv
  obtain ⟨hn', hturn⟩ := step_turn hv' hstep
  cases hev : s.eviction op with
  | none =>
    rw [hev] at hturn
    exact ⟨hn'.trans hn, Eq.trans hturn hvi, hturns, hlt⟩
  | some x =>
    rw [hev] at hturn
    obtain ⟨hx, hvi', hfirst⟩ := hturn
    refine ⟨hn'.trans hn, hvi', ⟨by rwa [hn, hvi] at hfirst, hturns⟩, ?_⟩
    intro y hy g hg
    rcases List.mem_cons.mp hy with rfl | hy
    · rw [hx] at hg
      exact hn ▸ (of_decide_eq_true hg : s.kernel.coremap.Swappable g).1
    · exact hlt y hy g hg

/-- The next step of a thread that gets a frame, for concrete runs. -/
def nextGet (s : Allocators) : AllocOp → Option (Option Turn × Allocators)
  | .get t npages ptentry =>
    if (s.task t).isNone ∧ npages = 1 then
      (s.exec (.get t npages ptentry)).toOption.map (s.eviction (.get t npages ptentry), ·)
    else none
  | .resume t =>
    match s.task t with
    | some (.writing _ _ _) => (s.exec (.resume t)).toOption.map (none, ·)
    | _ => none
  | _ => none

theorem evicts_of_nextGet {ev : Option Turn} (h : s.nextGet op = some (ev, s')) :
    s.Evicts ev s' := by
  have hexec : ∀ {x : Except Halt Allocators} {ev' : Option Turn},
      x.toOption.map (ev', ·) = some (ev, s') → x = .ok s' ∧ ev = ev' := by
    intro x ev' hx
    obtain ⟨a, ha, he⟩ := Option.map_eq_some_iff.mp hx
    cases he
    exact ⟨eq_ok_of_toOption ha, rfl⟩
  cases op with
  | get t n e =>
    simp only [nextGet] at h
    split_ifs at h with hc
    obtain ⟨ht, rfl⟩ := hc
    obtain ⟨hx, rfl⟩ := hexec h
    exact ⟨.get t 1 e, ⟨⟨by simpa using ht, Nat.one_pos, fun _ => rfl⟩, hx⟩, rfl⟩
  | resume t =>
    simp only [nextGet] at h
    split at h
    · rename_i f i e ht
      obtain ⟨hx, rfl⟩ := hexec h
      exact ⟨.resume t, ⟨⟨f, i, e, ht⟩, hx⟩, rfl⟩
    · cases h
  | freeBegin t f => cases h
  | freeEnd t => cases h
  | other k => cases h

end Allocators

/-- `coremap_get_victim` returns the first frame it may after `victim_index`, which comes last
itself, and `-1` exactly if there is none; it stops only if that frame is free or not a block
of its own. In every run, the frames it chose were those of users and not locked. Between two
choices of a frame every other frame that could be chosen all the time was chosen, and exactly
once if the frame itself could be chosen all the time. -/
theorem victims_take_turns :
    (∀ cm : Coremap, cm.victimIndex < cm.nRamFrames →
      (∃ r, coremapGetVictim cm = .ok (r, { cm with victimIndex := r.getD cm.victimIndex }) ∧
        (∀ f, r = some f ↔ FirstAfter cm.nRamFrames cm.victimIndex cm.eligible f) ∧
        (r = none ↔ ∀ f, ¬cm.Swappable f)) ∨
      ∃ f cond, FirstAfter cm.nRamFrames cm.victimIndex cm.eligible f ∧
        ¬(cm.used f = true ∧ cm.size f = 1) ∧ coremapGetVictim cm = .error (.kassert cond)) ∧
    ∀ (s₀ s : Allocators) (tr : List (Option Turn)),
      s₀.kernel.coremap.victimIndex < s₀.kernel.coremap.nRamFrames →
      Run Allocators.Evicts s₀ tr s → (∀ x ∈ tr.reduceOption, x.eligible x.chosen = true) ∧
      ∀ (later between earlier : List Turn) (x y : Turn),
        tr.reduceOption = later ++ y :: (between ++ x :: earlier) →
        x.chosen = y.chosen → (∀ z ∈ between, z.chosen ≠ y.chosen) →
        ∀ g, g ≠ y.chosen → y.eligible g = true → (∀ z ∈ between, z.eligible g = true) →
          (∃ z ∈ between, z.chosen = g) ∧
          ((∀ z ∈ between, z.eligible y.chosen = true) →
            (between.map Turn.chosen).count g = 1) := by
  refine ⟨fun cm hv => ?_, fun s₀ s tr hv hrun => ?_⟩
  · have hcases := coremapGetVictim_cases cm
    rw [Nat.mod_eq_of_lt hv] at hcases
    rcases hcases with ⟨f, hf, heq⟩ | ⟨hnone, heq⟩
    · rcases cm.takeVictim_cases f with ⟨-, -, ht⟩ | ⟨hbad, cond, ht⟩
      · refine Or.inl ⟨some f, by rw [heq, ht]; rfl, fun g => ⟨?_, fun hg => ?_⟩, by simp, ?_⟩
        · rintro ⟨⟩
          exact hf
        · exact congrArg some (hf.unique hv hg)
        · exact fun hno => absurd (of_decide_eq_true hf.mem) (hno f)
      · exact Or.inr ⟨f, cond, hf, hbad, by rw [heq, ht]; rfl⟩
    · refine Or.inl ⟨none, heq, fun f => ⟨by simp, fun hf => ?_⟩, fun _ => hnone, fun _ => rfl⟩
      exact absurd (of_decide_eq_true hf.mem) (hnone f)
  · obtain ⟨-, -, hturns, hlt⟩ := Allocators.run_turns hv hrun
    refine ⟨fun x hx => ?_, ?_⟩
    · obtain ⟨p, q, hpq⟩ := List.append_of_mem hx
      rw [hpq] at hturns
      exact hturns.of_append.1.mem
    · intro later between earlier x y htr hxy hno g hg hyg hbg
      rw [htr] at hturns hlt
      have hgn := hlt y (by simp) g hyg
      have ht := hturns.of_append
      exact ⟨ht.exists_between hv hxy hgn hg hyg hbg, fun ha =>
        ht.count_between hv hxy rfl ha hno hgn hg hyg hbg⟩

/-- A run with at least two evictions, from what is seen of each of them. -/
theorem exists_evictions {β : Type} {l : List AllocOp} {f : Turn → β} [DecidableEq β] {a c : β}
    {b : List β} (h : (execute Allocators.nextGet [] .small l).map (fun r =>
      decide (r.1.reduceOption.map f = a :: (b ++ [c]))) = some true) :
    ∃ tr s y between x, Run Allocators.Evicts .small tr s ∧
      tr.reduceOption = y :: (between ++ [x]) ∧ f y = a ∧ between.map f = b ∧ f x = c := by
  obtain ⟨tr, s, hrun, h⟩ := Run.exists_of_execute Allocators.nextGet Allocators.evicts_of_nextGet
    _ _ (fun tr _ => tr.reduceOption.map f = a :: (b ++ [c])) h
  obtain ⟨y, l, htr, hy, hl⟩ := List.map_eq_cons_iff.mp h
  obtain ⟨between, l, rfl, hb, hl⟩ := List.map_eq_append_iff.mp hl
  obtain ⟨x, l, rfl, hx, hl⟩ := List.map_eq_cons_iff.mp hl
  obtain rfl := List.map_eq_nil_iff.mp hl
  exact ⟨tr, s, y, between, x, hrun, htr, hy, hb, hx⟩

/-- A thread needs a frame three times, and gets frames `2`, `3` and `2`. -/
theorem victims_take_turns_small : ∃ tr s y between x, Run Allocators.Evicts .small tr s ∧
    tr.reduceOption = y :: (between ++ [x]) ∧ x.chosen = 2 ∧ y.chosen = 2 ∧
    (between.map Turn.chosen).count 3 = 1 := by
  obtain ⟨tr, s, y, between, x, hrun, htr, hy, hb, hx⟩ := exists_evictions
    (l := [.get 0 1 (some ⟨0, 0⟩), .get 0 1 (some ⟨0, 1⟩), .get 1 1 (some ⟨0, 2⟩), .resume 1,
      .get 1 1 (some ⟨0, 3⟩), .resume 1, .get 1 1 (some ⟨0, 4⟩)])
    (f := fun x => (x.eligible 2, x.eligible 3, x.chosen)) (a := (true, true, 2))
    (b := [(true, true, 3)]) (c := (true, true, 2)) (by decide +kernel)
  obtain ⟨z, rfl, hz⟩ := List.map_eq_singleton_iff.mp hb
  simp only [Prod.mk.injEq] at hy hz hx
  refine ⟨tr, s, y, [z], x, hrun, htr, hx.2.2, hy.2.2, ?_⟩
  obtain ⟨-, hturns⟩ := victims_take_turns.2 _ _ _ (by decide) hrun
  refine (hturns [] [z] [] x y htr (hx.2.2.trans hy.2.2.symm) ?_ 3 ?_ hy.2.1 ?_).2 ?_
  · simp [hz.2.2, hy.2.2]
  · simp [hy.2.2]
  · simp [hz.2.1]
  · simp [hy.2.2, hz.1]

/-- While a thread writes the page of frame `2` to swap, two other threads need a frame, and
take frame `3` twice; then frame `2` is chosen again. -/
theorem victim_twice_small : ∃ tr s y between x, Run Allocators.Evicts .small tr s ∧
    tr.reduceOption = y :: (between ++ [x]) ∧ x.chosen = 2 ∧ y.chosen = 2 ∧
    (∀ z ∈ between, z.chosen ≠ 2) ∧ y.eligible 3 = true ∧ (∀ z ∈ between, z.eligible 3 = true) ∧
    (between.map Turn.chosen).count 3 = 2 := by
  obtain ⟨tr, s, y, between, x, hrun, htr, hy, hb, hx⟩ := exists_evictions
    (l := [.get 0 1 (some ⟨0, 0⟩), .get 0 1 (some ⟨0, 1⟩), .get 1 1 (some ⟨0, 2⟩),
      .get 2 1 (some ⟨0, 3⟩), .resume 2, .get 2 1 (some ⟨0, 4⟩), .resume 2, .resume 1,
      .get 2 1 (some ⟨0, 5⟩)])
    (f := fun x => (x.eligible 3, x.chosen)) (a := (true, 2)) (b := [(true, 3), (true, 3)])
    (c := (true, 2)) (by decide +kernel)
  have hchosen := congrArg (List.map Prod.snd) hb
  rw [List.map_map] at hchosen
  have hseen : ∀ z ∈ between, (z.eligible 3, z.chosen) = (true, 3) := by
    intro z hz
    have hmem := List.mem_map_of_mem (f := fun x : Turn => (x.eligible 3, x.chosen)) hz
    rw [hb] at hmem
    simpa using hmem
  simp only [Prod.mk.injEq] at hy hseen hx
  refine ⟨tr, s, y, between, x, hrun, htr, hx.2, hy.2, fun z hz => ?_, hy.1,
    fun z hz => (hseen z hz).1, (congrArg (List.count 3) hchosen).trans rfl⟩
  rw [(hseen z hz).2]
  decide

end OS161

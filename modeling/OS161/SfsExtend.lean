import OS161.SfsCut
import OS161.SfsData

/-!
# Extending a file over what was cut off

A file that is truncated and then extended should read as zeros where it was cut off, and so
should the parts of a file that were never written. `Hidden` says which bytes these are, given
the operations on the file so far.

Extending a file changes only its size, so that the law rests on what is in the blocks past the
end of the file. A write keeps them clear, since new blocks are clear. But `sfs_itrunc` leaves the
rest of the last block as it is, and in the indirect block one block more (`FileView.cut`).
`Resizes.abs` says what writes and truncations do to the files, and `hidden_reads_zero` that the
law holds along every run in which each truncation finds zeros in what it leaves (`CutsClean`).
-/

namespace OS161

open Sfs Volume

variable {ok : Halt → Prop} {s s' : Sfs} {loose : Set ℕ} {i : ℕ} {u u' : Uio}

/-! ## What a truncation leaves -/

/-- Block `k` of a file is released when the file is truncated to `blocklen` blocks. -/
def CutBlock (blocklen k : ℕ) : Prop :=
  k < 15 ∧ blocklen ≤ k ∨ 15 ≤ k ∧ blocklen < k ∧ blocklen < 142

instance (blocklen k : ℕ) : Decidable (CutBlock blocklen k) :=
  inferInstanceAs (Decidable (_ ∨ _))

/-- The file that `sfs_itrunc` leaves. -/
def FileView.cut (f : FileView) (len : ℕ) : FileView :=
  { f with
    size := len
    byte := fun off => if CutBlock ((len + 511) / 512) (off / 512) then 0 else f.byte off }

/-- The bytes of a file after some blocks have been released. -/
theorem CutOff.fileByte_eq {d d' : DiskBlock} {cut : ℕ → Prop} [DecidablePred cut]
    {dropped : Prop} (h : CutOff s d cut dropped s' d') (off : ℕ) :
    fileByte s'.disk d' off = if cut (off / 512) then 0 else fileByte s.disk d off := by
  by_cases hc : cut (off / 512)
  · rw [if_pos hc]
    exact if_pos (h.gone _ hc)
  · unfold fileByte
    rw [h.kept _ hc]
    split_ifs with h0
    · rfl
    · rw [h.data _ hc h0]

/-- There is nothing past the end of the largest file. -/
theorem fileByte_past (disk : ℕ → DiskBlock) (d : DiskBlock) {off : ℕ} (h : 143 * 512 ≤ off) :
    fileByte disk d off = 0 := by
  refine if_pos ?_
  by_contra h0
  have := lt_of_filePtr_ne_zero h0
  omega

theorem sfsItrunc_cut {len : ℕ} (h : s.Ok loose) (hi : s.abs.refs i ≠ 0) (hi1 : i ≠ 1)
    (hio : s.IoOk) (hlen : len ≤ 143 * 512) :
    (sfsItrunc i len).Does ok s fun r s' => r = .ok () ∧ s'.Ok loose ∧ Next s s' ∧
      s'.abs = s.abs.setFile i ((s.abs.file i).cut len) := by
  obtain ⟨sv, hsv⟩ := Ok.exists_loaded hi
  have hlive := live_of_loaded hsv
  have hholds := h.holdsFile hlive
  rw [inode_of_loaded hsv] at hholds
  have hfile := abs_file_of_loaded hsv
  have hopen : s.Open i sv.svI := ⟨⟨sv, hsv, rfl⟩, hholds, hio⟩
  have hdoes : (sfsItrunc i len).Does ok s _ := sfsItrunc_cutOff len hopen
  refine ((sfsItrunc_does len h hsv hi1).and hdoes).mono ?_
  rintro r s' ⟨htrim, hr, d', ⟨⟨sv', hsv', rfl⟩, -, -⟩, hsize, hcut⟩
  obtain rfl : r = .ok () := hr
  obtain ⟨⟨hok, hnext, -, f, habs, ht, hl⟩, -⟩ := htrim
  refine ⟨rfl, hok, hnext, habs.trans (congrArg (s.abs.setFile i) ?_)⟩
  have hf : f = viewOf s'.disk sv'.svI := by
    rw [← abs_file_of_loaded hsv', habs, Fs.setFile_file]
  rw [itruncBlocklen_eq hlen] at hcut
  have hbyte := fun off => CutOff.fileByte_eq
    (hcut : CutOff s sv.svI (CutBlock ((len + 511) / 512)) _ s' sv'.svI) off
  refine FileView.ext ?_ ht hl (funext fun off => ?_)
  · rw [hf]
    exact hsize.trans (Nat.mod_eq_of_lt (by omega))
  · rw [hf, hfile]
    exact hbyte off

/-! ## Writes and truncations -/

/-- A write or a truncation that succeeds, within the size of the largest file. -/
inductive Resizes : Sfs → SfsOp → Sfs → Prop
  | write {s s' : Sfs} {i : ℕ} {u u' : Uio} (hw : u.uioRw = .write)
      (hres : u.uioResid < 2 ^ 32) (hroom : u.uioResid ≤ u.uioIov.sum)
      (hend : u.uioOffset + u.uioResid ≤ (15 + 128) * 512)
      (hrun : (SfsOp.write i u).run s = .ok (.ok (.ok (), .uio u'), s')) :
      Resizes s (.write i u) s'
  | truncate {s s' : Sfs} {i len : ℕ} (hlen : len ≤ (15 + 128) * 512)
      (hrun : (SfsOp.truncate i len).run s = .ok (.ok (.ok (), .none), s')) :
      Resizes s (.truncate i len) s'

/-- What they do to the files. -/
def SfsOp.resize : SfsOp → Fs → Fs
  | .write i u, a => a.setFile i ((a.file i).write u.uioOffset u.uioResid u.bytes)
  | .truncate i len, a => a.setFile i ((a.file i).cut len.toNat)
  | _, a => a

theorem SfsOp.resize_refs (op : SfsOp) (a : Fs) : (op.resize a).refs = a.refs := by
  cases op <;> rfl

/-- A well-formed volume on a device that works. It is small enough for its blocks to have
32-bit positions. -/
structure Sfs.Healthy (s : Sfs) : Prop where
  ok : s.Ok ∅
  wf : s.abs.WF
  io : s.IoOk
  nblocks : s.sbNblocks ≤ 2 ^ 23

theorem returns_eq_ok {α : Type} {m : SfsM α} {ret : α → SfsRet} {x : SfsRet}
    (h : returns m ret s = .ok (.ok (.ok (), x), s')) :
    ∃ a, m s = .ok (.ok a, s') ∧ ret a = x := by
  obtain ⟨r, s₁, hm, hr⟩ := Call.exists_of_bind_ok h
  have hm := Call.of_attempt_ok hm
  cases r with
  | ok a =>
    cases hr
    exact ⟨a, hm, rfl⟩
  | error e => cases hr

theorem returnsUio_eq_ok {m : SfsM (Except Errno Unit × Uio)}
    (h : returnsUio m s = .ok (.ok (.ok (), .uio u), s')) : m s = .ok (.ok (.ok (), u), s') := by
  obtain ⟨r, s₁, hm, hr⟩ := Call.exists_of_bind_ok h
  have hm := Call.of_attempt_ok hm
  cases r with
  | ok a =>
    obtain ⟨res, u'⟩ := a
    cases hr
    exact hm
  | error e => cases hr

/-- An operation on a vnode that succeeds is one on a file in memory. -/
theorem Sfs.Healthy.of_onFile (h : s.Healthy) {α : Type} {m : SfsM α} {a : α}
    (hm : onFile i m s = .ok (.ok a, s')) :
    i ≠ 1 ∧ s.abs.refs i ≠ 0 ∧ (s.abs.file i).type ≠ sfsTypeDir := by
  obtain ⟨sv, s₁, hget, hrest⟩ := Call.exists_of_bind_ok hm
  obtain ⟨hsv, rfl⟩ := loaded_of_getVnode hget
  have ht := type_of_live (live_of_loaded hsv)
  rw [inode_of_loaded hsv] at ht
  split_ifs at hrest with hd
  · cases hrest
  · rw [← ht] at hd
    refine ⟨?_, h.ok.refs_ne_zero hsv, hd⟩
    rintro rfl
    exact hd h.wf.root.type

/-- The contents of a file have changed. -/
theorem Sfs.Healthy.setFile (h : s.Healthy) {f : FileView} (hi : i ≠ 1) (hok : s'.Ok ∅)
    (hnext : Next s s') (habs : s'.abs = s.abs.setFile i f) (ht : f.type = (s.abs.file i).type)
    (hl : f.links = (s.abs.file i).links) : s'.Healthy where
  ok := hok
  wf := by
    rw [habs]
    exact h.wf.setFile hi ht hl
  io := hnext.io h.io
  nblocks := by
    have hnb : s'.sbNblocks = s.sbNblocks := congrArg Fs.nblocks habs
    rw [hnb]
    exact h.nblocks

/-- What a write or truncation does. -/
theorem Resizes.abs {op : SfsOp} (hs : Resizes s op s') (h : s.Healthy) :
    s'.Healthy ∧ s'.abs = op.resize s.abs := by
  cases hs with
  | @write _ i u u' hw hres hroom hend hrun =>
    obtain ⟨hi1, hi, ht⟩ := h.of_onFile (returnsUio_eq_ok hrun)
    have hp : Ready i ∅ (s, u) := ⟨h.ok, hi, hi1, h.nblocks, hres, hroom⟩
    have hdoes : (SfsOp.write i u).run.Does anyHalt s _ := write_does hp ht hw
    obtain ⟨res, u'', hr, k, -, hk, hwr⟩ := hdoes.of_ok hrun
    cases hr
    obtain rfl := hk rfl
    obtain ⟨f, hs, hty, hl, hf⟩ := hwr.content
    obtain rfl := hf h.io (show u.uioOffset + u.uioResid ≤ 2 ^ 41 by omega)
    exact ⟨h.setFile hi1 hs.ok hs.next hs.abs hty hl, hs.abs⟩
  | @truncate _ i len hlen hrun =>
    obtain ⟨_, hm, -⟩ := returns_eq_ok hrun
    obtain ⟨hi1, hi, ht⟩ := h.of_onFile hm
    have hdoes : (onFile i (sfsItrunc i len)).Does anyHalt s _ :=
      (does_onFile hi ht).mpr (sfsItrunc_cut h.ok hi hi1 h.io hlen)
    obtain ⟨-, hok, hnext, habs⟩ := hdoes.of_ok hm
    exact ⟨h.setFile hi1 hok hnext habs rfl rfl, habs⟩

/-! ## Hidden bytes -/

/-- The bytes of file `i` that were past its end at the start, when its size was `n`, or have been
cut off, and have not been written since. The newest operation comes first. -/
def Hidden (i n : ℕ) : List SfsOp → ℕ → Prop
  | [], off => n ≤ off
  | .write j u :: l, off =>
    ¬(j = i ∧ u.uioOffset ≤ off ∧ off < u.uioOffset + u.uioResid) ∧ Hidden i n l off
  | .truncate j len :: l, off => j = i ∧ len.toNat ≤ off ∨ Hidden i n l off
  | _ :: l, off => Hidden i n l off

/-- A truncation of file `i` finds zeros in what it cuts off but leaves in a block : the rest of
the last block, and the block after it, if that is one of the indirect block. -/
def CutsClean (i : ℕ) (s : Sfs) : SfsOp → Prop
  | .truncate j len => j = i → ∀ off, len.toNat ≤ off →
      off / 512 < (len.toNat + 511) / 512 ∨
        15 ≤ (len.toNat + 511) / 512 ∧ off / 512 = (len.toNat + 511) / 512 →
      (s.view i).byte off = 0
  | _ => True

/-- Hidden bytes are zero, and what is past the end is hidden. -/
structure ZeroFilled (i n : ℕ) (l : List SfsOp) (f : FileView) : Prop where
  hidden : ∀ off, Hidden i n l off → f.byte off = 0
  past : ∀ off, f.size ≤ off → Hidden i n l off

namespace ZeroFilled

variable {n : ℕ} {l : List SfsOp} {f : FileView}

theorem write (h : ZeroFilled i n l f) (u : Uio) :
    ZeroFilled i n (.write i u :: l) (f.write u.uioOffset u.uioResid u.bytes) where
  hidden off hoff := (if_neg fun hin => hoff.1 ⟨rfl, hin⟩).trans (h.hidden off hoff.2)
  past off hoff := by
    change (if u.uioResid = 0 then f.size else max f.size (u.uioOffset + u.uioResid)) ≤ off
      at hoff
    split_ifs at hoff
    · exact ⟨by omega, h.past off hoff⟩
    · exact ⟨by omega, h.past off (by omega)⟩

theorem truncate {len : ℤ} (h : ZeroFilled i n l f)
    (hclean : ∀ off, len.toNat ≤ off → ¬CutBlock ((len.toNat + 511) / 512) (off / 512) →
      f.byte off = 0) : ZeroFilled i n (.truncate i len :: l) (f.cut len.toNat) where
  hidden off hoff := by
    change (if CutBlock ((len.toNat + 511) / 512) (off / 512) then 0 else f.byte off) = 0
    split_ifs with hc
    · rfl
    · rcases hoff with ⟨-, hoff⟩ | hoff
      · exact hclean off hoff hc
      · exact h.hidden off hoff
  past _ hoff := Or.inl ⟨rfl, hoff⟩

/-- An operation on another file. -/
theorem other {op : SfsOp} (h : ZeroFilled i n l f)
    (hop : ∀ off, Hidden i n (op :: l) off ↔ Hidden i n l off) :
    ZeroFilled i n (op :: l) f where
  hidden off hoff := h.hidden off ((hop off).mp hoff)
  past off hoff := (hop off).mpr (h.past off hoff)

end ZeroFilled

/-- File `i` after a write or truncation. -/
theorem Resizes.zeroFilled {op : SfsOp} {n : ℕ} {l : List SfsOp} (hs : Resizes s op s')
    (hh : s.Healthy) (hi : s.Live i) (hclean : CutsClean i s op)
    (h : ZeroFilled i n l (s.abs.file i)) : ZeroFilled i n (op :: l) (s'.abs.file i) := by
  rw [(hs.abs hh).2]
  cases hs with
  | @write _ j u u' hw hres hroom hend hrun =>
    unfold SfsOp.resize
    by_cases hj : j = i
    · subst hj
      rw [Fs.setFile_file]
      exact h.write u
    · rw [Fs.setFile_file_ne _ (Ne.symm hj)]
      exact h.other fun off => and_iff_right fun hin => hj hin.1
  | @truncate _ j len hlen hrun =>
    unfold SfsOp.resize
    by_cases hj : j = i
    · subst hj
      rw [Fs.setFile_file]
      refine h.truncate fun off hoff hcut => ?_
      rw [abs_file hi]
      by_cases hlt : off < 143 * 512
      · refine hclean rfl off hoff ?_
        unfold CutBlock at hcut
        omega
      · exact fileByte_past _ _ (not_lt.mp hlt)
    · rw [Fs.setFile_file_ne _ (Ne.symm hj)]
      exact h.other fun off => or_iff_right fun hin => hj hin.1

/-- In every run of writes and truncations in which each truncation of the file finds zeros in
what it leaves past the new end, the bytes of the file that were cut off or never written read as
zeros. -/
theorem hidden_reads_zero {s₀ : Sfs} {l : List SfsOp} (h : s₀.Healthy)
    (hi : s₀.Loaded i) (hi1 : i ≠ 1)
    (hzero : ∀ off, (s₀.view i).size ≤ off → (s₀.view i).byte off = 0)
    (hrun : Run (guarded (CutsClean i) Resizes) s₀ l s) (hrd : u.uioRw = .read)
    (hres : u.uioResid < 2 ^ 32) (hroom : u.uioResid ≤ u.uioIov.sum) :
    ∃ res u' s' data, (SfsOp.read i u).run s = .ok (.ok (res, .uio u'), s') ∧
      u'.bytes = u.bytes ++ data ∧
      (∀ x < data.length, Hidden i (s₀.view i).size l (u.uioOffset + x) → data.getD x 0 = 0) ∧
      ((s.view i).size ≤ (15 + 128) * 512 → res = .ok () ∧
        data.length = min u.uioResid ((s.view i).size - u.uioOffset)) := by
  have hview : ∀ {t : Sfs}, t.abs.refs i ≠ 0 → t.view i = t.abs.file i := fun ht => by
    obtain ⟨sv, hsv⟩ := Ok.exists_loaded ht
    exact (abs_file (live_of_loaded hsv)).symm
  have hrefs : s₀.abs.refs i ≠ 0 := by
    obtain ⟨sv, hsv⟩ := Option.isSome_iff_exists.mp hi
    exact h.ok.refs_ne_zero hsv
  obtain ⟨hh, hr, hz⟩ : s.Healthy ∧ s.abs.refs i ≠ 0 ∧
      ZeroFilled i (s₀.view i).size l (s.abs.file i) := by
    refine hrun.trace_induct (I := fun l s => s.Healthy ∧ s.abs.refs i ≠ 0 ∧
      ZeroFilled i (s₀.view i).size l (s.abs.file i)) ⟨h, hrefs, ?_⟩ ?_
    · rw [← hview hrefs]
      exact ⟨hzero, fun _ hoff => hoff⟩
    · rintro l s op s' - ⟨hh, hr, hz⟩ hs
      obtain ⟨hh', habs⟩ := hs.1.abs hh
      refine ⟨hh', ?_, hs.1.zeroFilled hh (Or.inr (Or.inl (hh.ok.loaded_of_refs hr))) hs.2 hz⟩
      rw [habs, SfsOp.resize_refs]
      exact hr
  have ht : (s.abs.file i).type ≠ sfsTypeDir := by
    rw [hh.wf.file (Or.inr (Or.inl hr)) hi1]
    decide
  have hdoes : (SfsOp.read i u).run.Does (fun _ => False) s _ :=
    read_does ⟨hh.ok, hr, hi1, hh.nblocks, hres, hroom⟩ ht hrd
  obtain ⟨r, s', hread, res, u', rfl, k, hk, hall, hok, hhas⟩ := hdoes.exists_ok
  obtain ⟨f, -, -, -, hbytes⟩ := hhas.content
  refine ⟨res, u', s', _, hread, (hbytes hh.io).2, fun x hx hhid => ?_, fun hsize => ?_⟩
  · rw [Uio.length_slice] at hx
    rw [Uio.getD_slice hx]
    exact hz.hidden _ hhid
  · rw [hview hr] at hsize ⊢
    have hres := hok hh.io hsize
    exact ⟨hres, (Uio.length_slice _ _ _).trans (hall hres)⟩

/-! ## A small volume -/

/-- The inode of an empty file. -/
def emptyInode (type links : ℕ) : DiskBlock :=
  setSfiType type (setSfiLinkcount links zeroBlock)

theorem viewOf_emptyInode (disk : ℕ → DiskBlock) {type links : ℕ} (ht : type < 2 ^ 16)
    (hl : links < 2 ^ 16) : viewOf disk (emptyInode type links) = ⟨0, type, links, fun _ => 0⟩ := by
  have hbyte : (viewOf disk zeroBlock).byte = fun _ => 0 :=
    funext fun off => if_pos (filePtr_zeroBlock disk _)
  have hsize : sfiSize zeroBlock = 0 := getWord_zero 0
  rw [emptyInode, viewOf_attrs (d := zeroBlock) (by simp) (by simp), hbyte,
    sfiType_setSfiType _ _ ht]
  simpa [hsize] using hl

theorem filePtr_emptyInode (disk : ℕ → DiskBlock) (type links k : ℕ) :
    filePtr disk (emptyInode type links) k = 0 := by
  rw [← filePtr_zeroBlock disk k]
  exact congrFun (filePtr_congr (by simp [emptyInode]) (by simp [emptyInode]) fun _ => rfl) k

theorem sfiIndirect_emptyInode (type links : ℕ) : sfiIndirect (emptyInode type links) = 0 := by
  have h0 : sfiIndirect zeroBlock = 0 := getWord_zero 17
  simp [emptyInode, h0]

/-! ### Two vnodes in memory -/

/-- In memory are the root directory, which is empty, and a file, each with one reference. -/
def Sfs.OnlyFile (s : Sfs) (i : ℕ) (d : DiskBlock) : Prop :=
  ∃ dirty, s.sfsVnodes = [⟨d, i, dirty, 1⟩, ⟨emptyInode sfsTypeDir 1, 1, dirty, 1⟩]

namespace Sfs.OnlyFile

variable {s : Sfs} {i j : ℕ} {d : DiskBlock}

theorem loaded_file (h : s.OnlyFile i d) : ∃ sv ∈ s.loaded i, sv.svI = d ∧ sv.vnRefcount = 1 := by
  obtain ⟨dirty, hv⟩ := h
  refine ⟨⟨d, i, dirty, 1⟩, ?_, rfl, rfl⟩
  unfold Volume.loaded
  rw [hv]
  exact List.find?_cons_of_pos (by simp)

theorem loaded_root (h : s.OnlyFile i d) (hi : i ≠ 1) :
    ∃ sv ∈ s.loaded 1, sv.svI = emptyInode sfsTypeDir 1 ∧ sv.vnRefcount = 1 := by
  obtain ⟨dirty, hv⟩ := h
  refine ⟨⟨emptyInode sfsTypeDir 1, 1, dirty, 1⟩, ?_, rfl, rfl⟩
  unfold Volume.loaded
  rw [hv, List.find?_cons_of_neg (by simpa using hi)]
  exact List.find?_cons_of_pos (by simp)

theorem loaded_iff (h : s.OnlyFile i d) (hi : i ≠ 1) : s.Loaded j ↔ j = i ∨ j = 1 := by
  constructor
  · intro hj
    obtain ⟨sv, hsv⟩ := Option.isSome_iff_exists.mp hj
    obtain ⟨hmem, rfl⟩ := loaded_eq_some hsv
    obtain ⟨dirty, hv⟩ := h
    rw [hv] at hmem
    rcases List.mem_cons.mp hmem with rfl | hmem
    · exact Or.inl rfl
    · rw [List.mem_singleton.mp hmem]
      exact Or.inr rfl
  · rintro (rfl | rfl)
    · obtain ⟨sv, hsv, -⟩ := h.loaded_file
      exact Option.isSome_iff_exists.mpr ⟨sv, hsv⟩
    · obtain ⟨sv, hsv, -⟩ := h.loaded_root hi
      exact Option.isSome_iff_exists.mpr ⟨sv, hsv⟩

theorem view_file (h : s.OnlyFile i d) : s.view i = viewOf s.disk d := by
  obtain ⟨sv, hsv, rfl, -⟩ := h.loaded_file
  rw [Volume.view, inode_of_loaded hsv]

theorem view_root (h : s.OnlyFile i d) (hi : i ≠ 1) :
    s.view 1 = ⟨0, sfsTypeDir, 1, fun _ => 0⟩ := by
  obtain ⟨sv, hsv, hd, -⟩ := h.loaded_root hi
  rw [Volume.view, inode_of_loaded hsv, hd]
  exact viewOf_emptyInode _ (by decide) (by decide)

theorem live_iff (h : s.OnlyFile i d) (hi : i ≠ 1) : s.Live j ↔ j = i ∨ j = 1 := by
  have hnames : ¬(s.view 1).Names j := by
    rw [h.view_root hi]
    rintro ⟨slot, hslot, -⟩
    exact absurd hslot (Nat.not_lt_zero slot)
  unfold Volume.Live
  rw [h.loaded_iff hi]
  tauto

theorem refs_ne_zero (h : s.OnlyFile i d) (hi : i ≠ 1) (hj : j = i ∨ j = 1) :
    s.abs.refs j ≠ 0 := by
  have hone : ∃ sv ∈ s.loaded j, sv.vnRefcount = 1 := by
    rcases hj with rfl | rfl
    · obtain ⟨sv, hsv, -, hr⟩ := h.loaded_file
      exact ⟨sv, hsv, hr⟩
    · obtain ⟨sv, hsv, -, hr⟩ := h.loaded_root hi
      exact ⟨sv, hsv, hr⟩
  obtain ⟨sv, hsv, hr⟩ := hone
  change (s.loaded j).elim 0 SfsVnode.vnRefcount ≠ 0
  rw [hsv, Option.elim_some, hr]
  exact one_ne_zero

/-- Roles of blocks that the two inodes give. -/
theorem ref_iff (h : s.OnlyFile i d) (hi : i ≠ 1) {o : Volume.Role} {b : ℕ} : s.Ref o b ↔
    o = .super ∧ b = 0 ∨ o = .inode 1 ∧ b = 1 ∨ o = .inode i ∧ b = i ∨
    (∃ k < sfsFreemapblocks s.sbNblocks, o = .freemap k ∧ b = 2 + k) ∨
    (o = .indirect i ∧ b ≠ 0 ∧ sfiIndirect d = b) ∨
    ∃ fb, o = .data i fb ∧ b ≠ 0 ∧ filePtr s.disk d fb = b := by
  obtain ⟨sv, hsv, rfl, -⟩ := h.loaded_file
  obtain ⟨sv₁, hsv₁, hd₁, -⟩ := h.loaded_root hi
  have hino := inode_of_loaded hsv
  have hino₁ : s.inode 1 = emptyInode sfsTypeDir 1 := (inode_of_loaded hsv₁).trans hd₁
  cases o with
  | super => simp [Volume.Ref]
  | freemap k => simp [Volume.Ref]
  | inode j =>
    simp only [Volume.Ref, h.live_iff hi]
    simp
    omega
  | indirect j =>
    simp only [Volume.Ref, h.live_iff hi]
    constructor
    · rintro ⟨rfl | rfl, h0, hb⟩
      · rw [hino] at hb
        simp [h0, hb]
      · rw [hino₁, sfiIndirect_emptyInode] at hb
        exact absurd hb.symm h0
    · simp only [reduceCtorEq, false_and, exists_false, or_false, false_or, and_false]
      rintro ⟨hj, h0, hb⟩
      cases hj
      exact ⟨Or.inl rfl, h0, hino ▸ hb⟩
  | data j fb =>
    simp only [Volume.Ref, h.live_iff hi, Volume.ptr]
    constructor
    · rintro ⟨rfl | rfl, h0, hb⟩
      · rw [hino] at hb
        simp [h0, hb]
      · rw [hino₁, filePtr_emptyInode] at hb
        exact absurd hb.symm h0
    · simp only [reduceCtorEq, false_and, exists_false, false_or, and_false]
      rintro ⟨fb', hj, h0, hb⟩
      cases hj
      exact ⟨Or.inl rfl, h0, hino ▸ hb⟩

/-- The file system, if the file has no name. -/
theorem wf (h : s.OnlyFile i d) (hi : i ≠ 1) (hok : s.Ok ∅) (ht : sfiType d = sfsTypeFile)
    (hl : sfiLinkcount d = 0) : s.abs.WF := by
  have hroot : s.abs.file 1 = ⟨0, sfsTypeDir, 1, fun _ => 0⟩ :=
    (abs_file live_root).trans (h.view_root hi)
  have hfile : s.abs.file i = viewOf s.disk d :=
    (abs_file ((h.live_iff hi).mpr (Or.inl rfl))).trans h.view_file
  have hslots : ∀ k, ¬k < (s.abs.file 1).nslots := by
    rw [hroot]
    exact Nat.not_lt_zero
  have hlive : ∀ {j}, s.abs.Live j → j ≠ 1 → j = i := fun hj hj1 =>
    ((h.live_iff hi).mp (hok.abs_live.mp hj)).resolve_right hj1
  refine ⟨?_, fun ⟨k, hk, _⟩ => absurd hk (hslots k), fun hj hj1 => ?_, fun hj hj1 => ?_⟩
  · rw [hroot]
    exact ⟨rfl, one_ne_zero, rfl, Nat.zero_le _, fun hk => absurd hk.1 (Nat.not_lt_zero _)⟩
  · rw [hlive hj hj1, hfile]
    exact ht
  · rw [hlive hj hj1, hfile]
    exact hl.trans (FileView.card_linkSlots_eq_zero.mpr fun ⟨k, hk, _⟩ => hslots k hk).symm

end Sfs.OnlyFile

namespace Sfs

/-- A volume of eight blocks with the root directory and an empty file in memory, which has no
name. -/
def openFile : Sfs where
  sbNblocks := 8
  sfsFreemap := ⟨4096, fun ix => if ix = 0 then 0x0f#8 else 0xff#8⟩
  sfsFreemapdirty := true
  sfsVnodes := [⟨emptyInode sfsTypeFile 0, 3, true, 1⟩, ⟨emptyInode sfsTypeDir 1, 1, true, 1⟩]
  dBlocks := 8
  disk b := if b = 0 then setWord (setWord zeroBlock 0 sfsMagic) 1 8 else zeroBlock
  io _ := true
  memory _ := true
  calls := 0
  idcalls := []
  leaked := []

theorem openFile_onlyFile : openFile.OnlyFile 3 (emptyInode sfsTypeFile 0) :=
  ⟨true, rfl⟩

theorem openFile_file : openFile.view 3 = ⟨0, sfsTypeFile, 0, fun _ => 0⟩ :=
  openFile_onlyFile.view_file.trans (viewOf_emptyInode _ (by decide) (by decide))

theorem openFile_refs : openFile.abs.refs 3 ≠ 0 :=
  openFile_onlyFile.refs_ne_zero (by decide) (Or.inl rfl)

theorem openFile_ref_iff {o : Role} {b : ℕ} : openFile.Ref o b ↔
    o = .super ∧ b = 0 ∨ o = .inode 1 ∧ b = 1 ∨ o = .freemap 0 ∧ b = 2 ∨ o = .inode 3 ∧ b = 3 := by
  have hmap : sfsFreemapblocks openFile.sbNblocks = 1 := by decide
  rw [openFile_onlyFile.ref_iff (by decide), hmap]
  simp only [sfiIndirect_emptyInode, filePtr_emptyInode, Nat.lt_one_iff, exists_eq_left]
  constructor
  · rintro (h | h | h | h | ⟨-, h0, hb⟩ | ⟨fb, -, h0, hb⟩)
    · exact Or.inl h
    · exact Or.inr (Or.inl h)
    · exact Or.inr (Or.inr (Or.inr h))
    · exact Or.inr (Or.inr (Or.inl h))
    · exact absurd hb.symm h0
    · exact absurd hb.symm h0
  · tauto

theorem openFile_marked_iff {b : ℕ} : openFile.sfsFreemap.Marked b ↔ b < 4 ∨ 8 ≤ b := by
  rw [Bitmap.marked_iff]
  by_cases hb : b < 8
  · have h0 : ∀ b < 8, (openFile.sfsFreemap.v (b / 8)).getLsbD (b % 8) = true ↔
        b < 4 ∨ 8 ≤ b := by
      decide
    exact h0 b hb
  · have h1 : openFile.sfsFreemap.v (b / 8) = 0xff#8 := if_neg (by omega)
    have h2 : ∀ j < 8, (0xff#8).getLsbD j = true := by decide
    rw [h1]
    simp [h2 _ (Nat.mod_lt b (by decide : 0 < 8)), not_lt.mp hb]

theorem openFile_inUse_iff {b : ℕ} : openFile.InUse b ↔ ∃ o, openFile.Ref o b := by
  unfold InUse
  rw [openFile_marked_iff]
  constructor
  · rintro ⟨hlt, hb⟩
    have hb' : b = 0 ∨ b = 1 ∨ b = 2 ∨ b = 3 := by
      change b < 8 at hlt
      omega
    rcases hb' with rfl | rfl | rfl | rfl
    · exact ⟨.super, openFile_ref_iff.mpr (by simp)⟩
    · exact ⟨.inode 1, openFile_ref_iff.mpr (by simp)⟩
    · exact ⟨.freemap 0, openFile_ref_iff.mpr (by simp)⟩
    · exact ⟨.inode 3, openFile_ref_iff.mpr (by simp)⟩
  · rintro ⟨o, ho⟩
    rcases openFile_ref_iff.mp ho with ⟨-, rfl⟩ | ⟨-, rfl⟩ | ⟨-, rfl⟩ | ⟨-, rfl⟩ <;> decide

theorem openFile_ok : openFile.Ok ∅ where
  nbits := by decide
  cover := by decide
  padding b hb _ := openFile_marked_iff.mpr (Or.inr hb)
  device := le_rfl
  super := by decide +kernel
  nodup := by decide
  counted := by simp [openFile]
  held := by
    refine ⟨fun b => ?_, fun ho ho' => ?_, fun _ => by simp [openFile]⟩
    · rw [openFile_inUse_iff]
      simp [openFile]
    · rw [openFile_ref_iff] at ho ho'
      rcases ho with ⟨rfl, rfl⟩ | ⟨rfl, rfl⟩ | ⟨rfl, rfl⟩ | ⟨rfl, rfl⟩ <;> simpa [eq_comm] using ho'
  clean := by simp [openFile]
  cleanMap h := by simp [openFile] at h

theorem openFile_wf : openFile.abs.WF :=
  openFile_onlyFile.wf (by decide) openFile_ok (by decide +kernel) (by decide +kernel)

theorem openFile_healthy : openFile.Healthy :=
  ⟨openFile_ok, openFile_wf, fun _ => rfl, by decide⟩

/-- The file is extended to two bytes. -/
theorem openFile_extended : ∃ s,
    Run (guarded (CutsClean 3) Resizes) openFile [.truncate 3 (2 : ℕ)] s := by
  have ht : (openFile.abs.file 3).type ≠ sfsTypeDir := by
    rw [openFile_wf.file (Or.inr (Or.inl openFile_refs)) (by decide)]
    decide
  have hdoes : (onFile 3 (sfsItrunc 3 (2 : ℕ))).Does (fun _ => False) openFile _ :=
    (does_onFile openFile_refs ht).mpr
      (sfsItrunc_cut openFile_ok openFile_refs (by decide) (fun _ => rfl) (by decide))
  obtain ⟨r, s, hrun, rfl, -⟩ := hdoes.exists_ok
  refine ⟨s, Run.start.snoc ⟨.truncate (by decide) ?_, fun _ off _ _ => ?_⟩⟩
  · exact Call.bind_of_ok (Call.attempt_of_ok hrun)
  · rw [openFile_file]

end Sfs

theorem hidden_reads_zero_extended : ∃ s,
    Run (guarded (CutsClean 3) Resizes) openFile [.truncate 3 (2 : ℕ)] s ∧
    ∃ res u' s' data, (SfsOp.read 3 ⟨[2], 0, 2, .read, []⟩).run s =
        .ok (.ok (res, .uio u'), s') ∧ u'.bytes = [] ++ data ∧
      (∀ x < data.length, Hidden 3 (openFile.view 3).size [.truncate 3 (2 : ℕ)] (0 + x) →
        data.getD x 0 = 0) ∧
      ((s.view 3).size ≤ (15 + 128) * 512 → res = .ok () ∧
        data.length = min 2 ((s.view 3).size - 0)) := by
  obtain ⟨s, hrun⟩ := openFile_extended
  refine ⟨s, hrun, hidden_reads_zero openFile_healthy
    ((openFile_onlyFile.loaded_iff (by decide)).mpr (Or.inl rfl)) (by decide) (fun off _ => ?_)
    hrun rfl (by decide) (by decide)⟩
  rw [openFile_file]

/-- The bytes in a uio that was handed back. -/
def SfsRet.bytes : SfsRet → List UInt8
  | .uio u => u.bytes
  | _ => []

/-- Two bytes are written, the second is cut off and the file is extended again : it shows. -/
theorem cut_byte_shows : ((do
    let w ← (SfsOp.write 3 ⟨[2], 0, 2, .write, [7, 7]⟩).run
    let t ← (SfsOp.truncate 3 1).run
    let t' ← (SfsOp.truncate 3 2).run
    let r ← (SfsOp.read 3 ⟨[2], 0, 2, .read, []⟩).run
    pure ([w.1, t.1, t'.1, r.1].map Except.toOption, r.2.bytes) : SfsM _) openFile).toOption.bind
      (fun r => r.1.toOption) =
    some ([some (), some (), some (), some ()], [7, 7]) := by
  decide +kernel

end OS161

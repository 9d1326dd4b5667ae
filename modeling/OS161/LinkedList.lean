import Mathlib.Data.List.Nodup
import OS161.Outcome

/-!
# Linked lists in memory

A singly linked list is a pointer `p` to its first node and a function `next`, which reads
the pointer field of a node; `0` is the end. `IsList next p l` says that its nodes are `l`.
A list that ends has no node twice (`IsList.nodup`), and it is the only list from its first
node on (`IsList.unique`).

`findAlong` is the search loop over such a list, and `linkTo` the loop with a pointer to a
pointer that looks for the place where the pointer to a node is stored. Both count their
steps : a list that does not end is the outcome `stuck`. `findAlong_eq` and `linkTo_eq` say
what they find, `IsList.unlink` is the removal of a node, and `linkTo_unlink` the same for
pointers in the words of a memory, `off` behind the address of their node.
-/

namespace OS161

open Function

variable {ε : Type} {next next' : ℕ → ℕ} {p : ℕ} {l : List ℕ}

/-- The nodes from `p` on are `l`. -/
def IsList (next : ℕ → ℕ) : ℕ → List ℕ → Prop
  | p, [] => p = 0
  | p, x :: l => p = x ∧ x ≠ 0 ∧ IsList next (next x) l

namespace IsList

theorem ne_zero : ∀ {l : List ℕ} {p : ℕ}, IsList next p l → ∀ x ∈ l, x ≠ 0
  | _ :: _, _, ⟨_, h0, hl⟩, _, hx => by
    rcases List.mem_cons.mp hx with rfl | hx
    · exact h0
    · exact hl.ne_zero _ hx

theorem eq_nil_iff (h : IsList next p l) : l = [] ↔ p = 0 := by
  cases l with
  | nil => exact ⟨fun _ => h, fun _ => rfl⟩
  | cons x l =>
    obtain ⟨rfl, h0, -⟩ := h
    exact ⟨nofun, fun hp => (h0 hp).elim⟩

/-- The nodes from a pointer on are determined by it. -/
theorem unique : ∀ {l l' : List ℕ} {p : ℕ}, IsList next p l → IsList next p l' → l = l'
  | [], l', p, h, h' => (h'.eq_nil_iff.mpr h).symm
  | x :: l, [], p, h, h' => absurd h' (h.eq_nil_iff.not.mp (List.cons_ne_nil x l))
  | x :: l, y :: l', p, ⟨hx, _, hl⟩, ⟨hy, _, hl'⟩ => by
    obtain rfl := hx.symm.trans hy
    rw [hl.unique hl']

theorem congr : ∀ {l : List ℕ} {p : ℕ}, IsList next p l → (∀ x ∈ l, next' x = next x) →
    IsList next' p l
  | [], _, h, _ => h
  | x :: l, _, ⟨hp, h0, hl⟩, hn => by
    refine ⟨hp, h0, ?_⟩
    rw [hn x List.mem_cons_self]
    exact hl.congr fun y hy => hn y (List.mem_cons_of_mem _ hy)

/-- The nodes behind a node are a list of their own. -/
theorem of_append : ∀ {pre : List ℕ} {p x : ℕ} {l : List ℕ}, IsList next p (pre ++ x :: l) →
    IsList next x (x :: l)
  | [], _, _, _, ⟨_, h0, hl⟩ => ⟨rfl, h0, hl⟩
  | _ :: pre, _, x, l, ⟨_, _, hl⟩ =>
    have hl : IsList next _ (pre ++ x :: l) := hl
    hl.of_append

/-- A list that ends has no node twice. -/
theorem nodup : ∀ {l : List ℕ} {p : ℕ}, IsList next p l → l.Nodup
  | [], _, _ => List.nodup_nil
  | x :: l, p, ⟨hp, h0, hl⟩ => by
    refine List.nodup_cons.mpr ⟨fun hx => ?_, hl.nodup⟩
    obtain ⟨pre, post, rfl⟩ := List.append_of_mem hx
    -- From `x` on there would be two lists of different lengths.
    have hx' : IsList next x (x :: (pre ++ x :: post)) := ⟨rfl, h0, hl⟩
    have heq := hl.of_append.unique hx'
    have := congrArg List.length heq
    simp only [List.length_cons, List.length_append] at this
    omega

/-- A node is put at the front. -/
theorem push {x : ℕ} (h : IsList next p l) (h0 : x ≠ 0) (hn : next' x = p)
    (hn' : ∀ y ∈ l, next' y = next y) : IsList next' x (x :: l) := by
  refine ⟨rfl, h0, ?_⟩
  rw [hn]
  exact h.congr hn'

end IsList

/-! ## Searching -/

/-- `for (p = base; p != NULL; p = p->next)`, left at the first node that `check` picks. -/
def findAlong (stuck : ε) (next : ℕ → ℕ) (check : ℕ → Except ε Bool) :
    ℕ → ℕ → Except ε (Option ℕ)
  | 0, _ => .error stuck
  | n + 1, p =>
    if p = 0 then .ok none
    else do
      if ← check p then .ok (some p) else findAlong stuck next check n (next p)

theorem findAlong_eq {stuck : ε} {check : ℕ → Except ε Bool} {f : ℕ → Bool} :
    ∀ {l : List ℕ} {n p : ℕ}, IsList next p l → l.length < n →
      (∀ x ∈ l, check x = .ok (f x)) → findAlong stuck next check n p = .ok (l.find? f)
  | [], n + 1, _, h, _, _ => if_pos h
  | x :: l, n + 1, _, ⟨rfl, h0, hl⟩, hn, hc => by
    rw [findAlong, if_neg h0, hc _ List.mem_cons_self, ok_bind, List.find?_cons]
    cases f x with
    | true => rfl
    | false =>
      exact findAlong_eq hl (Nat.lt_of_succ_lt_succ hn) fun y hy => hc y (List.mem_cons_of_mem _ hy)

/-! ## Removing a node -/

/-- `for (guy = &base; *guy; guy = &(*guy)->next)`, left when `*guy` is `target`. A place is
the pointer field of a node, or the variable with the first pointer (`none`). -/
def linkTo (stuck : ε) (next : ℕ → ℕ) (base target : ℕ) :
    ℕ → Option ℕ → Except ε (Option (Option ℕ))
  | 0, _ => .error stuck
  | n + 1, guy =>
    let cur := guy.elim base next
    if cur = 0 then .ok none
    else if cur = target then .ok (some guy)
    else linkTo stuck next base target n (some cur)

/-- The pointer to a node is in the node before it. -/
theorem linkTo_eq (stuck : ε) {base target : ℕ} {post : List ℕ} :
    ∀ (pre : List ℕ) {n : ℕ} (guy : Option ℕ), IsList next (guy.elim base next)
      (pre ++ target :: post) → target ∉ pre → pre.length < n →
      linkTo stuck next base target n guy = .ok (some (pre.getLast?.or guy))
  | [], n + 1, guy, ⟨hp, h0, _⟩, _, _ => by
    rw [linkTo, hp, if_neg h0, if_pos rfl]
    rfl
  | x :: pre, n + 1, guy, ⟨hp, h0, hl⟩, ht, hn => by
    have hne : x ≠ target := fun he => ht (he ▸ List.mem_cons_self)
    have hpre : target ∉ pre := fun hm => ht (List.mem_cons_of_mem _ hm)
    rw [linkTo, hp, if_neg h0, if_neg hne,
      linkTo_eq stuck pre (some x) hl hpre (Nat.lt_of_succ_lt_succ hn)]
    cases pre with
    | nil => rfl
    | cons y pre => rw [List.getLast?_cons_cons, List.getLast?_cons, Option.some_or, Option.some_or]

/-- The pointer to `target` is replaced by the one that `target` has. -/
theorem IsList.unlink {target : ℕ} {post : List ℕ} :
    ∀ {pre : List ℕ} {p : ℕ}, IsList next p (pre ++ target :: post) → target ∉ pre →
      (∀ x, next' x = if pre.getLast? = some x then next target else next x) →
      IsList next' (if pre = [] then next target else p) (pre ++ post)
  | [], _, ⟨_, _, hl⟩, _, hn => by
    exact hl.congr fun x _ => (hn x).trans (if_neg nofun)
  | [x], _, h, _, hn => by
    obtain ⟨hp, h0, hl⟩ := h
    refine ⟨hp, h0, ?_⟩
    rw [hn x, if_pos List.getLast?_singleton]
    have hx : IsList next x (x :: target :: post) := ⟨rfl, h0, hl⟩
    have hnd := (List.nodup_cons.mp hx.nodup).1
    refine hl.2.2.congr fun y hy => (hn y).trans (if_neg fun he => hnd ?_)
    rw [Option.some.inj (List.getLast?_singleton.symm.trans he)]
    exact List.mem_cons_of_mem _ hy
  | x :: y :: pre, _, h, ht, hn => by
    obtain ⟨hp, h0, hl⟩ := h
    have hx : IsList next x (x :: ((y :: pre) ++ target :: post)) := ⟨rfl, h0, hl⟩
    have hnd := (List.nodup_cons.mp hx.nodup).1
    refine ⟨hp, h0, ?_⟩
    have hkeep : next' x = next x := by
      refine (hn x).trans (if_neg fun he => hnd ?_)
      exact List.mem_append_left _ (List.mem_of_getLast? he)
    have := hl.unlink (fun hm => ht (List.mem_cons_of_mem _ hm)) hn
    rw [hkeep]
    exact this

/-- Memory after the pointer in `guy` was replaced by `v`. -/
def setLink (mem : ℕ → ℕ) (off v : ℕ) : Option ℕ → ℕ → ℕ
  | none => mem
  | some x => update mem (x + off) v

/-- The loop finds the pointer to a node of the list, and storing the next pointer there
removes the node. -/
theorem linkTo_unlink (stuck : ε) {mem : ℕ → ℕ} (off : ℕ) {base target n : ℕ}
    (h : IsList (fun x => mem (x + off)) base l) (ht : target ∈ l) (hn : l.length < n) :
    ∃ guy, linkTo stuck (fun x => mem (x + off)) base target n none = .ok (some guy) ∧
      (∀ x, guy = some x → x ∈ l) ∧
      IsList (fun x => setLink mem off (mem (target + off)) guy (x + off))
        (guy.elim (mem (target + off)) fun _ => base) (l.filter (· ≠ target)) := by
  have hnd := h.nodup
  obtain ⟨pre, post, rfl⟩ := List.append_of_mem ht
  have hdisj := (List.nodup_append.mp hnd).2.2
  have hpre : target ∉ pre := fun hm => hdisj _ hm _ List.mem_cons_self rfl
  have hpost : target ∉ post := (List.nodup_cons.mp (List.nodup_append.mp hnd).2.1).1
  have hfilter : (pre ++ target :: post).filter (fun x => decide (x ≠ target)) = pre ++ post := by
    rw [List.filter_append, List.filter_cons_of_neg (by simp), List.filter_eq_self.mpr,
      List.filter_eq_self.mpr]
    · exact fun x hx => decide_eq_true (ne_of_mem_of_not_mem hx hpost)
    · exact fun x hx => decide_eq_true (ne_of_mem_of_not_mem hx hpre)
  rw [List.length_append] at hn
  have hlink := linkTo_eq stuck pre none h hpre (Nat.lt_of_le_of_lt (Nat.le_add_right _ _) hn)
  rw [Option.or_none] at hlink
  refine ⟨pre.getLast?, hlink, fun x hx => List.mem_append_left _ (List.mem_of_getLast? hx), ?_⟩
  rw [hfilter]
  have hbase : (pre.getLast?.elim (mem (target + off)) fun _ => base) =
      if pre = [] then mem (target + off) else base := by
    rcases List.eq_nil_or_concat pre with rfl | ⟨l', x, rfl⟩
    · rfl
    · rw [List.concat_eq_append, List.getLast?_concat, if_neg (by simp)]
      rfl
  rw [hbase]
  refine h.unlink hpre fun x => ?_
  cases hl : pre.getLast? with
  | none => exact (if_neg nofun).symm
  | some y =>
    by_cases hxy : y = x
    · rw [hxy, if_pos rfl, setLink, update_self]
    · rw [if_neg fun he => hxy (Option.some.inj he), setLink,
        update_of_ne fun he => hxy (Nat.add_right_cancel he).symm]

end OS161

import Mathlib.Logic.Function.Basic
import Mathlib.Logic.Relation
import Mathlib.Order.WellFounded

/-!
# Graphs in which every vertex has at most one successor

A structure in which each object holds one pointer is a partial function `next : α → Option α`.
Its graph has an edge from `x` to `y` if the pointer of `x` is `y`.

`Ends next` says that no chase along the pointers goes on for ever. A graph that ends has no cycle
(`Ends.not_cycle`). Taking edges away keeps it (`Ends.mono`), and a new edge from `a` to `b` keeps
it if `b` does not lead to `a` (`Ends.link`). If `a` had no pointer, a new edge closes a cycle
exactly if `b` leads to `a` (`Ends.cycle_link_iff`).
-/

namespace OS161

open Function

namespace PointerGraph

open Relation

variable {α : Type*}

/-- There is an edge from `x` to `y`. -/
def Edge (next : α → Option α) (x y : α) : Prop :=
  next x = some y

/-- There is a path from `x` to `y`, maybe the empty one. -/
abbrev Leads (next : α → Option α) : α → α → Prop :=
  ReflTransGen (Edge next)

/-- Some vertex lies on a cycle. -/
def Cycle (next : α → Option α) : Prop :=
  ∃ x, TransGen (Edge next) x x

/-- Every chase along the pointers ends. -/
def Ends (next : α → Option α) : Prop :=
  WellFounded fun y x => Edge next x y

variable {next next' : α → Option α} {a b x y z : α}

theorem edge_update_of_ne [DecidableEq α] {o : Option α} (h : x ≠ a) :
    Edge (update next a o) x y ↔ Edge next x y := by
  unfold Edge
  rw [update_of_ne h]

theorem edge_update_self [DecidableEq α] {o : Option α} :
    Edge (update next a o) a y ↔ o = some y := by
  unfold Edge
  rw [update_self]

/-- A vertex without a pointer leads to itself only. -/
theorem Leads.eq_of_none (h : Leads next x y) (hx : next x = none) : y = x := by
  rcases h.cases_head with heq | ⟨z, hz, -⟩
  · exact heq.symm
  · cases hx.symm.trans hz

/-- A path that leaves `x` goes along its pointer. -/
theorem leads_of_edge (h : Edge next x z) (hne : x ≠ y) : Leads next x y ↔ Leads next z y := by
  refine ⟨fun hxy => ?_, fun hzy => .head h hzy⟩
  rcases hxy.cases_head with heq | ⟨w, hw, hwy⟩
  · exact absurd heq hne
  · cases h.symm.trans hw
    exact hwy

namespace Ends

theorem of_none (h : ∀ x, next x = none) : Ends next :=
  ⟨fun x => ⟨x, fun _ hy => absurd ((h x).symm.trans hy) (Option.some_ne_none _).symm⟩⟩

theorem not_cycle (h : Ends next) : ¬Cycle next := by
  rintro ⟨x, hx⟩
  have hwf := WellFounded.transGen h
  exact hwf.irrefl.irrefl x (transGen_swap.mpr hx)

/-- Edges may be taken away. -/
theorem mono (h : Ends next) (hle : ∀ x y, next' x = some y → next x = some y) : Ends next' :=
  Subrelation.wf (fun hxy => hle _ _ hxy) h

/-- A vertex that does not lead to `a` does not see the pointer of `a`. -/
private theorem acc_update_of_not_leads (h : Ends next) (hn : ¬Leads next x a) (o : Option α)
    [DecidableEq α] : Acc (fun y x => Edge (update next a o) x y) x := by
  induction x using h.induction with
  | _ x ih =>
    refine ⟨x, fun y hy => ?_⟩
    have hxa : x ≠ a := by
      intro heq
      exact hn (heq ▸ .refl)
    have hy' : Edge next x y := (edge_update_of_ne hxa).mp hy
    exact ih y hy' fun hya => hn (.head hy' hya)

/-- A new edge may be added if its end does not lead to its start. -/
theorem link [DecidableEq α] (h : Ends next) (hn : ¬Leads next b a) :
    Ends (update next a (some b)) := by
  refine ⟨fun x => ?_⟩
  induction x using h.induction with
  | _ x ih =>
    refine ⟨x, fun y hy => ?_⟩
    by_cases hxa : x = a
    · subst hxa
      have hyb : b = y := Option.some_inj.mp (edge_update_self.mp hy)
      exact hyb ▸ h.acc_update_of_not_leads hn (some b)
    · exact ih y ((edge_update_of_ne hxa).mp hy)

/-- A path of the graph with a new pointer at `a` that starts at `b` and ends at `a` needs no new
edge. -/
private theorem leads_update [DecidableEq α] (ha : next a = none) (h : Leads next b a)
    (o : Option α) : Leads (update next a o) b a := by
  induction h using ReflTransGen.head_induction_on with
  | refl => exact .refl
  | head hxy _ ih =>
    refine .head ((edge_update_of_ne ?_).mpr hxy) ih
    rintro rfl
    cases ha.symm.trans hxy

/-- The new edge closes a cycle exactly if its end leads to its start. -/
theorem cycle_link_iff [DecidableEq α] (h : Ends next) (ha : next a = none) :
    Cycle (update next a (some b)) ↔ Leads next b a := by
  refine ⟨fun hc => ?_, fun hl => ⟨a, ?_⟩⟩
  · by_contra hn
    exact (h.link hn).not_cycle hc
  · exact .head' (edge_update_self.mpr rfl) (leads_update ha hl (some b))

end Ends

end PointerGraph

end OS161

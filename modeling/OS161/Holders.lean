import Mathlib.Data.Set.Insert

/-!
# Marks and holders

An allocator marks the things it has given out, and the rest of the program refers to them.
`Held marked R loose` says that the two agree : a thing is marked exactly if some holder refers
to it or it is `loose`, which is what a function has in hand between taking it and recording
it. No two holders refer to the same thing, and nobody refers to a loose one. Here `R o b` is
"holder `o` refers to `b`"; a holder may refer to any number of things.

There is one lemma for each thing a program does : marking a free thing (`Held.mark`) and
unmarking loose ones (`Held.unmark`), recording a loose thing with a holder (`Held.attach`) and
taking things back from their holders (`Held.detach`).
-/

namespace OS161

variable {ο β : Type*} {marked marked' : β → Prop} {R R' : ο → β → Prop} {loose loose' : Set β}
  {b₀ : β}

/-- The marked things are those that are loose or referred to, each by one holder. -/
structure Held (marked : β → Prop) (R : ο → β → Prop) (loose : Set β) : Prop where
  mem : ∀ b, marked b ↔ b ∈ loose ∨ ∃ o, R o b
  inj : ∀ {o o' b}, R o b → R o' b → o = o'
  disj : ∀ {o b}, R o b → b ∉ loose

namespace Held

theorem marked_of (h : Held marked R loose) {o : ο} {b : β} (hR : R o b) : marked b :=
  (h.mem b).mpr (Or.inr ⟨o, hR⟩)

theorem marked_loose (h : Held marked R loose) {b : β} (hb : b ∈ loose) : marked b :=
  (h.mem b).mpr (Or.inl hb)

theorem congr (h : Held marked R loose) (hm : ∀ b, marked' b ↔ marked b)
    (hR : ∀ o b, R' o b ↔ R o b) : Held marked' R' loose where
  mem b := by
    rw [hm, h.mem]
    exact or_congr_right (exists_congr fun o => (hR o b).symm)
  inj h1 h2 := h.inj ((hR _ _).mp h1) ((hR _ _).mp h2)
  disj h1 := h.disj ((hR _ _).mp h1)

/-- A thing that was free is taken. -/
theorem mark (h : Held marked R loose) (hfree : ¬marked b₀)
    (hm : ∀ b, marked' b ↔ marked b ∨ b = b₀) : Held marked' R (insert b₀ loose) where
  mem b := by
    rw [hm, h.mem, Set.mem_insert_iff, or_comm, or_assoc]
  inj := h.inj
  disj {o b} hR hb := by
    rcases hb with rfl | hb
    · exact hfree (h.marked_of hR)
    · exact h.disj hR hb

/-- The things in `D` are released. -/
theorem unmark (h : Held marked R loose) {D : Set β} (hD : D ⊆ loose)
    (hm : ∀ b, marked' b ↔ marked b ∧ b ∉ D) (hl : ∀ b, b ∈ loose' ↔ b ∈ loose ∧ b ∉ D) :
    Held marked' R loose' where
  mem b := by
    rw [hm, h.mem, hl]
    constructor
    · rintro ⟨hb | hR, hD⟩
      · exact Or.inl ⟨hb, hD⟩
      · exact Or.inr hR
    · rintro (⟨hb, hD⟩ | ⟨o, hR⟩)
      · exact ⟨Or.inl hb, hD⟩
      · exact ⟨Or.inr ⟨o, hR⟩, fun hb => h.disj hR (hD hb)⟩
  inj := h.inj
  disj hR hb := h.disj hR ((hl _).mp hb).1

/-- A loose thing is recorded with `o₀`. -/
theorem attach (h : Held marked R loose) (o₀ : ο) (hb₀ : b₀ ∈ loose)
    (hR : ∀ o b, R' o b ↔ R o b ∨ o = o₀ ∧ b = b₀)
    (hl : ∀ b, b ∈ loose' ↔ b ∈ loose ∧ b ≠ b₀) : Held marked R' loose' where
  mem b := by
    rw [h.mem, hl]
    constructor
    · rintro (hb | ⟨o, ho⟩)
      · by_cases h0 : b = b₀
        · exact Or.inr ⟨o₀, (hR _ _).mpr (Or.inr ⟨rfl, h0⟩)⟩
        · exact Or.inl ⟨hb, h0⟩
      · exact Or.inr ⟨o, (hR _ _).mpr (Or.inl ho)⟩
    · rintro (⟨hb, -⟩ | ⟨o, ho⟩)
      · exact Or.inl hb
      · rcases (hR _ _).mp ho with ho | ⟨-, rfl⟩
        · exact Or.inr ⟨o, ho⟩
        · exact Or.inl hb₀
  inj {o o' b} h1 h2 := by
    rcases (hR _ _).mp h1 with h1 | ⟨rfl, rfl⟩
    · rcases (hR _ _).mp h2 with h2 | ⟨-, rfl⟩
      · exact h.inj h1 h2
      · exact absurd hb₀ (h.disj h1)
    · rcases (hR _ _).mp h2 with h2 | ⟨rfl, -⟩
      · exact absurd hb₀ (h.disj h2)
      · rfl
  disj {o b} h1 hb := by
    obtain ⟨hb, hne⟩ := (hl b).mp hb
    rcases (hR _ _).mp h1 with h1 | ⟨-, rfl⟩
    · exact h.disj h1 hb
    · exact hne rfl

/-- The things in `D` are taken from their holders. -/
theorem detach (h : Held marked R loose) {D : Set β} (hD : ∀ b ∈ D, ∃ o, R o b)
    (hR : ∀ o b, R' o b ↔ R o b ∧ b ∉ D) : Held marked R' (D ∪ loose) where
  mem b := by
    rw [h.mem]
    constructor
    · rintro (hb | ⟨o, ho⟩)
      · exact Or.inl (Or.inr hb)
      · by_cases h0 : b ∈ D
        · exact Or.inl (Or.inl h0)
        · exact Or.inr ⟨o, (hR _ _).mpr ⟨ho, h0⟩⟩
    · rintro ((hb | hb) | ⟨o, ho⟩)
      · exact Or.inr (hD b hb)
      · exact Or.inl hb
      · exact Or.inr ⟨o, ((hR _ _).mp ho).1⟩
  inj h1 h2 := h.inj ((hR _ _).mp h1).1 ((hR _ _).mp h2).1
  disj {o b} h1 hb := by
    obtain ⟨h1, hn⟩ := (hR _ _).mp h1
    rcases hb with hb | hb
    · exact hn hb
    · exact h.disj h1 hb

end Held

end OS161

import Gazetteer.Proofs.Geometry.Spreading
import Mathlib.Logic.ExistsUnique
import Mathlib.Logic.Relation

/-! The hierarchy of cells. Steps from cells to their parents lead to exactly the cells whose keys
hold theirs, so the keys of two cells are nested or have nothing in common. -/
namespace Gazetteer.Cell

-- Powers of natural numbers are those of core.
attribute [local instance (high)] instPowNat

/-- Cells are the children of their parents. -/
theorem parent?_eq_some_iff {c p : Cell} : c.parent? = some p ↔ c ∈ p.children := by
  obtain ⟨level, x, y, _, _, _⟩ := c
  obtain ⟨level', x', y', _, _, _⟩ := p
  rw [mem_children_iff]
  cases level with
  | zero =>
    apply iff_of_false
    · nofun
    · rintro ⟨hlevel, -⟩
      cases hlevel
  | succ l =>
    simp only [parent?, Option.some.injEq, mk.injEq, Nat.add_right_cancel_iff]

/-- Parent steps, none or more, lead from `a` to `b`. -/
def Below (a b : Cell) : Prop := Relation.ReflTransGen (fun c p : Cell => c.parent? = some p) a b

/-- The keys of `a` are keys of `b`. -/
def Inside (a b : Cell) : Prop := b.keys.lo ≤ a.keys.lo ∧ a.keys.hi ≤ b.keys.hi

/-- Parent steps lead to cells that hold the keys. -/
theorem Below.inside {a b : Cell} (h : a.Below b) : a.Inside b := by
  induction h with
  | refl => exact ⟨Nat.le_refl _, Nat.le_refl _⟩
  | tail _ hparent ih =>
    obtain ⟨hlo, hhi⟩ := keys_within_parent (parent?_eq_some_iff.mp hparent)
    exact ⟨Nat.le_trans hlo ih.1, Nat.le_trans ih.2 hhi⟩

private theorem exists_below {a : Cell} {level : Nat} (h : level ≤ a.level) :
    ∃ b : Cell, b.level = level ∧ a.Below b := by
  obtain ⟨steps, hsteps⟩ := Nat.exists_eq_add_of_le h
  induction steps generalizing a with
  | zero => exact ⟨a, hsteps, .refl⟩
  | succ steps ih =>
    have hfiner : a.level = (level + steps) + 1 := hsteps
    obtain ⟨p, hp, hchild⟩ := exists_parent hfiner
    obtain ⟨b, hb, hbelow⟩ := ih (by omega) hp
    exact ⟨b, hb, hbelow.head (parent?_eq_some_iff.mpr hchild)⟩

/-- A cell has four times as many keys for each level below it. -/
theorem length_keys (c : Cell) : c.keys.hi - c.keys.lo = 4 ^ (World.finestLevel - c.level) := by
  rw [keys, ← Nat.sub_mul, Nat.add_sub_cancel_left, Nat.one_mul]

private theorem level_le_of_inside {a b : Cell} (h : a.Inside b) : b.level ≤ a.level := by
  apply Nat.le_of_not_lt
  intro hlt
  have ha := a.length_keys
  have hb := b.length_keys
  have hfewer : 4 ^ (World.finestLevel - b.level) < 4 ^ (World.finestLevel - a.level) := by
    have := b.level_le
    exact Nat.pow_lt_pow_right (by decide) (by omega)
  have := h.1
  have := h.2
  omega

/-- A cell holds the keys of another one exactly if parent steps lead to it from there. -/
theorem inside_iff_below {a b : Cell} : a.Inside b ↔ a.Below b := by
  refine ⟨fun h => ?_, Below.inside⟩
  obtain ⟨c, hlevel, hbelow⟩ := exists_below (level_le_of_inside h)
  have hkey : a.keys.lo ∈ b.keys := ⟨h.1, Nat.lt_of_lt_of_le a.keys_nonempty h.2⟩
  have hkey' : a.keys.lo ∈ c.keys :=
    ⟨hbelow.inside.1, Nat.lt_of_lt_of_le a.keys_nonempty hbelow.inside.2⟩
  exact eq_of_mem_keys hlevel hkey' hkey ▸ hbelow

private theorem inside_or_apart {a b : Cell} (h : b.level ≤ a.level) :
    a.keys.hi ≤ b.keys.lo ∨ b.keys.hi ≤ a.keys.lo ∨ a.Inside b := by
  obtain ⟨c, hlevel, hbelow⟩ := exists_below h
  obtain ⟨hlo, hhi⟩ := hbelow.inside
  by_cases hshared : a.keys.lo < b.keys.hi ∧ b.keys.lo < a.keys.hi
  · -- The later of the two starts is a key of both, so of the cell above `a` and of `b`.
    have hb : max a.keys.lo b.keys.lo ∈ b.keys :=
      ⟨Nat.le_max_right .., Nat.max_lt.mpr ⟨hshared.1, b.keys_nonempty⟩⟩
    have hc : max a.keys.lo b.keys.lo ∈ c.keys :=
      ⟨Nat.le_trans hlo (Nat.le_max_left ..),
        Nat.lt_of_lt_of_le (Nat.max_lt.mpr ⟨a.keys_nonempty, hshared.2⟩) hhi⟩
    exact .inr (.inr (eq_of_mem_keys hlevel hc hb ▸ hbelow.inside))
  · omega

/-- The keys of two cells are apart, or one cell holds those of the other. -/
theorem apart_or_inside (a b : Cell) :
    a.keys.hi ≤ b.keys.lo ∨ b.keys.hi ≤ a.keys.lo ∨ a.Inside b ∨ b.Inside a := by
  rcases Nat.le_total b.level a.level with h | h
  · rcases inside_or_apart h with h | h | h
    · exact .inl h
    · exact .inr (.inl h)
    · exact .inr (.inr (.inl h))
  · rcases inside_or_apart h with h | h | h
    · exact .inr (.inl h)
    · exact .inl h
    · exact .inr (.inr (.inr h))

/-- The children of a cell share out its keys in their order. -/
theorem keys_children {c : Cell} (h : c.level < World.finestLevel) :
    ∃ d₀ d₁ d₂ d₃, c.children = [d₀, d₁, d₂, d₃] ∧ d₀.keys.lo = c.keys.lo ∧
      d₀.keys.hi = d₁.keys.lo ∧ d₁.keys.hi = d₂.keys.lo ∧ d₂.keys.hi = d₃.keys.lo ∧
      d₃.keys.hi = c.keys.hi := by
  have hcodes := map_code_children h
  have hlevels : ∀ d ∈ c.children, d.level = c.level + 1 := fun d hd => (mem_children_iff.mp hd).1
  obtain ⟨d₀, d₁, d₂, d₃, hchildren⟩ : ∃ d₀ d₁ d₂ d₃, c.children = [d₀, d₁, d₂, d₃] := by
    rw [children, dif_pos h]
    exact ⟨_, _, _, _, rfl⟩
  rw [hchildren] at hcodes hlevels
  simp only [List.map_cons, List.map_nil, List.cons.injEq, and_true] at hcodes
  simp only [List.forall_mem_cons] at hlevels
  obtain ⟨h₀, h₁, h₂, h₃⟩ := hcodes
  obtain ⟨l₀, l₁, l₂, l₃, -⟩ := hlevels
  have hspan : 4 ^ (World.finestLevel - c.level) = 4 ^ (World.finestLevel - (c.level + 1)) * 4 := by
    rw [← Nat.pow_succ]
    congr 1
    omega
  refine ⟨d₀, d₁, d₂, d₃, hchildren, ?_⟩
  simp only [keys, h₀, h₁, h₂, h₃, l₀, l₁, l₂, l₃, hspan, true_and]
  generalize 4 ^ (World.finestLevel - (c.level + 1)) = span
  refine ⟨?_, ?_⟩ <;> grind

/-- Cells and their keys are one hierarchy. The keys of a cell can be computed in machine words with
nothing lost; they are not empty, below `2 ^ 48`, and as many as there are finest cells in the cell.
The children of a cell share out its keys in their order, and it is the parent of each. The keys of
two cells have nothing in common or those of one are keys of the other, and they are exactly if the
other is reached by parent steps. Each key belongs to one cell of every level. -/
theorem hierarchy :
    (∀ a : Cell,
      (∃ lo hi, a.keyWords? = some (lo, hi) ∧ lo.toNat = a.keys.lo ∧ hi.toNat = a.keys.hi) ∧
        a.keys.lo < a.keys.hi ∧ a.keys.hi ≤ 2 ^ 48 ∧
        a.keys.hi - a.keys.lo = 4 ^ (24 - a.level)) ∧
      (∀ a : Cell, a.level < 24 →
        (∃ d₀ d₁ d₂ d₃, a.children = [d₀, d₁, d₂, d₃] ∧ d₀.keys.lo = a.keys.lo ∧
          d₀.keys.hi = d₁.keys.lo ∧ d₁.keys.hi = d₂.keys.lo ∧ d₂.keys.hi = d₃.keys.lo ∧
          d₃.keys.hi = a.keys.hi) ∧
        ∀ d ∈ a.children, d.parent? = some a) ∧
      (∀ a b : Cell,
        (a.keys.hi ≤ b.keys.lo ∨ b.keys.hi ≤ a.keys.lo ∨
          (b.keys.lo ≤ a.keys.lo ∧ a.keys.hi ≤ b.keys.hi) ∨
          (a.keys.lo ≤ b.keys.lo ∧ b.keys.hi ≤ a.keys.hi)) ∧
        ((b.keys.lo ≤ a.keys.lo ∧ a.keys.hi ≤ b.keys.hi) ↔
          Relation.ReflTransGen (fun c p : Cell => c.parent? = some p) a b)) ∧
      ∀ level ≤ 24, ∀ key < 2 ^ 48, ∃! c : Cell, c.level = level ∧ key ∈ c.keys := by
  refine ⟨fun a => ?_, fun a h => ⟨keys_children h, ?_⟩, fun a b => ?_, ?_⟩
  · exact ⟨a.keyWords?_eq, a.keys_nonempty, a.keys_hi_le, a.length_keys⟩
  · exact fun d hd => parent?_eq_some_iff.mpr hd
  · exact ⟨apart_or_inside a b, inside_iff_below⟩
  · intro level hlevel key hkey
    obtain ⟨c, hc, hmem⟩ := exists_mem_keys hlevel hkey
    exact ⟨c, ⟨hc, hmem⟩, fun d hd => eq_of_mem_keys (hd.1.trans hc.symm) hd.2 hmem⟩

end Gazetteer.Cell

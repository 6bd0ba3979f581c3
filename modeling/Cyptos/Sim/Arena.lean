import Mathlib.Tactic

/-!
# Arenas

An arena hands out blocks of an interval of addresses and never takes one back. Its owner only
has to grant each block behind a mark, and to move the mark to the block's end. Then all blocks
lie in the interval and no two of them share an address.
-/

namespace Sim
set_option autoImplicit false

/-- The addresses from `start` on, `size` of them. -/
structure Block where
  start : Nat
  size : Nat

def Block.Contains (b : Block) (a : Nat) : Prop := b.start ≤ a ∧ a < b.start + b.size

/-- Two blocks share no address. -/
def Block.Apart (b c : Block) : Prop := ∀ a, ¬ (b.Contains a ∧ c.Contains a)

theorem Block.Apart.symm {b c : Block} (apart : b.Apart c) : c.Apart b := fun a both => apart a ⟨both.2, both.1⟩

theorem Block.apart_of_le {b c : Block} (before : b.start + b.size ≤ c.start) : b.Apart c := by
  rintro a ⟨⟨-, high⟩, ⟨low, -⟩⟩
  omega

/-- An interval, a mark in it, and the blocks granted so far, each under a name of its own. -/
structure Arena (ι : Type) where
  low : Nat
  high : Nat
  mark : Nat
  granted : ι → Option Block

/-- The blocks lie between the low end and the mark, and no two of them overlap. -/
structure Arena.Sound {ι : Type} (a : Arena ι) : Prop where
  low_le : a.low ≤ a.mark
  le_high : a.mark ≤ a.high
  inside : ∀ i b, a.granted i = some b → a.low ≤ b.start ∧ b.start + b.size ≤ a.mark
  apart : ∀ i j b c, i ≠ j → a.granted i = some b → a.granted j = some c → b.Apart c

theorem Arena.sound_empty {ι : Type} {low high : Nat} (ordered : low ≤ high) :
    (⟨low, high, low, fun _ => none⟩ : Arena ι).Sound := ⟨le_rfl, ordered, nofun, nofun⟩

/-- Grant a block. -/
def Arena.grant {ι : Type} [DecidableEq ι] (a : Arena ι) (i : ι) (b : Block) : Arena ι :=
  { a with mark := b.start + b.size, granted := Function.update a.granted i (some b) }

/-- What one step of an arena may do: nothing, or grant a block between the mark and the end. -/
inductive Arena.Step {ι : Type} [DecidableEq ι] (a : Arena ι) : Arena ι → Prop
  | stay : Step a a
  | grant (i : ι) (b : Block) (fresh : a.mark ≤ b.start) (fits : b.start + b.size ≤ a.high) : Step a (a.grant i b)

section Step

variable {ι : Type} [DecidableEq ι] {a a' : Arena ι}

theorem Arena.Sound.grant (sound : a.Sound) {i : ι} {b : Block} (fresh : a.mark ≤ b.start)
    (fits : b.start + b.size ≤ a.high) : (a.grant i b).Sound := by
  have low := sound.low_le
  have other {j : ι} (away : j ≠ i) : (a.grant i b).granted j = a.granted j := Function.update_of_ne away _ _
  have here : (a.grant i b).granted i = some b := Function.update_self _ _ _
  -- an older block ends at the old mark, in front of the new one
  have older {j : ι} {c : Block} (away : j ≠ i) (at_ : (a.grant i b).granted j = some c) :
      a.low ≤ c.start ∧ c.start + c.size ≤ a.mark := by
    rw [other away] at at_
    exact sound.inside j c at_
  refine ⟨?_, fits, ?_, ?_⟩
  · simp only [Arena.grant]
    omega
  · intro j c at_
    simp only [Arena.grant]
    by_cases same : j = i
    · subst same
      obtain rfl := Option.some.inj (here.symm.trans at_)
      exact ⟨by omega, le_rfl⟩
    · obtain ⟨start, stop⟩ := older same at_
      exact ⟨start, by omega⟩
  · intro j k c d different first second
    by_cases atJ : j = i
    · subst atJ
      obtain rfl := Option.some.inj (here.symm.trans first)
      exact (Block.apart_of_le (le_trans (older different.symm second).2 fresh)).symm
    · by_cases atK : k = i
      · subst atK
        obtain rfl := Option.some.inj (here.symm.trans second)
        exact Block.apart_of_le (le_trans (older atJ first).2 fresh)
      · rw [other atJ] at first
        rw [other atK] at second
        exact sound.apart j k c d different first second

theorem Arena.Sound.step (sound : a.Sound) (step : a.Step a') : a'.Sound := by
  cases step with
  | stay => exact sound
  | grant i b fresh fits => exact sound.grant fresh fits

theorem Arena.Step.mark_le (step : a.Step a') : a.mark ≤ a'.mark := by
  cases step with
  | stay => exact le_rfl
  | grant i b fresh fits => exact le_trans fresh (Nat.le_add_right _ _)

end Step

end Sim

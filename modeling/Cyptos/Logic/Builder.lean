import Cyptos.Logic.Rights

/-!
# What the builder accepts

The builder's assertions decide which regions a task can have; the NAPOT encoding and the width
of the address registers decide what a programmed entry matches. The builder accepts the naturally
aligned power-of-two ranges, as many as there are entries. A range that lies in the physical
address space is matched exactly; one beyond it is accepted as well and matched modulo its size.
-/

namespace Cyptos
set_option autoImplicit false
open Riscv Riscv.Pmp

/-- A valid region passes the builder's checks. -/
theorem PmpRegion.Valid.checks {base size : BitVec 64} {flags : BitVec 8} (valid : PmpRegion.Valid ⟨base, size, flags⟩) :
    (size ≥ 8 ∧ isPowerOfTwo size = true) ∧ base &&& (size - 1) = 0 := by
  obtain ⟨m, k, bound, multiple, power⟩ := valid
  have base_eq : base.toNat = m * 2 ^ (k + 3) := multiple
  have size_eq : size.toNat = 2 ^ (k + 3) := power
  have pos := Nat.two_pow_pos k
  have large : 8 ≤ size.toNat := by
    rw [size_eq, pow_add]
    omega
  refine ⟨⟨BitVec.le_def.mpr large, (isPowerOfTwo_iff size).mpr ⟨k + 3, bound, power⟩⟩, ?_⟩
  have mask : (size - 1).toNat = 2 ^ (k + 3) - 1 := by
    rw [BitVec.toNat_sub_of_le (BitVec.le_def.mpr ?_), size_eq]
    · rfl
    · exact le_trans (by decide) large
  apply BitVec.eq_of_toNat_eq
  rw [BitVec.toNat_and, mask, Nat.and_two_pow_sub_one_eq_mod, base_eq, Nat.mul_mod_left]
  rfl

section Accepts

variable {b : PmpConfigBuilder} {regions : List PmpRegion}

/-- While there is room, a call is accepted exactly for a valid region. -/
theorem Built.accepts_iff (built : Built b regions) (base size : BitVec 64) (flags : BitVec 8) :
    (∃ b', b.region base size flags = .ok b') ↔ regions.length < 12 ∧ PmpRegion.Valid ⟨base, size, flags⟩ := by
  have next := built.next
  constructor
  · rintro ⟨b', accepted⟩
    have more := built.region accepted
    have fits := more.fits
    rw [List.length_append, List.length_singleton] at fits
    exact ⟨by omega, more.valid _ (by simp)⟩
  · rintro ⟨room, valid⟩
    have slot : b.nextIdx < pmpCount := by
      rw [next]
      exact (by omega : 4 + regions.length < 16)
    obtain ⟨shape, aligned⟩ := valid.checks
    exact ⟨_, by rw [PmpConfigBuilder.region, dif_pos slot, if_pos shape, if_pos aligned]⟩

theorem Built.accepts_mmio_iff (built : Built b regions) {mmio : List (BitVec 64 × BitVec 64)} :
    (∃ b', mmio.foldlM (fun b r => b.mmioRegion r.1 r.2) b = .ok b') ↔
      regions.length + mmio.length ≤ 12 ∧ ∀ r ∈ mmioRegions mmio, r.Valid := by
  induction mmio generalizing b regions with
  | nil => exact ⟨fun _ => ⟨built.fits, by simp [mmioRegions]⟩, fun _ => ⟨b, rfl⟩⟩
  | cons d mmio ih =>
    have first := built.accepts_iff d.1 d.2 Flags.RW
    constructor
    · rintro ⟨b', all⟩
      rw [List.foldlM_cons] at all
      obtain ⟨c, head, tail⟩ := Outcome.bind_ok.mp all
      obtain ⟨-, valid⟩ := first.mp ⟨c, head⟩
      obtain ⟨fits, rest⟩ := (ih (built.region head)).mp ⟨b', tail⟩
      rw [List.length_append, List.length_singleton] at fits
      refine ⟨by rw [List.length_cons]; omega, ?_⟩
      intro r member
      rcases List.mem_cons.mp member with rfl | member
      · exact valid
      · exact rest r member
    · rintro ⟨fits, valid⟩
      rw [List.length_cons] at fits
      obtain ⟨c, head⟩ := first.mpr ⟨by omega, valid _ (by simp [mmioRegions])⟩
      have room : (regions ++ [(⟨d.1, d.2, Flags.RW⟩ : PmpRegion)]).length + mmio.length ≤ 12 := by
        rw [List.length_append, List.length_singleton]
        omega
      have others : ∀ r ∈ mmioRegions mmio, r.Valid := fun r member => valid r (List.mem_cons_of_mem _ member)
      obtain ⟨b', tail⟩ := (ih (built.region head)).mpr ⟨room, others⟩
      refine ⟨b', ?_⟩
      rw [List.foldlM_cons]
      exact Outcome.bind_ok.mpr ⟨c, head, tail⟩

end Accepts

section Chain

variable {code stack : BitVec 64 × BitVec 64} {mmio : List (BitVec 64 × BitVec 64)}

/-- Loading an accepted chain programs the entries with what it declares. -/
theorem buildConfig_loaded {cfg : PmpConfig} (built : buildConfig code stack mmio = .ok cfg) {p : Regs}
    (free : TaskUnlocked p.file) :
    TaskMap (tableOf (chainRegions code stack mmio)) (loadTaskConfig p (List.ofFn cfg.regions)).file :=
  (buildConfig_ok built).1 ▸ loadTaskConfig_ofFn p cfg.regions free

theorem buildConfig_accepts (fits : mmio.length ≤ 10) (valid : ∀ r ∈ chainRegions code stack mmio, r.Valid) :
    ∃ cfg, buildConfig code stack mmio = .ok cfg := by
  obtain ⟨b, first⟩ := (built_builder.accepts_iff _ _ _).mpr ⟨by decide, valid _ List.mem_cons_self⟩
  have one := built_builder.region first
  obtain ⟨c, second⟩ := (one.accepts_iff _ _ _).mpr ⟨by simp, valid _ (List.mem_cons_of_mem _ List.mem_cons_self)⟩
  have two := one.region second
  have others : ∀ r ∈ mmioRegions mmio, r.Valid := fun r member =>
    valid r (List.mem_cons_of_mem _ (List.mem_cons_of_mem _ member))
  have room : 2 + mmio.length ≤ 12 := by omega
  obtain ⟨d, rest⟩ := two.accepts_mmio_iff.mpr ⟨room, others⟩
  exact ⟨d.build, Outcome.bind_ok.mpr ⟨b, first, Outcome.bind_ok.mpr ⟨c, second, Outcome.bind_ok.mpr ⟨d, rest, rfl⟩⟩⟩⟩

end Chain

/-- **What the builder accepts.** A chain of calls panics exactly when there are more than ten MMIO
regions or some region is no naturally aligned power-of-two range of at least eight bytes. Otherwise
the table is empty below entry 4 and holds the regions in order from there on. An entry that
`load_task_config` programs from it matches the region's addresses modulo the physical address
space, that is exactly the region when it lies inside. -/
theorem builder_panics_iff (code stack : BitVec 64 × BitVec 64) (mmio : List (BitVec 64 × BitVec 64)) :
    ((∃ message, buildConfig code stack mmio = .error message) ↔
        10 < mmio.length ∨ ∃ r ∈ chainRegions code stack mmio, ¬ r.Valid) ∧
      ∀ cfg, buildConfig code stack mmio = .ok cfg →
        cfg.regions = tableOf (chainRegions code stack mmio) ∧
        ∀ p : Regs, p.file.addrBits = 54 → TaskUnlocked p.file → ∀ i : Fin pmpCount, 4 ≤ i.val → ∀ a < 2 ^ 56,
          let hit := (loadTaskConfig p (List.ofFn cfg.regions)).file.entryMatches i a = true
          (hit ↔ ∃ r, (chainRegions code stack mmio)[i.val - 4]? = some r ∧ r.Reaches a) ∧
            ∀ r, (chainRegions code stack mmio)[i.val - 4]? = some r → r.base.toNat + r.size.toNat ≤ 2 ^ 56 →
              (hit ↔ r.Contains a) := by
  constructor
  · constructor
    · rintro ⟨message, panics⟩
      by_contra rejected
      rw [not_or, Nat.not_lt] at rejected
      obtain ⟨cfg, accepted⟩ := buildConfig_accepts rejected.1 fun r member =>
        by_contra fun invalid => rejected.2 ⟨r, member, invalid⟩
      rw [accepted] at panics
      cases panics
    · intro rejected
      cases result : buildConfig code stack mmio with
      | error message => exact ⟨message, rfl⟩
      | ok cfg =>
        obtain ⟨-, fits, valid⟩ := buildConfig_ok result
        rcases rejected with many | ⟨r, member, invalid⟩
        · simp only [chainRegions, mmioRegions, List.length_cons, List.length_map] at fits
          omega
        · exact absurd (valid r member) invalid
  · intro cfg result
    obtain ⟨table, loadable⟩ := buildConfig_ok result
    refine ⟨table, ?_⟩
    intro p bits free i task a physical hit
    have width := (loadTaskConfig_addrBits p (List.ofFn cfg.regions)).trans bits
    have entry : hit ↔ _ := (buildConfig_loaded result free).entry width loadable physical task
    refine ⟨entry, ?_⟩
    intro r slot inside
    rw [entry, ← PmpRegion.reaches_iff inside]
    constructor
    · rintro ⟨s, same, reaches⟩
      obtain rfl := Option.some.inj (slot.symm.trans same)
      exact reaches
    · exact fun reaches => ⟨r, slot, reaches⟩

theorem builder_panics_echo :
    (∃ message, buildConfig (0x8000_8000, 0x1000) (0x8002_2000, 0x1800) [(uartBase, 0x1000)] = .error message) ∧
      ∀ cfg, buildConfig (0x8000_8000, 0x1000) (0x8002_2000, 0x2000) [(uartBase, 0x1000)] = .ok cfg →
        cfg.regions 6 = ⟨uartBase, 0x1000, Flags.RW⟩ := by
  constructor
  · refine (builder_panics_iff _ _ _).1.mpr (.inr ⟨⟨0x8002_2000, 0x1800, Flags.RW⟩, by simp [chainRegions], ?_⟩)
    intro valid
    exact absurd valid.checks.1.2 (by decide)
  · intro cfg accepted
    rw [((builder_panics_iff _ _ _).2 cfg accepted).1]
    rfl

/-- A code region right above the physical address space is accepted, and gives access to address 0. -/
theorem builder_accepts_alias :
    ∃ cfg, buildConfig (0x100_0000_0000_0000, 0x1000) (0x8002_2000, 0x2000) [] = .ok cfg ∧
      (loadTaskConfig powerOn.kernel.pmp (List.ofFn cfg.regions)).file.entryMatches 4 0 = true := by
  let code : PmpRegion := ⟨0x100_0000_0000_0000, 0x1000, Flags.RX⟩
  obtain ⟨cfg, accepted⟩ :
      ∃ cfg, buildConfig (0x100_0000_0000_0000, 0x1000) (0x8002_2000, 0x2000) [] = .ok cfg := ⟨_, rfl⟩
  have free : TaskUnlocked powerOn.kernel.pmp.file := fun i _ => powerOn_reset.unlocked i
  have width := loadTaskConfig_addrBits powerOn.kernel.pmp (List.ofFn cfg.regions)
  have entry := (buildConfig_loaded accepted free).entry (i := 4) (a := 0) width (buildConfig_ok accepted).2
    (by decide) (by decide)
  have reaches : code.Reaches 0 := ⟨2 ^ 56, ⟨by decide, by decide⟩, by decide⟩
  exact ⟨cfg, accepted, entry.mpr ⟨code, rfl, reaches⟩⟩

end Cyptos

import Cyptos.Logic.Rights

/-!
# The kernel entries under later calls

After `init` the driver can still be called. Whatever the calls, the lock rules keep entries 1
to 3 and the address of entry 0. The configuration of entry 0 carries no lock, so it is the one
part of the kernel map that a later call can change.
-/

namespace Cyptos
set_option autoImplicit false
open Riscv Riscv.Pmp

/-! ## A call is a list of CSR writes -/

section Written

variable {p q : Regs}

theorem written_setPmpcfg (before : p.Written q) (i : Fin pmpCount) (cfg : BitVec 8) :
    p.Written (setPmpcfg q i cfg) := by
  unfold setPmpcfg
  dsimp only
  split
  · exact before.write _
  · exact before.write _

theorem written_configureRegion (u : Uart) (idx : Nat) (region : PmpRegion) :
    p.Written (configureRegion p u idx region).2.1 := by
  unfold configureRegion
  split
  · split
    · exact .refl p
    · split
      · exact .refl p
      · exact written_setPmpcfg (Regs.Written.write (.refl p) _) _ _
  · exact .refl p

theorem written_loadLoop (regions : List PmpRegion) (es : List (Fin pmpCount)) {s : LoadState}
    (before : p.Written s.regs) : p.Written (es.foldl (loadEntry regions) s).regs := by
  induction es generalizing s with
  | nil => exact before
  | cons e es ih =>
    apply ih
    rw [loadEntry_eq]
    exact before.write _

theorem written_loadTaskConfig (regions : List PmpRegion) : p.Written (loadTaskConfig p regions) := by
  have off : p.Written (cleared p) := ((Regs.Written.refl p).write _).write _
  exact ((written_loadLoop regions taskEntries (s := ⟨cleared p, 0, 0⟩) off).write _).write _

theorem written_clearLoop (es : List (Fin pmpCount)) (before : p.Written q) :
    p.Written (es.foldl (fun p i => writePmpaddr p i 0) q) := by
  induction es generalizing q with
  | nil => exact before
  | cons e es ih => exact ih (before.write _)

theorem written_clearAll : p.Written (clearAll p) := by
  have off : p.Written (writePmpcfg2 (writePmpcfg0 p 0) 0) := ((Regs.Written.refl p).write _).write _
  rw [clearAll]
  exact written_clearLoop _ off

theorem written_call (s : Regs × Uart) (call : DriverCall) : s.1.Written (call.run s).1 := by
  cases call with
  | loadTaskConfig regions => exact written_loadTaskConfig regions
  | configureRegion idx region => exact written_configureRegion s.2 idx region
  | clearAll => exact written_clearAll

end Written

/-! ## What stays -/

/-- The kernel entries of `f` are those of `g`, except for the anchor's configuration. -/
structure Pinned (g f : File) : Prop where
  addrBits : f.addrBits = g.addrBits
  cfg : ∀ i : Fin pmpCount, 1 ≤ i.val → i.val < 4 → f.cfg i = g.cfg i
  addr : ∀ i : Fin pmpCount, i.val < 4 → f.addr i = g.addr i

theorem Pinned.refl (f : File) : Pinned f f := ⟨rfl, fun _ _ _ => rfl, fun _ _ => rfl⟩

section Kept

variable {l : Layout} {g f : File}

theorem Pinned.cfg_locked (map : KernelMap l g) (pinned : Pinned g f) {i : Fin 16} (low : 1 ≤ i.val)
    (high : i.val < 4) : locked (f.cfg i) = true := by
  rw [pinned.cfg i low high]
  obtain rfl | rfl | rfl : i = 1 ∨ i = 2 ∨ i = 3 := by omega
  · rw [map.text]; rfl
  · rw [map.data]; rfl
  · rw [map.uart]; rfl

/-- The anchor's address is locked by the top-of-range entry above it, the others by their own entry. -/
theorem Pinned.addr_locked (map : KernelMap l g) (pinned : Pinned g f) {i : Fin 16} (high : i.val < 4) :
    f.addrLocked i = true := by
  by_cases anchor : i = 0
  · subst anchor
    have above : f.cfg 1 = Flags.X ||| Flags.L ||| Flags.aTor :=
      (pinned.cfg 1 (by decide) (by decide)).trans map.text
    have tor : (locked (f.cfg 1) && matching (f.cfg 1) == .tor) = true := by
      rw [above]
      rfl
    rw [File.addrLocked, Bool.or_eq_true, dif_pos (by decide)]
    exact .inr tor
  · have low : 1 ≤ i.val := by omega
    rw [File.addrLocked, pinned.cfg_locked map low high, Bool.true_or]

/-- With the anchor off, pinned entries are the kernel map. -/
theorem Pinned.kernel (map : KernelMap l g) (pinned : Pinned g f) (off : f.cfg 0 = Flags.aOff) : KernelMap l f where
  addrBits := pinned.addrBits.trans map.addrBits
  anchor := off
  text := (pinned.cfg 1 (by decide) (by decide)).trans map.text
  data := (pinned.cfg 2 (by decide) (by decide)).trans map.data
  uart := (pinned.cfg 3 (by decide) (by decide)).trans map.uart
  anchorAddr := by rw [pinned.addr 0 (by decide)]; exact map.anchorAddr
  textAddr := by rw [pinned.addr 1 (by decide)]; exact map.textAddr
  dataAddr := by rw [pinned.addr 2 (by decide)]; exact map.dataAddr
  uartAddr := by rw [pinned.addr 3 (by decide)]; exact map.uartAddr

/-- Switching the anchor off leaves the other entries pinned. -/
theorem Pinned.anchorOff (pinned : Pinned g f) : Pinned g { f with cfg := Function.update f.cfg 0 0 } := by
  refine ⟨pinned.addrBits, ?_, pinned.addr⟩
  intro i low high
  have other : i ≠ 0 := by
    rintro rfl
    exact absurd low (by decide)
  exact (Function.update_of_ne other _ _).trans (pinned.cfg i low high)

/-- No CSR write touches the pinned entries. -/
theorem Pinned.written (map : KernelMap l g) {p q : Regs} (pinned : Pinned g p.file) (written : p.Written q) :
    Pinned g q.file := by
  refine ⟨written.addrBits.trans pinned.addrBits, ?_, ?_⟩
  · intro i low high
    rw [written.cfg_locked (pinned.cfg_locked map low high)]
    exact pinned.cfg i low high
  · intro i high
    rw [written.addr_locked (pinned.addr_locked map high)]
    exact pinned.addr i high

end Kept

/-! ## What a call does to the anchor -/

/-- The checks that `configure_region` makes on a region. -/
def PmpRegion.Accepted (r : PmpRegion) : Prop :=
  isPowerOfTwo r.size = true ∧ ¬ r.size < 8 ∧ r.base &&& (r.size - 1) = 0

instance (r : PmpRegion) : Decidable r.Accepted := inferInstanceAs (Decidable (_ ∧ _ ∧ _))

/-- The flags that a call writes to entry 0, when it configures that entry. -/
def DriverCall.anchorFlags : DriverCall → Option (BitVec 8)
  | .configureRegion 0 r => if r.Accepted then some r.flags else none
  | _ => none

section Anchor

variable {p : Regs} {u : Uart} {s : Regs × Uart}

theorem configureRegion_rejected {idx : Nat} {region : PmpRegion} (rejected : ¬ region.Accepted) :
    (configureRegion p u idx region).2.1 = p := by
  unfold configureRegion
  split
  · split
    · rfl
    · rename_i shape
      split
      · rfl
      · rename_i aligned
        rw [Bool.not_eq_true, Bool.or_eq_false_iff] at shape
        exact absurd ⟨by simpa using shape.1, by simpa using shape.2, not_not.mp aligned⟩ rejected
  · rfl

theorem configureRegion_accepted {i : Fin pmpCount} {region : PmpRegion} (accepted : region.Accepted) :
    (configureRegion p u i region).2.1 =
      setPmpcfg (writePmpaddr p i region.napotAddr) i (region.flags ||| Flags.aNapot) := by
  rw [configureRegion_ok accepted.1 accepted.2.1 accepted.2.2]

theorem configureRegion_cfg_other {idx : Nat} {region : PmpRegion} (other : idx ≠ 0) :
    (configureRegion p u idx region).2.1.file.cfg 0 = p.file.cfg 0 := by
  by_cases accepted : region.Accepted
  · by_cases bound : idx < pmpCount
    · have away : (0 : Fin pmpCount) ≠ ⟨idx, bound⟩ := fun same => other (congrArg Fin.val same).symm
      rw [configureRegion_accepted (i := ⟨idx, bound⟩) accepted, setPmpcfg_eq]
      exact (Function.update_of_ne away _ _).trans (congrFun (writeAddr_cfg _ _ _) 0)
    · rw [configureRegion, dif_neg bound]
  · rw [configureRegion_rejected accepted]

theorem clearLoop_cfg (es : List (Fin pmpCount)) (p : Regs) :
    (es.foldl (fun p i => writePmpaddr p i 0) p).file.cfg = p.file.cfg := by
  induction es generalizing p with
  | nil => rfl
  | cons e es ih =>
    rw [List.foldl_cons, ih]
    exact writeAddr_cfg _ _ _

theorem clearAll_cfg_off {i : Fin pmpCount} (off : p.file.cfg i = 0) : (clearAll p).file.cfg i = 0 := by
  have first : (writePmpcfg0 p 0).file.cfg i = 0 :=
    (writeCfg_cfg_same p.file fun _ => (byteAt_zero _).trans off.symm).trans off
  rw [clearAll, clearLoop_cfg]
  exact (writeCfg_cfg_same (writePmpcfg0 p 0).file fun _ => (byteAt_zero _).trans first.symm).trans first

/-- A call that does not configure entry 0 leaves an anchor that is off. -/
theorem anchor_off {call : DriverCall} (off : s.1.file.cfg 0 = 0) (none : call.anchorFlags = none) :
    (call.run s).1.file.cfg 0 = 0 := by
  cases call with
  | loadTaskConfig regions => exact (loadTaskConfig_kernel_cfg s.1 regions (by decide)).trans off
  | clearAll => exact clearAll_cfg_off off
  | configureRegion idx region =>
    cases idx with
    | zero =>
      have rejected : ¬ region.Accepted := by
        intro accepted
        rw [DriverCall.anchorFlags, if_pos accepted] at none
        cases none
      exact (congrArg (fun q : Regs => q.file.cfg 0) (configureRegion_rejected rejected)).trans off
    | succ n => exact (configureRegion_cfg_other (Nat.succ_ne_zero n)).trans off

/-- A call that configures entry 0 puts a NAPOT entry there. -/
theorem anchor_configured {call : DriverCall} {flags : BitVec 8} (off : s.1.file.cfg 0 = 0)
    (some : call.anchorFlags = some flags) : (call.run s).1.file.cfg 0 = flags ||| Flags.aNapot := by
  cases call with
  | loadTaskConfig regions => cases some
  | clearAll => cases some
  | configureRegion idx region =>
    cases idx with
    | succ n => cases some
    | zero =>
      by_cases accepted : region.Accepted
      · rw [DriverCall.anchorFlags, if_pos accepted] at some
        cases some
        have call := configureRegion_accepted (p := s.1) (u := s.2) (i := 0) accepted
        have cfg : (writePmpaddr s.1 0 region.napotAddr).file.cfg 0 = 0 :=
          (congrFun (writeAddr_cfg _ _ _) 0).trans off
        have result : (configureRegion s.1 s.2 (0 : Fin pmpCount) region).2.1.file.cfg 0 =
            region.flags ||| Flags.aNapot := by
          rw [call, setPmpcfg_file (by rw [cfg]; rfl)]
          simp only [Function.update_self]
        exact result
      · rw [DriverCall.anchorFlags, if_neg accepted] at some
        cases some

end Anchor

/-! ## Rights in the kernel's ranges -/

/-- In the image and the UART page, `f` gives the rights that `g` gives. -/
def SameRights (l : Layout) (g f : File) : Prop :=
  ∀ a, (l.stext.toNat ≤ a ∧ a < l.eheap.toNat) ∨ UartPage a → ∀ mode k, f.permits mode k a = g.permits mode k a

/-- Flags of a locked execute-only entry. -/
def SealsText (flags : BitVec 8) : Prop := locked flags = true ∧ ∀ k, grants flags k = true ↔ k = .exec

theorem locked_napot (flags : BitVec 8) : locked (flags ||| Flags.aNapot) = locked flags := by
  simp [locked, Flags.aNapot]

section Rights

variable {l : Layout} {g f : File}

/-- Two kernel maps give the same rights. -/
theorem KernelMap.sameRights (first : KernelMap l g) (second : KernelMap l f) : SameRights l g f := by
  intro a inside mode k
  rw [Bool.eq_iff_iff]
  rcases inside with ⟨low, high⟩ | uart
  · rcases Nat.lt_or_ge a l.userTextEnd.toNat with below | above
    · rw [first.permits_text ⟨low, below⟩, second.permits_text ⟨low, below⟩]
    · rw [first.permits_data ⟨above, high⟩, second.permits_data ⟨above, high⟩]
  · rw [first.permits_uart uart, second.permits_uart uart]

/-- A configured anchor covers the first eight bytes of text: its address register holds `_stext`,
whose low bits are zero. -/
theorem Pinned.anchor_matches (map : KernelMap l g) (pinned : Pinned g f) (napot : matching (f.cfg 0) = .napot)
    (a : Nat) : f.entryMatches 0 a = true ↔ a / 8 = l.stext.toNat / 8 := by
  have aligned := l.stext_aligned
  have addr : (f.addr 0).toNat = l.stext.toNat / 4 := by
    rw [pinned.addr 0 (by decide)]
    exact map.anchorAddr
  have shape : l.stext.toNat / 4 = l.stext.toNat / 8 * 2 ^ (0 + 1) + (2 ^ 0 - 1) := by omega
  rw [entryMatches_napot napot, addr, shape, napotMatch_pattern (by decide)]
  rfl

/-- There the anchor decides, by its own bits. -/
theorem Pinned.permits_anchor (map : KernelMap l g) (pinned : Pinned g f) {flags : BitVec 8}
    (anchor : f.cfg 0 = flags ||| Flags.aNapot) {a : Nat} (here : a / 8 = l.stext.toNat / 8) (mode : Mode) (k : Access) :
    f.permits mode k a = ((mode == .machine && !locked flags) || grants flags k) := by
  have napot : matching (f.cfg 0) = .napot := by rw [anchor, matching_napot]
  have first : f.firstMatch a = some 0 := by
    apply firstMatch_eq ((pinned.anchor_matches map napot a).mpr here)
    intro j before
    exact absurd before (Fin.not_lt_zero j)
  rw [permits_of_first first, anchor, locked_napot, grants_napot]

/-- The rights are those of the kernel map exactly when the anchor's flags repeat entry 1's. -/
theorem Pinned.same_iff (map : KernelMap l g) (pinned : Pinned g f) {flags : BitVec 8}
    (anchor : f.cfg 0 = flags ||| Flags.aNapot) : SameRights l g f ↔ SealsText flags := by
  have napot : matching (f.cfg 0) = .napot := by rw [anchor, matching_napot]
  have start := l.stext_aligned
  have stop := l.userTextEnd_aligned
  have text := l.text_lt
  have data := l.data_lt
  have inText {a : Nat} (here : a / 8 = l.stext.toNat / 8) : l.Text a := ⟨by omega, by omega⟩
  constructor
  · intro same
    have rights (mode : Mode) (k : Access) :
        ((mode == .machine && !locked flags) || grants flags k) = true ↔ k = .exec := by
      rw [← pinned.permits_anchor map anchor rfl, same _ (.inl ⟨le_rfl, lt_trans text data⟩)]
      exact map.permits_text (inText rfl) mode k
    refine ⟨?_, fun k => rights .user k⟩
    have read := (rights .machine .read).not.mpr (by decide)
    simp only [beq_self_eq_true, Bool.true_and, Bool.or_eq_true, Bool.not_eq_true', not_or] at read
    simpa using read.1
  · rintro ⟨held, exec⟩ a inside mode k
    by_cases here : a / 8 = l.stext.toNat / 8
    · rw [pinned.permits_anchor map anchor here, held, Bool.eq_iff_iff, map.permits_text (inText here)]
      simpa using exec k
    · have miss : f.entryMatches 0 a = false := by
        rw [Bool.eq_false_iff, Ne, pinned.anchor_matches map napot]
        exact here
      rw [← permits_off miss]
      exact map.sameRights (pinned.anchorOff.kernel map rfl) a inside mode k

/-- Once the anchor is a locked execute-only entry, no call changes a right. -/
theorem Pinned.sealed (map : KernelMap l g) {s : Regs × Uart} (pinned : Pinned g s.1.file) {flags : BitVec 8}
    (anchor : s.1.file.cfg 0 = flags ||| Flags.aNapot) (seals : SealsText flags) (calls : List DriverCall) :
    SameRights l g (calls.foldl DriverCall.run s).1.file := by
  induction calls generalizing s with
  | nil => exact (pinned.same_iff map anchor).mpr seals
  | cons call calls ih =>
    have written := written_call s call
    have held : locked (s.1.file.cfg 0) = true := by
      rw [anchor, locked_napot]
      exact seals.1
    exact ih (pinned.written map written) ((written.cfg_locked held).trans anchor)

/-- What decides over a list of calls is the first one that configures entry 0. -/
theorem Pinned.same_along (map : KernelMap l g) {s : Regs × Uart} (pinned : Pinned g s.1.file)
    (off : s.1.file.cfg 0 = 0) (calls : List DriverCall) :
    (∀ done, done <+: calls → SameRights l g (done.foldl DriverCall.run s).1.file) ↔
      ∀ flags, calls.findSome? DriverCall.anchorFlags = some flags → SealsText flags := by
  have same : SameRights l g s.1.file := map.sameRights (pinned.kernel map off)
  induction calls generalizing s with
  | nil =>
    simp only [List.prefix_nil, forall_eq, List.findSome?_nil, reduceCtorEq, false_implies, implies_true, iff_true]
    exact same
  | cons call calls ih =>
    have next := pinned.written map (written_call s call)
    cases configures : call.anchorFlags with
    | none =>
      have off' := anchor_off off configures
      have rest := ih next off' (map.sameRights (next.kernel map off'))
      rw [List.findSome?_cons, configures]
      refine Iff.trans ⟨fun all done before => ?_, fun all done before => ?_⟩ rest
      · exact all (call :: done) (List.cons_prefix_cons.mpr ⟨rfl, before⟩)
      · cases done with
        | nil => exact same
        | cons head done =>
          obtain ⟨rfl, tail⟩ := List.cons_prefix_cons.mp before
          exact all done tail
    | some flags =>
      have anchor := anchor_configured off configures
      rw [List.findSome?_cons, configures]
      constructor
      · intro all flags' found
        cases found
        have after := all [call] (List.cons_prefix_cons.mpr ⟨rfl, List.nil_prefix⟩)
        exact (next.same_iff map anchor).mp after
      · intro seals done before
        cases done with
        | nil => exact same
        | cons head done =>
          obtain ⟨rfl, -⟩ := List.cons_prefix_cons.mp before
          exact next.sealed map anchor (seals flags rfl) done

end Rights

/-- **The kernel map after `init`.** On a layout with `_eheap` below `2 ^ 56`, through any list of calls the rights
in the image and the UART page stay those that `init` installed exactly when the first accepted call that configures
entry 0, if there is one, repeats the locked execute-only rights of the text. -/
theorem kernel_rights_fixed_iff (l : Layout) {p : Regs} (u : Uart) (free : ∀ i, locked (p.file.cfg i) = false)
    (bits : p.file.addrBits = 54) (calls : List DriverCall) :
    (∀ done, done <+: calls →
        SameRights l (pmpInit l p u).1.file (done.foldl DriverCall.run (pmpInit l p u)).1.file) ↔
      ∀ flags, calls.findSome? DriverCall.anchorFlags = some flags → SealsText flags := by
  have map := pmpInit_kernel l u free bits
  exact (Pinned.refl _).same_along map map.anchor calls

/-- Calls after `init` that touch every kernel entry but the anchor. -/
def laterCalls : List DriverCall :=
  [.configureRegion 3 ⟨uartBase, 0x1000, 0⟩, .clearAll, .loadTaskConfig (List.ofFn echoConfig.regions),
    .configureRegion 1 ⟨0, 8, Flags.RW⟩]

theorem kernel_rights_fixed_later :
    let s := pmpInit qemuVirt powerOn.kernel.pmp ⟨[], []⟩
    SameRights qemuVirt s.1.file (laterCalls.foldl DriverCall.run s).1.file := by
  have spared : ∀ flags, laterCalls.findSome? DriverCall.anchorFlags = some flags → SealsText flags := by
    intro flags found
    cases found
  have along := (kernel_rights_fixed_iff qemuVirt ⟨[], []⟩ powerOn_reset.unlocked powerOn_reset.addrBits laterCalls).mpr
  exact along spared laterCalls List.prefix_rfl

/-- Configuring entry 0 gives user mode write access to the first bytes of kernel text. -/
theorem configured_anchor_writes_text :
    let s := pmpInit qemuVirt powerOn.kernel.pmp ⟨[], []⟩
    s.1.file.permits .user .write 0x8000_0000 = false ∧
      (DriverCall.run s (.configureRegion 0 ⟨0, 8, Flags.RW⟩)).1.file.permits .user .write 0x8000_0000 = true := by
  intro s
  have map : KernelMap qemuVirt s.1.file := pmpInit_kernel qemuVirt ⟨[], []⟩ powerOn_reset.unlocked powerOn_reset.addrBits
  have pinned := (Pinned.refl s.1.file).written map (written_call s (.configureRegion 0 ⟨0, 8, Flags.RW⟩))
  have flags : DriverCall.anchorFlags (.configureRegion 0 ⟨0, 8, Flags.RW⟩) = some Flags.RW := by decide
  have anchor := anchor_configured map.anchor flags
  constructor
  · rw [Bool.eq_false_iff, Ne, map.permits_text (by decide : 0x8000_0000 ≤ 0x8000_0000 ∧ 0x8000_0000 < 0x8000_9000)]
    decide
  · have start : 0x8000_0000 / 8 = qemuVirt.stext.toNat / 8 := by decide
    rw [pinned.permits_anchor map anchor start]
    decide

end Cyptos

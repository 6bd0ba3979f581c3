import Cyptos.Kernel.Uart16550
import Cyptos.Logic.Numerals

/-!
# The console at register level

However the UART moves on between the driver's accesses, the driver's calls send exactly the bytes that
the two-stream console of the rest of the development sends, never write to a full transmitter, and
hand out every byte that the receiver has taken once and in order.
-/

namespace Cyptos
set_option autoImplicit false
open Sim Sim.Driver Uart16550

/-! ## Text -/

theorem bytes_append (s t : String) : Serial.bytes (s ++ t) = Serial.bytes s ++ Serial.bytes t := by
  simp [Serial.bytes]

theorem bytes_join (pieces : List String) : Serial.bytes (String.join pieces) = pieces.flatMap Serial.bytes := by
  have from_ (start : String) : Serial.bytes (pieces.foldl (· ++ ·) start) =
      Serial.bytes start ++ pieces.flatMap Serial.bytes := by
    induction pieces generalizing start with
    | nil => exact (List.append_nil _).symm
    | cons s pieces ih => rw [List.foldl_cons, ih, bytes_append, List.append_assoc, List.flatMap_cons]
  exact from_ ""

/-- The text that a terminal shows: a carriage return right before a newline is not part of it. -/
def shown : List (BitVec 8) → List (BitVec 8)
  | 13 :: 10 :: rest => 10 :: shown rest
  | c :: rest => c :: shown rest
  | [] => []

theorem shown_cons {c : BitVec 8} {rest : List (BitVec 8)} (plain : c = 13 → rest.head? ≠ some 10) :
    shown (c :: rest) = c :: shown rest := by
  rw [shown]
  rintro d rfl rfl
  exact plain rfl rfl

theorem crlf_head (text : List (BitVec 8)) : (crlf text).head? ≠ some 10 := by
  cases text with
  | nil => exact nofun
  | cons c text =>
    have cons : crlf (c :: text) = (if c = 10 then [13, 10] else [c]) ++ crlf text := List.flatMap_cons
    rw [cons]
    split
    · simp
    · rename_i other
      simpa using other

/-- **Texts read back.** A terminal shows the text that was printed. -/
theorem shown_crlf (text : List (BitVec 8)) : shown (crlf text) = text := by
  induction text with
  | nil => rfl
  | cons c text ih =>
    have cons : crlf (c :: text) = (if c = 10 then [13, 10] else [c]) ++ crlf text := List.flatMap_cons
    rw [cons]
    split
    · rename_i newline
      change 10 :: shown (crlf text) = _
      rw [ih, newline]
    · change shown (c :: crlf text) = _
      rw [shown_cons fun _ => crlf_head text, ih]

/-! ## Status -/

section Status

variable (d : Ns16550)

theorem status_tx : d.status &&& lsrTxEmpty ≠ 0 ↔ d.tx = [] := by
  unfold Ns16550.status
  by_cases tx : d.tx = [] <;> by_cases rx : d.rx = [] <;> simp [tx, rx, lsrTxEmpty]

theorem status_rx : d.status &&& lsrRxReady ≠ 0 ↔ d.rx ≠ [] := by
  unfold Ns16550.status
  by_cases tx : d.tx = [] <;> by_cases rx : d.rx = [] <;> simp [tx, rx, lsrRxReady]

end Status

/-! ## Transfers -/

/-- The registers that say how the line is driven. -/
def Ns16550.config (d : Ns16550) : BitVec 8 × BitVec 8 × BitVec 8 × BitVec 8 := (d.ier, d.lcr, d.dll, d.dlm)

/-- Since `d₀` the driver has sent `out` and read `got`. -/
structure Exchanged (d₀ : Ns16550) (out got : List (BitVec 8)) (d : Ns16550) : Prop where
  fifos : d.fifos = true
  dlab : d.dlab = false
  config : d.config = d₀.config
  sent : d.line ++ d.tx = d₀.line ++ d₀.tx ++ out
  dropped : d.dropped = d₀.dropped
  read : ∃ new, d.received = d₀.received ++ new ∧ d₀.rx ++ new = got ++ d.rx

/-- Nothing was written to a full transmitter. -/
def Undropped (d₀ d : Ns16550) : Prop := d.dropped = d₀.dropped

section Transfers

variable {d₀ d d' : Ns16550} {out got : List (BitVec 8)} {c : BitVec 8}

theorem Exchanged.start (fifos : d.fifos = true) (dlab : d.dlab = false) : Exchanged d [] [] d :=
  ⟨fifos, dlab, rfl, (List.append_nil _).symm, rfl, [], (List.append_nil _).symm, List.append_nil _⟩

theorem Exchanged.moves (exchanged : Exchanged d₀ out got d) (moves : d.Moves d') : Exchanged d₀ out got d' := by
  obtain ⟨fifos, dlab, config, sent, dropped, new, received, read⟩ := exchanged
  cases moves with
  | send waiting =>
    refine ⟨fifos, dlab, config, ?_, dropped, new, received, read⟩
    rw [← sent, waiting, List.append_assoc]
    rfl
  | receive c =>
    unfold Ns16550.receive
    split
    · refine ⟨fifos, dlab, config, sent, dropped, new ++ [c], ?_, ?_⟩
      · rw [received, List.append_assoc]
      · rw [← List.append_assoc, read, List.append_assoc]
    · exact ⟨fifos, dlab, config, sent, dropped, new, received, read⟩

theorem exchanged_stable : Stable ns16550 (Exchanged d₀ out got) := fun _ _ exchanged moves => exchanged.moves moves

theorem Exchanged.undropped (exchanged : Exchanged d₀ out got d) : Undropped d₀ d := exchanged.dropped

/-- With an empty transmitter a byte can be written. -/
theorem Exchanged.write (exchanged : Exchanged d₀ out got d) (empty : d.tx = []) :
    Exchanged d₀ (out ++ [c]) got (d.write thr c) := by
  obtain ⟨fifos, dlab, config, sent, dropped, read⟩ := exchanged
  have room : d.tx.length < d.capacity := by
    rw [empty, Ns16550.capacity, fifos]
    decide
  have written : d.write thr c = { d with tx := d.tx ++ [c] } := by
    rw [thr, Ns16550.write, dlab, if_neg (by decide), if_pos room]
  rw [written]
  refine ⟨fifos, dlab, config, ?_, dropped, read⟩
  rw [← List.append_assoc, ← List.append_assoc, ← sent]

/-- What is at the front of the receiver can be read. -/
theorem Exchanged.read_front (exchanged : Exchanged d₀ out got d) (front : d.rx ≠ []) :
    Exchanged d₀ out (got ++ [(d.read rbr).1]) (d.read rbr).2 := by
  obtain ⟨fifos, dlab, config, sent, dropped, new, received, read⟩ := exchanged
  cases rx : d.rx with
  | nil => exact absurd rx front
  | cons c rest =>
    have taken : d.read rbr = (c, { d with rx := rest }) := by
      rw [rbr, Ns16550.read, dlab, if_neg (by decide), rx]
    rw [taken]
    refine ⟨fifos, dlab, config, sent, dropped, new, received, ?_⟩
    rw [read, rx, List.append_assoc]
    rfl

theorem empty_stable : Stable ns16550 fun d => Exchanged d₀ out got d ∧ d.tx = [] := by
  rintro d d' ⟨exchanged, empty⟩ moves
  refine ⟨exchanged.moves moves, ?_⟩
  cases moves with
  | send waiting =>
    rw [empty] at waiting
    cases waiting
  | receive c =>
    unfold Ns16550.receive
    split
    · exact empty
    · rw [if_pos exchanged.fifos]
      exact empty

theorem front_stable : Stable ns16550 fun d => Exchanged d₀ out got d ∧ d.rx ≠ [] := by
  rintro d d' ⟨exchanged, front⟩ moves
  refine ⟨exchanged.moves moves, ?_⟩
  cases moves with
  | send waiting => exact front
  | receive c =>
    unfold Ns16550.receive
    split
    · simp
    · rw [if_pos exchanged.fifos]
      exact front

/-! ## Calls -/

theorem putc_triple (c : BitVec 8) : Triple ns16550 (Undropped d₀) (Exchanged d₀ out got) (Uart16550.putc c)
    fun _ => Exchanged d₀ (out ++ [c]) got := by
  have safe (d : Ns16550) (pre : Exchanged d₀ out got d ∧ d.tx = []) : Undropped d₀ d := pre.1.undropped
  have finish : Triple ns16550 (Undropped d₀) (Exchanged d₀ (out ++ [c]) got) (.done ())
      fun _ => Exchanged d₀ (out ++ [c]) got :=
    .done exchanged_stable (fun _ => Exchanged.undropped) fun _ done => done
  refine Triple.poll exchanged_stable (fun _ => Exchanged.undropped) (fun _ exchanged _ => exchanged) ?_
    (Triple.write empty_stable safe (fun d pre => pre.1.write pre.2) finish)
  intro d exchanged yes
  exact ⟨exchanged, (status_tx d).mp (of_decide_eq_true yes)⟩

theorem putBytes_triple (text : List (BitVec 8)) : Triple ns16550 (Undropped d₀) (Exchanged d₀ out got)
    (putBytes text) fun _ => Exchanged d₀ (out ++ crlf text) got := by
  induction text generalizing out with
  | nil =>
    refine Triple.done exchanged_stable (fun _ => Exchanged.undropped) ?_
    simp [crlf]
  | cons c text ih =>
    have tail (out : List (BitVec 8)) : Triple ns16550 (Undropped d₀) (Exchanged d₀ out got)
        ((Uart16550.putc c).bind fun _ => putBytes text) fun _ => Exchanged d₀ (out ++ [c] ++ crlf text) got :=
      (putc_triple c).bind fun _ => ih
    have cons : crlf (c :: text) = (if c = 10 then [13, 10] else [c]) ++ crlf text := List.flatMap_cons
    rw [putBytes, cons]
    split
    · rename_i newline
      have first : Triple ns16550 (Undropped d₀) (Exchanged d₀ out got) (Uart16550.putc 13)
        fun _ => Exchanged d₀ (out ++ [13]) got := putc_triple 13
      have both := first.bind fun _ => tail _
      simp only [newline, List.append_assoc] at both ⊢
      exact both
    · rw [← List.append_assoc]
      exact tail out

/-- Ending with a result. -/
theorem return_triple {α : Type} (a : α) : Triple ns16550 (Undropped d₀) (Exchanged d₀ out got) (.done a)
    fun r d => r = a ∧ Exchanged d₀ out got d :=
  .done exchanged_stable (fun _ => Exchanged.undropped) fun _ done => ⟨rfl, done⟩

theorem emitDigits_triple {buf : List (BitVec 8)} {idx : Nat} (inside : idx ≤ buf.length) :
    Triple ns16550 (Undropped d₀) (Exchanged d₀ out got) (Uart16550.emitDigits buf idx)
      fun r d => r = .ok () ∧ Exchanged d₀ (out ++ (buf.take idx).reverse) got d := by
  induction idx generalizing out with
  | zero =>
    rw [List.take_zero, List.reverse_nil, List.append_nil]
    exact return_triple _
  | succ idx ih =>
    have here : buf[idx]? = some buf[idx] := List.getElem?_eq_getElem inside
    rw [List.take_succ_eq_append_getElem inside, List.reverse_append, ← List.append_assoc]
    simp only [Uart16550.emitDigits, here]
    exact (putc_triple buf[idx]).bind fun _ => ih (Nat.le_of_succ_le inside)

theorem putDigits_triple {b len : Nat} {digit : BitVec 64 → BitVec 8} {rest : BitVec 64 → BitVec 64}
    (takes : Serial.TakesDigits b digit rest) {n : BitVec 64} (room : (b.digits n.toNat).length ≤ len) :
    Triple ns16550 (Undropped d₀) (Exchanged d₀ out got) (Uart16550.putDigits len digit rest n)
      fun r d => r = .ok () ∧ Exchanged d₀ (out ++ Serial.numeral b n.toNat) got d := by
  unfold Uart16550.putDigits
  split
  · rename_i zero
    subst zero
    exact (putc_triple 48).bind fun _ => return_triple _
  · rename_i nonzero
    have positive : n.toNat ≠ 0 := by bv_omega
    obtain ⟨filled, run, length, stored⟩ :=
      Serial.fillDigits_ok takes (List.replicate len 0) 0 (n := n) (by simp) room
    rw [Nat.zero_add] at run stored
    rw [List.length_replicate] at length
    have inside : (b.digits n.toNat).length ≤ filled.length := by omega
    rw [Serial.numeral, if_neg positive]
    rw [List.take_zero, List.nil_append] at stored
    simp only [run, ← stored]
    exact emitDigits_triple inside

theorem putDec_triple (n : BitVec 64) : Triple ns16550 (Undropped d₀) (Exchanged d₀ out got) (Uart16550.putDec n)
    fun r d => r = .ok () ∧ Exchanged d₀ (out ++ Serial.numeral 10 n.toNat) got d := by
  refine putDigits_triple Serial.decDigit_takes ?_
  exact (Nat.digits_length_le_iff (by decide) _).mpr (lt_trans n.isLt (by decide))

theorem putHex_triple (n : BitVec 64) : Triple ns16550 (Undropped d₀) (Exchanged d₀ out got) (Uart16550.putHex n)
    fun r d => r = .ok () ∧ Exchanged d₀ (out ++ (Serial.bytes "0x" ++ Serial.numeral 16 n.toNat)) got d := by
  have room : (Nat.digits 16 n.toNat).length ≤ 16 := (Nat.digits_length_le_iff (by decide) _).mpr n.isLt
  have plain : crlf (Serial.bytes "0x") = Serial.bytes "0x" := by decide
  rw [← List.append_assoc]
  nth_rewrite 1 [← plain]
  exact (putBytes_triple _).bind fun _ => putDigits_triple Serial.hexDigit_takes room

theorem writeFmt_triple (pieces : List String) : Triple ns16550 (Undropped d₀) (Exchanged d₀ out got)
    (Uart16550.writeFmt pieces) fun _ => Exchanged d₀ (out ++ crlf (pieces.flatMap Serial.bytes)) got := by
  induction pieces generalizing out with
  | nil =>
    refine Triple.done exchanged_stable (fun _ => Exchanged.undropped) ?_
    simp [crlf]
  | cons s pieces ih =>
    rw [List.flatMap_cons, crlf_append, ← List.append_assoc]
    exact (putBytes_triple _).bind fun _ => ih

/-- The read of the receiver, once it is known to hold a byte. -/
theorem read_triple {α : Type} {f : BitVec 8 → α} {post : α → Ns16550 → Prop}
    (ends : ∀ c d, Exchanged d₀ out (got ++ [c]) d → post (f c) d) :
    Triple ns16550 (Undropped d₀) (fun d => Exchanged d₀ out got d ∧ d.rx ≠ []) (.read rbr fun c => .done (f c)) post := by
  refine Triple.read front_stable (fun d pre => pre.1.undropped) fun d pre => ?_
  have done := pre.1.read_front pre.2
  exact Triple.done exchanged_stable (fun _ => Exchanged.undropped) (ends _) _ done

theorem getc_triple : Triple ns16550 (Undropped d₀) (Exchanged d₀ out got) Uart16550.getc
    fun c => Exchanged d₀ out (got ++ [c]) := by
  refine Triple.poll exchanged_stable (fun _ => Exchanged.undropped) (fun _ exchanged _ => exchanged) ?_
    (read_triple fun _ _ ends => ends)
  intro d exchanged yes
  exact ⟨exchanged, (status_rx d).mp (of_decide_eq_true yes)⟩

theorem tryGetc_triple : Triple ns16550 (Undropped d₀) (Exchanged d₀ out got) Uart16550.tryGetc
    fun c => Exchanged d₀ out (got ++ c.toList) := by
  refine Triple.read exchanged_stable (fun _ => Exchanged.undropped) fun d exchanged => ?_
  change Ensures ns16550 _ _ (Driver.bind (.done d.status) _) d
  simp only [Driver.bind]
  split
  · rename_i yes
    have front := (status_rx d).mp yes
    exact read_triple (f := some) (fun _ _ ends => ends) d ⟨exchanged, front⟩
  · refine Triple.done exchanged_stable (fun _ => Exchanged.undropped) (fun d ends => ?_) d exchanged
    rw [Option.toList_none, List.append_nil]
    exact ends

/-- What a call sends. -/
def Uart16550.Call.said : Call → List (BitVec 8)
  | .putc c => [c]
  | .puts s => crlf (Serial.bytes s)
  | .putDec n => Serial.numeral 10 n.toNat
  | .putHex n => Serial.bytes "0x" ++ Serial.numeral 16 n.toNat
  | .writeFmt pieces => crlf (pieces.flatMap Serial.bytes)
  | .tryGetc | .getc => []

/-- The end of a call or a session: no panic, and the bytes in `r` have been read. -/
def Answered (d₀ : Ns16550) (out got : List (BitVec 8)) (r : Outcome (List (BitVec 8))) (d : Ns16550) : Prop :=
  ∃ bytes, r = .ok bytes ∧ Exchanged d₀ out (got ++ bytes) d

theorem answer_triple {bytes : List (BitVec 8)} :
    Triple ns16550 (Undropped d₀) (Exchanged d₀ out (got ++ bytes)) (.done (.ok bytes)) (Answered d₀ out got) :=
  .done exchanged_stable (fun _ => Exchanged.undropped) fun _ ends => ⟨bytes, rfl, ends⟩

theorem silent_triple : Triple ns16550 (Undropped d₀) (Exchanged d₀ out got) (.done (.ok [])) (Answered d₀ out got) :=
  .done exchanged_stable (fun _ => Exchanged.undropped) fun _ ends => ⟨[], rfl, by rw [List.append_nil]; exact ends⟩

theorem call_triple (call : Call) : Triple ns16550 (Undropped d₀) (Exchanged d₀ out got) call.run
    (Answered d₀ (out ++ call.said) got) := by
  have spoken {out : List (BitVec 8)} (r : Outcome Unit) :
      Triple ns16550 (Undropped d₀) (fun d => r = .ok () ∧ Exchanged d₀ out got d) (.done (r.map fun _ => []))
        (Answered d₀ out got) := by
    rintro d ⟨rfl, now⟩
    exact silent_triple d now
  cases call with
  | putc c => exact (putc_triple c).bind fun _ => silent_triple
  | puts s => exact (putBytes_triple _).bind fun _ => silent_triple
  | putDec n => exact (putDec_triple n).bind spoken
  | putHex n => exact (putHex_triple n).bind spoken
  | writeFmt pieces => exact (writeFmt_triple pieces).bind fun _ => silent_triple
  | tryGetc =>
    rw [Call.said, List.append_nil]
    exact tryGetc_triple.bind fun _ => answer_triple
  | getc =>
    rw [Call.said, List.append_nil]
    exact getc_triple.bind fun _ => answer_triple

theorem session_triple (calls : List Call) : Triple ns16550 (Undropped d₀) (Exchanged d₀ out got) (session calls)
    (Answered d₀ (out ++ calls.flatMap Call.said) got) := by
  induction calls generalizing out got with
  | nil =>
    rw [List.flatMap_nil, List.append_nil]
    exact silent_triple
  | cons call calls ih =>
    rw [List.flatMap_cons, ← List.append_assoc]
    refine (call_triple call).bind fun r => ?_
    rintro d ⟨bytes, rfl, now⟩
    refine Triple.bind ih (fun r => ?_) d now
    rintro d ⟨later, rfl, ends⟩
    rw [List.append_assoc got] at ends
    exact answer_triple d ends

end Transfers

/-! ## Initialization -/

/-- The accounts of a UART that is being set up. -/
structure Kept (d₀ d : Ns16550) : Prop where
  sent : d.line ++ d.tx = d₀.line ++ d₀.tx
  line : d₀.line <+: d.line
  dropped : d.dropped = d₀.dropped
  received : d₀.received <+: d.received

/-- The configuration that `init` leaves. While `DLAB` is set its first write misses the interrupts. -/
def Ns16550.configured (d₀ : Ns16550) : BitVec 8 × BitVec 8 × BitVec 8 × BitVec 8 :=
  (if d₀.dlab then d₀.ier else 0, lcr8bit, 1, 0)

/-- The UART right behind the last write of `init`: what had not gone out or not been read by then is lost. -/
structure Initialized (d₀ d : Ns16550) : Prop where
  config : d.config = d₀.configured
  fifos : d.fifos = true
  tx : d.tx = []
  rx : d.rx = []
  line : d₀.line <+: d.line
  sent : d.line <+: d₀.line ++ d₀.tx
  dropped : d.dropped = d₀.dropped
  received : d₀.received <+: d.received

/-- The UART on the way, with the configuration `config` so far. -/
def SettingUp (d₀ : Ns16550) (config : BitVec 8 × BitVec 8 × BitVec 8 × BitVec 8) (d : Ns16550) : Prop :=
  Kept d₀ d ∧ d.config = config

/-- `init` up to its last write. -/
def Uart16550.configure : Access Unit := do
  writeVolatile ier 0x00
  writeVolatile lcr lcrDlab
  writeVolatile 0 0x01
  writeVolatile 1 0x00
  writeVolatile lcr lcr8bit

section Init

variable {d₀ d d' : Ns16550} {config : BitVec 8 × BitVec 8 × BitVec 8 × BitVec 8}

theorem moves_config (moves : d.Moves d') : d'.config = d.config ∧ d'.fifos = d.fifos ∧ d'.dropped = d.dropped := by
  cases moves with
  | send waiting => exact ⟨rfl, rfl, rfl⟩
  | receive c =>
    unfold Ns16550.receive
    split
    · exact ⟨rfl, rfl, rfl⟩
    · split
      · exact ⟨rfl, rfl, rfl⟩
      · exact ⟨rfl, rfl, rfl⟩

theorem Kept.moves (kept : Kept d₀ d) (moves : d.Moves d') : Kept d₀ d' := by
  obtain ⟨sent, line, dropped, received⟩ := kept
  cases moves with
  | send waiting =>
    refine ⟨?_, line.trans (List.prefix_append _ _), dropped, received⟩
    rw [← sent, waiting, List.append_assoc]
    rfl
  | receive c =>
    unfold Ns16550.receive
    split
    · exact ⟨sent, line, dropped, received.trans (List.prefix_append _ _)⟩
    · split
      · exact ⟨sent, line, dropped, received⟩
      · exact ⟨sent, line, dropped, received.trans (List.prefix_append _ _)⟩

theorem settingUp_stable : Stable ns16550 (SettingUp d₀ config) := fun _ _ pre moves =>
  ⟨pre.1.moves moves, (moves_config moves).1.trans pre.2⟩

/-- The registers of a configuration, one by one. -/
theorem config_eq {e l a b : BitVec 8} (same : d.config = (e, l, a, b)) :
    d.ier = e ∧ d.lcr = l ∧ d.dll = a ∧ d.dlm = b := by
  simpa only [Ns16550.config, Prod.mk.injEq] using same

/-- A write of `init` that only configures the line. -/
theorem setup_triple {e l a b e' l' a' b' v : BitVec 8} {offset : Nat} {next : Access Unit}
    {post : Unit → Ns16550 → Prop}
    (writes : ∀ d : Ns16550, d.config = (e, l, a, b) →
      d.write offset v = { d with ier := e', lcr := l', dll := a', dlm := b' })
    (rest : Triple ns16550 (Undropped d₀) (SettingUp d₀ (e', l', a', b')) next post) :
    Triple ns16550 (Undropped d₀) (SettingUp d₀ (e, l, a, b)) (.write offset v next) post := by
  refine .write settingUp_stable (fun _ pre => pre.1.dropped) (fun d pre => ?_) rest
  obtain ⟨⟨sent, line, dropped, received⟩, config⟩ := pre
  change Kept d₀ (d.write offset v) ∧ (d.write offset v).config = _
  rw [writes d config]
  exact ⟨⟨sent, line, dropped, received⟩, rfl⟩

theorem configure_triple : Triple ns16550 (Undropped d₀) (SettingUp d₀ d₀.config) configure
    fun _ => SettingUp d₀ d₀.configured := by
  -- while `DLAB` is set the first two registers are the divisor
  have latch {d : Ns16550} {e a b : BitVec 8} (config : d.config = (e, lcrDlab, a, b)) : d.dlab = true := by
    rw [Ns16550.dlab, (config_eq config).2.1]
    decide
  have ends : Triple ns16550 (Undropped d₀) (SettingUp d₀ d₀.configured) (.done ())
      fun _ => SettingUp d₀ d₀.configured :=
    .done settingUp_stable (fun _ pre => pre.1.dropped) fun _ pre => pre
  have format : Triple ns16550 (Undropped d₀)
      (SettingUp d₀ (if d₀.dlab then d₀.ier else 0, lcrDlab, 1, 0)) (.write lcr lcr8bit (.done ()))
      fun _ => SettingUp d₀ d₀.configured := by
    refine setup_triple (fun d config => ?_) ends
    obtain ⟨ier, -, dll, dlm⟩ := config_eq config
    rw [← ier, ← dll, ← dlm]
    rfl
  have high (b : BitVec 8) : Triple ns16550 (Undropped d₀)
      (SettingUp d₀ (if d₀.dlab then d₀.ier else 0, lcrDlab, 1, b))
      (.write 1 0x00 (.write lcr lcr8bit (.done ()))) fun _ => SettingUp d₀ d₀.configured := by
    refine setup_triple (fun d config => ?_) format
    obtain ⟨ier, lcr, dll, -⟩ := config_eq config
    rw [Ns16550.write, latch config, if_pos rfl, ← ier, ← lcr, ← dll]
  have low (a b : BitVec 8) : Triple ns16550 (Undropped d₀)
      (SettingUp d₀ (if d₀.dlab then d₀.ier else 0, lcrDlab, a, b))
      (.write 0 0x01 (.write 1 0x00 (.write lcr lcr8bit (.done ()))))
      fun _ => SettingUp d₀ d₀.configured := by
    refine setup_triple (fun d config => ?_) (high b)
    obtain ⟨ier, lcr, -, dlm⟩ := config_eq config
    rw [Ns16550.write, latch config, if_pos rfl, ← ier, ← lcr, ← dlm]
  have divisor (b : BitVec 8) : Triple ns16550 (Undropped d₀)
      (SettingUp d₀ (if d₀.dlab then d₀.ier else 0, d₀.lcr, d₀.dll, b))
      (.write lcr lcrDlab (.write 0 0x01 (.write 1 0x00 (.write lcr lcr8bit (.done ())))))
      fun _ => SettingUp d₀ d₀.configured := by
    refine setup_triple (fun d config => ?_) (low d₀.dll b)
    obtain ⟨ier, -, dll, dlm⟩ := config_eq config
    rw [← ier, ← dll, ← dlm]
    rfl
  refine setup_triple (fun d config => ?_) (divisor (if d₀.dlab then 0 else d₀.dlm))
  obtain ⟨ier, lcr, dll, dlm⟩ := config_eq config
  have same : d.dlab = d₀.dlab := by rw [Ns16550.dlab, lcr, Ns16550.dlab]
  rw [Uart16550.ier, Ns16550.write, same]
  split
  · rw [← ier, ← lcr, ← dll]
  · rw [← lcr, ← dll, ← dlm]
    rfl

/-- The last write of `init` empties both FIFOs. -/
theorem SettingUp.initialized (done : SettingUp d₀ d₀.configured d) : Initialized d₀ (d.writeFcr 0x07) := by
  obtain ⟨kept, config⟩ := done
  have emptied : d.writeFcr 0x07 = { d with fifos := true, rx := [], tx := [] } := by simp [Ns16550.writeFcr]
  rw [emptied]
  refine ⟨config, rfl, rfl, rfl, kept.line, ?_, kept.dropped, kept.received⟩
  rw [← kept.sent]
  exact List.prefix_append _ _

theorem Initialized.exchanged (init : Initialized d₀ d) : Exchanged d [] [] d := by
  refine .start init.fifos ?_
  rw [Ns16550.dlab, (config_eq init.config).2.1]
  decide

theorem Initialized.undropped (init : Initialized d₀ d) : Undropped d₀ = Undropped d := by
  unfold Undropped
  rw [init.dropped]

end Init

/-! ## Completion -/

section Completion

/-- The transmitter is polled for being empty. -/
def TxPoll (r : Nat) (ready : BitVec 8 → Bool) : Prop := r = lsr ∧ ready = fun s => decide (s &&& lsrTxEmpty ≠ 0)

/-- The device can always send what it has. -/
theorem drains (d : Ns16550) : ∃ d', Relation.ReflTransGen ns16550.Moves d d' ∧ d'.tx = [] := by
  cases waiting : d.tx with
  | nil => exact ⟨d, .refl, waiting⟩
  | cons c rest =>
    obtain ⟨d', moves, empty⟩ := drains { d with tx := rest, line := d.line ++ [c] }
    exact ⟨d', .head (.send waiting) moves, empty⟩
termination_by d.tx.length
decreasing_by simp [waiting]

theorem txPoll_gets {r : Nat} {ready : BitVec 8 → Bool} (poll : TxPoll r ready) (d : Ns16550) :
    ∃ d', Relation.ReflTransGen ns16550.Moves d d' ∧ ready (ns16550.read d' r).1 = true := by
  obtain ⟨rfl, rfl⟩ := poll
  obtain ⟨d', moves, empty⟩ := drains d
  exact ⟨d', moves, decide_eq_true ((status_tx d').mpr empty)⟩

theorem putc_polls (c : BitVec 8) : PollsOnly TxPoll (Uart16550.putc c) := ⟨⟨rfl, rfl⟩, trivial⟩

theorem putBytes_polls (text : List (BitVec 8)) : PollsOnly TxPoll (putBytes text) := by
  induction text with
  | nil => trivial
  | cons c text ih =>
    rw [putBytes]
    split
    · exact (putc_polls 13).bind fun _ => (putc_polls c).bind fun _ => ih
    · exact (putc_polls c).bind fun _ => ih

theorem emitDigits_polls (buf : List (BitVec 8)) (idx : Nat) : PollsOnly TxPoll (Uart16550.emitDigits buf idx) := by
  induction idx with
  | zero => trivial
  | succ idx ih =>
    rw [Uart16550.emitDigits]
    split
    · exact (putc_polls _).bind fun _ => ih
    · trivial

theorem putDigits_polls (len : Nat) (digit : BitVec 64 → BitVec 8) (rest : BitVec 64 → BitVec 64) (n : BitVec 64) :
    PollsOnly TxPoll (Uart16550.putDigits len digit rest n) := by
  unfold Uart16550.putDigits
  split
  · exact (putc_polls 48).bind fun _ => trivial
  · split
    · exact emitDigits_polls _ _
    · trivial

theorem writeFmt_polls (pieces : List String) : PollsOnly TxPoll (Uart16550.writeFmt pieces) := by
  induction pieces with
  | nil => trivial
  | cons s pieces ih => exact (putBytes_polls _).bind fun _ => ih

theorem call_polls {call : Call} (nonblocking : call ≠ .getc) : PollsOnly TxPoll call.run := by
  cases call with
  | putc c => exact (putc_polls c).bind fun _ => trivial
  | puts s => exact (putBytes_polls _).bind fun _ => trivial
  | putDec n => exact (putDigits_polls _ _ _ _).bind fun _ => trivial
  | putHex n => exact ((putBytes_polls _).bind fun _ => putDigits_polls _ _ _ _).bind fun _ => trivial
  | writeFmt pieces => exact (writeFmt_polls pieces).bind fun _ => trivial
  | tryGetc =>
    refine PollsOnly.bind (fun s => ?_) fun _ => trivial
    change PollsOnly TxPoll (Driver.bind (.done s) _)
    simp only [Driver.bind]
    split
    · exact fun _ => trivial
    · trivial
  | getc => exact absurd rfl nonblocking

theorem session_polls {calls : List Call} (nonblocking : .getc ∉ calls) : PollsOnly TxPoll (session calls) := by
  induction calls with
  | nil => trivial
  | cons call calls ih =>
    rw [List.mem_cons, not_or] at nonblocking
    refine (call_polls (Ne.symm nonblocking.1)).bind fun r => ?_
    cases r with
    | error e => trivial
    | ok got => exact (ih nonblocking.2).bind fun _ => trivial

end Completion

/-! ## Sessions -/

/-- A call on the two-stream console. -/
def Uart16550.Call.say (u : Uart) : Call → Uart
  | .putc c => Serial.putc u c
  | .puts s => Serial.puts u s
  | .putDec n => (Serial.putDec u n).toOption.getD u
  | .putHex n => (Serial.putHex u n).toOption.getD u
  | .writeFmt pieces => Serial.puts u (String.join pieces)
  | .tryGetc | .getc => u

section Sessions

theorem say_tx (u : Uart) (call : Call) : (call.say u).tx = u.tx ++ call.said := by
  cases call with
  | putc c => rfl
  | puts s => rw [Call.say, puts_crlf, Call.said]
  | putDec n =>
    rw [Call.say, Serial.putDec_ok, Call.said]
    rfl
  | putHex n =>
    rw [Call.say, Serial.putHex_ok, Call.said]
    rfl
  | writeFmt pieces => rw [Call.say, puts_crlf, Call.said, bytes_join]
  | tryGetc => exact (List.append_nil _).symm
  | getc => exact (List.append_nil _).symm

theorem say_all_tx (u : Uart) (calls : List Call) :
    (calls.foldl Call.say u).tx = u.tx ++ calls.flatMap Call.said := by
  induction calls generalizing u with
  | nil => exact (List.append_nil _).symm
  | cons call calls ih => rw [List.foldl_cons, ih, say_tx, List.append_assoc, List.flatMap_cons]

/-- A session behind `init`, whatever state the UART is in before. -/
def initThen (calls : List Call) : Access (Outcome (List (BitVec 8))) := Uart16550.init.bind fun _ => session calls

/-- The console after calls that have read `got`, since the last write of `init` has left the UART as `d₁`. -/
structure ConsoleServed (calls : List Call) (d₁ : Ns16550) (got : List (BitVec 8)) (d : Ns16550) : Prop where
  config : d.config = d₁.config
  output : d.line ++ d.tx = (calls.foldl Call.say ⟨d₁.line, []⟩).tx
  input : d.received = d₁.received ++ got ++ d.rx

theorem initThen_polls {calls : List Call} (nonblocking : .getc ∉ calls) : PollsOnly TxPoll (initThen calls) :=
  PollsOnly.bind (p := Uart16550.init) trivial fun _ => session_polls nonblocking

theorem kept_start (d : Ns16550) : Kept d d := ⟨rfl, List.prefix_refl _, rfl, List.prefix_refl _⟩

theorem initThen_undropped (d₀ : Ns16550) (calls : List Call) :
    Ensures ns16550 (Undropped d₀) (fun _ _ => True) (initThen calls) d₀ := by
  have reset : Triple ns16550 (Undropped d₀) (SettingUp d₀ d₀.configured)
      (.write fcr 0x07 (session calls)) fun _ _ => True := by
    refine .write settingUp_stable (fun _ pre => pre.1.dropped) (fun _ done => done.initialized) fun d₁ init => ?_
    rw [init.undropped]
    exact (session_triple calls d₁ init.exchanged).mono fun _ _ _ => trivial
  exact Triple.bind configure_triple (fun _ => reset) d₀ ⟨kept_start d₀, rfl⟩

/-- A finished session behind `init` splits at the last write of `init`. -/
theorem initThen_split {d₀ d : Ns16550} {calls : List Call} {steps : List Actor} {r : Outcome (List (BitVec 8))}
    (run : Run (Driver.Step ns16550) (initThen calls, d₀) steps (.done r, d)) :
    ∃ before after u, steps = before ++ .driver :: after ∧
      Run (Driver.Step ns16550) (initThen calls, d₀) before (.write fcr 0x07 (session calls), u) ∧
      Run (Driver.Step ns16550) (session calls, u.writeFcr 0x07) after (.done r, d) ∧ Initialized d₀ (u.writeFcr 0x07) := by
  have sequence : initThen calls = configure.bind fun _ => .write fcr 0x07 (session calls) := rfl
  rw [sequence] at run ⊢
  obtain ⟨first, second, a, v, rfl, configures, resets⟩ := bind_split run
  obtain ⟨waits, after, u, rfl, moved, waited, serves⟩ := write_split resets
  have configured := ((configure_triple d₀ ⟨kept_start d₀, rfl⟩).run configures).2 a rfl
  have now := settingUp_stable.later configured moved
  exact ⟨first ++ waits, after, u, (List.append_assoc _ _ _).symm, (run_bind configures).append waited, serves, now.initialized⟩

/-- The calls on a UART that `init` has left. -/
theorem session_served {d₀ d₁ d : Ns16550} {calls : List Call} {steps : List Actor} {r : Outcome (List (BitVec 8))}
    (init : Initialized d₀ d₁) (run : Run (Driver.Step ns16550) (session calls, d₁) steps (.done r, d)) :
    ∃ got, r = .ok got ∧ ConsoleServed calls d₁ got d := by
  obtain ⟨got, answer, exchanged⟩ := ((session_triple calls d₁ init.exchanged).run run).2 r rfl
  obtain ⟨new, arrived, read⟩ := exchanged.read
  refine ⟨got, answer, exchanged.config, ?_, ?_⟩
  · rw [exchanged.sent, say_all_tx, init.tx, List.append_nil, List.nil_append]
  · rw [init.rx] at read
    rw [arrived, List.append_assoc, ← List.nil_append new, read, List.nil_append]

/-- **The console from reset.** Whatever state the UART is in, and however it moves on between the accesses of
`init` and of the calls after it: nothing is ever written to a full transmitter, and calls other than `getc` can always be
completed. A run that is done has come through the last write of `init`, which has left both FIFOs empty; since then the
line has or will have what the two-stream console sends, every byte taken in was read once and in order or still waits, and
the interrupts are off unless `DLAB` was set before. -/
theorem console_from_reset (d₀ : Ns16550) (calls : List Call) {steps : List Actor}
    {q : Access (Outcome (List (BitVec 8)))} {d : Ns16550} (run : Run (Driver.Step ns16550) (initThen calls, d₀) steps (q, d)) :
    d.dropped = d₀.dropped ∧ (.getc ∉ calls → CanFinish ns16550 q d) ∧
      ∀ r, q = .done r → ∃ before after u got, steps = before ++ .driver :: after ∧
        Run (Driver.Step ns16550) (initThen calls, d₀) before (.write fcr 0x07 (session calls), u) ∧
        Run (Driver.Step ns16550) (session calls, u.writeFcr 0x07) after (.done r, d) ∧
        Initialized d₀ (u.writeFcr 0x07) ∧ r = .ok got ∧ ConsoleServed calls (u.writeFcr 0x07) got d := by
  refine ⟨((initThen_undropped d₀ calls).run run).1, fun nonblocking => ?_, ?_⟩
  · have later := run.invariant (P := fun s => PollsOnly TxPoll s.1) (initThen_polls nonblocking)
      fun _ _ _ polls step => polls.step step
    exact later.canFinish (fun _ _ => txPoll_gets) d
  · rintro r rfl
    obtain ⟨before, after, u, split, resets, serves, init⟩ := initThen_split run
    obtain ⟨got, answer, served⟩ := session_served init serves
    exact ⟨before, after, u, got, split, resets, serves, init, answer, served⟩

theorem said_texts (texts : List (List String)) :
    (texts.map Call.writeFmt).flatMap Call.said = crlf (Serial.bytes (String.join texts.flatten)) := by
  rw [bytes_join]
  induction texts with
  | nil => rfl
  | cons pieces texts ih =>
    rw [List.map_cons, List.flatMap_cons, ih, List.flatten_cons, List.flatMap_append, crlf_append]
    rfl

/-- **Texts.** After `init`, texts that are printed piece by piece read back from the line as the texts themselves. -/
theorem console_text_readable (d₀ : Ns16550) (texts : List (List String)) {steps : List Actor}
    {r : Outcome (List (BitVec 8))} {d : Ns16550}
    (run : Run (Driver.Step ns16550) (initThen (texts.map .writeFmt), d₀) steps (.done r, d)) (idle : d.tx = []) :
    ∃ sent, sent <+: d₀.line ++ d₀.tx ∧ ∃ text, d.line = sent ++ text ∧
      shown text = Serial.bytes (String.join texts.flatten) := by
  obtain ⟨_, _, u, -, -, serves, init⟩ := initThen_split run
  obtain ⟨_, -, served⟩ := session_served init serves
  have output := served.output
  rw [idle, List.append_nil, say_all_tx, said_texts] at output
  exact ⟨_, init.sent, _, output, shown_crlf _⟩

end Sessions

/-- A UART that was left with `DLAB` and an interrupt set. -/
def leftUart : Ns16550 := ⟨0x05, 0x80, 0, 0, false, [], [], [], [], [], []⟩

/-- Printing on it completes, and all of it goes out. -/
theorem left_prints (calls : List Call) (nonblocking : .getc ∉ calls) :
    ∃ steps r d, Run (Driver.Step ns16550) (initThen calls, leftUart) steps (.done r, d) ∧ d.tx = [] := by
  have polls : PollsOnly TxPoll (initThen calls) := initThen_polls nonblocking
  obtain ⟨steps, r, d, run⟩ := polls.canFinish (fun _ _ => txPoll_gets) leftUart
  obtain ⟨d', moves, empty⟩ := drains d
  obtain ⟨later, sends⟩ := moves_run (p := .done r) moves
  exact ⟨_, r, d', run.append sends, empty⟩

theorem console_from_reset_left : ∃ steps r d,
    Run (Driver.Step ns16550) (initThen [.putc 65], leftUart) steps (.done r, d) ∧ d.line = [65] ∧ d.ier = 0x05 := by
  obtain ⟨steps, r, d, run, empty⟩ := left_prints [.putc 65] (by simp)
  obtain ⟨-, -, ends⟩ := console_from_reset leftUart [.putc 65] run
  obtain ⟨_, _, u, _, -, -, -, init, -, served⟩ := ends r rfl
  have silent : (u.writeFcr 0x07).line = [] := List.prefix_nil.mp init.sent
  have output := served.output
  rw [empty, List.append_nil, silent] at output
  exact ⟨steps, r, d, run, output, (config_eq (served.config.trans init.config)).1⟩

theorem console_text_readable_left : ∃ steps r d,
    Run (Driver.Step ns16550) (initThen [.writeFmt ["tick ", "7", "\n"]], leftUart) steps (.done r, d) ∧
      shown d.line = Serial.bytes (String.join ["tick ", "7", "\n"]) := by
  obtain ⟨steps, r, d, run, empty⟩ := left_prints [.writeFmt ["tick ", "7", "\n"]] (by simp)
  obtain ⟨sent, before, text, line, read⟩ := console_text_readable leftUart [["tick ", "7", "\n"]] run empty
  have silent : sent = [] := List.prefix_nil.mp before
  rw [silent, List.nil_append] at line
  exact ⟨steps, r, d, run, by rw [line]; exact read⟩

end Cyptos

import RiscvJit.Proofs.Code.Flow

/-
  RiscvJit.Proofs.Code.Calls — going to addresses outside the code.

  A call reaches its target with the address behind the call in ra, whichever of its three forms
  it has (`farCall_reaches`): a short jump, an address relative to the program counter, or an
  absolute address, which five instructions and the offset of the jump make up
  (`movptr_puts`). Where the target is a routine that returns, the code goes on behind the call
  (`does_routine`); otherwise the target is where the code is left. Where nothing is assumed of what is called,
  the run stops there, with what follows from every machine that is back (`Does.calls`).
-/

namespace RiscvJit

open Machine (Keeps)
open Reg (zr ra)
open Asm

/-! ## Absolute addresses -/

/-- The steps of an address but for its low six bits. -/
def addressSteps (addr : UInt64) : List ConstStep :=
  let imm := addr.toInt64
  let top := imm >>> 17
  [.lui (upper20 (high12 top)), .addi (low12 top), .slli 11, .addi (imm >>> 6 &&& 0x7ff), .slli 6]

section
variable {addr : UInt64}

theorem toInt_of_lt (h : addr.toNat < 2 ^ 63) : addr.toInt64.toInt = addr.toNat := by
  rw [← Int64.toInt_toBitVec, UInt64.toBitVec_toInt64, BitVec.toInt_eq_toNat_of_lt (by
    rw [UInt64.toNat_toBitVec]; omega), UInt64.toNat_toBitVec]

variable {v : Int64}

/-- The low bits of a word that is not negative are its remainder. -/
theorem toInt_and_ones {k : Nat} (hk : k < 63) (h : 0 ≤ v.toInt) :
    (v &&& Int64.ofNat (2 ^ k - 1)).toInt = v.toInt % 2 ^ k := by
  have hp : (2 ^ k : Nat) < 2 ^ 63 := Nat.pow_lt_pow_right (by decide) hk
  have hv : v.toInt = (v.toBitVec.toNat : Int) := by
    rw [← Int64.toInt_toBitVec] at h ⊢
    rw [BitVec.toInt_eq_toNat_of_msb]
    rw [BitVec.msb_eq_toInt]
    simpa using h
  have low : (v.toBitVec &&& BitVec.ofNat 64 (2 ^ k - 1)).toNat = v.toBitVec.toNat % 2 ^ k := by
    rw [BitVec.toNat_and, BitVec.toNat_ofNat, Nat.mod_eq_of_lt (by omega), Nat.and_two_pow_sub_one_eq_mod]
  have small := Nat.mod_lt v.toBitVec.toNat (Nat.two_pow_pos k)
  rw [← Int64.toInt_toBitVec, show (v &&& Int64.ofNat (2 ^ k - 1)).toBitVec = v.toBitVec &&& BitVec.ofNat 64 (2 ^ k - 1)
    from rfl, BitVec.toInt_eq_toNat_of_lt (by omega), low, hv]
  norm_cast

theorem toInt_middle (h : 0 ≤ v.toInt) : (v >>> 6 &&& 0x7ff).toInt = v.toInt / 64 % 2048 := by
  have hshift : (v >>> 6).toInt = v.toInt / 64 := toInt_shiftRight v (rfl : (6 : Int64) = Int64.ofNat 6) (by decide)
  rw [← hshift]
  exact toInt_and_ones (k := 11) (by decide) (by omega)

theorem addressSteps_fit (h : addr.toNat < 2 ^ 47) : ∀ s ∈ addressSteps addr, s.Fits := by
  have himm := @toInt_of_lt addr (by omega)
  have hmid := toInt_middle (v := addr.toInt64) (by omega)
  intro s hs
  simp only [addressSteps, List.mem_cons, List.not_mem_nil, or_false] at hs
  rcases hs with rfl | rfl | rfl | rfl | rfl
  · exact fits_upper20 _
  · exact isImm12_low12 _
  · exact ⟨by decide, by decide⟩
  · show isImm12 _ = true
    rw [isImm12, fitsSigned_iff, hmid]
    simp only [Nat.reduceSub, Int.reducePow]
    omega
  · exact ⟨by decide, by decide⟩

/-- The upper part of a number of thirty bits fits the upper part of a word. -/
theorem upper20_add_low12 (h0 : 0 ≤ v.toInt) (h : v.toInt < 2 ^ 30) : upper20 (high12 v) <<< 12 + low12 v = v := by
  have hhigh : upper20 (high12 v) <<< 12 = high12 v := by
    have habs := abs_high12 v
    rw [← Int64.toInt_inj, toInt_upper20_shift]
    exact Int.bmod_eq_of_le (by omega) (by omega)
  rw [hhigh, high12_add_low12]

theorem address_parts (x : Int) : (x / 131072 * 2 ^ 11 + x / 64 % 2048) * 2 ^ 6 + x % 64 = x := by omega

/-- The steps make up the address but for its low six bits. -/
theorem perform_addressSteps (h : addr.toNat < 2 ^ 47) (v : Int64) :
    perform v (addressSteps addr) + (addr.toInt64 &&& 0x3f) = addr.toInt64 := by
  have himm := @toInt_of_lt addr (by omega)
  have hlt : addr.toInt64.toInt < 2 ^ 47 := by omega
  have hmid := toInt_middle (v := addr.toInt64) (by omega)
  have hlow : (addr.toInt64 &&& 0x3f).toInt = addr.toInt64.toInt % 64 := toInt_and_ones (k := 6) (by decide) (by omega)
  have htop : (addr.toInt64 >>> 17).toInt = addr.toInt64.toInt / 131072 :=
    toInt_shiftRight addr.toInt64 (rfl : (17 : Int64) = Int64.ofNat 17) (by decide)
  have hsum := upper20_add_low12 (v := addr.toInt64 >>> 17) (by omega) (by omega)
  show (((upper20 (high12 (addr.toInt64 >>> 17)) <<< 12 + low12 (addr.toInt64 >>> 17)) <<< 11 +
    (addr.toInt64 >>> 6 &&& 0x7ff)) <<< 6 + (addr.toInt64 &&& 0x3f)) = _
  rw [hsum]
  generalize addr.toInt64 = imm at *
  rw [← Int64.toInt_inj, Int64.toInt_add, toInt_shiftLeft _ (rfl : (6 : Int64) = Int64.ofNat 6) (by decide),
    Int64.toInt_add, toInt_shiftLeft _ (rfl : (11 : Int64) = Int64.ofNat 11) (by decide), hlow, hmid, htop,
    Int.bmod_add_bmod (x := imm.toInt / 131072 * 2 ^ 11), Int.bmod_mul_bmod, Int.bmod_add_bmod, address_parts]
  exact Int64.toInt_bmod_size imm

end

variable {t : Target} {a a' : Assembler} {rd : Reg} (m : Machine)

theorem movptr_eq_ok {addr : UInt64} {lo : Int64} (h : movptrWithOffset rd addr t a = .ok (lo, a')) :
    addr.toNat < 2 ^ 47 ∧ lo = addr.toInt64 &&& 0x3f ∧ (addressSteps addr).forM (constStep rd) t a = .ok ((), a') := by
  obtain ⟨_, a0, hlift, hrest⟩ := bind_eq_ok.mp h
  obtain ⟨hcheck, rfl⟩ := lift_eq_ok.mp hlift
  obtain ⟨_, a1, h1, hrest⟩ := bind_eq_ok.mp hrest
  obtain ⟨_, a2, h2, hrest⟩ := bind_eq_ok.mp hrest
  obtain ⟨_, a3, h3, hrest⟩ := bind_eq_ok.mp hrest
  obtain ⟨_, a4, h4, hrest⟩ := bind_eq_ok.mp hrest
  obtain ⟨_, a5, h5, hrest⟩ := bind_eq_ok.mp hrest
  obtain ⟨rfl, rfl⟩ := pure_eq_ok.mp hrest
  refine ⟨?_, rfl, ?_⟩
  · have hzero : addr >>> 47 = 0 := by simpa using check_eq_ok.mp hcheck
    have := congrArg UInt64.toNat hzero
    rw [UInt64.toNat_shiftRight, show UInt64.toNat 47 % 64 = 47 from rfl,
      Nat.shiftRight_eq_div_pow, UInt64.toNat_zero] at this
    omega
  · exact bind_eq_ok.mpr ⟨_, _, h1, bind_eq_ok.mpr ⟨_, _, h2, bind_eq_ok.mpr ⟨_, _, h3,
      bind_eq_ok.mpr ⟨_, _, h4, bind_eq_ok.mpr ⟨_, _, h5, rfl⟩⟩⟩⟩⟩

/-- All but the low six bits of an address; those are left for the jump. -/
theorem movptr_puts {addr : UInt64} {lo : Int64} (hk : Keeps rd) (h : movptrWithOffset rd addr t a = .ok (lo, a')) :
    isImm12 lo = true ∧ ∃ is, Wrote is a a' ∧ Puts is rd [] fun _ => addr - lo.toUInt64 := by
  obtain ⟨hlt, rfl, hsteps⟩ := movptr_eq_ok h
  have himm := @toInt_of_lt addr (by omega)
  constructor
  · have hlow : (addr.toInt64 &&& 0x3f).toInt = addr.toInt64.toInt % 64 :=
      toInt_and_ones (k := 6) (by decide) (by omega)
    rw [isImm12, fitsSigned_iff, hlow]
    simp only [Nat.reduceSub, Int.reducePow]
    omega
  · obtain ⟨is, hw, hp⟩ := constSteps_puts (addressSteps_fit hlt) hk hsteps
    refine ⟨is, hw, ?_⟩
    have hvalue (m : Machine) : (perform (m.get rd).toInt64 (addressSteps addr)).toUInt64 =
        addr - (addr.toInt64 &&& 0x3f).toUInt64 := by
      have hsum := congrArg Int64.toUInt64 (perform_addressSteps hlt (m.get rd).toInt64)
      rw [Int64.toUInt64_add, UInt64.toUInt64_toInt64] at hsum
      rw [← hsum]
      grind
    simp only [hvalue] at hp
    exact hp

/-! ## Jumps through registers -/

/-- The machine at the target of a call. -/
structure Called (tmps : List Reg) (target ret : UInt64) (m m' : Machine) : Prop where
  pc : m'.pc = target
  ra : m'.get ra = ret
  rest : ∀ r, r ≠ Reg.ra → r ∉ tmps → m'.get r = m.get r
  mem : m'.mem = m.mem

/-- The machine at the target of a jump that leaves the address behind it in a register, or nowhere. -/
structure Linked (link : Reg) (tmps : List Reg) (target ret : UInt64) (m m' : Machine) : Prop where
  pc : m'.pc = target
  ret : Keeps link → m'.get link = ret
  rest : ∀ r, r ≠ link → r ∉ tmps → m'.get r = m.get r
  mem : m'.mem = m.mem

theorem Linked.mono {link : Reg} {tmps tmps' : List Reg} {target ret : UInt64} {m m' : Machine}
    (h : Linked link tmps target ret m m') (hsub : tmps ⊆ tmps') : Linked link tmps' target ret m m' :=
  ⟨h.pc, h.ret, fun r hr ht => h.rest r hr fun hmem => ht (hsub hmem), h.mem⟩

theorem Linked.called {tmps : List Reg} {target ret : UInt64} {m m' : Machine} (h : Linked Reg.ra tmps target ret m m') :
    Called tmps target ret m m' := ⟨h.pc, h.ret (by decide), h.rest, h.mem⟩

/-! ## Jumps by a distance -/

/-- The distance without its lowest bit. -/
def evened (off : Int64) : Int64 := off &&& ~~~1

theorem toNat_and_not_one (x : UInt64) : (x &&& ~~~1).toNat = x.toNat / 2 * 2 :=
  toNat_and_not_low x.toBitVec (k := 1) (by decide)

theorem add_evened {pc : UInt64} {off : Int64} (heven : pc % 2 = 0) :
    pc + (evened off).toUInt64 = (pc + off.toUInt64) &&& ~~~1 := by
  have hpc : pc.toNat % 2 = 0 := congrArg UInt64.toNat heven
  have hoff : (evened off).toUInt64.toNat = off.toUInt64.toNat / 2 * 2 := toNat_and_not_one off.toUInt64
  apply UInt64.toNat_inj.mp
  rw [toNat_and_not_one, UInt64.toNat_add, UInt64.toNat_add, hoff]
  omega

theorem evened_fits {off : Int64} (h : fitsSigned 21 off = true) :
    fitsSigned 21 (evened off) = true ∧ (evened off).toInt % 2 = 0 := by
  have hdown : (evened off).toBitVec.toNat = off.toBitVec.toNat / 2 * 2 :=
    toNat_and_not_low off.toBitVec (k := 1) (by decide)
  have hlt := off.toBitVec.isLt
  rw [fitsSigned_iff] at h ⊢
  rw [← Int64.toInt_toBitVec, BitVec.toInt_eq_toNat_cond] at h ⊢
  rw [hdown]
  constructor
  · split <;> split at h <;> omega
  · split <;> omega

/-- The distance of a jump is stored without its lowest bit. -/
theorem jal_evened (rd : Reg) (off : Int64) :
    Op.jal.encode rd .none .none off 0 = Op.jal.encode rd .none .none (evened off) 0 := by
  have hdown : (lowWord (evened off)).toNat = (lowWord off).toNat / 2 * 2 := by
    have h64 : (evened off).toUInt64.toNat = off.toUInt64.toNat / 2 * 2 := toNat_and_not_one off.toUInt64
    rw [lowWord, lowWord, UInt64.toNat_toUInt32, UInt64.toNat_toUInt32, h64]
    omega
  have hshift (k : UInt32) (hk : 0 < k.toNat) (hlt : k.toNat < 32) : lowWord (evened off) >>> k = lowWord off >>> k := by
    apply UInt32.toNat_inj.mp
    rw [UInt32.toNat_shiftRight, UInt32.toNat_shiftRight, hdown, Nat.mod_eq_of_lt hlt, Nat.shiftRight_eq_div_pow,
      Nat.shiftRight_eq_div_pow]
    obtain ⟨j, hj⟩ : ∃ j, k.toNat = 1 + j := ⟨k.toNat - 1, by omega⟩
    rw [hj, Nat.pow_add, Nat.pow_one, ← Nat.div_div_eq_div_mul, ← Nat.div_div_eq_div_mul,
      Nat.mul_div_cancel _ (by decide)]
  show encodeJ _ _ (lowWord off) = encodeJ _ _ (lowWord (evened off))
  rw [encodeJ, encodeJ, jumpBits, jumpBits, hshift 20 (by decide) (by decide), hshift 1 (by decide) (by decide),
    hshift 11 (by decide) (by decide), hshift 12 (by decide) (by decide)]

/-- The instruction of a jump through a register. -/
def jumpInst (rd rs : Reg) (off : Int64) : Inst := Op.jalr.instOf rd rs .none off 0 0

theorem jalr_wrote {rs : Reg} {off : Int64} (h : jalr rd rs off t a = .ok ((), a')) :
    Wrote [jumpInst rd rs off] a a' := by
  obtain ⟨_, a0, hlift, hemit⟩ := bind_eq_ok.mp h
  obtain ⟨hcheck, rfl⟩ := lift_eq_ok.mp hlift
  exact wrote_emit hemit (by decide) rfl nofun nofun (fun _ => rfl) (check_eq_ok.mp hcheck) rfl

theorem exec_jump (rd rs : Reg) (off : Int64) :
    m.exec (jumpInst rd rs off) = some { m.set rd (m.pc + 4) with pc := (m.get rs + off.toUInt64) &&& ~~~1 } := rfl

/-- An address relative to the program counter, in steps of 4096. -/
theorem auipc_puts {imm : Int64} (hi : fitsSigned 20 imm = true) (hk : Keeps rd) (h : auipc rd imm t a = .ok ((), a')) :
    ∃ is, Wrote is a a' ∧ Puts is rd [] fun m => m.pc + imm.toUInt64 <<< 12 :=
  ⟨_, wrote_emit h (by decide) rfl nofun (fun _ => rfl) (fun _ => rfl) hi rfl, puts_one hk fun _ => rfl⟩

theorem exec_jal (link : Reg) (off : Int64) : m.exec (Op.jal.instOf link .none .none off 0 0) =
    some { m.set link (m.pc + 4) with pc := m.pc + off.toUInt64 } := rfl

/-- What linking and going elsewhere does. -/
theorem linked_of_set {link : Reg} (hl : link ≠ .none) (target ret : UInt64) (tmps : List Reg) :
    Linked link tmps target ret m { m.set link ret with pc := target } := by
  refine ⟨rfl, fun hk => ?_, fun r hr _ => ?_, Machine.set_mem ..⟩
  · rw [Machine.get_withPc, Machine.get_set _ hk, if_pos rfl]
  · rw [Machine.get_withPc]
    by_cases hz : link = .x 0
    · rw [hz, Machine.set_zero]
    · rw [Machine.get_set _ ⟨hz, hl⟩, if_neg hr]

namespace Site

variable {S : Site} {m m' m1 : Machine} {E : Exits} {a b a' : Assembler} {is : List Inst}

variable {x : Asm Unit} {target : UInt64} {link rs : Reg} {Q : Unit → Machine → Prop} {off : Int64} {tmp : Reg}

/-- Leaving the code through a register. -/
theorem does_jr (h : E .away { m with pc := m.get rs &&& ~~~1 }) : S.Does (jr rs) m E Q := by
  intro a _ a' hrun ha ha' hat
  obtain ⟨hstep, -⟩ := hat.exec ha ha' (jalr_wrote hrun)
  refine ⟨_, .one (hstep.trans (exec_jump m zr rs 0)), .inr (.inl ?_)⟩
  rw [show (0 : Int64).toUInt64 = 0 from rfl, UInt64.add_zero]
  exact h

theorem jalr_links (hl : link ≠ .none) (hrun : jalr link rs off S.target a = .ok ((), a')) (ha : S.Early a)
    (ha' : S.Late a') (hat : S.At a m) :
    ∃ m', S.world.Reaches m m' ∧
      Linked link [] ((m.get rs + off.toUInt64) &&& ~~~1) (S.start + UInt64.ofNat a'.buf.offset) m m' := by
  obtain ⟨hstep, hpc⟩ := hat.exec ha ha' (jalr_wrote hrun)
  rw [exec_jump, hpc] at hstep
  exact ⟨_, .one hstep, linked_of_set _ hl ..⟩

theorem jalr_reaches (hrun : jalr ra rs off S.target a = .ok ((), a')) (ha : S.Early a) (ha' : S.Late a')
    (hat : S.At a m) : ∃ m', S.world.Reaches m m' ∧
      Called [] ((m.get rs + off.toUInt64) &&& ~~~1) (S.start + UInt64.ofNat a'.buf.offset) m m' := by
  obtain ⟨m', hreach, hlinked⟩ := jalr_links (by decide) hrun ha ha' hat
  exact ⟨m', hreach, hlinked.called⟩

/-! ## Far calls -/

/-- Where the next instruction goes is known when the address of the code is. -/
theorem At.pc_known (hat : S.At a m) (ha : S.Early a) (hbase : a.buf.base ≠ 0) : m.pc = a.buf.pc := by
  obtain ⟨pre, hpre⟩ := ha
  have hsame : a.buf.base = S.first.buf.base := hpre.steady.base
  rw [hat.pc, S.based (by rw [← hsame]; exact hbase), ← hsame]
  rfl

theorem Early.offset (ha : S.Early a) (ha' : S.Late a) : ∃ k, a.buf.offset = 4 * k := by
  obtain ⟨L0, L1, L, hspot⟩ := spot ha (.nil a) ha'
  exact ⟨_, hspot.before.offset⟩

theorem even_add {x : UInt64} (h : x % 2 = 0) (k : Nat) : (x + UInt64.ofNat (4 * k)) % 2 = 0 := by
  have hx : x.toNat % 2 = 0 := congrArg UInt64.toNat h
  apply UInt64.toNat_inj.mp
  rw [UInt64.toNat_mod, UInt64.toNat_add, UInt64.toNat_ofNat']
  show (x.toNat + 4 * k % 2 ^ 64) % 2 ^ 64 % 2 = 0
  omega

/-- A jump through a register that was just set. -/
theorem through_links {v : Machine → UInt64} {lo : Int64} (hl : link ≠ .none) (hw : Wrote is a b)
    (hputs : Puts is tmp [] v)
    (hrun : jalr link tmp lo S.target b = .ok ((), a')) (ha : S.Early a) (ha' : S.Late a') (hat : S.At a m) :
    ∃ m', S.world.Reaches m m' ∧
      Linked link [tmp] ((v m + lo.toUInt64) &&& ~~~1) (S.start + UInt64.ofNat a'.buf.offset) m m' := by
  obtain ⟨m1, hruns, hput⟩ := hputs (fun _ => False) m
  obtain ⟨hreach, hat1⟩ := hat.runs ha (ha'.append (jalr_wrote hrun).trace) hw (fun _ h => h.elim) hruns
  obtain ⟨m', hreach', hlinked⟩ := jalr_links hl hrun (ha.append hw.trace) ha' hat1
  refine ⟨m', hreach.trans hreach', ?_, hlinked.ret, fun r hr ht => ?_, hlinked.mem.trans hput.mem⟩
  · rw [hlinked.pc, hput.value]
  · rw [hlinked.rest r hr List.not_mem_nil, hput.other r (by simpa using ht)]

theorem shift_high12 (v : Int64) : (high12 v >>> 12).toUInt64 <<< 12 = (high12 v).toUInt64 := by
  have e : (high12 v >>> 12) <<< 12 = high12 v := by
    apply Int64.toInt_inj.mp
    have hd := dvd_high12 v
    have hlo := (high12 v).le_toInt
    have hhi := (high12 v).toInt_lt
    rw [toInt_shiftLeft _ (rfl : (12 : Int64) = Int64.ofNat 12) (by decide),
      toInt_shiftRight _ (rfl : (12 : Int64) = Int64.ofNat 12) (by decide), Int.bmod_def]
    simp only [Int.reducePow, Nat.reducePow]
    omega
  exact (toUInt64_shiftLeft (high12 v >>> 12) (show 12 < 64 by decide)).symm.trans (congrArg Int64.toUInt64 e)

/-- A jump by a distance. The instruction has no room for the lowest bit. -/
theorem jalOffset_links (hl : link ≠ .none) (heven : m.pc % 2 = 0) (hrun : jalOffset link off S.target a = .ok ((), a'))
    (ha : S.Early a) (ha' : S.Late a') (hat : S.At a m) :
    ∃ m', S.world.step m = some m' ∧
      Linked link [] ((m.pc + off.toUInt64) &&& ~~~1) (S.start + UInt64.ofNat a'.buf.offset) m m' := by
  unfold jalOffset at hrun
  split at hrun
  case _ hfits =>
    obtain ⟨hfits, hodd⟩ := evened_fits hfits
    obtain ⟨hcheck, e⟩ := emit_eq_ok.mp hrun
    have hrun' : emit .jal link .none .none (evened off) 0 S.target a = .ok ((), a') :=
      emit_eq_ok.mpr ⟨hcheck, by rw [e, jal_evened]⟩
    have hw := wrote_emit hrun' (by decide) rfl nofun (fun _ => rfl) (fun _ => rfl)
      (by show (fitsSigned 21 _ && _ == 0) = true; rw [hfits, hodd]; rfl) rfl
    obtain ⟨hstep, hpc⟩ := hat.exec ha ha' hw
    rw [exec_jal, hpc, add_evened heven] at hstep
    exact ⟨_, hstep, linked_of_set _ hl ..⟩
  case _ =>
    cases hrun
    have hw := ha'.working
    rw [show (a.buf.fail branchOutOfRange).failed = true from CodeBuffer.failed_fail (by decide)] at hw
    cases hw

/-- A jump to any address reaches it, but for the lowest bit, in any of its forms. -/
theorem farCall_goes (hl : link ≠ .none) (hk : Keeps tmp) (hstart : S.start % 2 = 0)
    (hrun : farCall target link tmp S.target a = .ok ((), a')) (ha : S.Early a) (ha' : S.Late a') (hat : S.At a m) :
    ∃ m', S.world.Reaches m m' ∧ Linked link [tmp] (target &&& ~~~1) (S.start + UInt64.ofNat a'.buf.offset) m m' := by
  obtain ⟨js, htrace, -⟩ := (traced_farCall target link tmp).trace _ _ _ _ ha.behind hrun
  obtain ⟨k, hoff⟩ := ha.offset (ha'.append htrace)
  have hpcEven : m.pc % 2 = 0 := by rw [hat.pc, hoff]; exact even_add hstart k
  -- a distance from the program counter leads to the target
  have there (hbase : a.buf.base ≠ 0) : m.pc + (target - a.buf.pc).toInt64.toUInt64 = target := by
    rw [hat.pc_known ha hbase, UInt64.toUInt64_toInt64, UInt64.add_comm, UInt64.sub_add_cancel]
  obtain ⟨_, a0, hget, hrun⟩ := bind_eq_ok.mp hrun
  cases hget
  split at hrun
  case _ hnear =>
    have hbase := of_decide_eq_true (Bool.and_eq_true_iff.mp hnear).1
    obtain ⟨m', hstep, hlinked⟩ := jalOffset_links hl hpcEven hrun ha ha' hat
    rw [there hbase] at hlinked
    exact ⟨m', .one hstep, hlinked.mono (List.nil_subset _)⟩
  case _ =>
    split at hrun
    case _ hmiddle =>
      obtain ⟨hbase, hfits⟩ := Bool.and_eq_true_iff.mp hmiddle
      have hbase := of_decide_eq_true hbase
      obtain ⟨_, b, hauipc, hjalr⟩ := bind_eq_ok.mp hrun
      obtain ⟨is, hw, hputs⟩ := auipc_puts hfits hk hauipc
      obtain ⟨m', hreach, hlinked⟩ := through_links hl hw hputs hjalr ha ha' hat
      rw [shift_high12, UInt64.add_comm m.pc, add_high12_low12, there hbase] at hlinked
      exact ⟨m', hreach, hlinked⟩
    case _ =>
      obtain ⟨lo, b, hmov, hjalr⟩ := bind_eq_ok.mp hrun
      obtain ⟨-, is, hw, hputs⟩ := movptr_puts hk hmov
      obtain ⟨m', hreach, hlinked⟩ := through_links hl hw hputs hjalr ha ha' hat
      rw [UInt64.sub_add_cancel] at hlinked
      exact ⟨m', hreach, hlinked⟩

/-- A jump to any instruction reaches it, in any of its forms. -/
theorem farCall_links (hl : link ≠ .none) (hk : Keeps tmp) (heven : target % 2 = 0) (hstart : S.start % 2 = 0)
    (hrun : farCall target link tmp S.target a = .ok ((), a')) (ha : S.Early a) (ha' : S.Late a') (hat : S.At a m) :
    ∃ m', S.world.Reaches m m' ∧ Linked link [tmp] target (S.start + UInt64.ofNat a'.buf.offset) m m' := by
  obtain ⟨m', hreach, hlinked⟩ := farCall_goes hl hk hstart hrun ha ha' hat
  rw [and_not_one heven] at hlinked
  exact ⟨m', hreach, hlinked⟩

/-- A call reaches its target, in any of its forms. -/
theorem farCall_reaches (hk : Keeps tmp) (heven : target % 2 = 0) (hstart : S.start % 2 = 0)
    (hrun : farCall target ra tmp S.target a = .ok ((), a')) (ha : S.Early a) (ha' : S.Late a') (hat : S.At a m) :
    ∃ m', S.world.Reaches m m' ∧ Called [tmp] target (S.start + UInt64.ofNat a'.buf.offset) m m' := by
  obtain ⟨m', hreach, hlinked⟩ := farCall_links (by decide) hk heven hstart hrun ha ha' hat
  exact ⟨m', hreach, hlinked.called⟩

/-- The machine has left the code for an address. -/
structure Left (tmps : List Reg) (target : UInt64) (m m' : Machine) : Prop where
  pc : m'.pc = target
  rest : ∀ r, r ∉ tmps → m'.get r = m.get r
  mem : m'.mem = m.mem

/-- A jump to any address leaves the code for it. -/
theorem does_jump (heven : target % 2 = 0) (hstart : S.start % 2 = 0) (h : ∀ m', Left [Reg.t0] target m m' → E .away m') :
    S.Does (jump target) m E Q := by
  intro a _ a' hrun ha ha' hat
  obtain ⟨m', hreach, hlinked⟩ := farCall_links (show zr ≠ .none by decide) (by decide) heven hstart hrun ha ha' hat
  refine ⟨m', hreach, .inr (.inl (h m' ⟨hlinked.pc, fun r hr => ?_, hlinked.mem⟩))⟩
  by_cases hz : r = zr
  · rw [hz]
    rfl
  · exact hlinked.rest r hz hr

/-! ## Routines -/

/-- The address of a routine is looked up first. -/
theorem entryAddress_eq_ok {t : Target} {e : RuntimeEntry} {f : UInt64 → Asm Unit}
    (h : (entryAddress e >>= f) t a = .ok ((), a')) : f (t.runtime.addr e) t a = .ok ((), a') := by
  obtain ⟨target, b, hentry, h⟩ := bind_eq_ok.mp h
  obtain ⟨_, b', hread, hlift⟩ := bind_eq_ok.mp hentry
  cases hread
  obtain ⟨haddr, rfl⟩ := lift_eq_ok.mp hlift
  unfold RuntimeEntries.address at haddr
  split at haddr
  · cases haddr
  · cases haddr
    exact h

/-- The work calls other code at the cost of scratch registers, with the address behind it in ra. -/
def CallsTo (S : Site) (x : Asm Unit) (tmps : List Reg) (target : UInt64) (m : Machine) : Prop :=
  ∀ a a', x S.target a = .ok ((), a') → S.Early a → S.Late a' → S.At a m →
    ∃ m', S.world.Reaches m m' ∧ Called tmps target (S.start + UInt64.ofNat a'.buf.offset) m m'

/-- A call of other code that comes back and leaves the code alone. -/
theorem does_subroutine (tmps : List Reg) (hstart : S.start % 2 = 0) (hcall : S.CallsTo x tmps target m)
    (h : ∀ m1 ret, S.world.Reaches m m1 → Called tmps target ret m m1 → ∃ m2, S.world.Reaches m1 m2 ∧
    m2.pc = m1.get ra &&& ~~~1 ∧
      (∀ addr, ¬ S.Free addr → m2.mem addr = m1.mem addr) ∧ Q () m2)
    [hx : x.Traced] : S.Does x m E Q := by
  intro a _ a' hrun ha ha' hat
  obtain ⟨is, htrace, -⟩ := hx.trace _ _ _ _ ha.behind hrun
  obtain ⟨k, hoff⟩ := (ha.append htrace).offset ha'
  obtain ⟨m1, hreach, hcalled⟩ := hcall a a' hrun ha ha' hat
  obtain ⟨m2, hback, hpc, hmem, hQ⟩ := h m1 _ hreach hcalled
  refine ⟨m2, hreach.trans hback, .inl ⟨⟨?_, ?_⟩, hQ⟩⟩
  · refine hat.stands.keep fun addr hnot => ?_
    rw [hmem addr hnot, hcalled.mem]
  · rw [hpc, hcalled.ra, hoff, and_not_one (even_add hstart k)]

/-- A call of a routine that returns and leaves the code alone. -/
theorem does_routine (tmps : List Reg) {routine : Machine → Machine} (hstart : S.start % 2 = 0)
    (hcall : S.CallsTo x tmps target m)
    (hroutine : S.world target = some routine)
    (h : ∀ m1 ret, S.world.Reaches m m1 → Called tmps target ret m m1 → (routine m1).pc = m1.get ra &&& ~~~1 ∧
      (∀ addr, ¬ S.Free addr → (routine m1).mem addr = m1.mem addr) ∧ Q () (routine m1))
    [x.Traced] : S.Does x m E Q := by
  refine does_subroutine tmps hstart hcall fun m1 ret hreach hcalled => ⟨routine m1, .one ?_, h m1 ret hreach hcalled⟩
  rw [World.step, hcalled.pc, hroutine]

theorem runtime_reaches {e : RuntimeEntry} {a a' : Assembler} (hk : Machine.Keeps tmp)
    (heven : S.target.runtime.addr e % 2 = 0) (hstart : S.start % 2 = 0)
    (hrun : (entryAddress e >>= fun target => farCall target ra tmp) S.target a = .ok ((), a')) (ha : S.Early a)
    (ha' : S.Late a') (hat : S.At a m) :
    ∃ m', S.world.Reaches m m' ∧ Called [tmp] (S.target.runtime.addr e) (S.start + UInt64.ofNat a'.buf.offset) m m' :=
  farCall_reaches hk heven hstart (entryAddress_eq_ok hrun) ha ha' hat

/-- A call stops where it leads, with what follows from every machine that is back. -/
theorem Does.calls {α : Type} {f : Unit → Asm α} {Q : α → Machine → Prop} {tmps : List Reg} {R : Machine → Exits}
    [hx : x.Traced] [hf : ∀ r, (f r).Traced] (hstart : S.start % 2 = 0) (hcall : S.CallsTo x tmps target m)
    (h : ∀ ret m1, Called tmps target ret m m1 → ret % 2 = 0 →
      (∀ m2, S.Stands m2 → m2.pc = ret → ∃ m', S.world.Reaches m2 m' ∧ S.Leaves (R m2) m') → E .away m1)
    (hback : ∀ m2, S.Does (f ()) m2 (R m2) fun _ _ => False) : S.Does (x >>= f) m E Q := by
  intro a p a' hrun ha ha' hat
  obtain ⟨_, b, hfirst, hrest⟩ := bind_eq_ok.mp hrun
  obtain ⟨items, htrace, -⟩ := hx.trace _ _ _ _ ha.behind hfirst
  have hb := ha.append htrace
  obtain ⟨items', htrace', -⟩ := (hf ()).trace _ _ _ _ hb.behind hrest
  have hb' := ha'.append htrace'
  obtain ⟨j, hoff⟩ := hb.offset hb'
  obtain ⟨m1, hreach, hcalled⟩ := hcall a b hfirst ha hb' hat
  refine ⟨m1, hreach, .inr (.inl (h _ m1 hcalled (by rw [hoff]; exact even_add hstart j) fun m2 hstands hpc => ?_))⟩
  obtain ⟨m', hreach', ⟨-, hnever⟩ | hleave⟩ := hback m2 b p a' hrest hb ha' ⟨hstands, hpc⟩
  · exact hnever.elim
  · exact ⟨m', hreach', hleave⟩

end Site

end RiscvJit

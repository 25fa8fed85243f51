import RiscvJit.Proofs.Code.Effects

/-
  RiscvJit.Proofs.Code.Frames — frames and saved registers in memory.

  A frame that is built saves the return address and the frame pointer at its top, and removing it
  brings both back (`does_buildFrame`, `does_removeFrame`). Registers that are pushed below the stack
  pointer come back when they are popped, if their words were kept (`does_pushRegs`, `does_popRegs`).
-/

namespace RiscvJit

open Machine (Keeps)
open Reg (ra sp t0 fp)
open Asm

/-- The machine with a new frame of that many bytes below its stack pointer. -/
structure FrameBuilt (frame : Nat) (m m' : Machine) : Prop where
  sp : m'.get .sp = m.get .sp - UInt64.ofNat frame
  fp : m'.get .fp = m.get .sp - UInt64.ofNat 16
  rest : ∀ r, r ∉ [.sp, .fp, t0] → m'.get r = m.get r
  ra : m'.mem.read (m.get .sp - UInt64.ofNat 8) 8 = m.get .ra
  callerFp : m'.mem.read (m.get .sp - UInt64.ofNat 16) 8 = m.get .fp
  mem : ∀ x, ¬ Spans ((m.get .sp).toNat - 16) 16 x → m'.mem x = m.mem x

/-- The machine with its frame of that many bytes removed. -/
structure FrameRemoved (frame : Nat) (m m' : Machine) : Prop where
  sp : m'.get .sp = m.get .sp + UInt64.ofNat frame
  fp : m'.get .fp = m.mem.read (m.get .sp + UInt64.ofNat (frame - 16)) 8
  ra : m'.get .ra = m.mem.read (m.get .sp + UInt64.ofNat (frame - 8)) 8
  rest : ∀ r, r ∉ [.sp, .fp, .ra, t0] → m'.get r = m.get r
  mem : m'.mem = m.mem

/-- The machine with registers pushed to an area of `n` bytes below its stack pointer. -/
structure RegsPushed (regs : List Reg) (n : Nat) (m m' : Machine) : Prop where
  sp : m'.get .sp = m.get .sp - UInt64.ofNat n
  rest : ∀ r, r ≠ .sp → m'.get r = m.get r
  words : ∀ i r, regs[i]? = some r → m'.mem.read (m.get .sp - UInt64.ofNat n + UInt64.ofNat (8 * i)) 8 = m.get r
  mem : ∀ x, ¬ Spans ((m.get .sp).toNat - n) n x → m'.mem x = m.mem x

/-- The machine with registers popped from an area of `n` bytes at its stack pointer. -/
structure RegsPopped (regs : List Reg) (n : Nat) (m m' : Machine) : Prop where
  sp : m'.get .sp = m.get .sp + UInt64.ofNat n
  rest : ∀ r, r ∉ .sp :: regs → m'.get r = m.get r
  words : ∀ i r, regs[i]? = some r → m'.get r = m.mem.read (m.get .sp + UInt64.ofNat (8 * i)) 8
  mem : m'.mem = m.mem

/-- The location that a register is. -/
def Reg.location : Reg → Location
  | .x n => .int n
  | .f n => .float n
  | .none => .nowhere

@[simp] theorem Reg.reg_location (r : Reg) : r.location.reg = r := by cases r <;> rfl

theorem Reg.location_apart {r s : Reg} (h : r ≠ s) : r.location.aliases s.location = false := by
  cases r <;> cases s <;> simp [location, Location.aliases] <;> rintro rfl <;> exact h rfl

theorem Reg.location_fits (base : UInt64) (r : Reg) : r.location.Fits base := by cases r <;> trivial

theorem Machine.at_location (m : Machine) (base : UInt64) (r : Reg) : m.at base r.location = m.get r := by cases r <;> rfl

/-- Registers that can be saved in an area of `n` bytes. -/
structure Saveable (regs : List Reg) (n : Nat) : Prop where
  size : pushedSize regs = Int64.ofNat n
  pos : 0 < n
  small : n < 2 ^ 62
  fits : 8 * regs.length ≤ n
  keeps : ∀ r ∈ regs, Keeps r
  stays : ∀ r ∈ regs, r ≠ sp
  distinct : regs.Nodup

theorem Saveable.ne_zero {regs : List Reg} {n : Nat} (h : Saveable regs n) : pushedSize regs ≠ 0 := by
  intro e
  have hpos := h.pos
  have hsmall := h.small
  rw [h.size] at e
  have := congrArg Int64.toInt e
  rw [Int64.toInt_ofNat_of_lt (by omega)] at this
  change (n : Int) = 0 at this
  omega

namespace Site

variable {S : Site} {m : Machine} {E : Exits} {Q : Unit → Machine → Prop} {frame : Nat}

theorem toUInt64_fromTop' {k : Nat} (hk : k ≤ frame) :
    (Int64.ofNat frame - Int64.ofNat k).toUInt64 = UInt64.ofNat (frame - k) := by
  rw [← Int64.ofNat_sub frame k hk, Int64.toUInt64_ofNat']

theorem does_buildFrame (hframe : 16 ≤ frame) (hroom : frame ≤ (m.get sp).toNat)
    (hfree : ∀ x, Spans ((m.get sp).toNat - 16) 16 x → S.Free x) (h : ∀ m', FrameBuilt frame m m' → Q () m') :
    S.Does (buildFrame (Int64.ofNat frame)) m E Q := by
  have htop := (m.get sp).toNat_lt
  have hback {k : Nat} (hk : k ≤ frame) : (m.get sp - UInt64.ofNat k).toNat = (m.get sp).toNat - k :=
    toNat_back (by omega)
  have hslot {m' : Machine} (hsp : m'.get sp = m.get sp - UInt64.ofNat frame) {o : Int64} {k : Nat}
    (ho : o = Int64.ofNat k)
      (hk : k ≤ frame) : m'.get sp + (Int64.ofNat frame - o).toUInt64 = m.get sp - UInt64.ofNat k := by
    subst ho
    apply UInt64.toNat_inj.mp
    rw [hsp, toUInt64_fromTop' hk, toNat_off (by rw [hback (Nat.le_refl _)]; omega), hback (Nat.le_refl _), hback hk]
    omega
  unfold buildFrame
  refine .bind (does_addImm (by decide) (by decide) fun m1 h1 => ?_)
  have hsp1 : m1.get sp = m.get sp - UInt64.ofNat frame := by
    rw [h1.value, add_neg_toUInt64, Int64.toUInt64_ofNat']
  have word {o : Nat} (ho : o ≤ frame) (hle : 8 ≤ o) (hle' : o ≤ 16) {i : Nat} (hi : i < 8) :
      S.Free (m.get sp - UInt64.ofNat o + UInt64.ofNat i) := by
    refine hfree _ ?_
    have := hback ho
    unfold Spans
    rw [toNat_off (by omega)]
    omega
  refine .bind (does_storeOff rfl rfl (by decide) (fun i hi => ?_) fun m2 h2 => ?_)
  · rw [hslot (o := 8) (k := 8) hsp1 rfl (by omega)]
    exact word (by omega) (by decide) (by decide) hi
  rw [hslot (o := 8) (k := 8) hsp1 rfl (by omega)] at h2
  have hsp2 := (h2.rest sp (by decide)).trans hsp1
  refine .bind (does_storeOff rfl rfl (by decide) (fun i hi => ?_) fun m3 h3 => ?_)
  · rw [hslot (o := 16) (k := 16) hsp2 rfl (by omega)]
    exact word (by omega) (by decide) (by decide) hi
  rw [hslot (o := 16) (k := 16) hsp2 rfl (by omega)] at h3
  have hsp3 := (h3.rest sp (by decide)).trans hsp2
  have hra := hback (k := 8) (by omega)
  have hfp := hback (k := 16) (by omega)
  refine does_addImm (by decide) (by decide) fun m4 h4 => h m4 ⟨?_, ?_, fun r hr => ?_, ?_, ?_, fun x hx => ?_⟩
  · rw [h4.rest _ (by decide) (by decide), hsp3]
  · rw [h4.value, hslot (o := 16) (k := 16) hsp3 rfl (by omega)]
  · simp only [List.mem_cons, List.not_mem_nil, or_false, not_or] at hr
    rw [h4.rest r hr.2.1 (by simpa using hr.2.2), h3.rest r (by simpa using hr.2.2), h2.rest r (by simpa using hr.2.2),
      h1.rest r hr.1 (by simpa using hr.2.2)]
  · rw [h4.mem, h3.mem, Ram.read_write_off _ _ (by omega) (by omega) (by omega), h2.mem, read_write_eight,
      h1.rest _ (by decide) (by decide)]
  · rw [h4.mem, h3.mem, read_write_eight, h2.rest _ (by decide), h1.rest _ (by decide) (by decide)]
  · rw [h4.mem, h3.mem, Ram.write_apart _ _ (by omega) (by omega), h2.mem,
      Ram.write_apart _ _ (by omega) (by omega), h1.mem]

theorem does_removeFrame (hframe : 16 ≤ frame) (h : ∀ m', FrameRemoved frame m m' → Q () m') :
    S.Does (removeFrame (Int64.ofNat frame)) m E Q := by
  unfold removeFrame
  refine .bind (does_loadOff rfl rfl (by decide) (by decide) fun m1 h1 =>
    .bind (does_loadOff rfl rfl (by decide) (by decide) fun m2 h2 =>
    does_addImm (by decide) (by decide) fun m3 h3 => ?_))
  have hsp1 : m1.get sp = m.get sp := h1.rest _ (by decide) (by decide)
  have hsp2 : m2.get sp = m.get sp := (h2.rest _ (by decide) (by decide)).trans hsp1
  refine h m3 ⟨?_, ?_, ?_, fun r hr => ?_, h3.mem.trans (h2.mem.trans h1.mem)⟩
  · rw [h3.value, hsp2, Int64.toUInt64_ofNat']
  · rw [h3.rest _ (by decide) (by decide), h2.value, hsp1, h1.mem, show (16 : Int64) = Int64.ofNat 16 from rfl,
      toUInt64_fromTop' hframe]
    rfl
  · rw [h3.rest _ (by decide) (by decide), h2.rest _ (by decide) (by decide), h1.value,
      show (8 : Int64) = Int64.ofNat 8 from rfl, toUInt64_fromTop' (by omega)]
    rfl
  · simp only [List.mem_cons, List.not_mem_nil, or_false, not_or] at hr
    rw [h3.rest r hr.1 (by simpa using hr.2.2.2), h2.rest r hr.2.1 (by simpa using hr.2.2.2),
      h1.rest r hr.2.2.1 (by simpa using hr.2.2.2)]

/-! ## Saved registers -/

variable {regs : List Reg} {n : Nat}

theorem does_storeReg {r base : Reg} {off : Int64} (hfree : ∀ i < 8, S.Free (m.get base + off.toUInt64 + UInt64.ofNat i))
    (h : ∀ m', Stored [] (m.get base + off.toUInt64) 8 (m.get r) m m' → Q () m') :
    S.Does (store (storeOpFor r) r base off) m E Q := by
  unfold storeOpFor
  split <;> exact does_store rfl rfl hfree h

theorem does_loadReg {r base : Reg} {off : Int64} (hk : Keeps r)
    (h : ∀ m', Put r [] (m.mem.read (m.get base + off.toUInt64) 8) m m' → Q () m') :
    S.Does (load (loadOpFor r) r base off) m E Q := by
  unfold loadOpFor
  split <;> exact does_load rfl rfl hk h

theorem does_pushRegs {Q : Int64 → Machine → Prop} (hregs : Saveable regs n) (hroom : n ≤ (m.get sp).toNat)
    (hfree : ∀ x, Spans ((m.get sp).toNat - n) n x → S.Free x) (h : ∀ r m', RegsPushed regs n m m' → Q r m') :
    S.Does (pushRegs regs) m E Q := by
  have hfits := hregs.fits
  have hlow : (m.get sp - UInt64.ofNat n).toNat = (m.get sp).toNat - n := toNat_back hroom
  have htop := (m.get sp).toNat_lt
  unfold pushRegs
  dsimp only
  rw [if_neg hregs.ne_zero, hregs.size]
  refine .bind (does_addi fun m1 h1 => .bind ?_)
  have hsp1 : m1.get sp = m.get sp - UInt64.ofNat n := by
    rw [h1.value, add_neg_toUInt64, Int64.toUInt64_ofNat']
  have hmem {p : Reg × Nat} (hp : p ∈ regs.zipIdx) : p.1 ∈ regs ∧ p.2 < regs.length :=
    ⟨(List.mem_zipIdx hp).2.2 ▸ List.getElem_mem _, by have := (List.mem_zipIdx hp).2.1; omega⟩
  -- every register has a word of its own
  refine (Does.deliver (m.get sp - UInt64.ofNat n) [] (fun p : Reg × Nat => .stack (2 * p.2))
    (P := fun p v => v = m.get p.1) (fun p hp => ?_) (fun _ _ => List.not_mem_nil) ?_ fun p hp m' hchanged => ?_).imp
    (fun _ _ h => h) fun _ m2 ⟨hchanged, hwords⟩ =>
    does_pure (h _ m2 ⟨?_, fun r hr => ?_, fun i r hi => ?_, fun x hx => ?_⟩)
  · have := (hmem hp).2
    show _ + 4 * (2 * p.2) + 8 ≤ _
    omega
  · rw [List.pairwise_iff_getElem]
    intro i j hi hj hij
    simp only [List.getElem_zipIdx, Location.aliases, slotsPerWord, Bool.and_eq_false_iff, decide_eq_false_iff_not]
    omega
  · obtain ⟨hreg, hlt⟩ := hmem hp
    have hsp' : m'.get sp = m.get sp - UInt64.ofNat n :=
      (hchanged.regs _ List.not_mem_nil fun l hl => by
        obtain ⟨q, -, rfl⟩ := List.mem_map.mp hl
        exact (by decide : Reg.none ≠ sp)).trans hsp1
    have hvalue : m'.get p.1 = m.get p.1 :=
      (hchanged.regs _ List.not_mem_nil fun l hl => by
        obtain ⟨q, -, rfl⟩ := List.mem_map.mp hl
        exact (hregs.keeps _ hreg).2.symm).trans (h1.other _ (hregs.stays _ hreg))
    have haddr : m'.get sp + (Int64.ofNat (8 * p.2)).toUInt64 = m.get sp - UInt64.ofNat n + UInt64.ofNat
      (4 * (2 * p.2)) := by
      rw [hsp', Int64.toUInt64_ofNat', ← Nat.mul_assoc]
    refine does_storeReg (fun i hi => ?_) fun m'' hs => ?_
    · rw [haddr]
      refine hfree _ ?_
      have := spans_off (a := m.get sp - UInt64.ofNat n) (x := 4 * (2 * p.2)) (n := 8) (by omega) hi
      omega
    · rw [haddr] at hs
      refine ⟨hs.changed (by omega) (by decide), ?_⟩
      show m''.mem.read _ 8 = _
      rw [hs.mem, read_write_eight, hvalue]
  · exact (hchanged.regs _ List.not_mem_nil fun l hl => by
      obtain ⟨q, -, rfl⟩ := List.mem_map.mp hl
      exact (by decide : Reg.none ≠ sp)).trans hsp1
  · by_cases hnone : r = .none
    · rw [hnone]
      rfl
    · exact (hchanged.regs _ List.not_mem_nil fun l hl => by
        obtain ⟨q, -, rfl⟩ := List.mem_map.mp hl
        exact Ne.symm hnone).trans (h1.other _ hr)
  · have := hwords (r, i) (List.mem_zipIdx_iff_getElem?.mpr hi)
    rwa [Machine.at, ← Nat.mul_assoc] at this
  · rw [hchanged.mem x fun l hl hc => ?_, h1.mem]
    obtain ⟨q, hq, rfl⟩ := List.mem_map.mp hl
    have := (hmem hq).2
    simp only [Location.Covers] at hc
    omega

theorem does_popRegs (hregs : Saveable regs n) (h : ∀ m', RegsPopped regs n m m' → Q () m') :
    S.Does (popRegs regs) m E Q := by
  unfold popRegs
  dsimp only
  rw [if_neg hregs.ne_zero, hregs.size]
  have hmem {p : Reg × Nat} (hp : p ∈ regs.zipIdx) : p.1 ∈ regs := (List.mem_zipIdx hp).2.2 ▸ List.getElem_mem _
  have hsp {m' : Machine} (hchanged : Changed 0 (regs.zipIdx.map fun p => p.1.location) [] m m') : m'.get
    sp = m.get sp := by
    refine hchanged.regs _ List.not_mem_nil fun l hl => ?_
    obtain ⟨q, hq, rfl⟩ := List.mem_map.mp hl
    rw [Reg.reg_location]
    exact hregs.stays _ (hmem hq)
  refine .bind ((Does.deliver 0 [] (fun p : Reg × Nat => p.1.location)
    (P := fun p v => v = m.mem.read (m.get sp + UInt64.ofNat (8 * p.2)) 8) (fun p _ => p.1.location_fits 0)
    (fun _ _ => List.not_mem_nil) ?_ fun p hp m' hchanged => ?_).imp
    (fun _ _ h => h) fun _ m1 ⟨hchanged, hwords⟩ => does_addi fun m2 h2 =>
    h m2 ⟨?_, fun r hr => ?_, fun i r hi => ?_, ?_⟩)
  · rw [List.pairwise_iff_getElem]
    intro i j hi hj hij
    refine Reg.location_apart fun e => ?_
    simp only [List.getElem_zipIdx] at e
    exact List.pairwise_iff_getElem.mp hregs.distinct i j (by simpa using hi) (by simpa using hj) hij e.symm
  · refine does_loadReg (hregs.keeps _ (hmem hp)) fun m'' hput => ⟨hput.changed (Reg.reg_location _), ?_⟩
    have hmem' : m'.mem = m.mem := funext fun x => hchanged.mem x fun l hl hc => by
      obtain ⟨q, -, rfl⟩ := List.mem_map.mp hl
      cases hq : q.1 <;> rw [hq] at hc <;> exact hc
    rw [Machine.at_location, hput.value, hsp hchanged, hmem', Int64.toUInt64_ofNat']
  · rw [h2.value, hsp hchanged, Int64.toUInt64_ofNat']
  · simp only [List.mem_cons, not_or] at hr
    rw [h2.other r hr.1]
    refine hchanged.regs r List.not_mem_nil fun l hl e => hr.2 ?_
    obtain ⟨q, hq, rfl⟩ := List.mem_map.mp hl
    rw [← e, Reg.reg_location]
    exact hmem hq
  · have hr := hregs.stays r (List.mem_of_getElem? hi)
    have := hwords (r, i) (List.mem_zipIdx_iff_getElem?.mpr hi)
    rw [Machine.at_location] at this
    rw [h2.other r hr, this]
  · rw [h2.mem]
    exact funext fun x => hchanged.mem x fun l hl hc => by
      obtain ⟨q, -, rfl⟩ := List.mem_map.mp hl
      cases hq : q.1 <;> rw [hq] at hc <;> exact hc

end Site

end RiscvJit

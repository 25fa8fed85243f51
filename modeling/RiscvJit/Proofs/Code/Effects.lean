import RiscvJit.Proofs.Code.Places

/-
  RiscvJit.Proofs.Code.Effects — code that keeps what it does not own.

  `Alters rs Mem m m'` says that from one machine to the other at most the registers `rs` and the
  memory `Mem` changed. The record of the last frame changes words of the thread only
  (`does_setLastJavaFrame`, `does_clearLastFrame`). A routine that serves callers returns to
  them, keeps the registers that callees save and the memory that callers need (`Serves`), so a call
  of it does (`does_serve`, `does_rtCall`).
-/

namespace RiscvJit

open Machine (Keeps get_withPc)
open Reg (zr ra t0 thread)
open Asm

/-- At most the registers and the memory changed. -/
structure Alters (rs : List Reg) (Mem : UInt64 → Prop) (m m' : Machine) : Prop where
  regs : ∀ r, r ∉ rs → m'.get r = m.get r
  mem : ∀ addr, ¬ Mem addr → m'.mem addr = m.mem addr

section
variable {rs rs' : List Reg} {Mem Mem' : UInt64 → Prop} {m m1 m' : Machine}

theorem alters_refl (rs : List Reg) (Mem : UInt64 → Prop) (m : Machine) : Alters rs Mem m m :=
  ⟨fun _ _ => rfl, fun _ _ => rfl⟩

theorem Alters.trans (h : Alters rs Mem m m1) (h' : Alters rs Mem m1 m') : Alters rs Mem m m' :=
  ⟨fun r hr => (h'.regs r hr).trans (h.regs r hr), fun addr ha => (h'.mem addr ha).trans (h.mem addr ha)⟩

theorem Alters.mono (h : Alters rs Mem m m') (hr : ∀ r ∈ rs, r ∈ rs') (hm : ∀ addr, Mem addr → Mem' addr) :
    Alters rs' Mem' m m' :=
  ⟨fun r hn => h.regs r fun hmem => hn (hr r hmem), fun addr hn => h.mem addr fun hmem => hn (hm addr hmem)⟩

theorem Alters.withPc (h : Alters rs Mem m m') (p : UInt64) : Alters rs Mem m { m' with pc := p } :=
  ⟨fun r hr => (get_withPc m' p r).trans (h.regs r hr), h.mem⟩

theorem Alters.mem_eq (h : Alters rs (fun _ => False) m m') : m'.mem = m.mem := funext fun addr => h.mem addr not_false

theorem Alters.read (h : Alters rs Mem m m') {addr : UInt64} {n : Nat} (hn : addr.toNat + n ≤ 2 ^ 64)
    (ha : ∀ x, Spans addr.toNat n x → ¬ Mem x) : m'.mem.read addr n = m.mem.read addr n :=
  Ram.read_same hn fun x hx => h.mem x (ha x hx)

/-- A location that is none of what changed holds what it held. -/
theorem Alters.at_eq (h : Alters rs Mem m m') {base : UInt64} {l : Location} (hfit : l.Fits base) (hr : l.reg ∉ rs)
    (hm : ∀ x, l.Covers base x → ¬ Mem x) : m'.at base l = m.at base l := by
  cases l with
  | nowhere => rfl
  | stack slot =>
    have hfit : base.toNat + 4 * slot + 8 ≤ 2 ^ 64 := hfit
    have haddr : (base + UInt64.ofNat (4 * slot)).toNat = base.toNat + 4 * slot := toNat_off (by omega)
    exact h.read (by omega) fun x hx => hm x (by rwa [haddr] at hx)
  | _ => exact h.regs _ hr

variable {tmps : List Reg} {v : UInt64}

theorem Put.withPc {r : Reg} (h : Put r tmps v m m') (p : UInt64) : Put r tmps v m { m' with pc := p } :=
  ⟨(get_withPc m' p r).trans h.value, fun s hs ht => (get_withPc m' p s).trans (h.rest s hs ht), h.mem⟩

theorem Put.alters {r : Reg} (h : Put r tmps v m m') (hr : r ∈ rs) (ht : ∀ r ∈ tmps, r ∈ rs) : Alters rs Mem m m' :=
  ⟨fun s hs => h.rest s (fun e => hs (e ▸ hr)) fun hmem => hs (ht s hmem), fun addr _ => by rw [h.mem]⟩

theorem Called.alters {target ret : UInt64} (h : Called tmps target ret m m') (hra : Reg.ra ∈ rs)
    (ht : ∀ r ∈ tmps, r ∈ rs) :
    Alters rs Mem m m' :=
  ⟨fun r hr => h.rest r (fun e => hr (e ▸ hra)) fun hmem => hr (ht r hmem), fun addr _ => by rw [h.mem]⟩

theorem Site.Stored.alters {addr : UInt64} {n : Nat} (h : Site.Stored tmps addr n v m m') (ht : ∀ r ∈ tmps, r ∈ rs)
    (hn : addr.toNat + n ≤ 2 ^ 64) (hm : ∀ x, Spans addr.toNat n x → Mem x) : Alters rs Mem m m' :=
  ⟨fun r hr => h.rest r fun hmem => hr (ht r hmem), fun x hx => by
    rw [h.mem, Ram.write_apart _ _ hn fun hs => hx (hm x hs)]⟩

end

/-! ## Words of the thread -/

/-- The address is one of `n` bytes of the thread. -/
abbrev OfThread (thr : UInt64) (off n : Nat) (addr : UInt64) : Prop := Spans (thr.toNat + off) n addr

/-- Where the thread keeps the last frame: stack pointer, frame pointer and pc. -/
abbrev LastFrame (thr : UInt64) : UInt64 → Prop := OfThread thr 0x1d0 24

/-- Memory without a record of the last frame; its frame pointer may stay. -/
def Ram.withoutFrame (clearFp : Bool) (thr : UInt64) (mem : Ram) : Ram :=
  let mem := mem.write (thr + UInt64.ofNat 0x1d0) 8 0
  let mem := if clearFp then mem.write (thr + UInt64.ofNat 0x1d8) 8 0 else mem
  mem.write (thr + UInt64.ofNat 0x1e0) 8 0

theorem Ram.withoutFrame_outside (clearFp : Bool) {thr x : UInt64} {mem : Ram} (hsmall : thr.toNat + 0x1e8 ≤ 2 ^ 64)
    (hx : ¬ LastFrame thr x) : mem.withoutFrame clearFp thr x = mem x := by
  have word {k : Nat} (hk : k ≤ 16) (mem : Ram) : mem.write (thr + UInt64.ofNat (0x1d0 + k)) 8 0 x = mem x := by
    have haddr : (thr + UInt64.ofNat (0x1d0 + k)).toNat = thr.toNat + (0x1d0 + k) := toNat_off (by omega)
    refine Ram.write_apart _ _ (by omega) fun hin => hx ?_
    omega
  cases clearFp with
  | true => exact (word (k := 16) (by decide) _).trans ((word (k := 8) (by decide) _).trans (word (k := 0) (by decide) _))
  | false => exact (word (k := 16) (by decide) _).trans (word (k := 0) (by decide) _)

namespace Site

variable {S : Site} {m : Machine} {E : Exits} {Q : Unit → Machine → Prop} {thr : UInt64}

theorem does_threadWord {src : Reg} (off : Nat) (hthr : m.get thread = thr) (hsmall : thr.toNat + off + 8 ≤ 2 ^ 64)
    (hfree : ∀ addr, OfThread thr off 8 addr → S.Free addr)
    (h : ∀ m', Alters [] (OfThread thr off 8) m m' → Q () m') : S.Does (sd src thread (Int64.ofNat off)) m E Q := by
  have haddr : (thr + UInt64.ofNat off).toNat = thr.toNat + off := toNat_off (by omega)
  refine does_sdAt (by rw [hthr, Int64.toUInt64_ofNat']) (by omega) (fun addr ha => hfree addr ?_) fun m' hstored =>
    h m' (hstored.alters (by simp) (by omega) fun x hx => ?_)
  · rwa [haddr] at ha
  · rwa [haddr] at hx

/-- A word of the record of the last frame is written. -/
theorem does_lastFrame {src : Reg} {k : Nat} (hk : k ≤ 16) (hthr : m.get thread = thr)
    (hsmall : thr.toNat + 0x1e8 ≤ 2 ^ 64)
    (hfree : ∀ addr, LastFrame thr addr → S.Free addr) (h : ∀ m', Alters [] (LastFrame thr) m m' → Q () m') :
    S.Does (sd src thread (Int64.ofNat (0x1d0 + k))) m E Q := by
  have hin {addr : UInt64} (ha : OfThread thr (0x1d0 + k) 8 addr) : LastFrame thr addr := by
    omega
  exact does_threadWord _ hthr (by omega) (fun addr ha => hfree addr (hin ha)) fun m' hm' =>
    h m' (hm'.mono (by simp) fun _ => hin)

/-- Recording the last frame changes its record and a scratch register. -/
theorem does_setLastJavaFrame {lastSp lastFp tmp : Reg} {l : Label} (hvalid : lastFp.isValid = true) (ht : Keeps tmp)
    (hne : tmp ≠ thread) (hl : S.Binds l) (hthr : m.get thread = thr) (hsmall : thr.toNat + 0x1e8 ≤ 2 ^ 64)
    (hfree : ∀ addr, LastFrame thr addr → S.Free addr) (h : ∀ m', Alters [tmp] (LastFrame thr) m m' → Q () m') :
    S.Does (setLastJavaFrame lastSp lastFp l tmp) m E Q := by
  have word {src : Reg} {k : Nat} {m1 : Machine} {Q : Unit → Machine → Prop} (hk : k ≤ 16)
      (h1 : Alters [tmp] (LastFrame thr) m m1) (hQ : ∀ m2, Alters [tmp] (LastFrame thr) m m2 → Q () m2) :
      S.Does (sd src thread (Int64.ofNat (0x1d0 + k))) m1 E Q :=
    does_lastFrame hk ((h1.regs _ (by simpa using hne.symm)).trans hthr) hsmall hfree
      fun m2 h2 => hQ m2 (h1.trans (h2.mono (by simp) fun _ ha => ha))
  unfold setLastJavaFrame
  rw [if_pos hvalid]
  refine .bind (word (k := 8) (by decide) (alters_refl ..) fun m1 h1 => .bind (does_la ht hl fun v m2 _ hput => ?_))
  have h2 : Alters [tmp] (LastFrame thr) m m2 := h1.trans (hput.alters (by simp) (by simp))
  exact .bind (word (k := 16) (by decide) h2 fun m3 h3 => word (k := 0) (by decide) h3 h)

/-- Clearing the record of the last frame writes zeros to it. -/
theorem does_clearLastFrame {clearFp : Bool} (hthr : m.get thread = thr) (hsmall : thr.toNat + 0x1e8 ≤ 2 ^ 64)
    (hfree : ∀ addr, LastFrame thr addr → S.Free addr)
    (h : ∀ m', (∀ r, m'.get r = m.get r) → m'.mem = m.mem.withoutFrame clearFp thr → Q () m') :
    S.Does (resetLastJavaFrame clearFp) m E Q := by
  have word {k : Nat} {m1 : Machine} {Q : Unit → Machine → Prop} (hk : k ≤ 16) (h1 : ∀ r, m1.get r = m.get r)
      (hQ : ∀ m2, (∀ r, m2.get r = m.get r) → m2.mem = m1.mem.write (thr + UInt64.ofNat (0x1d0 + k)) 8 0 → Q () m2) :
      S.Does (sd zr thread (Int64.ofNat (0x1d0 + k))) m1 E Q := by
    have haddr : (thr + UInt64.ofNat (0x1d0 + k)).toNat = thr.toNat + (0x1d0 + k) := toNat_off (by omega)
    refine does_sdAt (by rw [h1, hthr, Int64.toUInt64_ofNat']) (by omega) (fun addr ha => hfree addr ?_) fun m2 h2 =>
      hQ m2 (fun r => (h2.rest r List.not_mem_nil).trans (h1 r)) h2.mem
    omega
  unfold resetLastJavaFrame
  refine .bind (word (k := 0) (by decide) (fun _ => rfl) fun m1 h1 hm1 => ?_)
  cases clearFp with
  | true =>
    refine .bind (word (k := 8) (by decide) h1 fun m2 h2 hm2 => word (k := 16) (by decide) h2 fun m3 h3 hm3 => h m3 h3 ?_)
    rw [hm3, hm2, hm1]
    rfl
  | false =>
    refine word (k := 16) (by decide) h1 fun m2 h2 hm2 => h m2 h2 ?_
    rw [hm2, hm1]
    rfl

/-- Clearing the record of the last frame changes it only. -/
theorem does_resetLastJavaFrame {clearFp : Bool} (hthr : m.get thread = thr) (hsmall : thr.toNat + 0x1e8 ≤ 2 ^ 64)
    (hfree : ∀ addr, LastFrame thr addr → S.Free addr) (h : ∀ m', Alters [] (LastFrame thr) m m' → Q () m') :
    S.Does (resetLastJavaFrame clearFp) m E Q :=
  does_clearLastFrame hthr hsmall hfree fun m' hregs hmem =>
    h m' ⟨fun r _ => hregs r, fun x hx => by rw [hmem, Ram.withoutFrame_outside clearFp hsmall hx]⟩

/-- Publishing a state of the thread writes its word and uses a scratch register. -/
theorem does_storeThreadState {state : Int64} (hthr : m.get thread = thr) (hsmall : thr.toNat + 0x1a4 ≤ 2 ^ 64)
    (hfree : ∀ addr, OfThread thr 0x1a0 4 addr → S.Free addr)
    (h : ∀ m', Stored [t0] (thr + UInt64.ofNat 0x1a0) 4 state.toUInt64 m m' → Q () m') :
    S.Does (storeThreadState state) m E Q := by
  have haddr : (thr + UInt64.ofNat 0x1a0).toNat = thr.toNat + 0x1a0 := toNat_off (by omega)
  unfold storeThreadState
  refine Does.membar (spaces_li _ _) (show Op.fence.info.format.admits _ = true by decide) (does_li fun m1 h1 pc => ?_)
  have hoff : ({ m1 with pc } : Machine).get thread + threadLayout.threadState.toUInt64 = thr + UInt64.ofNat 0x1a0 := by
    rw [get_withPc, h1.other _, hthr]
    rfl
  refine does_store (o := .sw) (n := 4) rfl rfl (fun i hi => hfree _ ?_) fun m2 h2 => ?_
  · rw [hoff]
    have := spans_at (a := thr + UInt64.ofNat 0x1a0) (n := 4) (by omega) hi
    rwa [haddr] at this
  · rw [hoff, get_withPc, h1.value] at h2
    refine h m2 ⟨h2.mem.trans (congrArg (fun mem : Ram => mem.write _ 4 _) h1.mem), fun r hr => ?_⟩
    rw [List.mem_singleton] at hr
    exact (h2.rest r List.not_mem_nil).trans ((get_withPc ..).trans (h1.other r hr))

end Site

/-! ## Routines that serve callers -/

/-- Registers that a callee saves. -/
def calleeSaved : List Reg :=
  [.x 2, .x 8, .x 9, .x 18, .x 19, .x 20, .x 21, .x 22, .x 23, .x 24, .x 25, .x 26, .x 27,
   .f 8, .f 9, .f 18, .f 19, .f 20, .f 21, .f 22, .f 23, .f 24, .f 25, .f 26, .f 27]

/-- The routine at an address returns, and changes neither registers that callees save nor memory that
is kept. -/
structure Serves (W : World) (target : UInt64) (Kept : UInt64 → Prop) (routine : Machine → Machine) : Prop where
  there : W target = some routine
  even : target % 2 = 0
  returns : ∀ m, (routine m).pc = m.get ra &&& ~~~1
  regs : ∀ m, ∀ r ∈ calleeSaved, (routine m).get r = m.get r
  mem : ∀ m addr, Kept addr → (routine m).mem addr = m.mem addr

/-- The machine after a call. -/
structure Served (W : World) (target : UInt64) (Kept : UInt64 → Prop) (routine : Machine → Machine) (m m' : Machine) :
    Prop where
  regs : ∀ r ∈ calleeSaved, m'.get r = m.get r
  mem : ∀ addr, Kept addr → m'.mem addr = m.mem addr
  answer : ∃ m1, W.Reaches m m1 ∧ (∃ ret, Called [t0] target ret m m1) ∧ m' = routine m1

namespace Site

variable {S : Site} {m : Machine} {E : Exits} {Q : Unit → Machine → Prop} {target : UInt64} {Kept : UInt64 → Prop}
  {routine : Machine → Machine}

theorem served_of_called (hs : Serves S.world target Kept routine) {tmps : List Reg} {ret : UInt64} {m1 : Machine}
    (ht : ∀ r ∈ tmps, r = t0) (hreach : S.world.Reaches m m1) (h : Called tmps target ret m m1) :
    Served S.world target Kept routine m (routine m1) where
  regs r hr := by
    rw [hs.regs m1 r hr, h.rest r (fun e => absurd (e ▸ hr) (by decide)) fun hmem => absurd (ht r hmem ▸ hr) (by decide)]
  mem addr ha := by rw [hs.mem m1 addr ha, h.mem]
  answer := ⟨m1, hreach, ⟨ret, h.pc, h.ra, fun r hr hn => h.rest r hr fun hmem => hn (by simp [ht r hmem]), h.mem⟩, rfl⟩

theorem does_serve (hs : Serves S.world target Kept routine) (hstart : S.start % 2 = 0)
    (hcode : ∀ addr, ¬ S.Free addr → Kept addr) (h : ∀ m', Served S.world target Kept routine m m' → Q () m') :
    S.Does (call target) m E Q := by
  refine does_routine [t0] hstart (fun a a' hrun ha ha' hat => ?_) hs.there fun m1 ret hreach hcalled => ?_
  · exact farCall_reaches (by decide) hs.even hstart hrun ha ha' hat
  · refine ⟨hs.returns m1, fun addr hnot => hs.mem m1 addr (hcode addr hnot), ?_⟩
    exact h _ (served_of_called hs (by simp) hreach hcalled)

theorem does_serveThrough {rs : Reg} (hs : Serves S.world target Kept routine) (hstart : S.start % 2 = 0)
    (hrs : m.get rs = target) (hcode : ∀ addr, ¬ S.Free addr → Kept addr)
    (h : ∀ m', Served S.world target Kept routine m m' → Q () m') : S.Does (jalr ra rs 0) m E Q := by
  refine does_routine [] hstart (fun a a' hrun ha ha' hat => ?_) hs.there fun m1 ret hreach hcalled => ?_
  · have := jalr_reaches hrun ha ha' hat
    rwa [hrs, show (0 : Int64).toUInt64 = 0 from rfl, UInt64.add_zero, and_not_one hs.even] at this
  · refine ⟨hs.returns m1, fun addr hnot => hs.mem m1 addr (hcode addr hnot), ?_⟩
    exact h _ (served_of_called hs (by simp) hreach hcalled)

theorem does_opts {Q : Options → Machine → Prop} (h : Q S.target.opts m) : S.Does opts m E Q := by
  intro a r a' hrun _ _ hat
  cases hrun
  exact ⟨m, .refl _ _, .inl ⟨hat, h⟩⟩

variable {e : RuntimeEntry}

theorem does_entryAddress {Q : UInt64 → Machine → Prop} (h : Q (S.target.runtime.addr e) m) :
    S.Does (entryAddress e) m E Q := by
  intro a r a' hrun _ _ hat
  obtain ⟨t, b, hread, hlift⟩ := bind_eq_ok.mp hrun
  cases hread
  obtain ⟨haddr, rfl⟩ := lift_eq_ok.mp hlift
  refine ⟨m, .refl _ _, .inl ⟨hat, ?_⟩⟩
  unfold RuntimeEntries.address at haddr
  split at haddr
  · cases haddr
  · cases haddr
    exact h

theorem does_rtCall (hs : Serves S.world (S.target.runtime.addr e) Kept routine) (hstart : S.start % 2 = 0)
    (hcode : ∀ addr, ¬ S.Free addr → Kept addr)
    (h : ∀ m', Served S.world (S.target.runtime.addr e) Kept routine m m' → Q () m') : S.Does (rtCall e) m E Q :=
  .bind (does_entryAddress (does_serve hs hstart hcode h))

theorem does_rtJump (heven : S.target.runtime.addr e % 2 = 0) (hstart : S.start % 2 = 0)
    (h : ∀ m', Left [t0] (S.target.runtime.addr e) m m' → E .away m') : S.Does (rtJump e) m E Q :=
  .bind (does_entryAddress (does_jump heven hstart h))

end Site

end RiscvJit

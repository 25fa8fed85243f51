import RiscvJit.Proofs.Code.Compressed
import RiscvJit.Proofs.Lower.SlowPaths

/-
  RiscvJit.Proofs.Lower.Allocation — making objects in the allocation buffer of a thread.

  A thread keeps the two ends of the free part of its buffer (`AllocBuffer`). An object that fits is cut
  from there, and otherwise nothing is written (`lowers_tlabAllocate`). Then its header is written
  (`lowers_initializeHeader`), and behind it bytes are cleared one word after the other, in a row or in a
  loop (`Cleared`, `lowers_clearRange`, `lowers_clearLoop`). What comes of this is a `NewObject`: mark, type
  and a clear body at the old top of the buffer. Only the object and the word with the top were written.
-/

namespace RiscvJit

open Machine (Keeps get_withPc)
open Reg (zr t0 thread)
open Asm
open Lower
open Options

/-! ## The buffer -/

/-- Where the free part of the thread's allocation buffer begins. -/
def Machine.tlabTop (m : Machine) : UInt64 := m.mem.read (m.get thread + 0x60) 8

/-- Where it ends. -/
def Machine.tlabEnd (m : Machine) : UInt64 := m.mem.read (m.get thread + 0x68) 8

/-- The free part of the buffer is apart from the words that say where it is. Objects are made in it, so it is
writable, as is the first of these words. -/
structure AllocBuffer (Free : UInt64 → Prop) (m : Machine) : Prop where
  ordered : m.tlabTop.toNat ≤ m.tlabEnd.toNat
  low : m.tlabEnd.toNat < 2 ^ 62
  whole : (m.get thread).toNat + 0x70 ≤ 2 ^ 64
  apart : m.tlabEnd.toNat ≤ (m.get thread).toNat + 0x60 ∨ (m.get thread).toNat + 0x70 ≤ m.tlabTop.toNat
  free : ∀ addr, Spans m.tlabTop.toNat (m.tlabEnd.toNat - m.tlabTop.toNat) addr → Free addr
  word : ∀ addr, OfThread (m.get thread) 0x60 8 addr → Free addr

/-- The buffer has that many bytes left. -/
def Machine.Fits (m : Machine) (size : Nat) : Prop := m.tlabTop.toNat + size ≤ m.tlabEnd.toNat

/-- The class pointer can be stored in the header of an object. -/
def Options.Represents (o : Options) (klass : UInt64) : Prop :=
  o.compressedClassPointers = true → ∃ n : UInt32, klass = o.klassBase + n.toUInt64 <<< o.klassShift.toUInt64

/-- A new object: mark, type and then, from `header` on, a clear body. It is where the buffer began, and the
buffer begins behind it. At most the registers `rs` are others than before. -/
structure NewObject (o : Options) (result : Reg) (rs : List Reg) (klass : UInt64) (header size : Nat)
    (m m' : Machine) : Prop where
  result : m'.get result = m.tlabTop
  top : m'.mem.read (m.get thread + 0x60) 8 = m.tlabTop + UInt64.ofNat size
  mark : m'.mem.read m.tlabTop 8 = 1
  klass : o.Represents klass → o.klassAt m'.mem m.tlabTop = klass
  body : ∀ i, header ≤ i → i < size → m'.mem (m.tlabTop + UInt64.ofNat i) = 0
  alters : Alters rs (fun addr => Spans m.tlabTop.toNat size addr ∨ OfThread (m.get thread) 0x60 8 addr) m m'

section
variable {o : Options} {result : Reg} {rs rs' : List Reg} {klass : UInt64} {header size : Nat}
  {m m1 m' : Machine} {Free : UInt64 → Prop}

theorem Alters.tlab_eq (h : Alters rs (fun _ => False) m m') (hr : thread ∉ rs) :
    m'.tlabTop = m.tlabTop ∧ m'.tlabEnd = m.tlabEnd := by
  unfold Machine.tlabTop Machine.tlabEnd
  rw [h.mem_eq, h.regs _ hr]
  exact ⟨rfl, rfl⟩

theorem AllocBuffer.mono {Free' : UInt64 → Prop} (hbuf : AllocBuffer Free m)
    (h : ∀ addr, Free addr → Free' addr) : AllocBuffer Free' m :=
  ⟨hbuf.ordered, hbuf.low, hbuf.whole, hbuf.apart, fun addr ha => h addr (hbuf.free addr ha), fun addr ha =>
    h addr (hbuf.word addr ha)⟩

theorem AllocBuffer.stays (hbuf : AllocBuffer Free m) (h : Alters rs (fun _ => False) m m') (hr : thread ∉ rs) :
    AllocBuffer Free m' := by
  obtain ⟨htop, hend⟩ := h.tlab_eq hr
  have hthread := h.regs _ hr
  exact ⟨by rw [htop, hend]; exact hbuf.ordered, by rw [hend]; exact hbuf.low, by rw [hthread]; exact hbuf.whole,
    by rw [htop, hend, hthread]; exact hbuf.apart, by rw [htop, hend]; exact hbuf.free, by rw [hthread]; exact hbuf.word⟩

theorem NewObject.withPc (h : NewObject o result rs klass header size m m') (p : UInt64) :
    NewObject o result rs klass header size m { m' with pc := p } :=
  ⟨(get_withPc m' p _).trans h.result, h.top, h.mark, h.klass, h.body, h.alters.withPc p⟩

/-- The object is as new after work that only changed registers. -/
theorem NewObject.after (h : NewObject o result rs klass header size m1 m')
    (h1 : Alters rs' (fun _ => False) m m1) (hr : thread ∉ rs')
    (hrs : ∀ r ∈ rs', r ∈ rs) : NewObject o result rs klass header size m m' := by
  obtain ⟨htop, -⟩ := h1.tlab_eq hr
  have hthread := h1.regs _ hr
  obtain ⟨hresult, htop', hmark, hklass, hbody, halters⟩ := h
  rw [htop, hthread] at *
  exact ⟨hresult, htop', hmark, hklass, hbody, (h1.mono hrs fun _ => False.elim).trans halters⟩

theorem NewObject.mono (h : NewObject o result rs klass header size m m') (hr : ∀ r ∈ rs, r ∈ rs') :
    NewObject o result rs' klass header size m m' :=
  ⟨h.result, h.top, h.mark, h.klass, h.body, h.alters.mono hr fun _ ha => ha⟩

end

/-! ## Registers -/

/-- An integer register that is not reserved. -/
def Reg.General (r : Reg) : Prop := (∃ n, r = .x n) ∧ r.isReserved = false

variable {r : Reg}

theorem Reg.General.ne {s : Reg} (h : r.General) (hs : s.isReserved = true) : r ≠ s := Reg.ne_of_free h.2 hs

theorem Lower.InReg.unique {o : Operand} {what : String} {r' : Reg} (h : InReg o r) (h' : reg o what = .ok r') :
    r = r' :=
  Except.ok.inj (h.2.symm.trans (inReg_of_reg h').2)

theorem Reg.General.keeps (h : r.General) : Keeps r := by
  refine ⟨h.ne (by decide), ?_⟩
  rintro rfl
  obtain ⟨⟨n, hn⟩, -⟩ := h
  cases hn

/-! ## Barriers -/

namespace Lower

variable {α β : Type}

/-- Where no barrier was at the end, there is none afterwards. -/
class Settles (x : Lower α) : Prop where
  settles : ∀ {t s r s'}, s.asm.Behind → s.asm.mergeable? = none → x t s = .ok (r, s') → s'.asm.mergeable? = none

variable (x : Lower α)

instance settles_of_seals [h : Seals x] : Settles x := ⟨fun hb _ => h.seals hb⟩

instance settles_pure (r : α) : Settles (pure r : Lower α) where
  settles _ hnone h := by
    obtain ⟨-, rfl⟩ := pure_eq_ok.mp h
    exact hnone

instance settles_read : Settles (read : Lower Target) where
  settles _ hnone h := by
    cases h
    exact hnone

instance settles_bind (f : α → Lower β) [ht : Traced x] [hx : Settles x] [hf : ∀ r, Settles (f r)] :
    Settles (x >>= f) where
  settles hb hnone h := by
    obtain ⟨r, s1, hr, hrest⟩ := bind_eq_ok.mp h
    obtain ⟨_, htrace⟩ := ht.trace hb hr
    exact (hf r).settles (htrace.behind hb) (hx.settles hb hnone hr) hrest

instance settles_seq (y : Lower β) [Traced x] [Settles x] [Settles y] : Settles (x >>= fun _ => y) := settles_bind x _

instance settles_ite (c : Prop) [Decidable c] (y : Lower α) [hx : Settles x] [hy : Settles y] :
    Settles (if c then x else y) := by
  split
  · exact hx
  · exact hy

theorem seals_then {x : Lower α} {f : α → Lower β} [ht : Traced x] [hx : Seals x] [hf : ∀ r, Settles (f r)] :
    Seals (x >>= f) where
  seals hb h := by
    obtain ⟨r, s1, hr, hrest⟩ := bind_eq_ok.mp h
    obtain ⟨_, htrace⟩ := ht.trace hb hr
    exact (hf r).settles (htrace.behind hb) (hx.seals hb hr) hrest

theorem asmFrom_barrier (order : MemoryOrder) (s : Lowering) :
    (x >>= fun _ => (liftM (membar order) : Lower Unit)).asmFrom s =
      x.asmFrom s >>= fun p => membar order >>= fun _ => (pure () : Lower Unit).asmFrom p.2 := by
  rw [asmFrom_bind]
  congr 1
  funext p
  exact (congrArg (fun y => asmFrom y p.2) (bind_pure (liftM (membar order) : Lower Unit)).symm).trans
    (asmFrom_asm_bind (membar order) (fun _ => pure ()) p.2)

theorem sealed_asmFrom [hs : Seals x] (s : Lowering) : (x.asmFrom s).Seals := by
  intro t a p a' ha h
  obtain ⟨hx, rfl⟩ := asmFrom_eq_ok.mp h
  exact hs.seals (s := { s with asm := a }) ha hx

/-- A barrier at the end, not behind another. -/
theorem traced_barrier {x : Lower α} [hx : Traced x] [hs : Seals x] (order : MemoryOrder) :
    Traced (x >>= fun _ => (liftM (membar order) : Lower Unit)) where
  asmFrom s := by
    rw [asmFrom_barrier]
    have := hx.asmFrom s
    have (p : α × Lowering) := (traced_pure ()).asmFrom p.2
    exact Asm.traced_barrier (sealed_asmFrom x s) order

end Lower

namespace Site

variable {α : Type} {S : Site} {m : Machine} {E : Exits}

/-- A barrier at the end only takes a step. -/
theorem Lowers.barrier {x : Lower α} {Q : Unit → Machine → Prop} [hx : Lower.Traced x] [hs : Lower.Seals x]
    {order : MemoryOrder} (hsets : SmallSets order) (h : S.Lowers x m E fun _ m' => ∀ p, Q () { m' with pc := p }) :
    S.Lowers (x >>= fun _ => (liftM (membar order) : Lower Unit)) m E Q := by
  intro s
  rw [asmFrom_barrier]
  have := hx.asmFrom s
  have (p : α × Lowering) := (Lower.traced_pure ()).asmFrom p.2
  exact .barrier (sealed_asmFrom x s) hsets
    ((h s).imp (fun _ _ h => h) fun p m' hq pc => lowers_pure (hq pc) p.2)

end Site

/-! ## Clearing -/

/-- The bytes are zero now, and no others were written. -/
structure Cleared (rs : List Reg) (lo n : Nat) (m m' : Machine) : Prop where
  zero : ∀ addr, Spans lo n addr → m'.mem addr = 0
  alters : Alters rs (Spans lo n) m m'

section
variable {rs rs' : List Reg} {lo n k : Nat} {m m1 m' : Machine}

theorem Alters.cleared (h : Alters rs (fun _ => False) m m') (lo : Nat) : Cleared rs lo 0 m m' :=
  ⟨fun addr ha => by omega, h.mono (fun _ hr => hr) fun _ => False.elim⟩

theorem Cleared.mono (h : Cleared rs lo n m m') (hr : ∀ r ∈ rs, r ∈ rs') : Cleared rs' lo n m m' :=
  ⟨h.zero, h.alters.mono hr fun _ ha => ha⟩

theorem Cleared.withPc (h : Cleared rs lo n m m') (p : UInt64) : Cleared rs lo n m { m' with pc := p } :=
  ⟨h.zero, h.alters.withPc p⟩

theorem Cleared.append (h : Cleared rs lo n m m1) (h' : Cleared rs (lo + n) k m1 m') : Cleared rs lo (n + k) m m' where
  zero addr ha := by
    by_cases hs : Spans (lo + n) k addr
    · exact h'.zero addr hs
    · rw [h'.alters.mem addr hs]
      exact h.zero addr (by omega)
  alters := by
    refine ⟨fun r hr => (h'.alters.regs r hr).trans (h.alters.regs r hr), fun addr ha => ?_⟩
    rw [h'.alters.mem addr (by omega), h.alters.mem addr (by omega)]

theorem Site.Stored.cleared {tmps : List Reg} {addr : UInt64} (h : Site.Stored tmps addr n 0 m m')
    (hend : addr.toNat + n ≤ 2 ^ 64) (ht : ∀ r ∈ tmps, r ∈ rs) : Cleared rs addr.toNat n m m' where
  zero x hx := by
    have hin : (x - addr).toNat < n := by
      have := x.toNat_lt
      unfold Spans at hx
      rw [UInt64.toNat_sub_of_le _ _ (UInt64.le_iff_toNat_le.mpr hx.1)]
      omega
    rw [h.mem, Ram.write, if_pos hin, CodeBuffer.byteAt, UInt64.zero_shiftRight]
    rfl
  alters := h.alters ht hend fun _ hx => hx

end

namespace Site

variable {S : Site} {m : Machine} {E : Exits} {Q : Unit → Machine → Prop} {obj cur end' : Reg} {a : UInt64}

variable {n : Nat} {m' : Machine}

/-- Words from an offset on are cleared one by one. -/
theorem lowers_clearWords (hne : obj ≠ t0) {k : Nat} (hobj : m.get obj = a) (hend : a.toNat + k + 8 * n ≤ 2 ^ 64)
    (hfree : ∀ addr, Spans (a.toNat + k) (8 * n) addr → S.Free addr)
    (h : ∀ m', Cleared [t0] (a.toNat + k) (8 * n) m m' → Q () m') :
    S.Lowers (clearWords obj n (Int64.ofNat k)) m E Q := by
  induction n generalizing k m with
  | zero => exact lowers_pure (h m ((alters_refl ..).cleared _))
  | succ n ih =>
    have haddr : (a + UInt64.ofNat k).toNat = a.toNat + k := toNat_off (by omega)
    have hoff : m.get obj + (Int64.ofNat k).toUInt64 = a + UInt64.ofNat k := by rw [hobj, Int64.toUInt64_ofNat']
    unfold clearWords
    refine .bind (lowers_asm (does_storeOff (n := 8) rfl rfl (by decide)
      (fun i hi => hfree _ ?_) fun m1 h1 => ?_))
    · have := spans_off (a := a) (x := k) (n := 8) (i := i) (by omega) hi
      rw [hoff]
      omega
    · rw [hoff] at h1
      have hcleared : Cleared [t0] (a.toNat + k) 8 m m1 := by
        rw [← haddr]
        exact h1.cleared (by omega) (by simp)
      rw [show Int64.ofNat k + 8 = Int64.ofNat (k + 8) from (Int64.ofNat_add k 8).symm]
      refine ih ((h1.rest _ (by simpa using hne)).trans hobj) (by omega) (fun addr ha => hfree addr ?_)
        fun m' h' => h m' ?_
      · omega
      · rw [show 8 * (n + 1) = 8 + 8 * n by omega]
        exact hcleared.append (by rwa [Nat.add_assoc])

/-- While words are cleared in a loop: `left` of the `n` words from `a` on are still to be cleared, and `cur`
is at the first of them. -/
structure Clearing (cur : Reg) (a : UInt64) (n left : Nat) (m m' : Machine) : Prop where
  bound : left ≤ n
  at_next : m'.get cur = a + UInt64.ofNat (8 * (n - left))
  cleared : Cleared [cur] a.toNat (8 * (n - left)) m m'

theorem Clearing.withPc {left : Nat} (h : Clearing cur a n left m m') (p : UInt64) :
    Clearing cur a n left m { m' with pc := p } := ⟨h.bound, (get_withPc m' p _).trans h.at_next, h.cleared.withPc p⟩

theorem Clearing.start (h : m.get cur = a) : Clearing cur a n n m m :=
  ⟨Nat.le_refl n, by rw [h, Nat.sub_self]; exact (UInt64.add_zero a).symm, by
    rw [Nat.sub_self]
    exact (alters_refl ..).cleared _⟩

theorem Clearing.done (h : Clearing cur a n 0 m m') : Cleared [cur] a.toNat (8 * n) m m' := h.cleared

/-- The place of the next word, as a number. -/
theorem Clearing.at {left : Nat} (h : Clearing cur a n left m m') (hend : a.toNat + 8 * n < 2 ^ 64) :
    (m'.get cur).toNat = a.toNat + 8 * (n - left) := by
  rw [h.at_next, toNat_off (by omega)]

theorem Clearing.step {β : Type} {f : Lower β} {Q : β → Machine → Prop} [Lower.Traced f] {n left : Nat} {m1 : Machine}
    (h : Clearing cur a n (left + 1) m m1) (hk : Keeps cur) (hend : a.toNat + 8 * n < 2 ^ 64)
    (hfree : ∀ addr, Spans a.toNat (8 * n) addr → S.Free addr)
    (hgo : ∀ m2, Clearing cur a n left m m2 → S.Lowers f m2 E Q) :
    S.Lowers (do sd zr cur 0; addi cur cur 8; f) m1 E Q := by
  have hleft := h.bound
  have hat := h.at hend
  refine .bind (lowers_asm (does_sdAt (a := m1.get cur) (UInt64.add_zero _) (by omega) (fun addr ha => hfree addr ?_)
    fun m2 h2 => .bind (lowers_asm (does_addi (fun m3 h3 => hgo m3 ⟨by omega, ?_, ?_⟩) hk))))
  · omega
  · rw [h3.value, h2.rest _ List.not_mem_nil, h.at_next, show n - left = n - (left + 1) + 1 by omega, Nat.mul_add,
      UInt64.ofNat_add, ← UInt64.add_assoc]
    rfl
  · have hword : Cleared [cur] (a.toNat + 8 * (n - (left + 1))) 8 m1 m2 := by
      rw [← hat]
      exact h2.cleared (by omega) (by simp)
    have hstep := (hword.append ((h3.alters (by simp) (by simp)).cleared _))
    rw [show n - left = n - (left + 1) + 1 by omega, Nat.mul_add]
    exact h.cleared.append hstep

/-- The words up to a register are cleared, none if there are none. -/
theorem lowers_clearLoop (hk : Keeps cur) (hne : cur ≠ end') (hcur : m.get cur = a)
    (hstop : m.get end' = a + UInt64.ofNat (8 * n)) (hend : a.toNat + 8 * n < 2 ^ 64)
    (hfree : ∀ addr, Spans a.toNat (8 * n) addr → S.Free addr) (h : ∀ m', Cleared [cur] a.toNat (8 * n) m m' → Q () m') :
    S.Lowers (clearLoop cur end') m E Q := by
  unfold clearLoop
  refine .bind (lowers_asm (does_newLabel fun loop => .bind (lowers_asm (does_newLabel fun done => ?_))))
  refine .loop (fun left m' => Clearing cur a n left m m') (n := n) (fun hloop left m1 h1 => ?_) (.start hcur)
  have hbound : (m1.get end').toNat = a.toNat + 8 * n := by
    rw [h1.cleared.alters.regs _ (by simpa using hne.symm), hstop, toNat_off (by omega)]
  have hat := h1.at hend
  have hleft := h1.bound
  have hlast : S.Lowers ((do
      branch .bgeu cur end' done
      sd zr cur 0
      addi cur cur 8
      j loop) >>= fun _ => (liftM (Asm.bind done) : Lower Unit)) m1 (E.or (.label loop) fun m' =>
      ∃ k < left, Clearing cur a n k m m') Q := by
    refine .labelLast fun hdone => ?_
    refine .bind (lowers_asm (does_branch rfl hdone (fun ht p => .inl ⟨rfl, h _ ?_⟩) fun hf p => ?_))
    · -- the register is at the end, so nothing is left
      have hle : (m1.get end').toNat ≤ (m1.get cur).toNat := UInt64.le_iff_toNat_le.mp (of_decide_eq_true ht)
      obtain rfl : left = 0 := by omega
      exact (h1.withPc p).done
    · have hlt : ¬ (m1.get end').toNat ≤ (m1.get cur).toNat :=
        fun hle => of_decide_eq_false hf (UInt64.le_iff_toNat_le.mpr hle)
      obtain ⟨left, rfl⟩ : ∃ k, left = k + 1 := ⟨left - 1, by omega⟩
      exact (h1.withPc p).step hk hend hfree fun m2 h2 =>
        lowers_asm (does_j hloop fun p => .inr (.inl ⟨rfl, left, Nat.lt_succ_self _, h2.withPc p⟩))
  simpa only [bind_assoc] using hlast

/-- The bytes between two offsets, a number of words, are cleared. -/
theorem lowers_clearRange (hcur : Keeps cur) (hend' : Keeps end') (hobj0 : obj ≠ t0) (hobj1 : obj ≠ cur)
    (hcur0 : cur ≠ t0)
    (hne : cur ≠ end') {b : Nat} (hobj : m.get obj = a) (hend : a.toNat + b + 8 * n < 2 ^ 64)
    (hsmall : b + 8 * n < 2 ^ 63)
    (hfree : ∀ addr, Spans (a.toNat + b) (8 * n) addr → S.Free addr)
    (h : ∀ m', Cleared [cur, end', t0] (a.toNat + b) (8 * n) m m' → Q () m') :
    S.Lowers (clearRange obj cur end' (Int64.ofNat b) (Int64.ofNat (b + 8 * n))) m E Q := by
  have hle : Int64.ofNat (b + 8 * n) ≤ Int64.ofNat b ↔ n = 0 := by
    rw [Int64.le_iff_toInt_le, Int64.toInt_ofNat_of_lt (by omega), Int64.toInt_ofNat_of_lt (by omega)]
    omega
  have hsize : Int64.ofNat (b + 8 * n) - Int64.ofNat b = Int64.ofNat (8 * n) := by
    rw [Nat.add_comm, Int64.ofNat_add, Int64.add_sub_cancel]
  unfold clearRange
  split
  · next hnone =>
    obtain rfl := hle.mp hnone
    exact lowers_pure (h m ((alters_refl ..).cleared _))
  · next hsome =>
    have hpos : n ≠ 0 := fun e => hsome (hle.mpr e)
    split
    · have hcount : wordCount (Int64.ofNat b) (Int64.ofNat (b + 8 * n)) = n := by
        rw [wordCount, hsize, Int64.toNatClampNeg_ofNat_of_lt (by omega)]
        omega
      rw [hcount]
      exact lowers_clearWords hobj0 hobj (by omega) hfree fun m' h' => h m' (h'.mono (by simp))
    · refine .bind (lowers_asm (does_newLabel fun loop => ?_))
      refine .bind (lowers_asm (does_addImm hcur (by decide) fun m1 h1 => ?_))
      refine .bind (lowers_asm (does_addImm hend' (by decide) fun m2 h2 => ?_))
      have haddr : (a + UInt64.ofNat b).toNat = a.toNat + b := toNat_off (by omega)
      have hfrom : m2.get cur = a + UInt64.ofNat b := by
        rw [h2.rest _ hne (by simpa using hcur0), h1.value, hobj, Int64.toUInt64_ofNat']
      have hto : m2.get end' = a + UInt64.ofNat b + UInt64.ofNat (8 * n) := by
        rw [h2.value, h1.rest _ hobj1 (by simpa using hobj0), hobj, Int64.toUInt64_ofNat', off_off]
      have hset : Alters [cur, end', t0] (fun _ => False) m m2 :=
        (h1.alters (by simp) (by simp)).trans (h2.alters (by simp) (by simp))
      refine .loop (fun left m' => left ≠ 0 ∧
        Clearing cur (a + UInt64.ofNat b) n left m2 m') (n := n) (fun hloop left m3 ⟨hsome, h3⟩ => ?_)
        ⟨hpos, .start hfrom⟩
      obtain ⟨left, rfl⟩ : ∃ k, left = k + 1 := ⟨left - 1, by omega⟩
      refine h3.step hcur (by omega) (fun addr ha => hfree addr (by rwa [haddr] at ha)) fun m4 h4 => ?_
      have hbound : (m4.get end').toNat = a.toNat + b + 8 * n := by
        rw [h4.cleared.alters.regs _ (by simpa using hne.symm), hto, toNat_off (by omega), haddr]
      have hat := h4.at (by omega)
      have hleft := h4.bound
      refine lowers_asm (does_branch rfl hloop (fun ht p =>
        .inl ⟨rfl, left, Nat.lt_succ_self _, ?_, h4.withPc p⟩) fun hf p => h _ ?_)
      · -- the register is not at the end yet
        have hlt : (m4.get cur).toNat < (m4.get end').toNat := UInt64.lt_iff_toNat_lt.mp (of_decide_eq_true ht)
        omega
      · have hle : ¬ (m4.get cur).toNat < (m4.get end').toNat :=
          fun hlt => of_decide_eq_false hf (UInt64.lt_iff_toNat_lt.mpr hlt)
        obtain rfl : left = 0 := by omega
        have hcleared : Cleared [cur, end', t0] _ _ _ _ := (h4.withPc p).done.mono (by simp)
        rw [haddr] at hcleared
        simpa using (hset.cleared (a.toNat + b)).append hcleared

end Site

/-! ## Cutting off -/

/-- The machine after `n` bytes were cut off the buffer. -/
structure Cut (obj end' : Reg) (n : Nat) (m m' : Machine) : Prop where
  start : m'.get obj = m.tlabTop
  stop : m'.get end' = m.tlabTop + UInt64.ofNat n
  top : m'.mem.read (m.get thread + 0x60) 8 = m.tlabTop + UInt64.ofNat n
  alters : Alters [obj, end', t0] (OfThread (m.get thread) 0x60 8) m m'

/-- The size is that many bytes, also while the register of the object is another. -/
def Lower.AllocSize.Is (size : AllocSize) (obj : Reg) (m : Machine) (n : Nat) : Prop :=
  match size with
  | .const bytes => bytes = Int64.ofNat n
  | .register r => m.get r = UInt64.ofNat n ∧ r ≠ obj

namespace Site

variable {S : Site} {m : Machine} {E : Exits} {Q : Unit → Machine → Prop} {obj end' : Reg} {n : Nat}

/-- What fits is cut off; otherwise nothing is written. -/
theorem lowers_tlabAllocate {size : AllocSize} {slow : Label} (hl : S.Binds slow) (hobj : Keeps obj) (hend : Keeps end')
    (hne : obj ≠ end') (hobjThread : obj ≠ thread) (hendThread : end' ≠ thread) (hobj0 : obj ≠ t0) (hend0 : end' ≠ t0)
    (hbuf : AllocBuffer S.Free m) (hsize : size.Is obj m n) (hsmall : n < 2 ^ 63)
    (hfull : ¬ m.Fits n → ∀ m', Alters [obj, end', t0] (fun _ => False) m m' → E (.label slow) m')
    (hfits : m.Fits n → ∀ m', Cut obj end' n m m' → Q () m') : S.Lowers (tlabAllocate obj end' size slow) m E Q := by
  have hlow := hbuf.low
  have hordered := hbuf.ordered
  have hthread := hbuf.whole
  have hstop : (m.tlabTop + UInt64.ofNat n).toNat = m.tlabTop.toNat + n := toNat_off (by omega)
  -- from the new end on, which comes of a constant or of a register
  have hrest (m1 : Machine) (h1 : Alters [obj, end', t0] (fun _ => False) m m1) (hobj1 : m1.get obj = m.tlabTop)
      (hstop1 : m1.get end' = m.tlabTop + UInt64.ofNat n) :
      S.Lowers (do
        ld t0 thread threadLayout.tlabEnd
        bcond .bltu t0 end' slow
        sd end' thread threadLayout.tlabTop) m1 E Q := by
    have hthread1 : m1.get thread = m.get thread := h1.regs _ (by simp [hobjThread.symm, hendThread.symm]; decide)
    have hmem1 : m1.mem = m.mem := funext fun addr => h1.mem addr not_false
    refine .bind (lowers_asm (does_ld fun m2 h2 => ?_))
    have hend2 : m2.get t0 = m.tlabEnd := by
      rw [h2.value, hthread1, hmem1]
      rfl
    have hstop2 : m2.get end' = m.tlabTop + UInt64.ofNat n := (h2.other _ hend0).trans hstop1
    have hset : Alters [obj, end', t0] (fun _ => False) m m2 := h1.trans (h2.alters (by simp) (by simp))
    refine .bind (lowers_asm (does_bcond rfl hl (fun ht p => hfull ?_ _ (hset.withPc p)) fun hf p => ?_))
    · have hlt := UInt64.lt_iff_toNat_lt.mp (of_decide_eq_true ht)
      rw [hend2, hstop2, hstop] at hlt
      unfold Machine.Fits
      omega
    · have hle : m.Fits n := by
        have hle := fun hlt => of_decide_eq_false hf (UInt64.lt_iff_toNat_lt.mpr hlt)
        rw [hend2, hstop2, hstop] at hle
        exact Nat.not_lt.mp hle
      have hthread2 : m2.get thread = m.get thread := (h2.other _).trans hthread1
      have hplace : (m.get thread + 0x60).toNat = (m.get thread).toNat + 0x60 := toNat_off (k := 0x60) (by omega)
      refine lowers_asm (does_sdAt (a := m.get thread + 0x60) ?_ (by omega) (fun addr ha => hbuf.word addr ?_)
        fun m3 h3 => hfits hle m3 ⟨?_, ?_, ?_, ?_⟩)
      · rw [get_withPc, hthread2]
        rfl
      · rwa [hplace] at ha
      · rw [h3.rest _ List.not_mem_nil, get_withPc, h2.other _ hobj0, hobj1]
      · rw [h3.rest _ List.not_mem_nil, get_withPc, hstop2]
      · rw [h3.mem, read_write_eight, get_withPc, hstop2]
      · refine ((hset.withPc p).mono (fun _ hr => hr) fun _ => False.elim).trans
          (h3.alters (by simp) (by omega) fun x hx => ?_)
        rwa [hplace] at hx
  have hset {m1 : Machine} {v : UInt64} (h1 : Put obj [] v m m1) : Alters [obj, end', t0] (fun _ => False) m m1 :=
    h1.alters (by simp) (by simp)
  cases size with
  | const bytes =>
    obtain rfl : bytes = Int64.ofNat n := hsize
    refine .bind (lowers_asm (does_ld (fun m1 h1 => ?_) hobj))
    have hobj1 : m1.get obj = m.tlabTop := h1.value
    refine .bind (lowers_asm (does_addImm hend (by decide) fun m2 h2 => hrest m2 ?_ ?_ ?_))
    · exact (hset h1).trans (h2.alters (by simp) (by simp))
    · rw [h2.rest _ hne (by simpa using hobj0), hobj1]
    · rw [h2.value, hobj1, Int64.toUInt64_ofNat']
  | register r =>
    obtain ⟨hr, hner⟩ : m.get r = UInt64.ofNat n ∧ r ≠ obj := hsize
    refine .bind (lowers_asm (does_ld (fun m1 h1 => ?_) hobj))
    have hobj1 : m1.get obj = m.tlabTop := h1.value
    refine .bind (lowers_asm (does_add hend fun m2 h2 => hrest m2 ?_ ?_ ?_))
    · exact (hset h1).trans (h2.alters (by simp) (by simp))
    · rw [h2.other _ hne, hobj1]
    · rw [h2.value, hobj1, h1.other _ hner, hr]

end Site

/-! ## Headers -/

/-- The machine after mark and type of an object were written. -/
structure Headed (o : Options) (obj klass : UInt64) (m m' : Machine) : Prop where
  mark : m'.mem.read obj 8 = 1
  klass : o.Represents klass → o.klassAt m'.mem obj = klass
  alters : Alters [t0] (Spans obj.toNat (8 + o.klassBytes)) m m'

theorem Options.klassBytes_le (o : Options) : o.klassBytes ≤ 8 := by
  unfold klassBytes
  split <;> decide

theorem klassAt_represented {o : Options} (hs : o.klassShift ≤ 3) {mem : Ram} {v k : UInt64} (hk : o.Represents k) :
    o.klassAt (mem.write (v + 8) o.klassBytes (o.klassImage k)) v = k := by
  cases hc : o.compressedClassPointers with
  | true =>
    obtain ⟨n, hn⟩ := hk hc
    exact klassAt_stored hs hn
  | false =>
    unfold klassAt klassBytes klassImage
    rw [hc]
    exact read_write_eight ..

namespace Site

variable {S : Site} {m : Machine} {E : Exits} {Q : Unit → Machine → Prop} {obj klass : Reg} {a : UInt64}

theorem lowers_initializeHeader (hopts : S.target.opts.refusal? = none) (hobj0 : obj ≠ t0)
    (hklass0 : klass ≠ t0) (hobj : m.get obj = a)
    (hend : a.toNat + 8 + S.target.opts.klassBytes ≤ 2 ^ 64)
    (hfree : ∀ addr, Spans a.toNat (8 + S.target.opts.klassBytes) addr → S.Free addr)
    (h : ∀ m', Headed S.target.opts a (m.get klass) m m' → Q () m') : S.Lowers (initializeHeader obj klass) m E Q := by
  have hbytes := S.target.opts.klassBytes_le
  have hplace : (a + 8).toNat = a.toNat + 8 :=
    toNat_off (k := 8) (by have := a.toNat_lt; unfold klassBytes at hend; split at hend <;> omega)
  unfold initializeHeader
  refine .bind (lowers_asm (does_li fun m1 h1 => ?_))
  have hobj1 : m1.get obj = a := (h1.other _ hobj0).trans hobj
  refine .bind (lowers_asm (does_sdAt (a := a) ((UInt64.add_zero _).trans hobj1) (by omega)
    (fun addr ha => hfree addr ?_) fun m2 h2 => ?_))
  · omega
  have hobj2 : m2.get obj = a := (h2.rest _ List.not_mem_nil).trans hobj1
  have hklass2 : m2.get klass = m.get klass := (h2.rest _ List.not_mem_nil).trans (h1.other _ hklass0)
  refine lowers_asm (does_storeKlass hopts (by decide) hobj0.symm (fun i hi => hfree _ ?_) fun m3 h3 => h m3 ⟨?_, ?_, ?_⟩)
  · have := spans_off (a := a) (x := 8) (n := S.target.opts.klassBytes) (i := i) (by omega) hi
    rw [hobj2]
    exact ⟨Nat.le_trans (Nat.le_add_right ..) this.1, by rw [← Nat.add_assoc]; exact this.2⟩
  · rw [h3.mem, hobj2, Ram.read_write_off _ _ (by omega) (by omega) (.inl (by omega)), h2.mem, read_write_eight, h1.value]
    rfl
  · intro hrep
    rw [h3.mem, hobj2, hklass2]
    exact klassAt_represented (klassShift_le hopts) hrep
  · refine ((h1.alters (by simp) (by simp)).trans (h2.alters (by simp) (by omega) fun x hx => ?_)).trans
      (h3.alters (by simp) (by rw [hobj2]; omega) fun x hx => ?_)
    · omega
    · rw [hobj2, hplace] at hx
      omega

end Site

/-- What is done behind the header makes the object, if it stays in it and leaves the body clear. -/
theorem Cut.newObject {o : Options} {obj end' : Reg} {rs : List Reg} {klass : UInt64} (header : Nat)
    {size : Nat} {m m1 m2 m' : Machine} {Free : UInt64 → Prop} (h : Cut obj end' size m m1)
    (hbuf : AllocBuffer Free m) (hfits : m.Fits size)
    (hhead : Headed o m.tlabTop klass m1 m2) (hsize : 8 + o.klassBytes ≤ size)
    (hbody : Alters rs (Spans (m.tlabTop.toNat + (8 + o.klassBytes)) (size - (8 + o.klassBytes))) m2 m')
    (hclear : ∀ i, header ≤ i → i < size → m'.mem (m.tlabTop + UInt64.ofNat i) = 0) (hobj : obj ∉ rs) (hobj0 : obj ≠ t0) :
    NewObject o obj (obj :: end' :: t0 :: rs) klass header size m m' := by
  have hlow := hbuf.low
  have hthread := hbuf.whole
  have hapart := hbuf.apart
  have hordered := hbuf.ordered
  have hbytes := o.klassBytes_le
  unfold Machine.Fits at hfits
  have hplace : (m.get thread + 0x60).toNat = (m.get thread).toNat + 0x60 := toNat_off (k := 0x60) (by omega)
  have hword (x : UInt64) (hx : Spans (m.get thread + 0x60).toNat 8 x) : ¬ Spans m.tlabTop.toNat size x := by
    rw [hplace] at hx
    omega
  refine ⟨?_, ?_, ?_, ?_, hclear, ?_⟩
  · rw [hbody.regs _ hobj, hhead.alters.regs _ (by simpa using hobj0), h.start]
  · rw [hbody.read (by omega) fun x hx hin => hword x hx ?_, hhead.alters.read (by omega) fun x hx hin =>
      hword x hx ?_, h.top]
    · omega
    · omega
  · rw [hbody.read (by omega) fun x hx hin => ?_, hhead.mark]
    omega
  · intro hrep
    rw [klassAt_congr fun i hi => hbody.mem _ fun hin => ?_, hhead.klass hrep]
    have := spans_off (a := m.tlabTop) (x := 8) (n := o.klassBytes) (i := i) (by omega) hi
    unfold Spans at this hin
    have : (m.tlabTop + 8 + UInt64.ofNat i).toNat < m.tlabTop.toNat + 8 + o.klassBytes := this.2
    omega
  · refine ((h.alters.mono ?_ fun _ => .inr).trans (hhead.alters.mono (by simp) fun x hx => .inl ?_)).trans
      (hbody.mono (by simp +contextual) fun x hx => .inl ?_)
    · simp
    · omega
    · omega

end RiscvJit

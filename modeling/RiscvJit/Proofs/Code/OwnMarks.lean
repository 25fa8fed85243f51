import RiscvJit.Proofs.Code.Histories
import RiscvJit.Proofs.Code.Locks

/-
  RiscvJit.Proofs.Code.OwnMarks — the test whether a thread holds a lock already.

  Locking exchanges the mark of the object for the address of the lock slot. When another mark is found than the one that
  was expected, the code subtracts the stack pointer and masks the difference (`Asm.tellOwn`). For a page of at least eight
  bytes the mask leaves nothing exactly of the multiples of eight that are less than a page (`within_page`), so the thread
  goes on, with a zero in its slot, exactly when the mark lies that far above its stack pointer (`goes_tellOwn`). That is so
  whatever others do meanwhile, since the mark is in a register by then.

  The page size is a power of two, as options are checked for (`Options.page_power`). For one, two and four the mask has a
  zero among the bits that ought to be tested.
-/

namespace RiscvJit

open Reg (zr sp t0)
open Options

/-! ## Page sizes and masks -/

/-- Options that are accepted have a power of two for the page size. -/
theorem Options.page_power {o : Options} (h : o.refusal? = none) : ∃ k < 63, o.pageSize = Int64.ofNat (2 ^ k) := by
  have hok : pageSizeOk o.pageSize = true := by
    grind [refusal?]
  simp only [pageSizeOk, Bool.and_eq_true, decide_eq_true_eq] at hok
  obtain ⟨hpos, hand⟩ := hok
  obtain ⟨k, hk⟩ := (and_pred_eq_zero_iff (Int64.lt_iff_toInt_lt.mp hpos)).mp hand
  exact ⟨k, eq_ofNat_of_toInt hk⟩

/-- A word without bits outside another. -/
theorem and_not_eq_zero_iff {x y : UInt64} : x &&& ~~~y = 0 ↔ x &&& y = x := by
  constructor
  · intro h
    refine UInt64.toBitVec_inj.mp (BitVec.eq_of_getLsbD_eq fun i hi => ?_)
    have hbit := congrArg (fun v : UInt64 => v.toBitVec.getLsbD i) h
    simp at hbit ⊢
    grind
  · intro h
    rw [← h, UInt64.and_assoc, UInt64.and_not_self, UInt64.and_zero]

theorem page_mask {k : Nat} (hlow : 3 ≤ k) : ((7 : Int64) - Int64.ofNat (2 ^ k)).toUInt64 = ~~~ UInt64.ofNat
    (2 ^ k - 8) := by
  obtain ⟨j, hj⟩ : 8 ∣ 2 ^ k := Nat.pow_dvd_pow 2 hlow
  have hpos := Nat.two_pow_pos k
  rw [UInt64.not_eq_neg_sub, Int64.toUInt64_sub, UInt64.ofNat_sub (by omega)]
  show 7 - UInt64.ofNat (2 ^ k) = _
  grind

/-- The test of a distance from the stack pointer is passed exactly less than a page above it, by multiples of eight. -/
theorem within_page {x : UInt64} {k : Nat} (hlow : 3 ≤ k) (hhigh : k < 64) :
    x &&& ((7 : Int64) - Int64.ofNat (2 ^ k)).toUInt64 = 0 ↔ x.toNat < 2 ^ k ∧ x.toNat % 8 = 0 := by
  have hsplit : 2 ^ k = 2 ^ 3 * 2 ^ (k - 3) := by
    rw [← Nat.pow_add]
    congr 1
    omega
  have hpow : (2 : Nat) ^ k < 2 ^ 64 := Nat.pow_lt_pow_right (by decide) hhigh
  have hpos := Nat.two_pow_pos (k - 3)
  -- in units of eight bytes, the page has all the bits of its size less one
  have hpage : (UInt64.ofNat (2 ^ k - 8)).toNat = (2 ^ (k - 3) - 1) <<< 3 := by
    rw [UInt64.toNat_ofNat_of_lt' (Nat.lt_of_le_of_lt (Nat.sub_le ..) hpow), Nat.shiftLeft_eq]
    omega
  have hbits : (x &&& UInt64.ofNat (2 ^ k - 8)).toNat = (x.toNat / 2 ^ 3 % 2 ^ (k - 3)) * 2 ^ 3 := by
    rw [UInt64.toNat_and, hpage, ← Nat.shiftLeft_eq]
    refine Nat.eq_of_testBit_eq fun i => ?_
    rw [Nat.testBit_and, Nat.testBit_shiftLeft, Nat.testBit_shiftLeft, Nat.testBit_two_pow_sub_one,
      Nat.testBit_mod_two_pow, Nat.testBit_div_two_pow]
    by_cases hi : 3 ≤ i
    · rw [Nat.sub_add_cancel hi]
      simp [hi, Bool.and_comm]
    · simp [hi]
  rw [page_mask hlow, and_not_eq_zero_iff, ← UInt64.toNat_inj, hbits]
  constructor
  · intro h
    have := Nat.mod_lt (x.toNat / 2 ^ 3) hpos
    omega
  · rintro ⟨hlt, hmod⟩
    rw [Nat.mod_eq_of_lt (by omega)]
    omega

/-- The mark lies less than a page above the stack pointer, at a multiple of eight. -/
def Options.OwnMark (o : Options) (top mark : UInt64) : Prop :=
  ((mark - top).toNat : Int) < o.pageSize.toInt ∧ (mark - top).toNat % 8 = 0

instance (o : Options) (top mark : UInt64) : Decidable (o.OwnMark top mark) := by
  unfold OwnMark
  infer_instance

/-- What the code leaves of the distance of a mark. -/
def Options.remains (o : Options) (top mark : UInt64) : UInt64 := (mark - top) &&& (7 - o.pageSize).toUInt64

/-- Pages of at least eight bytes are told exactly. -/
theorem Options.remains_eq_zero {o : Options} (h : o.refusal? = none) (hpage : 8 ≤ o.pageSize) {top mark : UInt64} :
    o.remains top mark = 0 ↔ o.OwnMark top mark := by
  obtain ⟨k, hk, hsize⟩ := page_power h
  have hpow : (2 : Nat) ^ k < 2 ^ 63 := Nat.pow_lt_pow_right (by decide) hk
  have hint : o.pageSize.toInt = 2 ^ k := by
    rw [hsize, Int64.toInt_ofNat_of_lt hpow]
    rfl
  have hlow : 3 ≤ k := by
    have hle : (8 : Int) ≤ o.pageSize.toInt := Int64.le_iff_toInt_le.mp hpage
    rw [hint] at hle
    exact (Nat.pow_le_pow_iff_right (a := 2) (by decide)).mp (by exact_mod_cast hle)
  unfold remains OwnMark
  rw [hint, hsize, within_page hlow (by omega)]
  constructor <;> exact fun ⟨hlt, hmod⟩ => ⟨by exact_mod_cast hlt, hmod⟩

namespace Site

variable {S : Site} {C : Company S} {m : Machine} {E : Exits} {Q : Unit → Machine → Prop} {r : LockRegs}
  {slow : Label} {slot : UInt64}

/-- The mark that was found decides. `I` is what is known of memory while others work. -/
theorem goes_tellOwn (hr : r.Apart) (hlock : m.get r.lock = slot)
    (hfree : ∀ i < 8, S.Free (slot + UInt64.ofNat i)) (hl : S.Binds slow)
    {I : Ram → Prop} (hI : I m.mem) (hothers : ∀ {s s'}, C.others s s' → I s.mem → I s'.mem ∧
    s'.mem.read slot 8 = s.mem.read slot 8)
    (hours : ∀ mem v, I mem → C.ours mem (mem.write slot 8 v) ∧ I (mem.write slot 8 v))
    (hown : S.target.opts.remains (m.get sp) (m.get r.hdr) = 0 → ∀ m', I m'.mem → m'.mem.read slot 8 = 0 → Q () m')
    (hother : S.target.opts.remains (m.get sp) (m.get r.hdr) ≠ 0 → ∀ m', I m'.mem → E (.label slow) m') :
    S.Goes C (Asm.tellOwn r slow) m E Q := by
  have hne : r.hdr ≠ t0 ∧ r.lock ≠ r.hdr ∧ r.lock ≠ t0 := by
    have := hr.distinct
    grind
  obtain ⟨hht, hlh, hlt⟩ := hne
  unfold Asm.tellOwn
  refine .bind (goes_sub hr.hdr fun m1 w1 => .bind (goes_opts (.bind (goes_li (by decide) fun m2 w2 =>
    .bind (goes_and hr.hdr fun m3 w3 => ?_)))))
  have hI3 : I m3.mem := (hothers w3.others (hothers w2.others (hothers w1.others hI).1).1).1
  have hlock3 : m3.get r.lock = slot := by rw [w3.rest _ hlh, w2.rest _ hlt, w1.rest _ hlh, hlock]
  have hremains : m3.get r.hdr = S.target.opts.remains (m.get sp) (m.get r.hdr) := by
    rw [w3.value, w2.value, w2.rest _ hht, w1.value]
    rfl
  have haddr : m3.get r.lock + lockDisplacedHeader.toUInt64 = slot := by
    rw [hlock3]
    exact UInt64.add_zero slot
  refine .bind (goes_sd haddr hfree fun s hs => ?_)
  obtain ⟨hok, hI4⟩ := hours s.mem (m3.get r.hdr) (hothers hs hI3).1
  refine ⟨hok, fun m4 hregs4 hshared4 => ?_⟩
  have hmem4 : m4.mem = s.mem.write slot 8 (m3.get r.hdr) := congrArg Shared.mem hshared4
  rw [← hmem4] at hI4
  have hhdr4 : m4.get r.hdr = S.target.opts.remains (m.get sp) (m.get r.hdr) := (hregs4 _).trans hremains
  refine goes_bcond rfl hl (fun htaken m5 i5 => hother ?_ m5 (hothers i5.others hI4).1) fun hnot m5 i5 => ?_
  · have htaken : m4.get r.hdr ≠ m4.get zr := of_decide_eq_true htaken
    exact hhdr4 ▸ htaken
  · have hzero : S.target.opts.remains (m.get sp) (m.get r.hdr) = 0 :=
      hhdr4.symm.trans (Decidable.of_not_not (of_decide_eq_false hnot : ¬ m4.get r.hdr ≠ m4.get zr))
    obtain ⟨hI5, hread5⟩ := hothers i5.others hI4
    refine hown hzero m5 hI5 (hread5.trans ?_)
    show m4.mem.read slot 8 = 0
    rw [hmem4, read_write_eight, hremains, hzero]

theorem does_tellOwn (hr : r.Apart) (hlock : m.get r.lock = slot)
    (hfree : ∀ i < 8, S.Free (slot + UInt64.ofNat i)) (hl : S.Binds slow)
    (hown : S.target.opts.remains (m.get sp) (m.get r.hdr) = 0 → ∀ m', m'.mem.read slot 8 = 0 → Q () m')
    (hother : S.target.opts.remains (m.get sp) (m.get r.hdr) ≠ 0 → ∀ m', E (.label slow) m') : S.Does
    (Asm.tellOwn r slow) m E Q := by
  refine (goes_tellOwn (C := .alone S) (I := fun _ => True) hr hlock hfree hl trivial (fun h _ => ?_)
    (fun _ _ _ => ⟨trivial, trivial⟩)
    (fun hzero m' _ => hown hzero m') fun hne m' _ => hother hne m').does
  have h : _ = _ := h
  rw [h]
  exact ⟨trivial, rfl⟩

end Site

end RiscvJit

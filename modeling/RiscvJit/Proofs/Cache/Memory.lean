import RiscvJit.Cache.Memory

/-
  RiscvJit.Proofs.Cache.Memory — what reading and writing code memory do, for every range.

  A range that lies inside is found at its distance from the base (`Covers.offset`); installing there
  changes these bytes and no others (`Covers.install`, `read_written_outside`). The test for a range
  adds its length to that distance modulo 2^64. A range whose end comes out small enough that way
  passes the test although it starts far outside, and the access traps (`offset_wraps`). All others
  are refused (`offset_outside`). `accesses_are_checked` puts the three cases together.
-/

namespace RiscvJit

namespace Memory

/-- The memory stands for the addresses of a cache and can be used. -/
structure Covers (m : Memory) (base : UInt64) (size : Int64) : Prop where
  base : m.base = base
  size : m.size = size.toInt.toNat
  working : m.closed = false

section
variable {m m' : Memory} {base addr : UInt64} {size : Int64} {n : Nat} {bytes : List UInt8}

/-- A range inside starts where its distance to the base says. -/
theorem Covers.offset (h : m.Covers base size) (hle : base.toNat ≤ addr.toNat)
    (hin : addr.toNat - base.toNat + n ≤ size.toInt.toNat) :
    m.offset addr (Int64.ofNat n) = .ok (addr.toNat - base.toNat) := by
  have hsize := size.toInt_lt
  have hdist : (addr - m.base).toNat = addr.toNat - base.toNat := by
    rw [h.base, UInt64.toNat_sub_of_le addr base (UInt64.le_iff_toNat_le.mpr hle)]
  have hlength : (Int64.ofNat n).toInt = n := Int64.toInt_ofNat_of_lt (by omega)
  have hstart : (addr - m.base).toInt64 = Int64.ofNat (addr.toNat - base.toNat) := by
    rw [← hdist, ← UInt64.toInt64_ofNat', UInt64.ofNat_toNat]
  have hfrom : (Int64.ofNat (addr.toNat - base.toNat)).toInt = (addr.toNat - base.toNat : Nat) :=
    Int64.toInt_ofNat_of_lt (by omega)
  have hholds : m.holds addr (Int64.ofNat n) = true := by
    have hsum : (addr - m.base + (Int64.ofNat n).toUInt64).toNat = addr.toNat - base.toNat + n := by
      rw [UInt64.toNat_add, hdist, Int64.toUInt64_ofNat', UInt64.toNat_ofNat']
      omega
    rw [holds, hsum, h.base, h.size]
    simp only [Bool.and_eq_true, decide_eq_true_eq]
    exact ⟨UInt64.le_iff_toNat_le.mpr hle, hin⟩
  have hnonneg : ¬ Int64.ofNat (addr.toNat - base.toNat) < 0 ∧ ¬ Int64.ofNat n < 0 := by
    rw [Int64.lt_iff_toInt_lt, Int64.lt_iff_toInt_lt, hfrom, hlength, Int64.toInt_zero]
    omega
  rw [Memory.offset, h.working, hholds, hstart]
  simp only [Bool.false_eq_true, if_false, Bool.not_true, hnonneg, decide_false, Bool.or_false]
  rw [Int64.toNatClampNeg_ofNat_of_lt (by omega)]

/-- The memory after bytes were written at an offset. -/
def written (m : Memory) (offset : Nat) (bytes : List UInt8) : Memory :=
  { m with writes := ⟨offset, bytes⟩ :: m.writes }

theorem Covers.install (h : m.Covers base size) (hle : base.toNat ≤ addr.toNat)
    (hin : addr.toNat - base.toNat + bytes.length ≤ size.toInt.toNat) :
    m.install addr bytes = .ok (m.written (addr.toNat - base.toNat) bytes) := by
  unfold Memory.install
  rw [h.offset hle hin]
  rfl

theorem Covers.written (h : m.Covers base size) (offset : Nat) (bytes : List UInt8) :
    (m.written offset bytes).Covers base size := ⟨h.base, h.size, h.working⟩

theorem byteAt_written (m : Memory) (offset : Nat) (bytes : List UInt8) (k : Nat) :
    (m.written offset bytes).byteAt k = ((MemoryWrite.mk offset bytes).byteAt? k).getD (m.byteAt k) := by
  simp only [byteAt, written, List.findSome?_cons]
  cases (MemoryWrite.mk offset bytes).byteAt? k with
  | none => rfl
  | some b => rfl

variable {offset : Nat}

theorem byteAt_written_inside (m : Memory) {k : Nat} (hk : k < bytes.length) :
    (m.written offset bytes).byteAt (offset + k) = bytes[k] := by
  rw [byteAt_written, MemoryWrite.byteAt?, if_pos (Nat.le_add_right _ _), Nat.add_sub_cancel_left,
    List.getElem?_eq_getElem hk]
  rfl

theorem byteAt_written_outside (m : Memory) {k : Nat} (hk : k < offset ∨ offset + bytes.length ≤ k) :
    (m.written offset bytes).byteAt k = m.byteAt k := by
  rw [byteAt_written, MemoryWrite.byteAt?]
  split
  · rw [List.getElem?_eq_none (by simp only at *; omega)]
    rfl
  · rfl

/-- The memory can be used; its addresses are words, and their number is a size. -/
structure Mapped (m : Memory) : Prop where
  working : m.closed = false
  fits : m.base.toNat + m.size ≤ 2 ^ 64
  length : m.size < 2 ^ 63

/-- The range of `k` bytes at an address lies inside. -/
def Inside (m : Memory) (addr : UInt64) (k : Nat) : Prop :=
  m.base.toNat ≤ addr.toNat ∧ addr.toNat + k ≤ m.base.toNat + m.size

/-- The range reaches so far past the last of all addresses that its end, modulo 2^64, lies inside. -/
def Wraps (m : Memory) (addr : UInt64) (k : Nat) : Prop :=
  m.base.toNat + 2 ^ 64 ≤ addr.toNat + k ∧ addr.toNat + k ≤ m.base.toNat + 2 ^ 64 + m.size

variable {k : Nat}

theorem Mapped.covers (h : m.Mapped) : m.Covers m.base (Int64.ofNat m.size) := by
  refine ⟨rfl, ?_, h.working⟩
  rw [Int64.toInt_ofNat_of_lt h.length]
  rfl

theorem Mapped.offset_inside (h : m.Mapped) (hin : m.Inside addr k) :
    m.offset addr (Int64.ofNat k) = .ok (addr.toNat - m.base.toNat) := by
  have hsize : (Int64.ofNat m.size).toInt.toNat = m.size := by
    rw [Int64.toInt_ofNat_of_lt h.length]
    rfl
  obtain ⟨hle, hend⟩ := hin
  exact h.covers.offset hle (by rw [hsize]; omega)

/-- What the test sees of a range: its end, counted from the base modulo 2^64. -/
theorem holds_iff (hk : k < 2 ^ 63) : m.holds addr (Int64.ofNat k) = true ↔
    m.base.toNat ≤ addr.toNat ∧ (addr.toNat - m.base.toNat + k) % 2 ^ 64 ≤ m.size := by
  rw [holds, Bool.and_eq_true, decide_eq_true_eq, decide_eq_true_eq, UInt64.le_iff_toNat_le]
  refine and_congr_right fun hle => ?_
  rw [UInt64.toNat_add, UInt64.toNat_sub_of_le addr m.base (UInt64.le_iff_toNat_le.mpr hle), Int64.toUInt64_ofNat',
    UInt64.toNat_ofNat', Nat.mod_eq_of_lt (show k < 2 ^ 64 by omega)]

/-- The start of such a range is no offset. -/
theorem Mapped.offset_wraps (h : m.Mapped) (hk : k < 2 ^ 63) (hwraps : m.Wraps addr k) :
    m.offset addr (Int64.ofNat k) = .error (.fault .trap) := by
  have hfits := h.fits
  have hlast := addr.toNat_lt
  obtain ⟨hfar, hend⟩ := hwraps
  have hdist : (addr - m.base).toNat = addr.toNat - m.base.toNat :=
    UInt64.toNat_sub_of_le addr m.base (UInt64.le_iff_toNat_le.mpr (by omega))
  have hnegative : (addr - m.base).toInt64 < 0 := by
    rw [← UInt64.ofNat_toNat (x := addr - m.base), UInt64.toInt64_ofNat', hdist, Int64.lt_iff_toInt_lt,
      Int64.toInt_ofNat', Int64.toInt_zero, show Int64.size = 2 ^ 64 from rfl, Int.bmod_def]
    omega
  rw [Memory.offset, h.working, (holds_iff hk).mpr ⟨by omega, by omega⟩]
  simp only [Bool.false_eq_true, if_false, Bool.not_true, hnegative, decide_true, Bool.true_or, if_true]

theorem Mapped.offset_outside (h : m.Mapped) (hk : k < 2 ^ 63) (hin : ¬ m.Inside addr k) (hwraps : ¬ m.Wraps addr k) :
    m.offset addr (Int64.ofNat k) = .error (.failure (outside addr (Int64.ofNat k))) := by
  have hlast := addr.toNat_lt
  have hrefused : m.holds addr (Int64.ofNat k) = false := by
    rw [← Bool.not_eq_true, holds_iff hk]
    rw [Inside] at hin
    rw [Wraps] at hwraps
    omega
  rw [Memory.offset, h.working, hrefused]
  rfl

/-- Ranges that do not meet the bytes written are read as before. -/
theorem read_written_outside (m : Memory) {n : Int64} (hapart : ∀ start, m.offset addr n = .ok start →
      start + n.toNatClampNeg ≤ offset ∨ offset + bytes.length ≤ start) :
    (m.written offset bytes).read addr n = m.read addr n := by
  have hsame : (m.written offset bytes).offset addr n = m.offset addr n := rfl
  rw [Memory.read, Memory.read, hsame]
  cases hstart : m.offset addr n with
  | error e => rfl
  | ok start =>
    have := hapart start hstart
    refine congrArg Except.ok (List.map_congr_left fun i hi => byteAt_written_outside m ?_)
    have := List.mem_range.mp hi
    omega

/-! ## Every access -/

/-- An access to the range of `k` bytes at an address is answered when the range lies inside, traps when
its end lies inside only modulo 2^64, and is refused otherwise. -/
structure Checks {α : Type} (m : Memory) (addr : UInt64) (k : Nat) (answer : Except Stop α) : Prop where
  inside : (∃ a, answer = .ok a) ↔ m.Inside addr k
  wraps : answer = .error (.fault .trap) ↔ m.Wraps addr k
  outside : (answer = .error (.failure (outside addr (Int64.ofNat k)))) ↔ ¬ m.Inside addr k ∧ ¬ m.Wraps addr k

/-- An access that needs nothing but the start of its range. -/
theorem Mapped.checks (h : m.Mapped) (hk : k < 2 ^ 63) {α : Type} (use : Nat → α) :
    m.Checks addr k (m.offset addr (Int64.ofNat k) >>= fun start => pure (use start)) := by
  have hlength := h.length
  have hfits := h.fits
  have hexclusive : m.Inside addr k → ¬ m.Wraps addr k := by
    rw [Inside, Wraps]
    omega
  by_cases hin : m.Inside addr k
  · rw [h.offset_inside hin]
    show m.Checks addr k (.ok _)
    exact ⟨by simp [hin], by simp [hexclusive hin], by simp [hin]⟩
  · by_cases hwraps : m.Wraps addr k
    · rw [h.offset_wraps hk hwraps]
      show m.Checks addr k (.error _)
      exact ⟨by simp [hin], by simp [hwraps], by simp [hwraps]⟩
    · rw [h.offset_outside hk hin hwraps]
      show m.Checks addr k (.error _)
      exact ⟨by simp [hin], by simp [hwraps], by simp [hin, hwraps]⟩

/-- The memory after an attempt to install bytes; one that fails leaves it as it was. -/
def afterInstall (m : Memory) (addr : UInt64) (bytes : List UInt8) : Memory :=
  match m.install addr bytes with
  | .ok m' => m'
  | .error _ => m

/-- Every access of a machine size to mapped memory is checked, whatever its address. Installing bytes in a
range inside makes them what is read there and leaves every other range as it was; installing anywhere
else changes nothing. -/
theorem accesses_are_checked {m : Memory} (h : m.Mapped) (addr : UInt64) :
    (∀ k < 2 ^ 63, m.Checks addr k (m.read addr (Int64.ofNat k))) ∧
    ∀ bytes : List UInt8, bytes.length < 2 ^ 63 →
      m.Checks addr bytes.length (m.install addr bytes) ∧ (m.afterInstall addr bytes).Mapped ∧
      (m.Inside addr bytes.length →
        (m.afterInstall addr bytes).read addr (Int64.ofNat bytes.length) = .ok bytes ∧
        ∀ other : UInt64, ∀ k < 2 ^ 63,
          other.toNat + k ≤ addr.toNat ∨ addr.toNat + bytes.length ≤ other.toNat →
          (m.afterInstall addr bytes).read other (Int64.ofNat k) = m.read other (Int64.ofNat k)) ∧
      (¬ m.Inside addr bytes.length → m.afterInstall addr bytes = m) := by
  refine ⟨fun k hk => h.checks hk _, fun bytes hbytes => ?_⟩
  have hchecks : m.Checks addr bytes.length (m.install addr bytes) := h.checks hbytes _
  by_cases hin : m.Inside addr bytes.length
  · have hstart := h.offset_inside hin
    have hafter : m.afterInstall addr bytes = m.written (addr.toNat - m.base.toNat) bytes := by
      rw [afterInstall, Memory.install, hstart]
      rfl
    rw [hafter]
    refine ⟨hchecks, ⟨h.working, h.fits, h.length⟩, fun _ => ⟨?_, fun other k hk hapart => ?_⟩,
      fun hout => absurd hin hout⟩
    · have hsame : (m.written (addr.toNat - m.base.toNat) bytes).offset addr (Int64.ofNat bytes.length) = _ := hstart
      rw [Memory.read, hsame, Int64.toNatClampNeg_ofNat_of_lt hbytes]
      refine congrArg Except.ok (List.ext_getElem (by simp) fun i _ hi => ?_)
      simp [byteAt_written_inside m hi]
    · refine read_written_outside m fun start hother => ?_
      have hinside : m.Inside other k := by
        have hread : m.Checks other k (m.offset other (Int64.ofNat k) >>= fun s => pure s) := h.checks hk _
        exact hread.inside.mp ⟨start, by rw [hother]; rfl⟩
      rw [h.offset_inside hinside] at hother
      cases hother
      rw [Int64.toNatClampNeg_ofNat_of_lt hk]
      obtain ⟨hle, -⟩ := hin
      obtain ⟨hle', -⟩ := hinside
      omega
  · have hafter : m.afterInstall addr bytes = m := by
      rw [afterInstall]
      cases hinstall : m.install addr bytes with
      | error e => rfl
      | ok m' => exact absurd (hchecks.inside.mp ⟨m', hinstall⟩) hin
    rw [hafter]
    exact ⟨hchecks, h, fun hin' => absurd hin' hin, fun _ => rfl⟩

/-- The last page of all addresses. -/
def lastPage : Memory := { base := 0xfffffffffffff000, size := 0x1000 }

theorem the_last_byte_is_checked :
    lastPage.Mapped ∧ lastPage.Inside 0xffffffffffffffff 1 ∧ [(1 : UInt8)].length < 2 ^ 63 ∧
      (lastPage.afterInstall 0xffffffffffffffff [1]).read 0xffffffffffffffff 1 = .ok [1] ∧
      lastPage.read 0xffffffffffffffff 2 = .error (.failure (outside 0xffffffffffffffff 2)) := by
  have hmapped : lastPage.Mapped := ⟨rfl, by decide, by decide⟩
  have hin : lastPage.Inside 0xffffffffffffffff 1 := ⟨by decide, by decide⟩
  obtain ⟨hreads, hinstalls⟩ := accesses_are_checked hmapped 0xffffffffffffffff
  refine ⟨hmapped, hin, by decide, ((hinstalls [1] (by decide)).2.2.1 hin).1, ?_⟩
  exact (hreads 2 (by decide)).outside.mpr ⟨by unfold Inside; decide, by unfold Wraps; decide⟩

/-- Reading past the last address traps when the memory starts low enough, and so does writing there. -/
theorem far_ranges_trap :
    let low : Memory := { base := 0x1000, size := 0x1000 }
    let lowest : Memory := { base := 0, size := 0x1000 }
    (low.Mapped ∧ ¬ low.Inside 0xffffffffffffffff 0x1001 ∧ low.read 0xffffffffffffffff 0x1001 = .error (.fault .trap)) ∧
      lowest.Mapped ∧ ¬ lowest.Inside 0xffffffffffffffff 1 ∧
        lowest.install 0xffffffffffffffff [1] = .error (.fault .trap) := by
  refine ⟨⟨⟨rfl, by decide, by decide⟩, ?_, rfl⟩, ⟨rfl, by decide, by decide⟩, ?_, rfl⟩
  · unfold Inside
    decide
  · unfold Inside
    decide

end

end Memory

end RiscvJit

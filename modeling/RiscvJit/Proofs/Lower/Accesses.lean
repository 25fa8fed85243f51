import RiscvJit.Proofs.Code.Compressed
import RiscvJit.Proofs.Code.Outcomes
import RiscvJit.Proofs.Lower.CallTargets

/-
  RiscvJit.Proofs.Lower.Accesses — sums and addresses with numbers of any size.

  Only 12 bits of a number fit into an instruction, and longer ones go through scratch registers. So a
  number is added to a register, an offset of a register is reached, and the base, index and displacement of
  an operand are brought to a base and a short displacement (`ReachesExactly`). The checks let zr pass as a
  scratch register, and t0 as any base, but they do not always do there (`admitted_registers_miss`).
-/

namespace RiscvJit

open Machine (Keeps)
open Reg (zr t0 t1)
open Asm

/-- A long number goes through an integer register that keeps it and is none of the operands. -/
def Spares (n : Int64) (tmp : Reg) (operands : List Reg) : Prop :=
  isImm12 n = false → tmp.isInt = true ∧ Keeps tmp ∧ tmp ∉ operands

/-- The registers that may be lost on the way to the address. -/
def Address.scratch (a : Address) : List Reg := if a.hasIndex = true ∧ isImm12 a.disp = false then [t0, t1] else [t0]

/-- Whatever the numbers are, the work goes through, and it is done at the sum of what the registers held
before, modulo 2 ^ 64. Nothing is lost but scratch registers. -/
structure ReachesExactly (S : Site) (m : Machine) : Prop where
  sum : ∀ {rd rs tmp : Reg} {imm : Int64}, rd.isInt = true → Keeps rd → rs.isInt = true → Spares imm tmp [rs] →
    Passes (addImm rd rs imm tmp) ∧
      S.Does (addImm rd rs imm tmp) m .none fun _ m' => Put rd [tmp] (m.get rs + imm.toUInt64) m m'
  load : ∀ {o : Op} {n : Nat} {rd base tmp : Reg} {off : Int64}, o.info.format = .load → o.width = some n →
    o.info.rd.Allows rd → Keeps rd → base.isInt = true → Spares off tmp [base] →
    Passes (loadOff o rd base off tmp) ∧ S.Does (loadOff o rd base off tmp) m .none fun _ m' =>
      Put rd [tmp] (o.extend (m.mem.read (m.get base + off.toUInt64) n)) m m'
  store : ∀ {o : Op} {n : Nat} {src base tmp : Reg} {off : Int64}, o.info.format = .store → o.width = some n →
    o.info.rs2.Allows src → base.isInt = true → Spares off tmp [base, src] →
    (∀ k < n, S.Free (m.get base + off.toUInt64 + UInt64.ofNat k)) →
    Passes (storeOff o src base off tmp) ∧ S.Does (storeOff o src base off tmp) m .none fun _ m' =>
      Site.Stored [tmp] (m.get base + off.toUInt64) n (m.get src) m m'
  operand : ∀ {a : Address}, a.base.isInt = true → (a.hasIndex = true → a.index.isInt = true) → a.Spared →
    Yields (legitimize a) (fun p => p.1.isInt = true ∧ isImm12 p.2 = true) ∧
      S.Does (legitimize a) m .none fun p m' => m'.get p.1 + p.2.toUInt64 = a.eval m ∧
        (∀ r, r ∉ a.scratch → m'.get r = m.get r) ∧ m'.mem = m.mem

/-- Only scratch registers are lost on the way to an address. -/
theorem Addressed.kept {a : Address} {b r : Reg} {d : Int64} {m m' : Machine} (h : Addressed a b d m m')
    (hr : r ∉ a.scratch) : m'.get r = m.get r := by
  unfold Address.scratch at hr
  split at hr
  case _ => exact h.rest r (fun e => hr (by simp [e])) fun e => hr (by simp [e])
  case _ hwaits =>
    by_cases hr1 : r = t1
    · rw [hr1]
      refine h.waits ?_
      cases hindex : a.hasIndex with
      | false => exact .inl rfl
      | true => exact .inr (by simpa [hindex] using hwaits)
    · exact h.rest r (fun e => hr (by simp [e])) hr1

/-- Loads and stores have an integer register as their base. -/
theorem Op.accesses {o : Op} {n : Nat} (hwidth : o.width = some n) :
    (o.info.format = .load → o.info.rs1 = .int ∧ o.info.rs2 = .none) ∧
      (o.info.format = .store → o.info.rs1 = .int ∧ o.info.rd = .none) := by
  have hsome : o.width.isSome = true := by rw [hwidth]; rfl
  clear hwidth
  revert hsome
  cases o <;> decide

theorem reaches_exactly (S : Site) (m : Machine) : ReachesExactly S m where
  sum {rd rs tmp imm} hd hk hs ht := by
    by_cases himm : isImm12 imm = true
    · -- the scratch register is not used
      have hsame : addImm rd rs imm tmp = addImm rd rs imm rd := by rw [addImm, addImm, if_pos himm, if_pos himm]
      refine ⟨yields_ite (fun _ => yields_ite (fun _ => passes_addi hd hs himm) fun _ => yields_pure trivial)
        (absurd himm), hsame ▸ Site.does_addImm hk hk fun m' h' => ⟨h'.value, fun r hr _ => ?_, h'.mem⟩⟩
      exact h'.rest r hr (by simpa using hr)
    · obtain ⟨ht, hkt, hne⟩ := ht (Bool.eq_false_iff.mpr himm)
      exact ⟨yields_ite (absurd · himm) fun _ => (yields_check (by simpa using hne)).bind fun _ _ =>
        (passes_li ht).bind fun _ _ => passes_add hd hs ht, Site.does_addImm hk hkt fun m' h' => h'⟩
  load {o n rd base tmp off} hf hw hd hk hb ht := by
    obtain ⟨hint, hnone⟩ := (Op.accesses hw).1 hf
    have hpasses {b : Reg} {d : Int64} (hb : b.isInt = true) (hd' : isImm12 d = true) : Passes (Asm.load o rd b d) :=
      (passes_checkImm12 hd').bind fun _ _ => passes_emit hd (by rw [hint]; exact hb) (by rw [hnone]; trivial)
    by_cases hoff : isImm12 off = true
    · rw [loadOff, if_pos hoff]
      exact ⟨hpasses hb hoff, Site.does_load hf hw hk fun m' h' => ⟨h'.value, fun r hr _ => h'.other r hr, h'.mem⟩⟩
    · obtain ⟨ht, hkt, hne⟩ := ht (Bool.eq_false_iff.mpr hoff)
      exact ⟨yields_ite (absurd · hoff) fun _ => (yields_check (by simpa using hne)).bind fun _ _ =>
        (passes_li ht).bind fun _ _ => (passes_add ht ht hb).bind fun _ _ => hpasses ht (isImm12_low12 _),
        Site.does_loadOff hf hw hk hkt fun m' h' => h'⟩
  store {o n src base tmp off} hf hw hs hb ht hfree := by
    obtain ⟨hint, hnone⟩ := (Op.accesses hw).2 hf
    by_cases hoff : isImm12 off = true
    · rw [storeOff, if_pos hoff]
      exact ⟨passes_store hs (by rw [hint]; exact hb) hnone hoff,
        Site.does_store hf hw hfree fun m' h' => ⟨h'.mem, fun r _ => h'.rest r List.not_mem_nil⟩⟩
    · obtain ⟨ht, hkt, hne⟩ := ht (Bool.eq_false_iff.mpr hoff)
      simp only [List.mem_cons, List.not_mem_nil, or_false, not_or] at hne
      exact ⟨passes_storeOff hs hint hnone hb ht hne.1 hne.2,
        Site.does_storeOff hf hw hkt hfree fun m' h' => h'⟩
  operand hb hi hspares := ⟨yields_legitimize hb hi,
    Site.does_legitimize hspares fun _ _ _ h => ⟨h.value, fun _ hr => h.kept hr, h.mem⟩⟩

/-- A machine in front of code at `0x10000`, with `0x400` in x11. -/
def summing (code : List UInt8) : Machine where
  x n := if n = 11 then 0x400 else 0
  f _ := 0
  pc := 0x10000
  mem := Ram.overlay (fun _ => 0) 0x10000 code

/-- The code of the work alone. -/
def Asm.alone (x : Asm Unit) : Except Stop (CodeBlob × Unit) := Asm.generate callingTarget "access" 0 64 0 x

/-- A long number goes through t0. -/
theorem long_number_is_added : ∃ blob m', (addImm (.x 10) (.x 11) 0x1000 t0).alone = .ok (blob, ()) ∧
    World.bare.Reaches (summing blob.code) m' ∧ m'.get (.x 10) = 0x1400 := by
  obtain ⟨⟨blob, _⟩, halone, hsize⟩ := any_toOption (x := (addImm (.x 10) (.x 11) 0x1000 t0).alone)
    (p := fun r => r.1.code.length ≤ 0x1000) (by decide +kernel)
  have hsize : blob.code.length ≤ 0x1000 := of_decide_eq_true hsize
  obtain ⟨a, a', hamid, hoff⟩ := amid_of_generate halone
  obtain ⟨S, hworld, htarget, -, hearly, hlate, hat⟩ := hamid.site (W := World.bare) (m := summing blob.code)
    (Spaces.after fun _ => Spaces.after fun _ => spaces_emit) (absurd rfl) (fun _ _ => rfl)
    (CodeBlob.stands_overlay (by omega) rfl) (by rw [hoff]; rfl)
  obtain ⟨-, hsum⟩ : Passes (addImm (.x 10) (.x 11) 0x1000 t0) ∧ _ :=
    (reaches_exactly S (summing blob.code)).sum rfl (by decide) rfl fun _ => by decide
  obtain ⟨m', hreach, ⟨-, h⟩ | he⟩ := hsum a () a' (htarget ▸ hamid.written) hearly hlate hat
  · exact ⟨blob, m', halone, hworld ▸ hreach, h.value⟩
  · rcases he with he | ⟨_, _, he⟩ <;> cases he

/-- The work alone runs to the end of its code, and the value is in x10. -/
def Asm.Gives (x : Asm Unit) (v : UInt64) : Prop :=
  ∃ blob m', x.alone = .ok (blob, ()) ∧ World.bare.Reaches (summing blob.code) m' ∧
    m'.pc = 0x10000 + UInt64.ofNat blob.code.length ∧ m'.get (.x 10) = v

theorem Asm.gives_of_steps {x : Asm Unit} {v : UInt64} (n : Nat)
    (h : (x.alone.toOption.any fun r => (World.bare.steps n (summing r.1.code)).any fun m' =>
      m'.pc == 0x10000 + UInt64.ofNat r.1.code.length && m'.get (.x 10) == v) = true) : x.Gives v := by
  obtain ⟨⟨blob, _⟩, halone, hrun⟩ := any_toOption h
  obtain ⟨m', hsteps, hend⟩ := (Option.any_eq_true ..).mp hrun
  simp only [Bool.and_eq_true, beq_iff_eq] at hend
  exact ⟨blob, m', halone, ⟨n, hsteps⟩, hend⟩

/-- The checks let zr pass as a destination, as a scratch register, and t0 as a base. But zr keeps nothing,
and something else is computed than `0x400 + 0x1000` and `0 + 4 * 0x400`, or t1 is lost without an index. -/
theorem admitted_registers_miss :
    (∃ v, (addImm zr (.x 11) 1 t0 >>= fun _ => addi (.x 10) zr 0).Gives v ∧ v ≠ 0x400 + 1) ∧
    (∃ v, (addImm (.x 10) (.x 11) 0x1000 zr).Gives v ∧ v ≠ 0x400 + 0x1000) ∧
    (∃ v, (legitimize ⟨t0, .x 11, 2, 0⟩ >>= fun p => addi (.x 10) p.1 p.2).Gives v ∧ v ≠ 0 + 4 * 0x400) ∧
    ∃ v, (legitimize ⟨t0, .none, 0, 0x1000⟩ >>= fun _ => addi (.x 10) t1 0).Gives v ∧ v ≠ 0 :=
  ⟨⟨0, gives_of_steps 2 (by decide +kernel), by decide⟩, ⟨0x400, gives_of_steps 3 (by decide +kernel), by decide⟩,
    ⟨0x2000, gives_of_steps 3 (by decide +kernel), by decide⟩, 0x1000, gives_of_steps 3 (by decide +kernel), by decide⟩

end RiscvJit

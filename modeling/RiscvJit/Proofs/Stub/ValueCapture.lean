import RiscvJit.Proofs.Code.Finished
import RiscvJit.Proofs.Stub.DeoptFrames

/-
  RiscvJit.Proofs.Stub.ValueCapture — the values of a compiled frame are copied to an area of their own.

  A value is a constant, in a register that was saved, or on the stack of the compiled frame
  (`ScopeValue.captured`). Ints are extended with their sign and floats with zeros, and narrow references
  are expanded. The routine copies one value after the other to its word of the area, and the
  area does not touch what is copied (`does_captureFrom`).
-/

namespace RiscvJit

open Machine (Keeps)
open Reg (zr t0 t1)
open Location
open RegisterSave
open Site

/-! ## Captured values -/

/-- The reference that a narrow reference stands for. -/
def Options.expanded (o : Options) (v : UInt64) : UInt64 :=
  if o.compressedOops = false then v
  else if o.oopBase = 0 then v <<< o.oopShift.toUInt64
  else if v = 0 then 0
  else v <<< o.oopShift.toUInt64 + o.oopBase

theorem Options.oopShift_le {o : Options} (h : o.refusal? = none) : o.oopShift ≤ 3 := by
  unfold Options.refusal? at h
  split at h
  · cases h
  case _ hshift => exact UInt8.not_lt.mp hshift

/-- How many bytes of the compiled frame a value takes. -/
def captureWidth (k : ValueKind) : Nat := if k.isIntLike = true ∨ k = .float ∨ k = .narrowOop then 4 else 8

/-- What is captured of a value, with the compiled frame and what the registers had. An int is extended with its sign,
a float with zeros. -/
def ScopeValue.captured (o : Options) (frame : UInt64) (mem : Ram) (saved : Reg → UInt64) (v : ScopeValue) : UInt64 :=
  match v.loc with
  | .nowhere => v.bits
  | .stack slot =>
    let addr := frame + (slotBytes slot).toUInt64
    if v.kind.isIntLike then sext (mem.read addr 4).toUInt32
    else if v.kind = .float then mem.read addr 4
    else if v.kind = .narrowOop then o.expanded (mem.read addr 4)
    else mem.read addr 8
  | l =>
    if v.kind = .float then (saved l.reg).toUInt32.toUInt64
    else if v.kind = .narrowOop then o.expanded (saved l.reg).toUInt32.toUInt64
    else saved l.reg

/-- The bytes of the compiled frame that a value takes. -/
def ScopeValue.InFrame (frame : UInt64) (v : ScopeValue) (addr : UInt64) : Prop :=
  ∃ slot, v.loc = .stack slot ∧ ∃ i < captureWidth v.kind, addr = frame + (slotBytes slot).toUInt64 + UInt64.ofNat i

/-- The registers are in the area where they were saved. -/
def SavedAt (save : UInt64) (saved : Reg → UInt64) (mem : Ram) : Prop :=
  ∀ r off, slotOf r = .ok off → mem.read (save + off.toUInt64) 8 = saved r

section
variable {o : Options} {frame : UInt64} {mem mem' : Ram} {saved : Reg → UInt64} {v : ScopeValue}

/-- What is captured depends on the bytes of the value only. -/
theorem ScopeValue.captured_congr (h : ∀ addr, v.InFrame frame addr → mem' addr = mem addr) :
    v.captured o frame mem' saved = v.captured o frame mem saved := by
  cases hloc : v.loc with
  | stack slot =>
    have hread {n : Nat} (hn : n ≤ captureWidth v.kind) :
        mem'.read (frame + (slotBytes slot).toUInt64) n = mem.read (frame + (slotBytes slot).toUInt64) n :=
      Ram.read_congr fun i hi => h _ ⟨slot, hloc, i, by omega, rfl⟩
    have hfour : 4 ≤ captureWidth v.kind := by
      unfold captureWidth
      split <;> decide
    simp only [ScopeValue.captured, hloc, hread hfour]
    split
    · rfl
    · split
      · rfl
      · split
        · rfl
        · case _ hint hfloat hnarrow =>
          refine hread (Nat.le_of_eq (Eq.symm (if_neg ?_)))
          rintro (h | h | h)
          · exact hint h
          · exact hfloat h
          · exact hnarrow h
  | _ => simp only [ScopeValue.captured, hloc]

end

namespace Site

variable {S : Site} {m : Machine} {E : Exits} {Q : Unit → Machine → Prop}

theorem does_decodeHeapOop {rd tmp : Reg} (hopts : S.target.opts.refusal? = none) (hd : Keeps rd) (ht : Keeps tmp)
    (hne : tmp ≠ rd) (h : ∀ m', Put rd [tmp] (S.target.opts.expanded (m.get rd)) m m' → Q () m') : S.Does
    (Asm.decodeHeapOop rd tmp) m E Q := by
  obtain ⟨hadmits, hshift⟩ := small_shift (Options.oopShift_le hopts)
  have hsame (p : UInt64) {v : UInt64} (hv : m.get rd = v) : Put rd [tmp] v m { m with pc := p } :=
    ⟨hv, fun _ _ _ => rfl, rfl⟩
  unfold Asm.decodeHeapOop
  refine .bind (does_opts ?_)
  split
  · case _ hplain =>
    have hplain : S.target.opts.compressedOops = false := by simpa using hplain
    exact does_pure (h m (hsame m.pc (by rw [Options.expanded, if_pos hplain])))
  · case _ hcompressed =>
    have hcompressed : ¬ S.target.opts.compressedOops = false := by simpa using hcompressed
    have hexpanded : S.target.opts.expanded (m.get rd) = if S.target.opts.oopBase = 0 then
        m.get rd <<< S.target.opts.oopShift.toUInt64 else if m.get rd = 0 then 0 else
        m.get rd <<< S.target.opts.oopShift.toUInt64 + S.target.opts.oopBase := if_neg hcompressed
    split
    · case _ hbase =>
      rw [if_pos hbase] at hexpanded
      split
      · exact does_slli hd hadmits fun m1 h1 =>
          h m1 ⟨by rw [hexpanded, h1.value, hshift], fun r hr _ => h1.other r hr, h1.mem⟩
      · case _ hnone =>
        have hnone : S.target.opts.oopShift = 0 := Classical.not_not.mp hnone
        refine does_pure (h m (hsame m.pc ?_))
        rw [hexpanded, hnone]
        exact UInt64.shiftLeft_zero.symm
    · case _ hbase =>
      rw [if_neg hbase] at hexpanded
      have hshape : (do
          liftM (check (tmp ≠ rd) fun _ => "scratch " ++ tmp.abiName ++ " aliases the oop")
          let done ← Asm.newLabel
          Asm.branch .beq rd zr done
          Asm.slli rd rd (Int64.ofNat S.target.opts.oopShift.toNat)
          Asm.li tmp S.target.opts.oopBase.toInt64
          Asm.add rd rd tmp
          Asm.bind done : Asm Unit) =
          (liftM (check (tmp ≠ rd) fun _ => "scratch " ++ tmp.abiName ++ " aliases the oop") : Asm Unit) >>= fun _ =>
          Asm.newLabel >>= fun done => (do
          Asm.branch .beq rd zr done
          Asm.slli rd rd (Int64.ofNat S.target.opts.oopShift.toNat)
          Asm.li tmp S.target.opts.oopBase.toInt64
          Asm.add rd rd tmp) >>= fun _ => Asm.bind done >>= fun _ => pure () := by
        simp only [bind_assoc, bind_pure_unit]
      rw [hshape]
      refine .bind (does_lift fun _ _ => .bind (does_newLabel fun done => Does.label fun hl => .bind ?_))
      refine does_branch rfl hl (fun htaken p => .inl ⟨rfl, fun _ => does_pure (h _ (hsame p ?_))⟩) fun hnot p => ?_
      · have hzero : m.get rd = 0 := of_decide_eq_true htaken
        rw [hexpanded, if_pos hzero, hzero]
      · have hzero : ¬ m.get rd = 0 := of_decide_eq_false hnot
        rw [if_neg hzero] at hexpanded
        refine .bind (does_slli hd hadmits fun m1 h1 =>
          .bind (does_li (fun m2 h2 => does_add hd fun m3 h3 => does_pure (h m3 ⟨?_, fun r hr hr' => ?_, ?_⟩)) ht))
        · rw [h3.value, h2.other _ hne.symm, h2.value, h1.value, hshift, hexpanded, Machine.get_withPc,
            UInt64.toUInt64_toInt64]
        · rw [h3.other r hr, h2.other r (by simpa using hr'), h1.other r hr,
            Machine.get_withPc]
        · rw [h3.mem, h2.mem, h1.mem]

end Site

namespace Stub

open Asm

instance traced_captureValue (v : ScopeValue) : Traced (captureValue v) := by
  unfold captureValue
  split
  · infer_instance
  · infer_instance
  · infer_instance

section
variable {S : Site} {m : Machine} {E : Exits} {Q : Unit → Machine → Prop} {frame save : UInt64} {saved : Reg → UInt64}
  {v : ScopeValue}

theorem captureLoadOp_load (k : ValueKind) : (captureLoadOp k).info.format = .load ∧
    (captureLoadOp k).width = some (captureWidth k) := by
  cases k <;> exact ⟨rfl, rfl⟩

theorem captured_stack {o : Options} {mem : Ram} {slot : Nat} (hloc : v.loc = .stack slot) :
    v.captured o frame mem saved =
      let x := (captureLoadOp v.kind).extend (mem.read (frame + (slotBytes slot).toUInt64) (captureWidth v.kind))
      if v.kind = .narrowOop then o.expanded x else x := by
  simp only [ScopeValue.captured, hloc]
  cases v.kind <;> rfl

/-- What is captured from a register that was saved. -/
theorem captured_saved {o : Options} {mem : Ram} {off : Int64} (hsaved : SavedAt save saved mem)
    (hoff : slotOf v.loc.reg = .ok off) :
    v.captured o frame mem saved =
      let x := if v.kind = .float || v.kind = .narrowOop then mem.read (save + off.toUInt64) 4 else
        mem.read (save + off.toUInt64) 8
      if v.kind = .narrowOop then o.expanded x else x := by
  have hword := hsaved _ off hoff
  have hlow : mem.read (save + off.toUInt64) 4 = (saved v.loc.reg).toUInt32.toUInt64 := by
    rw [← hword, Ram.toUInt32_read]
    apply UInt64.toNat_inj.mp
    rw [UInt32.toNat_toUInt64, UInt64.toNat_toUInt32, Nat.mod_eq_of_lt (Ram.toNat_read_lt _ _ (by decide))]
  have hnone : v.loc.reg ≠ .none := by
    intro hnone
    rw [hnone] at hoff
    cases hoff
  rw [hword, hlow]
  cases hloc : v.loc with
  | nowhere => exact absurd (by rw [hloc]; rfl) hnone
  | stack slot => exact absurd (by rw [hloc]; rfl) hnone
  | _ =>
    simp only [ScopeValue.captured, hloc]
    cases v.kind <;> rfl

/-- What was put into a register may be expanded there. -/
theorem does_expand {k : ValueKind} {m1 : Machine} {x : UInt64} (hopts : S.target.opts.refusal? = none)
    (h1 : Put t0 [t1] x m m1)
    (h : ∀ m', Put t0 [t1] (if k = .narrowOop then S.target.opts.expanded x else x) m m' → Q () m') :
    S.Does (if k = .narrowOop then decodeHeapOop t0 t1 else pure ()) m1 E Q := by
  split
  · case _ hnarrow =>
    refine does_decodeHeapOop hopts (by decide) (by decide) (by decide) fun m2 h2 => h m2 ⟨?_, fun r hr hr' => ?_, ?_⟩
    · rw [h2.value, h1.value, if_pos hnarrow]
    · rw [h2.rest r hr hr', h1.rest r hr hr']
    · rw [h2.mem, h1.mem]
  · case _ hplain =>
    rw [if_neg hplain] at h
    exact does_pure (h m1 h1)

theorem does_captureValue (hopts : S.target.opts.refusal? = none) (hframe : m.get (.x 11) = frame)
    (hsave : m.get (.x 12) = save)
    (hsaved : SavedAt save saved m.mem) (h : ∀ m',
    Put t0 [t1] (v.captured S.target.opts frame m.mem saved) m m' → Q () m') :
    S.Does (captureValue v) m E Q := by
  unfold captureValue
  split
  · case _ hloc =>
    refine does_li fun m1 h1 => h m1 ⟨?_, fun r hr _ => h1.other r hr, h1.mem⟩
    rw [h1.value, ScopeValue.captured, hloc, UInt64.toUInt64_toInt64]
  · case _ slot hloc =>
    obtain ⟨hformat, hwidth⟩ := captureLoadOp_load v.kind
    refine .bind (does_loadOff hformat hwidth (by decide) (by decide) fun m1 h1 => ?_)
    refine does_expand hopts ⟨h1.value, fun r hr _ => h1.rest r hr (by simpa using hr), h1.mem⟩ fun m2 h2 => h m2 ?_
    rw [captured_stack hloc, ← hframe]
    exact h2
  · case _ hnowhere hstack =>
    refine .bind (does_lift fun off hoff => .bind ?_)
    have hload : S.Does (load (if v.kind = .float || v.kind = .narrowOop then .lwu else .ld) t0 (.x 12) off)
      m E fun _ m' =>
        Put t0 [t1] (if v.kind = .float || v.kind = .narrowOop then m.mem.read (save + off.toUInt64) 4
          else m.mem.read (save + off.toUInt64) 8) m m' := by
      rw [← hsave]
      split
      · exact does_lwu (by decide) fun m1 h1 => ⟨h1.value, fun r hr _ => h1.other r hr, h1.mem⟩
      · exact does_ld fun m1 h1 => ⟨h1.value, fun r hr _ => h1.other r hr, h1.mem⟩
    refine hload.imp (fun _ _ h => h) fun _ m1 h1 => does_expand hopts h1 fun m2 h2 => h m2 ?_
    rw [captured_saved hsaved hoff]
    exact h2

end

/-! ## The first routine -/

/-- Words of an area, from an address on. -/
abbrev Area (values : UInt64) (n : Nat) : UInt64 → Prop := Spans values.toNat (8 * n)

/-- Some of the values are in their words of the area, and nothing else has changed. -/
structure CapturedTo (values : UInt64) (n : Nat) (done : List UInt64) (m0 m : Machine) : Prop where
  alters : Alters [t0, t1] (Area values n) m0 m
  words : ∀ i w, done[i]? = some w → m.mem.read (values + UInt64.ofNat (8 * i)) 8 = w

/-- The area for the values lies in memory, apart from the code, from the saved registers and from the values
themselves. -/
structure CaptureRoom (Clear : UInt64 → Prop) (vs : List ScopeValue) (values frame save : UInt64) : Prop where
  area : values.toNat + 8 * vs.length ≤ 2 ^ 64
  clear : ∀ addr, Area values vs.length addr → Clear addr
  saveEnd : save.toNat + 496 ≤ 2 ^ 64
  saveApart : ∀ addr, Area values vs.length addr → ¬ Spans save.toNat 496 addr
  frameApart : ∀ v ∈ vs, ∀ addr, v.InFrame frame addr → ¬ Area values vs.length addr

theorem toUInt64_wordOffset (i : Nat) : (Int64.ofNat i * 8).toUInt64 = UInt64.ofNat (8 * i) := by
  rw [show Int64.ofNat i * 8 = Int64.ofNat (8 * i) by rw [Int64.ofNat_mul, Int64.mul_comm]; rfl, Int64.toUInt64_ofNat']

/-- Every register has a word of the saved registers. -/
theorem slotOf_eq_ok {r : Reg} {off : Int64} (h : slotOf r = .ok off) : ∃ k < 62, off = Int64.ofNat (8 * k) := by
  have hslots : ∀ n : Fin 32, ∀ r ∈ [Reg.x n, Reg.f n], (slotOf r).toOption.all (fun off =>
      (List.range 62).any fun k => off = Int64.ofNat (8 * k)) = true := by decide +kernel
  have hslot : (slotOf r).toOption.all (fun off => (List.range 62).any fun k => off = Int64.ofNat (8 * k)) = true := by
    cases r with
    | x n => exact hslots n _ (by simp)
    | f n => exact hslots n _ (by simp)
    | none => rfl
  rw [h] at hslot
  obtain ⟨k, hk, heq⟩ := List.any_eq_true.mp hslot
  exact ⟨k, List.mem_range.mp hk, of_decide_eq_true heq⟩

section
variable {S : Site} {m0 m : Machine} {E : Exits} {values frame save : UInt64} {saved : Reg → UInt64}
  {vs : List ScopeValue} {Clear : UInt64 → Prop}

/-- The area for the values does not touch the saved registers. -/
theorem CaptureRoom.savedAt {mem mem' : Ram} (h : CaptureRoom Clear vs values frame save)
    (hsaved : SavedAt save saved mem)
    (hmem : ∀ addr, ¬ Area values vs.length addr → mem' addr = mem addr) : SavedAt save saved mem' := by
  have hend := h.saveEnd
  intro r off hoff
  rw [← hsaved r off hoff]
  obtain ⟨k, hk, rfl⟩ := slotOf_eq_ok hoff
  have hword : (save + (Int64.ofNat (8 * k)).toUInt64).toNat = save.toNat + 8 * k := by
    rw [Int64.toUInt64_ofNat', toNat_off (by omega)]
  refine Ram.read_same (by omega) fun x hx => hmem x fun hin => h.saveApart x hin ?_
  omega

instance traced_captureFrom (i : Nat) (vs : List ScopeValue) : Traced (captureFrom i vs) := by
  induction vs generalizing i with
  | nil => exact traced_pure ()
  | cons v rest ih =>
    unfold captureFrom
    infer_instance

/-- The values are copied to their words, one after the other. -/
theorem does_captureFrom (before : List ScopeValue) {rest : List ScopeValue} (hopts : S.target.opts.refusal? = none)
    (hroom : CaptureRoom S.Free (before ++ rest) values frame save) (hvalues : m0.get (.x 10) = values)
    (hframe : m0.get (.x 11) = frame) (hsave : m0.get (.x 12) = save) (hsaved : SavedAt save saved m0.mem)
    (hm : CapturedTo values (before ++ rest).length (before.map (·.captured S.target.opts frame m0.mem saved)) m0 m) :
    S.Does (captureFrom before.length rest) m E fun _ m' =>
      CapturedTo values (before ++ rest).length
      ((before ++ rest).map (·.captured S.target.opts frame m0.mem saved)) m0 m' := by
  induction rest generalizing before m with
  | nil =>
    rw [List.append_nil] at hm ⊢
    exact does_pure hm
  | cons v rest ih =>
    have hreg {r : Reg} (hr : r ∉ [t0, t1]) : m.get r = m0.get r := hm.alters.regs r hr
    have hsame : v.captured S.target.opts frame m.mem saved = v.captured S.target.opts frame m0.mem saved :=
      ScopeValue.captured_congr fun addr hin => hm.alters.mem addr (hroom.frameApart v (by simp) addr hin)
    have harea := hroom.area
    rw [List.length_append, List.length_cons] at harea
    have hword : (values + UInt64.ofNat (8 * before.length)).toNat = values.toNat + 8 * before.length :=
      toNat_off (by omega)
    have hin {x : UInt64} (hx : Spans (values + UInt64.ofNat (8 * before.length)).toNat 8 x) :
        Area values (before ++ v :: rest).length x := by
      rw [hword] at hx
      rw [Area, List.length_append, List.length_cons]
      omega
    refine .bind (does_captureValue hopts ((hreg (by decide)).trans hframe) ((hreg (by decide)).trans hsave)
      (hroom.savedAt hsaved hm.alters.mem) fun m1 h1 => ?_)
    have haddr : m1.get (.x 10) + (Int64.ofNat before.length * 8).toUInt64 = values + UInt64.ofNat
      (8 * before.length) := by
      rw [h1.rest _ (by decide) (by decide), hreg (by decide), hvalues, toUInt64_wordOffset]
    refine .bind (does_storeOff rfl rfl (by decide) (fun i hi => ?_) fun m2 h2 => ?_)
    · rw [haddr]
      exact hroom.clear _ (hin (spans_at (by omega) hi))
    · rw [haddr, h1.value, hsame] at h2
      have hnext : CapturedTo values ((before ++ [v]) ++ rest).length
          ((before ++ [v]).map (·.captured S.target.opts frame m0.mem saved)) m0 m2 := by
        rw [List.append_assoc]
        refine ⟨hm.alters.trans ((h1.alters (by simp) (by simp)).trans
          (h2.alters (by simp) (by omega) fun x hx => hin hx)), fun i w hw => ?_⟩
        rw [List.map_append, List.map_singleton] at hw
        rw [h2.mem]
        rcases Nat.lt_or_ge i before.length with hi | hi
        · have hword' : (values + UInt64.ofNat (8 * i)).toNat = values.toNat + 8 * i := toNat_off (by omega)
          rw [List.getElem?_append_left (by simpa using hi)] at hw
          rw [Ram.read_write_off _ _ (by omega) (by omega) (by omega), h1.mem, hm.words i w hw]
        · rw [List.getElem?_append_right (by simpa using hi), List.length_map, List.getElem?_singleton] at hw
          split at hw
          · case _ hzero =>
            cases hw
            rw [show i = before.length by omega, read_write_eight]
          · cases hw
      have hdoes := ih (before ++ [v]) (m := m2) (by rwa [List.append_assoc]) (by exact hnext)
      rw [List.append_assoc, List.length_append] at hdoes
      exact hdoes

end

end Stub

end RiscvJit

import RiscvJit.Proofs.Code.Constants
import RiscvJit.Proofs.Code.Layout
import RiscvJit.Proofs.Code.Run

/-
  RiscvJit.Proofs.Code.Straight — sequences without jumps: what is written and what it does.

  Two things are said of work that writes straight-line code. `Wrote is a a'`: it appended the
  words of the instructions `is`, each of which decodes to its instruction. `Puts` and `Stores`:
  run from any machine, the instructions put a value into one register, or bytes into memory,
  and change nothing else but the scratch registers they are given. `Runs F` is such a run; it
  changes memory inside `F` only. Then

    - written instructions are the next pieces of the layout (`Wrote.holds`);
    - `li` puts any constant (`li_puts`), `addImm` any sum (`addImm_puts`);
    - `loadOff` and `storeOff` reach any offset (`loadOff_puts`, `storeOff_stores`).
-/

namespace RiscvJit

open Machine (Keeps get_set get_next exec)
open Asm

/-! ## Running instructions -/

/-- The instructions run one after the other, and change memory inside `F` only. -/
inductive Runs (F : UInt64 → Prop) : List Inst → Machine → Machine → Prop
  | nil (m : Machine) : Runs F [] m m
  | cons {i : Inst} {is : List Inst} {m m1 m' : Machine} : m.exec i = some m1 → m1.pc = m.pc + 4 →
      (∀ addr, ¬ F addr → m1.mem addr = m.mem addr) → Runs F is m1 m' → Runs F (i :: is) m m'

section
variable {F : UInt64 → Prop} {is js : List Inst} {m m1 m' : Machine}

theorem Runs.append (h : Runs F is m m1) (h' : Runs F js m1 m') : Runs F (is ++ js) m m' := by
  induction h with
  | nil m => exact h'
  | cons hexec hpc hmem _ ih => exact .cons hexec hpc hmem (ih h')

theorem Runs.outside (h : Runs F is m m') {addr : UInt64} (ha : ¬ F addr) : m'.mem addr = m.mem addr := by
  induction h with
  | nil m => rfl
  | cons _ _ hmem _ ih => exact ih.trans (hmem addr ha)

theorem Runs.pc (h : Runs F is m m') : m'.pc = m.pc + UInt64.ofNat (4 * is.length) := by
  induction h with
  | nil m => exact (UInt64.add_zero m.pc).symm
  | @cons i is m m1 m' _ hpc _ _ ih =>
    rw [ih, hpc, List.length_cons, show 4 * (is.length + 1) = 4 + 4 * is.length by omega, UInt64.ofNat_add,
      UInt64.add_assoc]
    rfl

end

/-- The machine after a value was put into a register, with scratch registers. -/
structure Put (rd : Reg) (tmps : List Reg) (v : UInt64) (m m' : Machine) : Prop where
  value : m'.get rd = v
  rest : ∀ r, r ≠ rd → r ∉ tmps → m'.get r = m.get r
  mem : m'.mem = m.mem

theorem Put.other {rd : Reg} {v : UInt64} {m m' : Machine} (h : Put rd [] v m m') (r : Reg) (hr : r ≠ rd := by decide) :
    m'.get r = m.get r := h.rest r hr List.not_mem_nil

/-- The code puts a value into a register, and may change scratch registers on the way. -/
def Puts (is : List Inst) (rd : Reg) (tmps : List Reg) (v : Machine → UInt64) : Prop :=
  ∀ F m, ∃ m', Runs F is m m' ∧ Put rd tmps (v m) m m'

/-- The code writes bytes to memory, and may change scratch registers on the way. -/
def Stores (is : List Inst) (tmps : List Reg) (addr : Machine → UInt64) (n : Nat) (v : Machine → UInt64) : Prop :=
  ∀ F m, (∀ i < n, F (addr m + UInt64.ofNat i)) →
    ∃ m', Runs F is m m' ∧ m'.mem = m.mem.write (addr m) n (v m) ∧ ∀ r, r ∉ tmps → m'.get r = m.get r

section
variable {is js : List Inst} {rd r : Reg} {tmps : List Reg} {v w : Machine → UInt64}

theorem puts_nil (rd : Reg) : Puts [] rd [] fun m => m.get rd :=
  fun _ m => ⟨m, .nil m, rfl, fun _ _ _ => rfl, rfl⟩

theorem Puts.weaken (h : Puts is rd tmps v) {tmps' : List Reg} (hsub : ∀ r ∈ tmps, r ∈ tmps') : Puts is rd tmps' v := by
  intro F m
  obtain ⟨m', hruns, hput⟩ := h F m
  exact ⟨m', hruns, hput.value, fun r hr ht => hput.rest r hr fun hmem => ht (hsub r hmem), hput.mem⟩

/-- A value in `r`, then one in `rd` that is computed from it. -/
theorem Puts.puts (h : Puts is r tmps v) (h' : Puts js rd tmps w) {u : Machine → UInt64} (htmp : r = rd ∨ r ∈ tmps)
    (hu : ∀ m m1, Put r tmps (v m) m m1 → w m1 = u m) : Puts (is ++ js) rd tmps u := by
  intro F m
  obtain ⟨m1, hruns, hput⟩ := h F m
  obtain ⟨m', hruns', hput'⟩ := h' F m1
  refine ⟨m', hruns.append hruns', hput'.value.trans (hu m m1 hput), ?_, hput'.mem.trans hput.mem⟩
  intro s hs ht
  have hne : s ≠ r := by
    rintro rfl
    rcases htmp with rfl | hr
    · exact hs rfl
    · exact ht hr
  exact (hput'.rest s hs ht).trans (hput.rest s hne ht)

end

/-! ## Writing instructions -/

/-- The instructions were appended to the code, as words that decode to them. -/
structure Wrote (is : List Inst) (a a' : Assembler) : Prop where
  code : a' = { a with buf := is.foldl (fun b i => b.emit4 i.word) a.buf }
  decodes : ∀ i ∈ is, decode i.word = some i

section
variable {is js : List Inst} {a a1 a' : Assembler} {t : Target} {L : Layout}

theorem wrote_nil (a : Assembler) : Wrote [] a a := ⟨rfl, by simp⟩

theorem Wrote.append (h : Wrote is a a1) (h' : Wrote js a1 a') : Wrote (is ++ js) a a' := by
  refine ⟨?_, ?_⟩
  · rw [h'.code, h.code, List.foldl_append]
  · intro i hi
    rcases List.mem_append.mp hi with hi | hi
    · exact h.decodes i hi
    · exact h'.decodes i hi

/-- The pieces of instructions. -/
def plain (is : List Inst) : List Piece := is.map fun i => .word i.word

theorem getElem?_plain {ps qs rest : List Piece} (h : qs = ps ++ plain is ++ rest) {j : Nat} {i : Inst}
    (hi : is[j]? = some i) : qs[ps.length + j]? = some (.word i.word) := by
  have hj : (plain is)[j]? = some (.word i.word) := by rw [plain, List.getElem?_map, hi]; rfl
  rw [h, List.append_assoc, List.getElem?_append_right (by omega), Nat.add_sub_cancel_left,
    List.getElem?_append_left (List.getElem?_eq_some_iff.mp hj).1, hj]

theorem length_plain (is : List Inst) : (plain is).length = is.length := List.length_map _

theorem foldl_emit4_failed {b : CodeBuffer} (h : b.failed = true) (is : List Inst) :
    is.foldl (fun b i => b.emit4 i.word) b = b := by
  induction is with
  | nil => rfl
  | cons i is ih => rw [List.foldl_cons, CodeBuffer.emit4_failed h, ih]

theorem holds_of_settles (h : Settles L a) (hworking : a.buf.failed = false) : Holds L a := by
  unfold Settles Layout.fault? at h
  split at h
  · exact h
  · -- a reason for failing would be recorded
    rename_i reason hreason
    have hne : a.buf.failure ≠ "" := by
      rw [h]
      split at hreason
      · cases hreason; decide
      · split at hreason
        · cases hreason
        · cases hreason; decide
    rw [CodeBuffer.failed] at hworking
    simp_all

/-- Unless the buffer failed, the instructions are the next pieces of the layout. -/
theorem Wrote.holds (h : Wrote is a a') (hL : Holds L a) (hworking : a'.buf.failed = false) :
    Holds (L.write (plain is)) a' := by
  obtain ⟨rfl, -⟩ := h
  induction is generalizing L a with
  | nil =>
    rw [plain, List.map_nil, Layout.write, List.append_nil]
    exact hL
  | cons i is ih =>
    have hsettles := hL.emit i.word
    by_cases hfailed : (a.buf.emit4 i.word).failed = true
    · have hend : (is.foldl (fun b i => b.emit4 i.word) (a.buf.emit4 i.word)).failed = true := by
        rw [foldl_emit4_failed hfailed]
        exact hfailed
      rw [show ({ a with buf := (i :: is).foldl _ a.buf } : Assembler).buf.failed = true from hend] at hworking
      cases hworking
    · have hfirst := holds_of_settles hsettles (Bool.of_not_eq_true hfailed)
      have hrest := ih hfirst hworking
      rw [plain, List.map_cons]
      rw [Layout.write, Layout.write, List.append_assoc] at hrest
      exact hrest

theorem check_eq_ok {b : Bool} {what : Unit → String} {u : Unit} : check b what = .ok u ↔ b = true := by
  cases b <;> simp [check]

variable {o : Op} {rd rs1 rs2 : Reg}

theorem checkClasses_eq_ok (h : checkClasses o rd rs1 rs2 = .ok ()) :
    checkClass o rd o.info.rd "rd" = .ok () ∧ checkClass o rs1 o.info.rs1 "rs1" = .ok () ∧
      checkClass o rs2 o.info.rs2 "rs2" = .ok () := by
  obtain ⟨_, hd, h⟩ := except_bind_eq_ok.mp h
  obtain ⟨_, h1, h2⟩ := except_bind_eq_ok.mp h
  exact ⟨hd, h1, h2⟩

theorem admits_of_check {r : Reg} {c : RegClass} {what : String} (h : checkClass o r c what = .ok ())
    (hn : c = .none → r = .none) : c.admits r = true := by
  cases c with
  | none => rw [hn rfl]; rfl
  | int =>
    rw [checkClass] at h
    have hint := check_eq_ok.mp h
    cases r <;> first | rfl | cases hint
  | float =>
    rw [checkClass] at h
    have hfloat := check_eq_ok.mp h
    cases r <;> first | rfl | cases hfloat

/-- One instruction, with an absent register where its format has none. -/
theorem wrote_ordered {imm : Int64} {aqrl : UInt32} (h : emit o rd rs1 rs2 imm aqrl t a = .ok ((), a')) (ha : aqrl < 4)
    (ho : o ≠ .invalid) (hd : o.info.format.hasRd = false → rd = .none) (h1 : o.info.format.hasRs1 = false → rs1 = .none)
    (h2 : o.info.format.hasRs2 = false → rs2 = .none) (hi : o.info.format.admits imm = true)
    (hr : o.info.format.rounds = false) : Wrote [o.instOf rd rs1 rs2 imm aqrl 0] a a' := by
  obtain ⟨hcheck, rfl⟩ := emit_eq_ok.mp h
  obtain ⟨cd, c1, c2⟩ := checkClasses_eq_ok hcheck
  have hreg := Op.info_regular _ (Op.mem_named o ho)
  simp only [OpInfo.regular, Bool.and_eq_true, beq_iff_eq] at hreg
  obtain ⟨⟨⟨⟨-, ed⟩, e1⟩, e2⟩, -⟩ := hreg
  have hword : (o.instOf rd rs1 rs2 imm aqrl 0).word = o.encode rd rs1 rs2 imm aqrl := by
    rw [Op.word_instOf, hr, if_neg (by decide)]
  refine ⟨by rw [← hword]; rfl, ?_⟩
  intro i hi'
  rw [List.mem_singleton.mp hi']
  refine decode_word (Op.proper_instOf ho (admits_of_check cd fun e => hd ?_) (admits_of_check c1 fun e => h1 ?_)
    (admits_of_check c2 fun e => h2 ?_) hi ha (by decide))
  · rw [← ed, e]; rfl
  · rw [← e1, e]; rfl
  · rw [← e2, e]; rfl

theorem wrote_emit {f : Format} {imm : Int64} (h : emit o rd rs1 rs2 imm 0 t a = .ok ((), a')) (ho : o ≠ .invalid)
    (hf : o.info.format = f) (hd : f.hasRd = false → rd = .none) (h1 : f.hasRs1 = false → rs1 = .none)
    (h2 : f.hasRs2 = false → rs2 = .none) (hi : f.admits imm = true) (hr : f.rounds = false) :
    Wrote [o.instOf rd rs1 rs2 imm 0 0] a a' := by
  subst hf
  exact wrote_ordered h (by decide) ho hd h1 h2 hi hr

end

/-! ## Single instructions -/

section
variable {a a' : Assembler} {t : Target} {o : Op} {rd rs1 rs2 : Reg} {imm : Int64}

/-- The instruction puts a value into one register and goes on. -/
def Sets (i : Inst) (rd : Reg) (v : Machine → UInt64) : Prop := ∀ m : Machine, m.exec i = some (m.next.set rd (v m))

/-- The instruction writes bytes to memory and goes on. -/
def Saves (i : Inst) (addr : Machine → UInt64) (n : Nat) (v : Machine → UInt64) : Prop :=
  ∀ m : Machine, m.exec i = some { m.next with mem := m.mem.write (addr m) n (v m) }

variable {v : Machine → UInt64} {n : Nat} {f : UInt64 → UInt64 → UInt64}

theorem puts_one {i : Inst} (hk : Keeps rd) (h : Sets i rd v) : Puts [i] rd [] v := by
  intro F m
  refine ⟨m.next.set rd (v m), .cons (h m) (by simp) (fun _ _ => by simp) (.nil _), ?_, ?_, by simp⟩
  · rw [get_set _ hk, if_pos rfl]
  · intro r hr _
    rw [get_set _ hk, if_neg hr, get_next]

/-- What sets a register puts a value into it. -/
theorem puts_of_sets (hk : Keeps rd) (h : ∃ i, Wrote [i] a a' ∧ Sets i rd v) : ∃ is, Wrote is a a' ∧ Puts is rd [] v := by
  obtain ⟨i, hw, hs⟩ := h
  exact ⟨[i], hw, puts_one hk hs⟩

theorem stores_one {i : Inst} {addr : Machine → UInt64} (h : Saves i addr n v) : Stores [i] [] addr n v := by
  intro F m hF
  refine ⟨_, .cons (h m) rfl (fun x hx => ?_) (.nil _), rfl, fun r _ => ?_⟩
  · refine Ram.write_outside _ _ (Nat.le_of_not_lt fun hlt => hx ?_)
    have := hF _ hlt
    rwa [UInt64.ofNat_toNat, UInt64.add_comm, UInt64.sub_add_cancel] at this
  · exact (Machine.get_withMem m.next _ r).trans (get_next m r)

/-- Only an instruction that there is has one of the other formats. -/
theorem valid_of_format (h : o.info.format ≠ .r) : o ≠ .invalid := fun e => h (by rw [e]; rfl)

theorem rr_sets (hf : o.info.format = .r) (hc : ∀ x y, o.compute x y = some (f x y))
    (h : rr o rd rs1 rs2 t a = .ok ((), a')) : ∃ i, Wrote [i] a a' ∧ Sets i rd fun m => f (m.get rs1) (m.get rs2) := by
  have ho : o ≠ .invalid := by
    rintro rfl
    cases hc 0 0
  refine ⟨_, wrote_emit h ho hf nofun nofun nofun rfl rfl, fun m => ?_⟩
  rw [exec, Op.instOf]
  simp only [hf, hc, Option.map_some]

theorem rr_puts (hf : o.info.format = .r) (hc : ∀ x y, o.compute x y = some (f x y)) (hk : Keeps rd)
    (h : rr o rd rs1 rs2 t a = .ok ((), a')) :
    ∃ is, Wrote is a a' ∧ Puts is rd [] fun m => f (m.get rs1) (m.get rs2) := puts_of_sets hk (rr_sets hf hc h)

/-- The format takes an immediate in place of the second register. -/
def Format.immediate (f : Format) : Prop := f = .i ∨ f = .shift64 ∨ f = .shift32

theorem emit_sets (hf : o.info.format.immediate) (hi : o.info.format.admits imm = true)
    (hc : ∀ x, o.compute x imm.toUInt64 = some (f x imm.toUInt64)) (h : emit o rd rs1 .none imm 0 t a = .ok ((), a')) :
    ∃ i, Wrote [i] a a' ∧ Sets i rd fun m => f (m.get rs1) imm.toUInt64 := by
  refine ⟨o.instOf rd rs1 .none imm 0 0, ?_, fun m => ?_⟩
  · rcases hf with hf | hf | hf <;>
      exact wrote_emit h (valid_of_format (by rw [hf]; decide)) hf nofun nofun (fun _ => rfl) (hf ▸ hi) rfl
  · have himm : (o.instOf rd rs1 .none imm 0 0).imm = imm := by
      rcases hf with hf | hf | hf <;> exact if_pos (by rw [hf]; rfl)
    have hop : (o.instOf rd rs1 .none imm 0 0).op = o := rfl
    rw [exec, hop, himm]
    rcases hf with hf | hf | hf <;> rw [hf] <;> exact congrArg (Option.map _) (hc _)

theorem emit_puts (hf : o.info.format.immediate) (hi : o.info.format.admits imm = true)
    (hc : ∀ x, o.compute x imm.toUInt64 = some (f x imm.toUInt64)) (hk : Keeps rd)
    (h : emit o rd rs1 .none imm 0 t a = .ok ((), a')) :
    ∃ is, Wrote is a a' ∧ Puts is rd [] fun m => f (m.get rs1) imm.toUInt64 := puts_of_sets hk (emit_sets hf hi hc h)

theorem ri_sets (hf : o.info.format = .i) (hc : ∀ x y, o.compute x y = some (f x y))
    (h : ri o rd rs1 imm t a = .ok ((), a')) : ∃ i, Wrote [i] a a' ∧ Sets i rd fun m => f (m.get rs1) imm.toUInt64 := by
  obtain ⟨_, b, hcheck, hemit⟩ := bind_eq_ok.mp h
  obtain ⟨himm, rfl⟩ := lift_eq_ok.mp hcheck
  exact emit_sets (.inl hf) (by rw [hf]; exact check_eq_ok.mp himm) (fun x => hc x _) hemit

theorem ri_puts (hf : o.info.format = .i) (hc : ∀ x y, o.compute x y = some (f x y)) (hk : Keeps rd)
    (h : ri o rd rs1 imm t a = .ok ((), a')) :
    ∃ is, Wrote is a a' ∧ Puts is rd [] fun m => f (m.get rs1) imm.toUInt64 := puts_of_sets hk (ri_sets hf hc h)

/-- A load from a register plus an offset. -/
theorem load_sets (hf : o.info.format = .load) (hw : o.width = some n)
    (h : load o rd rs1 imm t a = .ok ((), a')) :
    ∃ i, Wrote [i] a a' ∧ Sets i rd fun m => o.extend (m.mem.read (m.get rs1 + imm.toUInt64) n) := by
  obtain ⟨_, b, hcheck, hemit⟩ := bind_eq_ok.mp h
  obtain ⟨himm, rfl⟩ := lift_eq_ok.mp hcheck
  refine ⟨_, wrote_emit hemit (valid_of_format (by rw [hf]; decide)) hf nofun nofun (fun _ => rfl)
    (check_eq_ok.mp himm) rfl, fun m => ?_⟩
  have e : (o.instOf rd rs1 .none imm 0 0).imm = imm := if_pos (by rw [hf]; rfl)
  have hop : (o.instOf rd rs1 .none imm 0 0).op = o := rfl
  rw [exec, hop, e, hf]
  simp only [hw, Option.map_some]
  rfl

theorem load_puts (hf : o.info.format = .load) (hw : o.width = some n) (hk : Keeps rd)
    (h : load o rd rs1 imm t a = .ok ((), a')) :
    ∃ is, Wrote is a a' ∧ Puts is rd [] fun m => o.extend (m.mem.read (m.get rs1 + imm.toUInt64) n) :=
  puts_of_sets hk (load_sets hf hw h)

/-- A store to a register plus an offset. -/
theorem store_saves (hf : o.info.format = .store) (hw : o.width = some n)
    (h : store o rs2 rs1 imm t a = .ok ((), a')) :
    ∃ i, Wrote [i] a a' ∧ Saves i (fun m => m.get rs1 + imm.toUInt64) n fun m => m.get rs2 := by
  obtain ⟨_, b, hcheck, hemit⟩ := bind_eq_ok.mp h
  obtain ⟨himm, rfl⟩ := lift_eq_ok.mp hcheck
  refine ⟨_, wrote_emit hemit (valid_of_format (by rw [hf]; decide)) hf (fun _ => rfl) nofun nofun
    (check_eq_ok.mp himm) rfl, fun m => ?_⟩
  have e : (o.instOf .none rs1 rs2 imm 0 0).imm = imm := if_pos (by rw [hf]; rfl)
  have hop : (o.instOf .none rs1 rs2 imm 0 0).op = o := rfl
  rw [exec, hop, e, hf]
  simp only [hw, Option.map_some]
  rfl

theorem store_stores (hf : o.info.format = .store) (hw : o.width = some n)
    (h : store o rs2 rs1 imm t a = .ok ((), a')) :
    ∃ is, Wrote is a a' ∧ Stores is [] (fun m => m.get rs1 + imm.toUInt64) n fun m => m.get rs2 := by
  obtain ⟨i, hwrote, hs⟩ := store_saves hf hw h
  exact ⟨[i], hwrote, stores_one hs⟩

theorem lui_sets (hi : fitsSigned 20 imm = true) (h : Asm.lui rd imm t a = .ok ((), a')) :
    ∃ i, Wrote [i] a a' ∧ Sets i rd fun _ => imm.toUInt64 <<< 12 :=
  ⟨_, wrote_emit h (by decide) rfl nofun (fun _ => rfl) (fun _ => rfl) hi rfl, fun _ => rfl⟩

end

/-! ## Sequences -/

section
variable {a a' : Assembler} {t : Target} {o : Op} {rd rs tmp : Reg} {imm off : Int64}

theorem constStep_sets {s : ConstStep} (hs : s.Fits) (h : constStep rd s t a = .ok ((), a')) :
    ∃ i, Wrote [i] a a' ∧ Sets i rd fun m => (s.apply (m.get rd).toInt64).toUInt64 := by
  cases s with
  | lui imm =>
    have e : (imm <<< 12).toUInt64 = imm.toUInt64 <<< 12 := toUInt64_shiftLeft imm (show 12 < 64 by decide)
    rw [show (fun m : Machine => (ConstStep.apply (m.get rd).toInt64 (.lui imm)).toUInt64) =
      fun _ => imm.toUInt64 <<< 12 from funext fun _ => e]
    exact lui_sets hs h
  | start imm =>
    have e : sext (0 + imm.toUInt64).toUInt32 = imm.toInt32.toInt64.toUInt64 := by
      rw [UInt64.zero_add, sext_toUInt32, Int64.toInt64_toUInt64]
    rw [show (fun m : Machine => (ConstStep.apply (m.get rd).toInt64 (.start imm)).toUInt64) =
      fun m => sext (m.get .zr + imm.toUInt64).toUInt32 from funext fun _ => e.symm]
    exact ri_sets (f := fun x y => sext (x + y).toUInt32) rfl (fun _ _ => rfl) h
  | addiw imm =>
    rw [show (fun m : Machine => (ConstStep.apply (m.get rd).toInt64 (.addiw imm)).toUInt64) =
      fun m => sext (m.get rd + imm.toUInt64).toUInt32 from funext fun m => (sext_toUInt32 _).symm]
    exact ri_sets (f := fun x y => sext (x + y).toUInt32) rfl (fun _ _ => rfl) h
  | slli n =>
    obtain ⟨hlo, hhi⟩ := hs
    obtain ⟨k, hn⟩ : ∃ k : Nat, n = Int64.ofNat k ∧ k < 64 :=
      ⟨n.toInt.toNat, (ofNat_eq_of_toInt (by omega)).symm, by omega⟩
    have e (x : UInt64) : x <<< (n.toUInt64 &&& 63) = (x.toInt64 <<< n).toUInt64 := by
      have hmask : UInt64.ofNat k &&& 63 = UInt64.ofNat k := by
        have all : ∀ k < 64, UInt64.ofNat k &&& 63 = UInt64.ofNat k := by decide
        exact all k hn.2
      rw [hn.1, toUInt64_shiftLeft _ hn.2, Int64.toUInt64_ofNat', hmask]
      rfl
    rw [show (fun m : Machine => (ConstStep.apply (m.get rd).toInt64 (.slli n)).toUInt64) =
      fun m => m.get rd <<< (n.toUInt64 &&& 63) from funext fun m => (e _).symm]
    refine emit_sets (f := fun x y => x <<< (y &&& 63)) (.inr (.inl rfl)) ?_ (fun _ => rfl) h
    show (decide (0 ≤ n.toInt) && decide (n.toInt < 64)) = true
    rw [decide_eq_true hlo, decide_eq_true hhi]
    rfl
  | addi imm => exact ri_sets (f := fun x y => x + y) rfl (fun _ _ => rfl) h

theorem constSteps_puts {ss : List ConstStep} (hs : ∀ s ∈ ss, s.Fits) (hk : Keeps rd)
    (h : ss.forM (constStep rd) t a = .ok ((), a')) :
    ∃ is, Wrote is a a' ∧ Puts is rd [] fun m => (perform (m.get rd).toInt64 ss).toUInt64 := by
  induction ss generalizing a with
  | nil =>
    cases h
    exact ⟨[], wrote_nil _, puts_nil rd⟩
  | cons s ss ih =>
    obtain ⟨_, b, hfirst, hrest⟩ := bind_eq_ok.mp h
    obtain ⟨is, hw, hp⟩ := puts_of_sets hk (constStep_sets (hs s List.mem_cons_self) hfirst)
    obtain ⟨js, hw', hp'⟩ := ih (fun s h => hs s (List.mem_cons_of_mem _ h)) hrest
    refine ⟨is ++ js, hw.append hw', hp.puts hp' (.inl rfl) fun m m1 hput => ?_⟩
    rw [hput.value]
    rfl

theorem li_puts (hk : Keeps rd) (h : li rd imm t a = .ok ((), a')) :
    ∃ is, Wrote is a a' ∧ Puts is rd [] fun _ => imm.toUInt64 := by
  obtain ⟨is, hw, hp⟩ := constSteps_puts (fits_rounds _ _) hk h
  refine ⟨is, hw, ?_⟩
  simp only [perform_constSteps] at hp
  exact hp

theorem mv_puts (hk : Keeps rd) (hint : rd.isFloat = false) (h : mv rd rs t a = .ok ((), a')) :
    ∃ is, Wrote is a a' ∧ Puts is rd [] fun m => m.get rs := by
  unfold mv at h
  by_cases heq : rd = rs
  · rw [if_pos heq] at h
    cases h
    exact ⟨[], wrote_nil a, heq ▸ puts_nil rd⟩
  · rw [if_neg heq, if_neg (by rw [hint]; decide)] at h
    obtain ⟨is, hw, hp⟩ := ri_puts (f := fun x y => x + y) rfl (fun _ _ => rfl) hk h
    refine ⟨is, hw, ?_⟩
    simp only [show (0 : Int64).toUInt64 = 0 from rfl, UInt64.add_zero] at hp
    exact hp

theorem injectSign_self (v : UInt64) : Op.fsgnjD.injectSign v v = some v := by
  show some (v &&& 0x7fffffffffffffff ||| v &&& 0x8000000000000000) = _
  have split : v &&& 0x7fffffffffffffff ||| v &&& 0x8000000000000000 = v &&& -1 := by
    apply UInt64.toBitVec_inj.mp
    exact (BitVec.and_or_distrib_left (x := v.toBitVec)).symm
  rw [split, UInt64.and_neg_one]

/-- A copy between float registers is the number with its own sign. -/
theorem mv_puts_float (hfloat : rd.isFloat = true) (h : mv rd rs t a = .ok ((), a')) :
    ∃ is, Wrote is a a' ∧ Puts is rd [] fun m => m.get rs := by
  unfold mv at h
  by_cases heq : rd = rs
  · rw [if_pos heq] at h
    cases h
    exact ⟨[], wrote_nil a, heq ▸ puts_nil rd⟩
  · rw [if_neg heq, if_pos hfloat] at h
    have hk : Keeps rd := by
      constructor <;> rintro rfl <;> cases hfloat
    refine ⟨_, wrote_emit h (by decide) rfl nofun nofun nofun rfl rfl, puts_one hk fun m => ?_⟩
    show (Op.fsgnjD.injectSign (m.get rs) (m.get rs)).map _ = _
    rw [injectSign_self]
    rfl

theorem addImm_puts (hk : Keeps rd) (ht : Keeps tmp) (h : addImm rd rs imm tmp t a = .ok ((), a')) :
    ∃ is, Wrote is a a' ∧ Puts is rd [tmp] fun m => m.get rs + imm.toUInt64 := by
  unfold addImm at h
  by_cases hsmall : isImm12 imm = true
  · rw [if_pos hsmall] at h
    by_cases hsome : (decide (imm ≠ 0) || decide (rd ≠ rs)) = true
    · rw [if_pos hsome] at h
      obtain ⟨is, hw, hp⟩ := ri_puts (f := fun x y => x + y) rfl (fun _ _ => rfl) hk h
      exact ⟨is, hw, hp.weaken (by simp)⟩
    · rw [if_neg hsome] at h
      cases h
      simp only [ne_eq, decide_not, Bool.or_eq_true, Bool.not_eq_eq_eq_not, Bool.not_true, decide_eq_false_iff_not,
        not_or, Decidable.not_not] at hsome
      obtain ⟨rfl, rfl⟩ := hsome
      refine ⟨[], wrote_nil a, ?_⟩
      simp only [show (0 : Int64).toUInt64 = 0 from rfl, UInt64.add_zero]
      exact (puts_nil rd).weaken (by simp)
  · rw [if_neg hsmall] at h
    obtain ⟨_, a0, hcheck, hbody⟩ := bind_eq_ok.mp h
    obtain ⟨hc, rfl⟩ := lift_eq_ok.mp hcheck
    have hne : tmp ≠ rs := of_decide_eq_true (check_eq_ok.mp hc)
    obtain ⟨_, a1, hli, hadd⟩ := bind_eq_ok.mp hbody
    obtain ⟨is, hw, hp⟩ := li_puts ht hli
    obtain ⟨js, hw', hp'⟩ := rr_puts (f := fun x y => x + y) rfl (fun _ _ => rfl) hk hadd
    refine ⟨is ++ js, hw.append hw', (hp.weaken (by simp)).puts (hp'.weaken (by simp)) (.inr (by simp)) ?_⟩
    intro m m1 hput
    have hrs : m1.get rs = m.get rs := hput.rest rs (Ne.symm hne) (by simpa using Ne.symm hne)
    rw [hput.value, hrs]

/-- What the high part of an offset leaves is its low part. -/
theorem add_high12_low12 (x : UInt64) (off : Int64) :
    (high12 off).toUInt64 + x + (low12 off).toUInt64 = x + off.toUInt64 := by
  have hsum : (high12 off).toUInt64 + (low12 off).toUInt64 = off.toUInt64 :=
    congrArg Int64.toUInt64 (high12_add_low12 off)
  rw [UInt64.add_comm _ x, UInt64.add_assoc, hsum]

variable {base : Reg}

/-- The high part of an offset on top of a base. -/
theorem far_puts {b a' : Assembler} (ht : Keeps tmp) (hne : tmp ≠ base) (hli : li tmp (high12 off) t a = .ok ((), b))
    (hadd : add tmp tmp base t b = .ok ((), a')) :
    ∃ is, Wrote is a a' ∧ Puts is tmp [] fun m => (high12 off).toUInt64 + m.get base := by
  obtain ⟨is, hw, hp⟩ := li_puts ht hli
  obtain ⟨js, hw', hp'⟩ := rr_puts (f := fun x y => x + y) rfl (fun _ _ => rfl) ht hadd
  refine ⟨is ++ js, hw.append hw', hp.puts hp' (.inl rfl) fun m m1 hput => ?_⟩
  rw [hput.value, hput.rest base (Ne.symm hne) (by simp)]

theorem loadOff_puts {n : Nat} (hf : o.info.format = .load) (hw : o.width = some n) (hk : Keeps rd)
    (ht : Keeps tmp) (h : loadOff o rd base off tmp t a = .ok ((), a')) :
    ∃ is, Wrote is a a' ∧ Puts is rd [tmp] fun m => o.extend (m.mem.read (m.get base + off.toUInt64) n) := by
  unfold loadOff at h
  by_cases hsmall : isImm12 off = true
  · rw [if_pos hsmall] at h
    obtain ⟨is, hwrote, hp⟩ := load_puts hf hw hk h
    exact ⟨is, hwrote, hp.weaken (by simp)⟩
  · rw [if_neg hsmall] at h
    obtain ⟨_, a0, hcheck, hbody⟩ := bind_eq_ok.mp h
    obtain ⟨hc, rfl⟩ := lift_eq_ok.mp hcheck
    have hne : tmp ≠ base := of_decide_eq_true (check_eq_ok.mp hc)
    obtain ⟨_, a1, hli, hrest⟩ := bind_eq_ok.mp hbody
    obtain ⟨_, a2, hadd, hload⟩ := bind_eq_ok.mp hrest
    obtain ⟨is, hwrote, hp⟩ := far_puts ht hne hli hadd
    obtain ⟨js, hwrote', hp'⟩ := load_puts hf hw hk hload
    refine ⟨is ++ js, hwrote.append hwrote', (hp.weaken (by simp)).puts (hp'.weaken (by simp)) (.inr (by simp)) ?_⟩
    intro m m1 hput
    rw [hput.value, hput.mem, add_high12_low12]

theorem storeOff_stores {src : Reg} {n : Nat} (hf : o.info.format = .store) (hw : o.width = some n)
    (ht : Keeps tmp) (h : storeOff o src base off tmp t a = .ok ((), a')) :
    ∃ is, Wrote is a a' ∧ Stores is [tmp] (fun m => m.get base + off.toUInt64) n fun m => m.get src := by
  unfold storeOff at h
  by_cases hsmall : isImm12 off = true
  · rw [if_pos hsmall] at h
    obtain ⟨is, hwrote, hs⟩ := store_stores hf hw h
    refine ⟨is, hwrote, fun F m hF => ?_⟩
    obtain ⟨m', hruns, hmem, hrest⟩ := hs F m hF
    exact ⟨m', hruns, hmem, fun r _ => hrest r (by simp)⟩
  · rw [if_neg hsmall] at h
    obtain ⟨_, a0, hcheck, hbody⟩ := bind_eq_ok.mp h
    obtain ⟨hc, rfl⟩ := lift_eq_ok.mp hcheck
    obtain ⟨hbase, hsrc⟩ := Bool.and_eq_true_iff.mp (check_eq_ok.mp hc)
    have hbase : tmp ≠ base := of_decide_eq_true hbase
    have hsrc : tmp ≠ src := of_decide_eq_true hsrc
    obtain ⟨_, a1, hli, hrest⟩ := bind_eq_ok.mp hbody
    obtain ⟨_, a2, hadd, hstore⟩ := bind_eq_ok.mp hrest
    obtain ⟨is, hwrote, hp⟩ := far_puts ht hbase hli hadd
    obtain ⟨js, hwrote', hs⟩ := store_stores hf hw hstore
    refine ⟨is ++ js, hwrote.append hwrote', fun F m hF => ?_⟩
    obtain ⟨m1, hruns, hput⟩ := hp F m
    have haddr : m1.get tmp + (low12 off).toUInt64 = m.get base + off.toUInt64 := by
      rw [hput.value, add_high12_low12]
    have hs1 := hs F m1
    simp only [haddr] at hs1
    obtain ⟨m', hruns', hmem, hrest⟩ := hs1 hF
    refine ⟨m', hruns.append hruns', ?_, ?_⟩
    · rw [hmem, hput.mem, hput.rest src (Ne.symm hsrc) (by simp)]
    · intro r hr
      rw [hrest r (by simp), hput.rest r (by simpa using hr) (by simp)]

end

end RiscvJit

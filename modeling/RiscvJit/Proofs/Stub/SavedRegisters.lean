import RiscvJit.Proofs.Code.Effects
import RiscvJit.Stub.Interrupt

/-
  RiscvJit.Proofs.Stub.SavedRegisters — a frame that holds every register holds it.

  Entering pushes the return address and the frame pointer (`does_enter`), leaving brings them back
  (`does_leave`). Below them every register
  has a slot of its own, so after `saveLiveRegisters` the results of the interrupted code are in
  theirs (`does_saveLiveRegisters`), and popping the frame brings them back
  (`does_restoreResultRegisters`), or all registers (`does_restoreLiveRegisters`).
-/

namespace RiscvJit

open Machine (Keeps)
open Reg (zr ra sp fp)
open Asm

/-- The machine has pushed the return address and the frame pointer. -/
structure Entered (m m' : Machine) : Prop where
  sp : m'.get sp = m.get sp - 16
  fp : m'.get fp = m.get Reg.sp - 16
  savedFp : m'.mem.read (m.get Reg.sp - 16) 8 = m.get Reg.fp
  savedRa : m'.mem.read (m.get Reg.sp - 8) 8 = m.get ra
  alters : Alters [Reg.sp, Reg.fp] (Spans ((m.get Reg.sp).toNat - 16) 16) m m'

/-- The machine has popped them from where its frame pointer points. -/
structure Departed (m m' : Machine) : Prop where
  sp : m'.get .sp = m.get .fp + 16
  fp : m'.get .fp = m.mem.read (m.get .fp) 8
  ra : m'.get .ra = m.mem.read (m.get .fp + 8) 8
  alters : Alters [.sp, .fp, .ra] (fun _ => False) m m'

namespace Site

variable {S : Site} {m : Machine} {E : Exits}

theorem does_enter {Q : Unit → Machine → Prop} (hroom : 16 ≤ (m.get sp).toNat)
    (hfree : ∀ addr, Spans ((m.get sp).toNat - 16) 16 addr → S.Free addr) (h : ∀ m', Entered m m' → Q () m') :
    S.Does enter m E Q := by
  have hlow : (m.get sp - 16).toNat = (m.get sp).toNat - 16 := toNat_back (k := 16) hroom
  have hra : m.get sp - 16 + 8 = m.get sp - 8 := by grind
  have hhigh : (m.get sp - 8).toNat = (m.get sp).toNat - 8 := toNat_back (k := 8) (by omega)
  have hsp := (m.get sp).toNat_lt
  refine .bind (does_addi fun m1 h1 => ?_)
  have hsp1 : m1.get sp = m.get sp - 16 := h1.value.trans (add_neg_toUInt64 _ 16)
  refine .bind (does_sdAt (a := m.get sp - 8) ?_ (by omega) (fun addr ha => hfree addr ?_) fun m2 h2 => ?_)
  · rw [hsp1, show (8 : Int64).toUInt64 = 8 from rfl, hra]
  · omega
  rw [h1.other _] at h2
  have hsp2 : m2.get sp = m.get sp - 16 := (h2.rest _ List.not_mem_nil).trans hsp1
  refine .bind (does_sdAt (a := m.get sp - 16) ?_ (by omega) (fun addr ha => hfree addr ?_) fun m3 h3 => ?_)
  · rw [hsp2, show (0 : Int64).toUInt64 = 0 from rfl, UInt64.add_zero]
  · omega
  rw [h2.rest _ List.not_mem_nil, h1.other _] at h3
  have hsp3 : m3.get sp = m.get sp - 16 := (h3.rest _ List.not_mem_nil).trans hsp2
  refine does_mv fun m4 h4 => h m4 ⟨?_, ?_, ?_, ?_, ?_⟩
  · rw [h4.other _, hsp3]
  · rw [h4.value, hsp3]
  · rw [h4.mem, h3.mem, read_write_eight]
  · rw [h4.mem, h3.mem, Ram.read_write_off _ _ (by omega) (by omega) (by omega), h2.mem, read_write_eight]
  · refine Alters.trans (h1.alters (by decide) (by simp)) (Alters.trans (h2.alters (by simp) (by omega) fun x hx => ?_)
      (Alters.trans (h3.alters (by simp) (by omega) fun x hx => ?_) (h4.alters (by decide) (by simp))))
    · omega
    · omega

theorem does_leave {Q : Unit → Machine → Prop} (h : ∀ m', Departed m m' → Q () m') : S.Does leave m E Q := by
  refine .bind (does_mv fun m1 h1 => .bind (does_ld fun m2 h2 => .bind (does_ld fun m3 h3 =>
    does_addi fun m4 h4 => h m4 ⟨?_, ?_, ?_, ?_⟩)))
  · rw [h4.value, h3.other _, h2.other _, h1.value]
    rfl
  · rw [h4.other _, h3.other _, h2.value, h1.value, h1.mem,
      show (0 : Int64).toUInt64 = 0 from rfl, UInt64.add_zero]
  · rw [h4.other _, h3.value, h2.other _, h2.mem, h1.value, h1.mem]
    rfl
  · exact Alters.trans (h1.alters (by decide) (by simp)) (Alters.trans (h2.alters (by decide) (by simp))
      (Alters.trans (h3.alters (by decide) (by simp)) (h4.alters (by decide) (by simp))))

end Site

/-! ## Every register -/

namespace RegisterSave

/-- Where a register is saved, from the stack pointer. -/
def place (r : Reg) : Location :=
  match slotOf r with
  | .ok off => .stack (off.toInt.toNat / 4)
  | .error _ => .nowhere

variable {r : Reg}

/-- The word of the area that is a register's. -/
def word : Reg → Nat
  | .f n => n
  | r => 32 + ints.idxOf r

/-- The words are given out in order. -/
theorem map_word : (floats ++ ints).map word = List.range 60 := by decide

theorem word_lt (hr : r ∈ floats ++ ints) : word r < 60 := by
  have hword := List.mem_map_of_mem (f := word) hr
  rw [map_word] at hword
  exact List.mem_range.mp hword

/-- All registers have a place but four integer registers. -/
theorem mem_saved : r ∈ floats ++ ints ↔ r ∉ [.none, zr, ra, sp, fp] := by
  cases r with
  | none => decide
  | f n => simp [floats, zr, ra, sp, fp]
  | x n =>
    revert n
    decide

theorem ne_of_saved (hr : r ∈ floats ++ ints) : r ≠ .none ∧ r ≠ zr ∧ r ≠ ra ∧ r ≠ sp ∧ r ≠ fp := by
  simpa using mem_saved.mp hr

theorem slotOf_saved (hr : r ∈ floats ++ ints) : slotOf r = .ok (Int64.ofNat (8 * word r)) := by
  obtain ⟨-, -, hra, -, hfp⟩ := ne_of_saved hr
  cases r with
  | none => exact absurd hr (by decide)
  | f n => rw [slotOf, word, Int64.ofNat_mul]; rfl
  | x n =>
    have hint : Reg.x n ∈ ints := (List.mem_append.mp hr).resolve_left (by simp [floats])
    show (if Reg.x n = fp then _ else if Reg.x n = ra then _ else if ints.contains (Reg.x n) then _ else _) = _
    rw [if_neg hfp, if_neg hra, if_pos (List.contains_iff_mem.mpr hint), word, Int64.ofNat_mul, Int64.ofNat_add]
    · rfl
    · intro _ h
      cases h

theorem place_of_saved (hr : r ∈ floats ++ ints) : place r = .stack (2 * word r) := by
  have hlt := word_lt hr
  rw [place, slotOf_saved hr]
  show Location.stack ((Int64.ofNat (8 * word r)).toInt.toNat / 4) = _
  rw [Int64.toInt_ofNat_of_lt (by omega)]
  congr 1
  omega

/-- Every register has a word of the area. -/
theorem word_of_saved (hr : r ∈ floats ++ ints) :
    ∃ k < 60, slotOf r = .ok (Int64.ofNat (8 * k)) ∧ place r = .stack (2 * k) :=
  ⟨word r, word_lt hr, slotOf_saved hr, place_of_saved hr⟩

theorem saved_apart : (floats ++ ints).Pairwise fun r r' => (place r').aliases (place r) = false := by
  have hascend : (floats ++ ints).Pairwise fun r r' => word r < word r' :=
    List.pairwise_map.mp (map_word ▸ List.pairwise_lt_range)
  refine hascend.imp_of_mem fun {r r'} hr hr' hlt => ?_
  rw [place_of_saved hr, place_of_saved hr']
  show (decide (2 * word r' < 2 * word r + 2) && _) = false
  rw [decide_eq_false (by omega), Bool.false_and]

end RegisterSave

open RegisterSave (place floats ints word_of_saved saved_apart mem_saved slotOf ne_of_saved areaSize)

namespace Site

variable {S : Site} {m : Machine} {E : Exits}

/-- A register is saved, at its own place or at that of another. -/
theorem does_saveRegister {o : Op} (src : Reg) {r : Reg} (hf : o.info.format = .store)
    (hw : o.width = some 8)
    (hr : r ∈ floats ++ ints) (hroom : (m.get sp).toNat + 480 ≤ 2 ^ 64)
    (hfree : ∀ addr, Spans (m.get sp).toNat 480 addr → S.Free addr) :
    S.Does (do store o src sp (← slotOf r)) m E fun _ m' =>
      Changed (m.get sp) [place r] [] m m' ∧ m'.at (m.get sp) (place r) = m.get src := by
  obtain ⟨k, hk, hslot, hplace⟩ := word_of_saved hr
  refine .bind (does_lift fun off hoff => ?_)
  rw [hslot] at hoff
  cases hoff
  rw [hplace]
  refine does_store hf hw (fun i hi => ?_) fun m' hstored => ?_
  · rw [Int64.toUInt64_ofNat']
    refine hfree _ ?_
    have := spans_off (a := m.get sp) (x := 8 * k) (n := 8) (by omega) hi
    omega
  · rw [Int64.toUInt64_ofNat', show 8 * k = 4 * (2 * k) by omega] at hstored
    refine ⟨hstored.changed (by omega) (by decide), ?_⟩
    show m'.mem.read _ 8 = _
    rw [hstored.mem, read_write_eight]

theorem does_saveRegisters {o : Op} {rs : List Reg} (hf : o.info.format = .store)
    (hw : o.width = some 8) (hrs : rs.Sublist (floats ++ ints)) (hroom : (m.get sp).toNat + 480 ≤ 2 ^ 64)
    (hfree : ∀ addr, Spans (m.get sp).toNat 480 addr → S.Free addr) :
    S.Does (rs.forM fun r => do store o r sp (← slotOf r)) m E fun _ m' =>
      Changed (m.get sp) (rs.map place) [] m m' ∧ ∀ r ∈ rs, m'.at (m.get sp) (place r) = m.get r := by
  have hmem {r : Reg} (hr : r ∈ rs) : r ∈ floats ++ ints := hrs.subset hr
  refine Does.deliver _ _ _ (P := fun r v => v = m.get r) (fun r hr => ?_) (fun _ _ => List.not_mem_nil)
    (saved_apart.sublist hrs) fun r hr m' hm' => ?_
  · obtain ⟨k, hk, -, hplace⟩ := word_of_saved (hmem hr)
    rw [hplace]
    show (m.get sp).toNat + 4 * (2 * k) + 8 ≤ 2 ^ 64
    omega
  · have hsame {r' : Reg} (hr' : r' ≠ .none) : m'.get r' = m.get r' := by
      refine hm'.regs r' List.not_mem_nil fun l hl => ?_
      obtain ⟨x, hx, rfl⟩ := List.mem_map.mp hl
      obtain ⟨k, -, -, hplace⟩ := word_of_saved (hmem hx)
      rw [hplace]
      exact hr'.symm
    have hsp : m'.get sp = m.get sp := hsame (by decide)
    have hone := does_saveRegister (S := S) (E := E) (m := m') r hf hw (hmem hr) (by rw [hsp]; exact hroom)
      (by rw [hsp]; exact hfree)
    rw [hsp, hsame (ne_of_saved (hmem hr)).1] at hone
    exact hone

end Site

/-- The bytes of the frame that holds every register, pushed at an address. -/
abbrev SaveFrame (top : UInt64) : UInt64 → Prop := Spans (top.toNat - 496) 496

/-- Every register is in its place of the frame. -/
structure Saved (m m' : Machine) : Prop where
  sp : m'.get sp = m.get sp - 496
  alters : Alters [Reg.sp, Reg.fp] (SaveFrame (m.get Reg.sp)) m m'
  places : ∀ r ∈ floats ++ ints, m'.at (m'.get Reg.sp) (place r) = m.get r
  savedFp : m'.mem.read (m.get Reg.sp - 16) 8 = m.get Reg.fp
  savedRa : m'.mem.read (m.get Reg.sp - 8) 8 = m.get ra

namespace Asm

instance traced_saveLiveRegisters : Traced saveLiveRegisters := by
  unfold saveLiveRegisters
  infer_instance

instance traced_popLinkage : Traced popLinkage := by
  unfold popLinkage
  infer_instance

instance traced_restoreLiveRegisters : Traced restoreLiveRegisters := by
  unfold restoreLiveRegisters
  infer_instance

instance traced_restoreResultRegisters : Traced restoreResultRegisters := by
  unfold restoreResultRegisters
  infer_instance

end Asm

namespace Site

variable {S : Site} {m : Machine} {E : Exits}

variable {base : UInt64} {r : Reg} {Q : Unit → Machine → Prop}

/-- A place among the saved registers is above the stack pointer. -/
theorem spans_of_place {addr : UInt64} (hr : r ∈ floats ++ ints) (h : (place r).Covers base addr) :
    Spans base.toNat 480 addr := by
  obtain ⟨k, hk, -, hplace⟩ := word_of_saved hr
  rw [hplace] at h
  simp only [Location.Covers, Spans] at h ⊢
  omega

theorem alters_of_places {rs : List Reg} {m m' : Machine} (hrs : rs.Sublist (floats ++ ints))
    (h : Changed base (rs.map place) [] m m') : Alters [] (Spans base.toNat 480) m m' := by
  refine ⟨fun r _ => ?_, fun addr hn => h.mem addr fun l hl hc => hn ?_⟩
  · by_cases hr : r = .none
    · rw [hr]
      rfl
    · refine h.regs r List.not_mem_nil fun l hl => ?_
      obtain ⟨x, hx, rfl⟩ := List.mem_map.mp hl
      obtain ⟨k, -, -, hplace⟩ := word_of_saved (hrs.subset hx)
      rw [hplace]
      exact Ne.symm hr
  · obtain ⟨x, hx, rfl⟩ := List.mem_map.mp hl
    exact spans_of_place (hrs.subset hx) hc

theorem does_saveLiveRegisters {Q : OopMap → Machine → Prop} (hroom : 496 ≤ (m.get sp).toNat)
    (hfree : ∀ addr, SaveFrame (m.get sp) addr → S.Free addr) (h : ∀ map m', Saved m m' → Q map m') :
    S.Does saveLiveRegisters m E Q := by
  have hin {lo n : Nat} {addr : UInt64} (ha : Spans lo n addr) (hlo : (m.get sp).toNat - 496 ≤ lo)
      (hn : lo + n ≤ (m.get sp).toNat) : SaveFrame (m.get sp) addr := by
    omega
  refine .bind (does_enter (by omega) (fun addr ha => hfree addr (hin ha (by omega) (by omega))) fun m1 h1 => ?_)
  refine .bind (does_addi fun m2 h2 => ?_)
  have hsp2 : m2.get sp = m.get sp - 496 := by
    rw [h2.value, h1.sp, show (-areaSize).toUInt64 = -480 from rfl, ← UInt64.sub_eq_add_neg]
    grind
  have hlow : (m2.get sp).toNat = (m.get sp).toNat - 496 := by rw [hsp2]; exact toNat_back (k := 496) hroom
  have hsmall := (m.get sp).toNat_lt
  have hsaves (addr : UInt64) (ha : Spans (m2.get sp).toNat 480 addr) : SaveFrame (m.get sp) addr :=
    hin ha (by omega) (by omega)
  refine .bind ((does_saveRegisters rfl rfl (List.sublist_append_left ..) (by omega)
    fun addr ha => hfree addr (hsaves addr ha)).imp (fun _ _ h => h) fun _ m3 ⟨hchanged3, hfloats⟩ => ?_)
  have halters3 := alters_of_places (List.sublist_append_left ..) hchanged3
  have hsp3 : m3.get sp = m2.get sp := halters3.regs _ List.not_mem_nil
  refine .bind ((does_saveRegisters (o := .sd) rfl rfl (List.sublist_append_right ..) (by rw [hsp3]; omega)
    fun addr ha => hfree addr (hsaves addr (by rwa [hsp3] at ha))).imp (fun _ _ h => h) fun _ m4 ⟨hchanged4, hints⟩ => ?_)
  rw [hsp3] at hchanged4 hints
  have halters4 := alters_of_places (List.sublist_append_right ..) hchanged4
  have hsp4 : m4.get sp = m2.get sp := (halters4.regs _ List.not_mem_nil).trans hsp3
  -- the linkage lies above the registers
  have hlinkage {addr : UInt64} (hlow : (m.get sp).toNat - 16 ≤ addr.toNat) (hend : addr.toNat + 8 ≤ 2 ^ 64) :
      m4.mem.read addr 8 = m1.mem.read addr 8 := by
    have habove (x : UInt64) (hx : Spans addr.toNat 8 x) : ¬ Spans (m2.get sp).toNat 480 x := by
      omega
    rw [halters4.read hend habove, halters3.read hend habove, h2.mem]
  have hback16 : (m.get sp - 16).toNat = (m.get sp).toNat - 16 := toNat_back (k := 16) (by omega)
  have hback8 : (m.get sp - 8).toNat = (m.get sp).toNat - 8 := toNat_back (k := 8) (by omega)
  refine does_lift fun map _ => h map m4 ⟨hsp4.trans hsp2, ?_, fun r hr => ?_,
    (hlinkage (by omega) (by omega)).trans h1.savedFp, (hlinkage (by omega) (by omega)).trans h1.savedRa⟩
  · refine (h1.alters.mono (fun _ h => h) fun addr ha => hin ha (by omega) (by omega)).trans ?_
    refine (h2.alters (by decide) (by simp)).trans ?_
    refine (halters3.mono (by simp) hsaves).trans (halters4.mono (by simp) hsaves)
  · -- neither pushing the frame nor saving the others changes the register
    obtain ⟨-, -, -, hnsp, hnfp⟩ := ne_of_saved hr
    have hsame : m2.get r = m.get r := by
      rw [h2.other r hnsp, h1.alters.regs r (by simp [hnsp, hnfp])]
    rw [hsp4]
    rcases List.mem_append.mp hr with hfloat | hint
    · rw [hchanged4.at_eq ?_ List.not_mem_nil fun l' hl' => ?_]
      · rw [hfloats r hfloat, hsame]
      · obtain ⟨k, hk, -, hplace⟩ := word_of_saved hr
        rw [hplace]
        show (m2.get sp).toNat + 4 * (2 * k) + 8 ≤ 2 ^ 64
        omega
      · obtain ⟨r', hr', rfl⟩ := List.mem_map.mp hl'
        exact (List.pairwise_append.mp saved_apart).2.2 r hfloat r' hr'
    · rw [hints r hint, halters3.regs r List.not_mem_nil, hsame]

/-- Popping the frame brings back the results. -/
structure ResultsRestored (m m' : Machine) : Prop where
  sp : m'.get sp = m.get sp + 496
  int : m'.get (.x 10) = m.at (m.get Reg.sp) (place (.x 10))
  float : m'.get (.f 10) = m.at (m.get Reg.sp) (place (.f 10))
  alters : Alters [.f 10, .x 10, Reg.sp, Reg.fp, Reg.ra] (fun _ => False) m m'

theorem does_restoreRegister {o : Op} (hf : o.info.format = .load) (hw : o.width = some 8)
    (hext : ∀ v, o.extend v = v) (hk : Keeps r) (hr : r ∈ floats ++ ints)
    (h : ∀ m', Put r [] (m.at (m.get sp) (place r)) m m' → Q () m') :
    S.Does (do load o r sp (← slotOf r)) m E Q := by
  obtain ⟨k, -, hslot, hplace⟩ := word_of_saved hr
  refine .bind (does_lift fun off hoff => ?_)
  rw [hslot] at hoff
  cases hoff
  refine does_load hf hw hk fun m' hput => h m' ?_
  rw [hext, Int64.toUInt64_ofNat', show 8 * k = 4 * (2 * k) by omega] at hput
  rw [hplace]
  exact hput

/-- Registers have what is in their places. -/
structure Reloaded (rs : List Reg) (m m' : Machine) : Prop where
  regs : ∀ r ∈ rs, m'.get r = m.at (m.get Reg.sp) (place r)
  rest : ∀ r, r ∉ rs → m'.get r = m.get r
  mem : m'.mem = m.mem

theorem at_place {m m' : Machine} (hr : r ∈ floats ++ ints) (hmem : m'.mem = m.mem) :
    m'.at base (place r) = m.at base (place r) := by
  obtain ⟨k, -, -, hplace⟩ := word_of_saved hr
  rw [hplace]
  exact congrArg (fun mem => Ram.read mem _ 8) hmem

theorem does_reloadRegisters {o : Op} {rs : List Reg} (hf : o.info.format = .load)
    (hw : o.width = some 8) (hext : ∀ v, o.extend v = v) (hrs : rs.Sublist (floats ++ ints)) :
    S.Does (rs.forM fun r => do load o r sp (← slotOf r)) m E fun _ => Reloaded rs m := by
  induction rs generalizing m with
  | nil => exact does_pure ⟨nofun, fun _ _ => rfl, rfl⟩
  | cons r rest ih =>
    have hr : r ∈ floats ++ ints := hrs.subset List.mem_cons_self
    obtain ⟨hnone, hnzr, -, hnsp, -⟩ := ne_of_saved hr
    show S.Does ((do load o r sp (← slotOf r)) >>= fun _ => rest.forM _) m E _
    refine .bind (does_restoreRegister hf hw hext ⟨hnzr, hnone⟩ hr fun m1 h1 => ?_)
    refine (ih ((List.sublist_cons_self r rest).trans hrs)).imp (fun _ _ h => h) fun _ m' h => ?_
    have hsp1 : m1.get sp = m.get sp := h1.other _ hnsp.symm
    have hplace {r' : Reg} (hr' : r' ∈ floats ++ ints) : m1.at (m1.get sp) (place r') = m.at (m.get sp) (place r') := by
      rw [hsp1, at_place hr' h1.mem]
    refine ⟨fun r' hr' => ?_, fun r' hr' => ?_, h.mem.trans h1.mem⟩
    · by_cases hlater : r' ∈ rest
      · rw [h.regs r' hlater, hplace (hrs.subset hr')]
      · rcases List.mem_cons.mp hr' with rfl | hlater'
        · rw [h.rest r' hlater, h1.value]
        · exact absurd hlater' hlater
    · obtain ⟨hne, hnot⟩ := not_or.mp fun h => hr' (List.mem_cons.mpr h)
      rw [h.rest r' hnot, h1.other r' hne]

/-- Popping the linkage. -/
structure Popped (m m' : Machine) : Prop where
  sp : m'.get sp = m.get sp + 496
  fp : m'.get fp = m.mem.read (m.get Reg.sp + 480) 8
  ra : m'.get ra = m.mem.read (m.get Reg.sp + 488) 8
  rest : ∀ r, r ∉ [Reg.sp, Reg.fp, Reg.ra] → m'.get r = m.get r
  mem : m'.mem = m.mem

theorem does_popLinkage (h : ∀ m', Popped m m' → Q () m') : S.Does popLinkage m E Q := by
  refine .bind (does_addi fun m1 h1 => .bind (does_ld fun m2 h2 => .bind (does_ld
    fun m3 h3 => does_addi fun m4 h4 => h m4 ?_)))
  have hsp1 : m1.get sp = m.get sp + 480 := h1.value
  have hsp2 : m2.get sp = m.get sp + 480 := (h2.other _).trans hsp1
  have hsp3 : m3.get sp = m.get sp + 480 := (h3.other _).trans hsp2
  refine ⟨?_, ?_, ?_, fun r hr => ?_, ?_⟩
  · rw [h4.value, hsp3, show (16 : Int64).toUInt64 = 16 from rfl, UInt64.add_assoc]
    rfl
  · rw [h4.other _, h3.other _, h2.value, hsp1, h1.mem,
      show (0 : Int64).toUInt64 = 0 from rfl, UInt64.add_zero]
  · rw [h4.other _, h3.value, hsp2, h2.mem, h1.mem, show (8 : Int64).toUInt64 = 8 from rfl,
      UInt64.add_assoc]
    rfl
  · simp only [List.mem_cons, List.not_mem_nil, or_false, not_or] at hr
    obtain ⟨hnsp, hnfp, hnra⟩ := hr
    rw [h4.other _ hnsp, h3.other _ hnra, h2.other _ hnfp,
      h1.other _ hnsp]
  · rw [h4.mem, h3.mem, h2.mem, h1.mem]

/-- Popping the frame brings back every register. -/
structure Restored (m m' : Machine) : Prop where
  sp : m'.get sp = m.get sp + 496
  fp : m'.get fp = m.mem.read (m.get Reg.sp + 480) 8
  ra : m'.get ra = m.mem.read (m.get Reg.sp + 488) 8
  regs : ∀ r ∈ floats ++ ints, m'.get r = m.at (m.get Reg.sp) (place r)
  mem : m'.mem = m.mem

theorem does_restoreLiveRegisters (h : ∀ m', Restored m m' → Q () m') : S.Does restoreLiveRegisters m E Q := by
  refine .bind ((does_reloadRegisters rfl rfl (fun _ => rfl) (List.sublist_append_left ..)).imp
    (fun _ _ h => h)
    fun _ m1 h1 => ?_)
  refine .bind ((does_reloadRegisters (o := .ld) rfl rfl (fun _ => rfl) (List.sublist_append_right ..)).imp
    (fun _ _ h => h) fun _ m2 h2 => ?_)
  have hkept {r : Reg} (hr : r ∉ floats ++ ints) : m2.get r = m.get r := by
    obtain ⟨hfloat, hint⟩ := not_or.mp fun h => hr (List.mem_append.mpr h)
    rw [h2.rest r hint, h1.rest r hfloat]
  have hsp1 : m1.get sp = m.get sp := h1.rest _ (by decide)
  have hsp2 : m2.get sp = m.get sp := hkept fun h => (ne_of_saved h).2.2.2.1 rfl
  have hmem : m2.mem = m.mem := h2.mem.trans h1.mem
  refine does_popLinkage fun m3 h3 => h m3 ⟨by rw [h3.sp, hsp2], by rw [h3.fp, hsp2, hmem], by rw [h3.ra, hsp2, hmem],
    fun r hr => ?_, h3.mem.trans hmem⟩
  obtain ⟨-, -, hnra, hnsp, hnfp⟩ := ne_of_saved hr
  rw [h3.rest r (by simp [hnsp, hnfp, hnra])]
  by_cases hint : r ∈ ints
  · rw [h2.regs r hint, hsp1, at_place hr h1.mem]
  · rw [h2.rest r hint, h1.regs r ((List.mem_append.mp hr).resolve_right hint)]

theorem does_restoreResultRegisters (h : ∀ m', ResultsRestored m m' → Q () m') : S.Does restoreResultRegisters m E Q := by
  have hshape : restoreResultRegisters = (do load .fld (.f 10) sp (← slotOf (.f 10))) >>= fun _ =>
      (do load .ld (.x 10) sp (← slotOf (.x 10))) >>= fun _ => popLinkage := by
    simp only [restoreResultRegisters, ld, bind_assoc]
  rw [hshape]
  refine .bind (does_restoreRegister rfl rfl (fun _ => rfl) (by decide)
    (mem_saved.mpr (by decide)) fun m1 h1 => ?_)
  refine .bind (does_restoreRegister rfl rfl (fun _ => rfl) (by decide)
    (mem_saved.mpr (by decide)) fun m2 h2 => ?_)
  have hsp1 : m1.get sp = m.get sp := h1.other _
  have hint : m1.at (m1.get sp) (place (.x 10)) = m.at (m.get sp) (place (.x 10)) := by
    obtain ⟨k, -, -, hplace⟩ := word_of_saved (r := .x 10) (mem_saved.mpr (by decide))
    rw [hplace, hsp1]
    show m1.mem.read _ 8 = m.mem.read _ 8
    rw [h1.mem]
  rw [hint] at h2
  refine does_popLinkage fun m3 h3 => h m3 ⟨?_, ?_, ?_, ?_⟩
  · rw [h3.sp, h2.other _, hsp1]
  · rw [h3.rest _ (by decide), h2.value]
  · rw [h3.rest _ (by decide), h2.other _, h1.value]
  · exact (h1.alters (by decide) (by simp)).trans ((h2.alters (by decide) (by simp)).trans
      ⟨fun r hr => h3.rest r fun hmem => hr (List.mem_of_mem_drop (i := 2) hmem), fun addr _ => by rw [h3.mem]⟩)

end Site

end RiscvJit

import RiscvJit.Proofs.Code.Effects
import RiscvJit.Proofs.Code.Finished
import RiscvJit.Proofs.Lower.Hierarchy
import RiscvJit.Stub.SubtypeScan

/-
  RiscvJit.Proofs.Stub.SubtypeScan — the scan finds a type among the secondary supers.

  The caller has pushed two words, and memory lists others in an array behind the first (`Found`). While
  the scan runs, its frame holds the registers that it borrows (`Inside`), and some elements have been
  looked at (`Scanning`). In the end the answer stands where the supertype was (`Settled`). Nothing is
  asked of the words themselves, and addresses count modulo 2 ^ 64, so ranges are told by the distance
  from their beginning (`Follows`).

  Where memory holds descriptors (`Asked`), the words are theirs, and the scan tells whether a class lists
  a type (`ScanAnswered`); the cache of the class then holds a secondary super, so descriptors are still as
  they should be.
-/

namespace RiscvJit

open Reg (zr ra sp t0 t1)
open Asm
open Site
open Machine (get_withPc)
open Ram

/-! ## Distances -/

/-- The address is one of `n` bytes from another on, past the end of memory too. -/
abbrev Follows (a : UInt64) (n : Nat) (x : UInt64) : Prop := (x - a).toNat < n

section
variable {a x v : UInt64} {n k i : Nat} {mem : Ram}

theorem follows_at (hi : i < n) (hn : n ≤ 2 ^ 64) : Follows a n (a + UInt64.ofNat i) := by
  unfold Follows
  rw [add_sub_self, UInt64.toNat_ofNat', Nat.mod_eq_of_lt (by omega)]
  exact hi

theorem Follows.off (h : Follows (a + UInt64.ofNat k) n x) (hk : k + n ≤ 2 ^ 64) : Follows a (k + n) x := by
  have hx : x = a + UInt64.ofNat (k + (x - (a + UInt64.ofNat k)).toNat) := by
    rw [UInt64.ofNat_add, UInt64.ofNat_toNat, ← UInt64.add_assoc, UInt64.add_comm, UInt64.sub_add_cancel]
  rw [hx]
  exact follows_at (by omega) hk

theorem follows_iff (hn : a.toNat + n ≤ 2 ^ 64) : Follows a n x ↔ Spans a.toNat n x := by
  have := x.toNat_lt
  have := a.toNat_lt
  unfold Follows Spans
  rw [UInt64.toNat_sub]
  omega

theorem Ram.write_follows (mem : Ram) (h : ¬ Follows a n x) : mem.write a n v x = mem x :=
  write_outside mem v (Nat.le_of_not_lt h)

end

namespace SubtypeScan

/-! ## What is asked -/

section
variable (m : Machine)

/-- The subtype that the caller has pushed. -/
def pushedSub : UInt64 := m.mem.read (m.get sp + 8) 8

/-- The supertype that the caller has pushed. -/
def pushedSuper : UInt64 := m.mem.read (m.get sp) 8

/-- The array of secondary supers. -/
def array : UInt64 := m.mem.read (pushedSub m + UInt64.ofNat 0x28) 8

/-- How many secondary supers there are. -/
def length : Nat := (m.mem.read (array m) 4).toNat

/-- A secondary super. -/
def element (i : Nat) : UInt64 := m.mem.read (array m + UInt64.ofNat (8 + 8 * i)) 8

/-- The supertype occurs in the array. -/
def Found : Prop := ∃ i < length m, element m i = pushedSuper m

instance : Decidable (Found m) := inferInstanceAs (Decidable (∃ i < length m, element m i = pushedSuper m))

/-- Memory with the supertype in the cache of the subtype, if it was found. -/
def noted : Ram := if Found m then m.mem.write (pushedSub m + UInt64.ofNat 0x20) 8 (pushedSuper m) else m.mem

/-- The address is one of the frame of the scan or of the word of the supertype. -/
abbrev Frame : UInt64 → Prop := Follows (m.get sp - 32) 40

/-- The scan looks there: at the cache and the array of the subtype. -/
def Consults (x : UInt64) : Prop :=
  Follows (pushedSub m + UInt64.ofNat 0x20) 16 x ∨ Follows (array m) (8 + 8 * length m) x

end

/-- The frame is apart from what the scan looks at, and the scan writes over nothing else that counts. -/
structure Posed (Clear : UInt64 → Prop) (m : Machine) : Prop where
  free : ∀ x, Frame m x ∨ Follows (pushedSub m + UInt64.ofNat 0x20) 8 x → Clear x
  apart : ∀ x, Consults m x → ¬ Frame m x

/-- The scan has returned with its answer. -/
structure Answered (m m' : Machine) : Prop where
  pc : m'.pc = m.get ra &&& ~~~1
  answer : m'.mem.read (m.get sp) 8 = if Found m then 1 else 0
  regs : ∀ r, r ∉ [t0, t1] → m'.get r = m.get r
  mem : ∀ x, ¬ Frame m x → m'.mem x = noted m x

/-! ## On the way -/

/-- The registers that the scan works with. -/
def borrowed : List Reg := [.x 28, .x 29, .x 30]

/-- The frame of the scan holds what it borrowed; beside the frame memory is as told. -/
structure Inside (mem : Ram) (m m' : Machine) : Prop where
  frame : m'.get sp = m.get sp - 32
  saved : ∀ i r, borrowed[i]? = some r → m'.mem.read (m.get sp - 32 + UInt64.ofNat (8 * i)) 8 = m.get r
  regs : ∀ r, r ∉ [t0, t1, sp] ++ borrowed → m'.get r = m.get r
  mem : ∀ x, ¬ Frame m x → m'.mem x = mem x

/-- Some elements of the array are not the supertype; the others are left. -/
structure Scanning (i : Nat) (m m' : Machine) : Prop where
  inside : Inside m.mem m m'
  subtype : m'.get (.x 28) = pushedSub m
  supertype : m'.get (.x 29) = pushedSuper m
  cur : m'.get (.x 30) = array m + UInt64.ofNat (8 + 8 * i)
  left : m'.get t1 = UInt64.ofNat (length m - i)
  missed : ∀ j < i, element m j ≠ pushedSuper m

/-- The answer is given. -/
structure Settled (m m' : Machine) : Prop where
  inside : Inside (noted m) m m'
  answer : m'.mem.read (m.get sp) 8 = if Found m then 1 else 0

section
variable {mem : Ram} {m m1 m2 : Machine} {i : Nat}

theorem length_lt (m : Machine) : length m < 2 ^ 32 := toNat_read_lt m.mem (array m) (by decide)

theorem Inside.put (h : Inside mem m m1) {r : Reg} {v : UInt64} (hput : Put r [] v m1 m2)
    (hr : r ∈ [t0, t1] ++ borrowed) :
    Inside mem m m2 where
  frame := by
    rw [hput.other _ (by rintro rfl; exact absurd hr (by decide)), h.frame]
  saved i r hi := by rw [hput.mem, h.saved i r hi]
  regs s hs := by
    rw [hput.other _ ?_, h.regs s hs]
    rintro rfl
    rcases List.mem_append.mp hr with hr | hr
    · exact hs (List.mem_append_left _ (List.mem_append_left [sp] hr))
    · exact hs (List.mem_append_right _ hr)
  mem x hx := by rw [hput.mem, h.mem x hx]

theorem Inside.withPc (h : Inside mem m m1) (p : UInt64) : Inside mem m { m1 with pc := p } :=
  ⟨(get_withPc ..).trans h.frame, h.saved, fun r hr => (get_withPc ..).trans (h.regs r hr), h.mem⟩

theorem Scanning.withPc (h : Scanning i m m1) (p : UInt64) : Scanning i m { m1 with pc := p } :=
  ⟨h.inside.withPc p, (get_withPc ..).trans h.subtype, (get_withPc ..).trans h.supertype,
    (get_withPc ..).trans h.cur, (get_withPc ..).trans h.left, h.missed⟩

variable {Free : UInt64 → Prop} {a v : UInt64} {n k : Nat}

/-- What the scan looks at is still there. -/
theorem Inside.read (h : Inside m.mem m m1) (hm : Posed Free m) (ha : ∀ i < n, Consults m (a + UInt64.ofNat i)) :
    m1.mem.read a n = m.mem.read a n := read_congr fun i hi => h.mem _ (hm.apart _ (ha i hi))

theorem consults_word (hk : k + n ≤ 16) (hi : i < n) :
    Consults m (pushedSub m + UInt64.ofNat (0x20 + k) + UInt64.ofNat i) := by
  refine .inl ?_
  rw [← off_off, off_off _ k]
  exact follows_at (by omega) (by decide)

theorem consults_entry (hk : k + n ≤ 8 + 8 * length m) (hi : i < n) :
    Consults m (array m + UInt64.ofNat k + UInt64.ofNat i) := by
  have := length_lt m
  refine .inr ?_
  rw [off_off]
  exact follows_at (by omega) (by omega)

/-- A word on the stack that was not stored to. -/
theorem read_apart {k y : Nat} (hs : Stored [] (m.get sp - 32 + UInt64.ofNat y) 8 v m1 m2)
    (h : k + 8 ≤ y ∨ y + 8 ≤ k) (hk : k ≤ 40) (hy : y ≤ 32) :
    m2.mem.read (m.get sp - 32 + UInt64.ofNat k) 8 = m1.mem.read (m.get sp - 32 + UInt64.ofNat k) 8 := by
  rw [hs.mem, read_write_apart _ _ _ (by omega)]

theorem answer_eq (m : Machine) : m.get sp - 32 + UInt64.ofNat 32 = m.get sp := UInt64.sub_add_cancel ..

end

section
variable {S : Site} {m m1 : Machine} {E : Exits} {Q : Unit → Machine → Prop} {i : Nat}

/-- A word of the frame, or of the answer, is stored. -/
theorem does_frameWord (hm : Posed S.Free m) {src : Reg} {off : Int64} {k : Nat} (hoff : off.toUInt64 = UInt64.ofNat k)
    (hk : k + 8 ≤ 40) (hsp : m1.get sp = m.get sp - 32)
    (h : ∀ m2, Stored [] (m.get sp - 32 + UInt64.ofNat k) 8 (m1.get src) m1 m2 →
      (∀ x, ¬ Frame m x → m2.mem x = m1.mem x) → Q () m2) : S.Does (sd src sp off) m1 E Q := by
  have haddr : m1.get sp + off.toUInt64 = m.get sp - 32 + UInt64.ofNat k := by rw [hsp, hoff]
  refine does_sd (fun i hi => ?_) fun m2 h2 => ?_
  · rw [haddr, off_off]
    exact hm.free _ (.inl (follows_at (by omega) (by decide)))
  · rw [haddr] at h2
    refine h m2 h2 fun x hx => ?_
    rw [h2.mem, write_follows _ fun hin => hx (Nat.lt_of_lt_of_le (hin.off (by omega)) hk)]

/-- The prologue saves what the scan borrows and goes to the first element. -/
theorem does_openScan (hm : Posed S.Free m) (h : ∀ m', Scanning 0 m m' → Q () m') : S.Does (do
      addi sp sp (-32)
      sd (.x 28) sp 0
      sd (.x 29) sp 8
      sd (.x 30) sp 16
      ld (.x 28) sp 40
      ld (.x 29) sp 32
      ld (.x 30) (.x 28) klassLayout.secondarySupers
      lwu t1 (.x 30) secondarySupersLength
      addi (.x 30) (.x 30) secondarySupersData) m E Q := by
  refine .bind (does_addi fun m1 h1 => ?_)
  have hsp1 : m1.get sp = m.get sp - 32 := h1.value.trans (add_neg_toUInt64 _ 32)
  refine .bind (does_frameWord hm (k := 0) rfl (by decide) hsp1 fun m2 h2 hx2 => ?_)
  have hsp2 := (h2.rest _ List.not_mem_nil).trans hsp1
  refine .bind (does_frameWord hm (k := 8) rfl (by decide) hsp2 fun m3 h3 hx3 => ?_)
  have hsp3 := (h3.rest _ List.not_mem_nil).trans hsp2
  refine .bind (does_frameWord hm (k := 16) rfl (by decide) hsp3 fun m4 h4 hx4 => ?_)
  have hreg {r : Reg} (hr : r ≠ sp) : m4.get r = m.get r := by
    rw [h4.rest _ List.not_mem_nil, h3.rest _ List.not_mem_nil, h2.rest _ List.not_mem_nil, h1.other _ hr]
  have hin4 : Inside m.mem m m4 := by
    refine ⟨(h4.rest _ List.not_mem_nil).trans hsp3, fun i r hi => ?_, fun r hr => hreg ?_, fun x hx => ?_⟩
    · match i, hi with
      | 0, hi =>
        cases hi
        rw [read_apart h4 (by decide) (by decide) (by decide), read_apart h3 (by decide) (by decide) (by decide), h2.mem,
          read_write_eight, h1.other _]
      | 1, hi =>
        cases hi
        rw [read_apart h4 (by decide) (by decide) (by decide), h3.mem, read_write_eight,
          h2.rest _ List.not_mem_nil, h1.other _]
      | 2, hi =>
        cases hi
        rw [h4.mem, read_write_eight, h3.rest _ List.not_mem_nil, h2.rest _ List.not_mem_nil, h1.other _]
    · rintro rfl
      exact hr (by decide)
    · rw [hx4 x hx, hx3 x hx, hx2 x hx, h1.mem]
  have hpushed {n : Nat} (hn : 32 ≤ n) (hn' : n ≤ 40) : m4.mem.read (m.get sp - 32 + UInt64.ofNat n) 8 =
      m.mem.read (m.get sp - 32 + UInt64.ofNat n) 8 := by
    rw [read_apart h4 (by omega) hn' (by decide), read_apart h3 (by omega) hn' (by decide),
      read_apart h2 (by omega) hn' (by decide), h1.mem]
  refine .bind (does_ld fun m5 h5 => ?_)
  have hsub : m5.get (.x 28) = pushedSub m := by
    rw [h5.value, hin4.frame, show (40 : Int64).toUInt64 = UInt64.ofNat 40 from rfl, hpushed (by decide) (by decide),
      show UInt64.ofNat 40 = UInt64.ofNat 32 + 8 from rfl, ← UInt64.add_assoc, answer_eq]
    rfl
  have hin5 := hin4.put h5 (by decide)
  refine .bind (does_ld fun m6 h6 => ?_)
  have hsuper : m6.get (.x 29) = pushedSuper m := by
    rw [h6.value, hin5.frame, h5.mem, show (32 : Int64).toUInt64 = UInt64.ofNat 32 from rfl,
      hpushed (by decide) (by decide), answer_eq]
    rfl
  have hin6 := hin5.put h6 (by decide)
  refine .bind (does_ld fun m7 h7 => ?_)
  have harray : m7.get (.x 30) = array m := by
    rw [h7.value, h6.other _, hsub]
    exact hin6.read hm fun i hi => consults_word (k := 8) (by decide) hi
  have hin7 := hin6.put h7 (by decide)
  refine .bind (does_lwu (by decide) fun m8 h8 => ?_)
  have hleft : m8.get t1 = UInt64.ofNat (length m) := by
    rw [h8.value, harray, show secondarySupersLength.toUInt64 = UInt64.ofNat 0 from rfl,
      hin7.read hm fun i hi => consults_entry (n := 4) (by omega) hi, length, UInt64.ofNat_toNat]
    exact congrArg (m.mem.read · 4) (UInt64.add_zero _)
  have hin8 := hin7.put h8 (by decide)
  refine does_addi fun m9 h9 => h m9 ⟨hin8.put h9 (by decide), ?_, ?_, ?_, ?_, nofun⟩
  · rw [h9.other _, h8.other _, h7.other _, h6.other _, hsub]
  · rw [h9.other _, h8.other _, h7.other _, hsuper]
  · rw [h9.value, h8.other _, harray]
    rfl
  · rw [h9.other _, hleft]
    rfl

/-- One element is looked at: it is the supertype, or the scan goes on behind it. -/
theorem does_scanElement {loop hit miss : Label} (hloop : S.Binds loop) (hhit : S.Binds hit) (hmiss : S.Binds miss)
    (hm : Posed S.Free m) (h : Scanning i m m1)
    (hagain : ∀ m', i < length m → Scanning (i + 1) m m' → E (.label loop) m')
    (hfound : ∀ m', Scanning i m m' → Found m → E (.label hit) m')
    (hnone : ∀ m', Scanning i m m' → ¬ Found m → E (.label miss) m') : S.Does (do
      branch .beq t1 zr miss
      ld t0 (.x 30) 0
      branch .beq t0 (.x 29) hit
      addi (.x 30) (.x 30) 8
      addi t1 t1 (-1)
      Asm.j loop) m1 E Q := by
  have hlength := length_lt m
  have hleft : m1.get t1 = 0 ↔ length m ≤ i := by
    rw [h.left, ← UInt64.toNat_inj, UInt64.toNat_ofNat', UInt64.toNat_zero]
    omega
  refine .bind (does_branch rfl hmiss (fun htaken p => ?_) fun hnot p => ?_)
  · -- nothing is left
    have hend := hleft.mp (of_decide_eq_true htaken)
    exact hnone _ (h.withPc p) fun ⟨j, hj, heq⟩ => h.missed j (by omega) heq
  have hi : i < length m := Nat.lt_of_not_le fun hle => of_decide_eq_false hnot (hleft.mpr hle)
  have h := h.withPc p
  generalize ({ m1 with pc := p } : Machine) = m2 at h ⊢
  refine .bind (does_ld fun m3 h3 => ?_)
  have hentry : m3.get t0 = element m i := by
    rw [h3.value, h.cur, show (0 : Int64).toUInt64 = 0 from rfl, UInt64.add_zero]
    exact h.inside.read hm fun j hj => consults_entry (by omega) hj
  have h' : Scanning i m m3 := ⟨h.inside.put h3 (by decide), (h3.other _).trans h.subtype, (h3.other _).trans h.supertype,
    (h3.other _).trans h.cur, (h3.other _).trans h.left, h.missed⟩
  refine .bind (does_branch rfl hhit (fun htaken p => ?_) fun hnot p => ?_)
  · refine hfound _ (h'.withPc p) ⟨i, hi, ?_⟩
    rw [← hentry, ← h'.supertype]
    exact of_decide_eq_true htaken
  have hne : element m i ≠ pushedSuper m := by
    rw [← hentry, ← h'.supertype]
    exact of_decide_eq_false hnot
  have h' := h'.withPc p
  generalize ({ m3 with pc := p } : Machine) = m4 at h' ⊢
  refine .bind (does_addi fun m5 h5 => .bind (does_addi fun m6 h6 => ?_))
  have hin6 := (h'.inside.put h5 (by decide)).put h6 (by decide)
  refine does_j hloop fun p => hagain _ hi ⟨hin6.withPc p, ?_, ?_, ?_, ?_, fun j hj => ?_⟩
  · rw [get_withPc, h6.other _, h5.other _, h'.subtype]
  · rw [get_withPc, h6.other _, h5.other _, h'.supertype]
  · rw [get_withPc, h6.other _, h5.value, h'.cur]
    exact off_off _ _ 8
  · rw [get_withPc, h6.value, h5.other _, h'.left, show length m - i = length m - (i + 1) + 1 by omega, UInt64.ofNat_add,
      UInt64.add_assoc]
    exact UInt64.add_zero _
  · rcases Nat.lt_succ_iff_lt_or_eq.mp hj with hlt | rfl
    · exact h'.missed j hlt
    · exact hne

/-- The answer is written over the supertype. -/
theorem does_answer (hm : Posed S.Free m) (h : Inside (noted m) m m1) {src : Reg}
    (hv : m1.get src = if Found m then 1 else 0)
    (hQ : ∀ m', Settled m m' → Q () m') : S.Does (sd src sp 32) m1 E Q := by
  refine does_frameWord hm (k := 32) rfl (by decide) h.frame fun m2 h2 hx2 =>
    hQ m2 ⟨⟨(h2.rest _ List.not_mem_nil).trans h.frame, fun i r hi => ?_, fun r hr => ?_, fun x hx => ?_⟩, ?_⟩
  · have hlt : i < 3 := (List.getElem?_eq_some_iff.mp hi).1
    rw [read_apart h2 (by omega) (by omega) (by decide), h.saved i r hi]
  · rw [h2.rest _ List.not_mem_nil, h.regs r hr]
  · rw [hx2 x hx, h.mem x hx]
  · rw [h2.mem, answer_eq, read_write_eight, hv]

/-- The supertype is noted in the cache, and the answer is yes. -/
theorem does_hit (hm : Posed S.Free m) (h : Scanning i m m1) (hfound : Found m) {finish : Label}
    (hl : S.Binds finish) (hQ : ∀ m', Settled m m' → E (.label finish) m') : S.Does (do
      sd (.x 29) (.x 28) klassLayout.secondarySuperCache
      li t0 1
      sd t0 sp 32
      Asm.j finish) m1 E Q := by
  have haddr : m1.get (.x 28) + klassLayout.secondarySuperCache.toUInt64 = pushedSub m + UInt64.ofNat 0x20 := by
    rw [h.subtype]
    rfl
  refine .bind (does_sd (fun i hi => ?_) fun m2 h2 => ?_)
  · rw [haddr]
    exact hm.free _ (.inr (follows_at hi (by decide)))
  rw [haddr, h.supertype] at h2
  have hin2 : Inside (noted m) m m2 := by
    refine ⟨(h2.rest _ List.not_mem_nil).trans h.inside.frame, fun i r hi => ?_, fun r hr => ?_, fun x hx => ?_⟩
    · have hlt : i < 3 := (List.getElem?_eq_some_iff.mp hi).1
      rw [← h.inside.saved i r hi, h2.mem]
      refine read_congr fun j hj => write_follows _ fun hin => hm.apart _ (.inl (Nat.lt_trans hin (by decide))) ?_
      rw [off_off]
      exact follows_at (by omega) (by decide)
    · rw [h2.rest _ List.not_mem_nil, h.inside.regs r hr]
    · rw [h2.mem, noted, if_pos hfound]
      unfold Ram.write
      rw [h.inside.mem x hx]
  refine .bind (does_li fun m3 h3 => .bind ?_)
  refine does_answer hm (hin2.put h3 (by decide)) ?_ fun m4 h4 => does_j hl fun p => hQ _ ⟨h4.inside.withPc p, h4.answer⟩
  rw [h3.value, if_pos hfound]
  rfl

/-- What was borrowed is given back, and the scan returns. -/
theorem does_closeScan (h : Settled m m1) (hQ : ∀ m', Answered m m' → E .away m') : S.Does (do
      ld (.x 28) sp 0
      ld (.x 29) sp 8
      ld (.x 30) sp 16
      addi sp sp 32
      ret) m1 E Q := by
  have hin := h.inside
  refine .bind (does_ld fun m2 h2 => .bind (does_ld fun m3 h3 =>
    .bind (does_ld fun m4 h4 => .bind (does_addi fun m5 h5 => ?_))))
  have hin2 := hin.put h2 (by decide)
  have hin3 := hin2.put h3 (by decide)
  have hin4 := hin3.put h4 (by decide)
  have hmem : m5.mem = m1.mem := h5.mem.trans (h4.mem.trans (h3.mem.trans h2.mem))
  have hregs : ∀ r, r ∉ [t0, t1] → m5.get r = m.get r := by
    intro r hr
    by_cases hsp : r = sp
    · subst hsp
      rw [h5.value, hin4.frame]
      exact answer_eq m
    rw [h5.other r hsp]
    by_cases h30 : r = .x 30
    · subst h30
      rw [h4.value, hin3.frame, h3.mem, h2.mem]
      exact hin.saved 2 _ rfl
    rw [h4.other r h30]
    by_cases h29 : r = .x 29
    · subst h29
      rw [h3.value, hin2.frame, h2.mem]
      exact hin.saved 1 _ rfl
    rw [h3.other r h29]
    by_cases h28 : r = .x 28
    · subst h28
      rw [h2.value, hin.frame]
      exact hin.saved 0 _ rfl
    rw [h2.other r h28]
    refine hin.regs r fun hmem => ?_
    simp only [borrowed, List.cons_append, List.nil_append, List.mem_cons, List.not_mem_nil, or_false] at hmem hr
    tauto
  refine does_jr (hQ _ ⟨?_, ?_, fun r hr => ?_, fun x hx => ?_⟩)
  · rw [hregs _ (by decide)]
  · rw [← h.answer, hmem]
  · rw [get_withPc, hregs r hr]
  · rw [hmem, hin.mem x hx]

theorem does_scan (hm : Posed S.Free m) :
    S.Does Stub.subtypeScanBody m (Exits.none.or .away (Answered m)) fun _ _ => False := by
  -- one label inside the other, each with what comes behind it
  have hshape : Stub.subtypeScanBody = (do
      let loop ← newLabel
      let hit ← newLabel
      let miss ← newLabel
      let finish ← newLabel
      ((((do
        addi sp sp (-32)
        sd (.x 28) sp 0
        sd (.x 29) sp 8
        sd (.x 30) sp 16
        ld (.x 28) sp 40
        ld (.x 29) sp 32
        ld (.x 30) (.x 28) klassLayout.secondarySupers
        lwu t1 (.x 30) secondarySupersLength
        addi (.x 30) (.x 30) secondarySupersData)
      >>= fun _ => Asm.bind loop >>= fun _ => do
        branch .beq t1 zr miss
        ld t0 (.x 30) 0
        branch .beq t0 (.x 29) hit
        addi (.x 30) (.x 30) 8
        addi t1 t1 (-1)
        Asm.j loop)
      >>= fun _ => Asm.bind hit >>= fun _ => do
        sd (.x 29) (.x 28) klassLayout.secondarySuperCache
        li t0 1
        sd t0 sp 32
        Asm.j finish)
      >>= fun _ => Asm.bind miss >>= fun _ => sd zr sp 32)
      >>= fun _ => Asm.bind finish >>= fun _ => do
        ld (.x 28) sp 0
        ld (.x 29) sp 8
        ld (.x 30) sp 16
        addi sp sp 32
        ret) := by
    simp only [Stub.subtypeScanBody, bind_assoc]
  rw [hshape]
  refine .bind (does_newLabel fun loop => .bind (does_newLabel fun hit => .bind (does_newLabel fun miss =>
    .bind (does_newLabel fun finish => .label fun hfinish => .label fun hmiss => .label fun hhit => ?_))))
  have hclose {m' : Machine} (h : Settled m m') {Q : Unit → Machine → Prop} : S.Does (do
      ld (.x 28) sp 0
      ld (.x 29) sp 8
      ld (.x 30) sp 16
      addi sp sp 32
      ret) m' (Exits.none.or .away (Answered m)) Q :=
    does_closeScan h fun m'' h'' => .inl ⟨rfl, h''⟩
  refine .bind (does_openScan hm fun m1 h1 => ?_)
  refine Does.loop (n := length m) (fun n m' => ∃ i, length m - i = n ∧ Scanning i m m') ?_ ⟨0, rfl, h1⟩
  rintro hloop _ m' ⟨i, rfl, h⟩
  refine does_scanElement hloop hhit hmiss hm h (fun m2 hi h2 => ?_) (fun m2 h2 hfound => ?_) fun m2 h2 hnot => ?_
  · exact .inl ⟨rfl, length m - (i + 1), by omega, _, rfl, h2⟩
  · exact .inr (.inl ⟨rfl, fun _ => does_hit hm h2 hfound hfinish fun m3 h3 => .inr (.inl ⟨rfl, fun _ => hclose h3⟩)⟩)
  · refine .inr (.inr (.inl ⟨rfl, fun _ => does_answer hm ?_ (if_neg hnot).symm fun m3 h3 => hclose h3⟩))
    rw [noted, if_neg hnot]
    exact h2.inside

end

end SubtypeScan

section
variable {t : Target} {base start : UInt64} {scan : CodeBlob} {m : Machine} {W : World}

theorem SubtypeScan.scan_leaves (h : Stub.subtypeScan t base = .ok scan)
    (hclear : ∀ i < scan.code.length, W (start + UInt64.ofNat i) = none) (hbase : base ≠ 0 → start = base)
    (hstands : scan.Stands start m) (hpc : m.pc = start) (hm : Posed (scan.Clear start) m) :
    ∃ m', W.Reaches m m' ∧ Answered m m' := by
  obtain ⟨⟨scan, u⟩, hgen, rfl⟩ := except_map_ok h
  refine generated_leaves hgen hclear hbase hstands hpc fun S _ _ _ hfree => does_scan ?_
  rw [hfree]
  exact hm

open SubtypeScan in
/-- The scan of secondary supers comes back with its answer, whatever it is asked and wherever its code stands.
It notes the supertype in the cache of the subtype exactly if it was found. -/
theorem secondary_supers_are_scanned (h : Stub.subtypeScan t base = .ok scan)
    (hclear : ∀ i < scan.code.length, W (start + UInt64.ofNat i) = none) (hbase : base ≠ 0 → start = base)
    (hstands : scan.Stands start m) (hpc : m.pc = start)
    (hfree : ∀ x, Frame m x ∨ Follows (pushedSub m + UInt64.ofNat 0x20) 8 x → scan.Clear start x)
    (hapart : ∀ x, Consults m x → ¬ Follows (m.get sp - 32) 48 x) :
    ∃ m', W.Reaches m m' ∧ m'.pc = m.get ra &&& ~~~1 ∧ m'.mem.read (m.get sp) 8 = (if Found m then 1 else 0) ∧
      (Found m → m'.mem.read (pushedSub m + UInt64.ofNat 0x20) 8 = pushedSuper m) ∧
      (∀ x, ¬ Frame m x → (Found m → ¬ Follows (pushedSub m + UInt64.ofNat 0x20) 8 x) → m'.mem x = m.mem x) ∧
      ∀ r, r ∉ [t0, t1] → m'.get r = m.get r := by
  have hposed : Posed (scan.Clear start) m := ⟨hfree, fun x hx hf => hapart x hx (Nat.lt_trans hf (by decide))⟩
  obtain ⟨m', hreach, hpc', hanswer, hregs, hmem⟩ := scan_leaves h hclear hbase hstands hpc hposed
  refine ⟨m', hreach, hpc', hanswer, fun hfound => ?_, fun x hframe hcache => ?_, hregs⟩
  · have hsame : m'.mem.read (pushedSub m + UInt64.ofNat 0x20) 8 = (noted m).read (pushedSub m + UInt64.ofNat 0x20) 8 :=
      read_congr fun i hi => hmem _ (hposed.apart _ (consults_word (k := 0) (by decide) hi))
    rw [hsame, noted, if_pos hfound, read_write_eight]
  · rw [hmem x hframe, noted]
    split
    case isTrue hfound => exact write_follows _ (hcache hfound)
    case isFalse => rfl

end

/-- A machine that asks for the second of two secondary supers, with the scan at `0x10000`. -/
def asking (code : List UInt8) : Machine where
  x n := if n = 2 then 0x8000 else 0
  f _ := 0
  pc := 0x10000
  mem := ((((((Ram.write (fun _ => 0) 0x8000 8 0x3000).write 0x8008 8 0x4000).write 0x4028 8 0x5000).write 0x5000 4 2).write
    0x5008 8 0x2000).write 0x5010 8 0x3000).overlay 0x10000 code

theorem scan_generated : ∃ scan, Stub.subtypeScan ⟨{}, .synthetic 0x20000⟩ 0 = .ok scan ∧ scan.code.length ≤ 0x1000 := by
  have hchecks : (Stub.subtypeScan ⟨{}, .synthetic 0x20000⟩ 0).toOption.any
    (fun b => decide (b.code.length ≤ 0x1000)) = true := by
    decide +kernel
  cases h : Stub.subtypeScan ⟨{}, .synthetic 0x20000⟩ 0 with
  | error e =>
    rw [h] at hchecks
    cases hchecks
  | ok scan =>
    rw [h] at hchecks
    exact ⟨scan, rfl, of_decide_eq_true hchecks⟩

open SubtypeScan in
theorem the_second_super_is_found : ∃ scan m', Stub.subtypeScan ⟨{}, .synthetic 0x20000⟩ 0 = .ok scan ∧
    World.bare.Reaches (asking scan.code) m' ∧ m'.mem.read 0x8000 8 = 1 ∧ m'.mem.read 0x4020 8 = 0x3000 := by
  obtain ⟨scan, hscan, hsize⟩ := scan_generated
  have hlow : (0x10000 : UInt64).toNat = 0x10000 := rfl
  -- below the code, memory holds what was asked
  have hread {a : UInt64} {n : Nat} (ha : a.toNat + n ≤ 0x10000) :
      (asking scan.code).mem.read a n = (asking []).mem.read a n := read_overlay _ (by omega) (by omega) (.inr ha)
  have hsub : pushedSub (asking scan.code) = 0x4000 := (hread (a := 0x8008) (by decide)).trans (by decide +kernel)
  have hsuper : pushedSuper (asking scan.code) = 0x3000 := (hread (a := 0x8000) (by decide)).trans (by decide +kernel)
  have harray : array (asking scan.code) = 0x5000 := by
    rw [array, hsub]
    exact (hread (a := 0x4028) (by decide)).trans (by decide +kernel)
  have hlength : length (asking scan.code) = 2 := by
    rw [length, harray, hread (by decide)]
    decide +kernel
  have hsecond : element (asking scan.code) 1 = 0x3000 := by
    rw [element, harray]
    exact (hread (a := 0x5010) (by decide)).trans (by decide +kernel)
  have hfound : Found (asking scan.code) := ⟨1, by rw [hlength]; decide, by rw [hsecond, hsuper]⟩
  have hfollows {a x : UInt64} {n : Nat} (ha : a.toNat + n ≤ 0x8010) (hx : Follows a n x) : a.toNat ≤ x.toNat ∧
    x.toNat < a.toNat + n :=
    (follows_iff (by omega)).mp hx
  have hstack : (asking scan.code).get sp - 32 = 0x7fe0 := by
    rw [show (asking scan.code).get sp = 0x8000 from rfl]
    decide
  obtain ⟨m', hreach, -, hanswer, hnoted, -⟩ :=
    secondary_supers_are_scanned (W := World.bare) (m := asking scan.code) hscan
    (fun _ _ => rfl) (absurd rfl) (CodeBlob.stands_overlay (by omega) rfl) rfl
    (fun x hx => (CodeBlob.clear_iff (by omega)).mpr fun h => by
      rw [Frame, hstack, hsub] at hx
      have := hx.imp (hfollows (by decide)) (hfollows (by decide))
      have : x.toNat < 0x8010 := this.elim (fun h => Nat.lt_trans h.2 (by decide)) fun h => Nat.lt_trans h.2 (by decide)
      omega)
    fun x hx hf => by
      rw [Consults, hsub, harray, hlength] at hx
      rw [hstack] at hf
      have hhigh : 0x7fe0 ≤ x.toNat := (hfollows (by decide) hf).1
      have hlow : x.toNat < 0x7fe0 := hx.elim (fun h => Nat.lt_trans (hfollows (by decide) h).2 (by decide))
        fun h => Nat.lt_trans (hfollows (by decide) h).2 (by decide)
      omega
  rw [if_pos hfound] at hanswer
  have hcached := hnoted hfound
  rw [hsub, hsuper] at hcached
  exact ⟨scan, m', hscan, hreach, hanswer, hcached⟩

/-! ## Descriptors -/

variable {α : Type} {H : Hierarchy α}

/-- The scan may write there: its frame and the answer, and caches. -/
def Descriptors.Scannable (D : Descriptors H) (top : UInt64) (x : UInt64) : Prop :=
  Spans (top.toNat - 32) 40 x ∨ D.Cache x

/-- The caller asks whether a type is among the secondary supers of another. -/
structure Asked (D : Descriptors H) (Clear : UInt64 → Prop) (c k : α) (m : Machine) : Prop where
  sub : m.mem.read (m.get sp + 8) 8 = D.addr c
  super : m.mem.read (m.get sp) 8 = D.addr k
  laid : D.Laid m.mem
  room : 32 ≤ (m.get sp).toNat
  top : (m.get sp).toNat + 16 ≤ 2 ^ 64
  free : ∀ x, D.Scannable (m.get sp) x → Clear x
  apart : ∀ x, D.Covers x → ¬ Spans ((m.get sp).toNat - 32) 40 x

/-- The scan has returned with its answer. -/
structure ScanAnswered (D : Descriptors H) (c k : α) (m m' : Machine) : Prop where
  pc : m'.pc = m.get ra &&& ~~~1
  answer : m'.mem.read (m.get sp) 8 ≠ 0 ↔ k ∈ D.secondaries c
  alters : Alters [t0, t1] (D.Scannable (m.get sp)) m m'
  laid : D.Laid m'.mem

section
variable {D : Descriptors H} {c k : α} {m m' : Machine} {Clear : UInt64 → Prop}

open SubtypeScan

namespace Asked

theorem frame_iff (hm : Asked D Clear c k m) (x : UInt64) : Frame m x ↔ Spans ((m.get sp).toNat - 32) 40 x := by
  have hroom := hm.room
  have htop := hm.top
  have hlow : (m.get sp - 32).toNat = (m.get sp).toNat - 32 := toNat_back (k := 32) hroom
  rw [Frame, follows_iff (by omega), hlow]

theorem array_eq (hm : Asked D Clear c k m) : array m = D.array c := by
  rw [array, pushedSub, hm.sub]
  exact hm.laid.array c

theorem length_eq (hm : Asked D Clear c k m) : length m = (D.secondaries c).length := by
  have := D.short c
  rw [length, hm.array_eq, hm.laid.length c, UInt64.toNat_ofNat', Nat.mod_eq_of_lt (by omega)]

theorem found_iff (hm : Asked D Clear c k m) : Found m ↔ k ∈ D.secondaries c := by
  have hsuper : pushedSuper m = D.addr k := hm.super
  have hentry {i : Nat} {d : α} (hd : (D.secondaries c)[i]? = some d) : element m i = D.addr d := by
    rw [element, hm.array_eq]
    exact hm.laid.entry c i d hd
  unfold Found
  rw [hm.length_eq, hsuper, List.mem_iff_getElem?]
  constructor
  · rintro ⟨i, hi, heq⟩
    rw [hentry (List.getElem?_eq_getElem hi)] at heq
    exact ⟨i, (List.getElem?_eq_getElem hi).trans (congrArg some (Descriptors.addr_inj heq))⟩
  · rintro ⟨i, hi⟩
    exact ⟨i, (List.getElem?_eq_some_iff.mp hi).1, hentry hi⟩

theorem cache_iff (hm : Asked D Clear c k m) (x : UInt64) :
    Follows (pushedSub m + UInt64.ofNat 0x20) 8 x ↔ Spans ((D.addr c).toNat + 0x20) 8 x := by
  have hfits := D.fits c
  have hcache := Descriptors.toNat_field (D := D) c (x := 0x20) (by decide)
  rw [show pushedSub m = D.addr c from hm.sub, follows_iff (by omega), hcache]

theorem posed (hm : Asked D Clear c k m) : Posed Clear m where
  free x hx := hm.free x (hx.imp (hm.frame_iff x).mp fun h => ⟨c, (hm.cache_iff x).mp h⟩)
  apart x hx hframe := by
    have hfits := D.fits c
    have hcache := Descriptors.toNat_field (D := D) c (x := 0x20) (by decide)
    have harray := D.array_fits c
    refine hm.apart x ⟨c, ?_⟩ ((hm.frame_iff x).mp hframe)
    rcases hx with h | h
    · rw [show pushedSub m = D.addr c from hm.sub, follows_iff (by omega), hcache] at h
      exact .inl (by omega)
    · rw [hm.array_eq, hm.length_eq, follows_iff (by omega)] at h
      exact .inr h

/-- The scan's answer, told of a class and a type. -/
theorem answered (hm : Asked D Clear c k m) (h : Answered m m') : ScanAnswered D c k m m' where
  pc := h.pc
  answer := by
    rw [h.answer, ← hm.found_iff]
    split <;> simpa
  alters := ⟨h.regs, fun x hx => by
    rw [h.mem x fun hf => hx (.inl ((hm.frame_iff x).mp hf)), noted]
    split
    · exact write_follows _ fun hc => hx (.inr ⟨c, (hm.cache_iff x).mp hc⟩)
    · rfl⟩
  laid := by
    have hlaid : D.Laid (noted m) := by
      unfold noted
      split
      case isTrue hfound =>
        rw [show pushedSub m = D.addr c from hm.sub, show pushedSuper m = D.addr k from hm.super]
        exact hm.laid.cached (hm.found_iff.mp hfound)
      case isFalse => exact hm.laid
    exact hlaid.keep fun x hx => h.mem x fun hf => hm.apart x hx ((hm.frame_iff x).mp hf)

end Asked

/-- Where memory holds descriptors, the scan tells whether a class lists a type. -/
theorem subtypeScan_answers {t : Target} {base start : UInt64} {scan : CodeBlob} {W : World}
    (h : Stub.subtypeScan t base = .ok scan) (hclear : ∀ i < scan.code.length, W (start + UInt64.ofNat i) = none)
    (hbase : base ≠ 0 → start = base) (hstands : scan.Stands start m) (hpc : m.pc = start)
    (hm : Asked D (scan.Clear start) c k m) : ∃ m', W.Reaches m m' ∧ ScanAnswered D c k m m' := by
  obtain ⟨m', hreach, hanswered⟩ := SubtypeScan.scan_leaves h hclear hbase hstands hpc hm.posed
  exact ⟨m', hreach, hm.answered hanswered⟩

end

end RiscvJit

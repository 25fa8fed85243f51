import RiscvJit.Proofs.Code.Calls

/-
  RiscvJit.Proofs.Code.Places — what single instructions and many moves change.

  Registers and stack slots are places; `m.at base l` is what a machine holds at one, with slots
  counted from an address. Ranges of memory do not wrap around here, so an address is a number
  and ranges are compared as numbers (`Spans`). `Changed base ls tmps m m'` says that from one
  machine to the other at most the places `ls` and the scratch registers changed.

  Moves that each write a place of their own, and read what no other of them writes, may be made
  in any order: in the end every place holds what its move brought (`Does.deliver`). So may moves in an
  order in which none writes what a later one reads (`Does.deliverInOrder`).
-/

namespace RiscvJit

open Machine (Keeps)
open Asm
open Location

/-! ## Ranges of memory -/

/-- The address lies in the range of `n` bytes from `lo` on. -/
abbrev Spans (lo n : Nat) (addr : UInt64) : Prop := lo ≤ addr.toNat ∧ addr.toNat < lo + n

variable {a : UInt64} {k : ValueKind} {v w : UInt64}

/-- An address a little further on, as a number. -/
theorem toNat_off {k : Nat} (h : a.toNat + k < 2 ^ 64) : (a + UInt64.ofNat k).toNat = a.toNat + k := by
  rw [UInt64.toNat_add, UInt64.toNat_ofNat', Nat.mod_eq_of_lt (a := k) (by omega), Nat.mod_eq_of_lt h]

/-- An address a little further back, as a number. -/
theorem toNat_back {k : Nat} (h : k ≤ a.toNat) : (a - UInt64.ofNat k).toNat = a.toNat - k := by
  have := a.toNat_lt
  rw [UInt64.toNat_sub, UInt64.toNat_ofNat', Nat.mod_eq_of_lt (a := k) (by omega)]
  omega

theorem off_off (a : UInt64) (j k : Nat) : a + UInt64.ofNat j + UInt64.ofNat k = a + UInt64.ofNat (j + k) := by
  rw [UInt64.add_assoc, UInt64.ofNat_add]

theorem spans_off {x n i : Nat} (h : a.toNat + x + n ≤ 2 ^ 64) (hi : i < n) :
    Spans (a.toNat + x) n (a + UInt64.ofNat x + UInt64.ofNat i) := by
  unfold Spans
  rw [off_off, toNat_off (by omega)]
  omega

theorem spans_at {n i : Nat} (h : a.toNat + n ≤ 2 ^ 64) (hi : i < n) : Spans a.toNat n (a + UInt64.ofNat i) := by
  unfold Spans
  rw [toNat_off (by omega)]
  omega

theorem add_neg_toUInt64 (a : UInt64) (k : Int64) : a + (-k).toUInt64 = a - k.toUInt64 := by
  rw [Int64.toUInt64_neg, UInt64.sub_eq_add_neg]

namespace Ram

variable (mem : Ram) {a : UInt64} {bytes : List UInt8} {n : Nat}

theorem write_apart {x : UInt64} (v : UInt64) (hn : a.toNat + n ≤ 2 ^ 64) (h : ¬ Spans a.toNat n x) :
    mem.write a n v x = mem x := by
  refine write_outside mem v ?_
  have := x.toNat_lt
  have := a.toNat_lt
  rw [UInt64.toNat_sub]
  omega

theorem read_same {mem mem' : Ram} (hn : a.toNat + n ≤ 2 ^ 64) (h : ∀ x, Spans a.toNat n x → mem x = mem' x) :
    mem.read a n = mem'.read a n := by
  exact read_congr fun i hi => h _ (spans_at hn hi)

/-- What is read of a range is not changed by writing to another. -/
theorem read_write_off {b : UInt64} {k : Nat} (v : UInt64) (ha : a.toNat + n ≤ 2 ^ 64) (hb : b.toNat + k ≤ 2 ^ 64)
    (h : a.toNat + n ≤ b.toNat ∨ b.toNat + k ≤ a.toNat) : (mem.write b k v).read a n = mem.read a n := by
  refine read_same ha fun x hx => write_apart mem v hb ?_
  omega

/-- Memory with other bytes from an address on. -/
def overlay (mem : Ram) (start : UInt64) (bytes : List UInt8) : Ram :=
  fun addr => (bytes[(addr - start).toNat]?).getD (mem addr)

theorem overlay_at (start : UInt64) {i : Nat} {b : UInt8} (h : bytes.length ≤ 2 ^ 64) (hi : bytes[i]? = some b) :
    mem.overlay start bytes (start + UInt64.ofNat i) = b := by
  have hlt := (List.getElem?_eq_some_iff.mp hi).1
  rw [overlay, add_sub_self, UInt64.toNat_ofNat_of_lt' (by rw [UInt64.size]; omega), hi]
  rfl

theorem overlay_apart {start addr : UInt64} (h : start.toNat + bytes.length ≤ 2 ^ 64)
    (hapart : ¬ Spans start.toNat bytes.length addr) : mem.overlay start bytes addr = mem addr := by
  have := addr.toNat_lt
  have := start.toNat_lt
  rw [overlay, List.getElem?_eq_none (by rw [UInt64.toNat_sub]; omega)]
  rfl

theorem read_overlay {start addr : UInt64} (h : start.toNat + bytes.length ≤ 2 ^ 64) (hend : addr.toNat + n ≤ 2 ^ 64)
    (hapart : start.toNat + bytes.length ≤ addr.toNat ∨ addr.toNat + n ≤ start.toNat) :
    (mem.overlay start bytes).read addr n = mem.read addr n := by
  refine read_same hend fun x hx => overlay_apart mem h ?_
  omega

/-- The low half of a word in memory. -/
theorem toUInt32_read (addr : UInt64) : (mem.read addr 8).toUInt32 = (mem.read addr 4).toUInt32 := by
  apply UInt32.toNat_inj.mp
  rw [UInt64.toNat_toUInt32, UInt64.toNat_toUInt32, toNat_read_eight]
  omega

end Ram

theorem toUInt32_boxed (v : UInt64) : (boxed v).toUInt32 = v.toUInt32 := by
  rw [boxed, UInt64.toUInt32_or]
  exact UInt32.zero_or

/-! ## Places -/

/-- What a machine holds at a location; stack slots count from an address. -/
def Machine.at (m : Machine) (base : UInt64) : Location → UInt64
  | .stack slot => m.mem.read (base + UInt64.ofNat (4 * slot)) 8
  | l => m.get l.reg

theorem Machine.at_reg (m : Machine) (base : UInt64) {l : Location} (h : l.isReg = true) : m.at base l = m.get l.reg := by
  cases l with
  | stack slot => cases h
  | _ => rfl

@[simp] theorem Machine.at_withPc (m : Machine) (p base : UInt64) (l : Location) :
    ({ m with pc := p } : Machine).at base l = m.at base l := by
  cases l <;> rfl

/-- Two words hold one value of a kind: ints and floats take 32 bits. -/
def ValueKind.Same (k : ValueKind) (v w : UInt64) : Prop :=
  if k.isIntLike = true ∨ k = .float then v.toUInt32 = w.toUInt32 else v = w

theorem ValueKind.same_refl (k : ValueKind) (v : UInt64) : k.Same v v := by
  unfold Same
  split <;> rfl

theorem ValueKind.Same.symm (h : k.Same v w) : k.Same w v := by
  unfold Same at h ⊢
  split at h
  case _ hk =>
    rw [if_pos hk]
    exact h.symm
  case _ hk =>
    rw [if_neg hk]
    exact h.symm

theorem ValueKind.Same.trans {u : UInt64} (h : k.Same u v) (h' : k.Same v w) : k.Same u w := by
  unfold Same at h h' ⊢
  split at h
  case _ hk =>
    rw [if_pos hk] at h' ⊢
    exact h.trans h'
  case _ hk =>
    rw [if_neg hk] at h' ⊢
    exact h.trans h'

theorem ValueKind.same_low (hk : k.isIntLike = true ∨ k = .float) (h : v.toUInt32 = w.toUInt32) : k.Same v w := by
  rw [Same, if_pos hk]
  exact h

/-- Two words are the same, those of floats in their low halves. -/
def ValueKind.SameWord (k : ValueKind) (v w : UInt64) : Prop := if k = .float then v.toUInt32 = w.toUInt32 else v = w

theorem ValueKind.sameWord_refl (k : ValueKind) (v : UInt64) : k.SameWord v v := by
  unfold SameWord
  split <;> rfl

theorem ValueKind.SameWord.symm (h : k.SameWord v w) : k.SameWord w v := by
  unfold SameWord at h ⊢
  split at h
  case _ hk =>
    rw [if_pos hk]
    exact h.symm
  case _ hk =>
    rw [if_neg hk]
    exact h.symm

theorem ValueKind.SameWord.trans {u : UInt64} (h : k.SameWord u v) (h' : k.SameWord v w) : k.SameWord u w := by
  unfold SameWord at h h' ⊢
  split at h
  case _ hk =>
    rw [if_pos hk] at h' ⊢
    exact h.trans h'
  case _ hk =>
    rw [if_neg hk] at h' ⊢
    exact h.trans h'

theorem ValueKind.SameWord.same {k : ValueKind} {v w : UInt64} (h : k.SameWord v w) : k.Same v w := by
  unfold SameWord at h
  split at h
  case _ hk => exact same_low (.inr hk) h
  case _ => exact h ▸ same_refl k v

/-- The address is one of the location's, eight bytes on the stack. -/
def Location.Covers (base : UInt64) (l : Location) (addr : UInt64) : Prop :=
  match l with
  | .stack slot => Spans (base.toNat + 4 * slot) 8 addr
  | _ => False

/-- The location does not reach beyond the end of memory. -/
def Location.Fits (base : UInt64) : Location → Prop
  | .stack slot => base.toNat + 4 * slot + 8 ≤ 2 ^ 64
  | _ => True

/-- At most the locations and the scratch registers changed. -/
structure Changed (base : UInt64) (ls : List Location) (tmps : List Reg) (m m' : Machine) : Prop where
  regs : ∀ r, r ∉ tmps → (∀ l ∈ ls, l.reg ≠ r) → m'.get r = m.get r
  mem : ∀ addr, (∀ l ∈ ls, ¬ l.Covers base addr) → m'.mem addr = m.mem addr

section
variable {base : UInt64} {ls ls' : List Location} {tmps tmps' : List Reg} {m m1 m' : Machine} {l l' : Location}

theorem changed_refl (base : UInt64) (ls : List Location) (tmps : List Reg) (m : Machine) : Changed base ls tmps m m :=
  ⟨fun _ _ _ => rfl, fun _ _ => rfl⟩

theorem Changed.trans (h : Changed base ls tmps m m1) (h' : Changed base ls tmps m1 m') : Changed base ls tmps m m' where
  regs r ht hl := (h'.regs r ht hl).trans (h.regs r ht hl)
  mem addr ha := (h'.mem addr ha).trans (h.mem addr ha)

theorem Changed.mono (h : Changed base ls tmps m m') (hl : ∀ l ∈ ls, l ∈ ls') (ht : ∀ r ∈ tmps, r ∈ tmps') :
    Changed base ls' tmps' m m' where
  regs r hr hne := h.regs r (fun hmem => hr (ht r hmem)) fun l hmem => hne l (hl l hmem)
  mem addr ha := h.mem addr fun l hmem => ha l (hl l hmem)

/-- A location that is none of the changed ones holds what it held. -/
theorem Changed.at_eq (h : Changed base ls tmps m m') (hfit : l.Fits base) (ht : l.reg ∉ tmps)
    (hls : ∀ l' ∈ ls, l'.aliases l = false) : m'.at base l = m.at base l := by
  have other {r : Reg} (hr : r ∉ tmps) (hne : ∀ l' ∈ ls, l'.reg ≠ r) : m'.get r = m.get r := h.regs r hr hne
  cases l with
  | nowhere => rfl
  | int n =>
    refine other ht fun l' hl' e => ?_
    have := hls l' hl'
    cases l' with
    | int n' => cases e; simp [aliases] at this
    | _ => cases e
  | float n =>
    refine other ht fun l' hl' e => ?_
    have := hls l' hl'
    cases l' with
    | float n' => cases e; simp [aliases] at this
    | _ => cases e
  | stack slot =>
    have hfit : base.toNat + 4 * slot + 8 ≤ 2 ^ 64 := hfit
    have haddr : (base + UInt64.ofNat (4 * slot)).toNat = base.toNat + 4 * slot := toNat_off (by omega)
    refine Ram.read_same (by omega) fun x hx => h.mem x fun l' hl' hc => ?_
    have := hls l' hl'
    cases l' with
    | stack slot' =>
      rw [aliases, Bool.and_eq_false_iff, decide_eq_false_iff_not, decide_eq_false_iff_not] at this
      simp only [Covers] at hc
      unfold slotsPerWord at this
      omega
    | _ => exact hc

variable {v : UInt64}

theorem Put.changed {r : Reg} (h : Put r tmps v m m') (hr : l.reg = r) : Changed base [l] tmps m m' where
  regs s hs hne := h.rest s (fun e => hne l (List.mem_singleton.mpr rfl) (by rw [hr, e])) hs
  mem addr _ := by rw [h.mem]

/-- A scratch register may be set on the way. -/
theorem Put.scratch {r : Reg} (h : Put r tmps v m m') (hr : r ∈ tmps') (ht : ∀ r ∈ tmps, r ∈ tmps') :
    Changed base [] tmps' m m' where
  regs s hs _ := h.rest s (fun e => hs (e ▸ hr)) fun hmem => hs (ht s hmem)
  mem addr _ := by rw [h.mem]

theorem Site.Stored.changed {slot n : Nat} (h : Site.Stored tmps (base + UInt64.ofNat (4 * slot)) n v m m')
    (hfit : base.toNat + 4 * slot + 8 ≤ 2 ^ 64) (hn : n ≤ 8) : Changed base [.stack slot] tmps m m' where
  regs r hr _ := h.rest r hr
  mem addr ha := by
    have haddr : (base + UInt64.ofNat (4 * slot)).toNat = base.toNat + 4 * slot := toNat_off (by omega)
    have := ha (.stack slot) (List.mem_singleton.mpr rfl)
    rw [h.mem, Ram.write_apart _ _ (by omega)]
    simp only [Covers, Spans] at this ⊢
    omega

/-- A location that is not among the bytes written holds what it held. -/
theorem Site.Stored.at_eq {addr : UInt64} {n : Nat} (h : Site.Stored tmps addr n v m m') (hr : l.reg ∉ tmps)
    (hfit : l.Fits base) (hn : addr.toNat + n ≤ 2 ^ 64) (hapart : ∀ x, l.Covers base x → ¬ Spans addr.toNat n x) :
    m'.at base l = m.at base l := by
  cases l with
  | stack slot =>
    have hfit : base.toNat + 4 * slot + 8 ≤ 2 ^ 64 := hfit
    have haddr : (base + UInt64.ofNat (4 * slot)).toNat = base.toNat + 4 * slot := toNat_off (by omega)
    refine Ram.read_same (by omega) fun x hx => ?_
    rw [h.mem, Ram.write_apart _ _ hn (hapart x ?_)]
    rwa [haddr] at hx
  | nowhere => rfl
  | _ => exact h.rest _ hr

end

/-! ## Single instructions -/

namespace Site

section
variable {S : Site} {m : Machine} {E : Exits} {Q : Unit → Machine → Prop} {o : Op} {rd rs rs1 rs2 base src tmp : Reg}
  {imm off : Int64}

variable {n : Nat}

theorem does_load (hf : o.info.format = .load) (hw : o.width = some n) (hk : Keeps rd)
    (h : ∀ m', Put rd [] (o.extend (m.mem.read (m.get base + off.toUInt64) n)) m m' → Q () m') :
    S.Does (load o rd base off) m E Q := does_puts (fun _ _ _ => load_puts hf hw hk) h

theorem does_ld (h : ∀ m', Put rd [] (m.mem.read (m.get base + off.toUInt64) 8) m m' → Q () m')
    (hk : Keeps rd := by decide) :
    S.Does (ld rd base off) m E Q := does_load rfl rfl hk h

theorem does_lwu (hk : Keeps rd) (h : ∀ m', Put rd [] (m.mem.read (m.get base + off.toUInt64) 4) m m' → Q () m') :
    S.Does (lwu rd base off) m E Q := does_load rfl rfl hk h

theorem does_store (hf : o.info.format = .store) (hw : o.width = some n)
    (hfree : ∀ i < n, S.Free (m.get base + off.toUInt64 + UInt64.ofNat i))
    (h : ∀ m', Stored [] (m.get base + off.toUInt64) n (m.get src) m m' → Q () m') :
    S.Does (store o src base off) m E Q := does_stores (fun _ _ _ => store_stores hf hw) hfree h

theorem does_sd (hfree : ∀ i < 8, S.Free (m.get base + off.toUInt64 + UInt64.ofNat i))
    (h : ∀ m', Stored [] (m.get base + off.toUInt64) 8 (m.get src) m m' → Q () m') :
    S.Does (sd src base off) m E Q := does_store rfl rfl hfree h

/-- A word is stored at an address. -/
theorem does_sdAt {a : UInt64} (haddr : m.get base + off.toUInt64 = a) (hend : a.toNat + 8 ≤ 2 ^ 64)
    (hfree : ∀ addr, Spans a.toNat 8 addr → S.Free addr) (h : ∀ m', Stored [] a 8 (m.get src) m m' → Q () m') :
    S.Does (sd src base off) m E Q := by
  subst haddr
  exact does_sd (fun i hi => hfree _ (spans_at hend hi)) h

theorem does_loadOff (hf : o.info.format = .load) (hw : o.width = some n) (hk : Keeps rd)
    (ht : Keeps tmp) (h : ∀ m', Put rd [tmp] (o.extend (m.mem.read (m.get base + off.toUInt64) n)) m m' → Q () m') :
    S.Does (loadOff o rd base off tmp) m E Q := does_puts (fun _ _ _ => loadOff_puts hf hw hk ht) h

theorem does_storeOff (hf : o.info.format = .store) (hw : o.width = some n) (ht : Keeps tmp)
    (hfree : ∀ i < n, S.Free (m.get base + off.toUInt64 + UInt64.ofNat i))
    (h : ∀ m', Stored [tmp] (m.get base + off.toUInt64) n (m.get src) m m' → Q () m') :
    S.Does (storeOff o src base off tmp) m E Q := does_stores (fun _ _ _ => storeOff_stores hf hw ht) hfree h

theorem does_addi (h : ∀ m', Put rd [] (m.get rs + imm.toUInt64) m m' → Q () m') (hk : Keeps rd := by decide) :
    S.Does (addi rd rs imm) m E Q :=
  does_puts (fun _ _ _ => ri_puts (f := fun x y => x + y) rfl (fun _ _ => rfl) hk) h

theorem does_andi (hk : Keeps rd) (h : ∀ m', Put rd [] (m.get rs &&& imm.toUInt64) m m' → Q () m') :
    S.Does (andi rd rs imm) m E Q :=
  does_puts (fun _ _ _ => ri_puts (f := fun x y => x &&& y) rfl (fun _ _ => rfl) hk) h

theorem does_ori (hk : Keeps rd) (h : ∀ m', Put rd [] (m.get rs ||| imm.toUInt64) m m' → Q () m') :
    S.Does (ori rd rs imm) m E Q :=
  does_puts (fun _ _ _ => ri_puts (f := fun x y => x ||| y) rfl (fun _ _ => rfl) hk) h

theorem small_shift {s : UInt8} (h : s ≤ 3) : Format.shift64.admits (Int64.ofNat s.toNat) = true ∧
    (Int64.ofNat s.toNat).toUInt64 &&& 63 = s.toUInt64 := by
  have hcases : s = 0 ∨ s = 1 ∨ s = 2 ∨ s = 3 := by
    have hs : s.toNat ≤ 3 := h
    have hall (k : UInt8) : s = k ↔ s.toNat = k.toNat := UInt8.toNat_inj.symm
    rw [hall, hall, hall, hall]
    simp only [UInt8.reduceToNat]
    omega
  rcases hcases with rfl | rfl | rfl | rfl <;> exact ⟨by decide, by decide⟩

theorem does_slli (hk : Keeps rd) (hn : Op.slli.info.format.admits imm = true)
    (h : ∀ m', Put rd [] (m.get rs <<< (imm.toUInt64 &&& 63)) m m' → Q () m') : S.Does (slli rd rs imm) m E Q :=
  does_puts (fun _ _ _ => emit_puts (f := fun x y => x <<< (y &&& 63)) (.inr (.inl rfl))
  hn (fun _ => rfl) hk) h

theorem does_add (hk : Keeps rd) (h : ∀ m', Put rd [] (m.get rs1 + m.get rs2) m m' → Q () m') :
    S.Does (add rd rs1 rs2) m E Q :=
  does_puts (fun _ _ _ => rr_puts (f := fun x y => x + y) rfl (fun _ _ => rfl) hk) h

theorem does_sub (hk : Keeps rd) (h : ∀ m', Put rd [] (m.get rs1 - m.get rs2) m m' → Q () m') :
    S.Does (sub rd rs1 rs2) m E Q :=
  does_puts (fun _ _ _ => rr_puts (f := fun x y => x - y) rfl (fun _ _ => rfl) hk) h

theorem does_li (h : ∀ m', Put rd [] imm.toUInt64 m m' → Q () m') (hk : Keeps rd := by decide) :
    S.Does (li rd imm) m E Q :=
  does_puts (fun _ _ _ => li_puts hk) h

theorem does_movptr {addr : UInt64} (hk : Keeps rd) (h : ∀ m', Put rd [] addr m m' → Q () m') :
    S.Does (movptr rd addr) m E Q := by
  refine does_puts (v := fun _ => addr) (fun _ _ _ hrun => ?_) h
  obtain ⟨lo, b, hmov, haddi⟩ := bind_eq_ok.mp hrun
  obtain ⟨-, is, hw, hputs⟩ := movptr_puts hk hmov
  obtain ⟨js, hw', hputs'⟩ := ri_puts (f := fun x y => x + y) rfl (fun _ _ => rfl) hk haddi
  refine ⟨is ++ js, hw.append hw', hputs.puts hputs' (.inl rfl) fun m m' hput => ?_⟩
  rw [hput.value, UInt64.sub_add_cancel]

theorem does_mv (h : ∀ m', Put rd [] (m.get rs) m m' → Q () m') (hk : Keeps rd := by decide) :
    S.Does (mv rd rs) m E Q := by
  refine does_puts (v := fun m => m.get rs) (fun _ _ _ hrun => ?_) h
  cases hfloat : rd.isFloat with
  | true => exact mv_puts_float hfloat hrun
  | false => exact mv_puts hk hfloat hrun

theorem does_addImm (hk : Keeps rd) (ht : Keeps tmp) (h : ∀ m', Put rd [tmp] (m.get rs + imm.toUInt64) m m' → Q () m') :
    S.Does (addImm rd rs imm tmp) m E Q := does_puts (fun _ _ _ => addImm_puts hk ht) h

end

/-! ## Many moves -/

section
variable {S : Site} {m : Machine} {E : Exits} {β : Type} {f : β → Asm Unit} [∀ x, (f x).Traced]

variable {xs : List β}

/-- Repeated work, with what holds before the elements that are left. -/
theorem Does.forM {Q : Unit → Machine → Prop} (I : List β → Machine → Prop)
    (hstep : ∀ x rest m, I (x :: rest) m → S.Does (f x) m E fun _ m' => I rest m') (h : I xs m)
    (hend : ∀ m', I [] m' → Q () m') : S.Does (xs.forM f) m E Q := by
  induction xs generalizing m with
  | nil => exact does_pure (hend m h)
  | cons x rest ih =>
    show S.Does (f x >>= fun _ => rest.forM f) m E Q
    refine .bind ((hstep x rest m h).imp (fun _ _ h => h) fun _ m' hrest => ih hrest)

/-- Moves to places of their own, from what those before have not written. -/
theorem Does.deliverInOrder (base : UInt64) (tmps : List Reg) (dst : β → Location) {P : β → UInt64 → Prop}
    (hfits : ∀ x ∈ xs, (dst x).Fits base) (htmps : ∀ x ∈ xs, (dst x).reg ∉ tmps)
    (hapart : xs.Pairwise fun x y => (dst y).aliases (dst x) = false)
    (hstep : ∀ done x rest, xs = done ++ x :: rest → ∀ m', Changed base (done.map dst) tmps m m' →
      S.Does (f x) m' E fun _ m'' => Changed base [dst x] tmps m' m'' ∧ P x (m''.at base (dst x))) :
    S.Does (xs.forM f) m E fun _ m' =>
      Changed base (xs.map dst) tmps m m' ∧ ∀ x ∈ xs, P x (m'.at base (dst x)) := by
  -- the elements that are done keep what they were brought
  refine Does.forM (fun rest m' => ∃ done, xs = done ++ rest ∧ Changed base (done.map dst) tmps m m' ∧
    ∀ x ∈ done, P x (m'.at base (dst x))) ?_ ⟨[], rfl, changed_refl .., by simp⟩ ?_
  · rintro x rest m1 ⟨done, hxs, hchanged, hdone⟩
    refine (hstep done x rest hxs m1 hchanged).imp (fun _ _ h => h) fun _ m2 ⟨hone, hok⟩ => ?_
    refine ⟨done ++ [x], by rw [hxs, List.append_assoc]; rfl, ?_, fun y hy => ?_⟩
    · rw [List.map_append]
      exact (hchanged.mono (fun _ => List.mem_append_left _) fun _ h => h).trans
        (hone.mono (fun _ => List.mem_append_right _) fun _ h => h)
    · rcases List.mem_append.mp hy with hy | hy
      · have hmem : y ∈ xs := by rw [hxs]; exact List.mem_append_left _ hy
        rw [hone.at_eq (hfits y hmem) (htmps y hmem) fun l' hl' => ?_]
        · exact hdone y hy
        · rw [List.mem_singleton.mp hl']
          rw [hxs] at hapart
          exact (List.pairwise_append.mp hapart).2.2 y hy x List.mem_cons_self
      · rw [List.mem_singleton.mp hy]
        exact hok
  · rintro m' ⟨done, hxs, hchanged, hdone⟩
    rw [List.append_nil] at hxs
    rw [hxs]
    exact ⟨hchanged, hdone⟩

/-- Moves to places of their own, from what none of them writes. -/
theorem Does.deliver (base : UInt64) (tmps : List Reg) (dst : β → Location) {P : β → UInt64 → Prop}
    (hfits : ∀ x ∈ xs, (dst x).Fits base) (htmps : ∀ x ∈ xs, (dst x).reg ∉ tmps)
    (hapart : xs.Pairwise fun x y => (dst y).aliases (dst x) = false)
    (hstep : ∀ x ∈ xs, ∀ m', Changed base (xs.map dst) tmps m m' →
      S.Does (f x) m' E fun _ m'' => Changed base [dst x] tmps m' m'' ∧ P x (m''.at base (dst x))) :
    S.Does (xs.forM f) m E fun _ m' =>
      Changed base (xs.map dst) tmps m m' ∧ ∀ x ∈ xs, P x (m'.at base (dst x)) := by
  refine .deliverInOrder base tmps dst hfits htmps hapart fun done x rest hxs m' hchanged =>
    hstep x ?_ m' (hchanged.mono ?_ fun _ h => h)
  · rw [hxs]
    exact List.mem_append_right _ List.mem_cons_self
  · rw [hxs, List.map_append]
    exact fun _ => List.mem_append_left _

end

end Site

end RiscvJit

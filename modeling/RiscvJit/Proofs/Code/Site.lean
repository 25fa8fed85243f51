import RiscvJit.Proofs.Code.Written

/-
  RiscvJit.Proofs.Code.Site — running generated code as it was generated.

  A `Site` is code that was written from a first assembler to a last one, the address where it
  stands in memory, and the routines around it. A machine is `At` an assembler in between when
  its program counter is where that assembler was about to write. `S.Does x m E Q` says of the
  work `x` that a machine `m` in front of its code comes to its end with `Q`, or leaves it for a
  label or the world outside with `E`. So the code of a generator is followed by the generator's
  own structure:

    - sequences by `Does.bind`, straight-line code by `does_puts` and `does_stores`;
    - jumps and branches leave for their label (`does_j`, `does_branch`, `does_bcond`), and go on
      where it is bound (`Does.label`, `Does.loop`);
    - a call of a routine comes back when the routine returns (`does_routine`).

  Labels and maps are only noted, so nothing happens there (`does_silent`).
-/

namespace RiscvJit

/-! ## Machines among routines -/

/-- Routines that are not part of the code, by address. A routine runs as one step. -/
abbrev World := UInt64 → Option (Machine → Machine)

namespace World

/-- No routines at all. -/
def bare : World := fun _ => none

/-- Run the routine at the program counter, or else the instruction there. -/
def step (W : World) (m : Machine) : Option Machine :=
  match W m.pc with
  | some routine => some (routine m)
  | none => m.step

def steps (W : World) : Nat → Machine → Option Machine
  | 0, m => some m
  | n + 1, m => (W.step m).bind (W.steps n)

/-- Some number of steps leads from one machine to the other. -/
def Reaches (W : World) (m m' : Machine) : Prop := ∃ n, W.steps n m = some m'

variable {W : World} {m m1 m' : Machine}

theorem steps_bare (n : Nat) (m : Machine) : bare.steps n m = m.steps n := by
  induction n generalizing m with
  | zero => rfl
  | succ n ih =>
    show (m.step).bind (bare.steps n) = m.step.bind (Machine.steps n)
    rw [funext ih]

theorem Reaches.refl (W : World) (m : Machine) : W.Reaches m m := ⟨0, rfl⟩

theorem Reaches.head (h : W.step m = some m1) (h' : W.Reaches m1 m') : W.Reaches m m' := by
  obtain ⟨n, hn⟩ := h'
  refine ⟨n + 1, ?_⟩
  show (W.step m).bind (W.steps n) = _
  rw [h]
  exact hn

theorem Reaches.one (h : W.step m = some m') : W.Reaches m m' := .head h (.refl W m')

theorem Reaches.trans (h : W.Reaches m m1) (h' : W.Reaches m1 m') : W.Reaches m m' := by
  obtain ⟨n, hn⟩ := h
  induction n generalizing m with
  | zero =>
    cases hn
    exact h'
  | succ n ih =>
    obtain ⟨m2, hstep, hrest⟩ := Option.bind_eq_some_iff.mp hn
    exact .head hstep (ih hrest)

end World

/-! ## Sites -/

/-- Finished code, where it stands, and what is around it. -/
structure Site where
  world : World
  target : Target
  first : Assembler
  last : Assembler
  start : UInt64
  /-- What was written before. -/
  origin : Layout
  fresh : Holds origin first
  behind : first.Behind
  working : last.buf.failed = false
  /-- Routines lie elsewhere. -/
  clear : ∀ i < last.buf.bytes.size, world (start + UInt64.ofNat i) = none
  /-- Code that was written for an address stands there. -/
  based : first.buf.base ≠ 0 → start = first.buf.base

namespace Site

/-- The code was written up to there. -/
def Early (S : Site) (a : Assembler) : Prop := ∃ pre, Trace S.target pre S.first a

/-- What was written up to there stays in the finished code. -/
structure Late (S : Site) (a : Assembler) : Prop where
  working : a.buf.failed = false
  stays : ∀ L, Holds L a → ∃ L', Holds L' S.last ∧ L.pieces <+: L'.pieces ∧
    ∀ l k, L.Known l → L.mark l = some k → L'.Known l ∧ L'.mark l = some k

/-- The address is not one of the code. -/
def Free (S : Site) (addr : UInt64) : Prop := ∀ i < S.last.buf.bytes.size, addr ≠ S.start + UInt64.ofNat i

/-- The code is in memory. -/
def Stands (S : Site) (m : Machine) : Prop := m.Loaded S.start S.last.buf.bytes

/-- The machine is where the assembler is about to write. -/
structure At (S : Site) (a : Assembler) (m : Machine) : Prop where
  stands : S.Stands m
  pc : m.pc = S.start + UInt64.ofNat a.buf.offset

/-- The label is bound somewhere in the code. -/
def Binds (S : Site) (l : Label) : Prop := ∃ s p, S.last.label l = .ok s ∧ s.position? = some p

/-- The machine is where the label is bound. -/
def To (S : Site) (l : Label) (m : Machine) : Prop :=
  S.Stands m ∧ ∃ s p, S.last.label l = .ok s ∧ s.position? = some p ∧ m.pc = S.start + p.toUInt64

section
variable {S : Site} {a b a' : Assembler} {m m' : Machine} {items : List Item}

theorem Early.append (h : S.Early a) (h' : Trace S.target items a b) : S.Early b := by
  obtain ⟨pre, hpre⟩ := h
  exact ⟨pre ++ items, hpre.append h'⟩

/-- The code was written on from there. -/
theorem late_of_trace (h : Trace S.target items a S.last) : S.Late a where
  working := h.working S.working
  stays _ hL := ⟨_, h.holds hL S.working, pieces_drawn _ _, fun _ _ => h.mark hL S.working⟩

theorem Late.append (h : S.Late b) (h' : Trace S.target items a b) : S.Late a where
  working := h'.working h.working
  stays L hL := by
    obtain ⟨L', hL', hpieces, hmarks⟩ := h.stays _ (h'.holds hL h.working)
    refine ⟨L', hL', (pieces_drawn L items).trans hpieces, fun l k hl hk => ?_⟩
    obtain ⟨hl', hk'⟩ := h'.mark hL h.working hl hk
    exact hmarks l k hl' hk'

theorem Early.behind (h : S.Early a) : a.Behind := by
  obtain ⟨pre, hpre⟩ := h
  exact hpre.behind S.behind

/-- Writing outside the code leaves it in memory. -/
theorem Stands.keep (h : S.Stands m) (hmem : ∀ addr, ¬ S.Free addr → m'.mem addr = m.mem addr) : S.Stands m' := by
  intro i hi
  rw [hmem _ fun hfree => hfree i hi rfl]
  exact h i hi

theorem Stands.withPc (h : S.Stands m) (p : UInt64) : S.Stands { m with pc := p } := h

/-- Where the items of a part of the code are in its layout. -/
structure Spot (S : Site) (items : List Item) (a a' : Assembler) (L0 L1 L : Layout) : Prop where
  before : Holds L0 a
  after : Holds L1 a'
  drawn : L1 = L0.drawn items
  holds : Holds L S.last
  pieces : L1.pieces <+: L.pieces
  marks : ∀ l k, L1.Known l → L1.mark l = some k → L.Known l ∧ L.mark l = some k

theorem spot (ha : S.Early a) (h : Trace S.target items a a') (ha' : S.Late a') :
    ∃ L0 L1 L, Spot S items a a' L0 L1 L := by
  obtain ⟨pre, hpre⟩ := ha
  have h0 := hpre.holds S.fresh (h.working ha'.working)
  have h1 := h.holds h0 ha'.working
  obtain ⟨L, hL, hpieces, hmarks⟩ := ha'.stays _ h1
  exact ⟨_, _, L, h0, h1, rfl, hL, hpieces, hmarks⟩

variable {L0 L1 L : Layout}

variable {k : Nat}

theorem Spot.piece (h : Spot S items a a' L0 L1 L) {p : Piece} (hp : L1.pieces[k]? = some p) : L.pieces[k]? = some p := by
  obtain ⟨rest, hrest⟩ := h.pieces
  rw [← hrest, List.getElem?_append_left (List.getElem?_eq_some_iff.mp hp).1, hp]

theorem Spot.at_iff (h : Spot S items a a' L0 L1 L) :
    m.pc = S.start + UInt64.ofNat a.buf.offset ↔ m.pc = S.start + UInt64.ofNat (4 * L0.pieces.length) := by
  rw [h.before.offset]

/-- No routine stands in for an instruction of the code. -/
theorem step_inside (h : Holds L S.last) {p : Piece} (hp : L.pieces[k]? = some p)
    (hpc : m.pc = S.start + UInt64.ofNat (4 * k)) : S.world.step m = m.step := by
  have hk := (List.getElem?_eq_some_iff.mp hp).1
  have hsize : S.last.buf.bytes.size = 4 * L.pieces.length := h.offset
  rw [World.step, hpc, S.clear (4 * k) (by omega)]

/-- A label that is bound in the layout is where the layout says. -/
theorem position_of_mark (h : Holds L S.last) {l : Nat} (hl : L.Known l) (hk : L.mark l = some k) :
    ∃ s, S.last.label l = .ok s ∧ s.position? = some (Int64.ofNat (4 * k)) := by
  have := h.label hl
  rw [hk] at this
  exact ⟨_, this, rfl⟩

theorem mark_of_binds (h : Holds L S.last) {l : Label} (hl : S.Binds l) : ∃ k, L.Known l ∧ L.mark l = some k := by
  obtain ⟨s, p, hs, hp⟩ := hl
  have hknown := h.tracks.known hs
  cases hmark : L.mark l with
  | some k => exact ⟨k, hknown, rfl⟩
  | none =>
    have := h.label hknown
    rw [hmark, hs] at this
    cases this
    cases hp

theorem to_of_mark (h : Holds L S.last) {l : Nat} (hl : L.Known l) (hk : L.mark l = some k) (hm : S.Stands m)
    (hpc : m.pc = S.start + UInt64.ofNat (4 * k)) : S.To l m := by
  obtain ⟨s, hs, hp⟩ := position_of_mark h hl hk
  exact ⟨hm, s, _, hs, hp, by rw [hpc, Int64.toUInt64_ofNat']⟩

/-! ## Straight-line code -/

/-- The items of instructions. -/
def words (is : List Inst) : List Item := is.map fun i => .word i.word

theorem drawn_words (L : Layout) (is : List Inst) : L.drawn (words is) = L.write (plain is) := by
  induction is generalizing L with
  | nil => simp [words, plain, Layout.drawn, Layout.write]
  | cons i is ih =>
    show (L.write [.word i.word]).drawn (words is) = _
    rw [ih, write_write]
    rfl

end

end Site

theorem Wrote.trace {t : Target} {is : List Inst} {a a' : Assembler} (h : Wrote is a a') :
    Trace t (Site.words is) a a' := by
  obtain ⟨rfl, -⟩ := h
  induction is generalizing a with
  | nil => exact .nil a
  | cons i is ih => exact .cons trivial rfl ih

namespace Site

section
variable {S : Site} {a a' : Assembler} {m m' : Machine} {L : Layout} {is : List Inst} {F : UInt64 → Prop}

theorem reaches_runs (h : Holds L S.last) (hm : S.Stands m) (hvalid : Valid is) {k : Nat}
    (hp : ∀ j i, is[j]? = some i → L.pieces[k + j]? = some (.word i.word))
    (hpc : m.pc = S.start + UInt64.ofNat (4 * k)) (hF : ∀ addr, F addr → S.Free addr) (hruns : Runs F is m m') :
    S.world.Reaches m m' ∧ S.Stands m' := by
  induction hruns generalizing k with
  | nil m => exact ⟨.refl _ _, hm⟩
  | @cons i is m m1 m' hexec hnext hmem _ ih =>
    have hstep : S.world.step m = some m1 := by
      rw [step_inside h (hp 0 i rfl) hpc, Machine.step_of_decode (i := i) ?_, hexec]
      rw [h.fetch hm (hp 0 i rfl) hpc]
      exact hvalid i List.mem_cons_self
    have hm1 : S.Stands m1 := hm.keep fun addr hnot => hmem addr fun hf => hnot (hF addr hf)
    obtain ⟨hreach, hend⟩ := ih (k := k + 1) hm1 (fun j hj => hvalid j (List.mem_cons_of_mem _ hj))
      (fun j i hi => by rw [Nat.add_right_comm]; exact hp (j + 1) i hi) (by rw [hnext, hpc, pc_next])
    exact ⟨.head hstep hreach, hend⟩

/-- Straight-line code runs from its first instruction to its end. -/
theorem At.runs (hat : S.At a m) (ha : S.Early a) (ha' : S.Late a') (hw : Wrote is a a')
    (hF : ∀ addr, F addr → S.Free addr) (hruns : Runs F is m m') : S.world.Reaches m m' ∧ S.At a' m' := by
  obtain ⟨L0, L1, L, hspot⟩ := spot ha hw.trace ha'
  have hL1 : L1.pieces = L0.pieces ++ plain is := by rw [hspot.drawn, drawn_words]; rfl
  obtain ⟨hreach, hm'⟩ := reaches_runs hspot.holds hat.stands hw.decodes
    (fun j i hi => hspot.piece (by rw [hL1]; exact getElem?_plain (List.append_nil _).symm hi))
    (hspot.at_iff.mp hat.pc) hF hruns
  refine ⟨hreach, hm', ?_⟩
  rw [hruns.pc, hat.pc, hspot.after.offset, hspot.before.offset, hL1, List.length_append, length_plain, Nat.mul_add,
    UInt64.ofNat_add, UInt64.add_assoc]

end

/-! ## What work does -/

/-- A way out of the code of some work other than its end. -/
inductive Exit where
  | label (l : Label)
  | away

/-- What holds of machines that take an exit. -/
abbrev Exits := Exit → Machine → Prop

/-- No exit is taken. -/
def Exits.none : Exits := fun _ _ => False

/-- One more exit. -/
def Exits.or (E : Exits) (e : Exit) (P : Machine → Prop) : Exits := fun e' m => e' = e ∧ P m ∨ E e' m

/-- The machine has taken an exit. -/
def Leaves (S : Site) (E : Exits) (m : Machine) : Prop := E .away m ∨ ∃ l, S.To l m ∧ E (.label l) m

/-- Run from the machine in front of it, the code of the work comes to its end, with `Q` for the
result of the work and the machine there, or takes an exit. -/
def Does (S : Site) {α : Type} (x : Asm α) (m : Machine) (E : Exits) (Q : α → Machine → Prop) : Prop :=
  ∀ a r a', x S.target a = .ok (r, a') → S.Early a → S.Late a' → S.At a m →
    ∃ m', S.world.Reaches m m' ∧ (S.At a' m' ∧ Q r m' ∨ S.Leaves E m')

section
variable {S : Site} {α β : Type} {m : Machine} {E : Exits} {a a' : Assembler}

theorem Leaves.imp {E' : Exits} (h : S.Leaves E m) (hE : ∀ e m, E e m → E' e m) : S.Leaves E' m := by
  rcases h with h | ⟨l, hl, h⟩
  · exact .inl (hE _ _ h)
  · exact .inr ⟨l, hl, hE _ _ h⟩

variable {x : Asm α} {Q : α → Machine → Prop} {l : Label}

theorem Does.imp {Q' : α → Machine → Prop} {E' : Exits} (h : S.Does x m E Q) (hE : ∀ e m, E e m → E' e m)
    (hQ : ∀ r m, Q r m → Q' r m) : S.Does x m E' Q' := by
  intro a r a' hx ha ha' hat
  obtain ⟨m', hreach, ⟨hat', hq⟩ | hleave⟩ := h a r a' hx ha ha' hat
  · exact ⟨m', hreach, .inl ⟨hat', hQ r m' hq⟩⟩
  · exact ⟨m', hreach, .inr (hleave.imp hE)⟩

/-- The machines at the end of a run were reached from its beginning. -/
theorem Does.reaching (h : S.Does x m E Q) :
    S.Does x m (fun e m' => S.world.Reaches m m' ∧ E e m') fun r m' => S.world.Reaches m m' ∧ Q r m' := by
  intro a r a' hx ha ha' hat
  obtain ⟨m', hreach, ⟨hat', hq⟩ | haway | ⟨l, hl, hlabel⟩⟩ := h a r a' hx ha ha' hat
  · exact ⟨m', hreach, .inl ⟨hat', hreach, hq⟩⟩
  · exact ⟨m', hreach, .inr (.inl ⟨hreach, haway⟩)⟩
  · exact ⟨m', hreach, .inr (.inr ⟨l, hl, hreach, hlabel⟩)⟩

theorem does_pure {r : α} (h : Q r m) : S.Does (pure r) m E Q := by
  intro a s a' hx _ _ hat
  obtain ⟨rfl, rfl⟩ := Asm.pure_eq_ok.mp hx
  exact ⟨m, .refl _ _, .inl ⟨hat, h⟩⟩

theorem does_lift {e : Except Fault α} (h : ∀ r, e = .ok r → Q r m) : S.Does (liftM e) m E Q := by
  intro a s a' hx _ _ hat
  obtain ⟨he, rfl⟩ := Asm.lift_eq_ok.mp hx
  exact ⟨m, .refl _ _, .inl ⟨hat, h s he⟩⟩

theorem Does.bind {f : α → Asm β} {Q : β → Machine → Prop} [hx : x.Traced] [hf : ∀ r, (f r).Traced]
    (h : S.Does x m E fun r m' => S.Does (f r) m' E Q) : S.Does (x >>= f) m E Q := by
  intro a s a' hrun ha ha' hat
  obtain ⟨r, b, hr, hs⟩ := Asm.bind_eq_ok.mp hrun
  obtain ⟨is, htrace, -⟩ := hx.trace _ _ _ _ ha.behind hr
  have hb := ha.append htrace
  obtain ⟨js, htrace', -⟩ := (hf r).trace _ _ _ _ hb.behind hs
  obtain ⟨m1, hreach, ⟨hat1, hrest⟩ | hleave⟩ := h a r b hr ha (ha'.append htrace') hat
  · obtain ⟨m', hreach', hend⟩ := hrest b s a' hs hb ha' hat1
    exact ⟨m', hreach.trans hreach', hend⟩
  · exact ⟨m1, hreach, .inr hleave⟩

/-- What is only noted: labels, maps, stubs. -/
theorem does_silent (hx : ∀ t a r a', S.Early a → x t a = .ok (r, a') → a'.buf.offset = a.buf.offset) (h : ∀ r, Q r m) :
    S.Does x m E Q := by
  intro a r a' hrun ha _ hat
  refine ⟨m, .refl _ _, .inl ⟨⟨hat.stands, ?_⟩, h r⟩⟩
  rw [hat.pc, hx _ _ _ _ ha hrun]

theorem does_newLabel {Q : Label → Machine → Prop} (h : ∀ l, Q l m) : S.Does Asm.newLabel m E Q := by
  refine does_silent (fun t a r a' _ hrun => ?_) h
  cases hrun
  rfl

theorem offset_bindLabel {t : Target} (h : Asm.bind l t a = .ok ((), a')) : a'.buf.offset = a.buf.offset := by
  obtain ⟨s, -, h⟩ := except_bind_eq_ok.mp (Asm.change_eq_ok.mp h)
  obtain ⟨us, -, h⟩ := except_bind_eq_ok.mp h
  obtain ⟨b, hb, h⟩ := except_bind_eq_ok.mp h
  cases h
  rw [← Array.foldlM_toList] at hb
  exact (patched_patchUses hb).offset

theorem lastBind_bindLabel {t : Target} (h : Asm.bind l t a = .ok ((), a')) : a'.lastBind = some a'.buf.offset := by
  rw [offset_bindLabel h]
  obtain ⟨s, -, h⟩ := except_bind_eq_ok.mp (Asm.change_eq_ok.mp h)
  obtain ⟨us, -, h⟩ := except_bind_eq_ok.mp h
  obtain ⟨b, -, h⟩ := except_bind_eq_ok.mp h
  cases h
  rfl

theorem does_bindLabel {Q : Unit → Machine → Prop} (h : Q () m) : S.Does (Asm.bind l) m E Q :=
  does_silent (fun _ _ _ _ _ hrun => offset_bindLabel hrun) fun _ => h

theorem does_addOopMap {map : OopMap} {Q : Unit → Machine → Prop} (h : Q () m) : S.Does (Asm.addOopMap map) m E Q := by
  refine does_silent (fun t a r a' _ hrun => ?_) fun _ => h
  rcases addOopMap_cases hrun with ⟨-, rfl⟩ | ⟨-, maps, -, rfl⟩ <;> rfl

/-! ## Instructions -/

/-- The machine after bytes were written, with scratch registers. -/
structure Stored (tmps : List Reg) (addr : UInt64) (n : Nat) (v : UInt64) (m m' : Machine) : Prop where
  mem : m'.mem = m.mem.write addr n v
  rest : ∀ r, r ∉ tmps → m'.get r = m.get r

theorem does_puts {x : Asm Unit} {rd : Reg} {tmps : List Reg} {v : Machine → UInt64} {Q : Unit → Machine → Prop}
    (hx : ∀ t a a', x t a = .ok ((), a') → ∃ is, Wrote is a a' ∧ Puts is rd tmps v)
    (h : ∀ m', Put rd tmps (v m) m m' → Q () m') : S.Does x m E Q := by
  intro a _ a' hrun ha ha' hat
  obtain ⟨is, hw, hputs⟩ := hx _ _ _ hrun
  obtain ⟨m', hruns, hput⟩ := hputs (fun _ => False) m
  obtain ⟨hreach, hat'⟩ := hat.runs ha ha' hw (fun _ h => h.elim) hruns
  exact ⟨m', hreach, .inl ⟨hat', h m' hput⟩⟩

theorem does_stores {x : Asm Unit} {tmps : List Reg} {addr v : Machine → UInt64} {n : Nat} {Q : Unit → Machine → Prop}
    (hx : ∀ t a a', x t a = .ok ((), a') → ∃ is, Wrote is a a' ∧ Stores is tmps addr n v)
    (hfree : ∀ i < n, S.Free (addr m + UInt64.ofNat i)) (h : ∀ m', Stored tmps (addr m) n (v m) m m' → Q () m') :
    S.Does x m E Q := by
  intro a _ a' hrun ha ha' hat
  obtain ⟨is, hw, hstores⟩ := hx _ _ _ hrun
  obtain ⟨m', hruns, hmem, hrest⟩ := hstores S.Free m hfree
  obtain ⟨hreach, hat'⟩ := hat.runs ha ha' hw (fun _ h => h) hruns
  exact ⟨m', hreach, .inl ⟨hat', h m' ⟨hmem, hrest⟩⟩⟩

end

/-! ## Labels and single instructions -/

section
variable {S : Site} {m : Machine} {a a' : Assembler} {c : Call} {l : Label} {i : Inst}

theorem trace_call {t : Target} (hc : c.Proper) (h : c.run t a = .ok ((), a')) :
    Trace t [.call c] a a' := .cons hc h (.nil a')

/-- The pieces of a call, where they are in the finished code. -/
theorem Spot.written {ps : List Piece} {L0 L1 : Layout} (h : Spot S [.call c] a a' L0 L1 L)
    (hc : L0.after c = L0.write ps)
    {j : Nat} {p : Piece} (hj : ps[j]? = some p) : L.pieces[L0.pieces.length + j]? = some p := by
  refine h.piece ?_
  rw [h.drawn, show L0.drawn [.call c] = L0.after c from rfl, hc, Layout.write,
    List.getElem?_append_right (Nat.le_add_right ..), Nat.add_sub_cancel_left, hj]

theorem Spot.pc_after {ps : List Piece} {L0 L1 : Layout} (h : Spot S [.call c] a a' L0 L1 L)
    (hc : L0.after c = L0.write ps) :
    a'.buf.offset = 4 * (L0.pieces.length + ps.length) := by
  rw [h.after.offset, h.drawn, show L0.drawn [.call c] = L0.after c from rfl, hc, Layout.write, List.length_append]

/-- A label that is bound is bound where the machine goes that leaves for it. -/
theorem To.at_bind (h : Asm.bind l S.target a = .ok ((), a')) (ha : S.Early a) (ha' : S.Late a') :
    S.Binds l ∧ ∀ m, S.To l m → S.At a m := by
  obtain ⟨L0, L1, L, hspot⟩ := spot ha (trace_call (c := .bind l) trivial h) ha'
  have hlegal := hspot.before.legal (c := .bind l) trivial h
  have hmark1 : L1.mark l = some L0.pieces.length := by
    rw [hspot.drawn]
    show (L0.place l).mark l = _
    rw [Layout.mark_place hlegal.1 hlegal.1, if_pos rfl]
  have hknown1 : L1.Known l := by
    rw [hspot.drawn]
    exact known_after (c := .bind l) hlegal.1
  obtain ⟨hknown, hmark⟩ := hspot.marks l _ hknown1 hmark1
  obtain ⟨s, hs, hp⟩ := position_of_mark hspot.holds hknown hmark
  refine ⟨⟨s, _, hs, hp⟩, fun m hm => ⟨hm.1, ?_⟩⟩
  obtain ⟨-, s', p, hs', hp', hpc⟩ := hm
  rw [hs] at hs'
  cases hs'
  rw [hp] at hp'
  cases hp'
  rw [hpc, Int64.toUInt64_ofNat', hspot.before.offset]

/-- The last instruction of a piece of code, which may go anywhere. -/
theorem At.exec (hat : S.At a m) (ha : S.Early a) (ha' : S.Late a') (hw : Wrote [i] a a') :
    S.world.step m = m.exec i ∧ m.pc + 4 = S.start + UInt64.ofNat a'.buf.offset := by
  obtain ⟨L0, L1, L, hspot⟩ := spot ha hw.trace ha'
  have hL1 : L1.pieces = L0.pieces ++ [Piece.word i.word] := by rw [hspot.drawn, drawn_words]; rfl
  have hpc := hspot.at_iff.mp hat.pc
  have hp : L.pieces[L0.pieces.length]? = some (.word i.word) :=
    hspot.piece (by rw [hL1, List.getElem?_concat_length])
  constructor
  · rw [step_inside hspot.holds hp hpc, Machine.step_of_decode (i := i) ?_]
    rw [hspot.holds.fetch hat.stands hp hpc]
    exact hw.decodes i (List.mem_singleton.mpr rfl)
  · rw [hpc, pc_next, hspot.after.offset, hL1, List.length_append]
    rfl

end

end Site

end RiscvJit

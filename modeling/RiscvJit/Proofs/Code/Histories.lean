import RiscvJit.Proofs.Code.Site

/-
  RiscvJit.Proofs.Code.Histories — running generated code among other threads, and what is told of it.

  Threads share memory. Between two instructions of a thread the others may change it, and take the
  reservation away that a reserving load has made; registers and the program counter are the thread's
  own. A `Company` says what the others may do there, and what the thread does to memory in return.

  Something may be noted of every instruction, by what memory was before and after it (`Note`).
  `S.Tells C note x h m E Q` says of the work `x` that a machine in front of its code, with `h` noted so
  far, runs through it in such company, whatever the others do in between: it gets to the end with `Q`, or
  leaves with `E`, of what is noted by then. Its rules follow the generator, as those of `S.Does` do.

  What is concluded at the end is left open: a predicate is a `Chronicle` when it holds before an
  instruction if it holds after it. The history of a thread is the most that can be noted: an `Event` for
  every instruction (`S.Narrates`, `World.Turns`). Here memory at the end says little about what the code
  did to it, and a conditional store may fail though nobody wrote to the word.
-/

namespace RiscvJit

open Machine
open Asm

/-! ## What threads share -/

/-- Memory, and the address that is reserved. -/
structure Shared where
  mem : Ram
  reserved : Option UInt64

namespace Machine

/-- What a machine shares with others. -/
def shared (m : Machine) : Shared := ⟨m.mem, m.reserved⟩

/-- The machine, when others have changed what is shared. -/
def within (m : Machine) (s : Shared) : Machine := { m with mem := s.mem, reserved := s.reserved }

variable (m : Machine) (s : Shared) (r : Reg)

@[simp] theorem within_shared : m.within m.shared = m := rfl
@[simp] theorem shared_within : (m.within s).shared = s := rfl
@[simp] theorem within_pc : (m.within s).pc = m.pc := rfl
@[simp] theorem within_mem : (m.within s).mem = s.mem := rfl

@[simp] theorem get_within : (m.within s).get r = m.get r := by
  cases r <;> rfl

@[simp] theorem set_reserved (v : UInt64) : (m.set r v).reserved = m.reserved := by
  cases r with
  | x n => by_cases hn : n = 0 <;> simp [set, hn]
  | f n => rfl
  | none => rfl

theorem shared_set (v : UInt64) : (m.set r v).shared = m.shared := by
  rw [shared, set_mem, set_reserved, shared]

theorem shared_next : m.next.shared = m.shared := rfl

end Machine

/-- What other threads may do between two instructions, and what this one may do in an instruction. -/
structure Company (S : Site) where
  others : Shared → Shared → Prop
  ours : Ram → Ram → Prop
  refl : ∀ s, others s s
  trans : ∀ {s s1 s'}, others s s1 → others s1 s' → others s s'
  quiet : ∀ mem, ours mem mem
  /-- The code is not changed. -/
  keeps : ∀ {s s'}, others s s' → ∀ addr, ¬ S.Free addr → s'.mem addr = s.mem addr
  /-- Nothing is said of how long the code runs. -/
  endless : Prop

namespace Company

variable {S : Site} (C : Company S)

/-- Others have had their turn. -/
structure Idled (m m' : Machine) : Prop where
  regs : ∀ r, m'.get r = m.get r
  others : C.others m.shared m'.shared

/-- A register was set, and others have had their turns. -/
structure Went (rd : Reg) (v : UInt64) (m m' : Machine) : Prop where
  value : m'.get rd = v
  rest : ∀ r, r ≠ rd → m'.get r = m.get r
  others : C.others m.shared m'.shared

variable {C} {m m1 m' : Machine} {rd : Reg} {v w : UInt64}

theorem Went.trans (h : C.Went rd v m m1) (h' : C.Went rd w m1 m') : C.Went rd w m m' :=
  ⟨h'.value, fun r hr => (h'.rest r hr).trans (h.rest r hr), C.trans h.others h'.others⟩

end Company

/-! ## Telling -/

/-- An instruction of a thread, by what memory was before and after it. -/
structure Event where
  before : Ram
  after : Ram

/-- The instruction wrote nothing. -/
def Event.Quiet (e : Event) : Prop := e.after = e.before

/-- A thread executes instructions of some code, and others have their turn before each. -/
inductive World.Turns (W : World) (others : Shared → Shared → Prop) (In : UInt64 → Prop) :
    Machine → List Event → Machine → Prop
  | rest (m : Machine) : Turns W others In m [] m
  | turn {m m1 m' : Machine} {s : Shared} {es : List Event} : In m.pc → others m.shared s →
    W.step (m.within s) = some m1 →
      Turns W others In m1 es m' → Turns W others In m (⟨s.mem, m1.mem⟩ :: es) m'

/-- What is noted after an instruction, of what was noted before and of memory before and after it. -/
abbrev Note (σ : Type) := σ → Ram → Ram → σ → Prop

/-- Everything that was done to memory. -/
def logged : Note (List Event) := fun h before after h' => h' = h ++ [⟨before, after⟩]

namespace Site

/-- A predicate that holds before an instruction of the code when it holds after it, whatever others do in
between. The number says how many more instructions are looked at. -/
structure Chronicle {σ : Type} {S : Site} (C : Company S) (note : Note σ) (In : UInt64 → Prop)
    (K : Nat → σ → Machine → Prop) :
    Prop where
  back : ∀ {n h m}, In m.pc → (∀ s, C.others m.shared s → ∃ m' h', S.world.step (m.within s) = some m' ∧
    note h s.mem m'.mem h' ∧ K (n - 1) h' m') → K n h m
  weaken : ∀ {n h m}, K n h m → K (n - 1) h m
  start : C.endless → ∀ h m, K 0 h m

/-- The code between two assemblers. -/
def Between (S : Site) (a a' : Assembler) (pc : UInt64) : Prop :=
  ∃ k, a.buf.offset ≤ k ∧ k < a'.buf.offset ∧ pc = S.start + UInt64.ofNat k

/-- Run among others with what was noted so far, the code of the work comes to its end, or is left. -/
def Tells {σ : Type} (S : Site) (C : Company S) (note : Note σ) {α : Type} (x : Asm α) (h : σ) (m : Machine)
    (E : σ → Exits)
    (Q : α → σ → Machine → Prop) : Prop :=
  ∀ a r a', x S.target a = .ok (r, a') → S.Early a → S.Late a' → S.At a m →
    ∀ In K, Chronicle C note In K → (∀ pc, S.Between a a' pc → In pc) → ∀ n,
      (∀ h' m', S.At a' m' → Q r h' m' → K n h' m') →
      (∀ h' l m', S.To l m' → E h' (.label l) m' → K (n - 1) h' m') → K n h m

/-- Run among others with the history so far. -/
abbrev Narrates (S : Site) (C : Company S) {α : Type} (x : Asm α) (h : List Event) (m : Machine) (E : List Event → Exits)
    (Q : α → List Event → Machine → Prop) : Prop := S.Tells C logged x h m E Q

section
variable {σ : Type} {S : Site} {C : Company S} {note : Note σ} {α β : Type} {m : Machine} {h : σ} {E E' : σ → Exits}
  {a b a' : Assembler} {items : List Item} {pc : UInt64} {x : Asm α} {Q : α → σ → Machine → Prop}

theorem Between.first {t : Target} (h : S.Between a b pc) (h' : Trace t items b a') : S.Between a a' pc := by
  obtain ⟨k, hlow, hhigh, e⟩ := h
  exact ⟨k, hlow, Nat.lt_of_lt_of_le hhigh h'.steady.offset, e⟩

theorem Between.second {t : Target} (h : S.Between b a' pc) (h' : Trace t items a b) : S.Between a a' pc := by
  obtain ⟨k, hlow, hhigh, e⟩ := h
  exact ⟨k, Nat.le_trans h'.steady.offset hlow, hhigh, e⟩

theorem Tells.imp {Q' : α → σ → Machine → Prop} (ht : S.Tells C note x h m E Q) (hE : ∀ h e m, E h e m → E' h e m)
    (hQ : ∀ r h m, Q r h m → Q' r h m) : S.Tells C note x h m E' Q' := by
  intro a r a' hx ha ha' hat In K hout hin n hend hexit
  exact ht a r a' hx ha ha' hat In K hout hin n (fun h' m' hat' hq => hend h' m' hat' (hQ r h' m' hq))
    fun h' l m' hl he => hexit h' l m' hl (hE _ _ _ he)

/-- What is only noted: labels, maps, stubs. -/
theorem tells_silent (hx : ∀ a r a', S.Early a → x S.target a = .ok (r, a') → a'.buf.offset = a.buf.offset ∧ Q r h m) :
    S.Tells C note x h m E Q := by
  intro a r a' hrun ha _ hat In K _ _ n hend _
  obtain ⟨hsame, hq⟩ := hx a r a' ha hrun
  exact hend h m ⟨hat.stands, by rw [hat.pc, hsame]⟩ hq

theorem tells_pure {r : α} (hq : Q r h m) : S.Tells C note (pure r) h m E Q :=
  tells_silent fun _ _ _ _ hx => by
    obtain ⟨rfl, rfl⟩ := pure_eq_ok.mp hx
    exact ⟨rfl, hq⟩

theorem tells_newLabel {Q : Label → σ → Machine → Prop} (hq : ∀ l, Q l h m) : S.Tells C note newLabel h m E Q :=
  tells_silent fun _ _ _ _ hx => by
    cases hx
    exact ⟨rfl, hq _⟩

theorem Tells.bind {f : α → Asm β} {Q : β → σ → Machine → Prop} [hx : x.Traced] [hf : ∀ r, (f r).Traced]
    (ht : S.Tells C note x h m E fun r h' m' => S.Tells C note (f r) h' m' E Q) : S.Tells C note (x >>= f) h m E Q := by
  intro a s a' hrun ha ha' hat In K hout hin n hend hexit
  obtain ⟨r, b, hr, hs⟩ := bind_eq_ok.mp hrun
  obtain ⟨is, htrace, -⟩ := hx.trace _ _ _ _ ha.behind hr
  have hb := ha.append htrace
  obtain ⟨js, htrace', -⟩ := (hf r).trace _ _ _ _ hb.behind hs
  refine ht a r b hr ha (ha'.append htrace') hat In K hout (fun pc hpc => hin pc (hpc.first htrace')) n
    (fun h1 m1 hat1 hrest => ?_) hexit
  exact hrest b s a' hs hb ha' hat1 In K hout (fun pc hpc => hin pc (hpc.second htrace)) n hend hexit

/-- What leaves work for a label that is bound at its end goes on there. -/
theorem Tells.label {f : α → Asm β} {l : Label} {Q : β → σ → Machine → Prop} [hx : x.Traced]
    [hf : ∀ r, (f r).Traced]
    (ht : S.Binds l → S.Tells C note x h m (fun h' => (E h').or (.label l) fun m' => ∀ r, S.Tells C note (f r) h' m' E Q)
      fun r h' m' => S.Tells C note (f r) h' m' E Q) : S.Tells C note (x >>= fun r => Asm.bind l >>=
        fun _ => f r) h m E Q := by
  intro a s a' hrun ha ha' hat In K hout hin n hend hexit
  obtain ⟨r, b, hr, hrun⟩ := bind_eq_ok.mp hrun
  obtain ⟨_, c, hbind, hs⟩ := bind_eq_ok.mp hrun
  obtain ⟨is, htrace, -⟩ := hx.trace _ _ _ _ ha.behind hr
  have hb := ha.append htrace
  have hlabel := trace_call (c := .bind l) trivial hbind
  have hc := hb.append hlabel
  obtain ⟨js, htrace', -⟩ := (hf r).trace _ _ _ _ hc.behind hs
  have hc' := ha'.append htrace'
  obtain ⟨hbinds, hto⟩ := To.at_bind hbind hb hc'
  -- the label is bound where the work ends, so both ways go on from there
  have goOn {h1 : σ} {m1 : Machine} (hat1 : S.At b m1) (hrest : S.Tells C note (f r) h1 m1 E Q) (k : Nat)
      (hend : ∀ h' m', S.At a' m' → Q s h' m' → K k h' m') (hexit : ∀ h' l m', S.To l m' →
      E h' (.label l) m' → K (k - 1) h' m') :
      K k h1 m1 := by
    have hatc : S.At c m1 := ⟨hat1.stands, by rw [hat1.pc, offset_bindLabel hbind]⟩
    exact hrest c s a' hs hc ha' hatc In K hout (fun pc hpc => hin pc ((hpc.second hlabel).second htrace)) k hend hexit
  refine ht hbinds a r b hr ha (hc'.append hlabel) hat In K hout (fun pc hpc =>
    hin pc ((hpc.first hlabel).first htrace')) n
    (fun h1 m1 hat1 hrest => goOn hat1 hrest n hend hexit) fun h1 l' m1 hl' he => ?_
  rcases he with ⟨e, hrest⟩ | he
  · cases e
    exact goOn (hto m1 hl') (hrest r) (n - 1) (fun h' m' hat' hq => hout.weaken (hend h' m' hat' hq))
      fun h' l m' hl he => hout.weaken (hexit h' l m' hl he)
  · exact hexit h1 l' m1 hl' he

/-- Work that may jump back to its beginning, over and over. -/
theorem Tells.loop {l : Label} [hx : x.Traced] (I : σ → Machine → Prop) (hendless : C.endless)
    (ht : S.Binds l → ∀ h m, I h m → S.Tells C note x h m (fun h' => (E h').or (.label l) (I h')) Q) (hI : I h m) :
    S.Tells C note (Asm.bind l >>= fun _ => x) h m E Q := by
  intro a s a' hrun ha ha' hat In K hout hin n hend hexit
  obtain ⟨_, b, hbind, hs⟩ := bind_eq_ok.mp hrun
  have hlabel := trace_call (c := .bind l) trivial hbind
  have hb := ha.append hlabel
  obtain ⟨js, htrace, -⟩ := hx.trace _ _ _ _ hb.behind hs
  obtain ⟨hbinds, hto⟩ := To.at_bind hbind ha (ha'.append htrace)
  -- induction on how many more instructions are looked at: coming round takes at least one
  induction n generalizing h m with
  | zero => exact hout.start hendless h m
  | succ n ih =>
    have hatb : S.At b m := ⟨hat.stands, by rw [hat.pc, offset_bindLabel hbind]⟩
    refine ht hbinds h m hI b s a' hs hb ha' hatb In K hout (fun pc hpc => hin pc (hpc.second hlabel)) (n + 1) hend
      fun h' l' m' hl' he => ?_
    rcases he with ⟨e, hI'⟩ | he
    · cases e
      exact ih hI' (hto m' hl') (fun h' m' hat' hq => hout.weaken (hend h' m' hat' hq)) fun h' l m' hl he =>
        hout.weaken (hexit h' l m' hl he)
    · exact hexit h' l' m' hl' he

theorem offset_wrote {i : Inst} (h : Wrote [i] a a') (hw : a'.buf.failed = false) : a'.buf.offset = a.buf.offset + 4 := by
  obtain ⟨rfl, -⟩ := h
  exact offset_emit4_working hw

/-- The machine stays in front of the code while others have their turn. -/
theorem At.within (h : S.At a m) {s : Shared} (hs : C.others m.shared s) : S.At a (m.within s) :=
  ⟨h.stands.keep fun addr hnot => C.keeps hs addr hnot, h.pc⟩

/-- One instruction, after others have had their turn. -/
theorem tells_exec {x : Asm Unit} {Q : Unit → σ → Machine → Prop}
    (ht : ∀ a a', x S.target a = .ok ((), a') → ∃ i, Wrote [i] a a' ∧ ∀ s, C.others m.shared s → ∃ m' h',
      (m.within s).exec i = some m' ∧ m'.pc = m.pc + 4 ∧ (∀ addr, ¬ S.Free addr → m'.mem addr = s.mem addr) ∧
        note h s.mem m'.mem h' ∧ Q () h' m') : S.Tells C note x h m E Q := by
  intro a _ a' hrun ha ha' hat In K hout hin n hend _
  obtain ⟨i, hw, hi⟩ := ht a a' hrun
  refine hout.back (hin _ ⟨_, Nat.le_refl _, ?_, hat.pc⟩) fun s hs => ?_
  · have := offset_wrote hw ha'.working
    omega
  · have hat' := hat.within hs
    obtain ⟨hstep, hpc⟩ := hat'.exec ha ha' hw
    obtain ⟨m', h', hexec, hnext, hmem, hnote, hq⟩ := hi s hs
    refine ⟨m', h', hstep.trans hexec, hnote, hout.weaken (hend _ m' ⟨hat'.stands.keep hmem, ?_⟩ hq)⟩
    rw [hnext]
    exact hpc

end

/-! ## Reservations -/

section
variable {S : Site} {C : Company S} {m : Machine} {h : List Event} {rd rs addr : Reg} {aqrl : UInt32} {o : Op} {n : Nat}

/-- A reserving load was executed: the register holds what was read, and the address is reserved. -/
structure Reserved (rd : Reg) (v addr : UInt64) (s : Shared) (m m' : Machine) : Prop where
  value : m'.get rd = v
  rest : ∀ r, r ≠ rd → m'.get r = m.get r
  shared : m'.shared = ⟨s.mem, some addr⟩

/-- A conditional store was executed: the register is zero if it stored. -/
structure Decided (rd : Reg) (v : UInt64) (mem : Ram) (m m' : Machine) : Prop where
  value : m'.get rd = v
  rest : ∀ r, r ≠ rd → m'.get r = m.get r
  shared : m'.shared = ⟨mem, none⟩

theorem lr_reserves (ho : o = .lrW ∧ n = 4 ∨ o = .lrD ∧ n = 8) (ha : aqrl < 4) (hk : Keeps rd) {a a' : Assembler}
    (hrun : lr o rd addr aqrl S.target a = .ok ((), a')) : ∃ i, Wrote [i] a a' ∧ ∀ s, ∃ m',
    (m.within s).exec i = some m' ∧
      m'.pc = m.pc + 4 ∧ m'.mem = s.mem ∧ Reserved rd (o.extend (s.mem.read (m.get addr) n)) (m.get addr) s m m' := by
  have hw : Wrote [o.instOf rd addr .none 0 aqrl 0] a a' := by
    rcases ho with ⟨rfl, -⟩ | ⟨rfl, -⟩ <;> exact wrote_ordered hrun ha (by decide) nofun nofun (fun _ => rfl) rfl rfl
  refine ⟨_, hw, fun s => ⟨{ (m.within s).next.set rd (o.extend (s.mem.read (m.get addr) n)) with reserved := some (m.get addr) },
    ?_, (set_pc ..).trans rfl, set_mem .., ?_, fun r hr => ?_, ?_⟩⟩
  · rw [← get_within m s addr]
    rcases ho with ⟨rfl, rfl⟩ | ⟨rfl, rfl⟩ <;> rfl
  · exact (get_set _ hk _ rd).trans (if_pos rfl)
  · exact ((get_set _ hk _ r).trans (if_neg hr)).trans ((get_next ..).trans (get_within ..))
  · rw [Machine.shared, set_mem]
    rfl

theorem sc_decides (ho : o = .scW ∧ n = 4 ∨ o = .scD ∧ n = 8) (ha : aqrl < 4) (hk : Keeps rd) {a a' : Assembler}
    (hrun : sc o rd rs addr aqrl S.target a = .ok ((), a')) : ∃ i, Wrote [i] a a' ∧ ∀ s, ∃ m',
    (m.within s).exec i = some m' ∧
      m'.pc = m.pc + 4 ∧ (s.reserved = some (m.get addr) → Decided rd 0 (s.mem.write (m.get addr) n (m.get rs)) m m') ∧
        (s.reserved ≠ some (m.get addr) → Decided rd 1 s.mem m m') := by
  have hw : Wrote [o.instOf rd addr rs 0 aqrl 0] a a' := by
    rcases ho with ⟨rfl, -⟩ | ⟨rfl, -⟩ <;> exact wrote_ordered hrun ha (by decide) nofun nofun nofun rfl rfl
  have hexec (s : Shared) : (m.within s).exec (o.instOf rd addr rs 0 aqrl 0) =
      some ((m.within s).next.storeConditional rd (m.get addr) n (m.get rs)) := by
    rw [← get_within m s addr, ← get_within m s rs]
    rcases ho with ⟨rfl, rfl⟩ | ⟨rfl, rfl⟩ <;> rfl
  -- whichever way it is decided, one register is set and the reservation is used up
  have decided (s : Shared) (mem : Ram) (v : UInt64) :
      Decided rd v mem m { ({ (m.within s).next with mem := mem } : Machine).set rd v with reserved := none } := by
    refine ⟨(get_set _ hk v rd).trans (if_pos rfl), fun r hr => ?_, ?_⟩
    · exact ((get_set _ hk v r).trans (if_neg hr)).trans ((get_next (m.within s) r).trans (get_within ..))
    · rw [Machine.shared, set_mem]
  refine ⟨_, hw, fun s => ⟨_, hexec s, ?_, fun hres => ?_, fun hres => ?_⟩⟩
  · rw [storeConditional]
    split <;> exact (set_pc ..).trans rfl
  · rw [storeConditional, if_pos (show (m.within s).next.reserved = _ from hres)]
    exact decided s _ 0
  · rw [storeConditional, if_neg (show (m.within s).next.reserved ≠ _ from hres)]
    exact decided s s.mem 1

/-- The bytes of a word are none of the code, so writing them changes no code. -/
theorem write_free {a v : UInt64} {mem : Ram} (hfree : ∀ i < n, S.Free (a + UInt64.ofNat i)) (x : UInt64)
    (hx : ¬ S.Free x) :
    mem.write a n v x = mem x := by
  refine Ram.write_outside _ _ (Nat.le_of_not_lt fun hlt => hx ?_)
  have := hfree _ hlt
  rwa [UInt64.ofNat_toNat, UInt64.add_comm, UInt64.sub_add_cancel] at this

section
variable {Q : Unit → List Event → Machine → Prop} {E : List Event → Exits} (ha : aqrl < 4) (hk : Keeps rd)
include ha hk

theorem narrates_lr (ho : o = .lrW ∧ n = 4 ∨ o = .lrD ∧ n = 8)
    (hq : ∀ s, C.others m.shared s → ∀ m', Reserved rd (o.extend (s.mem.read (m.get addr) n)) (m.get addr) s m m' →
      Q () (h ++ [⟨s.mem, s.mem⟩]) m') : S.Narrates C (lr o rd addr aqrl) h m E Q := by
  refine tells_exec fun a a' hrun => ?_
  obtain ⟨i, hw, hi⟩ := lr_reserves (m := m) ho ha hk hrun
  refine ⟨i, hw, fun s hs => ?_⟩
  obtain ⟨m', hexec, hpc, hmem, hreserved⟩ := hi s
  refine ⟨m', _, hexec, hpc, fun _ _ => by rw [hmem], rfl, ?_⟩
  rw [hmem]
  exact hq s hs m' hreserved

/-- A conditional store may fail for no reason. -/
theorem narrates_sc (ho : o = .scW ∧ n = 4 ∨ o = .scD ∧ n = 8) (hfree : ∀ i < n, S.Free (m.get addr + UInt64.ofNat i))
    (hstored : ∀ s, C.others m.shared s → s.reserved = some (m.get addr) → ∀ m',
      Decided rd 0 (s.mem.write (m.get addr) n (m.get rs)) m m' →
      Q () (h ++ [⟨s.mem, s.mem.write (m.get addr) n (m.get rs)⟩]) m')
    (hfailed : ∀ s, C.others m.shared s → ∀ m', Decided rd 1 s.mem m m' → Q () (h ++ [⟨s.mem, s.mem⟩]) m') :
    S.Narrates C (sc o rd rs addr aqrl) h m E Q := by
  refine tells_exec fun a a' hrun => ?_
  obtain ⟨i, hw, hi⟩ := sc_decides (m := m) ho ha hk hrun
  refine ⟨i, hw, fun s hs => ?_⟩
  obtain ⟨m', hexec, hpc, hyes, hno⟩ := hi s
  refine ⟨m', h ++ [⟨s.mem, m'.mem⟩], hexec, hpc, ?_⟩
  by_cases hres : s.reserved = some (m.get addr)
  · have hdecided := hyes hres
    have hmem : m'.mem = s.mem.write (m.get addr) n (m.get rs) := congrArg Shared.mem hdecided.shared
    rw [hmem]
    exact ⟨fun x hx => write_free hfree x hx, rfl, hstored s hs hres m' hdecided⟩
  · have hdecided := hno hres
    have hmem : m'.mem = s.mem := congrArg Shared.mem hdecided.shared
    rw [hmem]
    exact ⟨fun _ _ => rfl, rfl, hfailed s hs m' hdecided⟩

end

end

/-! ## Runs -/

section
variable {σ : Type} {S : Site} {C : Company S} {note : Note σ} {In : UInt64 → Prop} {Post : σ → Machine → Prop}
  {n : Nat} {h : σ} {m m' : Machine}

/-- For a number of instructions the code can go on, whatever the others do, and it is left with `Post`. -/
def Recounts (C : Company S) (note : Note σ) (In : UInt64 → Prop) (Post : σ → Machine → Prop) : Nat → σ → Machine → Prop
  | 0, _, _ => True
  | n + 1, h, m => (In m.pc → ∀ s, C.others m.shared s → ∃ m' h', S.world.step (m.within s) = some m' ∧
      note h s.mem m'.mem h' ∧ Recounts C note In Post n h' m') ∧ (¬ In m.pc → Post h m)

theorem Recounts.less (hr : Recounts C note In Post (n + 1) h m) : Recounts C note In Post n h m := by
  induction n generalizing h m with
  | zero => trivial
  | succ n ih =>
    refine ⟨fun hin s hs => ?_, hr.2⟩
    obtain ⟨m', h', hstep, hnote, hrest⟩ := hr.1 hin s hs
    exact ⟨m', h', hstep, hnote, ih hrest⟩

theorem Recounts.imp {Post' : σ → Machine → Prop} (hr : Recounts C note In Post n h m)
    (hpost : ∀ h m, Post h m → Post' h m) :
    Recounts C note In Post' n h m := by
  induction n generalizing h m with
  | zero => trivial
  | succ n ih =>
    refine ⟨fun hin s hs => ?_, fun hout => hpost h m (hr.2 hout)⟩
    obtain ⟨m', h', hstep, hnote, hrest⟩ := hr.1 hin s hs
    exact ⟨m', h', hstep, hnote, ih hrest⟩

theorem chronicle_recounts : Chronicle C note In (Recounts C note In Post) where
  back {n h m} hin hback := by
    cases n with
    | zero => trivial
    | succ n => exact ⟨fun _ => hback, fun hnot => absurd hin hnot⟩
  weaken {n h m} hr := by
    cases n with
    | zero => trivial
    | succ n => exact hr.less
  start _ _ _ := trivial

/-- A thread that is out of the code does nothing there. -/
theorem recounts_out (hout : ¬ In m.pc) (hpost : Post h m) : Recounts C note In Post n h m := by
  cases n with
  | zero => trivial
  | succ n => exact ⟨fun hin => absurd hin hout, fun _ => hpost⟩

/-- Wherever a run has come, it can go on, or the code is left with what was promised. -/
theorem turns_recount {Post : List Event → Machine → Prop} {h es : List Event} (hr : ∀ n, Recounts C logged In Post n h m)
    (ht : S.world.Turns C.others In m es m') :
    (In m'.pc → ∀ s, C.others m'.shared s → ∃ m'', S.world.step (m'.within s) = some m'') ∧
    (¬ In m'.pc → Post (h ++ es) m') := by
  induction ht generalizing h with
  | rest m =>
    refine ⟨fun hin s hs => ?_, fun hout => ?_⟩
    · obtain ⟨m'', -, hstep, -⟩ := (hr 1).1 hin s hs
      exact ⟨m'', hstep⟩
    · rw [List.append_nil]
      exact (hr 1).2 hout
  | @turn m m1 m' s es hin hs hstep _ ih =>
    have hnext (n : Nat) : Recounts C logged In Post n (h ++ [⟨s.mem, m1.mem⟩]) m1 := by
      obtain ⟨m2, _, hstep', hnote, hrest⟩ := (hr (n + 1)).1 hin s hs
      rw [hstep] at hstep'
      cases hstep'
      exact hnote ▸ hrest
    have := ih hnext
    rwa [List.append_assoc] at this

end

end Site

end RiscvJit

import RiscvJit.Proofs.Lower.SlowPaths
import RiscvJit.Proofs.Stub.Interrupts

/-
  RiscvJit.Proofs.Lower.SafepointPolls — a safepoint is not noticed by the code that polls.

  A poll of a compiled method that finds the bit set leaves for its slow path, which notes the address of
  the poll and jumps to the safepoint handler (`poll_reaches_handler`). The handler compares that
  address with the return address in its frame. The code of the poll is sixteen bytes long and ends
  where the next instruction begins, so when the runtime does not redirect the return address the run
  goes on with the next instruction.
-/

namespace RiscvJit

open Reg (zr ra sp t0 thread)
open CodeBlob
open Asm
open Site

/-! ## The code of a poll -/

namespace Site

variable {S : Site} {m : Machine} {E : Exits} {Q : Unit → Machine → Prop} {slow : Label} {a a' : Assembler}

/-- A branch over the next instruction that is not taken. -/
theorem does_notOver {rs1 rs2 : Reg} (hnot : m.get rs1 ≠ m.get rs2) (h : Q () m.next) :
    S.Does (emit .beq .none rs1 rs2 8 0) m E Q := by
  intro a _ a' hrun ha ha' hat
  have hw := wrote_emit hrun (by decide) rfl (fun _ => rfl) nofun nofun (by decide) rfl
  obtain ⟨hstep, hpc⟩ := hat.exec ha ha' hw
  have hexec : m.exec (Op.beq.instOf .none rs1 rs2 8 0 0) = some m.next := by
    show some (if Op.taken .beq (m.get rs1) (m.get rs2) = true then
      { m with pc := m.pc + (8 : Int64).toUInt64 } else m.next) = _
    rw [show Op.taken .beq (m.get rs1) (m.get rs2) = false from decide_eq_false hnot]
    rfl
  exact ⟨_, .one (hstep.trans hexec), .inl ⟨⟨hat.stands.withPc _, hpc⟩, h⟩⟩

/-- A poll that finds the bit set leaves for the slow path. -/
theorem does_safepointPoll (hl : S.Binds slow) (hset : m.mem.read (m.get thread + 0x1f0) 8 &&& 1 ≠ 0)
    (h : ∀ m', Alters [t0] (fun _ => False) m m' → E (.label slow) m') : S.Does (safepointPoll slow) m E Q := by
  refine .bind (does_ld fun m1 h1 => .bind (does_andi (by decide) fun m2 h2 => .bind ?_))
  have halters : Alters [t0] (fun _ => False) m m2 :=
    (h1.alters (by simp) (by simp)).trans (h2.alters (by simp) (by simp))
  refine does_notOver ?_ (does_j hl fun p => h _ (halters.withPc p))
  rw [h2.value, h1.value]
  exact hset

/-- The poll is sixteen bytes long, and its slow path less than a megabyte away. -/
theorem safepointPoll_near (hrun : safepointPoll slow S.target a = .ok ((), a')) (ha : S.Early a) (ha' : S.Late a')
    {addr : UInt64} (h : S.Marks slow addr) : a'.buf.offset = a.buf.offset + 16 ∧
      -(2 ^ 21) ≤ distance addr (S.start + UInt64.ofNat a.buf.offset) ∧
      distance addr (S.start + UInt64.ofNat a.buf.offset) < 2 ^ 21 := by
  obtain ⟨_, b1, hld, hrun⟩ := Asm.bind_eq_ok.mp hrun
  obtain ⟨_, b2, handi, hrun⟩ := Asm.bind_eq_ok.mp hrun
  obtain ⟨_, b3, hbeq, hj⟩ := Asm.bind_eq_ok.mp hrun
  have hprefix : (do
      ld t0 thread threadLayout.pollingWord
      andi t0 t0 safepointPollBit
      emit .beq .none t0 zr 8 0 : Asm Unit) S.target a = .ok ((), b3) :=
    Asm.bind_eq_ok.mpr ⟨_, _, hld, Asm.bind_eq_ok.mpr ⟨_, _, handi, hbeq⟩⟩
  obtain ⟨items, htrace, -⟩ := Asm.Traced.trace _ _ _ _ ha.behind hprefix
  have hb3 := ha.append htrace
  obtain ⟨items', htrace', -⟩ := Asm.Traced.trace _ _ _ _ hb3.behind hj
  obtain ⟨j, k, hoff, rfl, hnext, hj, hk, hback, hforth⟩ := jump_near hj hb3 ha' h
  obtain ⟨hoff3, hw2⟩ := offset_emit hbeq (htrace'.working ha'.working)
  obtain ⟨hoff2, hw1⟩ := offset_lift_emit handi hw2
  obtain ⟨hoff1, -⟩ := offset_lift_emit hld hw1
  rw [show a.buf.offset = 4 * (j - 3) by omega, distance_pieces _ (by omega) (by omega)]
  omega

end Site

/-! ## The slow path -/

namespace Asm

theorem spaces_safepointPoll (l : Label) : Spaces (safepointPoll l) :=
  Spaces.after fun _ => Spaces.after fun _ => Spaces.after fun _ => spaces_j l

/-- The slow path of a poll, behind its label. -/
def safepointPath (poll : Label) : Asm Unit := do
  la t0 poll
  sd t0 thread threadLayout.savedExceptionPc
  rtJump .safepointHandler

instance traced_safepointPath (poll : Label) : Traced (safepointPath poll) := by
  unfold safepointPath
  infer_instance

theorem spaces_safepointPath (poll : Label) : Spaces (safepointPath poll) :=
  Spaces.after fun _ => Spaces.after fun _ => Spaces.after fun _ => spaces_farCall _ _ _

end Asm

/-- The machine comes from a poll, whose address the thread has noted, to the handler. -/
structure Polled (handler poll : UInt64) (m m' : Machine) : Prop where
  pc : m'.pc = handler
  regs : ∀ r, r ≠ t0 → m'.get r = m.get r
  mem : m'.mem = m.mem.write (m.get thread + 0x218) 8 poll

namespace Site

variable {S : Site} {m : Machine} {E : Exits} {Q : Unit → Machine → Prop} {l : Label} {poll : UInt64}

theorem does_safepointPath (hl : S.Binds l) (hmarks : S.Marks l poll) (hback : -(2 ^ 30) ≤ distance m.pc poll)
    (hforth : distance m.pc poll < 2 ^ 30) (hend : (m.get thread).toNat + 0x220 ≤ 2 ^ 64)
    (hfree : ∀ addr, OfThread (m.get thread) 0x218 8 addr → S.Free addr) (hstart : S.start % 2 = 0)
    (heven : S.target.runtime.addr .safepointHandler % 2 = 0)
    (h : ∀ m', Polled (S.target.runtime.addr .safepointHandler) poll m m' → E .away m') :
    S.Does (safepointPath l) m E Q := by
  have hword : (m.get thread + 0x218).toNat = (m.get thread).toNat + 0x218 := toNat_off (k := 0x218) (by omega)
  refine .bind (does_la (by decide) hl fun v m1 hv h1 => .bind (does_sdAt (a := m.get thread + 0x218) ?_ (by omega)
    (fun addr ha => hfree addr (by rwa [hword] at ha)) fun m2 h2 => does_rtJump heven hstart fun m3 h3 =>
    h m3 ⟨h3.pc, fun r hr => ?_, ?_⟩))
  · rw [h1.other _]
    rfl
  · rw [h3.rest r (by simpa using hr), h2.rest r List.not_mem_nil, h1.other r hr]
  · rw [h3.mem, h2.mem, h1.mem, h1.value, hv poll hmarks hback hforth]

end Site

/-! ## Compiled methods -/

namespace Lower

variable {t : Target} {s s' : Lowering} {i : Instruction}

/-- What the code of a safepoint is made of. -/
theorem safepoint_parts (hop : i.op = .safepoint) (h : instruction i t s = .ok ((), s')) : ∃ poll entry a a1 a2,
    Assembler.Grown t s.asm a ∧ Asm.bind poll t a = .ok ((), a1) ∧ Assembler.Grown t a1 a2 ∧ a2.buf = a1.buf ∧
      safepointPoll entry t a2 = .ok ((), s'.asm) ∧ .safepointPoll poll entry ∈ s'.slowPaths.toList := by
  have hdispatch : dispatch i = safepoint i := by
    rw [dispatch.eq_def, hop]
  rw [instruction, hdispatch] at h
  obtain ⟨_, -, h⟩ := lift_bind_eq_ok.mp h
  obtain ⟨poll, s1, hpoll, h⟩ := bind_eq_ok.mp h
  obtain ⟨entry, s2, hentry, h⟩ := bind_eq_ok.mp h
  obtain ⟨_, s3, hpath, h⟩ := bind_eq_ok.mp h
  obtain ⟨_, s4, hunique, h⟩ := bind_eq_ok.mp h
  obtain ⟨_, s5, hbind, h⟩ := bind_eq_ok.mp h
  obtain ⟨_, s6, hsite, hcode⟩ := bind_eq_ok.mp h
  obtain ⟨a1, hbound, rfl⟩ := asm_eq_ok.mp hbind
  obtain ⟨a2, hpolls, rfl⟩ := asm_eq_ok.mp hcode
  have hbefore : Lowering.Grown t s s4 := ((grows_asm newLabel).grown hpoll).trans
    (((grows_asm newLabel).grown hentry).trans
    (((grows_addSlowPath _).grown hpath).trans (leads_ensureUniquePc.grown hunique)))
  have hafter := (leads_addSite i.info []).grown hsite
  refine ⟨poll, entry, s4.asm, a1, s6.asm, hbefore.asm, hbound, hafter.asm, ?_, hpolls, ?_⟩
  · cases hinfo : i.info with
    | none =>
      rw [hinfo] at hsite
      cases hsite
      rfl
    | some info =>
      rw [hinfo] at hsite
      have hsite : addSiteAt (Int64.ofNat a1.buf.offset) (some info) [] t { s4 with asm := a1 } = .ok ((), s6) := hsite
      rcases addSiteAt_eq_ok hsite with ⟨-, rfl⟩ | ⟨-, oopMap, maps, -, -, rfl⟩ <;> rfl
  · have hpaths := ((leads_ensureUniquePc.grown hunique).trans (((grows_asm (Asm.bind poll)).grown hbind).trans
      (hafter.trans ((grows_asm (safepointPoll entry)).grown hcode)))).slowPaths
    refine hpaths.subset ?_
    cases hpath
    rw [Array.toList_push]
    exact List.mem_append_right _ List.mem_cons_self

/-- What the slow path of a safepoint is made of. -/
theorem safepointPath_parts {poll entry : Label} (h : emitSlowPath (.safepointPoll poll entry) t s = .ok ((), s')) :
    ∃ a, Asm.bind entry t s.asm = .ok ((), a) ∧ safepointPath poll t a = .ok ((), s'.asm) := by
  obtain ⟨_, s1, hbind, h⟩ := bind_eq_ok.mp h
  obtain ⟨_, s2, hla, h⟩ := bind_eq_ok.mp h
  obtain ⟨_, s3, hsd, hjump⟩ := bind_eq_ok.mp h
  obtain ⟨a1, hbound, rfl⟩ := asm_eq_ok.mp hbind
  obtain ⟨a2, hnoted, rfl⟩ := asm_eq_ok.mp hla
  obtain ⟨a3, hstored, rfl⟩ := asm_eq_ok.mp hsd
  obtain ⟨a4, hleft, rfl⟩ := asm_eq_ok.mp hjump
  exact ⟨a1, hbound, Asm.bind_eq_ok.mpr ⟨_, _, hnoted, Asm.bind_eq_ok.mpr ⟨_, _, hstored, hleft⟩⟩⟩

end Lower

/-- The machine is at the poll of a safepoint. -/
structure Resident.AtPoll {t : Target} (c : Resident t) (k : Nat) (m : Machine) : Prop where
  stands : c.method.blob.Stands c.start m
  /-- The poll is as long as the handler takes it to be. -/
  pc : ∃ off, c.program.placeOf t c.base (k + 1) = .ok off ∧ m.pc + 16 = c.start + UInt64.ofNat off

section
variable {t : Target} {c : Resident t} {k : Nat} {i : Instruction} {W : World} {m : Machine}

/-- From a poll that finds the bit set, the run goes to the safepoint handler. -/
theorem poll_reaches_handler (hk : c.program.code[k]? = some i) (hop : i.op = .safepoint)
    (hclear : ∀ i < c.method.blob.code.length, W (c.start + UInt64.ofNat i) = none) (hstart : c.start % 2 = 0)
    (hm : c.AtPoll k m) (hset : m.mem.read (m.get thread + 0x1f0) 8 &&& 1 ≠ 0)
    (hend : (m.get thread).toNat + 0x220 ≤ 2 ^ 64) (hfree : ∀ addr, OfThread (m.get thread) 0x218 8 addr → c.Clear addr)
    (heven : t.runtime.addr .safepointHandler % 2 = 0) :
    m.pc % 2 = 0 ∧ ∃ m', W.Reaches m m' ∧ Polled (t.runtime.addr .safepointHandler) m.pc m m' := by
  obtain ⟨first, last, s, s', hfinished, hplaced⟩ := compile_placed c.compiled hk
  obtain ⟨poll, entry, a, a1, a2, hbefore, hbind, hsite, hbuf, hpolls, hmem⟩ := Lower.safepoint_parts hop hplaced.lowered
  obtain ⟨u, u', hemit, hpath, -⟩ := hplaced.paths _ hmem
  obtain ⟨v, hentry, hcode⟩ := Lower.safepointPath_parts hemit
  have hw := hfinished.working
  have hgrowBind : Assembler.Grown t a a1 := (Asm.grows_of_composed (Asm.bind poll)).grown hbind
  have hgrowPoll : Assembler.Grown t a2 s'.asm := Asm.Grows.grown inferInstance hpolls
  -- three parts of the method: the label of the poll, its code, and its slow path
  have hpartLabel := hplaced.part.inner hbefore hgrowBind (hsite.trans hgrowPoll) hw
  have hpartPoll := hplaced.part.inner (hbefore.trans (hgrowBind.trans hsite)) hgrowPoll .refl hw
  obtain ⟨S1, -, htarget1, hstart1, hlast1, hearly1, hlate1⟩ := hpartLabel.site hfinished (W := W)
    ((trace_call (c := .bind poll) trivial hbind).behind hpartLabel.behind)
    (mergeable_none_of_bound (lastBind_bindLabel hbind)) hclear c.based
  obtain ⟨items, htrace, -⟩ := Asm.Traced.trace _ _ _ _ hpartPoll.behind hpolls
  obtain ⟨S2, rfl, rfl, hstart2, rfl, hearly2, hlate2⟩ :=
    hpartPoll.site hfinished (W := W) (htrace.behind hpartPoll.behind)
    (mergeable_none_of_spaced (spaces_safepointPoll entry _ _ _ _ hpartPoll.behind hpolls)) hclear c.based
  have hbindTrace := trace_call (t := S2.target) (c := .bind entry) trivial hentry
  obtain ⟨items', htrace', -⟩ := Asm.Traced.trace _ _ _ _ (hbindTrace.behind hpath.behind) hcode
  obtain ⟨S3, hworld3, htarget3, hstart3, hlast3, hearly3, hlate3⟩ := hpath.site hfinished (W := S2.world)
    (htrace'.behind (hbindTrace.behind hpath.behind))
    (mergeable_none_of_spaced (spaces_safepointPath poll _ _ _ _ (hbindTrace.behind hpath.behind) hcode)) hclear c.based
  rw [← htarget3] at htrace' hbindTrace hentry hcode
  obtain ⟨hbindsEntry, hatEntry⟩ := To.at_bind hentry hearly3 (hlate3.append htrace')
  -- where the poll and the slow path are
  obtain ⟨off, hoff, hpc⟩ := hm.pc
  rw [hplaced.next] at hoff
  cases hoff
  have hstands : S2.Stands m := by
    rw [Site.Stands, hstart2, ← show c.method.blob.code.toArray =
      S2.last.buf.bytes by rw [hfinished.code, Array.toArray_toList]]
    exact hm.stands
  have hbindsEntry2 : S2.Binds entry := by
    rw [Binds, ← hlast3]
    exact hbindsEntry
  have hto {m' : Machine} (h : S2.To entry m') : S3.To entry m' := h.congr hlast3.symm (hstart2.trans hstart3.symm)
  obtain ⟨addr, haddr⟩ : ∃ addr, S2.Marks entry addr := by
    obtain ⟨st, p, hst, hp⟩ := hbindsEntry2
    exact ⟨_, st, p, hst, hp, rfl⟩
  obtain ⟨hsize, hback, hforth⟩ := safepointPoll_near hpolls hearly2 hlate2 haddr
  have hpoll : m.pc = S2.start + UInt64.ofNat a2.buf.offset := by
    rw [hsize, UInt64.ofNat_add, ← UInt64.add_assoc, ← hstart2] at hpc
    exact (UInt64.add_left_inj 16).mp hpc
  have hat : S2.At a2 m := ⟨hstands, hpoll⟩
  have hmarks : S3.Marks poll m.pc := by
    have hmarks1 := marks_of_bind (S := S1) (htarget1 ▸ hbind) hearly1 hlate1
      (show S1.Stands m by rw [Site.Stands, hlast1, hstart1, ← hstart2]; exact hstands)
    have hsame : a2.buf.offset = a.buf.offset := by rw [hbuf, offset_bindLabel hbind]
    rw [hpoll, hsame, hstart2, ← hstart1]
    exact hmarks1.congr (hlast1.trans hlast3.symm) (hstart1.trans hstart3.symm)
  refine ⟨?_, ?_⟩
  · obtain ⟨j, hj⟩ := hearly2.offset (hlate2.append htrace)
    rw [hpoll, hj]
    exact even_add (by rwa [hstart2]) j
  -- the poll, then the slow path
  obtain ⟨m1, hreach1, htoSlow, halters⟩ := (does_safepointPoll (m := m) (Q := fun _ _ => False)
    (E := Exits.none.or (.label entry) (Alters [t0] (fun _ => False) m)) hbindsEntry2 hset
    fun m' h => .inl ⟨rfl, h⟩).leavesFor hpolls hearly2 hlate2 hat
  have hsp : m1.get thread = m.get thread := halters.regs _ (by decide)
  have hnear := haddr.unique htoSlow.marks
  rw [hnear, ← hpoll] at hback hforth
  have hcodeFree : S3.Free = c.Clear := by
    funext addr
    rw [Free, hlast3, hstart3, show S2.last.buf.bytes.size =
      c.method.blob.code.length by rw [hfinished.code, Array.length_toList]]
    rfl
  have hatSlow : S3.At v m1 := by
    obtain ⟨hstands, hpc⟩ := hatEntry m1 (hto htoSlow)
    exact ⟨hstands, hpc.trans (by rw [offset_bindLabel hentry])⟩
  obtain ⟨m2, hreach2, hpolled⟩ := (does_safepointPath (m := m1) (Q := fun _ _ => False)
    (E := Exits.none.or .away (Polled (S3.target.runtime.addr .safepointHandler) m.pc m1)) hmarks.binds hmarks (by omega)
    (by omega) (by rwa [hsp]) (by rw [hsp, hcodeFree]; exact hfree) (by rwa [hstart3]) (by rwa [htarget3])
    fun m' h => .inl ⟨rfl, h⟩).leaves hcode (hearly3.append hbindTrace) hlate3 hatSlow
  have hmem1 : m1.mem = m.mem := funext fun addr => halters.mem addr not_false
  refine ⟨m2, hreach1.trans (hworld3 ▸ hreach2), ⟨hpolled.pc.trans (by rw [htarget3]), fun r hr => ?_, ?_⟩⟩
  · rw [hpolled.regs r hr, halters.regs r (by simpa using hr)]
  · rw [hpolled.mem, hmem1, hsp]

end

/-! ## Stopping -/

/-- A run may stop at a safepoint: the handler is where the runtime says, apart from what a stop writes, and the
runtime routine keeps to what is its own. -/
structure Stoppable (W : World) (t : Target) (handler : CodeBlob) (routine : Machine → Machine) (m : Machine) : Prop where
  even : t.runtime.addr .safepointHandler % 2 = 0
  clear : ∀ i < handler.code.length, W (t.runtime.addr .safepointHandler + UInt64.ofNat i) = none
  stands : handler.Stands (t.runtime.addr .safepointHandler) m
  room : SaveRoom (handler.Clear (t.runtime.addr .safepointHandler)) (m.get sp) (m.get thread)
  serves : Serves W (t.runtime.addr .handlePollingPageException)
    (Stub.KeptAtSafepoint (handler.Clear (t.runtime.addr .safepointHandler)) (m.get sp) (m.get thread)) routine

/-- The end of a stop at a poll. The next instruction is the one that follows the poll. -/
structure StopEnd (W : World) (t : Target) (routine : Machine → Machine) (next : UInt64)
    (m called m' : Machine) : Prop where
  through : Through W (t.runtime.addr .handlePollingPageException) routine
    (StopMemory (m.get sp) (m.get thread)) m called m'
  /-- The runtime finds the address of the poll as the return address of the frame. -/
  noted : called.mem.read (m.get sp - 8) 8 = m.pc
  regs : Resumes [t0, ra] m m'
  resumes : pendingException (m.get thread) (routine called) = 0 →
    (routine called).mem.read (m.get sp - 8) 8 = m.pc → m'.pc = next
  redirects : pendingException (m.get thread) (routine called) = 0 → (routine called).mem.read (m.get sp - 8) 8 ≠ m.pc →
    Jumped m' ((routine called).mem.read (m.get sp - 8) 8)
  forwards : pendingException (m.get thread) (routine called) ≠ 0 → m'.pc = t.runtime.addr .forwardException

section
variable {t : Target} {W : World} {c : Resident t} {k : Nat} {i : Instruction} {handler : CodeBlob} {base : UInt64}
  {routine : Machine → Machine} {m m' : Machine} {poll : UInt64}

/-- Coming from a poll, the handler finds what it needs. -/
theorem Stoppable.polled (h : Stoppable W t handler routine m)
    (hm : Polled (t.runtime.addr .safepointHandler) poll m m') :
    handler.Stands (t.runtime.addr .safepointHandler) m' ∧ m'.get sp = m.get sp ∧ m'.get thread = m.get thread ∧
      m'.mem.read (m.get thread + 0x218) 8 = poll ∧
      ∀ addr, ¬ StopMemory (m.get sp) (m.get thread) addr → m'.mem addr = m.mem addr := by
  have hend := h.room.threadEnd
  have hrecord {addr : UInt64} (hin : Spans (m.get thread + 0x218).toNat 8 addr) : ThreadRecord (m.get thread) addr :=
    (Stub.pollWord_of_spans hend hin).2.1
  have hmem (addr : UInt64) (hnot : ¬ ThreadRecord (m.get thread) addr) : m'.mem addr = m.mem addr := by
    rw [hm.mem, Ram.write_apart _ _ (Stub.pollWord_end hend) fun hin => hnot (hrecord hin)]
  refine ⟨h.stands.keep fun addr hnot => hmem addr fun hin => hnot (h.room.threadClear addr hin), hm.regs _ (by decide),
    hm.regs _ (by decide), ?_, fun addr hnot => hmem addr fun hin => hnot (.inr hin)⟩
  rw [hm.mem, read_write_eight]

/-- A stop at the poll of a compiled method is not noticed by its code. -/
theorem safepoint_is_transparent (hk : c.program.code[k]? = some i) (hop : i.op = .safepoint)
    (hclear : ∀ i < c.method.blob.code.length, W (c.start + UInt64.ofNat i) = none) (hstart : c.start % 2 = 0)
    (hm : c.AtPoll k m) (hset : m.mem.read (m.get thread + 0x1f0) 8 &&& 1 ≠ 0)
    (hfree : ∀ addr, OfThread (m.get thread) 0x218 8 addr → c.Clear addr)
    (hhandler : Stub.safepointHandler t base = .ok handler) (hbase : base ≠ 0 → t.runtime.addr .safepointHandler = base)
    (hstop : Stoppable W t handler routine m) (hforward : t.runtime.addr .forwardException % 2 = 0) :
    ∃ off called m', c.program.placeOf t c.base (k + 1) = .ok off ∧
      StopEnd W t routine (c.start + UInt64.ofNat off) m called m' := by
  obtain ⟨hpcEven, m1, hreach, hpolled⟩ :=
    poll_reaches_handler hk hop hclear hstart hm hset hstop.room.threadEnd hfree hstop.even
  obtain ⟨hstands, hsp, hthread, hpoll, hkept⟩ := hstop.polled hpolled
  obtain ⟨called, m', hend⟩ := Stub.safepointHandler_ends hhandler hstop.clear hbase hstop.even hstands hpolled.pc
    (by rw [hsp, hthread]; exact hstop.room) (by rw [hsp, hthread]; exact hstop.serves) hforward
  obtain ⟨off, hoff, hpc⟩ := hm.pc
  obtain ⟨hthrough, hnoted, hregs, hforwards, hresumes⟩ := hend
  rw [hthread, hpoll] at hnoted hresumes
  rw [hthread] at hforwards
  rw [hsp] at hnoted hresumes
  rw [hsp, hthread] at hthrough
  refine ⟨off, called, m', hoff, ?_, hnoted, fun r hr => ?_, fun hzero hsame => ?_, fun hzero hother => ?_, hforwards⟩
  · exact hthrough.within hreach hthread hkept (fun _ h => h) (.refl _ _) fun _ _ => rfl
  · rw [hregs r hr, hpolled.regs r fun h => hr (h ▸ List.mem_cons_self)]
  · have hjumped := hresumes hzero
    rw [Stub.resumeAddress, if_pos hsame] at hjumped
    rw [← hpc]
    exact hjumped.even (even_add hpcEven 4)
  · have hjumped := hresumes hzero
    rwa [Stub.resumeAddress, if_neg hother] at hjumped

/-- Neither a stop at a safepoint nor the resolution of a call is noticed by the code that is interrupted. -/
theorem interrupts_are_transparent {t : Target} {W : World} (hforward : t.runtime.addr .forwardException % 2 = 0) :
    (∀ (c : Resident t) (k : Nat) (i : Instruction) (base : UInt64) (handler : CodeBlob)
    (routine : Machine → Machine) (m : Machine),
      c.program.code[k]? = some i → i.op = .safepoint →
      (∀ i < c.method.blob.code.length, W (c.start + UInt64.ofNat i) = none) → c.start % 2 = 0 →
      c.AtPoll k m → m.mem.read (m.get thread + 0x1f0) 8 &&& 1 ≠ 0 →
      (∀ addr, OfThread (m.get thread) 0x218 8 addr → c.Clear addr) →
      Stub.safepointHandler t base = .ok handler → (base ≠ 0 → t.runtime.addr .safepointHandler = base) →
      Stoppable W t handler routine m →
      ∃ off called m', c.program.placeOf t c.base (k + 1) = .ok off ∧
        StopEnd W t routine (c.start + UInt64.ofNat off) m called m') ∧
    ∀ (name : String) (e : RuntimeEntry) (base start : UInt64) (blob : CodeBlob) (routine : Machine → Machine)
    (m : Machine),
      Stub.resolver t name e base = .ok blob → (base ≠ 0 → start = base) → start % 2 = 0 →
      (∀ i < blob.code.length, W (start + UInt64.ofNat i) = none) →
      blob.Stands start m → m.pc = start → SaveRoom (blob.Clear start) (m.get sp) (m.get thread) →
      Serves W (t.runtime.addr e) (Stub.KeptAtResolve (blob.Clear start) (m.get sp)) routine →
      ∃ called m', Stub.ResolverEnd W t e routine m called m' :=
  ⟨fun _ _ _ _ _ _ _ hk hop hclear hstart hm hset hfree hhandler hbase hstop =>
    safepoint_is_transparent hk hop hclear hstart hm hset hfree hhandler hbase hstop hforward,
   fun _ _ _ _ _ _ _ hblob hbase hstart hclear hstands hpc hroom hserves =>
    Stub.resolver_ends hblob hclear hbase hstart hstands hpc hroom hserves hforward⟩

end

/-- Entries of a runtime, with shared code between them. -/
def stopTarget : Target where
  opts := {}
  runtime := (((RuntimeEntries.empty.set .safepointHandler 0x20000).set .handlePollingPageException 0x30000).set
    .resolveStaticCall 0x31000).set .forwardException 0x32000

/-- A routine that returns an address. -/
def answering (m : Machine) : Machine := { m.set (.x 10) 0x40000 with pc := m.get ra &&& ~~~1 }

/-- The routines of the runtime. -/
def stopWorld : World := fun addr => if addr = 0x30000 ∨ addr = 0x31000 then some answering else none

/-- A method that only polls. -/
def polling : Program where
  name := "p"
  frameSize := 32
  code := #[{ op := .safepoint }, { op := .ret }]

/-- Memory in which a thread at `0x9000` is to stop. -/
def stopMemory : Ram := fun addr => if addr = 0x91f0 then 1 else 0

/-- A machine that runs the thread, with a stack below `0x8000`. -/
def stopping (mem : Ram) (pc : UInt64) : Machine where
  x n := if n = 2 then 0x8000 else if n = 23 then 0x9000 else UInt64.ofNat n
  f n := UInt64.ofNat (100 + n)
  pc
  mem

theorem answering_mem (m : Machine) : (answering m).mem = m.mem := m.set_mem _ _

theorem answering_serves {target : UInt64} (h : target = 0x30000 ∨ target = 0x31000) (Kept : UInt64 → Prop) :
    Serves stopWorld target Kept answering where
  there := if_pos h
  even := by rcases h with rfl | rfl <;> decide
  returns _ := rfl
  regs m r hr := by
    have hne : r ≠ .x 10 := by
      rintro rfl
      exact absurd hr (by decide)
    rw [answering, Machine.get_withPc, Machine.get_set _ (by decide), if_neg hne]
  mem m addr _ := congrFun (answering_mem m) addr

section
variable {start : UInt64} {blob : CodeBlob}

theorem stopWorld_clear (hend : start.toNat + blob.code.length ≤ 0x30000) :
    ∀ i < blob.code.length, stopWorld (start + UInt64.ofNat i) = none := by
  intro i hi
  have haddr : (start + UInt64.ofNat i).toNat = start.toNat + i := toNat_off (by omega)
  refine if_neg ?_
  have hfar {target : UInt64} (h : 0x30000 ≤ target.toNat) : ¬ (start + UInt64.ofNat i = target) := by
    rintro rfl
    omega
  rintro (h | h)
  · exact hfar (by decide) h
  · exact hfar (by decide) h

theorem stop_clear (hstart : 0x10000 ≤ start.toNat) (hend : start.toNat + blob.code.length ≤ 0x30000) {addr : UInt64}
    (h : addr.toNat < 0x10000) : blob.Clear start addr := by
  rw [clear_iff (by omega)]
  omega

theorem stop_room (hstart : 0x10000 ≤ start.toNat) (hend : start.toNat + blob.code.length ≤ 0x30000)
    (mem : Ram) (pc : UInt64) :
    SaveRoom (blob.Clear start) ((stopping mem pc).get sp) ((stopping mem pc).get thread) := by
  have hsave {addr : UInt64} (h : SaveFrame 0x8000 addr) : 0x7e10 ≤ addr.toNat ∧ addr.toNat < 0x8000 := h
  have hthread {addr : UInt64} (h : ThreadRecord 0x9000 addr) : 0x91d0 ≤ addr.toNat ∧ addr.toNat < 0x9220 := h
  have htop : (stopping mem pc).get sp = 0x8000 := rfl
  have hcurrent : (stopping mem pc).get thread = 0x9000 := rfl
  rw [htop, hcurrent]
  refine ⟨by decide, by decide, fun addr h => stop_clear hstart hend ?_, fun addr h => stop_clear hstart hend ?_,
    fun addr h hin => ?_⟩
  · have := hsave h
    omega
  · have := hthread h
    omega
  · have := hthread h
    have := hsave hin
    omega

end

/-- A method is stopped at its poll and goes on behind it. A call is resolved and goes on with what was found. -/
theorem poll_and_call_go_on : ∃ compiled off handler resolver,
    polling.compile stopTarget 0 = .ok compiled ∧ polling.placeOf stopTarget 0 1 = .ok off ∧
    Stub.safepointHandler stopTarget 0 = .ok handler ∧
    Stub.resolver stopTarget "resolve_static_call" .resolveStaticCall 0 = .ok resolver ∧
    (∃ mem pc m', stopWorld.Reaches (stopping mem pc) m' ∧ pc + 16 = 0x10000 + UInt64.ofNat off ∧
      m'.pc = 0x10000 + UInt64.ofNat off ∧ Resumes [t0, ra] (stopping mem pc) m') ∧
    ∃ mem m', stopWorld.Reaches (stopping mem 0x20000) m' ∧ m'.pc = 0x40000 ∧
      Resumes [t0, Reg.method] (stopping mem 0x20000) m' := by
  obtain ⟨compiled, off, hcompiled, hsize, hoff⟩ : polling.CompilesWithin stopTarget 0 1 0x1000 :=
    .of_checks (by decide +kernel) (by decide +kernel)
  obtain ⟨handler, u, hgenerate, hhandlerSize⟩ : ∃ blob r, generate stopTarget "safepoint_handler_blob" 0
      ({} : Options).stubBufferSize RegisterSave.frameSize Stub.safepointHandlerBody = .ok (blob, r) ∧
      blob.code.length ≤ 4 * 224 :=
    generate_of_rehearsal (by decide +kernel) (by decide) (by decide) (by decide)
  obtain ⟨resolver, v, hgenerate', hresolverSize⟩ : ∃ blob r, generate stopTarget "resolve_static_call" 0
      ({} : Options).stubBufferSize RegisterSave.frameSize (Stub.resolverBody .resolveStaticCall) = .ok (blob, r) ∧
        blob.code.length ≤ 4 * 221 :=
    generate_of_rehearsal (by decide +kernel) (by decide) (by decide) (by decide)
  have hhandler : Stub.safepointHandler stopTarget 0 = .ok handler := by
    rw [Stub.safepointHandler, show stopTarget.opts = {} from rfl, hgenerate]
    rfl
  have hresolver : Stub.resolver stopTarget "resolve_static_call" .resolveStaticCall 0 = .ok resolver := by
    rw [Stub.resolver, show stopTarget.opts = {} from rfl, hgenerate']
    rfl
  have hlow : (0x10000 : UInt64).toNat = 0x10000 := rfl
  have hhigh : (0x20000 : UInt64).toNat = 0x20000 := rfl
  obtain ⟨hpoll, hcall⟩ := interrupts_are_transparent (t := stopTarget) (W := stopWorld) (by decide)
  have hnone {mem : Ram} (hread : ∀ {addr : UInt64}, addr.toNat + 8 ≤ 0x10000 → mem.read addr 8 = stopMemory.read addr 8)
      {called : Machine} (hkept : ∀ addr, ¬ StopMemory 0x8000 0x9000 addr → called.mem addr = mem addr) :
      pendingException 0x9000 (answering called) = 0 := by
    have hword : mem.read (0x9000 + 8) 8 = 0 := (hread (by decide)).trans (by decide)
    rw [← hword, pendingException]
    refine Ram.read_same (by decide) fun x hx => ?_
    have hx : 0x9008 ≤ x.toNat ∧ x.toNat < 0x9010 := hx
    rw [answering_mem, hkept x]
    rintro (h | h)
    · have h : 0x7e10 ≤ x.toNat ∧ x.toNat < 0x8000 := h
      omega
    · have h : 0x91d0 ≤ x.toNat ∧ x.toNat < 0x9220 := h
      omega
  refine ⟨compiled, off, handler, resolver, hcompiled, hoff, hhandler, hresolver, ?_, ?_⟩
  · let mem := (stopMemory.overlay 0x20000 handler.code).overlay 0x10000 compiled.blob.code
    let m := stopping mem (0x10000 + UInt64.ofNat off - 16)
    have hread {addr : UInt64} (h : addr.toNat + 8 ≤ 0x10000) : mem.read addr 8 = stopMemory.read addr 8 := by
      rw [Ram.read_overlay _ (by omega) (by omega) (by omega), Ram.read_overlay _ (by omega) (by omega) (by omega)]
    have hset : mem.read (0x9000 + 0x1f0) 8 &&& 1 ≠ 0 := by
      rw [hread (by decide)]
      decide
    have hclear {addr : UInt64} (h : OfThread 0x9000 0x218 8 addr) : compiled.blob.Clear 0x10000 addr := by
      have h : 0x9218 ≤ addr.toNat ∧ addr.toNat < 0x9220 := h
      exact stop_clear (by decide) (by omega) (by omega)
    have hworld : ∀ i < compiled.blob.code.length, stopWorld (0x10000 + UInt64.ofNat i) = none :=
      stopWorld_clear (by omega)
    have hstands : handler.Stands 0x20000 m :=
      (stands_overlay (m := { m with mem := stopMemory.overlay 0x20000 handler.code }) (by omega) rfl).keep
      fun addr hin => by
        have hspans := Classical.not_not.mp fun h => hin ((clear_iff (by omega)).mpr h)
        exact Ram.overlay_apart _ (by omega) fun h => by
          omega
    have hstop : Stoppable stopWorld stopTarget handler answering m :=
      ⟨by decide, stopWorld_clear (show (0x20000 : UInt64).toNat + handler.code.length ≤ _ by omega), hstands,
        stop_room (show _ ≤ (0x20000 : UInt64).toNat by decide) (by omega) _ _, answering_serves (.inl rfl) _⟩
    obtain ⟨off', called, m', hoff', hend⟩ :=
      hpoll ⟨polling, 0, compiled, 0x10000, hcompiled, absurd rfl⟩ 0 _ 0 handler answering m rfl
      rfl hworld (show (0x10000 : UInt64) % 2 = 0 by decide)
      ⟨stands_overlay (by show compiled.blob.code.length ≤ _; omega) rfl, off, hoff, UInt64.sub_add_cancel _ _⟩
      hset (fun _ => hclear) hhandler (absurd rfl) hstop
    cases hoff.symm.trans hoff'
    refine ⟨mem, _, m', hend.through.reaches rfl, UInt64.sub_add_cancel _ _,
      hend.resumes (hnone hread hend.through.kept) ?_, hend.regs⟩
    rw [answering_mem, hend.noted]
  · let mem := stopMemory.overlay 0x20000 resolver.code
    have hread {addr : UInt64} (h : addr.toNat + 8 ≤ 0x10000) : mem.read addr 8 = stopMemory.read addr 8 :=
      Ram.read_overlay _ (by omega) (by omega) (by omega)
    obtain ⟨called, m', hend⟩ := hcall "resolve_static_call" .resolveStaticCall 0 0x20000 resolver
      answering (stopping mem 0x20000) hresolver
      (absurd rfl) rfl (stopWorld_clear (by omega)) (stands_overlay (by omega) rfl) rfl
      (stop_room (by decide) (by omega) _ _) (answering_serves (.inr rfl) _)
    obtain ⟨hjumped, hregs, -⟩ := hend.resolves (hnone hread hend.through.kept)
    refine ⟨mem, m', hend.through.reaches rfl, ?_, hregs⟩
    have hanswer : (answering called).get (.x 10) = 0x40000 := by
      rw [answering, Machine.get_withPc, Machine.get_set _ (by decide), if_pos rfl]
    rw [hanswer] at hjumped
    exact hjumped.even (by decide)

end RiscvJit

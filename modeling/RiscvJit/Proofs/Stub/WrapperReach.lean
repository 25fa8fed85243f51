import RiscvJit.Proofs.Stub.AdapterReach
import RiscvJit.Proofs.Stub.WrapperCalls
import RiscvJit.Proofs.Stub.WrapperGuarded

/-
  RiscvJit.Proofs.Stub.WrapperReach — which native methods get a wrapper.

  A wrapper names words of its frame by their offsets. What comes from the caller or goes to the
  native function may be at any offset, but the handles, the lock slot and the room for the result are
  named in immediates of twelve bits, and these words lie above the outgoing arguments. So methods
  with few arguments have wrappers: their offsets are within reach (`Plan.InReach`), all work is then
  lawful, and what is guarded and lawful goes through. Methods out of reach have none.
-/

namespace RiscvJit

open Reg (sp t0 t1)
open Location
open CodeBuffer (capacityLimit create)
open EntryPoint

namespace NativeWrapper

/-- The offsets that are named in the main code: handles of references and of the class, and the lock slot. -/
def Plan.slots (p : Plan) : List Int64 := p.args.filterMap (·.handle) ++ p.classHandle.toList ++ p.lockSlot.toList

/-- All words of the frame that are named by immediates can be. -/
structure Plan.InReach (p : Plan) : Prop where
  slots : ∀ off ∈ p.slots, isImm12 off = true
  result : isImm12 p.resultTemp = true
  floatResult : isImm12 (p.resultTemp + 8) = true

/-! ## Operands of the wrapper -/

instance integer_lockObj : lockRegs.obj.Integer := ⟨rfl⟩
instance integer_lockLock : lockRegs.lock.Integer := ⟨rfl⟩
instance integer_lockHdr : lockRegs.hdr.Integer := ⟨rfl⟩
instance integer_lockScratch : lockRegs.scratch.Integer := ⟨rfl⟩
instance integer_savedException : savedException.Integer := ⟨rfl⟩

section
variable {m : NativeMethod} {p : Plan} {P : Planned m p} {i : Nat} {l : Location} {a : Argument}

/-- References come from integer registers or from the stack. -/
theorem Sent.src_int (h : Sent P i l a) (href : a.kind.isReference = true) (r : Fin 32) : a.src ≠ .float r := by
  intro hsrc
  have hrises := (P.places h).2.2
  have hl : l = .float r := by
    rw [h.src] at hsrc
    cases l <;> cases hsrc
    rfl
  subst hl
  cases hdst : a.dst with
  | float r' => exact h.dst_int href r' hdst
  | _ => rw [hdst] at hrises; exact hrises.elim

theorem Sent.src_there (h : Sent P i l a) : a.src ≠ .nowhere := by
  have hgiven := (P.places h).1
  intro hsrc
  rw [h.src] at hsrc
  cases l with
  | nowhere => exact hgiven.elim
  | _ => cases hsrc

theorem Sent.ref_of_handle (h : Sent P i l a) {off : Int64} (hoff : a.handle = some off) : a.kind.isReference = true := by
  rw [h.handle] at hoff
  split at hoff
  · assumption
  · cases hoff

theorem Plan.InReach.handle (hreach : p.InReach) (h : Sent P i l a) {off : Int64} (hoff : a.handle = some off) :
    isImm12 off = true :=
  hreach.slots off (List.mem_append_left _ (List.mem_append_left _ (List.mem_filterMap.mpr ⟨a, h.mem, hoff⟩)))

end

namespace Plan

open Asm

/-! ## Lawful parts -/

section
variable {p : Plan}

theorem lawful_saveResult (hreach : p.InReach) : Lawful p.saveResult := by
  have : Short p.resultTemp := ⟨hreach.result⟩
  have : Short (p.resultTemp + 8) := ⟨hreach.floatResult⟩
  have := lawful_store sp .fsd (r := .f 10) rfl rfl rfl (p.resultTemp + 8)
  unfold saveResult
  infer_instance

theorem lawful_restoreResult (hreach : p.InReach) : Lawful p.restoreResult := by
  have : Short p.resultTemp := ⟨hreach.result⟩
  have : Short (p.resultTemp + 8) := ⟨hreach.floatResult⟩
  have := lawful_load sp .fld (r := .f 10) rfl rfl rfl (p.resultTemp + 8)
  unfold restoreResult
  infer_instance

instance lawful_passMonitor : Lawful passMonitor := by
  unfold passMonitor
  infer_instance

instance lawful_leaveWrapper : Lawful p.leaveWrapper := by
  unfold leaveWrapper
  infer_instance

theorem lawful_slowPath (hreach : p.InReach) (s : SlowPath) : Lawful (p.slowPath s) := by
  have := lawful_saveResult hreach
  have := lawful_restoreResult hreach
  have := lawful_pushRegs Stub.pushable_argumentRegs
  have := lawful_popRegs Stub.pushable_argumentRegs
  unfold slowPath
  cases s <;> (dsimp only; infer_instance)

theorem lawful_slowPaths (hreach : p.InReach) (ss : List SlowPath) : Lawful (p.slowPaths ss) := by
  induction ss with
  | nil => exact lawful_pure ()
  | cons s rest ih =>
    have := lawful_slowPath hreach s
    unfold slowPaths
    infer_instance

instance lawful_unverified : Lawful p.unverified := by
  unfold unverified checkReceiver
  infer_instance

instance lawful_tryLock (entry : Label) : Lawful (tryLock entry) := by
  unfold tryLock
  infer_instance

instance lawful_tryUnlock (entry : Label) : Lawful (tryUnlock entry) := by
  unfold tryUnlock
  infer_instance

theorem lawful_unlock (slot : Int64) [Short slot] : Lawful (unlock slot) := by
  rw [unlock_eq]
  infer_instance

instance lawful_normalizeResult (k : ValueKind) : Lawful (normalizeResult k) := by
  have : Short 0xff := short_byte
  unfold normalizeResult
  dsimp only
  split <;> infer_instance

instance lawful_transitionBack : Lawful transitionBack := by
  unfold transitionBack
  infer_instance

instance lawful_epilogue : Lawful p.epilogue := by
  unfold epilogue
  infer_instance

theorem lawful_whenLocked (hreach : p.InReach) {f : Int64 → Asm SlowPath}
    (hf : ∀ slot, Short slot → Lawful (f slot)) : Lawful (p.whenLocked f) := by
  unfold whenLocked
  cases hslot : p.lockSlot with
  | none => exact lawful_pure _
  | some slot =>
    have := hf slot ⟨hreach.slots slot (by simp [slots, hslot])⟩
    dsimp only
    infer_instance

theorem lawful_passLeading (hreach : p.InReach) : Lawful p.passLeading := by
  unfold passLeading
  cases hclass : p.classHandle with
  | none =>
    dsimp only
    infer_instance
  | some off =>
    have : Short off := ⟨hreach.slots off (by simp [slots, hclass])⟩
    dsimp only
    infer_instance

theorem lawful_lock (hreach : p.InReach) (slot : Int64) [Short slot] : Lawful (p.lock slot) := by
  have : Short p.lockedHandle := by
    unfold lockedHandle
    cases hclass : p.classHandle with
    | some off => exact ⟨hreach.slots off (by simp [slots, hclass])⟩
    | none =>
      cases hhead : p.args.head? with
      | none => exact short_zero
      | some a =>
        cases hoff : a.handle with
        | none => rw [Option.bind_some, hoff]; exact short_zero
        | some off =>
          rw [Option.bind_some, hoff]
          exact ⟨hreach.slots off (List.mem_append_left _ (List.mem_append_left _
            (List.mem_filterMap.mpr ⟨a, List.mem_of_head? hhead, hoff⟩)))⟩
  rw [lock_eq]
  infer_instance

variable {m : NativeMethod} {P : Planned m p} {i : Nat} {l : Location} {a : Argument}

theorem lawful_storeHandle (hreach : p.InReach) (h : Sent P i l a) : Lawful (storeHandle a) := by
  unfold storeHandle
  cases hoff : a.handle with
  | none => exact lawful_pure ()
  | some off =>
    have : Short off := ⟨hreach.handle h hoff⟩
    have := lawful_loadOff sp .ld (r := t0) rfl rfl rfl
    dsimp only
    cases hsrc : a.src with
    | stack slot =>
      dsimp only
      infer_instance
    | int r =>
      dsimp only [reg]
      infer_instance
    | float r => exact absurd hsrc (h.src_int (h.ref_of_handle hoff) r)
    | nowhere => exact absurd hsrc h.src_there

theorem lawful_storeHandles (P : Planned m p) (hreach : p.InReach) : Lawful p.storeHandles := by
  have : Lawful (p.args.forM storeHandle) := lawful_forM fun a ha => by
    obtain ⟨i, l, h⟩ := P.sent ha
    exact lawful_storeHandle hreach h
  unfold storeHandles
  cases hclass : p.classHandle with
  | none =>
    dsimp only
    infer_instance
  | some off =>
    have : Short off := ⟨hreach.slots off (by simp [slots, hclass])⟩
    dsimp only
    infer_instance

/-- An argument is moved from an argument register or from the stack, never from a register that is in use. -/
theorem lawful_moveArgument (h : Sent P i l a) (hne : a.src ≠ a.dst) : Lawful (moveArgument a.move) := by
  have hrises : Convention.Rises a.src a.dst := by
    rw [h.src]
    exact rises_lowered (P.places h).2.2
  have hsrc : a.src.reg ≠ t1 := h.src_ne (by decide) (by decide)
  obtain ⟨k, src, dst, handle⟩ := a
  show Lawful (moveArgument ⟨src, dst, k⟩)
  cases src with
  | nowhere => cases dst <;> first | exact absurd rfl hne | exact hrises.elim
  | float r =>
    cases dst with
    | float r' => exact absurd (congrArg Location.float hrises) hne
    | _ => exact hrises.elim
  | int r =>
    have : t1.Apart (.x r) := ⟨hsrc.symm⟩
    cases dst with
    | nowhere => exact hrises.elim
    | float r' => exact hrises.elim
    | int r' => exact lawful_mv (.x r') (.x r)
    | stack slot => exact lawful_storeOff sp .sd (r := .x r) rfl rfl rfl _ t1
  | stack slot =>
    cases dst with
    | nowhere => exact hrises.elim
    | float r' => exact hrises.elim
    | int r' =>
      have hop : stackArgLoadOp k (.x r') = .lw ∨ stackArgLoadOp k (.x r') = .ld := by
        rw [stackArgLoadOp, if_neg (show ¬ (Reg.x r').isFloat = true from Bool.false_ne_true)]
        split
        · exact .inl rfl
        · exact .inr rfl
      show Lawful (loadOff (stackArgLoadOp k (.x r')) (.x r') sp (slotBytes slot) t1)
      rcases hop with hop | hop <;> rw [hop]
      · exact lawful_loadOff sp .lw (r := .x r') rfl rfl rfl _ t1
      · exact lawful_loadOff sp .ld (r := .x r') rfl rfl rfl _ t1
    | stack slot' =>
      have := lawful_loadOff sp .ld (r := t0) rfl rfl rfl (slotBytes slot) t0
      have := lawful_storeOff sp .sd (r := t0) rfl rfl rfl (slotBytes slot') t1
      exact lawful_bind (loadOff .ld t0 sp (slotBytes slot) t0) fun _ => storeOff .sd t0 sp (slotBytes slot') t1

theorem lawful_handleAddress (d : Reg) [d.Integer] (off : Int64) [Short off] : Lawful (handleAddress d off) := by
  unfold handleAddress
  infer_instance

theorem lawful_passHandle (hreach : p.InReach) (h : Sent P i l a) : Lawful (passHandle a) := by
  rw [passHandle_eq]
  cases hoff : a.handle with
  | none => exact lawful_pure ()
  | some off =>
    have : Short off := ⟨hreach.handle h hoff⟩
    have (d : Reg) [d.Integer] := lawful_handleAddress d off
    cases hdst : a.dst with
    | int r => exact lawful_bind (handleAddress (.x r) off) fun _ => pure ()
    | stack slot =>
      have := lawful_storeOff sp .sd (r := t1) rfl rfl rfl (slotBytes slot) t0
      exact lawful_bind (handleAddress t1 off) fun _ => storeOff .sd t1 sp (slotBytes slot) t0
    | float r => exact absurd hdst (h.dst_int (h.ref_of_handle hoff) r)
    | nowhere => exact lawful_bind (handleAddress t1 off) fun _ => pure ()

/-! ## The whole wrapper -/

theorem lawful_towards (P : Planned m p) (hreach : p.InReach) : Lawful p.towards := by
  have hstore := lawful_storeHandles P hreach
  have hlock : Lawful (p.whenLocked p.lock) := lawful_whenLocked hreach fun slot _ => lawful_lock hreach slot
  have hpass : Lawful (p.args.forM passHandle) := lawful_forM fun a ha => by
    obtain ⟨i, l, h⟩ := P.sent ha
    exact lawful_passHandle hreach h
  have hleading := lawful_passLeading hreach
  obtain ⟨moves, hmoves⟩ := P.exists_orderedMoves
  have hforM : Lawful (moves.forM moveArgument) := lawful_forM fun mv hmv => by
    obtain ⟨i, l, a, hsent, -, rfl, hne⟩ := (ordered P hmoves).sent mv hmv
    exact lawful_moveArgument hsent hne
  have hpure : (liftM p.orderedMoves : Asm (List Move)) = pure moves := by
    rw [hmoves]
    rfl
  unfold towards
  simp only [hpure, pure_bind]
  infer_instance

/-- What follows the map of the call. -/
def settle (p : Plan) : Asm (List SlowPath) := do
  normalizeResult p.sig.ret
  let back ← transitionBack
  let unlocked ← p.whenLocked unlock
  let last ← p.epilogue
  return back ++ (unlocked ++ [last])

theorem lawful_settle (hreach : p.InReach) : Lawful p.settle := by
  have : Lawful (p.whenLocked unlock) := lawful_whenLocked hreach fun slot _ => lawful_unlock slot
  unfold settle
  infer_instance

/-- The one map is recorded where there was none. -/
theorem unbroken_addOopMap {t : Target} {a : Assembler} (map : OopMap) (hnone : a.oopMaps = {}) :
    Unbroken (addOopMap map t a) := by
  have hadd : ∃ maps, a.oopMaps.add (Int64.ofNat a.buf.offset) map = .ok maps := by
    rw [hnone]
    exact ⟨_, rfl⟩
  obtain ⟨maps, hmaps⟩ := hadd
  unfold addOopMap
  rw [bind_ok (show failed t a = .ok (a.buf.failed, a) from rfl)]
  cases hf : a.buf.failed with
  | true => exact unbroken_ok _
  | false =>
    rw [if_neg (by decide)]
    rw [change_ok (show _ = Except.ok _ by rw [hmaps]; rfl)]
    exact unbroken_ok _

/-- Writing a wrapper whose offsets are within reach breaks no rule. -/
theorem body_unbroken (P : Planned m p) (hreach : p.InReach) {t : Target} {a : Assembler} (ht : t.Addressed)
    (hentry : p.method.entry.toNat < 2 ^ 47) (hnone : a.oopMaps = {}) : Unbroken (p.body t a) := by
  have := lawful_towards P hreach
  have : Lawful (call p.method.entry) := lawful_farCall _ _ hentry
  have hfront : Lawful (do
      p.unverified
      markEntry verified
      buildFrame p.layout.size
      markEntry frameComplete
      let r ← p.towards
      call p.method.entry
      Asm.bind r.1
      return r) := inferInstance
  obtain ⟨map, hmap⟩ := P.exists_oopMap
  have hbody : p.body = (do
      let r ← (do
        p.unverified
        markEntry verified
        buildFrame p.layout.size
        markEntry frameComplete
        let r ← p.towards
        call p.method.entry
        Asm.bind r.1
        return r)
      addOopMap map
      let after ← p.settle
      p.slowPaths (r.2.1 ++ after)
      return r.2.2) := by
    have hpure : (liftM p.oopMap : Asm OopMap) = pure map := by
      rw [hmap]
      rfl
    rw [body_parts]
    unfold backFrom homeward settle
    simp only [hpure, bind_assoc, pure_bind]
  rw [hbody]
  refine (hfront.kept ht).andThen fun r hr => ?_
  have hmaps : r.2.oopMaps = {} := (hfront.maps ht hr).trans hnone
  refine (unbroken_addOopMap map hmaps).andThen fun r' _ => ?_
  refine ((lawful_settle hreach).kept ht).andThen fun r'' _ => ?_
  exact ((lawful_slowPaths hreach _).kept ht).andThen fun _ _ => unbroken_ok _

end

/-! ## What was written is within reach -/

section
variable {p : Plan} {t : Target} {a b : Assembler} {off : Int64}

theorem imm12_of_store {o : Op} {src base : Reg} (h : store o src base off t a = .ok ((), b)) : isImm12 off = true := by
  obtain ⟨_, c, hcheck, -⟩ := bind_eq_ok.mp h
  exact check_eq_ok.mp (lift_eq_ok.mp hcheck).1

theorem imm12_of_addi {rd rs : Reg} (h : addi rd rs off t a = .ok ((), b)) : isImm12 off = true := by
  obtain ⟨_, c, hcheck, -⟩ := bind_eq_ok.mp h
  exact check_eq_ok.mp (lift_eq_ok.mp hcheck).1

theorem imm12_of_storeHandle {arg : Argument} (h : storeHandle arg t a = .ok ((), b))
    (hoff : arg.handle = some off) : isImm12 off = true := by
  obtain ⟨k, src, dst, handle⟩ := arg
  have hoff : handle = some off := hoff
  subst hoff
  cases src with
  | stack slot =>
    obtain ⟨_, c, -, hstore⟩ := bind_eq_ok.mp h
    exact imm12_of_store hstore
  | _ => exact imm12_of_store h

theorem imm12_of_storeArguments {args : List Argument} (h : args.forM storeHandle t a = .ok ((), b)) :
    ∀ arg ∈ args, ∀ off, arg.handle = some off → isImm12 off = true := by
  induction args generalizing a with
  | nil => exact fun _ harg => absurd harg List.not_mem_nil
  | cons arg args ih =>
    obtain ⟨_, c, hfirst, hrest⟩ := bind_eq_ok.mp h
    rintro arg' hmem off hoff
    rcases List.mem_cons.mp hmem with rfl | hmem
    · exact imm12_of_storeHandle hfirst hoff
    · exact ih hrest arg' hmem off hoff

theorem imm12_of_lock {slot : Int64} {s : SlowPath} (h : p.lock slot t a = .ok (s, b)) : isImm12 slot = true := by
  rw [lock_eq] at h
  obtain ⟨_, c, -, h⟩ := bind_eq_ok.mp h
  obtain ⟨_, c', haddi, -⟩ := bind_eq_ok.mp h
  exact imm12_of_addi haddi

/-- On the way to the call all slots of the main code are named. -/
theorem imm12_of_towards {r : Label × List SlowPath × List Move} (h : p.towards t a = .ok (r, b)) :
    ∀ off ∈ p.slots, isImm12 off = true := by
  obtain ⟨_, a1, hstore, h⟩ := bind_eq_ok.mp h
  obtain ⟨_, a2, -, h⟩ := bind_eq_ok.mp h
  obtain ⟨_, a3, -, h⟩ := bind_eq_ok.mp h
  obtain ⟨_, a4, hlock, -⟩ := bind_eq_ok.mp h
  obtain ⟨_, a', hargs, hklass⟩ := bind_eq_ok.mp hstore
  intro off hoff
  rcases List.mem_append.mp hoff with hoff | hoff
  · rcases List.mem_append.mp hoff with hoff | hoff
    · obtain ⟨arg, harg, hhandle⟩ := List.mem_filterMap.mp hoff
      exact imm12_of_storeArguments hargs arg harg off hhandle
    · rw [Option.mem_toList.mp hoff] at hklass
      obtain ⟨_, c, -, hsd⟩ := bind_eq_ok.mp hklass
      exact imm12_of_store hsd
  · unfold whenLocked at hlock
    rw [Option.mem_toList.mp hoff] at hlock
    obtain ⟨s, c, hlocking, -⟩ := bind_eq_ok.mp hlock
    exact imm12_of_lock hlocking

theorem imm12_of_saveResult (h : p.saveResult t a = .ok ((), b)) : isImm12 p.resultTemp = true ∧
    isImm12 (p.resultTemp + 8) = true := by
  obtain ⟨_, c, hfirst, hsecond⟩ := bind_eq_ok.mp h
  exact ⟨imm12_of_store hfirst, imm12_of_store hsecond⟩

/-- The way back can leave for a slow path that saves the result. -/
theorem special_of_homeward {after : List SlowPath} (h : p.homeward t a = .ok (after, b)) :
    ∃ entry cont, .specialCondition entry cont ∈ after := by
  obtain ⟨_, a1, -, h⟩ := bind_eq_ok.mp h
  obtain ⟨_, a2, -, h⟩ := bind_eq_ok.mp h
  obtain ⟨_, a3, -, h⟩ := bind_eq_ok.mp h
  obtain ⟨back, a4, hback, h⟩ := bind_eq_ok.mp h
  obtain ⟨unlocked, a5, -, h⟩ := bind_eq_ok.mp h
  obtain ⟨last, a6, -, h⟩ := bind_eq_ok.mp h
  obtain ⟨rfl, -⟩ := pure_eq_ok.mp h
  rw [transitionBack_eq] at hback
  obtain ⟨special, a7, hstop, hback⟩ := bind_eq_ok.mp hback
  obtain ⟨_, a8, -, hback⟩ := bind_eq_ok.mp hback
  obtain ⟨reguard, a9, -, hback⟩ := bind_eq_ok.mp hback
  obtain ⟨rfl, -⟩ := pure_eq_ok.mp hback
  obtain ⟨_, c1, -, hstop⟩ := bind_eq_ok.mp hstop
  obtain ⟨_, c2, -, hstop⟩ := bind_eq_ok.mp hstop
  obtain ⟨entry, c3, -, hstop⟩ := bind_eq_ok.mp hstop
  obtain ⟨cont, c4, -, hstop⟩ := bind_eq_ok.mp hstop
  obtain ⟨_, c5, -, hstop⟩ := bind_eq_ok.mp hstop
  obtain ⟨_, c6, -, hstop⟩ := bind_eq_ok.mp hstop
  obtain ⟨_, c7, -, hstop⟩ := bind_eq_ok.mp hstop
  obtain ⟨_, c8, -, hstop⟩ := bind_eq_ok.mp hstop
  obtain ⟨_, c9, -, hstop⟩ := bind_eq_ok.mp hstop
  obtain ⟨_, c0, -, hstop⟩ := bind_eq_ok.mp hstop
  obtain ⟨rfl, -⟩ := pure_eq_ok.mp hstop
  exact ⟨entry, cont, List.mem_append_left _ List.mem_cons_self⟩

/-- The finished code of a wrapper has all its parts, so all their offsets are within reach. -/
theorem inReach_of_site {S : Site} {moves : List Move} (ws : WrapperSite S p moves) : p.InReach := by
  obtain ⟨_, b, hbind, hback⟩ := bind_eq_ok.mp ws.back
  obtain ⟨entry, cont, hspecial⟩ := special_of_homeward hback
  obtain ⟨a, _, a', hpath, -⟩ := ws.paths _ (List.mem_append_right _ hspecial)
  obtain ⟨_, c, -, hpath⟩ := bind_eq_ok.mp hpath
  obtain ⟨_, c', hsave, -⟩ := bind_eq_ok.mp hpath
  obtain ⟨hresult, hfloat⟩ := imm12_of_saveResult hsave
  exact ⟨imm12_of_towards ws.towards, hresult, hfloat⟩

/-- Writing a wrapper goes on to the way to the call. -/
theorem towards_of_body {moves : List Move} (h : p.body t a = .ok (moves, b)) :
    ∃ r a1 a2, p.towards t a1 = .ok (r, a2) := by
  rw [body_parts] at h
  obtain ⟨_, a1, -, h⟩ := bind_eq_ok.mp h
  obtain ⟨_, a2, -, h⟩ := bind_eq_ok.mp h
  obtain ⟨_, a3, -, h⟩ := bind_eq_ok.mp h
  obtain ⟨_, a4, -, h⟩ := bind_eq_ok.mp h
  obtain ⟨r, a5, htowards, -⟩ := bind_eq_ok.mp h
  exact ⟨r, a4, a5, htowards⟩

end

end Plan

/-! ## Methods within reach -/

section
variable {m : NativeMethod} {p : Plan}

/-- The room for the result is above all other words that are named, so it decides. -/
theorem Planned.inReach (P : Planned m p) (h : 8 * P.temp ≤ 2039) : p.InReach := by
  have habove := P.tempAbove
  refine ⟨fun off hoff => ?_, ?_, ?_⟩
  · rcases List.mem_append.mp hoff with hoff | hoff
    · rcases List.mem_append.mp hoff with hoff | hoff
      · obtain ⟨a, ha, hhandle⟩ := List.mem_filterMap.mp hoff
        obtain ⟨i, l, hsent⟩ := P.sent ha
        have href := hsent.ref_of_handle hhandle
        have hlt := P.handleWord_lt hsent href
        rw [hsent.handle, if_pos href] at hhandle
        cases hhandle
        exact isImm12_ofNat (by omega)
      · rw [P.classHandle] at hoff
        cases hstatic : m.isStatic with
        | true =>
          rw [hstatic] at hoff
          have hbelow := habove.2.1 hstatic
          rw [List.mem_singleton.mp hoff]
          exact isImm12_ofNat (by omega)
        | false =>
          rw [hstatic] at hoff
          cases hoff
    · rw [P.lockSlot] at hoff
      cases hsync : m.isSynchronized with
      | true =>
        rw [hsync] at hoff
        have hbelow := habove.2.2 hsync
        rw [List.mem_singleton.mp hoff]
        exact isImm12_ofNat (by omega)
      | false =>
        rw [hsync] at hoff
        cases hoff
  · rw [P.resultTemp]
    exact isImm12_ofNat (by omega)
  · rw [P.resultTemp, show Int64.ofNat (8 * P.temp) + 8 = Int64.ofNat (8 * P.temp + 8) from (Int64.ofNat_add ..).symm]
    exact isImm12_ofNat (by omega)

variable {t : Target} {sig : Signature} {base : UInt64}

/-- A method that was planned is written into an empty buffer. -/
theorem generate_planned (base : UInt64) (hplan : plan m = .ok p) (hpos : 0 ≤ t.opts.codeBufferSize.toInt)
    (hlimit : t.opts.codeBufferSize.toInt ≤ capacityLimit) : ∃ a, a.Sound [] ∧ a.buf.inStub = false ∧ a.oopMaps = {} ∧
      (∀ e, p.body t a = .error e → generate t m base = .error (.fault e)) ∧
      ∀ r, p.body t a = .ok r →
        (∃ w, generate t m base = .ok w) ∨ ∃ name reason,
        generate t m base = .error (.failure (.bailout name reason)) := by
  obtain ⟨a, hstart, hsound, hout, hnone⟩ := (start_ok hpos hlimit :
    ∃ a, Assembler.start ("native_wrapper:" ++ m.name) base t.opts.codeBufferSize = .ok a ∧ _)
  have hgen : generate t m base = (Stop.ofFault (p.body t a) >>= fun r =>
    Stop.ofFailure (r.2.finish p.layout.size) >>= fun blob =>
      pure (blob, r.1)) >>= fun r => pure { blob := r.1, layout := p.layout, nativeSig := p.nativeSig, moves := r.2 } := by
    unfold generate Asm.generate
    rw [hplan, hstart]
    rfl
  refine ⟨a, hsound, hout, hnone, fun e he => ?_, fun r hr => ?_⟩
  · rw [hgen, he]
    rfl
  · rw [hgen, hr]
    show (∃ w, (Stop.ofFailure (r.2.finish p.layout.size) >>= _) >>= _ = _) ∨ ∃ name reason,
      (Stop.ofFailure _ >>= _) >>= _ = _
    unfold Assembler.finish
    split
    · exact .inr ⟨_, _, rfl⟩
    · exact .inl ⟨_, rfl⟩

variable (ht : t.Addressed) (hm : m.Described sig) (hplan : plan m = .ok p) (hpos : 0 ≤ t.opts.codeBufferSize.toInt)
  (hlimit : t.opts.codeBufferSize.toInt ≤ capacityLimit)
include ht hm hplan hpos hlimit

/-- Within reach there is a wrapper, or the buffer is too small. -/
theorem generate_within (hlow : m.entry.toNat < 2 ^ 47) (hreach : p.InReach) :
    (∃ w, generate t m base = .ok w) ∨ ∃ name reason, generate t m base = .error (.failure (.bailout name reason)) := by
  obtain ⟨P⟩ := planned hplan hm.held
  obtain ⟨a, hsound, hout, hnone, -, hdone⟩ := generate_planned base hplan hpos hlimit
  have hentry : p.method.entry.toNat < 2 ^ 47 := P.method ▸ hlow
  obtain ⟨r, hr, -⟩ := (p.body_ends P.exists_orderedMoves P.exists_oopMap ht.complete hsound hout).lawful
    (Plan.body_unbroken P hreach ht hentry hnone)
  exact hdone r hr

/-- Out of reach there is no wrapper. -/
theorem generate_beyond (hbeyond : ¬ p.InReach) :
    (∃ name reason, generate t m base = .error (.failure (.bailout name reason))) ∨
    ∃ what, generate t m base = .error (.fault (.precondition what)) := by
  obtain ⟨P⟩ := planned hplan hm.held
  obtain ⟨a, hsound, hout, hnone, hstop, hdone⟩ := generate_planned base hplan hpos hlimit
  rcases p.body_ends P.exists_orderedMoves P.exists_oopMap ht.complete hsound hout with ⟨r, hr, -⟩ | ⟨what, hwhat⟩
  · rcases hdone r hr with ⟨w, hw⟩ | hfull
    · obtain ⟨p', first, last, hplan', hfinished, hbody, -⟩ := generate_eq_ok hw
      rw [hplan] at hplan'
      cases hplan'
      obtain ⟨ws⟩ := wrapper_site (S := hfinished.site t base (fun _ => none) (fun _ _ => rfl) fun _ => rfl) hbody
      exact absurd (Plan.inReach_of_site ws) hbeyond
    · exact .inl hfull
  · exact .inr ⟨what, hstop _ hwhat⟩

/-- When a slot of the main code is out of reach, no buffer is too small to tell. -/
theorem generate_broken {off : Int64} (hoff : off ∈ p.slots) (hlong : isImm12 off = false) :
    ∃ what, generate t m base = .error (.fault (.precondition what)) := by
  obtain ⟨P⟩ := planned hplan hm.held
  obtain ⟨a, hsound, hout, hnone, hstop, -⟩ := generate_planned base hplan hpos hlimit
  rcases p.body_ends P.exists_orderedMoves P.exists_oopMap ht.complete hsound hout with ⟨r, hr, -⟩ | ⟨what, hwhat⟩
  · obtain ⟨r', a1, a2, htowards⟩ := Plan.towards_of_body hr
    have := Plan.imm12_of_towards htowards off hoff
    rw [hlong] at this
    cases this
  · exact ⟨what, hstop _ hwhat⟩

end

/-- A method of a descriptor has a plan. When the words of its frame that are named by immediates are
within reach, as they are with at most 120 parameter slots, there is a wrapper, or the buffer is too
small. When they are not, there is no wrapper: the first offset out of reach breaks a precondition,
unless it is in a slow path and the buffer was too small to get there. -/
theorem methods_within_reach_have_wrappers {t : Target} {m : NativeMethod} {sig : Signature} (base : UInt64)
    (hopts : t.opts.refusal? = none) (ht : t.Addressed) (hm : m.Described sig) (hlow : m.entry.toNat < 2 ^ 47) :
    ∃ p, plan m = .ok p ∧ (sig.parameterSlots ≤ 120 → p.InReach) ∧
      (t.opts.codeBufferSize.toInt ≤ capacityLimit →
        (p.InReach →
          (∃ w, generate t m base = .ok w) ∨ ∃ name reason,
          generate t m base = .error (.failure (.bailout name reason))) ∧
        (¬ p.InReach → (∃ name reason, generate t m base = .error (.failure (.bailout name reason))) ∨
          ∃ what, generate t m base = .error (.fault (.precondition what))) ∧
        ∀ off ∈ p.slots, isImm12 off = false → ∃ what, generate t m base = .error (.fault (.precondition what))) ∧
      (capacityLimit < t.opts.codeBufferSize.toInt → generate t m base = .error (.fault .trap)) := by
  obtain ⟨p, hplan, k, hk, hbound⟩ := plan_described hm
  obtain ⟨P⟩ := planned hplan hm.held
  have hslots := hm.slots
  have hpos := Int.le_of_lt (Options.bufferSizes_pos hopts).1
  refine ⟨p, hplan, fun hfew => P.inReach ?_, fun hlimit => ⟨generate_within ht hm hplan hpos hlimit hlow,
    generate_beyond ht hm hplan hpos hlimit, fun off => generate_broken ht hm hplan hpos hlimit⟩, fun hlarge => ?_⟩
  · have hsame := congrArg Int64.toInt (P.resultTemp.symm.trans hk)
    have := P.linkage
    have := P.small
    rw [Int64.toInt_ofNat_of_lt (by omega), Int64.toInt_ofNat_of_lt (by omega)] at hsame
    omega
  · have hrefused : (decide (t.opts.codeBufferSize < 0) || decide
      (capacityLimit < t.opts.codeBufferSize.toInt)) = true := by
      rw [decide_eq_true hlarge, Bool.or_true]
    unfold generate Asm.generate Assembler.start create
    rw [hplan, hrefused]
    rfl

theorem passedTarget_addressed : passedTarget.Addressed := addressed_synthetic (by decide) (by decide)

theorem passedMethod_described : passedMethod.Described ⟨[.object, .long, .float], .void⟩ where
  read := ⟨"(LO;JF)V", Descriptor.parse_of_bytes (by decide +kernel)⟩
  hasSig := rfl
  slots := by decide
  entry := by decide

theorem short_method_has_wrapper : passedTarget.opts.refusal? = none ∧ passedTarget.Addressed ∧
    passedMethod.Described ⟨[.object, .long, .float], .void⟩ ∧ passedMethod.entry.toNat < 2 ^ 47 ∧
    ((∃ w, generate passedTarget passedMethod 0 = .ok w) ∨
      ∃ name reason, generate passedTarget passedMethod 0 = .error (.failure (.bailout name reason))) := by
  refine ⟨by decide, passedTarget_addressed, passedMethod_described, by decide, ?_⟩
  obtain ⟨p, -, hfew, hends, -⟩ := methods_within_reach_have_wrappers 0 (by decide) passedTarget_addressed
    passedMethod_described (by decide)
  exact (hends (by decide)).1 (hfew (by decide))

/-- A static method of 255 arrays. -/
def wideMethod : NativeMethod where
  name := "m"
  sig := some ⟨List.replicate 255 .array, .void⟩
  isStatic := true
  entry := 0x50000
  classObject := 0x3000

theorem wideMethod_described : wideMethod.Described ⟨List.replicate 255 .array, .void⟩ where
  read := ⟨"(" ++ String.ofList (List.replicate 255 ['[', 'I']).flatten ++ ")V",
  Descriptor.parse_of_bytes (by decide +kernel)⟩
  hasSig := rfl
  slots := by decide +kernel
  entry := by decide

/-- The last of 255 references has no handle within reach. -/
theorem wide_method_has_none : passedTarget.opts.refusal? = none ∧ passedTarget.Addressed ∧
    (∃ sig, wideMethod.Described sig) ∧ wideMethod.entry.toNat < 2 ^ 47 ∧
    ∃ what, generate passedTarget wideMethod 0 = .error (.fault (.precondition what)) := by
  refine ⟨by decide, passedTarget_addressed, ⟨_, wideMethod_described⟩, by decide, ?_⟩
  have hfar : ((plan wideMethod).toOption.any fun p => p.slots.any fun off => !isImm12 off) = true := by decide +kernel
  cases hplan : plan wideMethod with
  | error e =>
    rw [hplan] at hfar
    cases hfar
  | ok p =>
    rw [hplan] at hfar
    obtain ⟨off, hoff, hlong⟩ := List.any_eq_true.mp hfar
    exact generate_broken passedTarget_addressed wideMethod_described hplan (by decide) (by decide) hoff
      (by simpa using hlong)

end NativeWrapper

end RiscvJit

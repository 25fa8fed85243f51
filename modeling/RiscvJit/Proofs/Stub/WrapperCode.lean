import RiscvJit.Proofs.Code.Finished
import RiscvJit.Proofs.Code.Locks
import RiscvJit.Proofs.Stub.Sequences
import RiscvJit.Proofs.Stub.WrapperPlan

/-
  RiscvJit.Proofs.Stub.WrapperCode — what the code of a native wrapper is made of.

  From the verified entry point the code builds the frame, goes on to the call of the native function
  (`Plan.towards`), and from there back to the caller (`Plan.backFrom`); the slow paths that these two
  leave for are written behind them. All of these parts are in the finished code (`WrapperSite`,
  `wrapper_site`).
-/

namespace RiscvJit

open Reg (sp t0 t1 fp thread)
open EntryPoint

namespace NativeWrapper

theorem lockRegs_apart : lockRegs.Apart := ⟨by decide, by decide, by decide⟩

namespace Plan

open Asm

variable (p : Plan)

/-! ## Parts of the code -/

/-- From the finished frame to the call of the native function. -/
def towards : Asm (Label × List SlowPath × List Move) := do
  p.storeHandles
  let returnPc ← newLabel
  setLastJavaFrame sp fp returnPc t0
  let locked ← p.whenLocked p.lock
  let moves ← p.orderedMoves
  moves.forM moveArgument
  p.args.forM passHandle
  p.passLeading
  storeThreadState ThreadState.inNative
  return (returnPc, locked, moves)

/-- From the result of the native function to the caller. -/
def homeward : Asm (List SlowPath) := do
  addOopMap (← p.oopMap)
  normalizeResult p.sig.ret
  let back ← transitionBack
  let unlocked ← p.whenLocked unlock
  let last ← p.epilogue
  return back ++ (unlocked ++ [last])

/-- From the return of the native function to the caller. -/
def backFrom (returnPc : Label) : Asm (List SlowPath) := do
  bind returnPc
  p.homeward

/-- What precedes the verified entry point. -/
def unverified : Asm Unit := do
  unless p.method.isStatic do
    markEntry EntryPoint.unverified
    checkReceiver

theorem body_parts : p.body = (do
    p.unverified
    markEntry EntryPoint.verified
    buildFrame p.layout.size
    markEntry frameComplete
    let (returnPc, locked, moves) ← p.towards
    call p.method.entry
    let after ← p.backFrom returnPc
    p.slowPaths (locked ++ after)
    return moves) := by
  unfold body unverified towards backFrom homeward callNative
  cases p.method.isStatic <;> simp only [bind_assoc, pure_bind, List.append_assoc, ite_true,
    ite_false, Bool.false_eq_true]

/-! ## Traces -/

variable (slot : Int64)

instance traced_lock : (p.lock slot).Traced := by
  have := lockRegs_apart.traced_fastLock
  unfold lock
  infer_instance

instance traced_unlock : (unlock slot).Traced := by
  have := lockRegs_apart.traced_fastUnlock
  unfold unlock
  infer_instance

instance traced_whenLocked (f : Int64 → Asm SlowPath) [∀ slot, (f slot).Traced] : (p.whenLocked f).Traced := by
  unfold whenLocked
  split <;> infer_instance

instance traced_towards : p.towards.Traced := by
  unfold towards
  infer_instance

/-- The lock is taken in the code, or its slow path. -/
def tryLock (entry : Label) : Asm Unit := do
  if (← opts).useFastLocking then fastLock lockRegs entry else j entry

theorem lock_eq : p.lock slot = (do
    ld lockRegs.obj sp p.lockedHandle
    addi lockRegs.lock sp slot
    let entry ← newLabel
    let locked ← newLabel
    tryLock entry
    bind locked
    return .lock entry locked) := by
  unfold lock tryLock
  simp only [bind_assoc]
  refine bind_congr fun _ => bind_congr fun _ => bind_congr fun entry => bind_congr fun locked => bind_congr fun o => ?_
  cases o.useFastLocking <;> rfl

instance traced_tryLock (entry : Label) : (tryLock entry).Traced := by
  have := lockRegs_apart.traced_fastLock
  unfold tryLock
  infer_instance

/-- The lock is released in the code, or its slow path. -/
def tryUnlock (entry : Label) : Asm Unit := do
  if (← opts).useFastLocking then fastUnlock lockRegs entry else j entry

theorem unlock_eq : unlock slot = (do
    let entry ← newLabel
    let unlocked ← newLabel
    addi lockRegs.lock sp slot
    ld lockRegs.obj lockRegs.lock lockSlotObject
    tryUnlock entry
    bind unlocked
    return .unlock entry unlocked) := by
  unfold unlock tryUnlock
  simp only [bind_assoc]
  refine bind_congr fun entry => bind_congr fun unlocked => bind_congr fun _ => bind_congr fun _ => bind_congr fun o => ?_
  cases o.useFastLocking <;> rfl

/-- In transition the thread looks whether it shall stop. -/
def stopIfAsked : Asm SlowPath := do
  let _ ← storeThreadState ThreadState.inNativeTrans
  membar anyOrder
  let special ← newLabel
  let resumed ← newLabel
  ld t0 thread threadLayout.pollingWord
  andi t0 t0 safepointPollBit
  bnez t0 special
  lwu t0 thread threadLayout.suspendFlags
  bnez t0 special
  bind resumed
  return .specialCondition special resumed

/-- A yellow zone that is not protected is protected again. -/
def guardStack : Asm SlowPath := do
  let reguard ← newLabel
  let reguarded ← newLabel
  lbu t0 thread threadLayout.stackGuardState
  li t1 stackGuardDisabled
  bcond .beq t0 t1 reguard
  bind reguarded
  return .reguard reguard reguarded

theorem transitionBack_eq : transitionBack = (do
    let special ← stopIfAsked
    storeThreadState ThreadState.inJava
    let reguard ← guardStack
    return [special, reguard]) := by
  unfold transitionBack stopIfAsked guardStack
  simp only [bind_assoc, pure_bind]

theorem spaces_storeThreadState (state : Int64) : (storeThreadState state).Spaces := by
  intro t a r a' ha h
  obtain ⟨_, b, hli, h⟩ := bind_eq_ok.mp h
  obtain ⟨_, c, hbar, hsw⟩ := bind_eq_ok.mp h
  obtain ⟨is, htrace, -⟩ := (traced_of_composed (li _ _)).trace _ _ _ _ ha hli
  have hb := htrace.behind ha
  have hc : c.Behind := by
    rcases membar_sealed ((spaces_li _ _).seals _ _ _ _ ha hli) hbar with h | h <;> exact h.behind hb
  exact Spaces.after (x := liftM (checkImm12 _ _)) (fun _ => spaces_emit) _ _ _ _ hc hsw

instance traced_stopIfAsked : stopIfAsked.Traced := traced_membar (spaces_storeThreadState _) _

instance traced_guardStack : guardStack.Traced := by
  unfold guardStack
  infer_instance

instance traced_transitionBack : transitionBack.Traced := by
  rw [transitionBack_eq]
  infer_instance

instance traced_homeward : p.homeward.Traced := by
  unfold homeward
  infer_instance

instance traced_backFrom (returnPc : Label) : (p.backFrom returnPc).Traced := by
  unfold backFrom
  infer_instance

instance traced_slowPaths (ss : List SlowPath) : (p.slowPaths ss).Traced := by
  induction ss with
  | nil => exact traced_pure ()
  | cons s rest ih =>
    unfold slowPaths
    infer_instance

/-! ## Where the parts are -/

theorem slowPaths_each {t : Target} {ss : List SlowPath} {a a' : Assembler} (h : p.slowPaths ss t a = .ok ((), a'))
    (ha : a.Behind) (hw : a'.buf.failed = false) : ∀ s ∈ ss, ∃ b b' is js, p.slowPath s t b = .ok ((), b') ∧
    Trace t is a b ∧
      Trace t js b' a' := by
  induction ss generalizing a with
  | nil => exact fun s hmem => nomatch hmem
  | cons first rest ih =>
    obtain ⟨ok, a1, hstart, h⟩ := bind_eq_ok.mp h
    obtain ⟨is1, htrace1, -⟩ := (traced_startStub _ _).trace _ _ _ _ ha hstart
    cases ok with
    | false =>
      obtain ⟨-, rfl⟩ := pure_eq_ok.mp h
      obtain ⟨buf, rfl, -, -, -, ⟨hok, -⟩ | ⟨-, hfailed⟩⟩ := startStub_cases hstart
      · cases hok
      · cases hfailed.symm.trans hw
    | true =>
      obtain ⟨_, a2, hfirst, h⟩ := bind_eq_ok.mp h
      obtain ⟨_, a3, hend, h⟩ := bind_eq_ok.mp h
      have hb1 := htrace1.behind ha
      obtain ⟨is2, htrace2, -⟩ := (traced_of_composed (p.slowPath first)).trace _ _ _ _ hb1 hfirst
      have hb2 := htrace2.behind hb1
      obtain ⟨is3, htrace3, -⟩ := traced_endStub.trace _ _ _ _ hb2 hend
      have hb3 := htrace3.behind hb2
      obtain ⟨is4, htrace4, -⟩ := (p.traced_slowPaths rest).trace _ _ _ _ hb3 h
      intro s hmem
      rcases List.mem_cons.mp hmem with rfl | hmem
      · exact ⟨_, _, _, _, hfirst, htrace1, htrace3.append htrace4⟩
      · obtain ⟨b, b', is, js, hrun, hbefore, hafter⟩ := ih h hb3 s hmem
        exact ⟨b, b', _, js, hrun, htrace1.append (htrace2.append (htrace3.append hbefore)), hafter⟩

end Plan

/-- The parts of the code of a wrapper, in the site of all of it. -/
structure WrapperSite (S : Site) (p : Plan) (moves : List Move) where
  /-- Where the code was when the entry was reached, the frame was finished, the call began and returned. -/
  entry : Assembler
  framed : Assembler
  calling : Assembler
  returned : Assembler
  ended : Assembler
  returnPc : Label
  locked : List SlowPath
  after : List SlowPath
  frame : Asm.buildFrame p.layout.size S.target entry = .ok ((), framed)
  towards : p.towards S.target (framed.markEntry frameComplete) = .ok ((returnPc, locked, moves), calling)
  call : Asm.call p.method.entry S.target calling = .ok ((), returned)
  back : p.backFrom returnPc S.target returned = .ok (after, ended)
  verified : S.last.entries.lookup EntryPoint.verified = some entry.buf.offset
  earlyEntry : S.Early entry
  lateEntry : S.Late entry
  earlyFramed : S.Early (framed.markEntry frameComplete)
  lateFramed : S.Late framed
  earlyCalling : S.Early calling
  lateCalling : S.Late calling
  earlyReturned : S.Early returned
  lateReturned : S.Late returned
  lateEnded : S.Late ended
  map : OopMap
  oopMap : p.oopMap = .ok map
  recorded : S.last.oopMaps.find? (Int64.ofNat returned.buf.offset) = some (map.placed (Int64.ofNat returned.buf.offset))
  paths : ∀ s ∈ locked ++ after, S.Contains (p.slowPath s)

variable {p : Plan}

open Asm in
/-- What precedes the verified entry point is a trace. -/
theorem traced_unverified {t : Target} {a a' : Assembler} (ha : a.Behind) (h : p.unverified t a = .ok ((), a')) :
    ∃ is, Trace t is a a' := by
  unfold Plan.unverified at h
  split at h
  · obtain ⟨-, rfl⟩ := pure_eq_ok.mp h
    exact ⟨[], .nil a⟩
  · obtain ⟨_, b, hmark, hcheck⟩ := bind_eq_ok.mp h
    cases hmark
    have hfirst := trace_entry t EntryPoint.unverified a
    have : Plan.checkReceiver.Traced := by
      unfold Plan.checkReceiver
      infer_instance
    obtain ⟨is, htrace, -⟩ := this.trace _ _ _ _ (hfirst.behind ha) hcheck
    exact ⟨_, hfirst.append htrace⟩

open Asm in
/-- The map of the call is recorded where the call returns. -/
theorem recorded_backFrom {t : Target} {returnPc : Label} {after : List SlowPath} {a a' : Assembler}
    (h : p.backFrom returnPc t a = .ok (after, a')) (ha : a.Behind) (hw : a'.buf.failed = false) : ∃ map,
      p.oopMap = .ok map ∧ a'.oopMaps.find? (Int64.ofNat a.buf.offset) = some
      (map.placed (Int64.ofNat a.buf.offset)) := by
  obtain ⟨_, b, hbind, h⟩ := bind_eq_ok.mp h
  obtain ⟨map, b', hlift, h⟩ := bind_eq_ok.mp h
  obtain ⟨_, c, hadd, hrest⟩ := bind_eq_ok.mp h
  obtain ⟨hmap, rfl⟩ := lift_eq_ok.mp hlift
  obtain ⟨is, htrace, -⟩ := (traced_of_composed (Asm.bind returnPc)).trace _ _ _ _ ha hbind
  obtain ⟨js, htrace', -⟩ := (traced_addOopMap map).trace _ _ _ _ (htrace.behind ha) hadd
  obtain ⟨ks, hlast, -⟩ := Traced.trace t c after a' ((htrace.append htrace').behind ha) hrest
  have hfind := find?_addOopMap hadd (hlast.working hw)
  rw [Site.offset_bindLabel hbind] at hfind
  exact ⟨map, hmap, hlast.find? hfind⟩

open Asm in
/-- The finished code of a wrapper has all its parts. -/
theorem wrapper_site {S : Site} {moves : List Move} (h : p.body S.target S.first = .ok (moves, S.last)) :
    Nonempty (WrapperSite S p moves) := by
  have hearly : S.Early S.first := ⟨[], .nil _⟩
  rw [Plan.body_parts] at h
  obtain ⟨_, a0, hbefore, h⟩ := bind_eq_ok.mp h
  obtain ⟨is0, htrace0⟩ := traced_unverified S.behind hbefore
  obtain ⟨_, entry, hmark, h⟩ := bind_eq_ok.mp h
  cases hmark
  have hearly0 := hearly.append (htrace0.append (trace_entry S.target EntryPoint.verified a0))
  obtain ⟨_, framed, hframe, h⟩ := bind_eq_ok.mp h
  obtain ⟨is1, htrace1, hfree1⟩ := (traced_of_composed (buildFrame _)).trace _ _ _ _ hearly0.behind hframe
  obtain ⟨_, b, hmark, h⟩ := bind_eq_ok.mp h
  cases hmark
  have hmarked := trace_entry S.target frameComplete framed
  have hearly1 := hearly0.append (htrace1.append hmarked)
  obtain ⟨⟨returnPc, locked, moves'⟩, calling, htowards, h⟩ := bind_eq_ok.mp h
  obtain ⟨is2, htrace2, hfree2⟩ := p.traced_towards.trace _ _ _ _ hearly1.behind htowards
  have hearly2 := hearly1.append htrace2
  obtain ⟨_, returned, hcall, h⟩ := bind_eq_ok.mp h
  obtain ⟨is3, htrace3, hfree3⟩ := (traced_farCall _ _ _).trace _ _ _ _ hearly2.behind hcall
  have hearly3 := hearly2.append htrace3
  obtain ⟨after, ended, hback, h⟩ := bind_eq_ok.mp h
  obtain ⟨is4, htrace4, hfree4⟩ := (p.traced_backFrom returnPc).trace _ _ _ _ hearly3.behind hback
  have hearly4 := hearly3.append htrace4
  obtain ⟨_, last, hpaths, h⟩ := bind_eq_ok.mp h
  obtain ⟨hmoves, rfl⟩ := pure_eq_ok.mp h
  cases hmoves
  obtain ⟨is5, htrace5, hfree5⟩ := (p.traced_slowPaths _).trace _ _ _ _ hearly4.behind hpaths
  have hlate4 := Site.late_of_trace htrace5
  obtain ⟨map, hmap, hrecorded⟩ := recorded_backFrom hback hearly3.behind hlate4.working
  have hlate3 := hlate4.append htrace4
  have hlate2 := hlate3.append htrace3
  have hlate1 := hlate2.append htrace2
  refine ⟨⟨_, framed, calling, returned, ended, returnPc, locked, after, hframe, htowards, hcall, hback, ?_, hearly0,
    (hlate1.append hmarked).append htrace1, hearly1, hlate1.append hmarked, hearly2, hlate2, hearly3,
    hlate3, hlate4, map, hmap, htrace5.find? hrecorded, fun s hs => ?_⟩⟩
  · rw [htrace5.lookup (hfree5 _), htrace4.lookup (hfree4 _), htrace3.lookup (hfree3 _), htrace2.lookup (hfree2 _),
      lookup_markEntry_other _ (by decide), htrace1.lookup (hfree1 _), lookup_markEntry]
    rfl
  · obtain ⟨b, b', is, js, hrun, hbefore, hafter⟩ := p.slowPaths_each hpaths hearly4.behind S.working s hs
    exact ⟨b, (), b', hrun, hearly4.append hbefore, Site.late_of_trace hafter⟩

end NativeWrapper

end RiscvJit

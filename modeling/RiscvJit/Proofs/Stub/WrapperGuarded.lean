import RiscvJit.Proofs.Lower.MethodGuarded
import RiscvJit.Proofs.Stub.Capacity
import RiscvJit.Proofs.Stub.WrapperPlanning

/-
  RiscvJit.Proofs.Stub.WrapperGuarded — writing a wrapper ends with code or with a broken
  precondition.

  The parts of a wrapper are guarded as they are made of guarded instructions, but for the labels that
  they leave open: a part that has a slow path makes two labels, where the slow path starts and where
  it comes back, and binds the second one. So what is kept from part to part is that all slow paths so
  far wait at entries of their own (`Waiting`). They then bind their entries, each once
  (`slowPaths_ends`).
-/

namespace RiscvJit

open Reg (zr sp t0 t1 t2 fp thread)

namespace Asm

variable {F : List Bool}

/-- Two maps at one place break a precondition. -/
instance guarded_addOopMap (m : OopMap) : Guarded F (addOopMap m) := by
  have hadd : Guarded F (change fun a =>
      return { a with oopMaps := ← a.oopMaps.add (Int64.ofNat a.buf.offset) m }) := ⟨fun {F'} hp =>
    ⟨fun {t a} ht ha => ((Lower.guarded_addMap (Int64.ofNat a.buf.offset) m).safe hp).ends ht ha⟩⟩
  have := Lower.guarded_failed (F := F)
  unfold addOopMap
  infer_instance

end Asm

namespace NativeWrapper

/-! ## Labels of slow paths -/

/-- Where a slow path starts. -/
def SlowPath.entry : SlowPath → Label
  | .lock entry _ => entry
  | .specialCondition entry _ => entry
  | .reguard entry _ => entry
  | .unlock entry _ => entry
  | .pending entry => entry

/-- Where it goes back to the main code. -/
def SlowPath.cont? : SlowPath → Option Label
  | .lock _ cont => some cont
  | .specialCondition _ cont => some cont
  | .reguard _ cont => some cont
  | .unlock _ cont => some cont
  | .pending _ => none

/-- A slow path that can be written. -/
structure SlowPath.Ready (F : List Bool) (s : SlowPath) : Prop where
  entry : OpenLabel F s.entry
  cont : ∀ l, s.cont? = some l → KnownLabel F l

/-- The slow paths came up since the labels were `F`, and wait at entries of their own. -/
structure Waiting (F F' : List Bool) (ss : List SlowPath) : Prop where
  grows : F <+: F'
  ready : ∀ s ∈ ss, s.Ready F'
  later : ∀ s ∈ ss, F.length < s.entry
  apart : (ss.map SlowPath.entry).Nodup

section
variable {F F' F'' : List Bool} {ss ss' : List SlowPath} {s : SlowPath} {l : Label}

theorem SlowPath.Ready.extend (h : s.Ready F) (hp : F <+: F') : s.Ready F' :=
  ⟨h.entry.extend hp, fun l hl => (h.cont l hl).extend hp⟩

theorem SlowPath.Ready.boundLabel (h : s.Ready F) (hne : s.entry ≠ l) (hl : 0 < l) : s.Ready (boundLabel F l) :=
  ⟨h.entry.boundLabel_other hne hl, fun k hk => (h.cont k hk).boundLabel⟩

theorem waiting_nil (h : F <+: F') : Waiting F F' [] := ⟨h, nofun, nofun, List.nodup_nil⟩

theorem Waiting.extend (h : Waiting F F' ss) (hp : F' <+: F'') : Waiting F F'' ss :=
  ⟨h.grows.trans hp, fun s hs => (h.ready s hs).extend hp, h.later, h.apart⟩

theorem Waiting.after (h : Waiting F' F'' ss) (hp : F <+: F') : Waiting F F'' ss :=
  ⟨hp.trans h.grows, h.ready, fun s hs => Nat.lt_of_le_of_lt hp.length_le (h.later s hs), h.apart⟩

/-- What came up later has other entries. -/
theorem Waiting.append (h : Waiting F F' ss) (h' : Waiting F' F'' ss') : Waiting F F'' (ss ++ ss') where
  grows := h.grows.trans h'.grows
  ready s hs := (List.mem_append.mp hs).elim ((h.extend h'.grows).ready s) (h'.ready s)
  later s hs := (List.mem_append.mp hs).elim (h.later s) ((h'.after h.grows).later s)
  apart := by
    rw [List.map_append]
    refine List.nodup_append.mpr ⟨h.apart, h'.apart, fun l hl k hk => ?_⟩
    obtain ⟨s, hs, rfl⟩ := List.mem_map.mp hl
    obtain ⟨s', hs', rfl⟩ := List.mem_map.mp hk
    exact Nat.ne_of_lt (Nat.lt_of_le_of_lt (h.ready s hs).entry.known.le (h'.later s' hs'))

/-- Binding a label that is not an entry leaves them waiting. -/
theorem Waiting.boundLabel (h : Waiting F F' ss) (hl : F.length < l) (hne : ∀ s ∈ ss, s.entry ≠ l) :
    Waiting F (boundLabel F' l) ss :=
  ⟨prefix_boundLabel h.grows hl, fun s hs => (h.ready s hs).boundLabel (hne s hs)
    (Nat.zero_lt_of_lt hl), h.later, h.apart⟩

end

namespace Plan

open Asm

variable {F : List Bool} (p : Plan)

/-! ## Parts without slow paths -/

instance guarded_saveResult : Guarded F p.saveResult := by
  unfold saveResult
  infer_instance

instance guarded_restoreResult : Guarded F p.restoreResult := by
  unfold restoreResult
  infer_instance

instance guarded_passMonitor : Guarded F passMonitor := by
  unfold passMonitor
  infer_instance

instance guarded_leaveWrapper : Guarded F p.leaveWrapper := by
  have hown := guarded_ownLabel (F := F) (fun isNull => do
    branch .beq (.x 10) zr isNull
    ld (.x 10) (.x 10) 0) (do
    ld t0 thread threadLayout.activeHandles
    sw zr t0 handleBlockTop
    removeFrame p.layout.size) (fun _ _ _ _ => inferInstance) inferInstance
  simp only [bind_assoc] at hown
  unfold leaveWrapper
  split <;> infer_instance

instance guarded_checkReceiver : Guarded F checkReceiver := by
  have := guarded_rtJump (F := F) (e := .icMissStub) (by decide)
  have hown := guarded_ownLabel (F := F) (fun hit => do
    loadKlass t0 (.x 11) t2
    branch .beq t0 t1 hit
    rtJump .icMissStub) (pure ()) (fun F' _ _ _ => by
      have := guarded_rtJump (F := F') (e := .icMissStub) (by decide)
      infer_instance) inferInstance
  unfold checkReceiver
  simpa only [bind_assoc, bind_pure_unit] using hown

instance guarded_unverified : Guarded F p.unverified := by
  unfold unverified
  infer_instance

instance guarded_storeHandle (a : Argument) : Guarded F (storeHandle a) := by
  unfold storeHandle
  split
  · infer_instance
  · split <;> infer_instance

instance guarded_storeHandles : Guarded F p.storeHandles := by
  unfold storeHandles
  split <;> infer_instance

instance guarded_moveArgument (m : Move) : Guarded F (moveArgument m) := by
  unfold moveArgument
  split <;> infer_instance

instance guarded_passHandle (a : Argument) : Guarded F (passHandle a) := by
  unfold passHandle
  split
  · infer_instance
  case _ off _ =>
    have hown (d : Reg) (after : Asm Unit) (hafter : Guarded F after) := guarded_ownLabel (F := F) (fun isNull => do
      ld t0 sp off
      mv d zr
      branch .beq t0 zr isNull
      addi d sp off) after (fun _ _ _ _ => inferInstance) hafter
    simp only [bind_assoc] at hown
    refine hown _ _ ?_
    split <;> infer_instance

instance guarded_passLeading : Guarded F p.passLeading := by
  unfold passLeading
  split <;> infer_instance

instance guarded_normalizeResult (k : ValueKind) : Guarded F (normalizeResult k) := by
  unfold normalizeResult
  dsimp only
  split <;> infer_instance

/-! ## Parts with a slow path -/

/-- A label for a slow path, one to come back to, and work that may leave for the first one. -/
theorem safe_detour (before : Label → Label → Asm Unit) (path : Label → Label → SlowPath)
    (hentry : ∀ e c, (path e c).entry = e)
    (hcont : ∀ e c, (path e c).cont? = some c) (hbefore : ∀ F' e c, KnownLabel F' e → KnownLabel F' c →
    Guarded F' (before e c)) :
    Safe F (newLabel >>= fun e => newLabel >>= fun c => before e c >>= fun _ => Asm.bind c >>=
    fun _ => pure (path e c)) fun s F' =>
      Waiting F F' [s] := by
  refine safe_fresh fun e F1 hp1 he hopen => safe_fresh fun c F2 hp2 hc hopen' => ?_
  refine (hbefore F2 e c (hopen.extend hp2).known hopen'.known).andThen fun _ F3 hp3 => ?_
  refine (safe_bindLabel (hopen'.extend hp3)).bind fun _ F4 h => ?_
  subst h
  have hlt : e < c := Nat.lt_of_le_of_lt hopen.known.le hc
  have hstill : OpenLabel (boundLabel F3 c) e :=
    (hopen.extend (hp2.trans hp3)).boundLabel_other (Nat.ne_of_lt hlt) hopen'.1
  have hback : KnownLabel (boundLabel F3 c) c := (hopen'.extend hp3).known.boundLabel
  refine (safe_pure _).mono fun s F' ⟨hs, hF⟩ => ?_
  subst hs hF
  refine ⟨prefix_boundLabel (hp1.trans (hp2.trans hp3)) (Nat.lt_trans he hlt), fun s hs => ?_, fun s hs =>
    ?_, List.nodup_singleton _⟩
  · rw [List.mem_singleton.mp hs]
    exact ⟨(hentry e c).symm ▸ hstill, fun l hl => by
      rw [hcont] at hl
      cases hl
      exact hback⟩
  · rw [List.mem_singleton.mp hs, hentry]
    exact he

instance guarded_tryLock (entry : Label) [KnownLabel F entry] : Guarded F (tryLock entry) := by
  unfold tryLock
  infer_instance

instance guarded_tryUnlock (entry : Label) [KnownLabel F entry] : Guarded F (tryUnlock entry) := by
  unfold tryUnlock
  infer_instance

theorem safe_lock (slot : Int64) : Safe F (p.lock slot) fun s F' => Waiting F F' [s] := by
  have hdetour (F' : List Bool) := safe_detour (F := F') (fun e _ => tryLock e) .lock (fun _ _ => rfl) (fun _ _ => rfl)
    (fun _ _ _ _ _ => inferInstance)
  have hfirst : Guarded F (ld lockRegs.obj sp p.lockedHandle >>= fun _ => addi lockRegs.lock sp slot) := inferInstance
  have hall := hfirst.andThen fun _ F' hp => (hdetour F').mono fun s F'' h => h.after hp
  rw [lock_eq]
  simpa only [bind_assoc] using hall

theorem safe_unlock (slot : Int64) : Safe F (unlock slot) fun s F' => Waiting F F' [s] := by
  have hdetour := safe_detour (F := F) (fun e _ => do
    addi lockRegs.lock sp slot
    ld lockRegs.obj lockRegs.lock lockSlotObject
    tryUnlock e) .unlock (fun _ _ => rfl) (fun _ _ => rfl) (fun _ _ _ _ _ => inferInstance)
  rw [unlock_eq]
  simpa only [bind_assoc] using hdetour

theorem safe_stopIfAsked : Safe F stopIfAsked fun s F' => Waiting F F' [s] := by
  have hdetour (F' : List Bool) := safe_detour (F := F') (fun e _ => do
    ld t0 thread threadLayout.pollingWord
    andi t0 t0 safepointPollBit
    bnez t0 e
    lwu t0 thread threadLayout.suspendFlags
    bnez t0 e) .specialCondition (fun _ _ => rfl) (fun _ _ => rfl) (fun _ _ _ _ _ => inferInstance)
  have hfirst : Guarded F (storeThreadState ThreadState.inNativeTrans >>= fun _ => membar anyOrder) := inferInstance
  have hall := hfirst.andThen fun _ F' hp => (hdetour F').mono fun s F'' h => h.after hp
  unfold stopIfAsked
  simpa only [bind_assoc] using hall

theorem safe_guardStack : Safe F guardStack fun s F' => Waiting F F' [s] := by
  have hdetour := safe_detour (F := F) (fun e _ => do
    lbu t0 thread threadLayout.stackGuardState
    li t1 stackGuardDisabled
    bcond .beq t0 t1 e) .reguard (fun _ _ => rfl) (fun _ _ => rfl) (fun _ _ _ _ _ => inferInstance)
  unfold guardStack
  simpa only [bind_assoc] using hdetour

theorem safe_transitionBack : Safe F transitionBack fun ss F' => Waiting F F' ss := by
  rw [transitionBack_eq]
  refine safe_stopIfAsked.bind fun special F1 h1 => ?_
  refine (guarded_storeThreadState (F := F1) ThreadState.inJava).andThen fun _ F2 hp2 => ?_
  refine safe_guardStack.bind fun reguard F3 h3 => ?_
  refine (safe_pure _).mono fun ss F' ⟨hss, hF⟩ => ?_
  subst hss hF
  exact (h1.extend hp2).append h3

theorem safe_whenLocked {f : Int64 → Asm SlowPath} (hf : ∀ slot, Safe F (f slot) fun s F' => Waiting F F' [s]) :
    Safe F (p.whenLocked f) fun ss F' => Waiting F F' ss := by
  unfold whenLocked
  split
  · refine (safe_pure _).mono fun ss F' ⟨hss, hF⟩ => ?_
    subst hss hF
    exact waiting_nil (List.prefix_refl F')
  · refine (hf _).bind fun s F1 h => ?_
    refine (safe_pure _).mono fun ss F' ⟨hss, hF⟩ => ?_
    subst hss hF
    exact h

theorem safe_epilogue : Safe F p.epilogue fun s F' => Waiting F F' [s] := by
  unfold epilogue
  refine safe_fresh fun e F1 hp1 he hopen => ?_
  have := hopen.known
  refine Guarded.andThen inferInstance fun _ F2 hp2 => ?_
  have := hopen.known.extend hp2
  refine (guarded_bcond rfl t0 .zr).andThen fun _ F3 hp3 => p.guarded_leaveWrapper.andThen fun _ F4 hp4 =>
    (guarded_jalr ..).andThen fun _ F5 hp5 => ?_
  refine (safe_pure _).mono fun s F' ⟨hs, hF⟩ => ?_
  subst hs hF
  have hp := hp2.trans (hp3.trans (hp4.trans hp5))
  refine ⟨hp1.trans hp, fun s hs => ?_, fun s hs => ?_, List.nodup_singleton _⟩
  · rw [List.mem_singleton.mp hs]
    exact ⟨hopen.extend hp, nofun⟩
  · rw [List.mem_singleton.mp hs]
    exact he

/-! ## The main code -/

/-- On the way to the call a label for the return is made, which stays open. -/
theorem safe_towards (hmoves : ∃ moves, p.orderedMoves = .ok moves) : Safe F p.towards fun r F' =>
    Waiting F F' r.2.1 ∧ OpenLabel F' r.1 ∧ F.length < r.1 ∧ ∀ s ∈ r.2.1, s.entry ≠ r.1 := by
  obtain ⟨moves, hmoves⟩ := hmoves
  unfold towards
  refine p.guarded_storeHandles.andThen fun _ F0 hp0 => safe_fresh fun returnPc F1 hp1 hl hopen => ?_
  have := hopen.known
  refine (guarded_setLastJavaFrame sp fp returnPc t0).andThen fun _ F2 hp2 => ?_
  refine (p.safe_whenLocked p.safe_lock).bind fun locked F3 h3 => ?_
  have hmove : Guarded F3 (liftM p.orderedMoves : Asm (List Move)) :=
    guarded_lift (Q := fun _ => True) (.inl ⟨moves, hmoves, trivial⟩)
  refine hmove.andThen fun moves F4 hp4 => ?_
  refine (guarded_forM moves moveArgument).andThen fun _ F5 hp5 =>
    (guarded_forM p.args passHandle).andThen fun _ F6 hp6 => ?_
  refine p.guarded_passLeading.andThen fun _ F7 hp7 =>
    (guarded_storeThreadState ThreadState.inNative).andThen fun _ F8 hp8 => ?_
  refine (safe_pure _).mono fun r F' ⟨hr, hF⟩ => ?_
  subst hr hF
  have hp := hp4.trans (hp5.trans (hp6.trans (hp7.trans hp8)))
  have hlast := h3.extend hp
  refine ⟨hlast.after (hp0.trans (hp1.trans hp2)), hopen.extend (hp2.trans hlast.grows),
    Nat.lt_of_le_of_lt hp0.length_le hl, fun s hs => ?_⟩
  exact Nat.ne_of_gt (Nat.lt_of_le_of_lt (hopen.extend hp2).known.le (hlast.later s hs))

theorem safe_homeward (hmap : ∃ map, p.oopMap = .ok map) : Safe F p.homeward fun ss F' => Waiting F F' ss := by
  obtain ⟨map, hmap⟩ := hmap
  have hread : Guarded F (liftM p.oopMap : Asm OopMap) := guarded_lift (Q := fun _ => True) (.inl ⟨map, hmap, trivial⟩)
  unfold homeward
  refine hread.andThen fun map F1 hp1 => (guarded_addOopMap map).andThen fun _ F2 hp2 => ?_
  refine (guarded_normalizeResult p.sig.ret).andThen fun _ F3 hp3 => safe_transitionBack.bind fun back F4 h4 => ?_
  refine (p.safe_whenLocked safe_unlock).bind fun unlocked F5 h5 => p.safe_epilogue.bind fun last F6 h6 => ?_
  refine (safe_pure _).mono fun ss F' ⟨hss, hF⟩ => ?_
  subst hss hF
  exact ((h4.after (hp1.trans (hp2.trans hp3))).append (h5.append h6))

theorem mainCode_parts : p.mainCode = (do
    p.unverified
    markEntry EntryPoint.verified
    buildFrame p.layout.size
    markEntry EntryPoint.frameComplete
    let (returnPc, locked, moves) ← p.towards
    call p.method.entry
    let after ← p.backFrom returnPc
    return (moves, locked ++ after)) := by
  unfold mainCode unverified towards backFrom homeward callNative
  cases p.method.isStatic <;> simp only [bind_assoc, pure_bind, List.append_assoc, ite_true,
    ite_false, Bool.false_eq_true]

/-- The main code leaves slow paths that wait at entries of their own. -/
theorem safe_mainCode (hmoves : ∃ moves, p.orderedMoves = .ok moves) (hmap : ∃ map, p.oopMap = .ok map) :
    Safe F p.mainCode fun r F' => Waiting F F' r.2 := by
  rw [mainCode_parts]
  refine p.guarded_unverified.andThen fun _ F1 hp1 => Guarded.andThen inferInstance fun _ F2 hp2 => ?_
  refine (guarded_buildFrame _).andThen fun _ F3 hp3 => Guarded.andThen inferInstance fun _ F4 hp4 => ?_
  refine (p.safe_towards hmoves).bind fun r F5 h => ?_
  obtain ⟨returnPc, locked, moves⟩ := r
  obtain ⟨hlocked, hopen, hlater, hne⟩ := h
  refine (guarded_callAddress p.method.entry).andThen fun _ F6 hp6 => ?_
  unfold backFrom
  simp only [bind_assoc]
  refine (safe_bindLabel (hopen.extend hp6)).bind fun _ F7 h => ?_
  subst h
  refine (p.safe_homeward hmap).bind fun after F8 h8 => ?_
  refine (safe_pure _).mono fun r F' ⟨hr, hF⟩ => ?_
  subst hr hF
  exact (((hlocked.extend hp6).boundLabel hlater hne).append h8).after (hp1.trans (hp2.trans (hp3.trans hp4)))

/-! ## The slow paths -/

/-- A slow path that is ready is written, and binds its entry. -/
theorem safe_slowPath {s : SlowPath} (hs : s.Ready F) : Safe F (p.slowPath s) fun _ F' =>
    boundLabel F s.entry <+: F' := by
  have hcont (l : Label) (hl : s.cont? = some l) : KnownLabel (boundLabel F s.entry) l := (hs.cont l hl).boundLabel
  have hlock := guarded_rtCall (F := boundLabel F s.entry) (e := .completeMonitorLocking) (by decide)
  have hunlock := guarded_rtCall (F := boundLabel F s.entry) (e := .completeMonitorUnlocking) (by decide)
  have hcheck := guarded_rtCall (F := boundLabel F s.entry) (e := .checkSpecialConditionForNativeTrans) (by decide)
  have hguard := guarded_rtCall (F := boundLabel F s.entry) (e := .reguardYellowPages) (by decide)
  have hforward := guarded_rtJump (F := boundLabel F s.entry) (e := .forwardException) (by decide)
  have hbound {x : Asm Unit} (hx : Guarded (boundLabel F s.entry) x) :
      Safe F (Asm.bind s.entry >>= fun _ => x) fun _ F' => boundLabel F s.entry <+: F' :=
    (safe_bindLabel hs.entry).bind fun _ F' h => by
      subst h
      exact hx.safe (List.prefix_refl _)
  cases s with
  | lock entry cont =>
    have := hcont cont rfl
    exact hbound inferInstance
  | specialCondition entry cont =>
    have := hcont cont rfl
    exact hbound inferInstance
  | reguard entry cont =>
    have := hcont cont rfl
    exact hbound inferInstance
  | unlock entry cont =>
    have := hcont cont rfl
    exact hbound inferInstance
  | pending entry => exact hbound inferInstance

/-- Slow paths that wait at entries of their own are written one after the other. -/
theorem slowPaths_ends {ss : List SlowPath} {t : Target} {a : Assembler} (hready : ∀ s ∈ ss, s.Ready F)
    (hapart : (ss.map SlowPath.entry).Nodup) (ht : t.Complete) (ha : a.Sound F) (hout : a.buf.inStub = false) :
    Ends (p.slowPaths ss t a) fun _ => True := by
  induction ss generalizing F a with
  | nil => exact .inl ⟨_, rfl, trivial⟩
  | cons s rest ih =>
    obtain ⟨hfirst, hrest⟩ := List.nodup_cons.mp hapart
    cases hw : a.buf.failed with
    | true =>
      rw [p.slowPaths_failed hw hout]
      exact .inl ⟨_, rfl, trivial⟩
    | false =>
      unfold slowPaths
      by_cases hroom : slowPathSize.toInt ≤ a.buf.remaining
      · rw [bind_ok (startStub_room hw hout hroom)]
        have hopened : Assembler.Sound F (opened a "native_wrapper_slow_path") :=
          ⟨ha.flags, ha.room, ha.small, ha.written⟩
        have hs := hready s List.mem_cons_self
        refine ((p.safe_slowPath hs).ends ht hopened).bind fun r ⟨F', hF', hsound, hin⟩ => ?_
        refine Ends.bind (Q := fun r' => r'.2 = closed r.2) (.inl ⟨_, endStub_ok hin, rfl⟩) fun r' h => ?_
        obtain ⟨_, a'⟩ := r'
        have h : a' = closed r.2 := h
        subst h
        refine ih (fun q hq => ?_) hrest ⟨hsound.flags, hsound.room, hsound.small, hsound.written⟩ rfl
        have hne : q.entry ≠ s.entry := fun e => hfirst (e ▸ List.mem_map_of_mem hq)
        exact ((hready q (List.mem_cons_of_mem _ hq)).boundLabel hne hs.entry.1).extend hF'
      · rw [bind_ok (startStub_overflow hw hout (Int.not_le.mp hroom))]
        exact .inl ⟨_, rfl, trivial⟩

/-- Writing a wrapper ends with code or with a broken precondition. -/
theorem body_ends {t : Target} {a : Assembler} (hmoves : ∃ moves, p.orderedMoves = .ok moves)
    (hmap : ∃ map, p.oopMap = .ok map)
    (ht : t.Complete) (ha : a.Sound []) (hout : a.buf.inStub = false) : Ends (p.body t a) fun _ => True := by
  rw [body_eq]
  refine ((p.safe_mainCode hmoves hmap).ends ht ha).bind fun r ⟨F, hwaiting, hsound, hin⟩ => ?_
  exact (p.slowPaths_ends hwaiting.ready hwaiting.apart ht hsound (hin.trans hout)).bind fun _ _ => .inl ⟨_, rfl, trivial⟩

end Plan

end NativeWrapper

end RiscvJit

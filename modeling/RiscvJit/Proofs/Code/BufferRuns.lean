import RiscvJit.Proofs.Code.Capacity

/-
  RiscvJit.Proofs.Code.BufferRuns — a code buffer over whole runs.

  A generator asks a buffer for words, patches and stubs, in any order, and may declare it failed
  (`BufferOp`). What holds at every point of every run is `Ranged`: the bytes fit, and the stubs that
  were closed lie one behind the other in front of the next byte. An operation may have a reason to
  fail the buffer (`BufferOp.reason?`); the first reason of a run is the one the buffer keeps
  (`failure_runAll`).
-/

namespace RiscvJit

/-- What is asked of a buffer. -/
inductive BufferOp where
  | emit4 (w : UInt32)
  | emit8 (v : UInt64)
  | patch (off : Int64) (w : UInt32)
  | fail (reason : String) (named : reason ≠ "")
  | startStub (name : String) (size : Int64)
  | endStub

namespace BufferOp

/-- The buffer after it was asked. -/
def apply (b : CodeBuffer) : BufferOp → Except Fault CodeBuffer
  | emit4 w => .ok (b.emit4 w)
  | emit8 v => .ok (b.emit8 v)
  | patch off w => b.patch off w
  | fail reason _ => .ok (b.fail reason)
  | startStub name size => (b.startStub name size).map Prod.snd
  | endStub => b.endStub

/-- Why the operation fails a buffer that works. -/
def reason? (b : CodeBuffer) : BufferOp → Option String
  | emit4 _ => if b.capacity < b.offset + 4 then some CodeBuffer.codeOverflow else none
  | emit8 _ => if b.capacity < b.offset + 8 then some CodeBuffer.codeOverflow else none
  | fail reason _ => some reason
  | startStub _ size => if b.remaining < size.toInt then some CodeBuffer.stubOverflow else none
  | patch .. | endStub => none

/-- The bytes that a patch names. -/
def Names (i : Nat) : BufferOp → Prop
  | patch off _ => off.toInt ≤ i ∧ i < off.toInt + 4
  | _ => False

end BufferOp

namespace CodeBuffer

/-- The buffer after a run of operations. -/
def runAll (b : CodeBuffer) (ops : List BufferOp) : Except Fault CodeBuffer := ops.foldlM BufferOp.apply b

/-- The reasons to fail that come up in a run, each taken where its operation is. -/
def reasons : CodeBuffer → List BufferOp → List String
  | _, [] => []
  | b, op :: ops => (op.reason? b).toList ++ match op.apply b with
    | .ok b' => reasons b' ops
    | .error _ => []

/-- The stubs that have an end. -/
def closedStubs (b : CodeBuffer) : List StubRange := if b.inStub then b.stubs.toList.dropLast else b.stubs.toList

/-- The bytes fit, and so do the stubs: those that were closed are in order and end where the next one
begins or later code does. -/
structure Ranged (size : Nat) (b : CodeBuffer) : Prop where
  capacity : b.capacity = size
  room : b.offset ≤ size
  ordered : b.closedStubs.Pairwise fun s s' => s.stop ≤ s'.start
  inside : ∀ s ∈ b.closedStubs, s.start ≤ s.stop ∧ s.stop ≤ b.offset
  opened : b.inStub = true → ∃ s, b.stubs.toList = b.closedStubs ++ [s] ∧ s.start ≤ b.offset ∧
    ∀ c ∈ b.closedStubs, c.stop ≤ s.start
  main : b.mainEnd = b.stubs.toList.head?.map StubRange.start

/-- Writing: the stubs are as they were, and the bytes did not become fewer. -/
structure Continued (b b' : CodeBuffer) : Prop where
  capacity : b'.capacity = b.capacity
  stubs : b'.stubs = b.stubs
  inStub : b'.inStub = b.inStub
  mainEnd : b'.mainEnd = b.mainEnd
  grows : b.offset ≤ b'.offset
  room : b.offset ≤ b.capacity → b'.offset ≤ b.capacity

variable {b b' : CodeBuffer} {op : BufferOp} {ops : List BufferOp} {size : Nat}

theorem create_eq_ok {name : String} {base : UInt64} {capacity : Int64} (h : create name base capacity = .ok b) :
    0 ≤ capacity.toInt ∧ b = { name, base, capacity := capacity.toNatClampNeg } := by
  unfold create at h
  split at h
  · cases h
  case _ hlimit =>
    cases h
    simp only [Bool.or_eq_true, decide_eq_true_eq, not_or, Int64.lt_iff_toInt_lt, Int64.toInt_zero, Int.not_lt] at hlimit
    exact ⟨hlimit.1, rfl⟩

theorem Ranged.write (h : Ranged size b) (hw : Continued b b') : Ranged size b' := by
  have hclosed : b'.closedStubs = b.closedStubs := by rw [closedStubs, closedStubs, hw.inStub, hw.stubs]
  refine ⟨hw.capacity.trans h.capacity, h.capacity ▸ hw.room (h.capacity ▸ h.room), hclosed ▸ h.ordered,
    ?_, ?_, by rw [hw.mainEnd, hw.stubs, h.main]⟩
  · intro s hs
    have hin := h.inside s (hclosed ▸ hs)
    exact ⟨hin.1, Nat.le_trans hin.2 hw.grows⟩
  · intro hin
    obtain ⟨s, hs, hstart, hlast⟩ := h.opened (hw.inStub ▸ hin)
    rw [hclosed, hw.stubs]
    exact ⟨s, hs, Nat.le_trans hstart hw.grows, hlast⟩

theorem ranged_new (name : String) (base : UInt64) (capacity : Nat) : Ranged capacity { name, base, capacity } where
  capacity := rfl
  room := Nat.zero_le _
  ordered := .nil
  inside := nofun
  opened := nofun
  main := rfl

/-! ## What one operation does -/

theorem continued_emit4 (b : CodeBuffer) (w : UInt32) : Continued b (b.emit4 w) := by
  have ha := Asm.appends_emit4 w
  refine ⟨ha.capacity b, ?_, ha.inStub b, ?_, ha.grows b, ha.room b⟩
  all_goals
    unfold emit4
    split
    · rfl
    · split <;> rfl

theorem continued_emit8 (b : CodeBuffer) (v : UInt64) : Continued b (b.emit8 v) := by
  have ha := Asm.appends_emit8 v
  refine ⟨ha.capacity b, ?_, ha.inStub b, ?_, ha.grows b, ha.room b⟩
  all_goals
    unfold emit8
    split
    · rfl
    · split <;> rfl

theorem continued_fail (b : CodeBuffer) (reason : String) : Continued b (b.fail reason) := by
  unfold fail
  split <;> exact ⟨rfl, rfl, rfl, rfl, Nat.le_refl _, id⟩

theorem patch_cases {off : Int64} {w : UInt32} (h : b.patch off w = .ok b') :
    b' = b ∨ 0 ≤ off.toInt ∧ b' = { b with bytes := patchBytes b.bytes off.toNatClampNeg w } := by
  unfold patch at h
  dsimp only at h
  split at h
  · cases h
    exact .inl rfl
  · split at h
    · cases h
    case _ hcond =>
      cases h
      simp only [Bool.or_eq_true, decide_eq_true_eq, not_or, Int64.lt_iff_toInt_lt, Int64.toInt_zero, Int.not_lt] at hcond
      exact .inr ⟨hcond.1, rfl⟩

theorem Ranged.startStub {name : String} {wanted : Int64} {ok : Bool} (h : Ranged size b)
    (hstart : b.startStub name wanted = .ok (ok, b')) :
    Ranged size b' := by
  obtain ⟨hin, ⟨-, -, rfl⟩ | ⟨-, -, -, rfl⟩ | ⟨-, -, -, rfl⟩⟩ := startStub_cases hstart
  · exact h
  · exact h.write ⟨rfl, rfl, rfl, rfl, Nat.le_refl _, id⟩
  · have hclosed : b.closedStubs = b.stubs.toList := by rw [closedStubs, hin, if_neg (by decide)]
    have hopened : CodeBuffer.closedStubs { b with
        mainEnd := some (b.mainEnd.getD b.offset), inStub := true, stubs := b.stubs.push { name, start := b.offset } } =
        b.closedStubs := by
      rw [hclosed, closedStubs, if_pos rfl]
      simp only [Array.toList_push, List.dropLast_concat]
    refine ⟨h.capacity, h.room, hopened ▸ h.ordered, hopened ▸ h.inside, fun _ =>
      ⟨{ name, start := b.offset }, ?_, Nat.le_refl _, ?_⟩, ?_⟩
    · rw [hopened, hclosed, Array.toList_push]
    · exact fun c hc => (h.inside c (hopened ▸ hc)).2
    · rw [h.main]
      simp only [Array.toList_push]
      cases b.stubs.toList <;> rfl

theorem Ranged.endStub (h : Ranged size b) (hend : b.endStub = .ok b') : Ranged size b' := by
  obtain ⟨hin, rfl⟩ := endStub_eq_ok hend
  obtain ⟨s, hs, hstart, hlast⟩ := h.opened hin
  have hsize : b.stubs.size - 1 = b.closedStubs.length := by
    rw [← Array.length_toList, hs, List.length_append, List.length_singleton, Nat.add_sub_cancel]
  have hstubs : (b.stubs.modify (b.stubs.size - 1) fun s => { s with stop := b.offset }).toList =
      b.closedStubs ++ [{ s with stop := b.offset }] := by
    rw [Array.toList_modify, hsize, hs, List.modify_eq_take_drop]
    simp
  have hclosed : CodeBuffer.closedStubs { b with
      inStub := false, stubs := b.stubs.modify (b.stubs.size - 1) fun s => { s with stop := b.offset } } =
      b.closedStubs ++ [{ s with stop := b.offset }] := by
    rw [closedStubs, if_neg Bool.false_ne_true, hstubs]
  refine ⟨h.capacity, h.room, ?_, ?_, nofun, ?_⟩
  · rw [hclosed, List.pairwise_append]
    exact ⟨h.ordered, List.pairwise_singleton .., fun c hc _ he => List.mem_singleton.mp he ▸ hlast c hc⟩
  · intro c hc
    rw [hclosed, List.mem_append, List.mem_singleton] at hc
    rcases hc with hc | rfl
    · exact h.inside c hc
    · exact ⟨hstart, Nat.le_refl _⟩
  · rw [h.main, hstubs, hs]
    cases b.closedStubs <;> rfl

/-- What holds of the ranges holds after every operation. -/
theorem Ranged.apply (h : Ranged size b) (hop : op.apply b = .ok b') : Ranged size b' := by
  cases op with
  | emit4 w =>
    cases hop
    exact h.write (continued_emit4 b w)
  | emit8 v =>
    cases hop
    exact h.write (continued_emit8 b v)
  | patch off w =>
    rcases patch_cases hop with rfl | ⟨-, rfl⟩
    · exact h
    · have hoffset := (patched_patch hop).offset
      exact h.write ⟨rfl, rfl, rfl, rfl, Nat.le_of_eq hoffset.symm, fun hroom =>
        Nat.le_trans (Nat.le_of_eq hoffset) hroom⟩
  | fail reason _ =>
    cases hop
    exact h.write (continued_fail b reason)
  | startStub name size =>
    obtain ⟨⟨ok, b1⟩, hstart, rfl⟩ := except_map_ok hop
    exact h.startStub hstart
  | endStub => exact h.endStub hop

/-- A buffer that failed keeps its reason and its length. -/
theorem stuck_apply (hf : b.failed = true) (hop : op.apply b = .ok b') :
    b'.failure = b.failure ∧ b'.offset = b.offset := by
  cases op with
  | emit4 w =>
    cases hop
    rw [emit4_failed hf]
    exact ⟨rfl, rfl⟩
  | emit8 v =>
    cases hop
    rw [(Asm.appends_emit8 v).stuck b hf]
    exact ⟨rfl, rfl⟩
  | patch off w =>
    refine ⟨?_, (patched_patch hop).offset⟩
    rcases patch_cases hop with rfl | ⟨-, rfl⟩ <;> rfl
  | fail reason _ =>
    cases hop
    rw [(Asm.appends_fail reason).stuck b hf]
    exact ⟨rfl, rfl⟩
  | startStub name size =>
    obtain ⟨⟨ok, b1⟩, hstart, rfl⟩ := except_map_ok hop
    obtain ⟨-, ⟨-, -, rfl⟩ | ⟨-, hworks, -⟩ | ⟨-, hworks, -⟩⟩ := startStub_cases hstart
    · exact ⟨rfl, rfl⟩
    all_goals rw [hf] at hworks; cases hworks
  | endStub =>
    obtain ⟨-, rfl⟩ := endStub_eq_ok hop
    exact ⟨rfl, rfl⟩

/-- A working buffer fails when there is a reason to, for that reason. -/
theorem failure_apply (hw : b.failed = false) (hop : op.apply b = .ok b') : b'.failure = (op.reason? b).getD "" := by
  have hempty : b.failure = "" := by simpa [failed] using hw
  cases op with
  | emit4 w =>
    cases hop
    simp only [BufferOp.reason?]
    split
    case _ hroom => rw [emit4_overflow hw hroom]; rfl
    case _ hroom => rw [emit4_room hw (Nat.le_of_not_lt hroom)]; exact hempty
  | emit8 v =>
    cases hop
    simp only [BufferOp.reason?]
    split
    case _ hroom => rw [emit8_overflow hw hroom]; rfl
    case _ hroom => rw [emit8_room hw (Nat.le_of_not_lt hroom)]; exact hempty
  | patch off w =>
    rcases patch_cases hop with rfl | ⟨-, rfl⟩ <;> exact hempty
  | fail reason _ =>
    cases hop
    exact failure_fail hw reason
  | startStub name size =>
    obtain ⟨⟨ok, b1⟩, hstart, rfl⟩ := except_map_ok hop
    simp only [BufferOp.reason?]
    obtain ⟨-, ⟨-, hfailed, -⟩ | ⟨-, -, hroom, rfl⟩ | ⟨-, -, hroom, rfl⟩⟩ := startStub_cases hstart
    · rw [hw] at hfailed
      cases hfailed
    · rw [if_pos hroom]
      rfl
    · rw [if_neg hroom]
      exact hempty
  | endStub =>
    obtain ⟨-, rfl⟩ := endStub_eq_ok hop
    exact hempty

/-- Of the bytes that were there, only those change that a patch names. -/
theorem bytes_apply {i : Nat} (hi : i < b.offset) (hnot : ¬ op.Names i) (hop : op.apply b = .ok b') :
    b'.bytes[i]? = b.bytes[i]? := by
  cases op with
  | emit4 w =>
    cases hop
    unfold emit4
    split
    · rfl
    · split
      · rfl
      · simp only [offset] at hi
        simp only [Array.getElem?_push, Array.size_push]
        repeat rw [if_neg (by omega)]
  | emit8 v =>
    cases hop
    unfold emit8
    split
    · rfl
    · split
      · rfl
      · simp only [offset] at hi
        simp only [List.range_succ, List.range_zero, List.nil_append, List.cons_append, List.foldl_cons,
          List.foldl_nil, Array.getElem?_push, Array.size_push]
        repeat rw [if_neg (by omega)]
  | patch off w =>
    rcases patch_cases hop with rfl | ⟨hpos, rfl⟩
    · rfl
    · have hoff : (off.toNatClampNeg : Int) = off.toInt := Int.toNat_of_nonneg hpos
      have hout : ¬ (off.toNatClampNeg ≤ i ∧ i < off.toNatClampNeg + 4) := fun h => hnot ⟨by omega, by omega⟩
      simp only [patchBytes, Array.getElem?_setIfInBounds]
      repeat rw [if_neg (by omega)]
  | fail reason _ =>
    cases hop
    unfold fail
    split <;> rfl
  | startStub name size =>
    obtain ⟨⟨ok, b1⟩, hstart, rfl⟩ := except_map_ok hop
    obtain ⟨-, ⟨-, -, rfl⟩ | ⟨-, -, -, rfl⟩ | ⟨-, -, -, rfl⟩⟩ := startStub_cases hstart <;> rfl
  | endStub =>
    obtain ⟨-, rfl⟩ := endStub_eq_ok hop
    rfl

/-! ## Runs -/

theorem runAll_cons : b.runAll (op :: ops) = (op.apply b >>= fun b1 => b1.runAll ops) := rfl

theorem Ranged.run (h : Ranged size b) (hrun : b.runAll ops = .ok b') : Ranged size b' := by
  induction ops generalizing b with
  | nil =>
    cases hrun
    exact h
  | cons op ops ih =>
    obtain ⟨b1, hop, hrest⟩ := except_bind_eq_ok.mp (runAll_cons.symm.trans hrun)
    exact ih (h.apply hop) hrest

theorem stuck_runAll (hf : b.failed = true) (hrun : b.runAll ops = .ok b') :
    b'.failure = b.failure ∧ b'.offset = b.offset := by
  induction ops generalizing b with
  | nil =>
    cases hrun
    exact ⟨rfl, rfl⟩
  | cons op ops ih =>
    obtain ⟨b1, hop, hrest⟩ := except_bind_eq_ok.mp (runAll_cons.symm.trans hrun)
    obtain ⟨hreason, hlength⟩ := stuck_apply hf hop
    have hf1 : b1.failed = true := by rw [failed, hreason]; exact hf
    obtain ⟨hreason', hlength'⟩ := ih hf1 hrest
    exact ⟨hreason'.trans hreason, hlength'.trans hlength⟩

theorem reason_ne_empty {reason : String} (h : op.reason? b = some reason) : reason ≠ "" := by
  cases op with
  | fail r named =>
    cases h
    exact named
  | patch => cases h
  | endStub => cases h
  | _ =>
    simp only [BufferOp.reason?] at h
    split at h <;> cases h
    decide

/-- The first reason to fail that comes up in a run is the one that is kept. -/
theorem failure_runAll (hw : b.failed = false) (hrun : b.runAll ops = .ok b') :
    b'.failure = (reasons b ops).headD "" := by
  induction ops generalizing b with
  | nil =>
    cases hrun
    show b'.failure = ""
    simpa [failed] using hw
  | cons op ops ih =>
    obtain ⟨b1, hop, hrest⟩ := except_bind_eq_ok.mp (runAll_cons.symm.trans hrun)
    have hfailure := failure_apply hw hop
    rw [reasons, hop]
    cases hreason : op.reason? b with
    | none =>
      rw [hreason] at hfailure
      exact ih (by rw [failed, hfailure]; rfl) hrest
    | some reason =>
      rw [hreason] at hfailure
      have hf : b1.failed = true := by
        have := reason_ne_empty hreason
        rw [failed, hfailure]
        simpa using this
      exact (stuck_runAll hf hrest).1.trans hfailure

/-- Whatever is asked of a new buffer, and at every point of it: the bytes fit; the buffer failed for the
first reason that came up, and then keeps that reason and its length; only patches change bytes that are
there, and only those they name; the stubs that were closed are in order, apart, and inside; and the main
code ends where the first stub begins. -/
theorem buffers_keep_their_ranges {name : String} {base : UInt64} {capacity : Int64} {new : CodeBuffer}
    (hnew : create name base capacity = .ok new) (hrun : new.runAll ops = .ok b) :
    b.offset ≤ capacity.toInt ∧
    b.failure = (reasons new ops).headD "" ∧
    (∀ later b', b.failed = true → b.runAll later = .ok b' → b'.failure = b.failure ∧ b'.offset = b.offset) ∧
    (∀ (op : BufferOp) b' i, op.apply b = .ok b' → i < b.offset → ¬ op.Names i → b'.bytes[i]? = b.bytes[i]?) ∧
    (∀ s ∈ b.closedStubs, s.start ≤ s.stop ∧ s.stop ≤ b.offset) ∧
    b.closedStubs.Pairwise (fun s s' => s.stop ≤ s'.start) ∧
    b.mainSize = (b.stubs.toList.head?.map StubRange.start).getD b.offset := by
  obtain ⟨hpos, rfl⟩ := create_eq_ok hnew
  have hranged := (ranged_new name base capacity.toNatClampNeg).run hrun
  have hroom : (b.offset : Int) ≤ capacity.toInt := Int.toNat_of_nonneg hpos ▸ Int.ofNat_le.mpr hranged.room
  exact ⟨hroom, failure_runAll rfl hrun, fun _ _ hf h => stuck_runAll hf h, fun _ _ _ hop hi hnot =>
    bytes_apply hi hnot hop, hranged.inside, hranged.ordered, by rw [mainSize, hranged.main]⟩

/-- A stub is open when the code overflows, and it is closed all the same. -/
theorem a_full_buffer_keeps_its_ranges :
    let ops := [.emit4 1, .startStub "slow path" 4, .endStub, .startStub "handler" 4, .patch 0 3,
      .emit8 2, .emit8 4, .endStub]
    ∃ new b, create "method" 0 16 = .ok new ∧ new.runAll ops = .ok b ∧
    b.closedStubs = [⟨"slow path", 4, 4⟩, ⟨"handler", 4, 12⟩] ∧
      b.offset ≤ 16 ∧ b.failure = codeOverflow ∧ b.failure = (reasons new ops).headD "" ∧ b.mainSize = 4 := by
  intro ops
  have hnew : create "method" 0 16 = .ok { name := "method", base := 0, capacity := 16 } := rfl
  obtain ⟨b, hrun, hstubs, hin, hfailure⟩ : ∃ b,
    CodeBuffer.runAll { name := "method", base := 0, capacity := 16 } ops = .ok b ∧
      b.stubs = #[⟨"slow path", 4, 4⟩, ⟨"handler", 4, 12⟩] ∧ b.inStub = false ∧ b.failure = codeOverflow :=
      ⟨_, rfl, rfl, rfl, rfl⟩
  obtain ⟨hroom, hfirst, -, -, -, -, hmain⟩ := buffers_keep_their_ranges hnew hrun
  refine ⟨_, b, hnew, hrun, ?_, Int.ofNat_le.mp hroom, hfailure, hfirst, ?_⟩
  · rw [closedStubs, hin, hstubs]
    rfl
  · rw [hmain, hstubs]
    rfl

end CodeBuffer

end RiscvJit

import Mathlib.Algebra.Ring.Int.Defs
import RiscvJit.Deopt.Unroll
import RiscvJit.Proofs.Isa.Signed
import RiscvJit.Proofs.Code.Run

/-
  RiscvJit.Proofs.Deopt.FramesApart — the words of interpreter frames do not overlap.

  Interpreter frames are pushed outermost first, each below the other. Into a frame go four link
  words (return address, saved frame pointer, stack pointer of the sender, last stack pointer)
  and the stores of its plan. Its locals lie above it, in the frame of its caller.

  From the stack pointer down, the words of one frame are its fixed slots, its monitors and its
  expression stack; from the stack pointer up, its locals. A double word is stored in the slot of
  its second half, so the slots that values go to ascend with the values (`homes_ascend`). What
  `planFrame` stores lies where it should and apart (`planFrame_words`). A frame is as large as
  its own part and the locals of its callee together, so each frame ends above what its callee
  writes; the chain follows by induction, innermost scope first (`planFrames_words`).

  All sizes are signed words. The frames lie apart as long as none of them wraps
  (`unroll_words_apart`); an expression stack of 2^60 - 11 words is accepted, and the size of its
  frame is negative (`unroll_size_wraps`).
-/

namespace RiscvJit

/-! ## Where words lie -/

/-- Two words of eight bytes share no byte. -/
def Apart (a b : Int) : Prop := a + 8 ≤ b ∨ b + 8 ≤ a

/-- The words of a frame with its frame pointer at `fp`: the link words and the stores. -/
def FramePlan.words (shape : InterpreterShape) (fp : Int) (f : FramePlan) : List Int :=
  [fp + 8, fp, fp + 8 * shape.senderSp.toInt, fp + 8 * shape.lastSp.toInt] ++
    f.stores.map fun s => fp + s.offset.toInt

namespace UnrollBlock

/-- Where frame `i` starts, counted from the outermost, when the stack pointer is `s` once the
compiled frame is popped. -/
def stackPointer (u : UnrollBlock) (s : Int) (i : Nat) : Int :=
  s - u.callerAdjustment.toInt - ((u.frameSizes.take i).map (·.toInt)).sum

/-- All words written into the frames, outermost frame first. -/
def words (u : UnrollBlock) (shape : InterpreterShape) (s : Int) : List Int :=
  u.frames.reverse.zipIdx.flatMap fun (f, i) => f.words shape (u.stackPointer s i - 16)

end UnrollBlock

/-- The locals of a callee, in words. -/
def localWords (callee : Option MethodInfo) : Int := (callee.map (·.maxLocals.toInt)).getD 0

/-- The words of a frame, with its monitors and the locals of its callee. -/
def Scope.frameWords (s : Scope) (callee : Option MethodInfo) : Int :=
  11 + 2 * s.monitors.length + (s.method.map (·.maxStack.toInt)).getD 0 + localWords callee

/-- Rounded to two words, no frame of the scopes wraps as a number of bytes, and neither does
the offset of the locals of the outermost one. -/
def FramesFit : Option MethodInfo → List Scope → Prop
  | callee, [] => localWords callee + 1 < 2 ^ 60
  | callee, s :: rest => s.frameWords callee + 1 < 2 ^ 60 ∧ FramesFit s.method rest

instance FramesFit.decidable : (callee : Option MethodInfo) → (scopes : List Scope) → Decidable (FramesFit callee scopes)
  | callee, [] => inferInstanceAs (Decidable (localWords callee + 1 < 2 ^ 60))
  | callee, s :: rest =>
    have := FramesFit.decidable s.method rest
    inferInstanceAs (Decidable (s.frameWords callee + 1 < 2 ^ 60 ∧ FramesFit s.method rest))

namespace DeoptRequest

/-- The method of the outermost scope. -/
def outermost (req : DeoptRequest) : Option MethodInfo := req.scopes.getLast?.bind (·.method)

/-- The words that an interpreted caller has pushed for the outermost method. -/
def pushedWords (req : DeoptRequest) : Int :=
  if req.callerIsCompiled then 0 else (req.outermost.map (·.parameterSlots.toInt)).getD 0

/-- No size of the plan wraps. -/
structure Fits (req : DeoptRequest) : Prop where
  frames : FramesFit none req.scopes
  growth : localWords req.outermost - req.pushedWords + 1 < 2 ^ 60

end DeoptRequest

/-! ## What is checked -/

/-- A scope that fits its method. -/
structure Scope.Sound (s : Scope) (m : MethodInfo) : Prop where
  method : s.method = some m
  locals : s.locals.length ≤ m.maxLocals.toInt
  expressions : s.expressions.length ≤ m.maxStack.toInt
  parameters : m.parameterSlots.toInt ≤ m.maxLocals.toInt
  localPairs : unpaired? 0 s.locals = none
  expressionPairs : unpaired? 0 s.expressions = none

variable {s : Scope} {m : MethodInfo} {fp lo : Int} {ws : List Int} {callee : Option MethodInfo}
  {chain : List (Scope × MethodInfo)} {i : Nat} {vs : List ScopeValue}

theorem checkCount_eq_ok {n : Nat} {limit : Int64} {what limitName : String}
    (h : checkCount m n limit what limitName = .ok ()) : (n : Int) ≤ limit.toInt := by
  rw [checkCount] at h
  split at h
  · cases h
  · omega

theorem checkPairs_eq_ok {values : List ScopeValue} (h : checkPairs m values = .ok ()) : unpaired? 0 values = none := by
  rw [checkPairs] at h
  split at h
  · assumption
  · cases h

theorem Scope.checked_eq_ok (h : s.checked = .ok m) : s.Sound m := by
  rw [Scope.checked] at h
  split at h
  · cases h
  case _ m' hm =>
    obtain ⟨⟨⟩, hl, h⟩ := except_bind_eq_ok.1 h
    obtain ⟨⟨⟩, he, h⟩ := except_bind_eq_ok.1 h
    split at h
    · cases h
    case _ hp =>
      obtain ⟨⟨⟩, hlp, h⟩ := except_bind_eq_ok.1 h
      obtain ⟨⟨⟩, hep, h⟩ := except_bind_eq_ok.1 h
      cases h
      rw [Int64.lt_iff_toInt_lt] at hp
      exact ⟨hm, checkCount_eq_ok hl, checkCount_eq_ok he, by omega, checkPairs_eq_ok hlp, checkPairs_eq_ok hep⟩

theorem frameWords_eq (sound : s.Sound m) (callee : Option MethodInfo) :
    s.frameWords callee = 11 + 2 * s.monitors.length + m.maxStack.toInt + localWords callee := by
  simp [Scope.frameWords, sound.method]

/-- The scopes of a request with their methods, when all are sound. -/
theorem mapM_checked {scopes : List Scope} (h : (scopes.mapM fun s => return (s, ← s.checked)) = .ok chain) :
    chain.map (·.1) = scopes ∧ ∀ c ∈ chain, c.1.Sound c.2 := by
  induction scopes generalizing chain with
  | nil => cases h; simp
  | cons s rest ih =>
    rw [List.mapM_cons] at h
    obtain ⟨c, hc, h⟩ := except_bind_eq_ok.1 h
    obtain ⟨m, hm, e⟩ := except_bind_eq_ok.1 hc
    cases e
    obtain ⟨cs, hcs, e⟩ := except_bind_eq_ok.1 h
    cases e
    obtain ⟨hmap, hall⟩ := ih hcs
    simp only [List.map_cons, hmap, List.mem_cons, true_and, forall_eq_or_imp]
    exact ⟨Scope.checked_eq_ok hm, hall⟩

/-- A plan that was made: its scopes are sound, and its frames are planned innermost first. -/
theorem unroll_eq_ok {req : DeoptRequest} {shape : InterpreterShape} {u : UnrollBlock}
    (h : req.unroll shape = .ok u) :
    ∃ chain : List (Scope × MethodInfo), chain.map (·.1) = req.scopes ∧ (∀ c ∈ chain, c.1.Sound c.2) ∧
      u.frames = (planFrames shape 0 none chain).1 ∧ u.values = (planFrames shape 0 none chain).2 ∧
      u.frameSizes = (u.frames.map (·.size)).reverse ∧
      ∃ outer, chain.getLast? = some outer ∧ u.callerAdjustment = callerAdjustment outer.2 req.callerIsCompiled := by
  rw [DeoptRequest.unroll] at h
  split at h
  · cases h
  case _ hne =>
    dsimp only at h
    split at h
    · cases h
    · obtain ⟨chain, hchain, h⟩ := except_bind_eq_ok.1 h
      obtain ⟨hmap, hall⟩ := mapM_checked hchain
      cases h
      refine ⟨chain, hmap, hall, rfl, rfl, rfl, ?_⟩
      cases hl : chain.getLast? with
      | none =>
        rw [List.getLast?_eq_none_iff.1 hl] at hmap
        simp [← hmap] at hne
      | some outer => exact ⟨outer, rfl, rfl⟩

/-! ## Numbers of values -/

/-- Stores of values that are numbered one after the other. -/
def Numbered (next : Nat) (stores : List (SlotStore × ScopeValue)) : Prop :=
  stores.map (·.1.source) = (List.range' next stores.length).map .value

theorem Numbered.append {next : Nat} {ss ss' : List (SlotStore × ScopeValue)} (h : Numbered next ss)
    (h' : Numbered (next + ss.length) ss') : Numbered next (ss ++ ss') := by
  rw [Numbered, List.map_append, h, h', ← List.map_append, List.length_append, List.range'_append_1]

theorem Numbered.cons {next : Nat} {s : SlotStore} {v : ScopeValue} {ss : List (SlotStore × ScopeValue)}
    (hs : s.source = .value next) (h : Numbered (next + 1) ss) : Numbered next ((s, v) :: ss) := by
  rw [Numbered, List.map_cons, h, hs]
  rfl

theorem numbered_captures (offsetOf : Nat → Int64) (next i : Nat) (vs : List ScopeValue) :
    Numbered next (captureStores offsetOf next i vs) := by
  induction vs generalizing next i with
  | nil => rfl
  | cons v rest ih =>
    rw [captureStores]
    split
    · exact ih ..
    · exact .cons rfl (ih ..)

theorem numbered_monitors (shape : InterpreterShape) (next k : Nat) (ms : List MonitorValue) :
    Numbered next (monitorStores shape next k ms) := by
  induction ms generalizing next k with
  | nil => rfl
  | cons m rest ih => exact .cons rfl (.cons rfl (ih ..))

theorem Numbered.lt {next : Nat} {ss : List (SlotStore × ScopeValue)} (h : Numbered next ss) {s : SlotStore}
    (hs : s ∈ ss.map (·.1)) (hi : s.source = .value i) : i < next + ss.length := by
  have hmem : SlotSource.value i ∈ ss.map (·.1.source) := by
    rw [← hi, ← Function.comp_def, ← List.map_map]
    exact List.mem_map_of_mem hs
  rw [h] at hmem
  obtain ⟨j, hj, hvalue⟩ := List.mem_map.mp hmem
  cases hvalue
  exact (List.mem_range'_1.mp hj).2

theorem planFrame_values {shape : InterpreterShape} {next : Nat} {store : SlotStore}
    (h : store ∈ (planFrame shape next s m callee).1.stores) (hi : store.source = .value i) :
    i < next + (planFrame shape next s m callee).2.length := by
  rcases List.mem_append.mp h with h | h
  · simp only [fixedStores, List.mem_cons, List.not_mem_nil, or_false] at h
    rcases h with rfl | rfl | rfl | rfl | rfl | rfl | rfl <;> cases hi
  · have hnumbered := ((numbered_captures (fun i => shape.localsPointer
      m.maxLocals - Int64.ofNat i * 8) next 0 s.locals).append
      (numbered_captures (fun j => shape.monitorTop
      (Int64.ofNat s.monitors.length) - (Int64.ofNat j + 1) * 8) _ 0 s.expressions))
    have hall := hnumbered.append (numbered_monitors shape _ 0 s.monitors)
    rw [List.length_append, ← Nat.add_assoc] at hall
    simpa only [planFrame, List.length_map] using hall.lt h hi

theorem planFrames_values {shape : InterpreterShape} {next : Nat} {f : FramePlan}
    (hf : f ∈ (planFrames shape next callee chain).1) {store : SlotStore} (h : store ∈ f.stores)
    (hi : store.source = .value i) : i < next + (planFrames shape next callee chain).2.length := by
  induction chain generalizing next callee with
  | nil => cases hf
  | cons c rest ih =>
    simp only [planFrames, List.mem_cons, List.length_append] at hf ⊢
    rcases hf with rfl | hf
    · have := planFrame_values h hi
      omega
    · have := ih hf
      omega

/-! ## Slots of values -/

/-- The slots that the values of a list go to, numbered from `i`: a double word goes to the slot
of its second half. -/
def homes : Nat → List ScopeValue → List Nat
  | _, [] => []
  | i, v :: rest =>
    if v.kind = .void then homes (i + 1) rest
    else (if v.kind.isDoubleWord then i + 1 else i) :: homes (i + 1) rest

theorem captureStores_offsets (offsetOf : Nat → Int64) (next i : Nat) (vs : List ScopeValue) :
    (captureStores offsetOf next i vs).map (·.1.offset) = (homes i vs).map offsetOf := by
  induction vs generalizing next i with
  | nil => rfl
  | cons v rest ih =>
    rw [captureStores, homes]
    split
    · exact ih ..
    · simp [ih]

theorem le_of_mem_homes {p : Nat} (h : p ∈ homes i vs) : i ≤ p := by
  induction vs generalizing i with
  | nil => simp [homes] at h
  | cons v rest ih =>
    rw [homes] at h
    split at h
    · have := ih h
      omega
    · rcases List.mem_cons.1 h with rfl | h
      · split <;> omega
      · have := ih h
        omega

/-- A list with whole double words: the rest is one too, and a double word has its void. -/
theorem unpaired?_cons {v : ScopeValue} {rest : List ScopeValue} (h : unpaired? i (v :: rest) = none) :
    unpaired? (i + 1) rest = none ∧
      (v.kind.isDoubleWord → ∃ w more, rest = w :: more ∧ w.kind = .void) := by
  rw [unpaired?] at h
  split at h
  · cases h
  case _ hp =>
    refine ⟨h, fun hd => ?_⟩
    cases rest with
    | nil => simp [hd] at hp
    | cons w more => exact ⟨w, more, rfl, by simpa [hd] using hp⟩

theorem lt_of_mem_homes {p : Nat} (pairs : unpaired? i vs = none) (h : p ∈ homes i vs) : p < i + vs.length := by
  induction vs generalizing i with
  | nil => simp [homes] at h
  | cons v rest ih =>
    obtain ⟨pairs, second⟩ := unpaired?_cons pairs
    rw [List.length_cons]
    rw [homes] at h
    split at h
    · have := ih pairs h
      omega
    · rcases List.mem_cons.1 h with rfl | h
      · split
        case _ hd =>
          obtain ⟨w, more, rfl, -⟩ := second hd
          simp
        · omega
      · have := ih pairs h
        omega

/-- No two values share a slot: the slots ascend with the values. -/
theorem homes_ascend (pairs : unpaired? i vs = none) : (homes i vs).Pairwise (· < ·) := by
  induction vs generalizing i with
  | nil => exact .nil
  | cons v rest ih =>
    obtain ⟨pairs, second⟩ := unpaired?_cons pairs
    rw [homes]
    split
    · exact ih pairs
    · refine List.pairwise_cons.2 ⟨fun p hp => ?_, ih pairs⟩
      split
      case _ hd =>
        -- The void half takes no slot, so the next value is two further on.
        obtain ⟨w, more, rfl, hw⟩ := second hd
        rw [homes, if_pos hw] at hp
        exact le_of_mem_homes hp
      · exact le_of_mem_homes hp

/-! ## The words of one frame -/

/-- The words of a list lie in `[lo, hi)`, apart from each other, at whole words from `fp`. -/
structure WordsIn (fp lo hi : Int) (ws : List Int) : Prop where
  room : lo ≤ hi
  apart : ws.Pairwise Apart
  low : ∀ w ∈ ws, lo ≤ w
  high : ∀ w ∈ ws, w + 8 ≤ hi
  whole : ∀ w ∈ ws, 8 ∣ w - fp

theorem WordsIn.nil {hi : Int} (h : lo ≤ hi) : WordsIn fp lo hi [] := by
  constructor <;> simp [h]

theorem WordsIn.widen {hi lo' hi' : Int} (h : WordsIn fp lo hi ws) (hlo : lo' ≤ lo) (hhi : hi ≤ hi') :
    WordsIn fp lo' hi' ws where
  room := Int.le_trans hlo (Int.le_trans h.room hhi)
  apart := h.apart
  low := fun w hw => Int.le_trans hlo (h.low w hw)
  high := fun w hw => Int.le_trans (h.high w hw) hhi
  whole := h.whole

theorem WordsIn.append {mid hi : Int} {vs : List Int} (h : WordsIn fp mid hi ws) (h' : WordsIn fp lo mid vs) :
    WordsIn fp lo hi (ws ++ vs) where
  room := Int.le_trans h'.room h.room
  apart := by
    refine List.pairwise_append.2 ⟨h.apart, h'.apart, fun a ha b hb => .inr ?_⟩
    exact Int.le_trans (h'.high b hb) (h.low a ha)
  low := by
    intro w hw
    rcases List.mem_append.1 hw with hw | hw
    · exact Int.le_trans h'.room (h.low w hw)
    · exact h'.low w hw
  high := by
    intro w hw
    rcases List.mem_append.1 hw with hw | hw
    · exact h.high w hw
    · exact Int.le_trans (h'.high w hw) h.room
  whole := by
    intro w hw
    rcases List.mem_append.1 hw with hw | hw
    · exact h.whole w hw
    · exact h'.whole w hw

theorem WordsIn.rebase {fp' hi : Int} (h : WordsIn fp lo hi ws) (d : 8 ∣ fp - fp') : WordsIn fp' lo hi ws := by
  refine { h with whole := fun w hw => ?_ }
  have := h.whole w hw
  omega

theorem WordsIn.perm {hi : Int} {vs : List Int} (h : WordsIn fp lo hi ws) (p : ws.Perm vs) : WordsIn fp lo hi vs where
  room := h.room
  apart := p.pairwise h.apart Or.symm
  low := fun w hw => h.low w (p.mem_iff.2 hw)
  high := fun w hw => h.high w (p.mem_iff.2 hw)
  whole := fun w hw => h.whole w (p.mem_iff.2 hw)

/-- One more word, above the others. -/
theorem WordsIn.cons {fp lo hi w : Int} {ws : List Int} (h : WordsIn fp lo w ws) (hhi : w + 8 ≤ hi)
    (hw : 8 ∣ w - fp) : WordsIn fp lo hi (w :: ws) := by
  have one : WordsIn fp w hi [w] := ⟨by omega, by simp, by simp, by simpa using hhi, by simpa using hw⟩
  exact one.append h

/-- Values stored at slots that go down from `top`, a word each. -/
theorem wordsIn_captures (fp top : Int) (n : Nat) (offsetOf : Nat → Int64) (next : Nat) (htop : 8 ∣ top - fp)
    (offset : ∀ p < n, fp + (offsetOf p).toInt = top - 8 * ((p : Int) + 1)) (hn : vs.length ≤ n)
    (pairs : unpaired? 0 vs = none) :
    WordsIn fp (top - 8 * n) top ((captureStores offsetOf next 0 vs).map fun s => fp + s.1.offset.toInt) := by
  have below : ∀ p ∈ homes 0 vs, p < n := by
    intro p hp
    have := lt_of_mem_homes pairs hp
    omega
  have places : (captureStores offsetOf next 0 vs).map (fun s => fp + s.1.offset.toInt) =
      (homes 0 vs).map fun p : Nat => top - 8 * ((p : Int) + 1) := by
    have e := congrArg (List.map fun o => fp + Int64.toInt o) (captureStores_offsets offsetOf next 0 vs)
    rw [List.map_map, List.map_map] at e
    exact e.trans (List.map_congr_left fun p hp => offset p (below p hp))
  rw [places]
  constructor
  · omega
  · exact List.pairwise_map.2 ((homes_ascend pairs).imp fun {a b} hab => Or.inr (by omega))
  all_goals
    simp only [List.mem_map, forall_exists_index, and_imp, forall_apply_eq_imp_iff₂]
    intro p hp
    have := below p hp
    omega

open InterpreterShape (riscv)

/-- The local 0 is the highest word of the locals, which start two words above the frame pointer. -/
theorem toInt_localOffset (h : m.maxLocals.toInt + 1 < 2 ^ 60) (hi : i < m.maxLocals.toInt) :
    (riscv.localsPointer m.maxLocals - Int64.ofNat i * 8).toInt = 16 + 8 * m.maxLocals.toInt - 8 * ((i : Int) + 1) := by
  refine toInt_of_eq ?_ (by omega) (by omega)
  simp only [InterpreterShape.localsPointer, riscv, Int64.ofInt_sub, Int64.ofInt_add, Int64.ofInt_mul,
    Int64.ofInt_toInt, Int64.ofInt_eq_ofNat]
  grind

theorem toInt_expressionOffset {k j : Nat} (h : 16 * (k : Int) + 8 * (j + 1) + 72 ≤ 2 ^ 63) :
    (riscv.monitorTop (Int64.ofNat k) - (Int64.ofNat j + 1) * 8).toInt = -72 - 16 * (k : Int) - 8 * ((j : Int) + 1) := by
  refine toInt_of_eq ?_ (by omega) (by omega)
  simp only [InterpreterShape.monitorTop, InterpreterShape.monitorBottom, riscv, Int64.ofInt_sub, Int64.ofInt_add,
    Int64.ofInt_mul, Int64.ofInt_eq_ofNat]
  grind

theorem toInt_monitorOffset {k : Nat} (h : 16 * ((k : Int) + 1) + 72 ≤ 2 ^ 63) :
    (riscv.monitorOffset (Int64.ofNat k)).toInt = -72 - 16 * ((k : Int) + 1) ∧
      (riscv.monitorOffset (Int64.ofNat k) + 8).toInt = -72 - 16 * ((k : Int) + 1) + 8 := by
  constructor
  all_goals
    refine toInt_of_eq ?_ (by omega) (by omega)
    simp only [InterpreterShape.monitorOffset, InterpreterShape.monitorBottom, riscv, Int64.ofInt_sub,
      Int64.ofInt_add, Int64.ofInt_mul, Int64.ofInt_eq_ofNat]
    grind

theorem wordsIn_monitors (fp : Int) (next k : Nat) (ms : List MonitorValue)
    (h : 16 * ((k : Int) + ms.length) + 72 ≤ 2 ^ 63) :
    WordsIn fp (fp - 72 - 16 * (k + ms.length)) (fp - 72 - 16 * k)
      ((monitorStores riscv next k ms).map fun s => fp + s.1.offset.toInt) := by
  induction ms generalizing next k with
  | nil => exact .nil (by simp)
  | cons m rest ih =>
    rw [List.length_cons] at h ⊢
    obtain ⟨e, e'⟩ := toInt_monitorOffset (k := k) (by omega)
    have tail := ih (next + 2) (k + 1) (by omega)
    have lock : fp + (-72 - 16 * ((k : Int) + 1)) = fp - 72 - 16 * ((k + 1 : Nat) : Int) := by omega
    have owner : fp + (-72 - 16 * ((k : Int) + 1) + 8) = fp - 72 - 16 * ((k + 1 : Nat) : Int) + 8 := by omega
    have bottom : fp - 72 - 16 * ((k : Int) + ((rest.length + 1 : Nat) : Int)) =
        fp - 72 - 16 * (((k + 1 : Nat) : Int) + rest.length) := by omega
    rw [monitorStores, List.map_cons, List.map_cons]
    dsimp only
    rw [e, e', lock, owner, bottom]
    -- The owner is the upper word of the two.
    refine WordsIn.perm ?_ (.swap ..)
    exact .cons (.cons tail (by omega) (by omega)) (by omega) (by omega)

/-- The four parts of a frame in the order they are stored. From the top down they are locals,
fixed slots, monitors and expressions. -/
theorem WordsIn.parts {a b c d e : Int} {fixed locals exprs monitors : List Int} (hf : WordsIn fp c d fixed)
    (hl : WordsIn fp d e locals) (he : WordsIn fp a b exprs) (hm : WordsIn fp b c monitors) :
    WordsIn fp a e (fixed ++ locals ++ exprs ++ monitors) := by
  have down := hl.append (hf.append (hm.append he))
  refine down.perm ?_
  rw [← List.append_assoc, List.append_assoc _ exprs]
  exact List.perm_append_comm.append List.perm_append_comm

/-- The link words and the fixed slots take eleven words, from the return address down. -/
theorem wordsIn_fixed (fp : Int) (m : MethodInfo) (bci top locals : Int64) :
    WordsIn fp (fp - 72) (fp + 16)
      ([fp + 8, fp, fp + 8 * riscv.senderSp.toInt, fp + 8 * riscv.lastSp.toInt] ++
        (fixedStores riscv m bci top locals).map fun s => fp + s.offset.toInt) := by
  have e : [fp + 8, fp, fp + 8 * riscv.senderSp.toInt, fp + 8 * riscv.lastSp.toInt] ++
      (fixedStores riscv m bci top locals).map (fun s => fp + s.offset.toInt) =
      [fp + 8, fp, fp + 8 * (-1), fp + 8 * (-2), fp + -24, fp + -32, fp + -40, fp + -48, fp + -56, fp + -64,
        fp + -72] := rfl
  rw [e]
  refine .cons (.cons (.cons (.cons (.cons (.cons (.cons (.cons (.cons (.cons (.cons (.nil ?_)
    ?_ ?_) ?_ ?_) ?_ ?_) ?_ ?_) ?_ ?_) ?_ ?_) ?_ ?_) ?_ ?_) ?_ ?_) ?_ ?_) ?_ ?_
  all_goals omega

/-- The words of one frame: its locals above the stack pointer, all others below it. -/
theorem planFrame_words (sound : s.Sound m) (callee : Option MethodInfo) (hloc : m.maxLocals.toInt + 1 < 2 ^ 60)
    (hfit : s.frameWords none + 1 < 2 ^ 60) (next : Nat) (fp : Int) :
    WordsIn fp (fp + 16 - 8 * s.frameWords none) (fp + 16 + 8 * m.maxLocals.toInt)
      ((planFrame riscv next s m callee).1.words riscv fp) := by
  have hlocals := sound.locals
  have hstack := sound.expressions
  have size : s.frameWords none = 11 + 2 * s.monitors.length + m.maxStack.toInt + 0 := frameWords_eq sound none
  have locals := wordsIn_captures fp (fp + 16 + 8 * m.maxLocals.toInt) m.maxLocals.toInt.toNat
    (fun i => riscv.localsPointer m.maxLocals - Int64.ofNat i * 8) next (by omega)
    (fun p hp => by rw [toInt_localOffset hloc (by omega)]; omega) (by omega) sound.localPairs
  have fixed := wordsIn_fixed fp m s.bci (riscv.monitorTop (Int64.ofNat s.monitors.length))
    (riscv.localsPointer m.maxLocals)
  have monitors := fun next => wordsIn_monitors fp next 0 s.monitors (by omega)
  have exprs := fun next => wordsIn_captures fp (fp - 72 - 16 * s.monitors.length) m.maxStack.toInt.toNat
    (fun j => riscv.monitorTop (Int64.ofNat s.monitors.length) - (Int64.ofNat j + 1) * 8) next (by omega)
    (fun p hp => by rw [toInt_expressionOffset (by omega)]; omega) (by omega) sound.expressionPairs
  simp only [planFrame, FramePlan.words, List.map_append, List.map_map, Function.comp_def, ← List.append_assoc]
  exact .parts (b := fp - 72 - 16 * s.monitors.length) fixed (locals.widen (by omega) (by omega))
    ((exprs _).widen (by omega) (by omega))
    ((monitors _).widen (by omega) (by omega))

/-! ## The chain of frames -/

/-- The words of frames planned innermost first, when the outermost one starts at `top`. -/
def chainWords (shape : InterpreterShape) (top : Int) : List FramePlan → List Int
  | [] => []
  | f :: rest =>
    chainWords shape top rest ++ f.words shape (top - (rest.map (·.size.toInt)).sum - 16)

theorem chainWords_eq (shape : InterpreterShape) (top : Int) (fs : List FramePlan) :
    chainWords shape top fs = fs.reverse.zipIdx.flatMap fun (f, i) =>
      f.words shape (top - (((fs.map (·.size)).reverse.take i).map (·.toInt)).sum - 16) := by
  induction fs with
  | nil => rfl
  | cons f rest ih =>
    rw [chainWords, ih, List.reverse_cons, List.zipIdx_append, List.flatMap_append]
    refine congr (congrArg _ ?_) ?_
    · rw [List.flatMap_def, List.flatMap_def]
      refine congrArg _ (List.map_congr_left fun (g, i) hg => ?_)
      have hi := (List.mem_zipIdx hg).2.1
      dsimp only
      rw [List.map_cons, List.reverse_cons, List.take_append_of_le_length (by simp at hi ⊢; omega)]
    · simp [Function.comp_def, List.map_reverse, List.sum_reverse]

theorem UnrollBlock.words_eq {u : UnrollBlock} (h : u.frameSizes = (u.frames.map (·.size)).reverse)
    (shape : InterpreterShape) (s : Int) :
    u.words shape s = chainWords shape (s - u.callerAdjustment.toInt) u.frames := by
  rw [chainWords_eq, ← h]
  rfl

/-- Words rounded up to an even number, in bytes. -/
theorem toInt_pairBytes {n : Int64} (h0 : 0 ≤ n.toInt) (h : n.toInt + 1 < 2 ^ 60) :
    (alignUp n 2 * 8).toInt = 16 * ((n.toInt + 1) / 2) := by
  have even : (alignUp n 2).toInt = (n.toInt + (2 ^ 1 - 1)) / 2 ^ 1 * 2 ^ 1 :=
    toInt_alignUp (k := 1) (by decide) h0 (by omega)
  refine toInt_of_eq ?_ (by omega) (by omega)
  rw [← Int64.ofInt_toInt (alignUp n 2), even, show (8 : Int64) = Int64.ofInt 8 from rfl, ← Int64.ofInt_mul]
  congr 1
  omega

theorem toInt_frameWords (sound : s.Sound m) (hcallee : 0 ≤ localWords callee) (hfit : s.frameWords callee + 1 < 2 ^ 60) :
    (riscv.overheadWords + Int64.ofNat s.monitors.length * riscv.monitorWords + m.maxStack +
      (callee.map (·.maxLocals)).getD 0).toInt = s.frameWords callee := by
  have hstack := sound.expressions
  have size := frameWords_eq sound callee
  have locals : (callee.map (·.maxLocals)).getD 0 = Int64.ofInt (localWords callee) := by
    cases callee with
    | none => rfl
    | some c => exact (Int64.ofInt_toInt _).symm
  refine toInt_of_eq ?_ (by omega) (by omega)
  rw [size, locals]
  simp only [InterpreterShape.overheadWords, riscv, Int64.ofInt_add, Int64.ofInt_mul, Int64.ofInt_toInt,
    Int64.ofInt_eq_ofNat]
  grind

theorem planFrame_size (sound : s.Sound m) (hcallee : 0 ≤ localWords callee)
    (hfit : s.frameWords callee + 1 < 2 ^ 60) (next : Nat) :
    (planFrame riscv next s m callee).1.size.toInt = 16 * ((s.frameWords callee + 1) / 2) := by
  have words := toInt_frameWords sound hcallee hfit
  have hstack := sound.expressions
  have h0 : 0 ≤ s.frameWords callee := by
    rw [frameWords_eq sound]
    omega
  have size := toInt_pairBytes (words ▸ h0) (words ▸ hfit)
  rwa [words] at size

/-- The locals of the outermost of some scopes; those of the callee when there is none. -/
def topLocals (callee : Option MethodInfo) (chain : List (Scope × MethodInfo)) : Int :=
  (chain.getLast?.map (·.2.maxLocals.toInt)).getD (localWords callee)

theorem FramesFit.locals (fit : FramesFit callee (chain.map (·.1))) (sound : ∀ c ∈ chain, c.1.Sound c.2) :
    localWords callee + 1 < 2 ^ 60 := by
  cases chain with
  | nil => exact fit
  | cons c rest =>
    have hs := sound c List.mem_cons_self
    have := hs.expressions
    have := frameWords_eq hs callee
    have : c.1.frameWords callee + 1 < 2 ^ 60 := fit.1
    omega

@[simp] theorem topLocals_cons (callee : Option MethodInfo) (s : Scope) (m : MethodInfo)
    (rest : List (Scope × MethodInfo)) : topLocals callee ((s, m) :: rest) = topLocals (some m) rest := by
  cases rest with
  | nil => rfl
  | cons c rest => simp [topLocals, List.getLast?_eq_some_getLast]

/-- The frames of a chain, each below its caller. The innermost one leaves room for the locals of
its callee. -/
theorem planFrames_words (chain : List (Scope × MethodInfo)) (sound : ∀ c ∈ chain, c.1.Sound c.2) (next : Nat)
    (callee : Option MethodInfo) (hcallee : 0 ≤ localWords callee) (fit : FramesFit callee (chain.map (·.1)))
    (top : Int) :
    (∀ f ∈ (planFrames riscv next callee chain).1, 0 < f.size.toInt ∧ 16 ∣ f.size.toInt) ∧
    16 ∣ ((planFrames riscv next callee chain).1.map (·.size.toInt)).sum ∧
    WordsIn top (top - ((planFrames riscv next callee chain).1.map (·.size.toInt)).sum + 8 * localWords callee)
      (top + 8 * topLocals callee chain) (chainWords riscv top (planFrames riscv next callee chain).1) := by
  induction chain generalizing next callee with
  | nil => exact ⟨by simp [planFrames], by simp [planFrames], .nil (by simp [planFrames, topLocals])⟩
  | cons c rest ih =>
    obtain ⟨s, m⟩ := c
    have hs : s.Sound m := sound (s, m) List.mem_cons_self
    have hrest := fun c hc => sound c (List.mem_cons_of_mem _ hc)
    have hlocals : 0 ≤ localWords (some m) := by
      have := hs.locals
      show 0 ≤ m.maxLocals.toInt
      omega
    obtain ⟨fitFrame, fitRest⟩ : s.frameWords callee + 1 < 2 ^ 60 ∧ FramesFit (some m) (rest.map (·.1)) := by
      rw [← hs.method]
      exact fit
    have hloc : m.maxLocals.toInt + 1 < 2 ^ 60 := fitRest.locals hrest
    obtain ⟨sizes, total, above⟩ :=
      ih hrest (next + (planFrame riscv next s m callee).2.length) (some m) hlocals fitRest
    have size := planFrame_size hs hcallee fitFrame next
    have hstack := hs.expressions
    have need := frameWords_eq hs callee
    have own : s.frameWords none = 11 + 2 * s.monitors.length + m.maxStack.toInt + 0 := frameWords_eq hs none
    have frame := planFrame_words hs callee hloc (by omega) next
    simp only [planFrames, List.map_cons, List.sum_cons, List.mem_cons, forall_eq_or_imp, chainWords, topLocals_cons]
    refine ⟨⟨by omega, sizes⟩, by omega, above.append ?_⟩
    -- The locals of this frame end where the frames above it do.
    refine ((frame _).rebase (by omega)).widen ?_ ?_
    · omega
    · show _ ≤ _ + 8 * m.maxLocals.toInt
      omega

/-! ## Plans -/

/-- A caller grows by the locals that it has not pushed, rounded up to two words. -/
theorem toInt_lastFrameAdjust (params : Int64) {locals : Int64} (h : locals.toInt - params.toInt + 1 < 2 ^ 60) :
    16 ∣ (InterpreterShape.lastFrameAdjust params locals).toInt ∧
      0 ≤ (InterpreterShape.lastFrameAdjust params locals).toInt ∧
      8 * (locals.toInt - params.toInt) ≤ (InterpreterShape.lastFrameAdjust params locals).toInt := by
  rw [InterpreterShape.lastFrameAdjust]
  split
  case _ hle =>
    rw [Int64.le_iff_toInt_le] at hle
    refine ⟨⟨0, rfl⟩, Int.le_refl 0, ?_⟩
    show _ ≤ (0 : Int)
    omega
  case _ hgt =>
    rw [Int64.le_iff_toInt_le] at hgt
    have diff : (locals - params).toInt = locals.toInt - params.toInt := by
      refine toInt_of_eq ?_ (by omega) (by omega)
      rw [Int64.ofInt_sub, Int64.ofInt_toInt, Int64.ofInt_toInt]
    rw [toInt_pairBytes (by omega) (by omega), diff]
    omega

/-- The words written into the frames of a plan lie apart from each other, between the end of the
innermost frame and the end of the arguments that an interpreted caller pushed. Every frame is a
positive number of two words. -/
theorem unroll_words_apart {req : DeoptRequest} {u : UnrollBlock} (accepted : req.unroll riscv = .ok u)
    (fits : req.Fits) (s : Int) :
    (u.words riscv s).Pairwise Apart ∧ (∀ w ∈ u.words riscv s, 8 ∣ w - s) ∧
    (∀ size ∈ u.frameSizes, 0 < size.toInt ∧ 16 ∣ size.toInt) ∧
    ∀ w ∈ u.words riscv s, u.stackPointer s u.frameCount ≤ w ∧ w + 8 ≤ s + 8 * req.pushedWords := by
  obtain ⟨chain, hscopes, sound, hframes, -, hsizes, outer, hlast, hadj⟩ := unroll_eq_ok accepted
  have houter : req.outermost = some outer.2 := by
    rw [DeoptRequest.outermost, ← hscopes, List.getLast?_map, hlast]
    exact (sound outer (List.mem_of_getLast? hlast)).method
  have hpushed : req.pushedWords = (if req.callerIsCompiled then 0 else outer.2.parameterSlots : Int64).toInt := by
    rw [DeoptRequest.pushedWords, houter]
    split <;> rfl
  have growth : outer.2.maxLocals.toInt - req.pushedWords + 1 < 2 ^ 60 := by
    have := fits.growth
    rwa [houter] at this
  rw [hpushed] at growth
  obtain ⟨adjWords, adj0, adj⟩ := toInt_lastFrameAdjust _ growth
  obtain ⟨sizes, -, words⟩ := planFrames_words chain sound 0 none (Int.le_refl 0) (hscopes ▸ fits.frames)
    (s - u.callerAdjustment.toInt)
  have bottom : u.stackPointer s u.frameCount =
      s - u.callerAdjustment.toInt - (u.frames.map (·.size.toInt)).sum := by
    rw [UnrollBlock.stackPointer, UnrollBlock.frameCount, List.take_length, hsizes, List.map_reverse, List.sum_reverse,
      List.map_map]
    rfl
  have hlocals : topLocals none chain = outer.2.maxLocals.toInt := by
    rw [topLocals, hlast]
    rfl
  rw [UnrollBlock.words_eq hsizes, hsizes, bottom, hpushed]
  rw [← hframes, hlocals] at words
  rw [← hframes] at sizes
  rw [callerAdjustment] at hadj
  rw [← hadj] at adjWords adj0 adj
  refine ⟨words.apart, fun w hw => ?_, fun size hsize => ?_, fun w hw => ?_⟩
  · have := words.whole w hw
    omega
  · obtain ⟨f, hf, rfl⟩ := List.mem_map.1 (List.mem_reverse.1 hsize)
    exact sizes f hf
  · have low := words.low w hw
    have high := words.high w hw
    have none0 : localWords none = 0 := rfl
    omega

/-- A method with a long and an odd number of locals that holds a monitor, and a method inlined
into it, called from the interpreter with two words of arguments. -/
def inlinedRequest : DeoptRequest where
  scopes := [
    { method := some { maxLocals := 3, maxStack := 2, parameterSlots := 1 }
      locals := [⟨.int, .nowhere, 7⟩, ⟨.long, .nowhere, 1⟩, .void]
      expressions := [⟨.int, .nowhere, 5⟩] },
    { method := some { maxLocals := 5, maxStack := 3, parameterSlots := 2 }
      locals := [⟨.double, .nowhere, 2⟩, .void, ⟨.object, .nowhere, 0⟩]
      expressions := [⟨.long, .nowhere, 9⟩, .void]
      monitors := [⟨⟨.object, .nowhere, 0⟩, .nowhere⟩] }]
  kind := .deopt
  compiledFrameSize := 64
  callerIsCompiled := false
  callerPc := 0x1000
  interpreterReturnPc := 0x2000
  continuationPc := 0x3000

theorem inlined_words_apart :
    ∃ u, inlinedRequest.unroll riscv = .ok u ∧ inlinedRequest.Fits ∧ inlinedRequest.pushedWords = 2 ∧
      u.frameSizes.map (·.toInt) = [160, 112] ∧
      (u.words riscv 0x8000).Pairwise Apart ∧ (∀ w ∈ u.words riscv 0x8000, 8 ∣ w - 0x8000) ∧
      (∀ size ∈ u.frameSizes, 0 < size.toInt ∧ 16 ∣ size.toInt) ∧
      ∀ w ∈ u.words riscv 0x8000, u.stackPointer 0x8000 u.frameCount ≤ w ∧ w + 8 ≤ 0x8000 + 8 * 2 := by
  have fits : inlinedRequest.Fits := ⟨by decide, by decide⟩
  obtain ⟨u, hu, hsizes⟩ : ∃ u, inlinedRequest.unroll riscv = .ok u ∧ u.frameSizes.map (·.toInt) = [160, 112] :=
    ⟨_, rfl, by decide⟩
  exact ⟨u, hu, fits, rfl, hsizes, unroll_words_apart hu fits 0x8000⟩

/-- A method with an expression stack of 2^60 - 11 words. -/
def hugeStackRequest : DeoptRequest where
  scopes := [{ method := some { name := "m", maxStack := 1152921504606846965 } }]
  kind := .deopt
  compiledFrameSize := 0
  callerIsCompiled := true
  callerPc := 0
  interpreterReturnPc := 0
  continuationPc := 0

/-- Nothing bounds the stack of a method, and the size of its frame wraps. -/
theorem unroll_size_wraps :
    ∃ u, hugeStackRequest.unroll riscv = .ok u ∧ u.frameSizes.map (·.toInt) = [-(2 ^ 63)] :=
  ⟨_, rfl, by decide⟩

end RiscvJit

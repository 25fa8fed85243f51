import RiscvJit.Proofs.Code.Calls

/-
  RiscvJit.Proofs.Code.Capacity — the same work in a smaller buffer.

  Work goes on after its buffer failed: words are dropped, labels are bound and referred to all
  the same, and the outcome is a bailout. So a run in a smaller buffer `Shadows` the run in a
  larger one: as long as everything fits, the two assemblers differ in nothing but the room they
  have (`Same`); afterwards the smaller one has failed, and all they still share is what decides
  whether later work can go on, which labels there are and which of them are bound (`Lost`).

  `Asm.Scales` says that work keeps this up: where the larger buffer is not exhausted, the smaller
  one gives the same result. There is one exception. A call of a known address is written by the
  distance to it, and the distance is taken from an offset that no longer moves once the buffer
  failed. So a routine just within reach may seem out of reach, and when its address has more than
  47 bits, the work stops there instead of going on (`Strays`).

  Single instructions, labels and jumps scale, and so does what is made of them by sequencing,
  choice and repetition.
-/

namespace RiscvJit

open Assembler (patchUse)
open CodeBuffer (emit4_failed emit4 emit4_capacity emit4_room emit4_overflow byteAt)

/-! ## Buffers with less room -/

/-- The reference was written before that offset. -/
def LabelUse.Within (u : LabelUse) (n : Nat) : Prop :=
  0 ≤ u.offset.toInt ∧ u.offset.toInt + (if u.kind.toNat = 2 then 8 else 4) ≤ n

namespace CodeBuffer

/-- The buffer with another capacity. -/
def cropped (b : CodeBuffer) (c : Nat) : CodeBuffer := { b with capacity := c }

variable {b : CodeBuffer} {c : Nat} {u : LabelUse}

theorem fail_cropped (reason : String) : (b.cropped c).fail reason = (b.fail reason).cropped c := by
  unfold fail
  rw [show (b.cropped c).failed = b.failed from rfl]
  split <;> rfl

theorem emit8_overflow (h : b.failed = false) (hroom : b.capacity < b.offset + 8) (v : UInt64) :
    b.emit8 v = { b with failure := codeOverflow } := by
  rw [emit8, h, if_neg (by decide), if_pos hroom]

theorem emit8_room (h : b.failed = false) (hroom : b.offset + 8 ≤ b.capacity) (v : UInt64) :
    b.emit8 v = { b with bytes := (List.range 8).foldl (fun bytes i => bytes.push (byteAt v i)) b.bytes } := by
  rw [emit8, h, if_neg (by decide), if_neg (by omega)]

theorem patch_cropped (off : Int64) (w : UInt32) : (b.cropped c).patch off w = (b.patch off w).map (·.cropped c) := by
  unfold patch
  rw [show (b.cropped c).offset = b.offset from rfl]
  dsimp only
  split
  · rfl
  · split <;> rfl

theorem wordAt_cropped {off : Int64} (h : off.toInt + 4 ≤ c) (hc : c ≤ b.capacity) :
    (b.cropped c).wordAt off = b.wordAt off := by
  have hsmall : decide ((c : Int) < off.toInt + 4) = false := decide_eq_false (by omega)
  have hlarge : decide ((b.capacity : Int) < off.toInt + 4) = false := decide_eq_false (by omega)
  unfold wordAt
  rw [show (b.cropped c).capacity = c from rfl, hsmall, hlarge]
  rfl

theorem patchUse_cropped {p : Int64} (hu : u.Within b.offset) (hoff : b.offset ≤ c) (hc : c ≤ b.capacity)
    (hsmall : b.capacity < 2 ^ 62) :
    patchUse (b.cropped c) u p = (patchUse b u p).map (·.cropped c) := by
  obtain ⟨hpos, hin⟩ := hu
  have hfirst : u.offset.toInt + 4 ≤ c := by split at hin <;> omega
  unfold patchUse
  rw [show (b.cropped c).failed = b.failed from rfl, wordAt_cropped hfirst hc]
  split
  · rfl
  · cases b.wordAt u.offset with
    | error e => rfl
    | ok w =>
      simp only [bind, Except.bind, patch_cropped, fail_cropped]
      split
      · split <;> rfl
      · split <;> rfl
      case _ hkind =>
        have hsecond : (u.offset + 4).toInt + 4 ≤ c := by
          rw [if_pos hkind] at hin
          rw [Int64.toInt_add, show (4 : Int64).toInt = 4 from rfl, Int.bmod_def]
          omega
        cases hp : b.patch u.offset (Assembler.patchHigh w (p - u.offset)) with
        | error e => rfl
        | ok b' =>
          have hcap : c ≤ b'.capacity := by rw [(patched_patch hp).capacity]; exact hc
          simp only [Except.map, wordAt_cropped hsecond hcap, patch_cropped]
          cases b'.wordAt (u.offset + 4) <;> rfl
      · rfl

theorem patchUses_cropped {us : List LabelUse} {p : Int64} (hu : ∀ u ∈ us, u.Within b.offset) (hoff : b.offset ≤ c)
    (hc : c ≤ b.capacity) (hsmall : b.capacity < 2 ^ 62) :
    us.foldlM (fun b u => patchUse b u p) (b.cropped c) =
      (us.foldlM (fun b u => patchUse b u p) b).map (·.cropped c) := by
  induction us generalizing b with
  | nil => rfl
  | cons u us ih =>
    rw [List.foldlM_cons, List.foldlM_cons, patchUse_cropped (hu u List.mem_cons_self) hoff hc hsmall]
    cases hp : patchUse b u p with
    | error e => rfl
    | ok b' =>
      have hpatched := patched_patchUse hp
      refine ih (fun u' hu' => ?_) ?_ ?_ ?_
      · rw [hpatched.offset]
        exact hu u' (List.mem_cons_of_mem _ hu')
      · rwa [hpatched.offset]
      · rwa [hpatched.capacity]
      · rwa [hpatched.capacity]

end CodeBuffer

/-! ## Runs side by side -/

namespace Assembler

/-- The assembler with a buffer of another capacity. -/
def cropped (b : Assembler) (c : Nat) : Assembler := { b with buf := b.buf.cropped c }

/-- What was written so far fits that capacity. -/
structure Fits (b : Assembler) (c : Nat) : Prop where
  le : c ≤ b.buf.capacity
  small : b.buf.capacity < 2 ^ 62
  offset : b.buf.offset ≤ c
  written : ∀ s ∈ b.labels.toList, ∀ u ∈ s.uses.toList, u.Within b.buf.offset

/-- The first assembler ran out of room. The labels are still those of the second one, and so is
whether each is bound. -/
structure Lost (a b : Assembler) : Prop where
  failed : a.buf.failed = true
  labels : a.labels.toList.map LabelState.isBound = b.labels.toList.map LabelState.isBound
  inStub : a.buf.inStub = b.buf.inStub
  base : a.buf.base = b.buf.base

/-- The first assembler is where the second one is, with less room, or it ran out of room on the way. -/
inductive Shadows : Assembler → Assembler → Prop
  | same {b : Assembler} {c : Nat} : b.Fits c → Shadows (b.cropped c) b
  | lost {a b : Assembler} : Lost a b → Shadows a b

variable {a b : Assembler}

theorem Shadows.lost_of_failed (h : Shadows a b) (hf : a.buf.failed = true) (hw : b.buf.failed = false) : Lost a b := by
  cases h with
  | same => exact absurd (hf.symm.trans hw) (by decide)
  | lost hl => exact hl

theorem Shadows.of_eq {c : Nat} (h : b.Fits c) (e : a = b.cropped c) : Shadows a b := e ▸ .same h

/-- What all work keeps that opens and closes no stub. -/
structure Persists (a a' : Assembler) : Prop where
  failed : a.buf.failed = true → a'.buf.failed = true
  inStub : a'.buf.inStub = a.buf.inStub
  base : a'.buf.base = a.buf.base

theorem persists_refl (a : Assembler) : Persists a a := ⟨id, rfl, rfl⟩

theorem Persists.trans {c : Assembler} (h : Persists a b) (h' : Persists b c) : Persists a c :=
  ⟨h'.failed ∘ h.failed, h'.inStub.trans h.inStub, h'.base.trans h.base⟩

theorem Persists.working {a' : Assembler} (h : Persists a a') (hw : a'.buf.failed = false) : a.buf.failed = false := by
  cases hf : a.buf.failed with
  | false => rfl
  | true => rw [h.failed hf] at hw; cases hw

end Assembler

open Assembler (Shadows Lost Persists persists_refl Fits label fenceAt? fenceWord mergeable?)

/-- The refusal of an address that has more than 47 bits. -/
def addressTooWide (addr : UInt64) : Fault := .precondition ("address " ++ Text.hex addr.toNat ++ " does not fit 47 bits")

/-- The work was stopped by a far address that is too wide to be reached through a register. -/
def Strays {α : Type} (far : UInt64 → Prop) (a : Assembler) (x : Except Fault α) : Prop :=
  ∃ addr, far addr ∧ 2 ^ 47 ≤ addr.toNat ∧ a.buf.base ≠ 0 ∧ x = .error (addressTooWide addr)

namespace Asm

/-- The work in a smaller buffer keeps up with the work in a larger one that is not exhausted by it. -/
class Scales {α : Type} (far : UInt64 → Prop) (x : Asm α) : Prop where
  persists : ∀ {t a r a'}, x t a = .ok (r, a') → Persists a a'
  scales : ∀ {t m n a b r b'}, (∀ e, far (t.runtime.addr e)) → Shadows a b → x t b = .ok (r, b') →
    b'.buf.failed = false → Strays far a (x (t.resized m n) a) ∨
      ∃ a', x (t.resized m n) a = .ok (r, a') ∧ Shadows a' b'

section
variable {α β : Type} {far : UInt64 → Prop} {a b : Assembler} {t : Target}

/-! ## Sequences, choices, repetitions -/

/-- Work that stops nowhere else in a smaller buffer, told for a buffer that fits and for one that ran out. -/
theorem scales_of {x : Asm α} (hpersists : ∀ {t a r a'}, x t a = .ok (r, a') → Persists a a')
    (hsame : ∀ {t t' b c r b'}, b.Fits c → x t b = .ok (r, b') → b'.buf.failed = false →
      ∃ a', x t' (b.cropped c) = .ok (r, a') ∧ Shadows a' b')
    (hlost : ∀ {t t' a b r b'}, Lost a b → x t b = .ok (r, b') → ∃ a', x t' a = .ok (r, a') ∧ Lost a' b') :
    Scales far x where
  persists := hpersists
  scales _ hs h hw := by
    cases hs with
    | same hfits => exact .inr (hsame hfits h hw)
    | lost hl =>
      obtain ⟨a', hrun, hl'⟩ := hlost hl h
      exact .inr ⟨a', hrun, .lost hl'⟩

instance scales_pure (r : α) : Scales far (pure r : Asm α) where
  persists h := by
    rw [(pure_eq_ok.mp h).2]
    exact persists_refl _
  scales _ hs h _ := by
    obtain ⟨rfl, rfl⟩ := pure_eq_ok.mp h
    exact .inr ⟨_, rfl, hs⟩

instance scales_lift (e : Except Fault α) : Scales far (liftM e : Asm α) where
  persists h := by
    rw [(lift_eq_ok.mp h).2]
    exact persists_refl _
  scales _ hs h _ := by
    obtain ⟨rfl, rfl⟩ := lift_eq_ok.mp h
    exact .inr ⟨_, lift_ok rfl, hs⟩

instance scales_bind (x : Asm α) (f : α → Asm β) [hx : Scales far x] [hf : ∀ r, Scales far (f r)] :
    Scales far (x >>= f) where
  persists h := by
    obtain ⟨r, b, hr, hs⟩ := bind_eq_ok.mp h
    exact (hx.persists hr).trans ((hf r).persists hs)
  scales {t main stubs a b s b'} hfar hs h hw := by
    obtain ⟨r, b1, hr, hrest⟩ := bind_eq_ok.mp h
    rcases hx.scales (m := main) hfar hs hr (((hf r).persists hrest).working hw)
      with ⟨addr, h1, h2, h3, hstop⟩ | ⟨a1, ha1, hs1⟩
    · refine .inl ⟨addr, h1, h2, h3, ?_⟩
      show (x (t.resized main stubs) a >>= _) = _
      rw [hstop]
      rfl
    · rw [bind_ok ha1]
      rcases (hf r).scales hfar hs1 hrest hw with ⟨addr, h1, h2, h3, hstop⟩ | hdone
      · exact .inl ⟨addr, h1, h2, (hx.persists ha1).base ▸ h3, hstop⟩
      · exact .inr hdone

instance scales_seq (x : Asm α) (y : Asm β) [Scales far x] [Scales far y] : Scales far (x >>= fun _ => y) :=
  scales_bind x _

instance scales_ite (c : Prop) [Decidable c] (x y : Asm α) [hx : Scales far x] [hy : Scales far y] :
    Scales far (if c then x else y) := by
  split
  · exact hx
  · exact hy

instance scales_forM (xs : List β) (f : β → Asm Unit) [hf : ∀ x, Scales far (f x)] : Scales far (xs.forM f) := by
  induction xs with
  | nil => exact scales_pure ()
  | cons x xs ih => exact scales_bind (f x) fun _ => xs.forM f

/-- What work reads of the settings may not be the sizes of buffers. -/
theorem scales_read {f : Target → Asm α} (hsame : ∀ t main stubs, f (t.resized main stubs) = f t)
    (hf : ∀ t, Scales far (f t)) : Scales far (read >>= f) where
  persists h := by
    obtain ⟨t, b, ht, hs⟩ := bind_eq_ok.mp h
    cases ht
    exact (hf _).persists hs
  scales {t main stubs a b s b'} hfar hs h hw := by
    obtain ⟨t', b1, ht, hrest⟩ := bind_eq_ok.mp h
    cases ht
    have hrun := (hf t).scales (m := main) (n := stubs) hfar hs hrest hw
    rwa [← hsame t main stubs] at hrun

theorem scales_opts {f : Options → Asm α} (hsame : ∀ o main stubs, f (o.resized main stubs) = f o)
    (hf : ∀ o, Scales far (f o)) : Scales far (opts >>= f) :=
  scales_read (f := fun t => f t.opts) (fun t => hsame t.opts) fun t => hf t.opts

end

/-! ## Words -/

section
variable {far : UInt64 → Prop} {a b : Assembler}

/-- A change of the buffer that writes at the end, if anything. -/
structure Appends (f : CodeBuffer → CodeBuffer) : Prop where
  stuck : ∀ b, b.failed = true → f b = b
  base : ∀ b, (f b).base = b.base
  inStub : ∀ b, (f b).inStub = b.inStub
  capacity : ∀ b, (f b).capacity = b.capacity
  grows : ∀ b, b.offset ≤ (f b).offset
  room : ∀ b, b.offset ≤ b.capacity → (f b).offset ≤ b.capacity
  cropped : ∀ b c, b.failed = false → (f b).failed = false → c ≤ b.capacity → b.offset ≤ c →
    (f (b.cropped c) = (f b).cropped c ∧ (f b).offset ≤ c) ∨ (f (b.cropped c)).failed = true

variable {f : CodeBuffer → CodeBuffer}

theorem Appends.persists (h : Appends f) (a : Assembler) : Persists a { a with buf := f a.buf } where
  failed hf := by
    rw [h.stuck _ hf]
    exact hf
  inStub := h.inStub _
  base := h.base _

theorem Appends.shadows (h : Appends f) (hs : Shadows a b) (hb : b.buf.failed = false) (hw : (f b.buf).failed = false) :
    Shadows { a with buf := f a.buf } { b with buf := f b.buf } := by
  cases hs with
  | @same _ c hfits =>
    have hcap := h.capacity b.buf
    have hlo := h.grows b.buf
    rcases h.cropped b.buf c hb hw hfits.le hfits.offset with ⟨heq, hhi⟩ | hfailed
    · have : Fits { b with buf := f b.buf } c := by
        refine ⟨by rw [hcap]; exact hfits.le, by rw [hcap]; exact hfits.small, hhi, fun s hs u hu => ?_⟩
        obtain ⟨h0, hin⟩ := hfits.written s hs u hu
        exact ⟨h0, Int.le_trans hin (Int.ofNat_le.mpr hlo)⟩
      have hshadow := Shadows.same this
      rwa [show Assembler.cropped { b with buf := f b.buf } c = { b.cropped c with buf := f (b.cropped c).buf } from by
        rw [show (b.cropped c).buf = b.buf.cropped c from rfl, heq]; rfl] at hshadow
    · exact .lost ⟨hfailed, rfl, (h.inStub (b.buf.cropped c)).trans (h.inStub b.buf).symm,
        (h.base (b.buf.cropped c)).trans (h.base b.buf).symm⟩
  | lost hl =>
    refine .lost ⟨?_, hl.labels, (h.inStub _).trans (hl.inStub.trans (h.inStub _).symm),
      (h.base _).trans (hl.base.trans (h.base _).symm)⟩
    show (f a.buf).failed = true
    rw [h.stuck _ hl.failed]
    exact hl.failed

theorem scales_modifyBuf (h : Appends f) : Scales far (modifyBuf f) where
  persists hx := by
    cases hx
    exact h.persists _
  scales _ hs hx hw := by
    cases hx
    exact .inr ⟨_, rfl, h.shadows hs ((h.persists _).working hw) hw⟩

theorem appends_emit4 (w : UInt32) : Appends (·.emit4 w) where
  stuck b hf := emit4_failed hf w
  base b := base_emit4 b w
  inStub b := by
    unfold emit4
    split
    · rfl
    · split <;> rfl
  capacity b := emit4_capacity b w
  grows b := offset_emit4 b w
  room b hb := by
    unfold emit4
    split
    · exact hb
    · split
      · exact hb
      · simp only [CodeBuffer.offset, Array.size_push] at *
        omega
  cropped b c hf hw hc hoff := by
    by_cases hroom : b.offset + 4 ≤ c
    · have hb := emit4_room hf (Nat.le_trans hroom hc) w
      have hsmall := emit4_room (b := b.cropped c) hf hroom w
      refine .inl ⟨?_, ?_⟩
      · rw [hb, hsmall]
        rfl
      · rw [hb]
        simpa only [CodeBuffer.offset, Array.size_push] using hroom
    · refine .inr ?_
      rw [emit4_overflow (b := b.cropped c) hf (Nat.lt_of_not_le hroom)]
      rfl

/-- The three ways of writing eight bytes: nothing more is written, there is no room, or there is. -/
theorem emit8_cases (b : CodeBuffer) (v : UInt64) : b.failed = true ∧ b.emit8 v = b ∨
    b.failed = false ∧ b.capacity < b.offset + 8 ∧ b.emit8 v = { b with failure := CodeBuffer.codeOverflow } ∨
    b.failed = false ∧ b.offset + 8 ≤ b.capacity ∧ (b.emit8 v).offset = b.offset + 8 ∧
      b.emit8 v = { b with bytes := (List.range 8).foldl (fun bytes i => bytes.push (byteAt v i)) b.bytes } := by
  cases hf : b.failed with
  | true => exact .inl ⟨rfl, if_pos hf⟩
  | false =>
    by_cases hroom : b.offset + 8 ≤ b.capacity
    · have hb := CodeBuffer.emit8_room hf hroom v
      refine .inr (.inr ⟨rfl, hroom, ?_, hb⟩)
      rw [hb]
      simp [CodeBuffer.offset, List.range, List.range.loop]
    · exact .inr (.inl ⟨rfl, Nat.lt_of_not_le hroom, CodeBuffer.emit8_overflow hf (Nat.lt_of_not_le hroom) v⟩)

theorem appends_emit8 (v : UInt64) : Appends (·.emit8 v) where
  stuck b hf := if_pos hf
  base b := by rcases emit8_cases b v with ⟨-, h⟩ | ⟨-, -, h⟩ | ⟨-, -, -, h⟩ <;> rw [h]
  inStub b := by rcases emit8_cases b v with ⟨-, h⟩ | ⟨-, -, h⟩ | ⟨-, -, -, h⟩ <;> rw [h]
  capacity b := by rcases emit8_cases b v with ⟨-, h⟩ | ⟨-, -, h⟩ | ⟨-, -, -, h⟩ <;> rw [h]
  grows b := by
    rcases emit8_cases b v with ⟨-, h⟩ | ⟨-, -, h⟩ | ⟨-, -, h, -⟩
    · exact Nat.le_of_eq (by rw [h])
    · rw [h]
      exact Nat.le_refl _
    · exact Nat.le_trans (Nat.le_add_right _ 8) (Nat.le_of_eq h.symm)
  room b hb := by
    rcases emit8_cases b v with ⟨-, h⟩ | ⟨-, -, h⟩ | ⟨-, hroom, h, -⟩ <;> rw [h]
    · exact hb
    · exact hb
    · exact hroom
  cropped b c hf hw hc hoff := by
    rcases emit8_cases (b.cropped c) v with ⟨hf', -⟩ | ⟨-, -, hsmall⟩ | ⟨-, hroom, -, hsmall⟩
    · exact absurd (hf.symm.trans hf') (by decide)
    · exact .inr (by rw [hsmall]; rfl)
    · have hroom : b.offset + 8 ≤ c := hroom
      rcases emit8_cases b v with ⟨hf', -⟩ | ⟨-, hover, -⟩ | ⟨-, -, hlen, hb⟩
      · exact absurd (hf.symm.trans hf') (by decide)
      · omega
      · refine .inl ⟨?_, by omega⟩
        rw [hb, hsmall]
        rfl

theorem appends_fail (reason : String) : Appends (·.fail reason) where
  stuck _ hf := if_pos hf
  base b := (patched_fail b reason).base
  inStub b := (patched_fail b reason).inStub
  capacity b := (patched_fail b reason).capacity
  grows b := Nat.le_of_eq (patched_fail b reason).offset.symm
  room b := Nat.le_trans (Nat.le_of_eq (patched_fail b reason).offset)
  cropped b _ _ _ _ hoff :=
    .inl ⟨CodeBuffer.fail_cropped reason, Nat.le_trans (Nat.le_of_eq (patched_fail b reason).offset) hoff⟩

instance scales_emit (o : Op) (rd rs1 rs2 : Reg) (imm : Int64) (aqrl : UInt32) :
    Scales far (emit o rd rs1 rs2 imm aqrl) :=
  have : Scales far (modifyBuf (·.emit4 (o.encode rd rs1 rs2 imm aqrl))) := scales_modifyBuf (appends_emit4 _)
  scales_bind (liftM (checkClasses o rd rs1 rs2)) fun _ => modifyBuf (·.emit4 (o.encode rd rs1 rs2 imm aqrl))

instance scales_word64 (v : UInt64) : Scales far (word64 v) := scales_modifyBuf (appends_emit8 v)

instance scales_jalOffset (rd : Reg) (off : Int64) : Scales far (jalOffset rd off) :=
  have : Scales far (modifyBuf (·.fail branchOutOfRange)) := scales_modifyBuf (appends_fail _)
  scales_ite _ _ _

end

/-! ## Labels -/

section
variable {far : UInt64 → Prop} {a b : Assembler} {t : Target} {l : Label}

variable {a' : Assembler} {o : Op} {rd rs1 rs2 : Reg} {s : LabelState} {imm : Int64} {aqrl : UInt32} {b' : Assembler}
  {off : Int64} {kind : UInt8}

/-- Assemblers with the same labels, some bound, find the same labels. -/
theorem label_alike (h : a.labels.toList.map LabelState.isBound = b.labels.toList.map LabelState.isBound)
    (hl : b.label l = .ok s) : ∃ s', a.label l = .ok s' ∧ s'.isBound = s.isBound := by
  unfold label at hl ⊢
  split at hl
  · cases hl
  case _ hne =>
    rw [if_neg hne]
    split at hl
    case _ s' hs =>
      cases hl
      have hat := congrArg (·[l - 1]?) h
      simp only [List.getElem?_map, Array.getElem?_toList, hs, Option.map_some] at hat
      obtain ⟨s', hs', hbound⟩ := Option.map_eq_some_iff.mp hat
      rw [hs']
      exact ⟨s', rfl, hbound⟩
    · cases hl

/-- Replacing a label on both sides. -/
theorem labels_set {s' : LabelState} (i : Nat)
    (h : a.labels.toList.map LabelState.isBound = b.labels.toList.map LabelState.isBound) (hs : s.isBound = s'.isBound) :
    (a.labels.setIfInBounds i s).toList.map LabelState.isBound = (b.labels.setIfInBounds i s').toList.map
    LabelState.isBound := by
  rw [Array.toList_setIfInBounds, Array.toList_setIfInBounds, List.map_set, List.map_set, h, hs]

instance scales_newLabel : Scales far newLabel := by
  refine scales_of (fun h => ?_) (fun {t t' b c r b'} hfits h hw => ?_) fun {t t' a b r b'} hl h => ?_
  · cases h
    exact ⟨id, rfl, rfl⟩
  · cases h
    have hfresh : Fits { b with labels := b.labels.push {} } c := by
      refine ⟨hfits.le, hfits.small, hfits.offset, fun s hs u hu => ?_⟩
      rcases Array.mem_push.mp (Array.mem_toList_iff.mp hs) with hs | rfl
      · exact hfits.written s (Array.mem_toList_iff.mpr hs) u hu
      · cases hu
    exact ⟨_, rfl, .same hfresh⟩
  · cases h
    have hsize : a.labels.size = b.labels.size := by
      have := congrArg List.length hl.labels
      simpa using this
    refine ⟨{ a with labels := a.labels.push {} }, ?_, hl.failed, ?_, hl.inStub, hl.base⟩
    · rw [← hsize]
      rfl
    · simp only [Array.toList_push, List.map_append, hl.labels]

theorem bindLabel_eq_ok (h : Asm.bind l t b = .ok ((), a')) :
    ∃ s buf, b.label l = .ok s ∧ s.isBound = false ∧
      s.uses.toList.foldlM (fun buf u => patchUse buf u (Int64.ofNat b.buf.offset)) b.buf = .ok buf ∧
      a' = { b with
        buf := buf
        labels := b.labels.setIfInBounds (l - 1) { position? := some (Int64.ofNat b.buf.offset) }
        lastBind := some b.buf.offset } := by
  obtain ⟨s, hs, h⟩ := except_bind_eq_ok.mp (change_eq_ok.mp h)
  obtain ⟨⟨uses, s'⟩, hbind, h⟩ := except_bind_eq_ok.mp h
  unfold LabelState.bind at hbind
  split at hbind
  · cases hbind
  case _ hnot =>
    cases hbind
    obtain ⟨buf, hbuf, h⟩ := except_bind_eq_ok.mp h
    cases h
    rw [← Array.foldlM_toList] at hbuf
    exact ⟨s, buf, hs, by simpa using hnot, hbuf, rfl⟩

theorem bindLabel_ok {buf : CodeBuffer} (hs : b.label l = .ok s) (hnot : s.isBound = false)
    (hbuf : s.uses.toList.foldlM (fun buf u => patchUse buf u (Int64.ofNat b.buf.offset)) b.buf = .ok buf) :
    Asm.bind l t b = .ok ((), { b with
      buf := buf
      labels := b.labels.setIfInBounds (l - 1) { position? := some (Int64.ofNat b.buf.offset) }
      lastBind := some b.buf.offset }) := by
  have hbuf : s.uses.foldlM (fun buf u => patchUse buf u (Int64.ofNat b.buf.offset)) b.buf = Except.ok buf := by
    rw [← Array.foldlM_toList, hbuf]
  refine change_ok ?_
  rw [Assembler.bind, hs]
  show (s.bind (Int64.ofNat b.buf.offset) >>= _) = _
  rw [LabelState.bind, hnot]
  show (Array.foldlM (m := Except Fault) _ b.buf s.uses >>= _) = _
  rw [hbuf]
  rfl

theorem mem_of_label (h : b.label l = .ok s) : s ∈ b.labels.toList := by
  unfold label at h
  split at h
  · cases h
  · split at h
    case _ s' hs =>
      cases h
      exact Array.mem_toList_iff.mpr (Array.mem_of_getElem? hs)
    · cases h

instance scales_bindLabel (l : Label) : Scales far (Asm.bind l) := by
  refine scales_of (fun {t a r a'} h => ?_) (fun {t t' b c r b'} hfits h hw => ?_) fun {t t' a b r b'} hl h => ?_
  · obtain ⟨s, buf, -, -, hbuf, rfl⟩ := bindLabel_eq_ok h
    have hpatched := patched_patchUses hbuf
    exact ⟨hpatched.failed, hpatched.inStub, hpatched.base⟩
  · obtain ⟨s, buf, hs, hnot, hbuf, rfl⟩ := bindLabel_eq_ok h
    have hpatched := patched_patchUses hbuf
    have hcropped := CodeBuffer.patchUses_cropped (p := Int64.ofNat b.buf.offset)
      (hfits.written s (mem_of_label hs)) hfits.offset hfits.le hfits.small
    rw [hbuf] at hcropped
    refine ⟨_, bindLabel_ok (b := b.cropped c) hs hnot hcropped, .of_eq ⟨?_, ?_, ?_, fun s' hs' u hu => ?_⟩ rfl⟩
    · exact Nat.le_trans hfits.le (Nat.le_of_eq hpatched.capacity.symm)
    · exact Nat.lt_of_le_of_lt (Nat.le_of_eq hpatched.capacity) hfits.small
    · exact Nat.le_trans (Nat.le_of_eq hpatched.offset) hfits.offset
    · show u.Within buf.offset
      rw [hpatched.offset]
      rcases List.mem_or_eq_of_mem_set (by rwa [Array.toList_setIfInBounds] at hs') with hs' | rfl
      · exact hfits.written s' hs' u hu
      · cases hu
  · obtain ⟨s, buf, hs, hnot, hbuf, rfl⟩ := bindLabel_eq_ok h
    have hpatched := patched_patchUses hbuf
    obtain ⟨s', hs', hbound⟩ := label_alike hl.labels hs
    exact ⟨_, bindLabel_ok hs' (hbound.trans hnot) (patchUses_failed hl.failed _ _), hl.failed,
      labels_set (l - 1) hl.labels rfl, hl.inStub.trans hpatched.inStub.symm, hl.base.trans hpatched.base.symm⟩

/-! ## References -/

theorem refer_eq_ok (h : refer l off kind t b = .ok ((), a')) :
    ∃ s, b.label l = .ok s ∧
      ((∃ pos buf, s.position? = some pos ∧ patchUse b.buf ⟨off, kind⟩ pos = .ok buf ∧ a' = { b with buf := buf }) ∨
        (s.position? = none ∧ a' = b.setLabel l (s.addUse ⟨off, kind⟩))) := by
  obtain ⟨s, hs, h⟩ := except_bind_eq_ok.mp (change_eq_ok.mp h)
  refine ⟨s, hs, ?_⟩
  cases hpos : s.position? with
  | some pos =>
    rw [hpos] at h
    obtain ⟨buf, hbuf, h⟩ := except_bind_eq_ok.mp h
    cases h
    exact .inl ⟨pos, buf, rfl, hbuf, rfl⟩
  | none =>
    rw [hpos] at h
    cases h
    exact .inr ⟨rfl, rfl⟩

theorem refer_bound {pos : Int64} {buf : CodeBuffer} (hs : b.label l = .ok s) (hpos : s.position? = some pos)
    (hbuf : patchUse b.buf ⟨off, kind⟩ pos = .ok buf) : refer l off kind t b = .ok ((), { b with buf := buf }) := by
  refine change_ok (except_bind_eq_ok.mpr ⟨s, hs, ?_⟩)
  rw [hpos]
  exact except_bind_eq_ok.mpr ⟨buf, hbuf, rfl⟩

theorem refer_unbound (hs : b.label l = .ok s) (hpos : s.position? = none) :
    refer l off kind t b = .ok ((), b.setLabel l (s.addUse ⟨off, kind⟩)) := by
  refine change_ok (except_bind_eq_ok.mpr ⟨s, hs, ?_⟩)
  rw [hpos]
  rfl

theorem persists_refer (h : refer l off kind t b = .ok ((), a')) : Persists b a' := by
  obtain ⟨s, -, ⟨pos, buf, -, hbuf, rfl⟩ | ⟨-, rfl⟩⟩ := refer_eq_ok h
  · have hpatched := patched_patchUse hbuf
    exact ⟨hpatched.failed, hpatched.inStub, hpatched.base⟩
  · exact ⟨id, rfl, rfl⟩

theorem refer_same {z : Target} {c : Nat} (hfits : b.Fits c) (hu : LabelUse.Within ⟨off, kind⟩ b.buf.offset)
    (h : refer l off kind t b = .ok ((), b')) : refer l off kind z (b.cropped c) = .ok ((), b'.cropped c) ∧
    b'.Fits c := by
  obtain ⟨s, hs, ⟨pos, buf, hpos, hbuf, rfl⟩ | ⟨hpos, rfl⟩⟩ := refer_eq_ok h
  · have hpatched := patched_patchUse hbuf
    have hcropped := CodeBuffer.patchUse_cropped (p := pos) hu hfits.offset hfits.le hfits.small
    rw [hbuf] at hcropped
    refine ⟨refer_bound (b := b.cropped c) hs hpos hcropped, ?_, ?_, ?_, fun s' hs' u hu => ?_⟩
    · exact Nat.le_trans hfits.le (Nat.le_of_eq hpatched.capacity.symm)
    · exact Nat.lt_of_le_of_lt (Nat.le_of_eq hpatched.capacity) hfits.small
    · exact Nat.le_trans (Nat.le_of_eq hpatched.offset) hfits.offset
    · show u.Within buf.offset
      rw [hpatched.offset]
      exact hfits.written s' hs' u hu
  · refine ⟨refer_unbound (b := b.cropped c) hs hpos, hfits.le, hfits.small, hfits.offset, fun s' hs' u hu' => ?_⟩
    have hs' : s' ∈ (b.labels.setIfInBounds (l - 1) (s.addUse ⟨off, kind⟩)).toList := hs'
    rw [Array.toList_setIfInBounds] at hs'
    rcases List.mem_or_eq_of_mem_set hs' with hs' | rfl
    · exact hfits.written s' hs' u hu'
    · rcases Array.mem_push.mp (Array.mem_toList_iff.mp hu') with hu' | rfl
      · exact hfits.written s (mem_of_label hs) u (Array.mem_toList_iff.mpr hu')
      · exact hu

/-- A reference whose instruction was dropped. -/
theorem refer_lost {z : Target} (hl : Lost a b) (h : refer l off kind t b = .ok ((), b')) (off' : Int64) (kind' : UInt8) :
    ∃ a', refer l off' kind' z a = .ok ((), a') ∧ Lost a' b' := by
  obtain ⟨s, hs, hcases⟩ := refer_eq_ok h
  obtain ⟨s', hs', hbound⟩ := label_alike hl.labels hs
  have bound_iff (s : LabelState) : s.isBound = s.position?.isSome := rfl
  rw [bound_iff, bound_iff] at hbound
  rcases hcases with ⟨pos, buf, hpos, hbuf, rfl⟩ | ⟨hpos, rfl⟩
  · have hpatched := patched_patchUse hbuf
    rw [hpos] at hbound
    obtain ⟨pos', hpos'⟩ := Option.isSome_iff_exists.mp hbound
    exact ⟨a, refer_bound hs' hpos' (patchUse_failed hl.failed _ _), hl.failed, hl.labels,
      hl.inStub.trans hpatched.inStub.symm, hl.base.trans hpatched.base.symm⟩
  · rw [hpos] at hbound
    have hpos' : s'.position? = none := by simpa using hbound
    refine ⟨_, refer_unbound hs' hpos', hl.failed, labels_set (l - 1) hl.labels ?_, hl.inStub, hl.base⟩
    show s'.position?.isSome = s.position?.isSome
    rw [hpos, hpos']

/-- A reference by words that are written first. -/
theorem scales_reference (y : Asm Unit) [hy : Scales far y] (kind : UInt8)
    (hwritten : ∀ {t b b'}, y t b = .ok ((), b') → b'.buf.failed = false →
      b.buf.offset + (if kind.toNat = 2 then 8 else 4) ≤ b'.buf.offset) (l : Label) :
    Scales far (offset >>= fun off => y >>= fun _ => refer l (Int64.ofNat off) kind) where
  persists h := by
    obtain ⟨off, b, hoff, h⟩ := bind_eq_ok.mp h
    cases hoff
    obtain ⟨_, b1, hrun, hrefer⟩ := bind_eq_ok.mp h
    exact (hy.persists hrun).trans (persists_refer hrefer)
  scales {t main stubs a b r b'} hfar hs h hw := by
    obtain ⟨off, b, hoff, h⟩ := bind_eq_ok.mp h
    cases hoff
    obtain ⟨_, b1, hrun, hrefer⟩ := bind_eq_ok.mp h
    have hw1 := (persists_refer hrefer).working hw
    rw [bind_ok (show offset (t.resized main stubs) a = .ok (a.buf.offset, a) from rfl)]
    rcases hy.scales (m := main) (n := stubs) hfar hs hrun hw1 with ⟨addr, h1, h2, h3, hstop⟩ | ⟨a1, ha1, hs1⟩
    · refine .inl ⟨addr, h1, h2, h3, ?_⟩
      show (y (t.resized main stubs) a >>= _) = _
      rw [hstop]
      rfl
    · rw [bind_ok ha1]
      refine .inr ?_
      have fails (hl : Lost a1 b1) :
          ∃ a', refer l (Int64.ofNat a.buf.offset) kind (t.resized main stubs) a1 = .ok (r, a') ∧ Shadows a' b' := by
        obtain ⟨a', hrun', hl'⟩ := refer_lost (z := t.resized main stubs) hl hrefer (Int64.ofNat a.buf.offset) kind
        exact ⟨a', hrun', .lost hl'⟩
      cases hs1 with
      | lost hl => exact fails hl
      | @same _ c hfits =>
        cases hs with
        | lost hl => exact fails ⟨(hy.persists ha1).failed hl.failed, rfl, rfl, rfl⟩
        | @same _ c' hfits' =>
          have hlen := hwritten hrun hw1
          have hsmall := hfits.small
          have hroom := Nat.le_trans hfits.offset hfits.le
          have hint : (Int64.ofNat b.buf.offset).toInt = b.buf.offset := by
            have : b.buf.offset ≤ b1.buf.offset := Nat.le_trans (Nat.le_add_right _ _) hlen
            exact Int64.toInt_ofNat_of_lt (by omega)
          have hwithin : LabelUse.Within ⟨Int64.ofNat b.buf.offset, kind⟩ b1.buf.offset := by
            refine ⟨by rw [hint]; omega, ?_⟩
            rw [hint]
            split at hlen <;> simp_all <;> omega
          obtain ⟨hcropped, hfits''⟩ := refer_same (z := t.resized main stubs) hfits hwithin hrefer
          exact ⟨_, hcropped, .same hfits''⟩

theorem persists_emit (h : emit o rd rs1 rs2 imm aqrl t b = .ok ((), b')) : Persists b b' := by
  obtain ⟨-, rfl⟩ := emit_eq_ok.mp h
  exact (appends_emit4 _).persists b

theorem emit_written (h : emit o rd rs1 rs2 imm aqrl t b = .ok ((), b')) (hw : b'.buf.failed = false) :
    b'.buf.offset = b.buf.offset + 4 := by
  obtain ⟨-, rfl⟩ := emit_eq_ok.mp h
  by_cases hroom : b.buf.offset + 4 ≤ b.buf.capacity
  · have hb := (Persists.working (Appends.persists (appends_emit4 _) b) hw)
    show (b.buf.emit4 _).offset = _
    rw [emit4_room hb hroom]
    simp [CodeBuffer.offset]
  · have hb := (Persists.working (Appends.persists (appends_emit4 _) b) hw)
    rw [show (b.buf.emit4 _) = _ from emit4_overflow hb (Nat.lt_of_not_le hroom) _] at hw
    cases hw

instance scales_branch (o : Op) (rs1 rs2 : Reg) (l : Label) : Scales far (branch o rs1 rs2 l) :=
  scales_reference (emit o .none rs1 rs2 0 0) 0 (fun h hw => Nat.le_of_eq (emit_written h hw).symm) l

instance scales_jal (rd : Reg) (l : Label) : Scales far (jal rd l) :=
  scales_reference (emit .jal rd .none .none 0 0) 1 (fun h hw => Nat.le_of_eq (emit_written h hw).symm) l

instance scales_la (rd : Reg) (l : Label) : Scales far (la rd l) := by
  have : Scales far (auipc rd 0) := scales_emit ..
  rw [la_eq]
  refine scales_reference (auipc rd 0 >>= fun _ => emit .addi rd rd .none 0 0) 2 (fun h hw => ?_) l
  obtain ⟨_, b1, h1, h2⟩ := bind_eq_ok.mp h
  have hfirst := emit_written h1 ((persists_emit h2).working hw)
  have hsecond := emit_written h2 hw
  rw [if_pos (by decide)]
  omega

/-- An instruction leaves the labels alone. -/
theorem emit_lost (hl : Lost a b) (h : emit o rd rs1 rs2 imm aqrl t b = .ok ((), b')) : Lost a b' := by
  have hp := persists_emit h
  obtain ⟨-, rfl⟩ := emit_eq_ok.mp h
  exact ⟨hl.failed, hl.labels, hl.inStub.trans hp.inStub.symm, hl.base.trans hp.base.symm⟩

theorem emit_failed (h : checkClasses o rd rs1 rs2 = .ok ()) (hf : a.buf.failed = true) :
    emit o rd rs1 rs2 imm aqrl t a = .ok ((), a) := by
  rw [emit_ok h, emit4_failed hf]

theorem isNear_eq_ok {near : Bool} (h : isNear l t b = .ok (near, b')) : b' = b ∧ ∃ s, b.label l = .ok s := by
  obtain ⟨b1, b2, hget, h⟩ := bind_eq_ok.mp h
  cases hget
  obtain ⟨s, b3, hs, h⟩ := bind_eq_ok.mp h
  obtain ⟨hs, rfl⟩ := lift_eq_ok.mp hs
  refine ⟨?_, s, hs⟩
  cases hpos : s.position? <;> rw [hpos] at h <;> exact (pure_eq_ok.mp h).2.symm

/-- A conditional jump ends with a reference, in either form. -/
theorem bcond_refers (ho : o.info.format = .branch) (h : bcond o rs1 rs2 l t b = .ok ((), b')) (hl : Lost a b) :
    rs1.isInt = true ∧ rs2.isInt = true ∧ ∃ b1 off kind, Lost a b1 ∧ refer l off kind t b1 = .ok ((), b') := by
  have ints {o : Op} (ho : o.info.format = .branch) {rd : Reg} (hc : checkClasses o rd rs1 rs2 = .ok ()) :
      rs1.isInt = true ∧ rs2.isInt = true := by
    obtain ⟨-, c1, c2⟩ := checkClasses_eq_ok hc
    obtain ⟨-, e1, e2⟩ := branch_classes ho
    exact ⟨isInt_of_check e1 c1, isInt_of_check e2 c2⟩
  obtain ⟨near, b1, hnear, hrest⟩ := bind_eq_ok.mp h
  obtain ⟨rfl, -⟩ := isNear_eq_ok hnear
  cases near with
  | true =>
    rw [if_pos rfl] at hrest
    obtain ⟨off, b2, hoff, hrest⟩ := bind_eq_ok.mp hrest
    cases hoff
    obtain ⟨_, b2, hemit, hrefer⟩ := bind_eq_ok.mp hrest
    obtain ⟨h1, h2⟩ := ints ho (emit_eq_ok.mp hemit).1
    exact ⟨h1, h2, b2, _, _, emit_lost hl hemit, hrefer⟩
  | false =>
    rw [if_neg (by decide)] at hrest
    obtain ⟨o', b2, hnegate, hrest⟩ := bind_eq_ok.mp hrest
    obtain ⟨hop, rfl⟩ := lift_eq_ok.mp hnegate
    cases (negateBranch_eq ho).symm.trans hop
    obtain ⟨_, b2, hemit, hrest⟩ := bind_eq_ok.mp hrest
    obtain ⟨off, b3, hoff, hrest⟩ := bind_eq_ok.mp hrest
    cases hoff
    obtain ⟨_, b3, hemit', hrefer⟩ := bind_eq_ok.mp hrest
    obtain ⟨h1, h2⟩ := ints (format_negated ho) (emit_eq_ok.mp hemit).1
    exact ⟨h1, h2, b3, _, _, emit_lost (emit_lost hl hemit) hemit', hrefer⟩

/-- In a buffer that failed a conditional jump is no more than its reference. -/
theorem bcond_failed (ho : o.info.format = .branch) (h1 : rs1.isInt = true) (h2 : rs2.isInt = true)
    (hf : a.buf.failed = true) (hs : a.label l = .ok s) : ∃ off kind, bcond o rs1 rs2 l t a = refer l off kind t a := by
  obtain ⟨near, hnear⟩ : ∃ near, isNear l t a = .ok (near, a) := ⟨_, isNear_ok hs⟩
  cases near with
  | true =>
    refine ⟨Int64.ofNat a.buf.offset, 0, ?_⟩
    rw [bcond_near hnear, branch, bind_ok (show offset t a = .ok (a.buf.offset, a) from rfl),
      bind_ok (emit_failed (check_branch ho h1 h2) hf)]
  | false =>
    refine ⟨Int64.ofNat a.buf.offset, 1, ?_⟩
    rw [bcond_far ho h1 h2 hnear, emit4_failed hf, jal,
      bind_ok (show offset t a = .ok (a.buf.offset, a) from rfl), bind_ok (emit_failed (check_jal rfl) hf)]

/-- The near or the far form: which one is taken in a buffer that failed does not matter. -/
theorem scales_bcond (ho : o.info.format = .branch) (rs1 rs2 : Reg) (l : Label) : Scales far (bcond o rs1 rs2 l) := by
  have hform (near : Bool) : Scales far (if near then branch o rs1 rs2 l else do
      emit (← negateBranch o) .none rs1 rs2 8 0
      jal .zr l) := inferInstance
  refine ⟨fun h => ?_, fun {t main stubs a b r b'} hfar hs h hw => ?_⟩
  · obtain ⟨near, b, hnear, hrest⟩ := bind_eq_ok.mp h
    obtain ⟨rfl, -⟩ := isNear_eq_ok hnear
    exact (hform near).persists hrest
  · cases hs with
    | lost hl =>
      obtain ⟨h1, h2, b1, off, kind, hl1, hrefer⟩ := bcond_refers ho h hl
      obtain ⟨s, hs, -⟩ := refer_eq_ok hrefer
      obtain ⟨s', hs', -⟩ := label_alike hl1.labels hs
      obtain ⟨off', kind', hsame⟩ := bcond_failed (t := t.resized main stubs) ho h1 h2 hl.failed hs'
      obtain ⟨a', hrun, hl'⟩ := refer_lost (z := t.resized main stubs) hl1 hrefer off' kind'
      exact .inr ⟨a', hsame.trans hrun, .lost hl'⟩
    | @same _ c hfits =>
      obtain ⟨near, b1, hnear, hrest⟩ := bind_eq_ok.mp h
      obtain ⟨rfl, s, hs⟩ := isNear_eq_ok hnear
      rw [isNear_ok hs] at hnear
      cases hnear
      have hrun := (hform _).scales (m := main) (n := stubs) hfar (.same hfits) hrest hw
      unfold bcond
      rwa [bind_ok (isNear_ok (a := b1.cropped c) hs)]

end

/-! ## Barriers, maps and entries -/

section
variable {far : UInt64 → Prop}

/-- A change of the assembler that keeps its labels and, up to words at the end, its buffer. -/
theorem scales_modify {f : Assembler → Assembler} (hbuf : ∀ a, (f a).buf = a.buf) (hlabels : ∀ a, (f a).labels = a.labels)
    (hcropped : ∀ b c, f (Assembler.cropped b c) = (f b).cropped c) : Scales far (modify f : Asm Unit) := by
  refine scales_of (fun {t a r a'} h => ?_) (fun {t t' b c r b'} hfits h hw => ?_) fun {t t' a b r b'} hl h => ?_
  · cases h
    exact ⟨by rw [hbuf]; exact id, by rw [hbuf], by rw [hbuf]⟩
  · cases h
    refine ⟨_, rfl, .of_eq (c := c) ⟨?_, ?_, ?_, ?_⟩ (hcropped b c)⟩
    · rw [hbuf]; exact hfits.le
    · rw [hbuf]; exact hfits.small
    · rw [hbuf]; exact hfits.offset
    · rw [hbuf, hlabels]; exact hfits.written
  · cases h
    exact ⟨_, rfl, by rw [hbuf]; exact hl.failed, by rw [hlabels, hlabels]; exact hl.labels,
      by rw [hbuf, hbuf]; exact hl.inStub, by rw [hbuf, hbuf]; exact hl.base⟩

instance scales_comment (text : String) : Scales far (comment text) :=
  scales_modify (fun _ => rfl) (fun _ => rfl) fun _ _ => rfl

instance scales_markEntry (name : String) : Scales far (markEntry name) :=
  scales_modify (fun _ => rfl) (fun _ => rfl) fun _ _ => rfl

instance scales_addOopMap (m : OopMap) : Scales far (addOopMap m) := by
  refine scales_of (fun {t a r a'} h => ?_) (fun {t t' b c r b'} hfits h hw => ?_) fun {t t' a b r b'} hl h => ?_
  · rcases addOopMap_cases h with ⟨-, rfl⟩ | ⟨-, maps, -, rfl⟩
    · exact persists_refl _
    · exact ⟨id, rfl, rfl⟩
  · rcases addOopMap_cases h with ⟨hf, rfl⟩ | ⟨hf, maps, hmaps, rfl⟩
    · rw [hf] at hw
      cases hw
    · have hrun : addOopMap m t' (b.cropped c) = .ok ((), Assembler.cropped { b with oopMaps := maps } c) := by
        unfold addOopMap
        rw [bind_ok (show failed t' (b.cropped c) = .ok (b.buf.failed, b.cropped c) from rfl), hf, if_neg (by decide)]
        refine change_ok ?_
        show (b.oopMaps.add _ m >>= _) = _
        rw [show b.oopMaps.add (Int64.ofNat (b.cropped c).buf.offset) m = .ok maps from hmaps]
        rfl
      exact ⟨_, hrun, .same ⟨hfits.le, hfits.small, hfits.offset, hfits.written⟩⟩
  · refine ⟨a, ?_, ?_⟩
    · unfold addOopMap
      rw [bind_ok (show failed t' a = .ok (a.buf.failed, a) from rfl), hl.failed]
      rfl
    · rcases addOopMap_cases h with ⟨-, rfl⟩ | ⟨-, maps, -, rfl⟩
      · exact hl
      · exact ⟨hl.failed, hl.labels, hl.inStub, hl.base⟩

end

section
variable {far : UInt64 → Prop} {a b b' : Assembler} {t t' : Target} {pred succ : Int64}

/-- The barrier is not merged into the one before it. -/
def Alone (a : Assembler) : Prop := a.mergeable? = none ∨ ∃ f, a.mergeable? = some f ∧ fenceAt? a.buf f = .ok none

/-- A barrier as a word of its own. -/
def fenced (a : Assembler) (w : UInt32) : Assembler :=
  { a with lastFence := some a.buf.offset, buf := a.buf.emit4 w }

theorem fence_alone (h : Alone a) :
    fence pred succ t a = .ok ((), fenced a (fenceWord (pred <<< 4 ||| succ))) := by
  refine change_ok ?_
  unfold Assembler.fence
  rcases h with h | ⟨f, h, hat⟩
  · rw [h]
    rfl
  · rw [h]
    show (fenceAt? a.buf f >>= _) = _
    rw [hat]
    rfl

variable {f : Nat}

theorem fence_merged {old : Int64} {buf : CodeBuffer} (h : a.mergeable? = some f)
    (hat : fenceAt? a.buf f = .ok (some old))
    (hbuf : a.buf.patch (Int64.ofNat f) (fenceWord (old ||| (pred <<< 4 ||| succ))) = .ok buf) :
    fence pred succ t a = .ok ((), { a with buf := buf }) := by
  refine change_ok ?_
  unfold Assembler.fence
  rw [h]
  show (fenceAt? a.buf f >>= _) = _
  rw [hat]
  show (a.buf.patch _ _ >>= _) = _
  rw [hbuf]
  rfl

theorem fence_eq_ok (h : fence pred succ t b = .ok ((), b')) :
    (Alone b ∧ b' = fenced b (fenceWord (pred <<< 4 ||| succ))) ∨
      ∃ f old buf, b.mergeable? = some f ∧ fenceAt? b.buf f = .ok (some old) ∧
        b.buf.patch (Int64.ofNat f) (fenceWord (old ||| (pred <<< 4 ||| succ))) = .ok buf ∧
        b' = { b with buf := buf } := by
  have hrun : b.fence pred succ = .ok b' := change_eq_ok.mp h
  unfold Assembler.fence at hrun
  dsimp only at hrun
  split at hrun
  case _ hnone =>
    cases hrun
    exact .inl ⟨.inl hnone, rfl⟩
  case _ f hf =>
    obtain ⟨o, hat, hrun⟩ := except_bind_eq_ok.mp hrun
    split at hrun
    · cases hrun
      exact .inl ⟨.inr ⟨f, hf, hat⟩, rfl⟩
    case _ old =>
      obtain ⟨buf, hbuf, hrun⟩ := except_bind_eq_ok.mp hrun
      cases hrun
      exact .inr ⟨f, old, buf, hf, hat, hbuf, rfl⟩

theorem mergeable_eq_some (h : b.mergeable? = some f) : f + 4 = b.buf.offset ∧ b.buf.failed = false := by
  unfold mergeable? at h
  split at h
  · split at h
    case _ hcond =>
      cases h
      simp only [Bool.and_eq_true, decide_eq_true_eq, Bool.not_eq_true'] at hcond
      exact ⟨hcond.1.1, hcond.2⟩
    · cases h
  · cases h

theorem fenceAt_cropped {c : Nat} (hfits : b.Fits c) (h : b.mergeable? = some f) :
    fenceAt? (b.buf.cropped c) f = fenceAt? b.buf f := by
  have hf := (mergeable_eq_some h).1
  have hoff := hfits.offset
  have hsmall := Nat.lt_of_le_of_lt hfits.le hfits.small
  have hint : (Int64.ofNat f).toInt = f := Int64.toInt_ofNat_of_lt (by omega)
  unfold fenceAt?
  rw [CodeBuffer.wordAt_cropped (by omega) hfits.le]

theorem alone_failed (hf : a.buf.failed = true) : Alone a := by
  refine .inl ?_
  unfold mergeable?
  rw [hf]
  split
  · simp
  · rfl

instance scales_fence (pred succ : Int64) : Scales far (fence pred succ) := by
  have happends := appends_emit4 (fenceWord (pred <<< 4 ||| succ))
  refine scales_of (fun {t a r a'} h => ?_) (fun {t t' b c r b'} hfits h hw => ?_) fun {t t' a b r b'} hl h => ?_
  · rcases fence_eq_ok h with ⟨-, rfl⟩ | ⟨f, old, buf, -, -, hbuf, rfl⟩
    · have hp := happends.persists { a with lastFence := some a.buf.offset }
      exact ⟨hp.failed, hp.inStub, hp.base⟩
    · have hpatched := patched_patch hbuf
      exact ⟨hpatched.failed, hpatched.inStub, hpatched.base⟩
  · rcases fence_eq_ok h with ⟨halone, rfl⟩ | ⟨f, old, buf, hm, hat, hbuf, rfl⟩
    · have halone' : Alone (b.cropped c) := halone.imp id fun ⟨f, hm, hat⟩ =>
        ⟨f, hm, (fenceAt_cropped hfits hm).trans hat⟩
      have hmarked : Fits { b with lastFence := some b.buf.offset } c :=
        ⟨hfits.le, hfits.small, hfits.offset, hfits.written⟩
      exact ⟨_, fence_alone halone', happends.shadows (.same hmarked) ((happends.persists _).working hw) hw⟩
    · have hpatched := patched_patch hbuf
      have hcropped : (b.buf.cropped c).patch (Int64.ofNat f) (fenceWord (old ||| (pred <<< 4 ||| succ))) =
          .ok (buf.cropped c) := by
        rw [CodeBuffer.patch_cropped, hbuf]
        rfl
      refine ⟨_, fence_merged (a := b.cropped c) hm ((fenceAt_cropped hfits hm).trans hat) hcropped,
        .of_eq (c := c) ⟨?_, ?_, ?_, ?_⟩ rfl⟩
      · exact Nat.le_trans hfits.le (Nat.le_of_eq hpatched.capacity.symm)
      · exact Nat.lt_of_le_of_lt (Nat.le_of_eq hpatched.capacity) hfits.small
      · exact Nat.le_trans (Nat.le_of_eq hpatched.offset) hfits.offset
      · show ∀ s ∈ b.labels.toList, ∀ u ∈ s.uses.toList, u.Within buf.offset
        rw [hpatched.offset]
        exact hfits.written
  · have hshadow : Lost (fenced a (fenceWord (pred <<< 4 ||| succ))) b' := by
      have hfailed : (fenced a (fenceWord (pred <<< 4 ||| succ))).buf = a.buf := emit4_failed hl.failed _
      rcases fence_eq_ok h with ⟨-, rfl⟩ | ⟨f, old, buf, -, -, hbuf, rfl⟩
      · exact ⟨by rw [hfailed]; exact hl.failed, hl.labels, by rw [hfailed]; exact hl.inStub.trans (happends.inStub _).symm,
          by rw [hfailed]; exact hl.base.trans (happends.base _).symm⟩
      · have hpatched := patched_patch hbuf
        exact ⟨by rw [hfailed]; exact hl.failed, hl.labels, by rw [hfailed]; exact hl.inStub.trans hpatched.inStub.symm,
          by rw [hfailed]; exact hl.base.trans hpatched.base.symm⟩
    exact ⟨_, fence_alone (alone_failed hl.failed), hshadow⟩

end

/-! ## Padding -/

section
variable {far : UInt64 → Prop} {a b b' : Assembler} {t t' : Target} {align n : Int64}

theorem padTo_persists {fuel : Nat} (h : padTo align n fuel t a = .ok ((), b)) : Persists a b := by
  induction fuel generalizing a with
  | zero =>
    cases h
    exact persists_refl _
  | succ fuel ih =>
    obtain ⟨off, a1, hoff, h⟩ := bind_eq_ok.mp h
    cases hoff
    split at h
    · exact (pure_eq_ok.mp h).2 ▸ persists_refl _
    · obtain ⟨f, a1, hf, h⟩ := bind_eq_ok.mp h
      cases hf
      split at h
      · exact (pure_eq_ok.mp h).2 ▸ persists_refl _
      · obtain ⟨_, a1, hnop, h⟩ := bind_eq_ok.mp h
        exact (persists_emit hnop).trans (ih h)

theorem padTo_failed (fuel : Nat) (hf : a.buf.failed = true) : padTo align n fuel t a = .ok ((), a) := by
  cases fuel with
  | zero => rfl
  | succ fuel =>
    unfold padTo
    rw [bind_ok (show offset t a = .ok (a.buf.offset, a) from rfl)]
    split
    · rfl
    · rw [bind_ok (show failed t a = .ok (a.buf.failed, a) from rfl), hf]
      rfl

theorem padTo_lost {fuel : Nat} (hl : Lost a b) (h : padTo align n fuel t b = .ok ((), b')) : Lost a b' := by
  induction fuel generalizing b with
  | zero =>
    cases h
    exact hl
  | succ fuel ih =>
    obtain ⟨off, b1, hoff, h⟩ := bind_eq_ok.mp h
    cases hoff
    split at h
    · exact (pure_eq_ok.mp h).2 ▸ hl
    · obtain ⟨f, b1, hf, h⟩ := bind_eq_ok.mp h
      cases hf
      split at h
      · exact (pure_eq_ok.mp h).2 ▸ hl
      · obtain ⟨_, b1, hnop, h⟩ := bind_eq_ok.mp h
        exact ih (emit_lost hl hnop) h

/-- Both buffers have the fuel to be filled up. -/
theorem padTo_same {c k k' : Nat} (hfits : b.Fits c) (hk : b.buf.capacity < b.buf.offset + 4 * k)
    (hk' : c < b.buf.offset + 4 * k') (h : padTo align n k t b = .ok ((), b')) (hw : b'.buf.failed = false) :
    ∃ a', padTo align n k' t' (b.cropped c) = .ok ((), a') ∧ Shadows a' b' := by
  have hoff := hfits.offset
  have hle := hfits.le
  induction k generalizing b k' with
  | zero => omega
  | succ k ih =>
    obtain ⟨k', rfl⟩ : ∃ j, k' = j + 1 := ⟨k' - 1, by omega⟩
    obtain ⟨off, b1, hread, h⟩ := bind_eq_ok.mp h
    cases hread
    unfold padTo
    rw [bind_ok (show offset t' (b.cropped c) = .ok (b.buf.offset, b.cropped c) from rfl)]
    split at h
    case _ hdone =>
      rw [if_pos hdone]
      obtain ⟨-, rfl⟩ := pure_eq_ok.mp h
      exact ⟨_, rfl, .same hfits⟩
    case _ hdone =>
      rw [if_neg hdone, bind_ok (show failed t' (b.cropped c) = .ok (b.buf.failed, b.cropped c) from rfl)]
      obtain ⟨f, b1, hf, h⟩ := bind_eq_ok.mp h
      cases hf
      split at h
      case _ hfailed =>
        obtain ⟨-, rfl⟩ := pure_eq_ok.mp h
        rw [hfailed] at hw
        cases hw
      case _ hworks =>
        rw [if_neg hworks]
        obtain ⟨_, b1, hnop, hrest⟩ := bind_eq_ok.mp h
        have hw1 := (padTo_persists hrest).working hw
        have hwrote := emit_written hnop hw1
        have hcheck := (emit_eq_ok.mp hnop).1
        obtain ⟨-, rfl⟩ := emit_eq_ok.mp hnop
        have happends := appends_emit4 (Op.addi.encode .zr .zr .none 0 0)
        rw [bind_ok (show nop t' (b.cropped c) = _ from emit_ok hcheck 0 0)]
        have hb : b.buf.failed = false := by simpa using hworks
        have hcap := emit4_capacity b.buf (Op.addi.encode .zr .zr .none 0 0)
        rcases happends.cropped b.buf c hb hw1 hle hoff with ⟨heq, hend⟩ | hfailed
        · have hfits1 : Fits { b with buf := b.buf.emit4 (Op.addi.encode .zr .zr .none 0 0) } c := by
            refine ⟨hcap ▸ hle, hcap ▸ hfits.small, hend, fun s hs u hu => ?_⟩
            obtain ⟨hpos, hin⟩ := hfits.written s hs u hu
            exact ⟨hpos, by rw [hwrote]; omega⟩
          rw [show ({ b.cropped c with buf := (b.cropped c).buf.emit4 (Op.addi.encode .zr .zr .none 0 0) } : Assembler) =
            Assembler.cropped { b with buf := b.buf.emit4 (Op.addi.encode .zr .zr .none 0 0) } c from
              congrArg (fun buf => ({ b.cropped c with buf := buf } : Assembler)) heq]
          refine ih hfits1 ?_ ?_ hrest hend (hcap ▸ hle)
          · rw [hwrote]
            exact hcap ▸ (by omega)
          · rw [hwrote]
            omega
        · have hl : Lost { b.cropped c with buf := (b.cropped c).buf.emit4 (Op.addi.encode .zr .zr .none 0 0) }
              { b with buf := b.buf.emit4 (Op.addi.encode .zr .zr .none 0 0) } :=
            ⟨hfailed, rfl, (happends.inStub (b.buf.cropped c)).trans (happends.inStub b.buf).symm,
              (happends.base (b.buf.cropped c)).trans (happends.base b.buf).symm⟩
          exact ⟨_, padTo_failed k' hfailed, .lost (padTo_lost hl hrest)⟩

instance scales_alignTo (align n : Int64) : Scales far (alignTo align n) := by
  have hread {t : Target} {a : Assembler} (hne : align ≠ 0) :
      alignTo align n t a = padTo align n (a.buf.remaining / 4 + 2) t a := by
    unfold alignTo
    rw [if_neg hne]
    rfl
  have hne {t : Target} {a a' : Assembler} {r : Unit} (h : alignTo align n t a = .ok (r, a')) : align ≠ 0 := by
    rintro rfl
    cases h
  refine scales_of (fun {t a r a'} h => ?_) (fun {t t' b c r b'} hfits h hw => ?_) fun {t t' a b r b'} hl h => ?_
  · rw [hread (hne h)] at h
    exact padTo_persists h
  · have hsize := hne h
    rw [hread hsize] at h ⊢
    refine padTo_same hfits ?_ ?_ h hw
    · show _ < _ + 4 * ((b.buf.capacity - b.buf.offset) / 4 + 2)
      omega
    · show _ < _ + 4 * ((c - b.buf.offset) / 4 + 2)
      omega
  · have hsize := hne h
    rw [hread hsize] at h ⊢
    exact ⟨a, padTo_failed _ hl.failed, padTo_lost hl h⟩

end

end Asm

end RiscvJit

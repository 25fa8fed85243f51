import RiscvJit.Proofs.Code.Grown

/-
  RiscvJit.Proofs.Code.Barriers — barriers that are asked for one after the other.

  A barrier asked for right after another one is merged into it, which changes a word that was already
  written. What separates two barriers is an instruction or a label that is bound (`Request.cuts`); entry
  points, maps and the brackets of stubs do not. So requests fall into runs, and

    - all barriers of a run become one word, which orders what any of them orders (`Fenced`, and
      `Fenced.membar` for one more barrier);
    - behind a request that cuts there is nothing to merge into (`cut_seals`), so the word stays as it is
      whatever is asked for later (`barriers_merge_by_runs`).
-/

namespace RiscvJit

open Asm
open MemoryOrder

/-! ## What a barrier orders -/

/-- An access to memory. -/
inductive Access where
  | load
  | store
  deriving DecidableEq, Repr

/-- Accesses of one kind before accesses of another. -/
def Access.order : Access → Access → MemoryOrder
  | .load, .load => loadLoad
  | .load, .store => loadStore
  | .store, .load => storeLoad
  | .store, .store => storeStore

namespace Barrier

/-- The order asks that accesses of this kind come before some others. -/
def before (o : MemoryOrder) (x : Access) : Bool := o &&& x.order .load ≠ 0 || o &&& x.order .store ≠ 0

/-- The order asks that accesses of this kind come after some others. -/
def after (o : MemoryOrder) (x : Access) : Bool := o &&& Access.order .load x ≠ 0 || o &&& Access.order .store x ≠ 0

/-- The order asks for something. -/
def asks (o : MemoryOrder) : Bool := before o .load || before o .store

/-- The bits of a set of accesses in a barrier. -/
def bits (loads stores : Bool) : Int64 := (if loads then fenceReads else 0) ||| (if stores then fenceWrites else 0)

/-- The two sets that several orders ask for together, as a barrier holds them. -/
def sets (os : List MemoryOrder) : Int64 :=
  bits (os.any (before · .load)) (os.any (before · .store)) <<< 4 |||
    bits (os.any (after · .load)) (os.any (after · .store))

/-- The code of barriers with nothing in between: one of them, unless nothing is ordered. -/
def code (os : List MemoryOrder) : List UInt32 := if os.any asks then [Assembler.fenceWord (sets os)] else []

section
variable {os : List MemoryOrder} {o : MemoryOrder}

theorem fenceSets_eq (o : MemoryOrder) :
    fenceSets o = (bits (before o .load) (before o .store), bits (after o .load) (after o .store)) := by
  have h : ∀ n : Fin 256, fenceSets ⟨⟨n⟩⟩ = (bits (before ⟨⟨n⟩⟩ .load) (before ⟨⟨n⟩⟩ .store),
      bits (after ⟨⟨n⟩⟩ .load) (after ⟨⟨n⟩⟩ .store)) := by decide +kernel
  exact h o.toFin

theorem bits_ne_zero_iff : ∀ loads stores, bits loads stores ≠ 0 ↔ (loads || stores) = true := by decide

theorem bits_or : ∀ a b c d, bits a b ||| bits c d = bits (a || c) (b || d) := by decide

theorem decode_bits : ∀ a b c d, decode (Assembler.fenceWord (bits a b <<< 4 ||| bits c d)) =
    some { op := .fence, rd := .none, rs1 := .none, rs2 := .none, imm := bits a b <<< 4 ||| bits c d } := by decide +kernel

theorem sets_snoc (os : List MemoryOrder) (o : MemoryOrder) :
    sets (os ++ [o]) = sets os ||| ((fenceSets o).1 <<< 4 ||| (fenceSets o).2) := by
  have hshift (x y : Int64) : (x ||| y) <<< 4 = x <<< 4 ||| y <<< 4 := by
    apply Int64.toBitVec_inj.mp
    simp [BitVec.shiftLeft_or_distrib]
  have hswap (a b c d : Int64) : (a ||| b) ||| (c ||| d) = (a ||| c) ||| (b ||| d) := by ac_rfl
  simp only [sets, List.any_append, List.any_cons, List.any_nil, Bool.or_false, fenceSets_eq, ← bits_or, hshift]
  exact hswap _ _ _ _

theorem asks_of_after {x : Access} (h : after o x = true) : asks o = true := by
  unfold after at h
  unfold asks before
  cases x with
  | load =>
    rcases Bool.or_eq_true_iff.mp h with h | h
    · simp [h]
    · simp [h]
  | store =>
    rcases Bool.or_eq_true_iff.mp h with h | h
    · simp [h]
    · simp [h]

theorem code_snoc_idle (h : asks o = false) : code (os ++ [o]) = code os := by
  have hbefore (x : Access) : before o x = false := by
    unfold asks at h
    cases x <;> simp_all
  have hafter (x : Access) : after o x = false := by
    cases hx : after o x with
    | false => rfl
    | true => rw [asks_of_after hx] at h; cases h
  simp [code, sets, h, hbefore, hafter]

theorem sets_first (h : os.any asks = false) :
    sets (os ++ [o]) = (fenceSets o).1 <<< 4 ||| (fenceSets o).2 := by
  have hbefore (x : Access) : os.any (before · x) = false := by
    rw [List.any_eq_false] at h ⊢
    intro o' ho' hx
    refine h o' ho' ?_
    unfold asks
    cases x <;> simp [hx]
  have hafter (x : Access) : os.any (after · x) = false := by
    rw [List.any_eq_false] at h ⊢
    exact fun o' ho' hx => h o' ho' (asks_of_after hx)
  simp [sets, hbefore, hafter, fenceSets_eq]

/-- The barrier is an instruction with the sets that were asked for. -/
theorem decode_sets (os : List MemoryOrder) :
    decode (Assembler.fenceWord (sets os)) =
      some { op := .fence, rd := .none, rs1 := .none, rs2 := .none, imm := sets os } := decode_bits ..

theorem mem_code {w : UInt32} (h : w ∈ code os) : w = Assembler.fenceWord (sets os) := by
  unfold code at h
  split at h
  · exact List.mem_singleton.mp h
  · cases h

end

end Barrier

/-! ## Requests -/

namespace Assembler

/-- Something asked of an assembler: an item that is no barrier, a comment, or the barrier that enforces an order. -/
inductive Request where
  | item (i : Item)
  | comment (text : String)
  | membar (order : MemoryOrder)

namespace Request

def run : Request → Asm Unit
  | .item i => i.run
  | .comment text => Asm.comment text
  | .membar order => Asm.membar order

/-- Branches are made by branch instructions, and barriers are only asked for by their order. -/
def Proper : Request → Prop
  | .item i => i.Proper ∧ ∀ w, i ≠ .barrier w
  | _ => True

/-- An instruction, or a label that is bound. -/
def cuts : Request → Bool
  | .item (.word _) => true
  | .item (.call c) => c ≠ .newLabel
  | _ => false

/-- The order that is asked for. -/
def order? : Request → Option MemoryOrder
  | .membar order => some order
  | _ => none

end Request

/-- Requests one after the other. -/
def ask (rs : List Request) : Asm Unit := rs.forM Request.run

/-- The orders asked for by requests. -/
def orders (rs : List Request) : List MemoryOrder := rs.filterMap Request.order?

section
variable {t : Target} {a b c : Assembler} {r : Request} {rs qs : List Request}

theorem ask_cons : ask (r :: rs) t a = .ok ((), c) ↔ ∃ b, r.run t a = .ok ((), b) ∧ ask rs t b = .ok ((), c) := by
  show (r.run >>= fun _ => ask rs) t a = .ok ((), c) ↔ _
  rw [bind_eq_ok]
  constructor
  · rintro ⟨_, b, h⟩
    exact ⟨b, h⟩
  · rintro ⟨b, h⟩
    exact ⟨(), b, h⟩

theorem ask_append :
    ask (rs ++ qs) t a = .ok ((), c) ↔ ∃ b, ask rs t a = .ok ((), b) ∧ ask qs t b = .ok ((), c) := by
  induction rs generalizing a with
  | nil =>
    constructor
    · intro h
      exact ⟨a, rfl, h⟩
    · rintro ⟨b, hb, h⟩
      cases hb
      exact h
  | cons r rs ih =>
    rw [List.cons_append, ask_cons]
    constructor
    · rintro ⟨a', hr, hrest⟩
      obtain ⟨b, hb, hc⟩ := ih.mp hrest
      exact ⟨b, ask_cons.mpr ⟨a', hr, hb⟩, hc⟩
    · rintro ⟨b, hb, hc⟩
      obtain ⟨a', hr, hrest⟩ := ask_cons.mp hb
      exact ⟨a', hr, ih.mpr ⟨b, hrest, hc⟩⟩

theorem ask_one : ask [r] t a = .ok ((), b) ↔ r.run t a = .ok ((), b) := by
  rw [ask_cons]
  constructor
  · rintro ⟨a', hr, h⟩
    cases h
    exact hr
  · intro h
    exact ⟨b, h, rfl⟩

theorem Request.grown (hp : r.Proper) (h : r.run t a = .ok ((), b)) : Grown t a b := by
  cases r with
  | membar order => exact (grows_of_composed (Asm.membar order)).grown h
  | comment text => exact (grows_comment text).grown h
  | item i =>
    by_cases hi : ∃ m, i = .map m
    · obtain ⟨m, rfl⟩ := hi
      rcases addOopMap_cases h with ⟨-, rfl⟩ | ⟨-, maps, hmaps, rfl⟩
      · exact .refl
      · exact .single (.map hmaps rfl)
    · exact .single (.step (.item hp.1 (fun m e => hi ⟨m, e⟩) h))

theorem grown_ask (hp : ∀ r ∈ rs, r.Proper) (h : ask rs t a = .ok ((), b)) : Grown t a b := by
  induction rs generalizing a with
  | nil => cases h; exact .refl
  | cons r rs ih =>
    obtain ⟨a', hr, hrest⟩ := ask_cons.mp h
    exact (Request.grown (hp r List.mem_cons_self) hr).trans (ih (fun q hq => hp q (List.mem_cons_of_mem _ hq)) hrest)

/-! ## What separates barriers -/

theorem length_after {L : Layout} {k : Call} (hk : k.Proper) (hnew : k ≠ .newLabel) (hbind : ∀ l, k ≠ .bind l) :
    L.pieces.length < (L.after k).pieces.length := by
  cases k with
  | newLabel => exact absurd rfl hnew
  | bind l => exact absurd rfl (hbind l)
  | bcond o rs1 rs2 l =>
    show _ < (if L.near l then _ else _ : Layout).pieces.length
    split <;> simp [Layout.write]
  | _ => simp [Layout.after, Layout.write]

/-- Behind an instruction or a bound label there is no barrier to merge into. -/
theorem cut_seals {L : Layout} (hL : Holds L a) (hb : a.Behind) (hp : r.Proper) (hcut : r.cuts = true)
    (h : r.run t a = .ok ((), b)) (hw : b.buf.failed = false) :
    b.Behind ∧ b.mergeable? = none ∧ ∃ L', Holds L' b ∧ L.pieces <+: L'.pieces := by
  cases r with
  | membar order => cases hcut
  | comment text => cases hcut
  | item i =>
    have hbehind := Item.behind h hb
    have hL' := Item.holds hL hp.1 h hw
    refine ⟨hbehind, ?_, _, hL', pieces_add L i⟩
    have hwa : a.buf.failed = false := hL.spells.working
    -- what writes a piece leaves the last barrier further behind
    have written (hsame : b.lastFence = a.lastFence) (hlonger : L.pieces.length < (L.add i).pieces.length) :
        b.mergeable? = none := by
      refine mergeable_none_of_spaced fun _ f hf => ?_
      have hlast := hb hwa f (hsame ▸ hf)
      have hbefore := hL.offset
      have hafter := hL'.offset
      omega
    cases i with
    | word w =>
      cases h
      exact written rfl (by simp [Layout.add, Layout.write])
    | call k =>
      have hnew : k ≠ .newLabel := of_decide_eq_true hcut
      by_cases hbind : ∃ l, k = .bind l
      · obtain ⟨l, rfl⟩ := hbind
        obtain ⟨s, buf, -, -, hbuf, rfl⟩ := bindLabel_eq_ok (t := t) h
        refine mergeable_none_of_bound ?_
        show some a.buf.offset = some buf.offset
        rw [(patched_patchUses hbuf).offset]
      · exact written (k.codeOnly t a () b h).fence (length_after hp.1 hnew fun l e => hbind ⟨l, e⟩)
    | barrier w => exact absurd rfl (hp.2 w)
    | entry _ => cases hcut
    | map _ => cases hcut
    | stub _ _ => cases hcut
    | endStub => cases hcut

/-! ## Where labels are bound -/

/-- Labels were bound at offsets that were reached. -/
def Reached (a : Assembler) : Prop := ∀ p, a.lastBind = some p → p ≤ a.buf.offset

/-- Work that binds no label. -/
def Unbinding {α : Type} (x : Asm α) : Prop := ∀ t a r a', x t a = .ok (r, a') → a'.lastBind = a.lastBind

variable {α : Type}

theorem Unbinding.bind {β : Type} {x : Asm α} {f : α → Asm β} (hx : Unbinding x) (hf : ∀ r, Unbinding (f r)) :
    Unbinding (x >>= f) := by
  intro t a s a' h
  obtain ⟨r, b, hr, hs⟩ := bind_eq_ok.mp h
  exact (hf r t b s a' hs).trans (hx t a r b hr)

theorem unbinding_pure (r : α) : Unbinding (pure r : Asm α) := fun _ _ _ _ h => by cases h; rfl

theorem unbinding_get : Unbinding (get : Asm Assembler) := fun _ _ _ _ h => by cases h; rfl

theorem unbinding_offset : Unbinding offset := fun _ _ _ _ h => by cases h; rfl

theorem unbinding_lift (e : Except Fault α) : Unbinding (liftM e : Asm α) := by
  intro t a r a' h
  rw [(lift_eq_ok.mp h).2]

theorem unbinding_emit (o : Op) (rd rs1 rs2 : Reg) (imm : Int64) (aqrl : UInt32) :
    Unbinding (emit o rd rs1 rs2 imm aqrl) := by
  intro t a r a' h
  obtain ⟨-, rfl⟩ := emit_eq_ok.mp h
  rfl

theorem unbinding_refer (l : Label) (off : Int64) (kind : UInt8) : Unbinding (Asm.refer l off kind) := by
  intro t a r a' h
  obtain ⟨s, -, h⟩ := except_bind_eq_ok.mp (change_eq_ok.mp h)
  split at h
  · obtain ⟨b, -, h⟩ := except_bind_eq_ok.mp h
    cases h
    rfl
  · cases h
    rfl

theorem unbinding_branch (o : Op) (rs1 rs2 : Reg) (l : Label) : Unbinding (Asm.branch o rs1 rs2 l) :=
  unbinding_offset.bind fun _ => (unbinding_emit _ _ _ _ _ _).bind fun _ => unbinding_refer _ _ _

theorem unbinding_jal (rd : Reg) (l : Label) : Unbinding (Asm.jal rd l) :=
  unbinding_offset.bind fun _ => (unbinding_emit _ _ _ _ _ _).bind fun _ => unbinding_refer _ _ _

theorem unbinding_isNear (l : Label) : Unbinding (isNear l) := by
  refine unbinding_get.bind fun a => (unbinding_lift _).bind fun s => ?_
  split <;> exact unbinding_pure _

theorem unbinding_call {k : Call} (hk : ∀ l, k ≠ .bind l) : Unbinding k.run := by
  cases k with
  | plain o rd rs1 rs2 imm aqrl => exact unbinding_emit _ _ _ _ _ _
  | branch o rs1 rs2 l => exact unbinding_branch _ _ _ _
  | jal rd l => exact unbinding_jal _ _
  | la rd l =>
    exact unbinding_offset.bind fun _ => (unbinding_emit _ _ _ _ _ _).bind fun _ =>
      (unbinding_emit _ _ _ _ _ _).bind fun _ =>
      unbinding_refer _ _ _
  | newLabel => exact fun _ _ _ _ h => by cases h; rfl
  | bind l => exact absurd rfl (hk l)
  | bcond o rs1 rs2 l =>
    refine (unbinding_isNear l).bind fun near => ?_
    split
    · exact unbinding_branch _ _ _ _
    · exact (unbinding_lift _).bind fun _ => (unbinding_emit _ _ _ _ _ _).bind fun _ => unbinding_jal _ _

theorem Request.reached (hp : r.Proper) (h : r.run t a = .ok ((), b)) (ha : a.Reached) : b.Reached := by
  have same (hbind : b.lastBind = a.lastBind) (hoff : a.buf.offset ≤ b.buf.offset) : b.Reached := by
    intro p hpos
    exact Nat.le_trans (ha p (hbind ▸ hpos)) hoff
  cases r with
  | comment text => cases h; exact ha
  | membar order =>
    change Asm.membar order t a = .ok ((), b) at h
    unfold Asm.membar at h
    dsimp only at h
    split at h
    · rcases fence_eq_ok h with ⟨-, rfl⟩ | ⟨f, old, buf, -, -, hbuf, rfl⟩
      · exact same rfl (offset_emit4 _ _)
      · exact same rfl (Nat.le_of_eq (patched_patch hbuf).offset.symm)
    · obtain ⟨-, rfl⟩ := pure_eq_ok.mp h
      exact ha
  | item i =>
    have hoff := (Item.steady h).offset
    cases i with
    | word w => cases h; exact same rfl hoff
    | barrier w => exact absurd rfl (hp.2 w)
    | entry name => cases h; exact same rfl hoff
    | map m => rcases addOopMap_cases h with ⟨-, rfl⟩ | ⟨-, maps, -, rfl⟩ <;> exact same rfl hoff
    | stub name size =>
      obtain ⟨ok, a1, hstart, e⟩ := bind_eq_ok.mp h
      obtain ⟨-, rfl⟩ := pure_eq_ok.mp e
      obtain ⟨buf, rfl, -⟩ := startStub_cases hstart
      exact same rfl hoff
    | endStub =>
      obtain ⟨-, rfl⟩ := endStub_eq_ok (t := t) h
      exact same rfl hoff
    | call k =>
      by_cases hbind : ∃ l, k = .bind l
      · obtain ⟨l, rfl⟩ := hbind
        obtain ⟨s, buf, -, -, hbuf, rfl⟩ := bindLabel_eq_ok (t := t) h
        intro p hpos
        cases hpos
        exact Nat.le_of_eq (patched_patchUses hbuf).offset.symm
      · exact same (unbinding_call (fun l e => hbind ⟨l, e⟩) t a () b h) hoff

theorem reached_ask (hp : ∀ r ∈ rs, r.Proper) (h : ask rs t a = .ok ((), b)) (ha : a.Reached) : b.Reached := by
  induction rs generalizing a with
  | nil => cases h; exact ha
  | cons r rs ih =>
    obtain ⟨a', hr, hrest⟩ := ask_cons.mp h
    exact ih (fun q hq => hp q (List.mem_cons_of_mem _ hq)) hrest (Request.reached (hp r List.mem_cons_self) hr ha)

/-! ## Runs of barriers -/

open Barrier (asks sets code)

/-- The code ends with what a run of barriers leaves, and the next barrier is merged into it. -/
structure Fenced (ws : List UInt32) (os : List MemoryOrder) (a : Assembler) : Prop where
  behind : a.Behind
  reached : a.Reached
  layout : ∃ L, Holds L a ∧ L.words = ws ++ code os ∧ ∀ w ∈ code os, L.pieces[ws.length]? = some (.word w)
  last : a.mergeable? = if os.any asks then some (4 * ws.length) else none

section
variable {ws : List UInt32} {os : List MemoryOrder} {o : MemoryOrder}

theorem fenced_start {L : Layout} (hL : Holds L a) (hb : a.Behind) (hr : a.Reached) (hm : a.mergeable? = none) :
    Fenced L.words [] a :=
  ⟨hb, hr, ⟨L, hL, (List.append_nil _).symm, fun _ h => nomatch h⟩, hm⟩

theorem words_fresh (L : Layout) : L.fresh.words = L.words :=
  spelled_congr fun k p _ => congrArg p.encode (Layout.distance_fresh p k)

/-- What neither writes nor binds keeps the barrier open. -/
theorem Fenced.idle (h : Fenced ws os a) {i : Item} (hp : (Request.item i).Proper) (hidle : (Request.item i).cuts = false)
    (hrun : i.run t a = .ok ((), b)) (hw : b.buf.failed = false) : Fenced ws os b := by
  obtain ⟨L, hL, hwords, hpiece⟩ := h.layout
  have hwa := hL.spells.working
  have hL' := Item.holds hL hp.1 hrun hw
  have kept (hlayout : (L.add i).words = L.words ∧ (L.add i).pieces = L.pieces) (hfence : b.lastFence = a.lastFence)
      (hbind : b.lastBind = a.lastBind) (hoff : b.buf.offset = a.buf.offset) : Fenced ws os b := by
    refine ⟨Item.behind hrun h.behind, Request.reached hp hrun h.reached, ⟨_, hL', hlayout.1.trans hwords, ?_⟩, ?_⟩
    · rw [hlayout.2]
      exact hpiece
    · rw [← h.last]
      unfold mergeable?
      rw [hfence, hbind, hoff, hw, hwa]
  cases i with
  | word w => cases hidle
  | barrier w => exact absurd rfl (hp.2 w)
  | call k =>
    have hnew : k = .newLabel := Decidable.of_not_not (of_decide_eq_false hidle)
    subst hnew
    cases hrun
    exact kept ⟨words_fresh L, rfl⟩ rfl rfl rfl
  | entry name => cases hrun; exact kept ⟨rfl, rfl⟩ rfl rfl rfl
  | map m =>
    rcases addOopMap_cases hrun with ⟨-, rfl⟩ | ⟨-, maps, -, rfl⟩ <;> exact kept ⟨rfl, rfl⟩ rfl rfl rfl
  | stub name size =>
    obtain ⟨ok, a1, hstart, e⟩ := bind_eq_ok.mp hrun
    obtain ⟨-, rfl⟩ := pure_eq_ok.mp e
    obtain ⟨buf, rfl, hbytes, -⟩ := startStub_cases hstart
    exact kept ⟨rfl, rfl⟩ rfl rfl (congrArg Array.size hbytes)
  | endStub =>
    obtain ⟨-, rfl⟩ := endStub_eq_ok (t := t) hrun
    exact kept ⟨rfl, rfl⟩ rfl rfl rfl

theorem fenceSets_ne_zero_iff : (fenceSets o).1 ≠ 0 ↔ asks o = true := by
  rw [Barrier.fenceSets_eq]
  exact Barrier.bits_ne_zero_iff _ _

theorem membar_eq (ho : asks o = true) : Asm.membar o = Asm.fence (fenceSets o).1 (fenceSets o).2 :=
  if_pos (fenceSets_ne_zero_iff.mpr ho)

theorem membar_idle (ho : asks o = false) : Asm.membar o = pure () :=
  if_neg (mt fenceSets_ne_zero_iff.mp (Bool.eq_false_iff.mp ho))

theorem Fenced.comment (h : Fenced ws os a) (text : String) : Fenced ws os (a.comment text) := by
  obtain ⟨L, hL, hcode⟩ := h.layout
  exact ⟨h.behind, h.reached, ⟨L, ⟨hL.spells, hL.labels, hL.sound, hL.reaches⟩, hcode⟩, h.last⟩

/-- The first barrier of a run is a word of its own. -/
theorem Fenced.first (h : Fenced ws os a) (hnone : os.any asks = false) (ho : asks o = true)
    (hrun : Asm.membar o t a = .ok ((), b)) (hw : b.buf.failed = false) : Fenced ws (os ++ [o]) b := by
  obtain ⟨L, hL, hwords, -⟩ := h.layout
  have hseal : a.mergeable? = none := by rw [h.last, hnone]; rfl
  have hcode : code os = [] := by rw [code, hnone]; rfl
  have hany : (os ++ [o]).any asks = true := by simp [ho]
  have hlater : code (os ++ [o]) = [fenceWord (sets (os ++ [o]))] := by rw [code, if_pos hany]
  rw [hcode, List.append_nil] at hwords
  have hlen : L.pieces.length = ws.length := by rw [← Layout.length_words, hwords]
  have hb := fence_sealed hseal (membar_eq ho ▸ hrun)
  rw [← Barrier.sets_first hnone] at hb
  have hitem : (Item.barrier (fenceWord (sets (os ++ [o])))).run t a = .ok ((), b) := by rw [hb]; rfl
  have hL' := Item.holds (i := .barrier _) hL trivial hitem hw
  have hoff : b.buf.offset = a.buf.offset + 4 := by
    rw [hL'.offset, hL.offset]
    simp [Layout.add, Layout.write]
    omega
  refine ⟨Item.behind hitem h.behind, Request.reached (r := .membar o) trivial hrun h.reached, ⟨_, hL', ?_, ?_⟩, ?_⟩
  · rw [hlater, ← hwords]
    exact Layout.words_write _
  · rw [hlater, ← hlen]
    intro w hmem
    rw [List.mem_singleton.mp hmem]
    exact List.getElem?_concat_length ..
  · rw [hany, if_pos rfl, mergeable_eq_some_iff, ← hlen, ← hL.offset]
    refine ⟨by rw [hb], hoff.symm, fun hbind => ?_, hw⟩
    have hbefore : b.lastBind = a.lastBind := by rw [hb]
    have := h.reached _ (hbefore ▸ hbind)
    omega

theorem Fenced.merged (h : Fenced ws os a) (hsome : os.any asks = true) (ho : asks o = true)
    (hrun : Asm.membar o t a = .ok ((), b)) (hw : b.buf.failed = false) : Fenced ws (os ++ [o]) b := by
  obtain ⟨L, hL, hwords, hpiece⟩ := h.layout
  have hcode : code os = [fenceWord (sets os)] := by rw [code, if_pos hsome]
  have hany : (os ++ [o]).any asks = true := by simp [ho]
  have hlater : code (os ++ [o]) = [fenceWord (sets (os ++ [o]))] := by rw [code, if_pos hany]
  have hmerge : a.mergeable? = some (4 * ws.length) := by rw [h.last, hsome]; rfl
  have hk : L.pieces[ws.length]? = some (.word (fenceWord (sets os))) :=
    hpiece _ (by rw [hcode]; exact List.mem_singleton_self _)
  have hat : fenceAt? a.buf (4 * ws.length) = .ok (some (sets os)) := by
    refine except_bind_eq_ok.mpr ⟨_, hL.wordAt hk, ?_⟩
    rw [Piece.encode, Barrier.decode_sets]
    rfl
  rcases fence_eq_ok (membar_eq ho ▸ hrun) with ⟨halone, -⟩ | ⟨f, old, buf, hf, hold, hbuf, rfl⟩
  · rcases halone with hnone | ⟨f, hf, hnone⟩
    · rw [hmerge] at hnone
      cases hnone
    · rw [hmerge] at hf
      cases hf
      rw [hat] at hnone
      cases hnone
  · rw [hmerge] at hf
    cases hf
    rw [hat] at hold
    cases hold
    rw [← Barrier.sets_snoc] at hbuf
    have hL' := hL.reword hk hbuf
    have hpatched := patched_patch hbuf
    obtain ⟨hfence, hend, hbind, -⟩ := mergeable_eq_some_iff.mp hmerge
    refine ⟨fun _ f hf => ?_, Request.reached (r := .membar o) trivial hrun h.reached, ⟨_, hL', ?_, ?_⟩, ?_⟩
    · exact Nat.le_trans (h.behind hL.spells.working f hf) (Nat.le_of_eq hpatched.offset.symm)
    · rw [Layout.words_reword hk, hwords, hcode, hlater, List.set_append_right _ _ (Nat.le_refl _), Nat.sub_self]
      rfl
    · rw [hlater]
      intro w hmem
      rw [List.mem_singleton.mp hmem]
      exact List.getElem?_set_self (List.getElem?_eq_some_iff.mp hk).1
    · rw [hany, if_pos rfl, mergeable_eq_some_iff]
      exact ⟨hfence, hend.trans hpatched.offset.symm, hpatched.offset ▸ hbind, hw⟩

theorem Fenced.membar (h : Fenced ws os a) (hrun : Asm.membar o t a = .ok ((), b)) (hw : b.buf.failed = false) :
    Fenced ws (os ++ [o]) b := by
  cases ho : asks o with
  | false =>
    rw [membar_idle ho] at hrun
    cases hrun
    refine ⟨h.behind, h.reached, ?_, ?_⟩
    · rw [Barrier.code_snoc_idle ho]
      exact h.layout
    · rw [List.any_append, h.last]
      simp [ho]
  | true =>
    cases hany : os.any asks with
    | false => exact h.first hany ho hrun hw
    | true => exact h.merged hany ho hrun hw

/-- A run of requests that do not cut leaves one barrier for all of its orders. -/
theorem Fenced.run (h : Fenced ws os a) (hp : ∀ r ∈ rs, r.Proper) (hidle : ∀ r ∈ rs, r.cuts = false)
    (hrun : ask rs t a = .ok ((), b)) (hw : b.buf.failed = false) : Fenced ws (os ++ orders rs) b := by
  induction rs generalizing a os with
  | nil =>
    cases hrun
    rw [orders, List.filterMap_nil, List.append_nil]
    exact h
  | cons r rs ih =>
    obtain ⟨a', hr, hrest⟩ := ask_cons.mp hrun
    have hp' : ∀ q ∈ rs, q.Proper := fun q hq => hp q (List.mem_cons_of_mem _ hq)
    have hidle' : ∀ q ∈ rs, q.cuts = false := fun q hq => hidle q (List.mem_cons_of_mem _ hq)
    have hw' := (grown_ask hp' hrest).working hw
    cases r with
    | comment text =>
      cases hr
      exact ih (h.comment text) hp' hidle' hrest
    | item i => exact ih (h.idle (hp _ List.mem_cons_self) (hidle _ List.mem_cons_self) hr hw') hp' hidle' hrest
    | membar o =>
      have := ih (h.membar hr hw') hp' hidle' hrest
      rwa [List.append_assoc] at this

end

/-! ## The whole code -/

/-- Before a run there is nothing to merge into: it starts the code, or follows something that cuts. -/
theorem fenced_before {L0 : Layout} (hL0 : Holds L0 a) (hfence : a.lastFence = none) (hbind : a.lastBind = none)
    (hp : ∀ r ∈ rs, r.Proper) (hlast : ∀ r ∈ rs.getLast?, r.cuts = true) (hrun : ask rs t a = .ok ((), b))
    (hw : b.buf.failed = false) : ∃ ws, Fenced ws [] b := by
  have hb : a.Behind := fun _ f hf => by rw [hfence] at hf; cases hf
  have hr : a.Reached := fun p hpos => by rw [hbind] at hpos; cases hpos
  have hm : a.mergeable? = none := by rw [mergeable?, hfence]
  rcases List.eq_nil_or_concat rs with rfl | ⟨qs, r, rfl⟩
  · cases hrun
    exact ⟨_, fenced_start hL0 hb hr hm⟩
  · rw [List.concat_eq_append] at hp hlast hrun
    obtain ⟨c, hqs, hlastrun⟩ := ask_append.mp hrun
    have hpq : ∀ q ∈ qs, q.Proper := fun q hq => hp q (List.mem_append_left _ hq)
    have hpr : r.Proper := hp r (List.mem_append_right _ (List.mem_singleton_self r))
    have hr' := ask_one.mp hlastrun
    have hwc := (Request.grown hpr hr').working hw
    obtain ⟨L, hL, -⟩ := (grown_ask hpq hqs).anchored (anchored_of_holds hL0 hb hm) hwc
    obtain ⟨hb', hm', L', hL', -⟩ := cut_seals hL.holds hL.behind hpr (hlast r (by simp)) hr' hw
    exact ⟨_, fenced_start hL' hb' (reached_ask hp hrun hr) hm'⟩

/-- What a run left stays when something cuts behind it, whatever follows. -/
theorem Fenced.stays {ws : List UInt32} {os : List MemoryOrder} (h : Fenced ws os a) (hp : ∀ r ∈ rs, r.Proper)
    (hfirst : ∀ r ∈ rs.head?, r.cuts = true) (hrun : ask rs t a = .ok ((), b)) (hw : b.buf.failed = false) :
    ∃ final, b.buf.Spells final ∧ ∀ w ∈ code os, final[ws.length]? = some w := by
  obtain ⟨L, hL, -, hpiece⟩ := h.layout
  -- a word at its place in the layout is a word of the code
  have spelled {L' : Layout} (hL' : Holds L' b) (hkept : L.pieces <+: L'.pieces) :
      ∃ final, b.buf.Spells final ∧ ∀ w ∈ code os, final[ws.length]? = some w := by
    refine ⟨_, hL'.spells, fun w hmem => ?_⟩
    have hk := hpiece w hmem
    obtain ⟨rest, hrest⟩ := hkept
    rw [Layout.words, getElem?_spelled, ← hrest, List.getElem?_append_left (List.getElem?_eq_some_iff.mp hk).1, hk]
    rfl
  cases rs with
  | nil =>
    cases hrun
    exact spelled hL (List.prefix_refl _)
  | cons r rs =>
    obtain ⟨c, hr, hrest⟩ := ask_cons.mp hrun
    have hp' : ∀ q ∈ rs, q.Proper := fun q hq => hp q (List.mem_cons_of_mem _ hq)
    have hgrown := grown_ask hp' hrest
    obtain ⟨hb', hm', L', hL', hkept⟩ :=
      cut_seals hL h.behind (hp r List.mem_cons_self) (hfirst r rfl) hr (hgrown.working hw)
    obtain ⟨L'', hL'', hkeeps⟩ := hgrown.anchored (anchored_of_holds hL' hb' hm') hw
    exact spelled hL''.holds (hkept.trans hkeeps.extends)

/-- Requests on a new buffer fall into runs without an instruction or a bound label in between. Whatever comes
before and after, the barriers of a run add one word to the code, with the sets that its orders ask for together, or none
when they ask for nothing; no other word changes, also not while the run goes on. When the run is over, that word
stays as it is. -/
theorem barriers_merge_by_runs {name : String} {base : UInt64} {capacity : Int64} {buf : CodeBuffer}
    (hbuf : CodeBuffer.create name base capacity = .ok buf) (t : Target) {before run rest : List Request} {z : Assembler}
    (hp : ∀ r ∈ before ++ run ++ rest, r.Proper) (hrun : ask (before ++ run ++ rest) t { buf } = .ok ((), z))
    (hw : z.buf.failed = false) (hbefore : ∀ r ∈ before.getLast?, r.cuts = true) (hidle : ∀ r ∈ run, r.cuts = false) :
    ∃ a b ws, ask before t { buf } = .ok ((), a) ∧ ask run t a = .ok ((), b) ∧ ask rest t b = .ok ((), z) ∧
      a.buf.Spells ws ∧ b.buf.Spells (ws ++ code (orders run)) ∧
      (∀ w ∈ code (orders run), decode w =
        some { op := .fence, rd := .none, rs1 := .none, rs2 := .none, imm := sets (orders run) }) ∧
      ((∀ r ∈ rest.head?, r.cuts = true) →
        ∃ final, z.buf.Spells final ∧ ∀ w ∈ code (orders run), final[ws.length]? = some w) := by
  obtain ⟨b, hfirst, hrest⟩ := ask_append.mp hrun
  obtain ⟨a, hstart, hmiddle⟩ := ask_append.mp hfirst
  have hp1 : ∀ r ∈ before, r.Proper := fun r hr => hp r (by simp [hr])
  have hp2 : ∀ r ∈ run, r.Proper := fun r hr => hp r (by simp [hr])
  have hp3 : ∀ r ∈ rest, r.Proper := fun r hr => hp r (by simp [hr])
  have hwb := (grown_ask hp3 hrest).working hw
  have hwa := (grown_ask hp2 hmiddle).working hwb
  obtain ⟨ws, hfenced⟩ := fenced_before (holds_create hbuf) rfl rfl hp1 hbefore hstart hwa
  have hended := hfenced.run hp2 hidle hmiddle hwb
  rw [List.nil_append] at hended
  obtain ⟨L, hL, hwords, -⟩ := hfenced.layout
  obtain ⟨L', hL', hwords', -⟩ := hended.layout
  rw [show code [] = [] from rfl, List.append_nil] at hwords
  refine ⟨a, b, ws, hstart, hmiddle, hrest, hwords ▸ hL.spells, hwords' ▸ hL'.spells, fun w hmem => ?_, fun hcut => ?_⟩
  · rw [Barrier.mem_code hmem]
    exact Barrier.decode_sets _
  · exact hended.stays hp3 hcut hrest hw

/-- A label that is bound keeps the third of these barriers apart from the first two. -/
theorem two_barriers_become_one :
    let buf : CodeBuffer := { name := "barriers", base := 0, capacity := 64 }
    let run := [.item (.call .newLabel), .membar loadLoad, .membar storeStore]
    let rest := [.item (.call (.bind 1)), .membar loadLoad]
    ∃ z, ask ([] ++ run ++ rest) ⟨{}, .empty⟩ { buf } = .ok ((), z) ∧ z.buf.failed = false ∧ z.buf.offset = 8 ∧
      ∃ final, z.buf.Spells final ∧ final[0]? = some (fenceWord 0x33) := by
  intro buf run rest
  have hdone : (ask ([] ++ run ++ rest) ⟨{}, .empty⟩ { buf }).toOption.any
      (fun p => !p.2.buf.failed && p.2.buf.offset == 8) = true := by decide +kernel
  obtain ⟨⟨_, z⟩, hrun, hend⟩ := any_toOption hdone
  obtain ⟨hw, hoff⟩ := Bool.and_eq_true_iff.mp hend
  have hw : z.buf.failed = false := by simpa using hw
  refine ⟨z, hrun, hw, eq_of_beq hoff, ?_⟩
  obtain ⟨a, b, ws, ha, -, -, hspells, -, -, hfinal⟩ :=
    @barriers_merge_by_runs "barriers" 0 64 buf rfl ⟨{}, .empty⟩ [] run rest z
      (by simp [run, rest, Request.Proper, Item.Proper, Call.Proper]) hrun hw (by simp) (by decide)
  cases ha
  obtain ⟨final, hz, hword⟩ := hfinal (by decide)
  have hlen : ws.length = 0 := by
    have hoff : 0 = 4 * ws.length := hspells.offset
    omega
  exact ⟨final, hz, hlen ▸ hword _ (by decide)⟩

end

end Assembler

end RiscvJit

import Mathlib.Logic.Relation
import RiscvJit.Proofs.Code.Capacity

/-
  RiscvJit.Proofs.Code.Grown — what was written stays, whatever is written after it.

  All work that writes code takes a number of steps (`Assembler.Step`): items, barriers and comments.
  In between, maps of references are recorded (`Assembler.Change`). One kind of step changes a word
  that is already there: a barrier is merged into the barrier right before it. So what was written up
  to some point stays in place when no barrier stands at the end there, or a label was bound behind it
  (`Anchored`), and every later barrier is then merged into later ones only (`Step.anchored`,
  `Grown.anchored`). A buffer that failed is no concern, since it never becomes code.

  `Asm.Grows` says that work is made of such steps, and that it does not stop as if two maps were
  recorded at one offset; as a class it is found by the shape of the work.

  Every sequence of instructions that lowering uses is a number of steps, barriers included.
-/

namespace RiscvJit

open CodeBuffer
open Assembler
open Layout

/-! ## Steps -/

namespace Assembler

/-- One thing that is done to an assembler and records no map. -/
inductive Step (t : Target) (a b : Assembler) : Prop
  | item {i : Item} : i.Proper → (∀ m, i ≠ .map m) → i.run t a = .ok ((), b) → Step t a b
  /-- A barrier, which may be merged into the one before it. -/
  | barrier {pred succ : Int64} : a.fence pred succ = .ok b → Step t a b
  | comment (text : String) : b = a.comment text → Step t a b
  /-- The buffer failed. -/
  | lost : b.buf.failed = true → Step t a b

/-- One thing that is done to an assembler. -/
inductive Change (t : Target) (a b : Assembler) : Prop
  | step : Step t a b → Change t a b
  /-- A map of references, at any offset. -/
  | map {maps : OopMapSet} {off : Int64} {m : OopMap} : a.oopMaps.add off m = .ok maps → b = { a with oopMaps := maps } →
      Change t a b

/-- Any number of steps. -/
abbrev Stepped (t : Target) : Assembler → Assembler → Prop := Relation.ReflTransGen (Step t)

/-- Any number of steps, with maps recorded in between. -/
abbrev Grown (t : Target) : Assembler → Assembler → Prop := Relation.ReflTransGen (Change t)

section
variable {t : Target} {a b : Assembler}

theorem Stepped.grown (h : Stepped t a b) : Grown t a b := h.lift id fun _ _ => .step

theorem Step.failed (h : Step t a b) (hf : a.buf.failed = true) : b.buf.failed = true := by
  cases h with
  | item _ _ h => exact (Item.steady h).failed hf
  | barrier h =>
    rcases Asm.fence_eq_ok (t := t) (Asm.change_ok h) with ⟨-, rfl⟩ | ⟨f, old, buf, -, -, hbuf, rfl⟩
    · exact (codeOnly_emit4 a _).failed hf
    · exact (patched_patch hbuf).failed hf
  | comment text h => rw [h]; exact hf
  | lost h => exact h

theorem Change.failed (h : Change t a b) (hf : a.buf.failed = true) : b.buf.failed = true := by
  cases h with
  | step h => exact h.failed hf
  | map _ h => rw [h]; exact hf

theorem Change.working (h : Change t a b) (hw : b.buf.failed = false) : a.buf.failed = false := by
  cases hf : a.buf.failed with
  | false => rfl
  | true => rw [h.failed hf] at hw; cases hw

theorem Grown.working (h : Grown t a b) (hw : b.buf.failed = false) : a.buf.failed = false := by
  induction h with
  | refl => exact hw
  | tail _ hchange ih => exact ih (hchange.working hw)

theorem Step.base (h : Step t a b) (hw : b.buf.failed = false) : b.buf.base = a.buf.base := by
  cases h with
  | item _ _ h => exact (Item.steady h).base
  | barrier h =>
    rcases Asm.fence_eq_ok (t := t) (Asm.change_ok h) with ⟨-, rfl⟩ | ⟨f, old, buf, -, -, hbuf, rfl⟩
    · exact base_emit4 _ _
    · exact (patched_patch hbuf).base
  | comment text h => rw [h]; rfl
  | lost h => rw [h] at hw; cases hw

theorem Change.base (h : Change t a b) (hw : b.buf.failed = false) : b.buf.base = a.buf.base := by
  cases h with
  | step h => exact h.base hw
  | map _ h => rw [h]

theorem Grown.base (h : Grown t a b) (hw : b.buf.failed = false) : b.buf.base = a.buf.base := by
  induction h with
  | refl => rfl
  | tail _ hchange ih => exact (hchange.base hw).trans (ih (hchange.working hw))

/-- A step takes nothing back, and it records no map. -/
structure Quiet (a b : Assembler) : Prop where
  offset : a.buf.offset ≤ b.buf.offset
  maps : b.oopMaps = a.oopMaps

theorem Step.quiet (h : Step t a b) (hw : b.buf.failed = false) : Quiet a b := by
  cases h with
  | @item i _ hmap h =>
    cases i with
    | word w => cases h; exact ⟨offset_emit4 _ _, rfl⟩
    | call c => exact ⟨(c.codeOnly t a () b h).offset, (c.codeOnly t a () b h).maps⟩
    | barrier w => cases h; exact ⟨offset_emit4 _ _, rfl⟩
    | entry name => cases h; exact ⟨Nat.le_refl _, rfl⟩
    | map m => exact absurd rfl (hmap m)
    | stub name size =>
      obtain ⟨ok, a1, hstart, e⟩ := Asm.bind_eq_ok.mp h
      obtain ⟨-, rfl⟩ := Asm.pure_eq_ok.mp e
      obtain ⟨buf, rfl, hbytes, -⟩ := startStub_cases hstart
      exact ⟨Nat.le_of_eq (congrArg Array.size hbytes.symm), rfl⟩
    | endStub =>
      obtain ⟨-, rfl⟩ := endStub_eq_ok h
      exact ⟨Nat.le_refl _, rfl⟩
  | barrier h =>
    rcases Asm.fence_eq_ok (t := t) (Asm.change_ok h) with ⟨-, rfl⟩ | ⟨f, old, buf, -, -, hbuf, rfl⟩
    · exact ⟨offset_emit4 _ _, rfl⟩
    · exact ⟨Nat.le_of_eq (patched_patch hbuf).offset.symm, rfl⟩
  | comment text h => rw [h]; exact ⟨Nat.le_refl _, rfl⟩
  | lost h => rw [h] at hw; cases hw

theorem Stepped.quiet (h : Stepped t a b) (hw : b.buf.failed = false) : Quiet a b := by
  induction h with
  | refl => exact ⟨Nat.le_refl _, rfl⟩
  | tail _ hstep ih =>
    have hlast := hstep.quiet hw
    have hfirst := ih ((Change.step hstep).working hw)
    exact ⟨Nat.le_trans hfirst.offset hlast.offset, hlast.maps.trans hfirst.maps⟩

end

end Assembler

/-! ## Words that change -/

namespace Layout

/-- The layout with another word at a place. -/
def reword (L : Layout) (k : Nat) (w : UInt32) : Layout := { L with pieces := L.pieces.set k (.word w) }

variable {L : Layout} {k : Nat} {v : UInt32}

/-- What is read of the pieces besides their words stays the same. -/
theorem mapIdx_reword {β : Type} {f : Nat → Piece → β} (hk : L.pieces[k]? = some (.word v)) (w : UInt32)
    (hf : f k (.word w) = f k (.word v)) : (L.reword k w).pieces.mapIdx f = L.pieces.mapIdx f := by
  apply List.ext_getElem?
  intro j
  rw [List.getElem?_mapIdx, List.getElem?_mapIdx]
  by_cases e : k = j
  · subst e
    rw [reword, List.getElem?_set_self (List.getElem?_eq_some_iff.mp hk).1, hk]
    exact congrArg some hf
  · rw [reword, List.getElem?_set_ne e]

theorem getElem?_reword {w : UInt32} {j : Nat} {p : Piece} (hp : (L.reword k w).pieces[j]? = some p)
    (hw : ∀ u, p ≠ .word u) : L.pieces[j]? = some p := by
  by_cases e : k = j
  · subst e
    have hlt : k < L.pieces.length := by simpa [reword] using (List.getElem?_eq_some_iff.mp hp).1
    rw [reword, List.getElem?_set_self hlt] at hp
    exact absurd (Option.some.inj hp).symm (hw w)
  · rwa [reword, List.getElem?_set_ne e] at hp

theorem states_reword (hk : L.pieces[k]? = some (.word v)) (w : UInt32) : (L.reword k w).states = L.states := by
  have huses (l : Nat) : (L.reword k w).uses l = L.uses l := by
    rw [uses, uses, mapIdx_reword hk w rfl]
  simp only [states, huses]
  rfl

theorem words_reword (hk : L.pieces[k]? = some (.word v)) (w : UInt32) : (L.reword k w).words = L.words.set k w := by
  apply List.ext_getElem?
  intro j
  rw [words, getElem?_spelled]
  by_cases e : k = j
  · subst e
    have hlt := (List.getElem?_eq_some_iff.mp hk).1
    rw [List.getElem?_set_self (by rw [length_words]; exact hlt), reword, List.getElem?_set_self hlt]
    rfl
  · rw [List.getElem?_set_ne e, reword, List.getElem?_set_ne e, words, getElem?_spelled]
    rfl

theorem reaches_reword (hk : L.pieces[k]? = some (.word v)) (w : UInt32) : (L.reword k w).reaches = L.reaches := by
  rw [reaches, reaches]
  exact congrArg (fun bs : List Bool => bs.all id) (mapIdx_reword hk w rfl)

theorem getElem_reword {w : UInt32} {j : Nat} {p : Piece} (hk : L.pieces[k]? = some (.word v))
    (hp : L.pieces[j]? = some p)
    (hne : ∀ u, p ≠ .word u) : (L.reword k w).pieces[j]? = some p := by
  have e : k ≠ j := by
    rintro rfl
    rw [hk] at hp
    exact hne v (Option.some.inj hp).symm
  rw [reword, List.getElem?_set_ne e, hp]

theorem Sound.reword (h : L.Sound) (hk : L.pieces[k]? = some (.word v)) (w : UInt32) : (L.reword k w).Sound where
  formed := by
    constructor
    · intro p hp
      obtain ⟨j, hj⟩ := List.getElem?_of_mem hp
      cases p with
      | word u => trivial
      | _ => exact h.formed.proper _ (List.mem_of_getElem? (getElem?_reword hj nofun))
    · intro j rd l hj
      exact getElem_reword hk (h.formed.high j rd l (getElem?_reword hj nofun)) nofun
    · intro j rd l hj
      obtain ⟨i, rfl, hi⟩ := h.formed.low j rd l (getElem?_reword hj nofun)
      exact ⟨i, rfl, getElem_reword hk hi nofun⟩
  known p hp l hl := by
    obtain ⟨j, hj⟩ := List.getElem?_of_mem hp
    cases p with
    | word u => cases hl
    | _ => exact h.known _ (List.mem_of_getElem? (getElem?_reword hj nofun)) l hl
  within l m hm := by
    rw [Layout.reword, List.length_set]
    exact h.within l m hm

end Layout

variable {L : Layout} {k : Nat}

theorem Holds.reword {a : Assembler} (h : Holds L a) {v w : UInt32} {buf : CodeBuffer}
    (hk : L.pieces[k]? = some (.word v))
    (hbuf : a.buf.patch (Int64.ofNat (4 * k)) w = .ok buf) : Holds (L.reword k w) { a with buf := buf } := by
  obtain ⟨bytes, hpatch, hspells⟩ := h.spells.patch
    (by rw [length_words]; exact (List.getElem?_eq_some_iff.mp hk).1) w
  rw [hpatch] at hbuf
  cases hbuf
  refine ⟨?_, ?_, h.sound.reword hk w, (reaches_reword hk w).trans h.reaches⟩
  · rw [words_reword hk]
    exact hspells
  · rw [states_reword hk]
    exact h.labels

/-! ## What stays -/

/-- The assembler holds the layout, and a barrier that may still be merged into is a word after the first `n` pieces. -/
structure Anchored (n : Nat) (L : Layout) (a : Assembler) : Prop where
  holds : Holds L a
  behind : a.Behind
  length : n ≤ L.pieces.length
  barrier : ∀ f, a.mergeable? = some f → ∃ k w, f = 4 * k ∧ n ≤ k ∧ L.pieces[k]? = some (.word w)

/-- There is a barrier at this place. -/
def Layout.Barrier (L : Layout) (k : Nat) : Prop := ∃ sets, L.pieces[k]? = some (.word (fenceWord sets))

theorem Layout.Barrier.add (h : L.Barrier k) (i : Item) : (L.add i).Barrier k := by
  obtain ⟨sets, hk⟩ := h
  obtain ⟨rest, hpieces⟩ := pieces_add L i
  exact ⟨sets, by rw [← hpieces, List.getElem?_append_left (List.getElem?_eq_some_iff.mp hk).1, hk]⟩

/-- Merging into a barrier makes it another one. -/
theorem Layout.Barrier.reword (h : L.Barrier k) (j : Nat) (sets : Int64) :
    (L.reword j (fenceWord sets)).Barrier k := by
  obtain ⟨sets', hk⟩ := h
  by_cases e : j = k
  · subst e
    exact ⟨sets, List.getElem?_set_self (List.getElem?_eq_some_iff.mp hk).1⟩
  · exact ⟨sets', by rw [Layout.reword, List.getElem?_set_ne e, hk]⟩

/-- The first `n` pieces stay, barriers stay barriers, and bound labels stay bound. -/
structure Layout.Keeps (n : Nat) (L L' : Layout) : Prop where
  pieces : L'.pieces.take n = L.pieces.take n
  barriers : ∀ k, L.Barrier k → L'.Barrier k
  marks : ∀ l k, L.Known l → L.mark l = some k → L'.Known l ∧ L'.mark l = some k

section
variable {t : Target} {a b : Assembler} {n : Nat} {L L' L'' : Layout}

theorem Layout.keeps_refl (n : Nat) (L : Layout) : Keeps n L L := ⟨rfl, fun _ h => h, fun _ _ hl hk => ⟨hl, hk⟩⟩

theorem Layout.Keeps.trans (h : Keeps n L L') (h' : Keeps n L' L'') : Keeps n L L'' where
  pieces := h'.pieces.trans h.pieces
  barriers k hk := h'.barriers k (h.barriers k hk)
  marks l k hl hk := (h.marks l k hl hk).elim (h'.marks l k)

theorem Layout.Keeps.extends (h : Keeps L.pieces.length L L') : L.pieces <+: L'.pieces := by
  have := h.pieces
  rw [List.take_length] at this
  rw [← this]
  exact List.take_prefix _ _

theorem mergeable_eq_some_iff {f : Nat} : a.mergeable? = some f ↔
    a.lastFence = some f ∧ f + 4 = a.buf.offset ∧ a.lastBind ≠ some a.buf.offset ∧ a.buf.failed = false := by
  unfold mergeable?
  cases a.lastFence with
  | none => simp
  | some g =>
    cases a.buf.failed with
    | true => simp
    | false =>
      simp only [Bool.not_false, Bool.and_true, Bool.and_eq_true, decide_eq_true_eq, Option.some.injEq, and_true,
        Option.ite_none_right_eq_some]
      constructor
      · rintro ⟨h, rfl⟩
        exact ⟨rfl, h⟩
      · rintro ⟨rfl, h⟩
        exact ⟨h, rfl⟩

/-- A label that is bound at the end keeps barriers apart. -/
theorem mergeable_none_of_bound (h : a.lastBind = some a.buf.offset) : a.mergeable? = none := by
  rw [Option.eq_none_iff_forall_ne_some]
  intro f hf
  exact (mergeable_eq_some_iff.mp hf).2.2.1 h

theorem anchored_of_holds (h : Holds L a) (hb : a.Behind) (hm : a.mergeable? = none) : Anchored L.pieces.length L a :=
  ⟨h, hb, Nat.le_refl _, fun f hf => by rw [hm] at hf; cases hf⟩

theorem Anchored.item {i : Item} (h : Anchored n L a) (hp : i.Proper) (hrun : i.run t a = .ok ((), b))
    (hw : b.buf.failed = false) : Anchored n (L.add i) b ∧ Keeps n L (L.add i) := by
  have hholds := Item.holds h.holds hp hrun hw
  obtain ⟨rest, hpieces⟩ := pieces_add L i
  have hkept {k : Nat} {p : Piece} (hk : L.pieces[k]? = some p) : (L.add i).pieces[k]? = some p := by
    rw [← hpieces, List.getElem?_append_left (List.getElem?_eq_some_iff.mp hk).1, hk]
  refine ⟨⟨hholds, Item.behind hrun h.behind, ?_, fun f hf => ?_⟩, ?_, fun k hk => hk.add i,
    fun l k hl hk => Item.mark h.holds hp hrun hl hk⟩
  · rw [← hpieces, List.length_append]
    have := h.length
    omega
  · obtain ⟨hfence, hend, hbind, -⟩ := mergeable_eq_some_iff.mp hf
    -- a barrier is new, or it was at the end before and nothing was written since
    have old (hsame : b.lastFence = a.lastFence) : ∃ k w, f = 4 * k ∧ n ≤ k ∧ (L.add i).pieces[k]? = some (.word w) := by
      have steady := Item.steady hrun
      have hwa : a.buf.failed = false := by
        cases hfa : a.buf.failed with
        | false => rfl
        | true => rw [steady.failed hfa] at hw; cases hw
      rw [hsame] at hfence
      have hlast := h.behind hwa f hfence
      have hle := steady.offset
      have hoff : b.buf.offset = a.buf.offset := by omega
      have hfree : a.lastBind ≠ some a.buf.offset := fun e => hbind (hoff ▸ steady.bound hoff e)
      obtain ⟨k, w, hk, hn, hpiece⟩ := h.barrier f (mergeable_eq_some_iff.mpr ⟨hfence, by omega, hfree, hwa⟩)
      exact ⟨k, w, hk, hn, hkept hpiece⟩
    cases i with
    | barrier w =>
      cases hrun
      cases hfence
      refine ⟨L.pieces.length, w, h.holds.offset, h.length, ?_⟩
      exact List.getElem?_concat_length ..
    | word w => cases hrun; exact old rfl
    | call c => exact old (c.codeOnly t a () b hrun).fence
    | entry name => cases hrun; exact old rfl
    | map m => rcases addOopMap_cases hrun with ⟨-, rfl⟩ | ⟨-, maps, -, rfl⟩ <;> exact old rfl
    | stub name size =>
      obtain ⟨ok, a1, hstart, e⟩ := Asm.bind_eq_ok.mp hrun
      obtain ⟨-, rfl⟩ := Asm.pure_eq_ok.mp e
      obtain ⟨buf, rfl, -⟩ := startStub_cases hstart
      exact old rfl
    | endStub =>
      obtain ⟨-, rfl⟩ := endStub_eq_ok hrun
      exact old rfl
  · rw [← hpieces, List.take_append_of_le_length h.length]

/-- A step that leaves the buffer working keeps what was written. -/
theorem Assembler.Step.anchored (hstep : Step t a b) (h : Anchored n L a) (hw : b.buf.failed = false) :
    ∃ L', Anchored n L' b ∧ Keeps n L L' := by
  cases hstep with
  | item hp _ hrun => exact ⟨_, h.item hp hrun hw⟩
  | barrier hfence =>
    rcases Asm.fence_eq_ok (t := t) (Asm.change_ok hfence) with ⟨-, rfl⟩ | ⟨f, old, buf, hmerge, -, hbuf, rfl⟩
    · exact ⟨_, h.item (t := t) (i := .barrier _) trivial rfl hw⟩
    · obtain ⟨k, w, rfl, hn, hpiece⟩ := h.barrier f hmerge
      have hlt := (List.getElem?_eq_some_iff.mp hpiece).1
      have hpatched := patched_patch hbuf
      refine ⟨_, ⟨h.holds.reword hpiece hbuf, ?_, ?_, fun f hf => ?_⟩, ?_, fun j hj => hj.reword k _,
        fun l k hl hk => ⟨hl, hk⟩⟩
      · intro hw' f hf
        exact Nat.le_trans (h.behind (mergeable_eq_some_iff.mp hmerge).2.2.2 f hf) (Nat.le_of_eq hpatched.offset.symm)
      · rw [reword, List.length_set]
        exact h.length
      · have hsame : f = 4 * k := by
          have := (mergeable_eq_some_iff.mp hf).1
          have := (mergeable_eq_some_iff.mp hmerge).1
          simp_all
        exact ⟨k, _, hsame, hn, List.getElem?_set_self hlt⟩
      · rw [reword, List.take_set_of_le hn]
  | comment text e =>
    subst e
    exact ⟨L, ⟨⟨h.holds.spells, h.holds.labels, h.holds.sound, h.holds.reaches⟩, h.behind, h.length, h.barrier⟩,
      keeps_refl n L⟩
  | lost hf => rw [hf] at hw; cases hw

theorem Assembler.Change.anchored (hchange : Change t a b) (h : Anchored n L a) (hw : b.buf.failed = false) :
    ∃ L', Anchored n L' b ∧ Keeps n L L' := by
  cases hchange with
  | step hstep => exact hstep.anchored h hw
  | map _ e =>
    subst e
    exact ⟨L, ⟨⟨h.holds.spells, h.holds.labels, h.holds.sound, h.holds.reaches⟩, h.behind, h.length, h.barrier⟩,
      keeps_refl n L⟩

/-- Any number of steps that leave the buffer working keep what was written. -/
theorem Assembler.Grown.anchored (hgrown : Grown t a b) (h : Anchored n L a) (hw : b.buf.failed = false) :
    ∃ L', Anchored n L' b ∧ Keeps n L L' := by
  induction hgrown with
  | refl => exact ⟨L, h, keeps_refl n L⟩
  | tail _ hchange ih =>
    obtain ⟨L1, h1, hkeeps⟩ := ih (hchange.working hw)
    obtain ⟨L2, h2, hkeeps'⟩ := hchange.anchored h1 hw
    exact ⟨L2, h2, hkeeps.trans hkeeps'⟩

/-- What was written from an empty buffer is some layout. -/
theorem Assembler.Grown.holds (hgrown : Grown t a b) (h : Holds {} a) (hfence : a.lastFence = none)
    (hw : b.buf.failed = false) : ∃ L, Holds L b ∧ b.Behind := by
  have hb : a.Behind := by
    intro _ f hf
    rw [hfence] at hf
    cases hf
  obtain ⟨L, hL, -⟩ := hgrown.anchored (anchored_of_holds h hb (by rw [mergeable?, hfence])) hw
  exact ⟨L, hL.holds, hL.behind⟩

end

/-- Code stays in the finished code when no barrier stands at its end. -/
theorem Site.late_of_grown {S : Site} {a : Assembler} (h : Grown S.target a S.last) (hb : a.Behind)
    (hm : a.mergeable? = none) : S.Late a where
  working := h.working S.working
  stays L hL := by
    obtain ⟨L', hL', hkeeps⟩ := h.anchored (anchored_of_holds hL hb hm) S.working
    exact ⟨L', hL'.holds, hkeeps.extends, hkeeps.marks⟩

/-! ## Work that takes steps -/

namespace Asm

/-- The work does not stop as if two maps were recorded at one offset. -/
def Spared {α : Type} (x : Asm α) : Prop := ∀ t a f, x t a = .error f → f.Other

/-- The work is a number of steps, and it does not stop for two maps at one offset. -/
class Grows {α : Type} (x : Asm α) : Prop where
  steps : ∀ {t a r a'}, x t a = .ok (r, a') → Stepped t a a'
  spared : Spared x

section
variable {α β : Type}

variable {x : Asm α}

theorem Grows.grown (h : Grows x) {t : Target} {a a' : Assembler} {r : α} (hx : x t a = .ok (r, a')) :
    Grown t a a' := (h.steps hx).grown

theorem spared_pure (r : α) : Spared (pure r : Asm α) := fun _ _ _ h => nomatch h

theorem spared_get : Spared (get : Asm Assembler) := fun _ _ _ h => nomatch h

theorem spared_lift (e : Except Fault α) [he : Tells e] : Spared (liftM e : Asm α) := by
  intro t a f h
  cases e with
  | ok r => cases h
  | error g =>
    cases h
    exact he.other rfl

theorem change_eq_error {f : Assembler → Except Fault Assembler} {t : Target} {a : Assembler} {g : Fault}
    (h : change f t a = .error g) : f a = .error g := by
  unfold change at h
  cases hrun : f a with
  | ok a' => rw [hrun] at h; cases h
  | error g' =>
    rw [hrun] at h
    cases h
    rfl

theorem spared_change {f : Assembler → Except Fault Assembler} (hf : ∀ a, Tells (f a)) : Spared (change f) :=
  fun _ a _ h => (hf a).other (change_eq_error h)

theorem Spared.bind {f : α → Asm β} (hx : Spared x) (hf : ∀ r, Spared (f r)) : Spared (x >>= f) := by
  intro t a g h
  change (x t a >>= fun p => f p.1 t p.2) = _ at h
  cases hrun : x t a with
  | error g' =>
    rw [hrun] at h
    cases h
    exact hx t a g hrun
  | ok p =>
    rw [hrun] at h
    exact hf p.1 t p.2 g h

instance grows_pure (r : α) : Grows (pure r : Asm α) where
  steps h := by
    obtain ⟨-, rfl⟩ := pure_eq_ok.mp h
    exact .refl
  spared := spared_pure r

instance grows_lift (e : Except Fault α) [Tells e] : Grows (liftM e : Asm α) where
  steps h := by
    obtain ⟨-, rfl⟩ := lift_eq_ok.mp h
    exact .refl
  spared := spared_lift e

instance grows_trap : Grows (throw .trap : Asm α) where
  steps h := nomatch h
  spared _ _ _ h := by
    cases h
    trivial

instance grows_get : Grows (get : Asm Assembler) where
  steps h := by
    cases h
    exact .refl
  spared := spared_get

instance grows_read : Grows (read : Asm Target) where
  steps h := by
    cases h
    exact .refl
  spared _ _ _ h := nomatch h

instance grows_bind (x : Asm α) (f : α → Asm β) [hx : Grows x] [hf : ∀ r, Grows (f r)] : Grows (x >>= f) where
  steps h := by
    obtain ⟨r, b, hr, hs⟩ := bind_eq_ok.mp h
    exact (hx.steps hr).trans ((hf r).steps hs)
  spared := hx.spared.bind fun r => (hf r).spared

instance grows_seq (x : Asm α) (y : Asm β) [Grows x] [Grows y] : Grows (x >>= fun _ => y) := grows_bind x _

instance grows_ite (c : Prop) [Decidable c] (x y : Asm α) [hx : Grows x] [hy : Grows y] : Grows (if c then x else y) := by
  split
  · exact hx
  · exact hy

theorem grows_step (h : ∀ t a r a', x t a = .ok (r, a') → Step t a a') (hs : Spared x) : Grows x where
  steps hx := .single (h _ _ _ _ hx)
  spared := hs

end

/-! ## Faults of labels and buffers -/

section
variable {a : Assembler}

variable (l : Label) (b : CodeBuffer)

instance tells_label : Tells (a.label l) := by
  unfold label
  split
  · infer_instance
  · split <;> infer_instance

instance tells_bindState (s : LabelState) (pos : Int64) : Tells (s.bind pos) := by
  unfold LabelState.bind
  infer_instance

instance tells_wordAt (off : Int64) : Tells (b.wordAt off) := by
  unfold wordAt
  infer_instance

instance tells_patch (off : Int64) (w : UInt32) : Tells (b.patch off w) := by
  unfold patch
  infer_instance

instance tells_patchUse (u : LabelUse) (target : Int64) : Tells (patchUse b u target) := by
  unfold patchUse
  split
  · infer_instance
  · refine @tells_bind _ _ _ _ inferInstance fun w => ?_
    split <;> infer_instance

instance tells_bindLabel : Tells (a.bind l) := by
  unfold Assembler.bind
  simp only [← Array.foldlM_toList]
  infer_instance

instance tells_refer (u : LabelUse) : Tells (a.refer l u) := by
  unfold Assembler.refer
  refine @tells_bind _ _ _ _ inferInstance fun s => ?_
  cases s.position? <;> infer_instance

instance tells_startStub (name : String) (size : Int64) : Tells (b.startStub name size) := by
  unfold CodeBuffer.startStub
  infer_instance

instance tells_endStub : Tells b.endStub := by
  unfold CodeBuffer.endStub
  infer_instance

instance tells_fenceAt (off : Nat) : Tells (fenceAt? b off) := by
  unfold fenceAt?
  refine @tells_bind _ _ _ _ inferInstance fun w => ?_
  cases decode w <;> infer_instance

instance tells_fence (pred succ : Int64) : Tells (a.fence pred succ) := by
  unfold Assembler.fence
  dsimp only
  cases a.mergeable? with
  | none => infer_instance
  | some f =>
    refine @tells_bind _ _ _ _ inferInstance fun old => ?_
    cases old <;> infer_instance

end

/-! ## Statements -/

variable (o : Op) (rd rs1 rs2 : Reg) (l : Label) (v : UInt64)

instance tells_checkClass (r : Reg) (c : RegClass) (what : String) : Tells (checkClass o r c what) := by
  have : Unlike " must be an integer register, got " := ⟨'b', by decide, by decide⟩
  have : Unlike " must be a float register, got " := ⟨'b', by decide, by decide⟩
  unfold checkClass
  cases c <;> infer_instance

instance grows_word (w : UInt32) : Grows (modifyBuf (·.emit4 w)) := by
  refine grows_step (fun t a r a' h => ?_) fun _ _ _ h => nomatch h
  cases h
  exact .item (i := .word w) trivial nofun rfl

instance grows_emit (imm : Int64) (aqrl : UInt32) : Grows (emit o rd rs1 rs2 imm aqrl) := by
  unfold emit checkClasses
  infer_instance

theorem spared_refer (off : Int64) (kind : UInt8) : Spared (refer l off kind) := spared_change fun _ => inferInstance

theorem spared_branch : Spared (branch o rs1 rs2 l) :=
  spared_get.bind fun _ => (grows_emit ..).spared.bind fun _ => spared_refer _ _ _

theorem spared_jal : Spared (jal rd l) :=
  spared_get.bind fun _ => (grows_emit ..).spared.bind fun _ => spared_refer _ _ _

theorem spared_bcond : Spared (bcond o rs1 rs2 l) := by
  have hnear : Spared (isNear l) := by
    refine spared_get.bind fun a => (spared_lift (a.label l)).bind fun s => ?_
    cases s.position? <;> exact spared_pure _
  have hnegate : Tells (negateBranch o) := by
    unfold negateBranch
    split <;> infer_instance
  refine hnear.bind fun near => ?_
  cases near with
  | true => exact spared_branch o rs1 rs2 l
  | false => exact (spared_lift (negateBranch o)).bind fun _ => (grows_emit ..).spared.bind fun _ => spared_jal .zr l

theorem grows_call (c : Call) (hc : c.Proper) : Grows c.run := by
  refine grows_step (fun t a r a' h => .item (i := .call c) hc nofun h) ?_
  cases c with
  | newLabel => exact fun _ _ _ h => nomatch h
  | bind l => exact spared_change fun _ => inferInstance
  | branch o rs1 rs2 l => exact spared_branch o rs1 rs2 l
  | bcond o rs1 rs2 l => exact spared_bcond o rs1 rs2 l
  | jal rd l => exact spared_jal rd l
  | la rd l =>
    exact spared_get.bind fun _ => (grows_emit ..).spared.bind fun _ => (grows_emit ..).spared.bind fun _ =>
      spared_refer _ _ _
  | plain o rd rs1 rs2 imm aqrl => exact (grows_emit ..).spared

instance grows_newLabel : Grows newLabel := by
  refine grows_step (fun t a r a' h => .item (i := .call .newLabel) trivial nofun ?_) fun _ _ _ h => nomatch h
  cases h
  rfl

instance grows_fence (pred succ : Int64) : Grows (fence pred succ) :=
  grows_step (fun _ _ _ _ h => .barrier (change_eq_ok.mp h)) (spared_change fun _ => inferInstance)

instance grows_comment (text : String) : Grows (comment text) := by
  refine grows_step (fun t a r a' h => ?_) fun _ _ _ h => nomatch h
  cases h
  exact .comment text rfl

instance grows_markEntry (name : String) : Grows (markEntry name) :=
  grows_step (fun _ _ _ _ h => .item (i := .entry name) trivial nofun h) fun _ _ _ h => nomatch h

instance grows_startStub (name : String) (size : Int64) : Grows (startStub name size) := by
  refine grows_step (fun _ _ _ _ h => .item (i := .stub name size) trivial nofun (bind_eq_ok.mpr ⟨_, _, h, rfl⟩)) ?_
  exact spared_get.bind fun a => (spared_lift (a.buf.startStub name size)).bind fun _ => fun _ _ _ h => nomatch h

instance grows_endStub : Grows endStub :=
  grows_step (fun _ _ _ _ h => .item (i := .endStub) trivial nofun h) (spared_change fun _ => inferInstance)

/-- A distance out of reach fails the buffer. -/
instance grows_jalOffset (off : Int64) : Grows (jalOffset rd off) := by
  unfold jalOffset
  split
  · infer_instance
  · refine grows_step (fun t a r a' h => .lost ?_) fun _ _ _ h => nomatch h
    cases h
    exact failed_fail (by decide)

theorem byteAt_lowHalf {i : Nat} (hi : i < 4) : byteAt v.toUInt32.toUInt64 i = byteAt v i := by
  apply UInt8.toNat_inj.mp
  rcases (show i = 0 ∨ i = 1 ∨ i = 2 ∨ i = 3 by omega) with rfl | rfl | rfl | rfl <;>
    simp [byteAt, Nat.shiftRight_eq_div_pow] <;> omega

theorem byteAt_highHalf {i : Nat} (hi : i < 4) :
    byteAt (v >>> 32).toUInt32.toUInt64 i = byteAt v (i + 4) := by
  apply UInt8.toNat_inj.mp
  rcases (show i = 0 ∨ i = 1 ∨ i = 2 ∨ i = 3 by omega) with rfl | rfl | rfl | rfl <;>
    simp [byteAt, Nat.shiftRight_eq_div_pow] <;> omega

/-- Eight bytes are two words, unless they do not fit. -/
theorem emit8_eq {b : CodeBuffer} {v : UInt64} (h : (b.emit8 v).failed = false) :
    b.emit8 v = (b.emit4 v.toUInt32).emit4 (v >>> 32).toUInt32 := by
  rcases emit8_cases b v with ⟨hf, e⟩ | ⟨-, -, e⟩ | ⟨hw, hroom, -, e⟩
  · rw [e, hf] at h
    cases h
  · rw [e] at h
    cases h
  · have hfirst := emit4_room hw (show b.offset + 4 ≤ b.capacity by omega) v.toUInt32
    have hw1 : (b.emit4 v.toUInt32).failed = false := by rw [hfirst]; exact hw
    have hoff := offset_emit4_working hw1
    have hcap := emit4_capacity b v.toUInt32
    rw [e, emit4_room hw1 (by omega), hfirst, byteAt_lowHalf v (i := 0) (by decide),
      byteAt_lowHalf v (i := 1) (by decide),
      byteAt_lowHalf v (i := 2) (by decide), byteAt_lowHalf v (i := 3) (by decide),
      byteAt_highHalf v (i := 0) (by decide),
      byteAt_highHalf v (i := 1) (by decide), byteAt_highHalf v (i := 2) (by decide),
      byteAt_highHalf v (i := 3) (by decide)]
    rfl

instance grows_word64 : Grows (word64 v) where
  steps {t a _ a'} h := by
    cases h
    cases hf : (a.buf.emit8 v).failed with
    | true => exact .single (.lost hf)
    | false =>
      show Stepped t a { a with buf := a.buf.emit8 v }
      rw [emit8_eq hf]
      exact .tail (.single (.item (i := .word v.toUInt32) trivial nofun rfl))
        (.item (i := .word (v >>> 32).toUInt32) trivial nofun rfl)
  spared _ _ _ h := nomatch h

/-! ## Calls of known addresses -/

instance grows_failed : Grows failed := by
  unfold failed
  infer_instance

instance grows_opts : Grows opts := by
  unfold opts
  infer_instance

instance grows_farCall (target : UInt64) (link tmp : Reg) : Grows (farCall target link tmp) := by
  unfold farCall movptrWithOffset auipc jalr lui addi slli shiftI ri
  dsimp only
  infer_instance

instance grows_entryAddress (e : RuntimeEntry) : Grows (entryAddress e) := by
  unfold entryAddress RuntimeEntries.address
  infer_instance

/-! ## Sequences -/

theorem closed_grows : Closed true @Grows where
  pure := grows_pure
  lift e _ := grows_lift e
  bind hx hf := @grows_bind _ _ _ _ hx hf
  opts _ hf := @grows_bind _ _ opts _ grows_opts hf
  newLabel := grows_newLabel
  call := grows_call
  routine _ _ _ := inferInstance
  barrier pred succ _ := grows_fence pred succ

instance (priority := low) grows_of_composed {α : Type} (x : Asm α) [hx : Composed true x] : Grows x :=
  hx.has closed_grows

instance grows_padTo (align n : Int64) (fuel : Nat) : Grows (padTo align n fuel) := by
  induction fuel with
  | zero => exact grows_pure ()
  | succ fuel ih =>
    unfold padTo offset failed nop
    infer_instance

instance grows_alignTo (align n : Int64) : Grows (alignTo align n) := by
  unfold alignTo
  infer_instance

end Asm

end RiscvJit

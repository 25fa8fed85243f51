import RiscvJit.Proofs.Code.Labels
import RiscvJit.Proofs.Isa.Signed

/-
  RiscvJit.Proofs.Code.Resolution — what a finished buffer holds for its labels.

  A sequence of calls leads to the assembler of the last layout, or to one that failed for the
  reason of the first layout that cannot be held (`runAll_holds`). A reference out of reach
  stays out of reach (`reaches_after`), so a buffer that did not fail holds no wrong distance.
  From the layout follow

    - what each word decodes to (`Holds.resolved`);
    - where a branch goes when the code runs, near or far (`Holds.branch_goes`).

  `labels_resolve` puts this together for any calls on a new buffer.
-/

namespace RiscvJit

open Layout
open Assembler (lowPart highPart)
open CodeBuffer
open Machine (step_of_decode exec steps_one steps)

section
variable {L : Layout} {a : Assembler} {t : Target} {c : Call}

/-! ## Layouts only grow -/

theorem pieces_after (L : Layout) (c : Call) : ∃ ps, (L.after c).pieces = L.pieces ++ ps := by
  cases c with
  | bcond o rs1 rs2 l =>
    show ∃ ps, (if L.near l then _ else _ : Layout).pieces = _
    split
    · exact ⟨_, rfl⟩
    · exact ⟨_, rfl⟩
  | newLabel => exact ⟨[], (List.append_nil _).symm⟩
  | bind l => exact ⟨[], (List.append_nil _).symm⟩
  | _ => exact ⟨_, rfl⟩

theorem pieces_afterAll (L : Layout) (calls : List Call) : ∃ ps, (L.afterAll calls).pieces = L.pieces ++ ps := by
  induction calls generalizing L with
  | nil => exact ⟨[], (List.append_nil _).symm⟩
  | cons c rest ih =>
    obtain ⟨ps, hps⟩ := pieces_after L c
    obtain ⟨qs, hqs⟩ := ih (L.after c)
    refine ⟨ps ++ qs, ?_⟩
    show ((L.after c).afterAll rest).pieces = _
    rw [hqs, hps, List.append_assoc]

theorem marks_after (hc : ∀ l, c ≠ .bind l) :
    (L.after c).marks = L.marks ∨ (L.after c).marks = L.marks ++ [none] := by
  cases c with
  | bcond o rs1 rs2 l =>
    left
    show (if L.near l then _ else _ : Layout).marks = _
    split <;> rfl
  | newLabel => exact .inr rfl
  | bind l => exact absurd rfl (hc l)
  | _ => exact .inl rfl

theorem known_after {l : Nat} (h : L.Known l) : (L.after c).Known l := by
  refine ⟨h.1, Nat.le_trans h.2 ?_⟩
  by_cases hc : ∃ l', c = .bind l'
  · obtain ⟨l', rfl⟩ := hc
    simp [Layout.after, place]
  · rcases marks_after (L := L) fun l' e => hc ⟨l', e⟩ with e | e
    · exact Nat.le_of_eq (congrArg List.length e.symm)
    · simp [e]

/-- A label that is bound stays where it is. -/
theorem mark_after (hc : L.Legal c) {l m : Nat} (hl : L.Known l) (h : L.mark l = some m) :
    (L.after c).mark l = some m := by
  by_cases hb : ∃ l', c = .bind l'
  · obtain ⟨l', rfl⟩ := hb
    have hne : l ≠ l' := by
      rintro rfl
      rw [hc.2] at h
      cases h
    show (L.place l').mark l = _
    rw [mark_place hc.1 hl, if_neg hne, h]
  · rcases marks_after (L := L) fun l' e => hb ⟨l', e⟩ with e | e
    · unfold mark at h ⊢
      rw [e, h]
    · have : (L.after c).mark l = L.fresh.mark l := by
        unfold mark
        rw [e]
        rfl
      rw [this, mark_fresh, h]

/-- A reference out of reach stays out of reach. -/
theorem reaches_after (hs : L.Sound) (hc : L.Legal c) (h : (L.after c).reaches = true) : L.reaches = true := by
  rw [reaches_iff] at h ⊢
  intro k p hp
  obtain ⟨ps, hps⟩ := pieces_after L c
  have later := h k p (by rw [hps, List.getElem?_append_left (List.getElem?_eq_some_iff.mp hp).1, hp])
  cases hl : p.label? with
  | none =>
    have : L.distance p k = 0 := by rw [distance, hl]; rfl
    rw [this]
    exact reaches_zero p
  | some l =>
    cases hm : L.mark l with
    | none =>
      rw [distance_unbound hl hm]
      exact reaches_zero p
    | some m =>
      have hknown := hs.known p (List.mem_of_getElem? hp) l hl
      rw [distance_bound hl (mark_after hc hknown hm)] at later
      rw [distance_bound hl hm]
      exact later

theorem sound_fresh (hs : L.Sound) : L.fresh.Sound where
  formed := hs.formed
  known := by
    intro p hp l hl
    have := hs.known p hp l hl
    exact ⟨this.1, Nat.le_trans this.2 (by simp [fresh])⟩
  within := by
    intro l m hm
    rw [mark_fresh] at hm
    exact hs.within l m hm

theorem sound_after (hs : L.Sound) (hc : L.Legal c) : (L.after c).Sound := by
  have one : ∀ {p : Piece} {l : Nat}, p.Proper → p.label? = some l → L.Known l → (∀ rd l, p ≠ .high rd l) →
      (∀ rd l, p ≠ .low rd l) → (L.write [p]).Sound := by
    intro p l hp hl hk hh hw
    refine sound_write hs (formed_one hs.formed hp hh hw) fun q hq l' hl' => ?_
    rw [List.mem_singleton.mp hq, hl] at hl'
    cases hl'
    exact hk
  have plain : ∀ w, (L.write [.word w]).Sound := by
    intro w
    refine sound_write hs (formed_one hs.formed trivial nofun nofun) fun q hq l' hl' => ?_
    rw [List.mem_singleton.mp hq] at hl'
    cases hl'
  cases c with
  | plain o rd rs1 rs2 imm aqrl => exact plain _
  | branch o rs1 rs2 l =>
    obtain ⟨ho, h1, h2, hl⟩ := hc
    exact one ⟨ho, h1, h2⟩ rfl hl nofun nofun
  | bcond o rs1 rs2 l =>
    obtain ⟨ho, h1, h2, hl⟩ := hc
    show (if L.near l then _ else _ : Layout).Sound
    split
    · exact one ⟨ho, h1, h2⟩ rfl hl nofun nofun
    · have first := plain (o.negated.encode .none rs1 rs2 8 0)
      have second : ((L.write [.word (o.negated.encode .none rs1 rs2 8 0)]).write [.jump .zr l]).Sound := by
        refine sound_write first (formed_one first.formed rfl nofun nofun) fun q hq l' hl' => ?_
        rw [List.mem_singleton.mp hq] at hl'
        cases hl'
        exact hl
      rwa [write_write] at second
  | jal rd l => exact one (p := .jump rd l) hc.1 rfl hc.2 nofun nofun
  | la rd l =>
    refine sound_write hs (formed_address hs.formed hc.1 l) fun q hq l' hl' => ?_
    rw [(reference_address rd l 0).label q hq] at hl'
    cases hl'
    exact hc.2
  | newLabel => exact sound_fresh hs
  | bind l => exact sound_place hs hc.1

variable {calls : List Call}

theorem reaches_afterAll (hs : L.Sound) (hc : L.LegalAll calls) (h : (L.afterAll calls).reaches = true) :
    L.reaches = true := by
  induction calls generalizing L with
  | nil => exact h
  | cons c rest ih => exact reaches_after hs hc.1 (ih (sound_after hs hc.1) hc.2 h)

theorem length_afterAll (L : Layout) (calls : List Call) :
    L.pieces.length ≤ (L.afterAll calls).pieces.length := by
  obtain ⟨ps, hps⟩ := pieces_afterAll L calls
  rw [hps, List.length_append]
  omega

/-! ## Sequences of calls -/

theorem runAll_cons {rest : List Call} {b : Assembler} (h : c.run t a = .ok ((), b)) :
    runAll (c :: rest) t a = runAll rest t b := Asm.bind_ok h

theorem runAll_failed (h : Tracks L a) (hf : a.buf.failed = true) (hc : L.LegalAll calls) :
    ∃ a', runAll calls t a = .ok ((), a') ∧ a'.buf = a.buf := by
  induction calls generalizing L a with
  | nil => exact ⟨a, rfl, rfl⟩
  | cons c rest ih =>
    obtain ⟨b, hrun, hbuf, ht⟩ := Call.run_failed (t := t) h hf hc.1
    obtain ⟨a', hrest, hbuf'⟩ := ih ht (by rw [hbuf]; exact hf) hc.2
    exact ⟨a', (runAll_cons hrun).trans hrest, hbuf'.trans hbuf⟩

/-- Calls lead to the assembler of the last layout, or fail it for the reason of the first layout
that it cannot hold. -/
theorem runAll_holds (h : Holds L a) (hc : L.LegalAll calls) :
    ∃ a', runAll calls t a = .ok ((), a') ∧ match L.firstFault? a.buf.capacity calls with
      | none => Holds (L.afterAll calls) a'
      | some reason => a'.buf.failure = reason ∧ a'.buf.failed = true := by
  induction calls generalizing L a with
  | nil => exact ⟨a, rfl, h⟩
  | cons c rest ih =>
    obtain ⟨b, hrun, hcap, hsettles, ht⟩ := Call.run_holds (t := t) h hc.1
    rw [runAll_cons hrun, firstFault?]
    cases hfault : (L.after c).fault? a.buf.capacity with
    | none =>
      have hb : Holds (L.after c) b := by
        unfold Settles at hsettles
        rwa [hcap, hfault] at hsettles
      obtain ⟨a', hrest, hend⟩ := ih hb hc.2
      rw [hcap] at hend
      exact ⟨a', hrest, hend⟩
    | some reason =>
      obtain ⟨hfail, hfailed⟩ := failed_of_fault (by rw [hcap]; exact hfault) hsettles
      obtain ⟨a', hrest, hbuf⟩ := runAll_failed (t := t) ht hfailed hc.2
      exact ⟨a', hrest, by rw [hbuf]; exact ⟨hfail, hfailed⟩⟩

theorem runAll_fits (h : Holds L a) (hc : L.LegalAll calls) (hnone : L.firstFault? a.buf.capacity calls = none) :
    ∃ a', runAll calls t a = .ok ((), a') ∧ Holds (L.afterAll calls) a' := by
  obtain ⟨a', hrun, hend⟩ := runAll_holds (t := t) h hc
  rw [hnone] at hend
  exact ⟨a', hrun, hend⟩

theorem runAll_fails {reason : String} (h : Holds L a) (hc : L.LegalAll calls)
    (hfault : L.firstFault? a.buf.capacity calls = some reason) :
    ∃ a', runAll calls t a = .ok ((), a') ∧ a'.buf.failure = reason := by
  obtain ⟨a', hrun, hend⟩ := runAll_holds (t := t) h hc
  rw [hfault] at hend
  exact ⟨a', hrun, hend.1⟩

theorem firstFault_none_iff {capacity : Nat} (hs : L.Sound) (hc : L.LegalAll calls)
    (hfits : 4 * L.pieces.length ≤ capacity)
    (hreach : L.reaches = true) :
    L.firstFault? capacity calls = none ↔
      4 * (L.afterAll calls).pieces.length ≤ capacity ∧ (L.afterAll calls).reaches = true := by
  induction calls generalizing L with
  | nil => exact ⟨fun _ => ⟨hfits, hreach⟩, fun _ => rfl⟩
  | cons c rest ih =>
    have hlen := length_afterAll (L.after c) rest
    rw [firstFault?]
    show _ ↔ 4 * ((L.after c).afterAll rest).pieces.length ≤ capacity ∧ ((L.after c).afterAll rest).reaches = true
    by_cases h1 : capacity < 4 * (L.after c).pieces.length
    · rw [show (L.after c).fault? capacity = some codeOverflow from if_pos h1]
      constructor
      · intro h; cases h
      · intro h; omega
    · by_cases h2 : (L.after c).reaches = true
      · rw [show (L.after c).fault? capacity = none by rw [fault?, if_neg h1, if_pos h2]]
        exact ih (sound_after hs hc.1) hc.2 (by omega) h2
      · rw [show (L.after c).fault? capacity = some branchOutOfRange by rw [fault?, if_neg h1, if_neg h2]]
        constructor
        · intro h; cases h
        · rintro ⟨_, h⟩
          exact absurd (reaches_afterAll (sound_after hs hc.1) hc.2 h) h2

/-- A reference that cannot reach its label, in code that fits so far, is what fails first. -/
theorem firstFault_miss {before rest : List Call} {capacity : Nat} (hreach : L.reaches = true)
    (hfits : 4 * (L.afterAll before).pieces.length ≤ capacity) (hmiss : (L.afterAll before).reaches = false) :
    L.firstFault? capacity (before ++ rest) = some branchOutOfRange := by
  induction before generalizing L with
  | nil =>
    have hmiss : L.reaches = false := hmiss
    rw [hreach] at hmiss
    cases hmiss
  | cons c before ih =>
    have hlen := length_afterAll (L.after c) before
    have hfits : 4 * ((L.after c).afterAll before).pieces.length ≤ capacity := hfits
    rw [List.cons_append, firstFault?]
    by_cases h : (L.after c).reaches = true
    · rw [show (L.after c).fault? capacity = none by rw [fault?, if_neg (by omega), if_pos h]]
      exact ih h hfits hmiss
    · rw [show (L.after c).fault? capacity = some branchOutOfRange by
        rw [fault?, if_neg (by omega), if_neg h]]

end

/-! ## What the words stand for -/

theorem admits_int {r : Reg} (h : r.isInt = true) : RegClass.int.admits r = true := by
  cases r with
  | x n => rfl
  | f n => cases h
  | none => cases h

theorem decode_branch {o : Op} {rs1 rs2 : Reg} {d : Int64} (ho : o.info.format = .branch) (h1 : rs1.isInt = true)
    (h2 : rs2.isInt = true) (hd : fitsSigned 13 d = true) (heven : d.toInt % 2 = 0) :
    decode (o.encode .none rs1 rs2 d 0) = some { op := o, rd := .none, rs1, rs2, imm := d } := by
  obtain ⟨ed, e1, e2⟩ := branch_classes ho
  have h := @Op.decode_encode o (by rintro rfl; cases ho) .none rs1 rs2 d (by rw [ed]; rfl)
    (by rw [e1]; exact admits_int h1) (by rw [e2]; exact admits_int h2)
    (by rw [ho, Format.admits, hd, heven]; rfl) (by rw [ho]; rfl)
  rw [h, Op.instOf, ho]
  rfl

variable {rd : Reg} {L : Layout}

theorem decode_jump {d : Int64} (h : rd.isInt = true) (hd : fitsSigned 21 d = true) (heven : d.toInt % 2 = 0) :
    decode (Op.jal.encode rd .none .none d 0) = some { op := .jal, rd, rs1 := .none, rs2 := .none, imm := d } :=
  Op.decode_encode (o := .jal) nofun (admits_int h) rfl rfl
    (by show (fitsSigned 21 d && d.toInt % 2 == 0) = true; rw [hd, heven]; rfl) rfl

theorem decode_addi {rs1 : Reg} {v : Int64} (h : rd.isInt = true) (h1 : rs1.isInt = true) (hv : fitsSigned 12 v = true) :
    decode (Op.addi.encode rd rs1 .none v 0) = some { op := .addi, rd, rs1, rs2 := .none, imm := v } :=
  Op.decode_encode (o := .addi) nofun (admits_int h) (admits_int h1) rfl hv rfl

/-- Only the low twenty bits of the high part are kept, as a signed number. -/
theorem decode_auipc (v : Int64) (h : rd.isInt = true) :
    decode (Op.auipc.encode rd .none .none v 0) =
      some { op := .auipc, rd, rs1 := .none, rs2 := .none, imm := signExtend 20 (lowWord v) } := by
  have same : Op.auipc.encode rd .none .none v 0 = Op.auipc.encode rd .none .none (signExtend 20 (lowWord v)) 0 := by
    show encodeU 0x17 (regField rd) (lowWord v) = encodeU 0x17 (regField rd) (lowWord (signExtend 20 (lowWord v)))
    have e : lowWord v &&& 0xfffff = lowWord (signExtend 20 (lowWord v)) &&& 0xfffff := by
      apply UInt32.toNat_inj.mp
      rw [toNat_low _ 0xfffff 20 rfl, toNat_low _ 0xfffff 20 rfl, lowWord_signExtend (by decide)]
    rw [encodeU, encodeU, e]
  have fits : fitsSigned 20 (signExtend 20 (lowWord v)) = true := by
    have := Int.bmod_lt (x := ((lowWord v).toNat : Int)) (m := 2 ^ 20) (by decide)
    have := Int.le_bmod (x := ((lowWord v).toNat : Int)) (m := 2 ^ 20) (by decide)
    rw [fitsSigned_iff, signExtend, Int64.toInt_ofInt_of_le (by omega) (by omega)]
    omega
  rw [same]
  exact Op.decode_encode (o := .auipc) (by decide) (admits_int h) rfl rfl fits rfl

/-- Every reference to a bound label holds the distance to it, and every other word is the one
that was written. Pieces are four bytes; a label bound at piece `m` has the position `4 * m`. -/
structure Resolved (L : Layout) (b : CodeBuffer) : Prop where
  size : b.offset = 4 * L.pieces.length
  plain : ∀ k w, L.pieces[k]? = some (.word w) → b.wordAt (Int64.ofNat (4 * k)) = .ok w
  branch : ∀ (k : Nat) o rs1 rs2 l (m : Nat), L.pieces[k]? = some (.branch o rs1 rs2 l) → L.mark l = some m →
    ∃ w imm, b.wordAt (Int64.ofNat (4 * k)) = .ok w ∧
      decode w = some { op := o, rd := .none, rs1, rs2, imm } ∧ imm.toInt = 4 * m - 4 * k
  jump : ∀ (k : Nat) rd l (m : Nat), L.pieces[k]? = some (.jump rd l) → L.mark l = some m →
    ∃ w imm, b.wordAt (Int64.ofNat (4 * k)) = .ok w ∧
      decode w = some { op := .jal, rd, rs1 := .none, rs2 := .none, imm } ∧ imm.toInt = 4 * m - 4 * k
  /-- The two parts of an address make up the distance in 32-bit arithmetic, and as numbers when
  it lies within the reach of an `auipc`. -/
  address : ∀ (k : Nat) rd l (m : Nat), L.pieces[k]? = some (.high rd l) → L.mark l = some m →
    ∃ w w' hi lo, b.wordAt (Int64.ofNat (4 * k)) = .ok w ∧ b.wordAt (Int64.ofNat (4 * (k + 1))) = .ok w' ∧
      decode w = some { op := .auipc, rd, rs1 := .none, rs2 := .none, imm := hi } ∧
      decode w' = some { op := .addi, rd, rs1 := rd, rs2 := .none, imm := lo } ∧
      (hi.toInt * 2 ^ 12 + lo.toInt) % 2 ^ 32 = (4 * m - 4 * k : Int) % 2 ^ 32 ∧
      (-(2 ^ 31) ≤ (4 * m - 4 * k : Int) + 2 ^ 11 → (4 * m - 4 * k : Int) + 2 ^ 11 < 2 ^ 31 →
        hi.toInt * 2 ^ 12 + lo.toInt = 4 * m - 4 * k)

section
variable {L : Layout} {a : Assembler}

variable {p : Piece} {o : Op} {rs1 rs2 : Reg}

theorem Holds.wordAt (h : Holds L a) {k : Nat} (hp : L.pieces[k]? = some p) :
    a.buf.wordAt (Int64.ofNat (4 * k)) = .ok (p.encode (L.distance p k)) :=
  h.spells.wordAt (by rw [words, getElem?_spelled, hp]; rfl)

/-- The bounds of the positions in a buffer. -/
theorem Holds.small (h : Holds L a) {k l m : Nat} (hp : L.pieces[k]? = some p) (hm : L.mark l = some m) :
    4 * k < 2 ^ 50 ∧ 4 * m < 2 ^ 50 := by
  have := (List.getElem?_eq_some_iff.mp hp).1
  have := h.sound.within l m hm
  have := h.room
  have := h.spells.limit
  omega

theorem Holds.proper (h : Holds L a) {k : Nat} (hp : L.pieces[k]? = some p) : p.Proper :=
  h.sound.formed.proper p (List.mem_of_getElem? hp)

theorem decode_high_low {d : Int64} (h : -(2 ^ 62) ≤ d.toInt) (h' : d.toInt < 2 ^ 62) :
    fitsSigned 12 (lowPart d) = true ∧
      ((signExtend 20 (lowWord (highPart d))).toInt * 2 ^ 12 + (lowPart d).toInt) % 2 ^ 32 =
        d.toInt % 2 ^ 32 ∧
      (-(2 ^ 31) ≤ d.toInt + 2 ^ 11 → d.toInt + 2 ^ 11 < 2 ^ 31 →
        (signExtend 20 (lowWord (highPart d))).toInt * 2 ^ 12 + (lowPart d).toInt = d.toInt) := by
  have ehi := toInt_highPart h h'
  have elo := toInt_lowPart h h'
  have low := toInt_lowWord (highPart d)
  have hup := Int.bmod_lt (x := ((lowWord (highPart d)).toNat : Int)) (m := 2 ^ 20) (by decide)
  have hdn := Int.le_bmod (x := ((lowWord (highPart d)).toNat : Int)) (m := 2 ^ 20) (by decide)
  have hsame : (((lowWord (highPart d)).toNat : Int).bmod (2 ^ 20)) % 2 ^ 20 =
      (highPart d).toInt % 2 ^ 20 := by
    have := Int.bmod_emod (x := ((lowWord (highPart d)).toNat : Int)) (m := 2 ^ 20)
    omega
  have hsign : (signExtend 20 (lowWord (highPart d))).toInt =
      ((lowWord (highPart d)).toNat : Int).bmod (2 ^ 20) := by
    rw [signExtend, Int64.toInt_ofInt_of_le (by omega) (by omega)]
  rw [hsign, fitsSigned_iff, elo]
  rw [ehi] at hsame
  generalize ((lowWord (highPart d)).toNat : Int).bmod (2 ^ 20) = hi at hup hdn hsame ⊢
  refine ⟨by omega, by omega, by omega⟩

/-- What an assembler that holds a layout has in its buffer. -/
theorem Holds.resolved (h : Holds L a) : Resolved L a.buf where
  size := h.offset
  plain := fun k w hk => h.wordAt hk
  branch := by
    intro k o rs1 rs2 l m hk hm
    obtain ⟨hk', hm'⟩ := h.small hk hm
    obtain ⟨ho, h1, h2⟩ := h.proper hk
    have hgap := toInt_gap (m := m) (k := k) (by omega) (by omega)
    have heven : (gap m k).toInt % 2 = 0 := by omega
    have hreach := reaches_iff.mp h.reaches k _ hk
    have hword := h.wordAt hk
    rw [distance_bound (l := l) rfl hm] at hreach hword
    exact ⟨_, gap m k, hword, decode_branch ho h1 h2 hreach heven, hgap⟩
  jump := by
    intro k rd l m hk hm
    obtain ⟨hk', hm'⟩ := h.small hk hm
    have hgap := toInt_gap (m := m) (k := k) (by omega) (by omega)
    have heven : (gap m k).toInt % 2 = 0 := by omega
    have hreach := reaches_iff.mp h.reaches k _ hk
    have hword := h.wordAt hk
    rw [distance_bound (l := l) rfl hm] at hreach hword
    exact ⟨_, gap m k, hword, decode_jump (h.proper hk) hreach heven, hgap⟩
  address := by
    intro k rd l m hk hm
    obtain ⟨hk', hm'⟩ := h.small hk hm
    have hgap := toInt_gap (m := m) (k := k) (by omega) (by omega)
    have hnext := h.sound.formed.high k rd l hk
    have hword := h.wordAt hk
    have hword' := h.wordAt hnext
    rw [distance_bound (l := l) rfl hm] at hword hword'
    obtain ⟨hfits, hmod, hexact⟩ := decode_high_low (d := gap m k) (by omega) (by omega)
    rw [hgap] at hmod hexact
    exact ⟨_, _, _, _, hword, hword', decode_auipc _ (h.proper hk), decode_addi (h.proper hk) (h.proper hk) hfits, hmod,
      hexact⟩

/-! ## Where branches go -/

theorem pc_add_gap (base : UInt64) (m k : Nat) :
    base + UInt64.ofNat (4 * k) + (gap m k).toUInt64 = base + UInt64.ofNat (4 * m) := by
  rw [gap, Int64.toUInt64_sub, Int64.toUInt64_ofNat', Int64.toUInt64_ofNat', UInt64.add_assoc,
    UInt64.add_comm (UInt64.ofNat (4 * k)), UInt64.sub_add_cancel]

theorem pc_next (base : UInt64) (k : Nat) : base + UInt64.ofNat (4 * k) + 4 = base + UInt64.ofNat (4 * (k + 1)) := by
  rw [UInt64.add_assoc, show 4 * (k + 1) = 4 * k + 4 by omega, UInt64.ofNat_add]
  rfl

variable {M : Machine} {base : UInt64} {k l m : Nat}

theorem Holds.fetch (h : Holds L a) (hM : M.Loaded base a.buf.bytes) (hp : L.pieces[k]? = some p)
    (hpc : M.pc = base + UInt64.ofNat (4 * k)) : M.fetch = p.encode (L.distance p k) :=
  h.spells.fetch hM (by rw [words, getElem?_spelled, hp]; rfl) hpc

theorem Holds.step_branch (h : Holds L a) (hM : M.Loaded base a.buf.bytes)
    (hp : L.pieces[k]? = some (.branch o rs1 rs2 l))
    (hm : L.mark l = some m) (hpc : M.pc = base + UInt64.ofNat (4 * k)) :
    M.step = some { M with pc := base + UInt64.ofNat (4 * if o.taken (M.get rs1) (M.get rs2) then m else k + 1) } := by
  obtain ⟨hk', hm'⟩ := h.small hp hm
  obtain ⟨ho, h1, h2⟩ := h.proper hp
  have hgap := toInt_gap (m := m) (k := k) (by omega) (by omega)
  have heven : (gap m k).toInt % 2 = 0 := by omega
  have hfetch := h.fetch hM hp hpc
  have hreach := reaches_iff.mp h.reaches k _ hp
  rw [distance_bound (l := l) rfl hm] at hfetch hreach
  rw [step_of_decode (by rw [hfetch]; exact decode_branch ho h1 h2 hreach heven)]
  unfold exec
  rw [ho]
  show some (if o.taken (M.get rs1) (M.get rs2) = true then { M with pc := M.pc + (gap m k).toUInt64 } else
    { M with pc := M.pc + 4 }) = _
  rw [hpc, pc_add_gap, pc_next]
  cases o.taken (M.get rs1) (M.get rs2) <;> rfl

theorem Holds.step_jal (h : Holds L a) (hM : M.Loaded base a.buf.bytes) {rd : Reg} (hp : L.pieces[k]? = some (.jump rd l))
    (hm : L.mark l = some m) (hpc : M.pc = base + UInt64.ofNat (4 * k)) :
    M.step = some { M.set rd (M.pc + 4) with pc := base + UInt64.ofNat (4 * m) } := by
  obtain ⟨hk', hm'⟩ := h.small hp hm
  have hgap := toInt_gap (m := m) (k := k) (by omega) (by omega)
  have heven : (gap m k).toInt % 2 = 0 := by omega
  have hfetch := h.fetch hM hp hpc
  have hreach := reaches_iff.mp h.reaches k _ hp
  rw [distance_bound (l := l) rfl hm] at hfetch hreach
  rw [step_of_decode (by rw [hfetch]; exact decode_jump (h.proper hp) hreach heven)]
  show some { M.set rd (M.pc + 4) with pc := M.pc + (gap m k).toUInt64 } = _
  rw [hpc, pc_add_gap]

theorem Holds.step_jump (h : Holds L a) (hM : M.Loaded base a.buf.bytes) (hp : L.pieces[k]? = some (.jump .zr l))
    (hm : L.mark l = some m) (hpc : M.pc = base + UInt64.ofNat (4 * k)) :
    M.step = some { M with pc := base + UInt64.ofNat (4 * m) } := h.step_jal hM hp hm hpc

theorem Holds.step_over (h : Holds L a) (hM : M.Loaded base a.buf.bytes) (ho : o.info.format = .branch)
    (h1 : rs1.isInt = true) (h2 : rs2.isInt = true)
    (hp : L.pieces[k]? = some (.word (o.negated.encode .none rs1 rs2 8 0)))
    (hpc : M.pc = base + UInt64.ofNat (4 * k)) :
    M.step = some { M with pc := base + UInt64.ofNat (4 * if o.taken (M.get rs1) (M.get rs2) then k + 1 else k + 2) } := by
  have hfetch := h.fetch hM hp hpc
  rw [step_of_decode (by rw [hfetch]; exact decode_branch (format_negated ho) h1 h2 (by decide) (by decide))]
  unfold exec
  rw [format_negated ho]
  show some (if o.negated.taken (M.get rs1) (M.get rs2) = true then { M with pc := M.pc + 8 } else
    { M with pc := M.pc + 4 }) = _
  have hover : base + UInt64.ofNat (4 * k) + 8 = base + UInt64.ofNat (4 * (k + 2)) := by
    rw [show 4 * (k + 2) = 4 * (k + 1) + 4 by omega, UInt64.ofNat_add, ← UInt64.add_assoc, ← pc_next,
      UInt64.add_assoc (base + _)]
    rfl
  rw [taken_negated ho, hpc, pc_next, hover]
  cases o.taken (M.get rs1) (M.get rs2) <;> rfl

/-- A conditional branch goes to its label exactly when its condition holds, and on otherwise,
whichever form it has. -/
theorem Holds.branch_goes (h : Holds L a) (hM : M.Loaded base a.buf.bytes) {L0 : Layout}
    (hlegal : L0.Legal (.bcond o rs1 rs2 l)) {ps : List Piece}
    (hL : L.pieces = (L0.after (.bcond o rs1 rs2 l)).pieces ++ ps) (hm : L.mark l = some m)
    (hpc : M.pc = base + UInt64.ofNat (4 * L0.pieces.length)) :
    ∃ n, 0 < n ∧ M.steps n = some { M with pc := base + UInt64.ofNat (4 *
      if o.taken (M.get rs1) (M.get rs2) then m else (L0.after (.bcond o rs1 rs2 l)).pieces.length) } := by
  obtain ⟨ho, h1, h2, _⟩ := hlegal
  cases hnear : L0.near l with
  | true =>
    rw [show L0.after (.bcond o rs1 rs2 l) = L0.write [.branch o rs1 rs2 l] from if_pos hnear] at hL ⊢
    have hp : L.pieces[L0.pieces.length]? = some (.branch o rs1 rs2 l) := by
      rw [hL, Layout.write, List.append_assoc, List.getElem?_append_right (Nat.le_refl _), Nat.sub_self]
      rfl
    refine ⟨1, by decide, ?_⟩
    rw [steps_one, h.step_branch hM hp hm hpc, Layout.write, List.length_append]
    rfl
  | false =>
    rw [show L0.after (.bcond o rs1 rs2 l) = L0.write [.word (o.negated.encode .none rs1 rs2 8 0), .jump .zr l] from
      if_neg (by rw [hnear]; decide)] at hL ⊢
    have hp : L.pieces[L0.pieces.length]? = some (.word (o.negated.encode .none rs1 rs2 8 0)) := by
      rw [hL, Layout.write, List.append_assoc, List.getElem?_append_right (Nat.le_refl _), Nat.sub_self]
      rfl
    have hp' : L.pieces[L0.pieces.length + 1]? = some (.jump .zr l) := by
      rw [hL, Layout.write, List.append_assoc, List.getElem?_append_right (by omega), Nat.add_sub_cancel_left]
      rfl
    have first := h.step_over hM ho h1 h2 hp hpc
    rw [Layout.write, List.length_append]
    cases htaken : o.taken (M.get rs1) (M.get rs2) with
    | false =>
      rw [htaken] at first
      exact ⟨1, by decide, by rw [steps_one, first]; rfl⟩
    | true =>
      rw [htaken] at first
      refine ⟨2, by decide, ?_⟩
      rw [Machine.steps_add 1 1, steps_one, first]
      show steps 1 _ = _
      rw [steps_one]
      exact h.step_jump (M := { M with pc := base + UInt64.ofNat (4 * (L0.pieces.length + 1)) }) hM hp' hm rfl

end

/-! ## Calls on a new buffer -/

/-- The layout of calls on a new assembler. -/
def layoutOf (calls : List Call) : Layout := afterAll {} calls

/-- Some branch is four kilobytes or more away from its label, or some jump a megabyte. -/
def OutOfReach (L : Layout) : Prop :=
  ∃ (k l m : Nat), L.mark l = some m ∧
    ((∃ o rs1 rs2, L.pieces[k]? = some (.branch o rs1 rs2 l) ∧
        ¬ (-(2 ^ 12) ≤ (4 * m - 4 * k : Int) ∧ (4 * m - 4 * k : Int) < 2 ^ 12)) ∨
      (∃ rd, L.pieces[k]? = some (.jump rd l) ∧
        ¬ (-(2 ^ 20) ≤ (4 * m - 4 * k : Int) ∧ (4 * m - 4 * k : Int) < 2 ^ 20)))

theorem outOfReach_iff (hs : L.Sound) (hlen : 4 * L.pieces.length < 2 ^ 62) : OutOfReach L ↔ L.reaches = false := by
  have toInt : ∀ {k l m : Nat} {p : Piece}, L.pieces[k]? = some p → L.mark l = some m →
      (gap m k).toInt = 4 * m - 4 * k := by
    intro k l m p hp hm
    have := (List.getElem?_eq_some_iff.mp hp).1
    have := hs.within l m hm
    exact toInt_gap (by omega) (by omega)
  constructor
  · rintro ⟨k, l, m, hm, ⟨o, rs1, rs2, hp, hfar⟩ | ⟨rd, hp, hfar⟩⟩
    · rw [Bool.eq_false_iff]
      intro hreach
      have := reaches_iff.mp hreach k _ hp
      rw [distance_bound (l := l) rfl hm] at this
      have := (fitsSigned_iff 13 (gap m k)).mp this
      rw [toInt hp hm] at this
      exact hfar this
    · rw [Bool.eq_false_iff]
      intro hreach
      have := reaches_iff.mp hreach k _ hp
      rw [distance_bound (l := l) rfl hm] at this
      have := (fitsSigned_iff 21 (gap m k)).mp this
      rw [toInt hp hm] at this
      exact hfar this
  · intro hmiss
    -- otherwise every piece reaches its label
    apply Classical.byContradiction
    intro hnone
    rw [Bool.eq_false_iff] at hmiss
    refine hmiss (reaches_iff.mpr fun k p hp => ?_)
    cases p with
    | branch o rs1 rs2 l =>
      cases hm : L.mark l with
      | none => rw [distance_unbound (l := l) rfl hm]; rfl
      | some m =>
        rw [distance_bound (l := l) rfl hm]
        refine (fitsSigned_iff 13 (gap m k)).mpr ?_
        rw [toInt hp hm]
        exact Classical.byContradiction fun hfar => hnone ⟨k, l, m, hm, .inl ⟨o, rs1, rs2, hp, hfar⟩⟩
    | jump rd l =>
      cases hm : L.mark l with
      | none => rw [distance_unbound (l := l) rfl hm]; rfl
      | some m =>
        rw [distance_bound (l := l) rfl hm]
        refine (fitsSigned_iff 21 (gap m k)).mpr ?_
        rw [toInt hp hm]
        exact Classical.byContradiction fun hfar => hnone ⟨k, l, m, hm, .inr ⟨rd, hp, hfar⟩⟩
    | _ => rfl

theorem sound_empty : ({} : Layout).Sound where
  formed := ⟨by simp, by simp, by simp⟩
  known := by simp
  within := by simp [mark]

theorem sound_afterAll (hs : L.Sound) {calls : List Call} (hc : L.LegalAll calls) : (L.afterAll calls).Sound := by
  induction calls generalizing L with
  | nil => exact hs
  | cons c rest ih => exact ih (sound_after hs hc.1) hc.2

theorem legalAll_append {before rest : List Call} (h : L.LegalAll (before ++ rest)) :
    L.LegalAll before ∧ (L.afterAll before).LegalAll rest := by
  induction before generalizing L with
  | nil => exact ⟨trivial, h⟩
  | cons c before ih => exact ⟨⟨h.1, (ih h.2).1⟩, (ih h.2).2⟩

theorem afterAll_append (L : Layout) (before rest : List Call) :
    L.afterAll (before ++ rest) = (L.afterAll before).afterAll rest := List.foldl_append

/-- A new buffer is empty and works. -/
theorem holds_create {name : String} {base : UInt64} {capacity : Int64} {buf : CodeBuffer}
    (h : create name base capacity = .ok buf) : Holds {} { buf } := by
  unfold create at h
  split at h
  · cases h
  · rename_i hcap
    cases h
    simp only [Bool.or_eq_true, decide_eq_true_eq, not_or, Int.not_lt] at hcap
    have hsmall : capacity.toInt ≤ 2 ^ 48 := hcap.2
    refine ⟨⟨rfl, ⟨rfl, nofun⟩, Nat.zero_le _, ?_⟩, rfl, sound_empty, rfl⟩
    show capacity.toInt.toNat ≤ 2 ^ 48
    omega

/-- Labels resolve. Calls on a new buffer end normally. When the buffer has not failed, every
reference holds the distance to its label and every other word is the one that was written, and
a conditional branch goes to its label exactly when its condition holds, in either form. The
buffer fails exactly when the code does not fit or a reference cannot reach its label, and for
the second reason whenever the code fits so far. -/
theorem labels_resolve {name : String} {base : UInt64} {capacity : Int64} {buf : CodeBuffer}
    (hbuf : create name base capacity = .ok buf) (t : Target) {calls : List Call}
    (hlegal : LegalAll {} calls) :
    ∃ a, runAll calls t { buf } = .ok ((), a) ∧
      (a.buf.failed = false → Resolved (layoutOf calls) a.buf) ∧
      (a.buf.failed = false ↔
        4 * (layoutOf calls).pieces.length ≤ buf.capacity ∧ ¬ OutOfReach (layoutOf calls)) ∧
      (∀ before after, calls = before ++ after → 4 * (layoutOf before).pieces.length ≤ buf.capacity →
        OutOfReach (layoutOf before) → a.buf.failure = "branch target out of range") ∧
      (a.buf.failed = false → ∀ before o rs1 rs2 l after m, calls = before ++ .bcond o rs1 rs2 l :: after →
        (layoutOf calls).mark l = some m → ∀ (M : Machine) (start : UInt64), M.Loaded start a.buf.bytes →
        M.pc = start + UInt64.ofNat (4 * (layoutOf before).pieces.length) →
        ∃ n, 0 < n ∧ M.steps n = some { M with pc := start + UInt64.ofNat (4 *
          if o.taken (M.get rs1) (M.get rs2) then m
          else (layoutOf (before ++ [.bcond o rs1 rs2 l])).pieces.length) }) := by
  have hstart := holds_create hbuf
  have hlimit : buf.capacity ≤ 2 ^ 48 := hstart.spells.limit
  obtain ⟨a, hrun, hend⟩ := runAll_holds (t := t) hstart hlegal
  have hnone := firstFault_none_iff sound_empty hlegal (Nat.zero_le buf.capacity) rfl
  -- a buffer that has not failed holds the last layout
  have hholds : a.buf.failed = false → Holds (layoutOf calls) a := by
    intro hworking
    cases hfault : firstFault? buf.capacity {} calls with
    | none => rw [hfault] at hend; exact hend
    | some reason =>
      rw [hfault] at hend
      rw [hend.2] at hworking
      cases hworking
  refine ⟨a, hrun, fun hworking => (hholds hworking).resolved, ?_, ?_, ?_⟩
  · constructor
    · intro hworking
      have h := hholds hworking
      have hroom := h.room
      have hlim := h.spells.limit
      cases hfault : firstFault? buf.capacity {} calls with
      | none =>
        refine ⟨(hnone.mp hfault).1, ?_⟩
        rw [outOfReach_iff h.sound (by omega), h.reaches]
        decide
      | some reason =>
        rw [hfault] at hend
        rw [hend.2] at hworking
        cases hworking
    · rintro ⟨hfits, hreach⟩
      have hsound := sound_afterAll sound_empty hlegal
      have hfault : firstFault? buf.capacity {} calls = none := by
        refine hnone.mpr ⟨hfits, ?_⟩
        have := mt (outOfReach_iff hsound (show 4 * (layoutOf calls).pieces.length < 2 ^ 62 by omega)).mpr hreach
        exact Bool.of_not_eq_false this
      rw [hfault] at hend
      exact hend.spells.working
  · rintro before after rfl hfits hreach
    have hbefore := (legalAll_append hlegal).1
    have hmiss := (outOfReach_iff (sound_afterAll sound_empty hbefore) (by
      show 4 * (layoutOf before).pieces.length < 2 ^ 62; omega)).mp hreach
    rw [firstFault_miss rfl hfits hmiss] at hend
    exact hend.1
  · rintro hworking before o rs1 rs2 l after m rfl hm M start hM hpc
    obtain ⟨ps, hps⟩ := pieces_afterAll ((layoutOf before).after (.bcond o rs1 rs2 l)) after
    have hlast : layoutOf (before ++ .bcond o rs1 rs2 l :: after) =
        ((layoutOf before).after (.bcond o rs1 rs2 l)).afterAll after := afterAll_append _ _ _
    have hone : layoutOf (before ++ [Call.bcond o rs1 rs2 l]) = (layoutOf before).after (.bcond o rs1 rs2 l) :=
      afterAll_append _ _ _
    rw [hone]
    exact (hholds hworking).branch_goes hM (legalAll_append hlegal).2.1 (by rw [hlast, hps]) hm hpc

/-- A branch forward over a jump, a branch back to the label itself and its address. -/
theorem labels_resolve_both_ways :
    let calls := [.newLabel, .bcond .beq (.x 10) (.x 11) 1, .plain .addi (.x 10) (.x 10) .none 1 0, .bind 1,
      .branch .bne (.x 10) (.x 0) 1, .la (.x 5) 1]
    LegalAll {} calls ∧
      ∃ a, runAll calls ⟨{}, .empty⟩ { buf := { name := "loop", base := 0, capacity := 64 } } = .ok ((), a) ∧
        a.buf.failed = false ∧ Resolved (layoutOf calls) a.buf := by
  intro calls
  have hlegal : LegalAll {} calls :=
    ⟨trivial, ⟨rfl, rfl, rfl, by decide⟩, rfl, ⟨by decide, rfl⟩, ⟨rfl, rfl, rfl, by decide⟩, ⟨rfl, by decide⟩, trivial⟩
  refine ⟨hlegal, ?_⟩
  obtain ⟨a, hrun, hresolved, hiff, _⟩ :=
    labels_resolve (show create "loop" 0 64 = .ok { name := "loop", base := 0, capacity := 64 } from rfl)
      ⟨{}, .empty⟩ hlegal
  have hworking : a.buf.failed = false := by
    refine hiff.mpr ⟨by decide, ?_⟩
    intro hfar
    have hmiss := (outOfReach_iff (L := layoutOf calls) (sound_afterAll sound_empty hlegal) (by decide)).mp hfar
    exact absurd hmiss (by decide)
  exact ⟨a, hrun, hworking, hresolved hworking⟩

/-! ## Labels too far away -/

/-- A word that does nothing. -/
def idle : Call := .plain .addi .zr .zr .none 0 0

/-- A reference to the first label, some words that do nothing, and the label. -/
def overWords (c : Call) (n : Nat) : List Call := .newLabel :: c :: (List.replicate n idle ++ [Call.bind 1])

theorem afterAll_idle (L : Layout) (n : Nat) :
    L.afterAll (List.replicate n idle) = L.write (List.replicate n (Piece.word (Op.addi.encode .zr .zr .none 0 0))) := by
  induction n generalizing L with
  | zero => exact congrArg (Layout.mk · _) (List.append_nil _).symm
  | succ n ih =>
    show (L.after idle).afterAll _ = _
    rw [ih, List.replicate_succ]
    exact write_write ..

theorem legalAll_idle {L : Layout} {n : Nat} {rest : List Call} (h : (L.afterAll (List.replicate n idle)).LegalAll rest) :
    L.LegalAll (List.replicate n idle ++ rest) := by
  induction n generalizing L with
  | zero => exact h
  | succ n ih => exact ⟨rfl, ih h⟩

/-- Words that do nothing fill a buffer until it overflows. -/
theorem firstFault_idle {L : Layout} {capacity n : Nat} (rest : List Call) (hreach : L.reaches = true)
    (hover : capacity < 4 * (L.pieces.length + n)) (hfits : 4 * L.pieces.length ≤ capacity) :
    L.firstFault? capacity (List.replicate n idle ++ rest) = some codeOverflow := by
  induction n generalizing L with
  | zero => omega
  | succ n ih =>
    rw [List.replicate_succ, List.cons_append, firstFault?]
    have hlen : (L.after idle).pieces.length = L.pieces.length + 1 := List.length_append
    have hreach' : (L.after idle).reaches = true := reaches_write.mpr ⟨hreach, fun j q hq => by
      rw [List.mem_singleton.mp (List.mem_of_getElem? hq)]
      rfl⟩
    by_cases h : capacity < 4 * (L.after idle).pieces.length
    · rw [fault?, if_pos h]
    · rw [fault?, if_neg h, if_pos hreach']
      exact ih hreach' (by omega) (by omega)

/-- The layout of a reference that is written first. -/
def firstPieces (c : Call) : Layout := (fresh {}).after c

section
variable {c : Call} (hmarks : (firstPieces c).marks = [none]) (n : Nat)
include hmarks

theorem legal_overWords (hc : (fresh {}).Legal c) : LegalAll {} (overWords c n) := by
  refine ⟨trivial, hc, legalAll_idle (L := firstPieces c) ?_⟩
  rw [afterAll_idle]
  refine ⟨⟨⟨by decide, ?_⟩, ?_⟩, trivial⟩
  · exact Nat.le_of_eq (congrArg List.length hmarks).symm
  · show (firstPieces c).marks[1 - 1]?.join = none
    rw [hmarks]
    rfl

theorem layout_overWords : layoutOf (overWords c n) =
    ⟨(firstPieces c).pieces ++ List.replicate n (Piece.word (Op.addi.encode .zr .zr .none 0 0)),
      [some ((firstPieces c).pieces.length + n)]⟩ := by
  show (firstPieces c).afterAll (List.replicate n idle ++ [Call.bind 1]) = _
  rw [afterAll_append, afterAll_idle]
  show place _ 1 = _
  rw [place, Layout.write, hmarks, List.length_append, List.length_replicate]
  rfl

omit hmarks in
theorem firstFault_overWords {n capacity : Nat} (hreach : (firstPieces c).reaches = true)
    (hfits : 4 * (firstPieces c).pieces.length ≤ capacity) (hover : capacity < 4 * ((firstPieces c).pieces.length + n)) :
    firstFault? capacity {} (overWords c n) = some codeOverflow := by
  have hnew : (Layout.after {} .newLabel).fault? capacity = none :=
    (if_neg (Nat.not_lt_zero _)).trans (if_pos rfl)
  have hone : ((Layout.after {} .newLabel).after c).fault? capacity = none :=
    (if_neg (Nat.not_lt.mpr hfits)).trans (if_pos hreach)
  rw [overWords, firstFault?, hnew]
  dsimp only
  rw [firstFault?, hone]
  exact firstFault_idle _ hreach hover hfits

end

/-- A branch out of reach is not what a buffer tells when the code did not fit before its label was
bound. An address two gigabytes away is not held: what is loaded lies as far on the other side. -/
theorem far_labels_are_not_always_told :
    let branching := overWords (.branch .beq .zr .zr 1) 1026
    let loading := overWords (.la (.x 5) 1) (2 ^ 29 - 2)
    (LegalAll {} branching ∧ OutOfReach (layoutOf branching) ∧
      ∃ a, runAll branching ⟨{}, .empty⟩ { buf := { name := "far", base := 0, capacity := 4104 } } = .ok ((), a) ∧
        a.buf.failure = "code buffer overflow") ∧
      LegalAll {} loading ∧ (layoutOf loading).mark 1 = some (2 ^ 29) ∧
        ∃ a w w' hi lo, runAll loading ⟨{}, .empty⟩
        { buf := { name := "far", base := 0, capacity := 2 ^ 31 } } = .ok ((), a) ∧
          a.buf.failed = false ∧ a.buf.wordAt 0 = .ok w ∧ a.buf.wordAt 4 = .ok w' ∧
          decode w = some { op := .auipc, rd := .x 5, rs1 := .none, rs2 := .none, imm := hi } ∧
          decode w' = some { op := .addi, rd := .x 5, rs1 := .x 5, rs2 := .none, imm := lo } ∧
          hi.toInt * 2 ^ 12 + lo.toInt = -2 ^ 31 := by
  intro branching loading
  have hbranching : LegalAll {} branching := legal_overWords rfl 1026 ⟨rfl, rfl, rfl, by decide⟩
  have hloading : LegalAll {} loading := legal_overWords rfl _ ⟨rfl, by decide⟩
  have hnear : layoutOf branching = _ := layout_overWords rfl 1026
  have hfar : layoutOf loading = _ := layout_overWords rfl _
  have hpieces {k : Nat} {p : Piece} (hk : k < 2) (hp : (firstPieces (.la (.x 5) 1)).pieces[k]? = some p) :
      (layoutOf loading).pieces[k]? = some p := by
    rw [hfar]
    exact (List.getElem?_append_left hk).trans hp
  have hmark : (layoutOf loading).mark 1 = some (2 ^ 29) := by
    rw [hfar]
    rfl
  refine ⟨⟨hbranching, ⟨0, 1, 1027, by rw [hnear]; rfl, .inl ⟨.beq, .zr, .zr, by rw [hnear]; rfl, by decide⟩⟩, ?_⟩,
    hloading, hmark, ?_⟩
  · exact runAll_fails (holds_create (show create "far" 0 4104 = .ok _ from rfl)) hbranching
      (firstFault_overWords rfl (by decide) (by decide))
  · have hfits : 4 * (layoutOf loading).pieces.length ≤ 2 ^ 31 := by
      rw [hfar, List.length_append, List.length_replicate]
      show 4 * (2 + _) ≤ _
      omega
    have hreaches : (layoutOf loading).reaches = true := reaches_iff.mpr fun k p hp => by
      have hp : p ∈ (layoutOf loading).pieces := List.mem_of_getElem? hp
      rw [hfar] at hp
      rcases List.mem_append.mp hp with hp | hp
      · rcases List.mem_cons.mp hp with rfl | hp
        · rfl
        · rw [List.mem_singleton.mp hp]
          rfl
      · rw [List.eq_of_mem_replicate hp]
        rfl
    obtain ⟨a, hrun, hend⟩ : ∃ a, _ ∧ Holds (layoutOf loading) a :=
      runAll_fits (t := ⟨{}, .empty⟩) (holds_create (show create "far" 0 (2 ^ 31) = .ok _ from rfl)) hloading
        ((firstFault_none_iff sound_empty hloading (Nat.zero_le _) rfl).mpr ⟨hfits, hreaches⟩)
    have high := hend.wordAt (k := 0) (hpieces (by decide) rfl)
    have low := hend.wordAt (k := 1) (hpieces (by decide) rfl)
    rw [distance_bound (l := 1) rfl hmark] at high low
    exact ⟨a, _, _, -2 ^ 19, 0, hrun, hend.spells.working, high, low, by decide +kernel, by decide +kernel, by decide⟩

end RiscvJit

import RiscvJit.Code.Assembler
import RiscvJit.Proofs.Code.Buffer
import RiscvJit.Proofs.Isa.RoundTrip

/-
  RiscvJit.Proofs.Code.References — words that refer to labels, and how they are corrected.

  A `Piece` is what one word of the code stands for: an instruction as it is, or one whose
  immediate is the distance to a label. `Piece.encode` is its word for a given distance. Then

    - correcting the word of a piece gives the word for the new distance, whatever distance
      the old one held (`patchBranch_encode`, `patchJump_encode`, `patchHigh_encode`,
      `patchLow_encode`);
    - correcting the code for one reference changes the words of that reference only, and
      fails the buffer when the distance is out of reach (`patchUse_reaches`,
      `patchUse_misses`);
    - so does correcting it for many references, one after the other (`patchUses_reach`,
      `patchUses_miss`).
-/

namespace RiscvJit

open Assembler
open CodeBuffer
open Op

/-- The distance from one word of the code to another. -/
def gap (target origin : Nat) : Int64 := Int64.ofNat (4 * target) - Int64.ofNat (4 * origin)

theorem toInt_gap {m k : Nat} (hm : 4 * m < 2 ^ 62) (hk : 4 * k < 2 ^ 62) : (gap m k).toInt = 4 * m - 4 * k := by
  rw [gap, Int64.toInt_sub, toInt_offset hm, toInt_offset hk, Int.bmod_eq_of_le] <;> omega

/-- What one word of the code stands for. -/
inductive Piece where
  /-- An instruction as it is. -/
  | word (w : UInt32)
  | branch (o : Op) (rs1 rs2 : Reg) (l : Label)
  | jump (rd : Reg) (l : Label)
  /-- The high part of the distance to a label, added to the pc. -/
  | high (rd : Reg) (l : Label)
  /-- The low part of the distance from the word before. -/
  | low (rd : Reg) (l : Label)
  deriving DecidableEq, Repr

namespace Piece

/-- The label that is referred to. -/
def label? : Piece → Option Label
  | word _ => none
  | branch _ _ _ l | jump _ l | high _ l | low _ l => some l

/-- The word, for a distance to the label. -/
def encode (p : Piece) (d : Int64) : UInt32 :=
  match p with
  | word w => w
  | branch o rs1 rs2 _ => o.encode .none rs1 rs2 d 0
  | jump rd _ => jal.encode rd .none .none d 0
  | high rd _ => auipc.encode rd .none .none (highPart d) 0
  | low rd _ => addi.encode rd rd .none (lowPart d) 0

/-- Where the distance of the piece at `k` starts. -/
def origin (p : Piece) (k : Nat) : Nat :=
  match p with
  | low _ _ => k - 1
  | _ => k

/-- The piece can hold the distance. -/
def reaches (p : Piece) (d : Int64) : Bool :=
  match p with
  | branch _ _ _ _ => fitsSigned 13 d
  | jump _ _ => fitsSigned 21 d
  | _ => true

/-- The reference that the piece at `k` records. -/
def use? (p : Piece) (k : Nat) : Option LabelUse :=
  match p with
  | branch _ _ _ _ => some ⟨Int64.ofNat (4 * k), 0⟩
  | jump _ _ => some ⟨Int64.ofNat (4 * k), 1⟩
  | high _ _ => some ⟨Int64.ofNat (4 * k), 2⟩
  | _ => none

/-- Branches are branches, and the registers of references are integer registers. -/
def Proper : Piece → Prop
  | word _ => True
  | branch o rs1 rs2 _ => o.info.format = .branch ∧ rs1.isInt = true ∧ rs2.isInt = true
  | jump rd _ | high rd _ | low rd _ => rd.isInt = true

/-- How many words are corrected for the reference of a piece. -/
def span : Piece → Nat
  | high _ _ => 2
  | _ => 1

/-- The reference by which the piece at `k` is corrected: the low part of a distance goes with
the high part before it. -/
def source? (p : Piece) (k : Nat) : Option LabelUse :=
  match p with
  | low _ _ => some ⟨Int64.ofNat (4 * (k - 1)), 2⟩
  | p => p.use? k

end Piece

/-! ## Correcting a word -/

/-- Of a word of three parts, the middle one and the low end. -/
theorem spread_outer {g m l : Nat} (hm : m < 2 ^ 13) (hl : l < 2 ^ 12) :
    spread ((g * 2 ^ 13 + m) * 2 ^ 12 + l) [(12, 13), (0, 7)] = m * 2 ^ 12 + l % 2 ^ 7 := by
  have top : ((g * 2 ^ 13 + m) * 2 ^ 12 + l) / 2 ^ 12 % 2 ^ 13 = m := by rw [(parts hl).1, (parts hm).2]
  have low : ((g * 2 ^ 13 + m) * 2 ^ 12 + l) % 2 ^ 7 = l % 2 ^ 7 := by
    rw [← Nat.mod_mod_of_dvd _ (show 2 ^ 7 ∣ 2 ^ 12 by decide), (parts hl).2]
  rw [spread, spread, spread, top, Nat.pow_zero, Nat.div_one, low, Nat.mul_one, Nat.add_zero]

/-- A word without its two outer fields of seven and of five bits. -/
theorem spread_around {opcode f3 s1 s2 f g : Nat} (hop : opcode < 2 ^ 7) (hf : f < 2 ^ 5) (h3 : f3 < 2 ^ 3)
    (h1 : s1 < 2 ^ 5) (h2 : s2 < 2 ^ 5) :
    spread (g * 2 ^ 25 + (s2 * 2 ^ 20 + (s1 * 2 ^ 15 + (f3 * 2 ^ 12 + (f * 2 ^ 7 + opcode))))) [(12, 13), (0, 7)] =
      s2 * 2 ^ 20 + (s1 * 2 ^ 15 + (f3 * 2 ^ 12 + opcode)) := by
  have e : g * 2 ^ 25 + (s2 * 2 ^ 20 + (s1 * 2 ^ 15 + (f3 * 2 ^ 12 + (f * 2 ^ 7 + opcode)))) =
      (g * 2 ^ 13 + (s2 * 2 ^ 8 + (s1 * 2 ^ 3 + f3))) * 2 ^ 12 + (f * 2 ^ 7 + opcode) := by omega
  have low := (parts (a := f) hop).2
  have outer := spread_outer (g := g) (place_lt h2 (place_lt h1 h3 (Nat.le_refl _)) (by decide))
    (place_lt hf hop (by decide))
  rw [← e] at outer
  refine outer.trans ?_
  clear outer e
  omega

theorem patchBranch_encode {o : Op} (ho : o.info.format = .branch) (rs1 rs2 : Reg) (d d' : Int64) :
    patchBranch (o.encode .none rs1 rs2 d 0) d' = o.encode .none rs1 rs2 d' 0 := by
  have hne : o ≠ .invalid := by rintro rfl; cases ho
  obtain ⟨hop, h3, _, _⟩ := OpInfo.regular_bounds (info_regular _ (mem_named _ hne))
  have h1 := regField_lt rs1
  have h2 := regField_lt rs2
  have hs := @split_encodeB _ _ _ _ (lowWord d) hop h3 h1 h2
  simp only [Op.encode, ho, patchBranch]
  -- what the mask leaves is the word of the other fields
  have rest : encodeB o.info.opcode o.info.funct3 (regField rs1) (regField rs2) (lowWord d) &&& ~~~branchMask =
      regField rs2 <<< 20 ||| (regField rs1 <<< 15 ||| (o.info.funct3 <<< 12 ||| o.info.opcode)) := by
    apply UInt32.toNat_inj.mp
    have e1 := toNat_field ⟨rfl, h3⟩ 12 12 ⟨rfl, hop⟩ (by decide)
    have e2 := toNat_field ⟨rfl, h1⟩ 15 15 e1 (by decide)
    have e3 := toNat_field ⟨rfl, h2⟩ 20 20 e2 (by decide)
    rw [e3.1, UInt32.toNat_and, show (~~~branchMask).toNat = ones [(12, 13), (0, 7)] from rfl,
      and_spread _ _ 32 (by decide), hs.sum, spread_around hop hs.rd_lt h3 h1 h2]
  rw [rest, encodeB]
  simp only [UInt32.or_assoc]
  rw [UInt32.or_comm (branchBits _)]
  simp only [UInt32.or_assoc]

/-- Below the twenty bits at the top stand the destination and the opcode. -/
theorem and_low_upper {w opcode rd : UInt32} {f3 s1 s2 f7 : Nat} (ho : opcode.toNat < 2 ^ 7) (hd : rd.toNat < 2 ^ 5)
    (hs : Split w opcode.toNat rd.toNat f3 s1 s2 f7) : w &&& (0xfff : UInt32) = rd <<< 7 ||| opcode := by
  apply UInt32.toNat_inj.mp
  rw [toNat_low w 0xfff 12 rfl, hs.sum, toNat_place (rfl : opcode.toNat = _) 7 7 rfl (by decide) (by omega) (by omega)]
  have := hs.funct3_lt
  have := hs.rs1_lt
  have := hs.rs2_lt
  omega

variable (rd : Reg)

theorem patchJump_encode (d d' : Int64) :
    patchJump (jal.encode rd .none .none d 0) d' = jal.encode rd .none .none d' 0 := by
  have hs := @split_encodeJ 0x6f _ (lowWord d) (by decide) (regField_lt rd)
  have rest := and_low_upper (by decide) (regField_lt rd) hs
  show encodeJ 0x6f (regField rd) (lowWord d) &&& 0xfff ||| jumpBits (lowWord d') = encodeJ 0x6f
    (regField rd) (lowWord d')
  rw [rest, encodeJ, UInt32.or_comm (_ ||| _), UInt32.or_assoc]

theorem patchHigh_encode (h d' : Int64) :
    patchHigh (auipc.encode rd .none .none h 0) d' =
      auipc.encode rd .none .none (highPart d') 0 := by
  have hs := @split_encodeU 0x17 _ (lowWord h) (by decide) (regField_lt rd)
  have rest := and_low_upper (by decide) (regField_lt rd) hs
  show encodeU 0x17 (regField rd) (lowWord h) &&& 0xfff |||
    (lowWord (highPart d') &&& 0xfffff) <<< (12 : UInt32) = encodeU 0x17 (regField rd) (lowWord (highPart d'))
  rw [rest, encodeU, UInt32.or_comm (_ ||| _), UInt32.or_assoc]

theorem patchLow_encode (rs1 : Reg) (v d' : Int64) :
    patchLow (addi.encode rd rs1 .none v 0) d' =
      addi.encode rd rs1 .none (lowPart d') 0 := by
  have hd := regField_lt rd
  have h1 := regField_lt rs1
  have hs := @split_encodeI 0x13 0 _ _ (lowWord v) (by decide) (by decide) hd h1
  have rest : encodeI 0x13 0 (regField rd) (regField rs1) (lowWord v) &&& (0xfffff : UInt32) =
      regField rs1 <<< 15 ||| ((0 : UInt32) <<< 12 ||| (regField rd <<< 7 ||| 0x13)) := by
    apply UInt32.toNat_inj.mp
    have lower := @toNat_lower 0x13 0 _ _ (by decide) (by decide) hd h1
    rw [toNat_low _ 0xfffff 20 rfl, hs.sum, lower.1, ← upper_field]
    exact (parts lower.2).2
  show encodeI 0x13 0 (regField rd) (regField rs1) (lowWord v) &&& 0xfffff |||
    (lowWord (lowPart d') &&& 0xfff) <<< (20 : UInt32) =
      encodeI 0x13 0 (regField rd) (regField rs1) (lowWord (lowPart d'))
  rw [rest, encodeI, UInt32.or_comm]
  simp only [UInt32.or_assoc]

/-! ## Code as pieces -/

/-- The words of the code, for the distances its pieces hold. -/
def spelled (ps : List Piece) (d : Piece → Nat → Int64) : List UInt32 := ps.mapIdx fun k p => p.encode (d p k)

section
variable {ps : List Piece} {d d' : Piece → Nat → Int64} {m : Nat}

theorem length_spelled : (spelled ps d).length = ps.length := List.length_mapIdx

theorem getElem?_spelled (k : Nat) : (spelled ps d)[k]? = ps[k]?.map fun p => p.encode (d p k) := List.getElem?_mapIdx

theorem spelled_append (qs : List Piece) :
    spelled (ps ++ qs) d = spelled ps d ++ spelled qs (fun q k => d q (ps.length + k)) := by
  rw [spelled, List.mapIdx_append]
  simp only [spelled, Nat.add_comm]

theorem spelled_congr (h : ∀ k (p : Piece), ps[k]? = some p → p.encode (d p k) = p.encode (d' p k)) :
    spelled ps d = spelled ps d' := by
  apply List.ext_getElem?
  intro k
  rw [getElem?_spelled, getElem?_spelled]
  cases hk : ps[k]? with
  | none => simp only [Option.map_none]
  | some p => simp only [Option.map_some, h k p hk]

/-- The pieces are proper, and the two parts of a distance stand side by side. -/
structure Formed (ps : List Piece) : Prop where
  proper : ∀ p ∈ ps, p.Proper
  high : ∀ k rd l, ps[k]? = some (Piece.high rd l) → ps[k + 1]? = some (Piece.low rd l)
  low : ∀ k rd l, ps[k]? = some (Piece.low rd l) → ∃ j, k = j + 1 ∧ ps[j]? = some (Piece.high rd l)

variable {j k : Nat} {q : Piece} {u : LabelUse}

theorem set_spelled {p : Piece} (hp : ps[k]? = some p) (v : Int64) :
    (spelled ps d).set k (p.encode v) = spelled ps fun q j => if j = k then v else d q j := by
  apply List.ext_getElem?
  intro j
  have hk : k < (spelled ps d).length := by
    rw [length_spelled]; exact (List.getElem?_eq_some_iff.mp hp).1
  by_cases hj : j = k
  · subst hj
    rw [List.getElem?_set_self hk, getElem?_spelled, hp, Option.map_some, if_pos rfl]
  · rw [List.getElem?_set_ne (Ne.symm hj), getElem?_spelled, getElem?_spelled]
    simp only [if_neg hj]

/-! ## Correcting a reference -/

/-- The distances after the references `us` were corrected for a label at `m`. -/
def resolved (m : Nat) (us : List LabelUse) (d : Piece → Nat → Int64) (q : Piece) (j : Nat) : Int64 :=
  if ∃ u ∈ us, q.source? j = some u then gap m (q.origin j) else d q j

theorem resolved_touched {us : List LabelUse} (hu : u ∈ us) (h : q.source? j = some u) :
    resolved m us d q j = gap m (q.origin j) := if_pos ⟨u, hu, h⟩

theorem resolved_untouched {us : List LabelUse} (h : ∀ u ∈ us, q.source? j ≠ some u) :
    resolved m us d q j = d q j := if_neg fun ⟨u, hu, e⟩ => h u hu e

theorem resolved_cons (m : Nat) (u : LabelUse) (us : List LabelUse) :
    resolved m us (resolved m [u] d) = resolved m (u :: us) d := by
  funext q j
  unfold resolved
  by_cases h1 : ∃ v ∈ us, q.source? j = some v
  · have h2 : ∃ v ∈ u :: us, q.source? j = some v := by
      obtain ⟨v, hv, e⟩ := h1
      exact ⟨v, List.mem_cons_of_mem _ hv, e⟩
    rw [if_pos h1, if_pos h2]
  · simp only [List.mem_cons, List.not_mem_nil, or_false, exists_eq_left, exists_eq_or_imp, h1, if_false]

theorem use_source {p : Piece} (hu : p.use? k = some u) : p.source? k = some u ∧ p.origin k = k := by
  cases p with
  | low rd l => cases hu
  | _ => exact ⟨hu, rfl⟩

theorem origin_le (q : Piece) (j : Nat) : q.origin j ≤ j := by
  cases q <;> simp only [Piece.origin] <;> omega

theorem span_pos (p : Piece) : 0 < p.span := by
  cases p <;> exact Nat.zero_lt_succ _

theorem offset_injective (hj : 4 * j < 2 ^ 62) (hk : 4 * k < 2 ^ 62) (h : Int64.ofNat (4 * j) = Int64.ofNat (4 * k)) :
    j = k := by
  have := congrArg Int64.toInt h
  rw [toInt_offset hj, toInt_offset hk] at this
  omega

theorem source_offset (h : q.source? j = some u) : u.offset = Int64.ofNat (4 * q.origin j) := by
  cases q <;> simp only [Piece.source?, Piece.use?, Option.some.injEq, reduceCtorEq] at h <;> subst h <;> rfl

section
variable {k : Nat} {p : Piece} {u : LabelUse}

theorem source_origin (hp : ps[k]? = some p) (hu : p.use? k = some u) {j : Nat} {q : Piece} (hq : ps[j]? = some q)
    (hlen : 4 * ps.length < 2 ^ 62) (h : q.source? j = some u) : q.origin j = k := by
  have hk : k < ps.length := (List.getElem?_eq_some_iff.mp hp).1
  have hj : j < ps.length := (List.getElem?_eq_some_iff.mp hq).1
  obtain ⟨hpu, hown⟩ := use_source hu
  have e := (source_offset h).symm.trans (source_offset hpu)
  rw [hown] at e
  have := origin_le q j
  exact offset_injective (by omega) (by omega) e

/-- A reference is the source of the piece that makes it and, for the address of a label, of the
next one. -/
theorem source_iff (hf : Formed ps) (hp : ps[k]? = some p) (hu : p.use? k = some u) {j : Nat} {q : Piece}
    (hq : ps[j]? = some q) (hlen : 4 * ps.length < 2 ^ 62) :
    q.source? j = some u ↔ k ≤ j ∧ j < k + p.span := by
  constructor
  · intro h
    have e := source_origin hp hu hq hlen h
    cases q with
    | low rd l =>
      obtain ⟨i, rfl, hi⟩ := hf.low j rd l hq
      have hik : i = k := e
      rw [← hik, hi] at hp
      cases hp
      simp only [Piece.span]
      omega
    | _ =>
      have hjk : j = k := e
      have := span_pos p
      omega
  · rintro ⟨hle, hlt⟩
    by_cases hjk : j = k
    · subst hjk
      rw [hp] at hq
      cases hq
      exact (use_source hu).1
    · cases p with
      | high rd l =>
        simp only [Piece.span] at hlt
        rw [show j = k + 1 by omega] at hq ⊢
        rw [hf.high k rd l hp] at hq
        cases hq
        exact hu
      | _ => simp only [Piece.span] at hlt; omega

/-- Corrections that set the distance in the span of one reference and nothing else. -/
theorem spelled_resolved_one (hf : Formed ps) (hp : ps[k]? = some p) (hu : p.use? k = some u)
    (hlen : 4 * ps.length < 2 ^ 62) (hd : ∀ q j, d' q j = if k ≤ j ∧ j < k + p.span then gap m k else d q j) :
    spelled ps d' = spelled ps (resolved m [u] d) := by
  refine spelled_congr fun j q hq => ?_
  rw [hd q j]
  have hiff := source_iff hf hp hu hq hlen
  by_cases h : k ≤ j ∧ j < k + p.span
  · rw [if_pos h, resolved_touched (List.mem_singleton_self u) (hiff.mpr h),
      source_origin hp hu hq hlen (hiff.mpr h)]
  · rw [if_neg h, resolved_untouched]
    intro v hv e
    rw [List.mem_singleton.mp hv] at e
    exact h (hiff.mp e)

end

end

section
variable {ps : List Piece} {d : Piece → Nat → Int64} {b : CodeBuffer} {m k : Nat} {p : Piece} {u : LabelUse}

theorem patchUse_failed (h : b.failed = true) (u : LabelUse) (target : Int64) :
    patchUse b u target = .ok b := if_pos h

/-- A reference that reaches its label is corrected; nothing else changes. -/
theorem patchUse_reaches (hs : b.Spells (spelled ps d)) (hf : Formed ps) (hp : ps[k]? = some p)
    (hu : p.use? k = some u) (hr : p.reaches (gap m k) = true) :
    ∃ bytes, patchUse b u (Int64.ofNat (4 * m)) = .ok { b with bytes } ∧
      ({ b with bytes } : CodeBuffer).Spells (spelled ps (resolved m [u] d)) := by
  have hroom := hs.room
  have hlim := hs.limit
  rw [length_spelled] at hroom
  have hlen : 4 * ps.length < 2 ^ 62 := by omega
  have hk : k < (spelled ps d).length := by rw [length_spelled]; exact (List.getElem?_eq_some_iff.mp hp).1
  have hw := hs.wordAt (k := k) (by rw [getElem?_spelled, hp]; rfl)
  have hworking : ¬ b.failed = true := by rw [hs.working]; decide
  have one_word : ∀ q j, (if j = k then gap m k else d q j) = if k ≤ j ∧ j < k + 1 then gap m k else d q j := by
    intro q j
    by_cases h : j = k
    · rw [if_pos h, if_pos (by omega)]
    · rw [if_neg h, if_neg (by omega)]
  have two_words : ∀ q j, (if j = k + 1 then gap m k else if j = k then gap m k else d q j) =
      if k ≤ j ∧ j < k + 2 then gap m k else d q j := by
    intro q j
    by_cases h : j = k + 1
    · rw [if_pos h, if_pos (by omega)]
    · by_cases h' : j = k
      · rw [if_neg h, if_pos h', if_pos (by omega)]
      · rw [if_neg h, if_neg h', if_neg (by omega)]
  unfold patchUse
  rw [if_neg hworking]
  cases p with
  | word w => cases hu
  | low rd l => cases hu
  | branch o rs1 rs2 l =>
    cases hu
    obtain ⟨bytes, hpatch, hspell⟩ := hs.patch hk ((Piece.branch o rs1 rs2 l).encode (gap m k))
    refine ⟨bytes, ?_, ?_⟩
    · rw [hw]
      show (if fitsSigned 13 (gap m k) = true then
        b.patch (Int64.ofNat (4 * k)) (patchBranch (o.encode .none rs1 rs2 _ 0) (gap m k)) else _) = _
      rw [if_pos (show fitsSigned 13 (gap m k) = true from hr),
        patchBranch_encode (hf.proper _ (List.mem_of_getElem? hp)).1]
      exact hpatch
    · rwa [set_spelled hp, spelled_resolved_one hf hp rfl hlen one_word] at hspell
  | jump rd l =>
    cases hu
    obtain ⟨bytes, hpatch, hspell⟩ := hs.patch hk ((Piece.jump rd l).encode (gap m k))
    refine ⟨bytes, ?_, ?_⟩
    · rw [hw]
      show (if fitsSigned 21 (gap m k) = true then
        b.patch (Int64.ofNat (4 * k)) (patchJump (jal.encode rd .none .none _ 0) (gap m k)) else _) = _
      rw [if_pos (show fitsSigned 21 (gap m k) = true from hr), patchJump_encode]
      exact hpatch
    · rwa [set_spelled hp, spelled_resolved_one hf hp rfl hlen one_word] at hspell
  | high rd l =>
    cases hu
    have hnext := hf.high k rd l hp
    obtain ⟨bytes, hpatch, hspell⟩ := hs.patch hk ((Piece.high rd l).encode (gap m k))
    rw [set_spelled hp] at hspell
    have hk' : k + 1 < (spelled ps fun q j => if j = k then gap m k else d q j).length := by
      rw [length_spelled]; exact (List.getElem?_eq_some_iff.mp hnext).1
    have hw' := hspell.wordAt (k := k + 1) (by rw [getElem?_spelled, hnext]; rfl)
    obtain ⟨bytes', hpatch', hspell'⟩ := hspell.patch hk' ((Piece.low rd l).encode (gap m k))
    have hoff : Int64.ofNat (4 * k) + 4 = Int64.ofNat (4 * (k + 1)) := by
      rw [show 4 * (k + 1) = 4 * k + 4 by omega, Int64.ofNat_add]
      rfl
    refine ⟨bytes', ?_, ?_⟩
    · rw [hw]
      show (b.patch (Int64.ofNat (4 * k)) (patchHigh (auipc.encode rd .none .none
        _ 0) (gap m k)) >>= fun b => b.wordAt (Int64.ofNat (4 * k) + 4) >>= fun next =>
        b.patch (Int64.ofNat (4 * k) + 4) (patchLow next (gap m k))) = _
      rw [patchHigh_encode]
      show (b.patch (Int64.ofNat (4 * k)) ((Piece.high rd l).encode (gap m k)) >>= _) = _
      rw [hpatch, hoff]
      show ((wordAt _ _) >>= _) = _
      rw [hw']
      show patch _ _ (patchLow (addi.encode rd rd .none _ 0) (gap m k)) = _
      rw [patchLow_encode]
      exact hpatch'
    · rwa [set_spelled hnext, spelled_resolved_one hf hp rfl hlen two_words] at hspell'

/-- A reference that does not reach its label fails the buffer. -/
theorem patchUse_misses (hs : b.Spells (spelled ps d)) (hp : ps[k]? = some p) (hu : p.use? k = some u)
    (hr : p.reaches (gap m k) = false) :
    patchUse b u (Int64.ofNat (4 * m)) = .ok (b.fail branchOutOfRange) := by
  have hw := hs.wordAt (k := k) (by rw [getElem?_spelled, hp]; rfl)
  have hworking : ¬ b.failed = true := by rw [hs.working]; decide
  unfold patchUse
  rw [if_neg hworking]
  cases p with
  | word w => cases hu
  | low rd l => cases hu
  | high rd l => cases hr
  | branch o rs1 rs2 l =>
    cases hu
    rw [hw]
    show (if fitsSigned 13 (gap m k) = true then _ else _) = _
    rw [if_neg (by rw [show fitsSigned 13 (gap m k) = false from hr]; decide)]
    rfl
  | jump rd l =>
    cases hu
    rw [hw]
    show (if fitsSigned 21 (gap m k) = true then _ else _) = _
    rw [if_neg (by rw [show fitsSigned 21 (gap m k) = false from hr]; decide)]
    rfl

end

/-! ## Correcting many references -/

/-- The reference is made by one of the pieces. -/
def Made (ps : List Piece) (m : Nat) (reach : Bool) (u : LabelUse) : Prop :=
  ∃ (k : Nat) (p : Piece), ps[k]? = some p ∧ p.use? k = some u ∧ p.reaches (gap m k) = reach

section
variable {ps : List Piece} {m : Nat}

theorem patchUses_failed {b : CodeBuffer} (h : b.failed = true) (target : Int64) (us : List LabelUse) :
    us.foldlM (fun b u => patchUse b u target) b = Except.ok b := by
  induction us with
  | nil => rfl
  | cons u us ih =>
    rw [List.foldlM_cons, patchUse_failed h]
    exact ih

/-- References that all reach the label are corrected; nothing else changes. -/
theorem patchUses_reach (hf : Formed ps) (us : List LabelUse) : ∀ {b : CodeBuffer} {d : Piece → Nat → Int64},
    b.Spells (spelled ps d) → (∀ u ∈ us, Made ps m true u) →
    ∃ bytes, us.foldlM (fun b u => patchUse b u (Int64.ofNat (4 * m))) b = Except.ok { b with bytes } ∧
      ({ b with bytes } : CodeBuffer).Spells (spelled ps (resolved m us d)) := by
  induction us with
  | nil =>
    intro b d hs _
    refine ⟨b.bytes, rfl, ?_⟩
    rwa [spelled_congr fun k (p : Piece) hp => congrArg p.encode (resolved_untouched (by simp))]
  | cons u us ih =>
    intro b d hs hall
    obtain ⟨k, p, hp, hu, hr⟩ := hall u List.mem_cons_self
    obtain ⟨bytes, hpatch, hspell⟩ := patchUse_reaches hs hf hp hu hr
    obtain ⟨bytes', hrest, hspell'⟩ := ih hspell fun v hv => hall v (List.mem_cons_of_mem _ hv)
    rw [resolved_cons] at hspell'
    refine ⟨bytes', ?_, hspell'⟩
    rw [List.foldlM_cons, hpatch]
    exact hrest

/-- One reference that misses the label fails the buffer. -/
theorem patchUses_miss (hf : Formed ps) (us : List LabelUse) : ∀ {b : CodeBuffer} {d : Piece → Nat → Int64},
    b.Spells (spelled ps d) → (∀ u ∈ us, ∃ reach, Made ps m reach u) → (∃ u ∈ us, Made ps m false u) →
    ∃ b', us.foldlM (fun b u => patchUse b u (Int64.ofNat (4 * m))) b = Except.ok b' ∧
      b'.failure = branchOutOfRange ∧ b'.capacity = b.capacity := by
  induction us with
  | nil => rintro b d _ _ ⟨u, hu, _⟩; cases hu
  | cons u us ih =>
    intro b d hs hall hmiss
    obtain ⟨reach, k, p, hp, hu, hr⟩ := hall u List.mem_cons_self
    cases reach with
    | false =>
      refine ⟨b.fail branchOutOfRange, ?_, failure_fail hs.working _, capacity_fail _ _⟩
      rw [List.foldlM_cons, patchUse_misses hs hp hu hr]
      exact patchUses_failed (failed_fail (by decide)) _ us
    | true =>
      obtain ⟨bytes, hpatch, hspell⟩ := patchUse_reaches hs hf hp hu hr
      have hlater : ∃ v ∈ us, Made ps m false v := by
        obtain ⟨v, hv, j, q, hq, hqu, hqr⟩ := hmiss
        rcases List.mem_cons.mp hv with rfl | hv
        · -- the head reaches, so it is not the one that misses
          have hroom := hs.room
          have hlim := hs.limit
          rw [length_spelled] at hroom
          have hlen : 4 * ps.length < 2 ^ 62 := by omega
          have e := source_origin hp hu hq hlen (use_source hqu).1
          rw [(use_source hqu).2] at e
          subst e
          rw [hq] at hp
          cases hp
          rw [hqr] at hr
          cases hr
        · exact ⟨v, hv, j, q, hq, hqu, hqr⟩
      obtain ⟨b', hrest, hfail⟩ := ih hspell (fun v hv => hall v (List.mem_cons_of_mem _ hv)) hlater
      refine ⟨b', ?_, hfail⟩
      rw [List.foldlM_cons, hpatch]
      exact hrest

end

end RiscvJit

import Mathlib.Data.List.Forall2
import RiscvJit.Frame.Layout
import RiscvJit.Proofs.Isa.Signed

/-
  RiscvJit.Proofs.Frame.Layout — frames are tiled by their regions.

  A plan says which regions a frame is to hold, in which order, and which one ends it. Laid out in
  numbers, a region starts at the next multiple of its alignment (`FrameRequest.start`) and the frame
  ends at the next multiple of sixteen (`FrameDemand.extent`). As long as that is a size that a word can
  hold, none of the sums on the way wraps, and `reserve` and `finish` compute these numbers.

  `Built` is what a frame under construction keeps: its regions tile the bytes below its top, and they
  are those asked for with padding between them. Padding is put in at two places, below a region and
  below the last one (`Built.padTo`). `frames_are_tiled` adds that no other placement of the regions in
  their order takes a smaller multiple of sixteen, and that a builder starts over after each frame.
-/

namespace RiscvJit

/-! ## Rounding up -/

/-- The least multiple of `a` that is not below `n`. -/
def roundedUp (n a : Int) : Int := (n + (a - 1)) / a * a

section
variable {n m a : Int}

theorem dvd_roundedUp (n a : Int) : a ∣ roundedUp n a := Int.dvd_mul_left _ _

theorem le_roundedUp (ha : 0 < a) : n ≤ roundedUp n a := by
  have hlt := Int.lt_ediv_add_one_mul_self (n + (a - 1)) ha
  rw [Int.add_mul, Int.one_mul] at hlt
  rw [roundedUp]
  omega

theorem roundedUp_le (ha : 0 < a) (hn : n ≤ m) (hm : a ∣ m) : roundedUp n a ≤ m := by
  have hle := Int.ediv_mul_le (n + (a - 1)) (Int.ne_of_gt ha)
  -- the multiple is less than one step above `m`
  have hstep : roundedUp n a < m + a := by
    rw [roundedUp]
    omega
  obtain ⟨d, hd⟩ := Int.dvd_sub (dvd_roundedUp n a) hm
  by_cases hpos : 1 ≤ d
  · have := Int.mul_le_mul_of_nonneg_left hpos (Int.le_of_lt ha)
    omega
  · have := Int.mul_le_mul_of_nonneg_left (show d ≤ 0 by omega) (Int.le_of_lt ha)
    omega

end

/-! ## Plans -/

/-- A region that a frame is to hold. -/
structure FrameRequest where
  name : String
  size : Int64
  align : Int64

namespace FrameRequest

/-- The size is no negative number, and the alignment is a power of two. -/
structure Proper (r : FrameRequest) : Prop where
  size : 0 ≤ r.size.toInt
  align : ∃ k : Nat, r.align.toInt = 2 ^ k

/-- Where the region starts when everything below ends at `low`. -/
def start (r : FrameRequest) (low : Int) : Int := roundedUp low r.align.toInt

def stop (r : FrameRequest) (low : Int) : Int := r.start low + r.size.toInt

variable {r : FrameRequest}

theorem Proper.align_pos (h : r.Proper) : 0 < r.align.toInt := by
  obtain ⟨k, hk⟩ := h.align
  exact hk ▸ Int.pow_pos (by decide)

theorem Proper.le_start (h : r.Proper) (low : Int) : low ≤ r.start low := le_roundedUp h.align_pos

theorem Proper.le_stop (h : r.Proper) (low : Int) : low ≤ r.stop low := by
  have := h.le_start low
  have := h.size
  rw [stop]
  omega

end FrameRequest

/-- Where the regions end that are put above `low`, each at the next aligned offset. -/
def reservedFrom (low : Int) (requests : List FrameRequest) : Int := requests.foldl (fun low r => r.stop low) low

/-- The regions can be placed in this order from `low` on, each of them aligned, and leave `last`
bytes below `high`. -/
def Room (low : Int) (requests : List FrameRequest) (last high : Int) : Prop :=
  match requests with
  | [] => low + last ≤ high
  | r :: rs => ∃ off, low ≤ off ∧ r.align.toInt ∣ off ∧ Room (off + r.size.toInt) rs last high

/-- What a frame is to hold: regions in their order, and the one that it ends with. -/
structure FrameDemand where
  requests : List FrameRequest
  last : String
  lastSize : Int64

namespace FrameDemand

/-- The size of the frame as a number. -/
def extent (p : FrameDemand) : Int := roundedUp (reservedFrom 0 p.requests + p.lastSize.toInt) 16

/-- Every region is proper, and the size of the frame is one that a word can hold. -/
structure Proper (p : FrameDemand) : Prop where
  requests : ∀ r ∈ p.requests, r.Proper
  last : 0 ≤ p.lastSize.toInt
  fits : p.extent < 2 ^ 63

end FrameDemand

section
variable {low high last : Int} {requests : List FrameRequest}

theorem le_reservedFrom (h : ∀ r ∈ requests, r.Proper) : low ≤ reservedFrom low requests := by
  induction requests generalizing low with
  | nil => exact Int.le_refl low
  | cons r rs ih =>
    exact Int.le_trans ((h r List.mem_cons_self).le_stop low) (ih fun s hs => h s (List.mem_cons_of_mem r hs))

/-- The lower everything starts, the lower it ends. -/
theorem reservedFrom_mono (h : ∀ r ∈ requests, r.Proper) (hle : low ≤ high) :
    reservedFrom low requests ≤ reservedFrom high requests := by
  induction requests generalizing low high with
  | nil => exact hle
  | cons r rs ih =>
    have hr := h r List.mem_cons_self
    have hstart : r.start low ≤ r.start high :=
      roundedUp_le hr.align_pos (Int.le_trans hle (hr.le_start high)) (dvd_roundedUp _ _)
    exact ih (fun s hs => h s (List.mem_cons_of_mem r hs)) (Int.add_le_add_right hstart _)

/-- Putting each region at the next aligned offset leaves the most room. -/
theorem room_iff (h : ∀ r ∈ requests, r.Proper) : Room low requests last high ↔
    reservedFrom low requests + last ≤ high := by
  induction requests generalizing low with
  | nil => exact Iff.rfl
  | cons r rs ih =>
    have hr := h r List.mem_cons_self
    have hrs := fun s hs => h s (List.mem_cons_of_mem r hs)
    constructor
    · rintro ⟨off, hle, hdvd, hrest⟩
      have hstart : r.start low ≤ off := roundedUp_le hr.align_pos hle hdvd
      have hlower : reservedFrom (r.stop low) rs ≤ reservedFrom (off + r.size.toInt) rs :=
        reservedFrom_mono hrs (Int.add_le_add_right hstart _)
      have hends := (ih hrs).mp hrest
      show reservedFrom (r.stop low) rs + last ≤ high
      omega
    · intro hle
      exact ⟨r.start low, hr.le_start low, dvd_roundedUp _ _, (ih hrs).mpr hle⟩

end

/-! ## What is built -/

/-- The regions follow each other from zero to `high` without gap or overlap. -/
inductive Contiguous : List FrameRegion → Int → Prop
  | nil : Contiguous [] 0
  | put {rs : List FrameRegion} {high : Int} {r : FrameRegion} (h : Contiguous rs high) (hr : r.offset.toInt = high)
      (hsize : 0 ≤ r.size.toInt) : Contiguous (rs ++ [r]) (high + r.size.toInt)

theorem Contiguous.nonneg {rs : List FrameRegion} {high : Int} (h : Contiguous rs high) : 0 ≤ high := by
  induction h with
  | nil => exact Int.le_refl 0
  | put _ _ hsize ih => omega

/-- The regions of the second list are those of the first one, in their order, and padding. -/
inductive Padded : List FrameRegion → List FrameRegion → Prop
  | nil : Padded [] []
  | put {named all : List FrameRegion} (h : Padded named all) (r : FrameRegion) : Padded (named ++ [r]) (all ++ [r])
  | pad {named all : List FrameRegion} (h : Padded named all) {offset size : Int64} (hsize : 0 < size.toInt) :
      Padded named (all ++ [⟨"padding", offset, size⟩])

/-- A frame under construction: its regions tile the bytes below its top, which are `low`, and are
those of the list with padding between them. -/
structure Built (b : FrameBuilder) (named : List FrameRegion) (low : Int) : Prop where
  top : b.top.toInt = low
  contiguous : Contiguous b.rev.reverse low
  padded : Padded named b.rev.reverse

namespace Built

variable {b : FrameBuilder} {named : List FrameRegion} {low : Int}

theorem start : Built {} [] 0 := ⟨rfl, .nil, .nil⟩

theorem nonneg (h : Built b named low) : 0 ≤ low := h.contiguous.nonneg

theorem put_top (h : Built b named low) {size : Int64} (hsize : 0 ≤ size.toInt) (hfits : low + size.toInt < 2 ^ 63) :
    (b.top + size).toInt = low + size.toInt := by
  have := h.nonneg
  rw [toInt_add_small (by rw [h.top]; exact this) hsize (by rw [h.top]; exact hfits), h.top]

theorem put (h : Built b named low) (name : String) {size : Int64} (hsize : 0 ≤ size.toInt)
    (hfits : low + size.toInt < 2 ^ 63) : Built (b.put name size) (named ++ [⟨name, b.top, size⟩])
    (low + size.toInt) where
  top := h.put_top hsize hfits
  contiguous := by
    rw [FrameBuilder.put, List.reverse_cons]
    exact h.contiguous.put h.top hsize
  padded := by
    rw [FrameBuilder.put, List.reverse_cons]
    exact h.padded.put _

/-- Padding up to an offset that is not below the top. -/
theorem padTo (h : Built b named low) {off : Int64} (hle : low ≤ off.toInt) : Built (b.padTo off) named off.toInt := by
  have hlow := h.nonneg
  have htop := h.top
  have hgap : (off - b.top).toInt = off.toInt - low := by
    rw [toInt_sub_small (by omega) (by omega), htop]
  unfold FrameBuilder.padTo
  split
  · rename_i hpos
    have hpos : 0 < (off - b.top).toInt := Int64.lt_iff_toInt_lt.mp hpos
    have hend : low + (off - b.top).toInt = off.toInt := by omega
    refine ⟨?_, ?_, ?_⟩
    · have := off.toInt_lt
      rw [FrameBuilder.put, h.put_top (by omega) (by omega), hend]
    · rw [FrameBuilder.put, List.reverse_cons, ← hend]
      exact h.contiguous.put htop (by show 0 ≤ (off - b.top).toInt; omega)
    · rw [FrameBuilder.put, List.reverse_cons]
      exact h.padded.pad hpos
  · rename_i hzero
    have hzero : ¬ 0 < (off - b.top).toInt := fun hpos => hzero (Int64.lt_iff_toInt_lt.mpr hpos)
    have hend : low = off.toInt := by omega
    exact hend ▸ h

end Built

/-! ## Building -/

namespace FrameBuilder

/-- Reserve regions one after the other; their offsets come with the new frame. -/
def reserveAll (b : FrameBuilder) : List FrameRequest → Except Fault (List Int64 × FrameBuilder)
  | [] => .ok ([], b)
  | r :: rs => do
    let (off, b) ← b.reserve r.name r.size r.align
    let (offs, b) ← b.reserveAll rs
    return (off :: offs, b)

/-- Build a frame: the offsets of its regions, its layout, and the builder afterwards. -/
def build (b : FrameBuilder) (p : FrameDemand) : Except Fault ((List Int64 × FrameLayout) × FrameBuilder) := do
  let (offs, b) ← b.reserveAll p.requests
  let (layout, b) := b.complete p.last p.lastSize
  return ((offs, layout), b)

/-- Build frames one after the other with one builder. -/
def buildAll (b : FrameBuilder) : List FrameDemand → Except Fault (List (List Int64 × FrameLayout))
  | [] => .ok []
  | p :: ps => do
    let (frame, b) ← b.build p
    return frame :: (← b.buildAll ps)

/-- Each frame is the one that a new builder builds. -/
theorem buildAll_eq_mapM (plans : List FrameDemand) :
    ({} : FrameBuilder).buildAll plans = plans.mapM fun p => Prod.fst <$> ({} : FrameBuilder).build p := by
  induction plans with
  | nil => rfl
  | cons p ps ih =>
    rw [buildAll, List.mapM_cons, ← ih, build]
    cases ({} : FrameBuilder).reserveAll p.requests with
    | error e => rfl
    | ok r => rfl

end FrameBuilder

section
variable {b b' : FrameBuilder} {named : List FrameRegion} {low : Int}

/-- Rounding up in words is rounding up, if a word can hold the result. -/
theorem toInt_alignUp_fits {n a : Int64} (hn : 0 ≤ n.toInt) (ha : ∃ k : Nat, a.toInt = 2 ^ k)
    (hfits : roundedUp n.toInt a.toInt < 2 ^ 63) : (alignUp n a).toInt = roundedUp n.toInt a.toInt := by
  obtain ⟨k, hk⟩ := ha
  obtain ⟨hsmall, hword⟩ := eq_ofNat_of_toInt hk
  have hpos : (0 : Int) < 2 ^ k := Int.pow_pos (by decide)
  rw [hk] at hfits
  -- the next multiple after the result is at most 2^63
  have hnext : n.toInt + 2 ^ k ≤ 2 ^ 63 := by
    have hle := le_roundedUp (n := n.toInt) hpos
    have hdvd : (2 : Int) ^ k ∣ 2 ^ 63 := by exact_mod_cast Nat.pow_dvd_pow 2 (show k ≤ 63 by omega)
    obtain ⟨d, hd⟩ := Int.dvd_sub hdvd (dvd_roundedUp n.toInt (2 ^ k))
    have hone : 1 ≤ d := by
      by_cases h : 1 ≤ d
      · exact h
      · have := Int.mul_le_mul_of_nonneg_left (show d ≤ 0 by omega) (Int.le_of_lt hpos)
        omega
    have := Int.mul_le_mul_of_nonneg_left hone (Int.le_of_lt hpos)
    omega
  rw [hk, roundedUp, hword]
  exact toInt_alignUp hsmall hn hnext

/-- A region is reserved at the next multiple of its alignment. -/
theorem Built.reserve (h : Built b named low) {r : FrameRequest} (hr : r.Proper) (hfits : r.stop low < 2 ^ 63) :
    ∃ off b', b.reserve r.name r.size r.align = .ok (off, b') ∧ off.toInt = r.start low ∧
      Built b' (named ++ [⟨r.name, off, r.size⟩]) (r.stop low) := by
  have hsize := hr.size
  have hpos := hr.align_pos
  have hstart : (alignUp b.top r.align).toInt = r.start low := by
    rw [toInt_alignUp_fits (h.top ▸ h.nonneg) hr.align
      (by rw [h.top]; rw [FrameRequest.stop, FrameRequest.start] at hfits; omega), h.top]
    rfl
  have hpadded := h.padTo (show low ≤ (alignUp b.top r.align).toInt from hstart ▸ hr.le_start low)
  have hvalid : ¬ ((decide (r.align ≤ 0) || decide (r.align &&& (r.align - 1) ≠ 0)) = true) := by
    have hand := (and_pred_eq_zero_iff hpos).mpr hr.align
    have : ¬ r.align ≤ 0 := Int64.not_le.mpr (Int64.lt_iff_toInt_lt.mpr hpos)
    simp [hand, this]
  refine ⟨(b.padTo (alignUp b.top r.align)).top, (b.padTo (alignUp b.top r.align)).put r.name r.size, ?_,
    hpadded.top.trans hstart, ?_⟩
  · unfold FrameBuilder.reserve
    rw [if_neg hvalid]
  · have := hpadded.put r.name hsize (by rw [hstart]; exact hfits)
    rwa [hstart] at this

/-- Regions that are asked for, at their offsets. -/
def placedAt (requests : List FrameRequest) (offs : List Int64) : List FrameRegion :=
  List.zipWith (fun r off => ⟨r.name, off, r.size⟩) requests offs

theorem Built.reserveAll {requests : List FrameRequest} (hrequests : ∀ r ∈ requests, r.Proper) (h : Built b named low)
    (hfits : reservedFrom low requests < 2 ^ 63) :
    ∃ offs b', b.reserveAll requests = .ok (offs, b') ∧
    List.Forall₂ (fun r off => r.align.toInt ∣ off.toInt) requests offs ∧
      Built b' (named ++ placedAt requests offs) (reservedFrom low requests) := by
  induction requests generalizing b named low with
  | nil => exact ⟨[], b, rfl, .nil, by rwa [placedAt, List.zipWith_nil_left, List.append_nil]⟩
  | cons r rs ih =>
    have hr := hrequests r List.mem_cons_self
    have hrs := fun s hs => hrequests s (List.mem_cons_of_mem r hs)
    have hstop : r.stop low ≤ reservedFrom low (r :: rs) := le_reservedFrom hrs
    obtain ⟨off, b1, hreserve, hoff, hbuilt⟩ := h.reserve hr (by omega)
    obtain ⟨offs, b2, hrest, haligned, hbuilt'⟩ := ih hrs hbuilt hfits
    refine ⟨off :: offs, b2, ?_, .cons (hoff ▸ dvd_roundedUp _ _) haligned, ?_⟩
    · rw [FrameBuilder.reserveAll, hreserve]
      show (do let p ← b1.reserveAll rs; pure (off :: p.1, p.2)) = _
      rw [hrest]
      rfl
    · rwa [List.append_assoc] at hbuilt'

/-- The last region ends where the frame does. -/
theorem Built.finish (h : Built b named low) (name : String) {size : Int64} (hsize : 0 ≤ size.toInt)
    (hfits : roundedUp (low + size.toInt) 16 < 2 ^ 63) :
    (b.finish name size).size.toInt = roundedUp (low + size.toInt) 16 ∧
      Contiguous (b.finish name size).regions (roundedUp (low + size.toInt) 16) ∧
      Padded (named ++ [⟨name, (b.finish name size).size - size, size⟩]) (b.finish name size).regions := by
  have hlow := h.nonneg
  have hle : low + size.toInt ≤ roundedUp (low + size.toInt) 16 := le_roundedUp (by decide)
  have hsum := h.put_top hsize (by omega)
  have htotal : (alignUp (b.top + size) stackAlignment).toInt = roundedUp (low + size.toInt) 16 := by
    rw [← hsum]
    exact toInt_alignUp_fits (by omega) ⟨4, rfl⟩ (by rw [hsum]; exact hfits)
  have hbottom : (alignUp (b.top + size) stackAlignment - size).toInt = roundedUp (low + size.toInt) 16 - size.toInt := by
    rw [toInt_sub_small (by omega) hsize, htotal]
  have hpadded := h.padTo (show low ≤ (alignUp (b.top + size) stackAlignment - size).toInt by omega)
  have hput := hpadded.put name hsize (by omega)
  have hend : (alignUp (b.top + size) stackAlignment - size).toInt + size.toInt = roundedUp (low + size.toInt) 16 := by
    omega
  rw [hend] at hput
  have hstart : (b.padTo (alignUp (b.top + size) stackAlignment - size)).top = alignUp (b.top + size)
    stackAlignment - size :=
    Int64.toInt_inj.mp hpadded.top
  have hregions : (b.finish name size).regions =
      ((b.padTo (alignUp (b.top + size) stackAlignment - size)).put name size).rev.reverse := by
    rw [FrameBuilder.put, hstart]
    rfl
  rw [hstart] at hput
  exact ⟨htotal, hregions ▸ hput.contiguous, hregions ▸ hput.padded⟩

end

/-! ## Frames -/

/-- The frame holds what the plan asks for: the regions tile it from zero to its size, those asked for
lie in their order at the offsets that were returned, aligned as asked, all else is padding, the last one
ends with the frame, and no placement of the regions takes a smaller multiple of sixteen. -/
structure FrameDemand.Tiled (p : FrameDemand) (offs : List Int64) (l : FrameLayout) : Prop where
  contiguous : Contiguous l.regions l.size.toInt
  padded : Padded (placedAt p.requests offs ++ [⟨p.last, l.size - p.lastSize, p.lastSize⟩]) l.regions
  aligned : List.Forall₂ (fun r off => r.align.toInt ∣ off.toInt) p.requests offs
  ending : (l.size - p.lastSize).toInt + p.lastSize.toInt = l.size.toInt
  multiple : 16 ∣ l.size.toInt
  room : Room 0 p.requests p.lastSize.toInt l.size.toInt
  least : ∀ n, 16 ∣ n → Room 0 p.requests p.lastSize.toInt n → l.size.toInt ≤ n

theorem FrameDemand.Proper.tiled {p : FrameDemand} (h : p.Proper) :
    ∃ offs l, ({} : FrameBuilder).build p = .ok ((offs, l), {}) ∧ p.Tiled offs l := by
  have hlast := h.last
  have hfits : roundedUp (reservedFrom 0 p.requests + p.lastSize.toInt) 16 < 2 ^ 63 := h.fits
  have hle : reservedFrom 0 p.requests + p.lastSize.toInt ≤ roundedUp _ 16 := le_roundedUp (by decide)
  obtain ⟨offs, b, hreserve, haligned, hbuilt⟩ := Built.start.reserveAll h.requests (by omega)
  obtain ⟨hsize, hcontiguous, hpadded⟩ := hbuilt.finish p.last hlast hfits
  refine ⟨offs, b.finish p.last p.lastSize, ?_, ⟨hsize ▸ hcontiguous, hpadded, haligned, ?_, ?_, ?_, ?_⟩⟩
  · rw [FrameBuilder.build, hreserve]
    rfl
  · have := hbuilt.nonneg
    rw [toInt_sub_small (by omega) hlast]
    omega
  · exact hsize ▸ dvd_roundedUp _ _
  · exact (room_iff h.requests).mpr (hsize ▸ hle)
  · exact fun n hn hroom => hsize ▸ roundedUp_le (by decide) ((room_iff h.requests).mp hroom) hn

/-- Frames are tiled by the regions that they were to hold, and a builder builds each of them as a new
builder would. -/
theorem frames_are_tiled :
    (∀ p : FrameDemand, p.Proper → ∃ offs l, ({} : FrameBuilder).build p = .ok ((offs, l), {}) ∧ p.Tiled offs l) ∧
      ∀ plans, ({} : FrameBuilder).buildAll plans = plans.mapM fun p => Prod.fst <$> ({} : FrameBuilder).build p :=
  ⟨fun _ h => h.tiled, FrameBuilder.buildAll_eq_mapM⟩

/-- Arguments that end between two words, eight handles, and a lock. -/
def lockedFrame : FrameDemand where
  requests := [⟨FrameRegion.outgoingArgs, 12, 4⟩, ⟨FrameRegion.oopHandles, 64, 8⟩, ⟨FrameRegion.lock, 8, 8⟩]
  last := FrameRegion.linkage
  lastSize := 16

theorem a_locked_frame_is_tiled :
    lockedFrame.Proper ∧ ∃ l, ({} : FrameBuilder).build lockedFrame = .ok (([0, 16, 80], l), {}) ∧
      l.size = 112 ∧ lockedFrame.Tiled [0, 16, 80] l := by
  have hproper : lockedFrame.Proper := by
    refine ⟨?_, by decide, by decide⟩
    simp only [lockedFrame, List.forall_mem_cons]
    exact ⟨⟨by decide, 2, rfl⟩, ⟨by decide, 3, rfl⟩, ⟨by decide, 3, rfl⟩, by simp⟩
  obtain ⟨offs, l, hbuild, htiled⟩ := frames_are_tiled.1 lockedFrame hproper
  obtain ⟨rfl, hsize⟩ : offs = [0, 16, 80] ∧ l.size = 112 := by
    have hrun : ({} : FrameBuilder).build lockedFrame = .ok (([0, 16, 80], _), {}) := rfl
    rw [hrun] at hbuild
    injection hbuild with hbuild
    injection hbuild with hpair _
    injection hpair with hoffs hlayout
    exact ⟨hoffs.symm, hlayout ▸ rfl⟩
  exact ⟨hproper, l, hbuild, hsize, htiled⟩

end RiscvJit

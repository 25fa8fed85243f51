import RiscvJit.Cache.CodeCache

/-
  RiscvJit.Proofs.Cache.Regions — address ranges below the top of a code cache.

  A region is a set of addresses, taken as numbers. `Packed` says of a list of regions that they
  share no address and lie between the base of the cache and its top, `Balanced` that their sizes
  and the wasted bytes add up to the top. Both are kept when a region is added at the top
  (`Packed.reserve`), when one is divided (`Packed.divide`) and when one is given back
  (`Packed.giveBack`): what ends at the top lowers it, and everything else was below it anyway.

  The list is not tied to the lists of the cache, so that a region can be on its way from one of
  them to another. A request of almost 2^63 bytes wraps when it is rounded up; it gets a region of
  negative size, which has no addresses, and the top sinks by 2^63 until such a region comes back.
-/

namespace RiscvJit

open Region

/-! ## Words as numbers -/

theorem toInt_add_wraps (a b : Int64) : ∃ k : Int, (a + b).toInt = a.toInt + b.toInt + 2 ^ 64 * k := by
  rw [Int64.toInt_add, Int.bmod_def]
  split
  · exact ⟨-((a.toInt + b.toInt) / 2 ^ 64), by omega⟩
  · exact ⟨-((a.toInt + b.toInt) / 2 ^ 64) - 1, by omega⟩

theorem toInt_sub_wraps (a b : Int64) : ∃ k : Int, (a - b).toInt = a.toInt - b.toInt + 2 ^ 64 * k := by
  rw [Int64.toInt_sub, Int.bmod_def]
  split
  · exact ⟨-((a.toInt - b.toInt) / 2 ^ 64), by omega⟩
  · exact ⟨-((a.toInt - b.toInt) / 2 ^ 64) - 1, by omega⟩

theorem toNat_toUInt64 (x : Int64) : (x.toUInt64.toNat : Int) = x.toInt % 2 ^ 64 := by
  rw [← UInt64.toNat_toBitVec, Int64.toBitVec_toUInt64, ← Int64.toInt_toBitVec, BitVec.toInt_eq_toNat_bmod]
  have := x.toBitVec.isLt
  refine ((Int.bmod_emod (x := x.toBitVec.toNat) (m := 2 ^ 64)).trans ?_).symm
  exact Int.emod_eq_of_lt (by omega) (by omega)

theorem and_not_low (x : BitVec 64) : x &&& ~~~63#64 = x >>> 6 <<< 6 := by
  have mask : ∀ i : Fin 64, (~~~63#64).getLsbD i = decide (6 ≤ i.val) := by decide
  apply BitVec.eq_of_getLsbD_eq
  intro i hi
  rw [BitVec.getLsbD_and, mask ⟨i, hi⟩, BitVec.getLsbD_shiftLeft, BitVec.getLsbD_ushiftRight]
  by_cases h : 6 ≤ i
  · simp [h, hi, show ¬ i < 6 by omega, show 6 + (i - 6) = i by omega]
  · simp [h, show i < 6 by omega]

namespace CodeCache
theorem toNat_roundUp (n : Int64) :
    (roundUp n).toUInt64.toNat = (n.toUInt64.toNat + 63) % 2 ^ 64 / 64 * 64 := by
  have e : (roundUp n).toUInt64.toBitVec = (n.toUInt64.toBitVec + 63#64) >>> 6 <<< 6 := by
    rw [← and_not_low]
    show (n.toBitVec + 64#64 - 1#64) &&& ~~~(64#64 - 1#64) = _
    rw [BitVec.sub_eq_add_neg, BitVec.add_assoc]
    rfl
  rw [← UInt64.toNat_toBitVec, e, BitVec.toNat_shiftLeft, BitVec.toNat_ushiftRight, BitVec.toNat_add,
    Nat.shiftLeft_eq, Nat.shiftRight_eq_div_pow, UInt64.toNat_toBitVec]
  show (n.toUInt64.toNat + 63) % 2 ^ 64 / 64 * 64 % 2 ^ 64 = _
  omega
end CodeCache

/-! ## Regions -/

/-- The address, as a number, belongs to the region. Sums are not reduced modulo 2^64, and a
region without size holds no address. -/
def Region.Holds (r : Region) (addr : Nat) : Prop :=
  r.base.toNat ≤ addr ∧ (addr : Int) < r.base.toNat + r.size.toInt

/-- No address belongs to both. -/
def Region.Apart (r s : Region) : Prop := ∀ addr, r.Holds addr → ¬ s.Holds addr

/-- Start and size are multiples of the alignment. -/
def Region.Aligned (r : Region) : Prop := 64 ∣ r.base.toNat ∧ 64 ∣ r.size.toInt

/-- The sizes of some regions together. -/
def Region.total (rs : List Region) : Int := rs.foldr (fun r n => r.size.toInt + n) 0

theorem Region.Apart.symm {r s : Region} (h : r.Apart s) : s.Apart r := fun addr hs hr => h addr hr hs

@[simp] theorem Region.total_cons (r : Region) (rs : List Region) :
    total (r :: rs) = r.size.toInt + total rs := rfl

theorem Region.total_perm {rs ss : List Region} (h : rs.Perm ss) : total rs = total ss := by
  induction h with
  | nil => rfl
  | cons r _ ih => simp [ih]
  | swap r s rs => simp only [total_cons]; omega
  | trans _ _ ih1 ih2 => rw [ih1, ih2]

theorem Region.total_append (rs ss : List Region) : total (rs ++ ss) = total rs + total ss := by
  induction rs with
  | nil => simp [total]
  | cons r rs ih => simp only [List.cons_append, total_cons, ih]; omega

theorem Region.total_nonneg {rs : List Region} (h : ∀ r ∈ rs, 0 ≤ r.size.toInt) : 0 ≤ total rs := by
  induction rs with
  | nil => exact Int.le_refl 0
  | cons r rs ih =>
    have hr := h r List.mem_cons_self
    have hrs := ih fun s hs => h s (List.mem_cons_of_mem r hs)
    rw [total_cons]
    omega

/-- The first bytes of a region. -/
def Region.front (r : Region) (kept : Int64) : Region := ⟨r.base, kept⟩

/-- What follows the first bytes of a region. -/
def Region.back (r : Region) (kept : Int64) : Region := ⟨r.base + kept.toUInt64, r.size - kept⟩

namespace CodeCache

/-- The regions in use: those handed out, and those of installed code. -/
def regions (c : CodeCache) : List Region := c.pending ++ c.installed.map (·.region)

/-! ## Regions below the top -/

/-- Regions that share no address lie between the base and the top, which is `t` or has sunk
below it. -/
structure Packed (c : CodeCache) (t : Int) (sunk : Bool) (rs : List Region) : Prop where
  base_aligned : 64 ∣ c.base.toNat
  fits : c.base.toNat + c.size.toInt ≤ 2 ^ 64
  top : c.top.toInt = if sunk then t - 2 ^ 63 else t
  top_aligned : 64 ∣ t
  nonneg : 0 ≤ t
  le : t ≤ c.size.toInt
  apart : rs.Pairwise Region.Apart
  inside : ∀ r ∈ rs, ∀ addr, r.Holds addr → c.base.toNat ≤ addr ∧ (addr : Int) < c.base.toNat + t
  aligned : ∀ r ∈ rs, r.Aligned

section
variable {c : CodeCache} {t : Int} {sunk : Bool} {q r : Region} {rs ss : List Region}

theorem Packed.perm (h : Packed c t sunk rs) (hp : rs.Perm ss) : Packed c t sunk ss :=
  { h with
    apart := h.apart.perm hp Region.Apart.symm
    inside := fun r hr => h.inside r (hp.mem_iff.mpr hr)
    aligned := fun r hr => h.aligned r (hp.mem_iff.mpr hr) }

theorem Packed.sublist (h : Packed c t sunk rs) (hs : ss.Sublist rs) : Packed c t sunk ss :=
  { h with
    apart := h.apart.sublist hs
    inside := fun r hr => h.inside r (hs.subset hr)
    aligned := fun r hr => h.aligned r (hs.subset hr) }

theorem Packed.tail (h : Packed c t sunk (r :: rs)) : Packed c t sunk rs := h.sublist (List.sublist_cons_self r rs)

theorem Packed.cons (h : Packed c t sunk rs) (hapart : ∀ s ∈ rs, r.Apart s)
    (hin : ∀ addr, r.Holds addr → c.base.toNat ≤ addr ∧ (addr : Int) < c.base.toNat + t) (hr : r.Aligned) :
    Packed c t sunk (r :: rs) :=
  { h with
    apart := List.pairwise_cons.mpr ⟨hapart, h.apart⟩
    inside := List.forall_mem_cons.mpr ⟨hin, h.inside⟩
    aligned := List.forall_mem_cons.mpr ⟨hr, h.aligned⟩ }

/-- Nothing else of the cache matters. -/
theorem Packed.congr (h : Packed c t sunk rs) {c' : CodeCache} (hb : c'.base = c.base) (hs : c'.size = c.size)
    (ht : c'.top = c.top) : Packed c' t sunk rs := by
  obtain ⟨h1, h2, h3, h4, h5, h6, h7, h8, h9⟩ := h
  rw [← hb] at h1 h2 h8
  rw [← hs] at h2 h6
  rw [← ht] at h3
  exact ⟨h1, h2, h3, h4, h5, h6, h7, h8, h9⟩

/-- A region with addresses ends at the top at the latest. -/
theorem Packed.ends (h : Packed c t sunk (r :: rs)) (hr : 0 < r.size.toInt) :
    c.base.toNat ≤ r.base.toNat ∧ r.base.toNat + r.size.toInt ≤ c.base.toNat + t := by
  have hfirst := h.inside r List.mem_cons_self r.base.toNat ⟨Nat.le_refl _, by omega⟩
  have hlast := h.inside r List.mem_cons_self (r.base.toNat + (r.size.toInt.toNat - 1)) ⟨by omega, by omega⟩
  omega

variable {kept n : Int64}

theorem toInt_back (hkept : 0 ≤ kept.toInt) (hle : kept.toInt ≤ r.size.toInt) :
    (r.back kept).size.toInt = r.size.toInt - kept.toInt := by
  obtain ⟨k, hk⟩ := toInt_sub_wraps r.size kept
  have := (r.size - kept).toInt_lt
  have := (r.size - kept).le_toInt
  have := r.size.toInt_lt
  show (r.size - kept).toInt = _
  omega

theorem Packed.divide (h : Packed c t sunk (r :: rs)) (hkept : 0 ≤ kept.toInt) (hle : kept.toInt ≤ r.size.toInt)
    (hdvd : 64 ∣ kept.toInt) : Packed c t sunk (r.back kept :: r.front kept :: rs) := by
  obtain ⟨hrest, -⟩ := List.pairwise_cons.mp h.apart
  have hin := h.inside r List.mem_cons_self
  obtain ⟨hbase, hsize⟩ := h.aligned r List.mem_cons_self
  have hback := toInt_back hkept hle
  have hstart : (r.back kept).base.toNat = (r.base.toNat + kept.toInt.toNat) % 2 ^ 64 := by
    have := toNat_toUInt64 kept
    have := kept.toInt_lt
    rw [back, UInt64.toNat_add]
    omega
  have hfront (addr : Nat) (ha : (r.front kept).Holds addr) : r.Holds addr := by
    obtain ⟨ha1, ha2⟩ := ha
    simp only [front] at ha1 ha2
    exact ⟨ha1, by omega⟩
  have htail (addr : Nat) (ha : (r.back kept).Holds addr) : r.Holds addr ∧ r.base.toNat + kept.toInt ≤ addr := by
    obtain ⟨ha1, ha2⟩ := ha
    have hends := h.ends (by omega)
    have := h.fits
    have := h.le
    refine ⟨⟨?_, ?_⟩, ?_⟩ <;> omega
  refine Packed.cons (Packed.cons h.tail ?_ ?_ ⟨hbase, hdvd⟩) ?_ ?_ ⟨?_, ?_⟩
  · exact fun s hs addr ha => hrest s hs addr (hfront addr ha)
  · exact fun addr ha => hin addr (hfront addr ha)
  · refine List.forall_mem_cons.mpr ⟨fun addr ha hb => ?_, fun s hs addr ha => hrest s hs addr (htail addr ha).1⟩
    have h1 := (htail addr ha).2
    have h2 := hb.2
    simp only [front] at h2
    omega
  · exact fun addr ha => hin addr (htail addr ha).1
  · omega
  · omega

/-- What is given back lowers the top or leaves it. -/
theorem Packed.giveBack (h : Packed c t sunk (q :: rs)) (hq : 0 ≤ q.size.toInt) :
    ∃ t', Packed (c.giveBack q) t' sunk rs := by
  unfold CodeCache.giveBack
  by_cases hzero : q.size = 0
  · rw [if_pos hzero]
    exact ⟨t, h.tail⟩
  rw [if_neg hzero]
  have hpos : 0 < q.size.toInt := by
    have := mt (Int64.toInt_inj (x := q.size) (y := 0)).mp hzero
    rw [Int64.toInt_zero] at this
    omega
  by_cases hstop : q.stop = c.base + c.top.toUInt64
  · rw [if_pos hstop]
    have hends := h.ends hpos
    have hend : q.base.toNat + q.size.toInt = c.base.toNat + t ∧ sunk = false := by
      have := congrArg UInt64.toNat hstop
      rw [stop, UInt64.toNat_add, UInt64.toNat_add] at this
      have := toNat_toUInt64 q.size
      have := toNat_toUInt64 c.top
      have := h.top
      have := h.fits
      have := h.le
      have := c.size.toInt_lt
      cases sunk
      · simp_all; omega
      · simp_all; omega
    obtain ⟨hend, rfl⟩ := hend
    have htop := h.top
    refine ⟨t - q.size.toInt, { h.tail with top := ?_, top_aligned := ?_, nonneg := ?_, le := ?_, inside := ?_ }⟩
    · obtain ⟨k, hk⟩ := toInt_sub_wraps c.top q.size
      have := (c.top - q.size).toInt_lt
      have := (c.top - q.size).le_toInt
      have := c.top.toInt_lt
      simp only [Bool.false_eq_true, if_false] at htop ⊢
      omega
    · have := (h.aligned q List.mem_cons_self).2
      have := h.top_aligned
      omega
    · omega
    · have := h.le
      show t - q.size.toInt ≤ c.size.toInt
      omega
    · -- an address at or above the new top belongs to the region that is gone
      intro s hs addr ha
      obtain ⟨h1, h2⟩ := h.inside s (List.mem_cons_of_mem q hs) addr ha
      have hapart := (List.pairwise_cons.mp h.apart).1 s hs addr
      refine ⟨h1, Int.not_le.mp fun hge => hapart ⟨?_, ?_⟩ ha⟩
      · simp only at hge
        omega
      · omega
  · rw [if_neg hstop]
    exact ⟨t, h.tail.congr rfl rfl rfl⟩

/-- A region of negative size that is given back at the top raises or sinks it. -/
theorem Packed.giveBack_negative (h : Packed c t sunk (q :: rs)) (hq : q.size.toInt = -2 ^ 63) :
    ∃ sunk', Packed (c.giveBack q) t sunk' rs := by
  unfold CodeCache.giveBack
  by_cases hzero : q.size = 0
  · rw [if_pos hzero]
    exact ⟨sunk, h.tail⟩
  rw [if_neg hzero]
  by_cases hstop : q.stop = c.base + c.top.toUInt64
  · rw [if_pos hstop]
    refine ⟨!sunk, { h.tail with top := ?_ }⟩
    obtain ⟨k, hk⟩ := toInt_sub_wraps c.top q.size
    have := (c.top - q.size).toInt_lt
    have := (c.top - q.size).le_toInt
    have := h.top
    have := h.nonneg
    have := h.le
    have := c.size.toInt_lt
    cases sunk
    · simp_all; omega
    · simp_all; omega
  · rw [if_neg hstop]
    exact ⟨sunk, h.tail.congr rfl rfl rfl⟩

/-- The region that a request gets. -/
def handed (c : CodeCache) (n : Int64) : Region := ⟨c.base + c.top.toUInt64, roundUp n⟩

theorem toInt_roundUp (hn : 0 ≤ n.toInt) (hsmall : n.toInt ≤ 2 ^ 63 - 64) :
    (roundUp n).toInt = (n.toInt + 63) / 64 * 64 := by
  have := toNat_roundUp n
  have := toNat_toUInt64 n
  have := toNat_toUInt64 (roundUp n)
  have := (roundUp n).toInt_lt
  have := (roundUp n).le_toInt
  omega

theorem toInt_roundUp_wraps (hlarge : 2 ^ 63 - 64 < n.toInt) : (roundUp n).toInt = -2 ^ 63 := by
  have := toNat_roundUp n
  have := toNat_toUInt64 n
  have := toNat_toUInt64 (roundUp n)
  have := n.toInt_lt
  have := (roundUp n).toInt_lt
  have := (roundUp n).le_toInt
  omega

/-- A new region starts at the top, which it raises. -/
theorem Packed.reserve (h : Packed c t sunk rs) (hn : 0 < n.toInt) (hsmall : n.toInt ≤ 2 ^ 63 - 64)
    (hroom : ¬ c.size - c.top < roundUp n) :
    sunk = false ∧ Packed { c with top := c.top + roundUp n } (t + (roundUp n).toInt) false (c.handed n :: rs) := by
  have hsize := toInt_roundUp (by omega) hsmall
  have hroom : (roundUp n).toInt ≤ (c.size - c.top).toInt := Int64.le_iff_toInt_le.mp (Int64.not_lt.mp hroom)
  obtain ⟨k, hk⟩ := toInt_sub_wraps c.size c.top
  have hnonneg := h.nonneg
  have hle := h.le
  have hfits := h.fits
  have htop := h.top
  have hlt := c.size.toInt_lt
  have hlt' := (c.size - c.top).toInt_lt
  have hge' := (c.size - c.top).le_toInt
  cases sunk with
  | true =>
    simp only [if_true] at htop
    omega
  | false =>
    simp only [Bool.false_eq_true, if_false] at htop
    have hraised : (c.top + roundUp n).toInt = t + (roundUp n).toInt := by
      obtain ⟨k', hk'⟩ := toInt_add_wraps c.top (roundUp n)
      have := (c.top + roundUp n).toInt_lt
      have := (c.top + roundUp n).le_toInt
      omega
    have hstart : ((c.handed n).base.toNat : Int) = c.base.toNat + t := by
      have := toNat_toUInt64 c.top
      rw [handed, UInt64.toNat_add]
      omega
    have hlast : (c.handed n).size.toInt = (roundUp n).toInt := rfl
    have hinside : ∀ r ∈ rs, ∀ addr, r.Holds addr →
        c.base.toNat ≤ addr ∧ (addr : Int) < c.base.toNat + (t + (roundUp n).toInt) := by
      intro r hr addr ha
      have := h.inside r hr addr ha
      omega
    have hraise : Packed { c with top := c.top + roundUp n } (t + (roundUp n).toInt) false rs :=
      { h with
        top := hraised
        top_aligned := by have := h.top_aligned; omega
        nonneg := by omega
        le := by show t + (roundUp n).toInt ≤ c.size.toInt; omega
        inside := hinside }
    refine ⟨rfl, hraise.cons ?_ ?_ ⟨?_, ?_⟩⟩
    · intro s hs addr ha hb
      have := h.inside s hs addr hb
      have := ha.1
      omega
    · intro addr ha
      show c.base.toNat ≤ addr ∧ (addr : Int) < c.base.toNat + (t + (roundUp n).toInt)
      have := ha.1
      have := ha.2
      omega
    · have := h.top_aligned
      have := h.base_aligned
      omega
    · omega

/-- A request that wraps gets a region without addresses. -/
theorem Packed.reserve_wraps (h : Packed c t sunk rs) (hlarge : 2 ^ 63 - 64 < n.toInt) :
    Packed { c with top := c.top + roundUp n } t (!sunk) (c.handed n :: rs) := by
  have hsize := toInt_roundUp_wraps hlarge
  have htop := h.top
  have hnonneg := h.nonneg
  have hle := h.le
  have hlt := c.size.toInt_lt
  have hsink : Packed { c with top := c.top + roundUp n } t (!sunk) rs := by
    refine { h with top := ?_ }
    obtain ⟨k, hk⟩ := toInt_add_wraps c.top (roundUp n)
    have := (c.top + roundUp n).toInt_lt
    have := (c.top + roundUp n).le_toInt
    cases sunk
    · simp_all; omega
    · simp_all; omega
  have hlast : (c.handed n).size.toInt = (roundUp n).toInt := rfl
  have hempty (addr : Nat) : ¬ (c.handed n).Holds addr := by
    intro ha
    have := ha.1
    have := ha.2
    omega
  refine hsink.cons (fun s _ addr ha => absurd ha (hempty addr)) (fun addr ha => absurd ha (hempty addr)) ⟨?_, ?_⟩
  · have := h.top_aligned
    have := h.base_aligned
    have := toNat_toUInt64 c.top
    rw [handed, UInt64.toNat_add]
    cases sunk
    · simp at htop; omega
    · simp at htop; omega
  · omega

/-! ## The account -/

/-- Every byte below the top belongs to a region or is wasted. -/
structure Balanced (c : CodeCache) (rs : List Region) : Prop where
  sum : c.top.toInt = total rs + c.wasted.toInt
  wasted : 0 ≤ c.wasted.toInt
  sizes : ∀ r ∈ rs, 0 ≤ r.size.toInt

theorem Balanced.perm (h : Balanced c rs) (hp : rs.Perm ss) : Balanced c ss where
  sum := by rw [h.sum, total_perm hp]
  wasted := h.wasted
  sizes := fun r hr => h.sizes r (hp.mem_iff.mpr hr)

theorem Balanced.congr (h : Balanced c rs) {c' : CodeCache} (ht : c'.top = c.top) (hw : c'.wasted = c.wasted) :
    Balanced c' rs := by
  obtain ⟨h1, h2, h3⟩ := h
  rw [← ht, ← hw] at h1
  rw [← hw] at h2
  exact ⟨h1, h2, h3⟩

theorem Balanced.divide (h : Balanced c (r :: rs)) (hkept : 0 ≤ kept.toInt) (hle : kept.toInt ≤ r.size.toInt) :
    Balanced c (r.back kept :: r.front kept :: rs) := by
  have hback : (r.back kept).size.toInt = r.size.toInt - kept.toInt := toInt_back hkept hle
  have hsum := h.sum
  refine ⟨?_, h.wasted, ?_⟩
  · simp only [Region.total_cons] at hsum ⊢
    rw [hback]
    show _ = r.size.toInt - kept.toInt + (kept.toInt + total rs) + c.wasted.toInt
    omega
  · refine List.forall_mem_cons.mpr ⟨by omega, List.forall_mem_cons.mpr ⟨hkept, ?_⟩⟩
    exact fun s hs => h.sizes s (List.mem_cons_of_mem r hs)

theorem Balanced.giveBack (h : Balanced c (q :: rs)) : Balanced (c.giveBack q) rs := by
  have hsum := h.sum
  rw [Region.total_cons] at hsum
  have hwasted := h.wasted
  have hq := h.sizes q List.mem_cons_self
  have hsizes := fun s hs => h.sizes s (List.mem_cons_of_mem q hs)
  have hrest := total_nonneg hsizes
  have htop := c.top.toInt_lt
  unfold CodeCache.giveBack
  by_cases hzero : q.size = 0
  · rw [if_pos hzero]
    rw [hzero, Int64.toInt_zero] at hsum
    exact ⟨by omega, hwasted, hsizes⟩
  rw [if_neg hzero]
  by_cases hstop : q.stop = c.base + c.top.toUInt64
  · rw [if_pos hstop]
    refine ⟨?_, hwasted, hsizes⟩
    obtain ⟨k, hk⟩ := toInt_sub_wraps c.top q.size
    have := (c.top - q.size).toInt_lt
    have := (c.top - q.size).le_toInt
    show (c.top - q.size).toInt = total rs + c.wasted.toInt
    omega
  · rw [if_neg hstop]
    have hmore : (c.wasted + q.size).toInt = c.wasted.toInt + q.size.toInt := by
      obtain ⟨k, hk⟩ := toInt_add_wraps c.wasted q.size
      have := (c.wasted + q.size).toInt_lt
      have := (c.wasted + q.size).le_toInt
      omega
    refine ⟨?_, ?_, hsizes⟩
    · show c.top.toInt = total rs + (c.wasted + q.size).toInt
      omega
    · show 0 ≤ (c.wasted + q.size).toInt
      omega

theorem Balanced.reserve (h : Balanced c rs) (hsize : 0 ≤ (roundUp n).toInt)
    (hraised : (c.top + roundUp n).toInt = c.top.toInt + (roundUp n).toInt) :
    Balanced { c with top := c.top + roundUp n } (c.handed n :: rs) := by
  have hsum := h.sum
  refine ⟨?_, h.wasted, List.forall_mem_cons.mpr ⟨hsize, h.sizes⟩⟩
  rw [Region.total_cons]
  show (c.top + roundUp n).toInt = (roundUp n).toInt + total rs + c.wasted.toInt
  omega

end

end CodeCache

end RiscvJit

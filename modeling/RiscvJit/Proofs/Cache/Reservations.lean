import RiscvJit.Proofs.Cache.Abandoned

/-
  RiscvJit.Proofs.Cache.Reservations — what a request gets, whatever its size and wherever the
  cache lies.

  A cache may end behind the last address there is: its addresses then go on at zero. `Region.Has`
  and `CodeCache.Has` count addresses from the start, so that they do not care. Seen from the start
  of the cache (`Region.from`) such a cache is one at address zero, where nothing wraps: `Rooted`
  says of it what `Sound` says of a cache that ends in time, and is kept by the same steps.

  Proved:
  (1) Up to 2^63 - 64 bytes a request is answered as it should be, in every state that calls lead
      to (`Rooted.replies`).
  (2) A larger one wraps when it is rounded up. It is never turned down, and gets a region of
      -2^63 bytes (`reserve_oversized`), which is also how the top gets out of the cache.
-/

namespace RiscvJit

/-! ## Addresses that go on at zero -/

/-- The address is one of the `size` addresses from the base of the region on. -/
def Region.Has (r : Region) (addr : UInt64) : Prop := ((addr - r.base).toNat : Int) < r.size.toInt

/-- The address is one of the cache. -/
def CodeCache.Has (c : CodeCache) (addr : UInt64) : Prop := ((addr - c.base).toNat : Int) < c.size.toInt

/-- The region, with addresses counted from another one. -/
def Region.from (r : Region) (base : UInt64) : Region := { r with base := r.base - base }

@[simp] theorem Region.size_from (r : Region) (base : UInt64) : (r.from base).size = r.size := rfl

/-- A region that ends in time has the addresses that it holds. -/
theorem Region.has_iff_holds {r : Region} {base addr : UInt64}
    (hfit : 0 < r.size.toInt → (r.from base).base.toNat + r.size.toInt ≤ 2 ^ 64) :
    r.Has addr ↔ (r.from base).Holds (addr - base).toNat := by
  have hdiff : addr - r.base = (addr - base) - (r.from base).base := by
    show _ = (addr - base) - (r.base - base)
    grind
  have hlt := (addr - base).toNat_lt
  have hlt' := (r.from base).base.toNat_lt
  rw [Region.Has, Region.Holds, hdiff, UInt64.toNat_sub, size_from]
  by_cases hpos : 0 < r.size.toInt
  · have := hfit hpos
    omega
  · omega

namespace CodeCache

/-- The cache, with addresses counted from its base. -/
def rooted (c : CodeCache) : CodeCache := { c with base := 0 }

/-- The regions in use, with addresses counted from the base of the cache. -/
def offsets (c : CodeCache) : List Region := c.regions.map (·.from c.base)

/-- Seen from its start the cache is packed. -/
structure Rooted (c : CodeCache) (t : Int) (sunk : Bool) : Prop where
  packed : Packed c.rooted t sunk c.offsets
  listed : Listed c

section
variable {c c' : CodeCache} {t : Int} {sunk : Bool} {r : Region} {i : Installed} {blob : CodeBlob} {n : Int64}

theorem handed_from (c : CodeCache) (n : Int64) : (c.handed n).from c.base = c.rooted.handed n := by
  show (⟨c.base + c.top.toUInt64 - c.base, _⟩ : Region) = ⟨0 + c.top.toUInt64, _⟩
  congr 1
  grind

theorem giveBack_rooted (c : CodeCache) (q : Region) : (c.giveBack q).rooted = c.rooted.giveBack (q.from c.base) := by
  have hstop : q.stop = c.base + c.top.toUInt64 ↔ (q.from c.base).stop = c.rooted.base + c.rooted.top.toUInt64 := by
    show q.base + q.size.toUInt64 = _ ↔ q.base - c.base + q.size.toUInt64 = 0 + c.top.toUInt64
    constructor <;> intro h <;> grind
  unfold giveBack
  by_cases hzero : q.size = 0
  · rw [if_pos hzero, if_pos (show (q.from c.base).size = 0 from hzero)]
  rw [if_neg hzero, if_neg (show ¬ (q.from c.base).size = 0 from hzero)]
  by_cases h : q.stop = c.base + c.top.toUInt64
  · rw [if_pos h, if_pos (hstop.mp h)]
    rfl
  · rw [if_neg h, if_neg (mt hstop.mpr h)]
    rfl

theorem front_from (r : Region) (k : Int64) (base : UInt64) : (r.front k).from base = (r.from base).front k := rfl

theorem back_from (r : Region) (k : Int64) (base : UInt64) : (r.back k).from base = (r.from base).back k := by
  show (⟨r.base + k.toUInt64 - base, _⟩ : Region) = ⟨r.base - base + k.toUInt64, _⟩
  congr 1
  grind

/-! ## The steps -/

theorem offsets_sublist (c : CodeCache) (n : Int64) :
    (offsets { c with top := c.top + roundUp n, pending := c.handed n :: c.withoutPending (c.handed n).base }).Sublist
      (c.rooted.handed n :: c.offsets) := by
  have h := (handed_sublist c n).map (·.from c.base)
  rwa [List.map_cons, handed_from] at h

theorem Rooted.reserve (h : Rooted c t sunk) (hsmall : n.toInt ≤ 2 ^ 63 - 64) (hcall : c.reserve n = .ok (r, c')) :
    sunk = false ∧ ∃ t', Rooted c' t' false := by
  obtain ⟨hn, hroom, -, rfl⟩ := reserve_eq_ok hcall
  obtain ⟨hsunk, hpacked⟩ := h.packed.reserve hn hsmall hroom
  exact ⟨hsunk, _, (hpacked.sublist (offsets_sublist c n)).congr rfl rfl rfl, h.listed.reserve hn⟩

theorem Rooted.reserve_wraps (h : Rooted c t sunk) (hlarge : 2 ^ 63 - 64 < n.toInt) (hcall : c.reserve n = .ok (r, c')) :
    Rooted c' t (!sunk) := by
  obtain ⟨hn, -, -, rfl⟩ := reserve_eq_ok hcall
  exact ⟨((h.packed.reserve_wraps hlarge).sublist (offsets_sublist c n)).congr rfl rfl rfl, h.listed.reserve hn⟩

/-- What is given back lowers the top or leaves it, and without size it may raise or sink it. -/
theorem Packed.giveBack_from {q : Region} {rs : List Region} (h : Packed c.rooted t sunk (q.from c.base :: rs))
    (hq : 0 ≤ q.size.toInt ∨ q.size.toInt = -2 ^ 63) :
    ∃ t' sunk', Packed (c.giveBack q).rooted t' sunk' rs ∧ (0 ≤ q.size.toInt → sunk' = sunk) := by
  rw [giveBack_rooted]
  rcases hq with hq | hq
  · obtain ⟨t', hpacked⟩ := h.giveBack hq
    exact ⟨t', sunk, hpacked, fun _ => rfl⟩
  · obtain ⟨sunk', hpacked⟩ := h.giveBack_negative hq
    exact ⟨t, sunk', hpacked, fun hsize => by omega⟩

theorem Rooted.floating (h : Rooted c t sunk) (hr : r ∈ c.pending) (installer : Installer) :
    Packed (rooted { c with installer, pending := c.withoutPending r.base }) t sunk
      (r.from c.base :: offsets { c with installer, pending := c.withoutPending r.base }) := by
  have hperm : c.regions.Perm (r :: (c.withoutPending r.base ++ c.installed.map (·.region))) :=
    (perm_without h.listed.keys hr).append_right _
  have hoffsets := hperm.map fun s : Region => s.from c.base
  exact (h.packed.perm hoffsets).congr rfl rfl rfl

theorem Rooted.release (h : Rooted c t sunk) (hcall : c.release r = .ok c') :
    ∃ t' sunk', Rooted c' t' sunk' ∧ (0 ≤ r.size.toInt → sunk' = sunk) := by
  obtain ⟨hmem, rfl⟩ := release_eq_ok hcall
  obtain ⟨t', sunk', hpacked, hsunk⟩ :=
    (h.floating hmem c.installer).giveBack_from ((h.listed.pending r hmem).imp_left Int.le_of_lt)
  refine ⟨t', sunk', ⟨?_, (h.listed.withoutPending r.base).congr (by simp) (by simp)⟩, hsunk⟩
  simpa [offsets, regions] using hpacked

theorem Rooted.commit (h : Rooted c t sunk) (hblob : blob.size < 2 ^ 63) (hcall : c.commit r blob = .ok (i, c')) :
    ∃ t', Rooted c' t' sunk := by
  obtain ⟨hfit, rfl, installer, -, rfl⟩ := commit_eq_ok hcall
  obtain ⟨hmem, hbase, -⟩ := checkFit_eq_ok hfit
  have hin : r.from c.base ∈ c.offsets := List.mem_map_of_mem (List.mem_append_left _ hmem)
  obtain ⟨hr, hkept, hle, hused, hdvd⟩ := kept_within hfit hblob (h.packed.aligned _ hin).2 (h.listed.pending r hmem)
  have hdivided := (h.floating hmem installer).divide hkept hle hdvd
  rw [← back_from] at hdivided
  obtain ⟨t', sunk', hpacked, hsunk⟩ := hdivided.giveBack_from (.inl (by rw [toInt_back hkept hle]; omega))
  obtain rfl := hsunk (by rw [toInt_back hkept hle]; omega)
  refine ⟨t', ?_, h.listed.commit hblob hused fun k hk hsame => ?_⟩
  · have hperm := (@regions_commit c r blob installer (r.back (kept blob)) hbase).map (·.from c.base)
    refine (hpacked.perm ?_).congr rfl rfl rfl
    simpa [offsets, front_from] using hperm
  · -- code with bytes would share its first address with the region
    by_cases hzero : k.used.toInt = 0
    · exact Int64.toInt_inj.mp (by rw [hzero, Int64.toInt_zero])
    · have hk' := h.listed.installed k hk
      have hsame : k.region.base = r.base := hsame.trans hbase
      have hapart : (c.pending.map (·.from c.base) ++ (c.installed.map (·.region)).map (·.from c.base)).Pairwise
          Region.Apart := by rw [← List.map_append]; exact h.packed.apart
      have hboth := (List.pairwise_append.mp hapart).2.2 _ (List.mem_map_of_mem hmem) _
        (List.mem_map_of_mem (List.mem_map_of_mem hk)) (r.from c.base).base.toNat
      refine absurd (hboth ⟨Nat.le_refl _, by simp only [Region.size_from]; omega⟩) (not_not_intro ?_)
      simp only [Region.Holds, Region.from, hsame]
      omega

theorem Rooted.after (h : Rooted c t sunk) {call : CacheCall} (hcall : call.Possible) :
    ∃ t' sunk', Rooted (c.after call) t' sunk' := by
  cases call with
  | reserve n =>
    rw [CodeCache.after]
    cases hres : c.reserve n with
    | error e => exact ⟨t, sunk, h⟩
    | ok p =>
      by_cases hlarge : 2 ^ 63 - 64 < n.toInt
      · exact ⟨t, _, h.reserve_wraps hlarge hres⟩
      · obtain ⟨-, t', hrooted⟩ := h.reserve (Int.not_lt.mp hlarge) hres
        exact ⟨t', _, hrooted⟩
  | commit r blob =>
    rw [CodeCache.after]
    cases hres : c.commit r blob with
    | error e => exact ⟨t, sunk, h⟩
    | ok p =>
      obtain ⟨t', hrooted⟩ := h.commit hcall hres
      exact ⟨t', sunk, hrooted⟩
  | release r =>
    rw [CodeCache.after]
    cases hres : c.release r with
    | error e => exact ⟨t, sunk, h⟩
    | ok c' =>
      obtain ⟨t', sunk', hrooted, -⟩ := h.release hres
      exact ⟨t', sunk', hrooted⟩

theorem pending_after {call : CacheCall} (hr : r ∈ (c.after call).pending) :
    r ∈ c.pending ∨ ∃ n, call = .reserve n ∧ 0 < n.toInt ∧ r = c.handed n := by
  have hfilter {a : UInt64} (hr : r ∈ c.withoutPending a) : r ∈ c.pending := List.filter_sublist.subset hr
  cases call with
  | reserve n =>
    rw [CodeCache.after] at hr
    cases hres : c.reserve n with
    | error e => exact .inl (by simpa [hres] using hr)
    | ok p =>
      obtain ⟨hn, -, -, hc⟩ := reserve_eq_ok hres
      rw [hres] at hr
      simp only [hc] at hr
      rcases List.mem_cons.mp hr with rfl | hr
      · exact .inr ⟨n, rfl, hn, rfl⟩
      · exact .inl (hfilter hr)
  | commit q blob =>
    rw [CodeCache.after] at hr
    cases hres : c.commit q blob with
    | error e => exact .inl (by simpa [hres] using hr)
    | ok p =>
      obtain ⟨-, -, installer, -, hc⟩ := commit_eq_ok hres
      rw [hres] at hr
      simp only [hc, giveBack_pending] at hr
      exact .inl (hfilter hr)
  | release q =>
    rw [CodeCache.after] at hr
    cases hres : c.release q with
    | error e => exact .inl (by simpa [hres] using hr)
    | ok c' =>
      obtain ⟨-, hc⟩ := release_eq_ok hres
      rw [hres] at hr
      simp only [hc, giveBack_pending] at hr
      exact .inl (hfilter hr)

/-! ## Requests that do not wrap -/

/-- The top is where it belongs, and every pending region has addresses. -/
structure Level (c : CodeCache) : Prop where
  rooted : ∃ t, Rooted c t false
  sizes : ∀ r ∈ c.pending, 0 < r.size.toInt

theorem Level.after (h : Level c) {call : CacheCall} (hcall : call.Possible) (hrounds : call.Rounds) :
    Level (c.after call) := by
  obtain ⟨t, hrooted⟩ := h.rooted
  refine ⟨?_, fun r hr => ?_⟩
  · cases call with
    | reserve n =>
      rw [CodeCache.after]
      cases hres : c.reserve n with
      | error e => exact h.rooted
      | ok p => exact (hrooted.reserve hrounds hres).2
    | commit r blob =>
      rw [CodeCache.after]
      cases hres : c.commit r blob with
      | error e => exact h.rooted
      | ok p => exact hrooted.commit hcall hres
    | release r =>
      rw [CodeCache.after]
      cases hres : c.release r with
      | error e => exact h.rooted
      | ok c' =>
        obtain ⟨t', sunk', hrooted', hsunk⟩ := hrooted.release hres
        obtain rfl := hsunk (Int.le_of_lt (h.sizes r (release_eq_ok hres).1))
        exact ⟨t', hrooted'⟩
  · rcases pending_after hr with hr | ⟨n, rfl, hn, rfl⟩
    · exact h.sizes r hr
    · have := toInt_roundUp (Int.le_of_lt hn) hrounds
      show 0 < (roundUp n).toInt
      omega

theorem Level.top (h : Level c) : 0 ≤ c.top.toInt ∧ c.top.toInt ≤ c.size.toInt := by
  obtain ⟨t, hrooted⟩ := h.rooted
  have htop : c.top.toInt = t := hrooted.packed.top
  exact htop ▸ ⟨hrooted.packed.nonneg, hrooted.packed.le⟩

/-! ## Answers -/

theorem reserve_of_pos (hn : 0 < n) :
    c.reserve n =
      if c.size - c.top < roundUp n then
        .error (.failure (.within ("reserving " ++ Text.ofInt (roundUp n).toInt ++ " bytes") .cacheFull))
      else .ok (c.handed n, { c with top := c.top + roundUp n, pending := c.handed n :: c.withoutPending (c.handed n).base }) := by
  rw [CodeCache.reserve, if_neg (Int64.not_le.mpr hn)]
  rfl

/-- The answer to a request that clients rely on: a region of the size they asked for, inside the
cache and apart from the regions in use, or else that the cache is full, and nothing changes. -/
inductive Replies (c : CodeCache) (n : Int64) : Prop
  | granted (r : Region)
      (answer : c.reserve n = .ok (r, { c with top := c.top + r.size, pending := r :: c.withoutPending r.base }))
      (large : n ≤ r.size) (inside : ∀ addr, r.Has addr → c.Has addr)
      (apart : ∀ s ∈ c.regions, ∀ addr, r.Has addr → ¬ s.Has addr)
  | full
      (answer : c.reserve n =
        .error (.failure (.within ("reserving " ++ Text.ofInt (roundUp n).toInt ++ " bytes") .cacheFull)))
      (unchanged : c.after (.reserve n) = c)

/-- A packed region, which does not wrap when it is seen from the start of the cache. -/
theorem Packed.has_iff {rs : List Region} (h : Packed c'.rooted t sunk rs) (hr : r.from c.base ∈ rs) {addr : UInt64} :
    r.Has addr ↔ (r.from c.base).Holds (addr - c.base).toNat := by
  refine Region.has_iff_holds fun hpos => ?_
  have hends := (h.sublist (List.singleton_sublist.mpr hr)).ends hpos
  rw [Region.size_from] at hends
  have hle := h.le
  have hfits := h.fits
  omega

theorem Rooted.replies (h : Rooted c t sunk) (hn : 0 < n) (hsmall : n.toInt ≤ 2 ^ 63 - 64) : Replies c n := by
  have hpos : 0 < n.toInt := Int64.lt_iff_toInt_lt.mp hn
  by_cases hroom : c.size - c.top < roundUp n
  · have hfull := (reserve_of_pos (c := c) hn).trans (if_pos hroom)
    exact .full hfull (by rw [CodeCache.after, hfull])
  · obtain ⟨-, hpacked⟩ := h.packed.reserve hpos hsmall hroom
    have hsize := toInt_roundUp (Int.le_of_lt hpos) hsmall
    have hle := hpacked.le
    rw [← handed_from] at hpacked
    replace hpacked : Packed (rooted { c with top := c.top + roundUp n }) _ false _ := hpacked
    refine .granted (c.handed n) ((reserve_of_pos hn).trans (if_neg hroom)) ?_ (fun addr ha => ?_)
      fun s hs addr ha hb => ?_
    · exact Int64.le_iff_toInt_le.mpr (by show n.toInt ≤ (roundUp n).toInt; omega)
    · have hholds := (hpacked.has_iff List.mem_cons_self).mp ha
      have hin := (hpacked.inside _ List.mem_cons_self _ hholds).2
      have hzero : (0 : UInt64).toNat = 0 := rfl
      simp only [rooted, hzero] at hin hle
      show ((addr - c.base).toNat : Int) < c.size.toInt
      omega
    · have hmem : s.from c.base ∈ c.offsets := List.mem_map_of_mem hs
      have hother := (hpacked.has_iff (List.mem_cons_of_mem _ hmem)).mp hb
      exact (List.pairwise_cons.mp hpacked.apart).1 _ hmem _ ((hpacked.has_iff List.mem_cons_self).mp ha) hother

/-- A request that wraps is never turned down. -/
theorem reserve_oversized (c : CodeCache) (hlarge : 2 ^ 63 - 64 < n.toInt) :
    c.reserve n = .ok (c.handed n,
      { c with top := c.top + roundUp n, pending := c.handed n :: c.withoutPending (c.handed n).base }) := by
  have hn : 0 < n := Int64.lt_iff_toInt_lt.mpr (by rw [Int64.toInt_zero]; omega)
  refine (reserve_of_pos hn).trans (if_neg fun hroom => ?_)
  have hsize := toInt_roundUp_wraps hlarge
  have hleast := (c.size - c.top).le_toInt
  have hlt := Int64.lt_iff_toInt_lt.mp hroom
  omega

/-- Rounded up, a request that does not wrap fits if and only if the cache has as much left. -/
theorem Level.granted_iff (h : Level c) (hn : 0 < n) (hsmall : n.toInt ≤ 2 ^ 63 - 64) :
    (∃ p, c.reserve n = .ok p) ↔ c.top.toInt + (n.toInt + 63) / 64 * 64 ≤ c.size.toInt := by
  have hsize := toInt_roundUp (Int.le_of_lt (Int64.lt_iff_toInt_lt.mp hn)) hsmall
  have hleft : (c.size - c.top).toInt = c.size.toInt - c.top.toInt := by
    obtain ⟨k, hk⟩ := toInt_sub_wraps c.size c.top
    have := h.top
    have := c.size.toInt_lt
    have := (c.size - c.top).toInt_lt
    have := (c.size - c.top).le_toInt
    omega
  have hroom : c.size - c.top < roundUp n ↔ c.size.toInt - c.top.toInt < (n.toInt + 63) / 64 * 64 := by
    rw [Int64.lt_iff_toInt_lt, hleft, hsize]
  rw [reserve_of_pos hn]
  by_cases hfull : c.size - c.top < roundUp n
  · rw [if_pos hfull]
    have hless := hroom.mp hfull
    exact ⟨fun ⟨_, hp⟩ => absurd hp nofun, fun hle => by omega⟩
  · rw [if_neg hfull]
    have hmore := mt hroom.mpr hfull
    exact ⟨fun _ => by omega, fun _ => ⟨_, rfl⟩⟩

end

/-! ## Any calls, and one more request -/

variable {c : CodeCache}

theorem rooted_create {base : UInt64} {size : Int64} {installer : Option Installer}
    (h : create base size installer = .ok c) :
    Rooted c 0 false ∧ Level c := by
  obtain ⟨-, hsize, i, -, rfl⟩ := create_eq_ok h
  have hrooted : Rooted { base, size, installer := i } 0 false := by
    have hlt := size.toInt_lt
    have hfits : (0 : UInt64).toNat + size.toInt ≤ 2 ^ 64 := by
      show ((0 : Nat) : Int) + size.toInt ≤ 2 ^ 64
      omega
    refine ⟨⟨⟨0, rfl⟩, hfits, rfl, ⟨0, rfl⟩, Int.le_refl 0, Int.le_of_lt hsize, .nil, ?_, ?_⟩, .nil, ?_, ?_, .nil⟩ <;>
      simp [offsets, regions]
  exact ⟨hrooted, ⟨0, hrooted⟩, by simp⟩

theorem Rooted.afterAll {calls : List (Installer × CacheCall)} (hcalls : ∀ p ∈ calls, p.2.Possible)
    {t : Int} {sunk : Bool} (h : Rooted c t sunk) : ∃ t' sunk', Rooted (c.afterAll calls) t' sunk' := by
  induction calls generalizing c t sunk with
  | nil => exact ⟨t, sunk, h⟩
  | cons p calls ih =>
    have h1 : Rooted { c with installer := p.1 } t sunk := ⟨h.packed.congr rfl rfl rfl, h.listed.congr rfl rfl⟩
    obtain ⟨t', sunk', h2⟩ := h1.after (hcalls p List.mem_cons_self)
    exact ih (fun q hq => hcalls q (List.mem_cons_of_mem p hq)) h2

theorem Level.afterAll {calls : List (Installer × CacheCall)} (hcalls : ∀ p ∈ calls, p.2.Possible)
    (hrounds : ∀ p ∈ calls, p.2.Rounds) (h : Level c) : Level (c.afterAll calls) := by
  induction calls generalizing c with
  | nil => exact h
  | cons p calls ih =>
    obtain ⟨t, hrooted⟩ := h.rooted
    have h1 : Level { c with installer := p.1 } :=
      ⟨⟨t, hrooted.packed.congr rfl rfl rfl, hrooted.listed.congr rfl rfl⟩, h.sizes⟩
    exact ih (fun q hq => hcalls q (List.mem_cons_of_mem p hq)) (fun q hq => hrounds q (List.mem_cons_of_mem p hq))
      (h1.after (hcalls p List.mem_cons_self) (hrounds p List.mem_cons_self))

/-- After any calls a request of up to 2^63 - 64 bytes gets a region that is large enough, in the
cache and apart from all others, or is turned down without effect. As long as no request was
larger, it is turned down only when it does not fit, and the top stays between the bounds of the
cache. A larger request gets a region of -2^63 bytes, and the top leaves the cache. -/
theorem requests_are_answered {base : UInt64} {size : Int64} {installer : Option Installer} {c : CodeCache}
    (hc : create base size installer = .ok c) (calls : List (Installer × CacheCall))
    (hcalls : ∀ p ∈ calls, p.2.Possible) (n : Int64) (hn : 0 < n) :
    (c.afterAll calls).base = base ∧ (c.afterAll calls).size = size ∧
    (n.toInt ≤ 2 ^ 63 - 64 →
      Replies (c.afterAll calls) n ∧
      ((∀ p ∈ calls, p.2.Rounds) →
        ((∃ p, (c.afterAll calls).reserve n = .ok p) ↔
          (c.afterAll calls).top.toInt + (n.toInt + 63) / 64 * 64 ≤ size.toInt) ∧
        0 ≤ ((c.afterAll calls).after (.reserve n)).top ∧ ((c.afterAll calls).after (.reserve n)).top ≤ size)) ∧
    (2 ^ 63 - 64 < n.toInt →
      ∃ r s, (c.afterAll calls).reserve n = .ok (r, s) ∧ r.size.toInt = -2 ^ 63 ∧
        ((∀ p ∈ calls, p.2.Rounds) → s.top < 0)) := by
  obtain ⟨hnew, hlevel⟩ := rooted_create hc
  obtain ⟨-, -, i, -, rfl⟩ := create_eq_ok hc
  obtain ⟨hbase, hsize⟩ := afterAll_extent { base, size, installer := i } calls
  obtain ⟨t, sunk, hrooted⟩ := hnew.afterAll hcalls
  refine ⟨hbase, hsize, fun hsmall => ⟨hrooted.replies hn hsmall, fun hrounds => ?_⟩, fun hlarge => ?_⟩
  · have hlevel' := hlevel.afterAll hcalls hrounds
    have htop := (@Level.after _ hlevel' (.reserve n) trivial hsmall).top
    rw [(after_extent _ _).2, hsize] at htop
    have hgranted := hlevel'.granted_iff hn hsmall
    rw [hsize] at hgranted
    exact ⟨hgranted, Int64.le_iff_toInt_le.mpr htop.1, Int64.le_iff_toInt_le.mpr htop.2⟩
  · refine ⟨_, _, reserve_oversized _ hlarge, toInt_roundUp_wraps hlarge, fun hrounds => ?_⟩
    have htop := (hlevel.afterAll hcalls hrounds).top
    have hwrapped := toInt_roundUp_wraps hlarge
    refine Int64.lt_iff_toInt_lt.mpr ?_
    obtain ⟨k, hk⟩ := toInt_add_wraps (CodeCache.afterAll { base, size, installer := i } calls).top (roundUp n)
    have := ((CodeCache.afterAll { base, size, installer := i } calls).top + roundUp n).toInt_lt
    have := ((CodeCache.afterAll { base, size, installer := i } calls).top + roundUp n).le_toInt
    have := (CodeCache.afterAll { base, size, installer := i } calls).top.toInt_lt
    show ((CodeCache.afterAll { base, size, installer := i } calls).top + roundUp n).toInt < 0
    omega

/-- A cache that ends behind the last address. -/
def lastCache : CodeCache :=
  { base := 0xffffffffffffffc0, size := 256, installer := .memory { base := 0xffffffffffffffc0, size := 256 } }

/-- The second line of it starts at address zero, and is handed out as any other. -/
theorem the_zero_address_is_handed_out :
    Replies (lastCache.afterAll [(lastCache.installer, .reserve 10)]) 100 ∧
      (lastCache.afterAll [(lastCache.installer, .reserve 10), (lastCache.installer, .reserve 100)]).pending =
        [⟨0, 128⟩, ⟨0xffffffffffffffc0, 64⟩] := by
  have hnew : create 0xffffffffffffffc0 256 (some lastCache.installer) = .ok lastCache := rfl
  obtain ⟨-, -, hanswered, -⟩ := requests_are_answered hnew [(lastCache.installer, .reserve 10)]
    (fun p hp => by rw [List.mem_singleton.mp hp]; trivial) 100 (by decide)
  exact ⟨(hanswered (by decide)).1, by decide +kernel⟩

/-- The largest request is granted by a cache of a page, with a region without addresses. -/
theorem the_largest_request_is_granted :
    ∃ c s : CodeCache, create 0x1000 4096 (some (.unavailable "not mapped")) = .ok c ∧
      c.reserve Int64.maxValue = .ok (⟨0x1000, Int64.minValue⟩, s) ∧ s.top = Int64.minValue ∧
      ¬ Replies c Int64.maxValue := by
  refine ⟨_, _, rfl, reserve_oversized _ (by decide), by decide, fun h => ?_⟩
  have hreserve := reserve_oversized { base := 0x1000, size := 4096, installer := .unavailable "not mapped" }
    (n := Int64.maxValue) (by decide)
  rcases h with ⟨r, answer, large, -, -⟩ | ⟨answer, -⟩
  · rw [hreserve] at answer
    cases answer
    exact absurd large (by decide)
  · rw [hreserve] at answer
    cases answer

end CodeCache

end RiscvJit

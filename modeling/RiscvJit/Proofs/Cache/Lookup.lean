import RiscvJit.Proofs.Cache.Allocation
import RiscvJit.Proofs.Cache.Memory

/-
  RiscvJit.Proofs.Cache.Lookup — installed code stays in place and is found by its addresses.

  `Kept` relates a cache whose installer is a memory of its own extent to the blobs that were
  committed so far: the list of installed code is theirs, and the memory holds their bytes. Every
  call keeps it (`Kept.after`), since a blob is only ever written into a pending region, and that
  shares no address with installed code.

  What an address is looked up to is told by `lookup?_eq_some`: the last code that starts at or
  below it, if the address is inside. Two things come between an address and its code. A blob
  without bytes is listed too, and hides the code around it from its own start on
  (`empty_code_hides_code_below`); and code that ends with the last address of all contains no
  address. `installed_code_is_kept` states the rest exactly.
-/

namespace RiscvJit

/-! ## Code in memory -/

namespace Memory

variable {m : Memory} {base : UInt64} {size : Int64}

/-- The memory holds the code of a blob at its address. -/
structure Stores (m : Memory) (base : UInt64) (size : Int64) (blob : CodeBlob) : Prop where
  above : base.toNat ≤ blob.base.toNat
  below : blob.base.toNat - base.toNat + blob.size ≤ size.toInt.toNat
  bytes : ∀ k (hk : k < blob.code.length), m.byteAt (blob.base.toNat - base.toNat + k) = blob.code[k]

theorem Stores.read {blob : CodeBlob} (hs : m.Stores base size blob) (h : m.Covers base size) :
    m.read blob.base (Int64.ofNat blob.size) = .ok blob.code := by
  have hsize := size.toInt_lt
  have hbelow := hs.below
  unfold Memory.read
  rw [h.offset hs.above hbelow, Int64.toNatClampNeg_ofNat_of_lt (by omega)]
  refine congrArg Except.ok (List.ext_getElem (by simp [CodeBlob.size]) fun k h1 h2 => ?_)
  simp [hs.bytes k h2]

end Memory

/-! ## Addresses of code -/

/-- The address lies in the blob. -/
def CodeBlob.Spans (blob : CodeBlob) (pc : UInt64) : Prop :=
  blob.base.toNat ≤ pc.toNat ∧ pc.toNat < blob.base.toNat + blob.size

namespace CodeCache

section
variable {c c' : CodeCache} {t : Int} {sunk : Bool} {i k : Installed} {pc : UInt64} {l : List Installed}

/-- The last code that starts at or below an address. -/
theorem getLast?_takeWhile (h : l.Pairwise Installed.Before) :
    (l.takeWhile (·.region.base ≤ pc)).getLast? = some i ↔
      ∃ l1 l2, l = l1 ++ i :: l2 ∧ i.region.base ≤ pc ∧ ∀ k ∈ l2, pc < k.region.base := by
  constructor
  · intro hlast
    obtain ⟨l1, hl1⟩ := List.getLast?_eq_some_iff.mp hlast
    have hall := List.all_eq_true.mp (List.all_takeWhile (l := l) (p := (·.region.base ≤ pc))) i (by rw [hl1]; simp)
    refine ⟨l1, l.dropWhile (·.region.base ≤ pc), ?_, by simpa using hall, fun k hk => lt_of_mem_dropWhile h hk⟩
    rw [List.append_cons, ← hl1, List.takeWhile_append_dropWhile]
  · rintro ⟨l1, l2, rfl, hle, habove⟩
    have hbelow : ∀ k ∈ l1 ++ [i], (decide (k.region.base ≤ pc)) = true := by
      intro k hk
      rcases List.mem_append.mp hk with hk | hk
      · have := (List.pairwise_append.mp h).2.2 k hk i List.mem_cons_self
        exact decide_eq_true (UInt64.le_trans this.le hle)
      · rw [List.mem_singleton.mp hk]
        exact decide_eq_true hle
    have hstop : l2.takeWhile (·.region.base ≤ pc) = [] := by
      cases l2 with
      | nil => rfl
      | cons k l2 =>
        have := UInt64.not_le.mpr (habove k List.mem_cons_self)
        rw [List.takeWhile_cons_of_neg (by simpa using this)]
    rw [List.append_cons, List.takeWhile_append_of_pos hbelow, hstop, List.append_nil, List.getLast?_concat]

theorem lookup?_eq_some (h : Listed c) :
    c.lookup? pc = some i ↔ i.contains pc = true ∧
      ∃ l1 l2, c.installed = l1 ++ i :: l2 ∧ i.region.base ≤ pc ∧ ∀ k ∈ l2, pc < k.region.base := by
  rw [lookup?, Option.filter_eq_some_iff, getLast?_takeWhile h.ordered]
  exact and_comm

/-! ## What was committed -/

/-- The blob that a call installs, if it does. -/
def installs (c : CodeCache) : CacheCall → List CodeBlob
  | .commit r blob => match c.commit r blob with
    | .ok _ => [blob]
    | .error _ => []
  | _ => []

/-- The cache after some calls. -/
def run (c : CodeCache) (calls : List CacheCall) : CodeCache := calls.foldl after c

/-- The blobs that some calls install, in their order. -/
def committed (c : CodeCache) : List CacheCall → List CodeBlob
  | [] => []
  | call :: calls => c.installs call ++ (c.after call).committed calls

/-- A cache over a memory of its own extent, and the blobs committed to it. -/
structure Kept (c : CodeCache) (m : Memory) (blobs : List CodeBlob) : Prop where
  sound : ∃ t sunk, Sound c t sunk
  installer : c.installer = .memory m
  covers : m.Covers c.base c.size
  installed : c.installed.Perm (blobs.map listing)
  short : ∀ blob ∈ blobs, blob.size < 2 ^ 63
  stores : ∀ blob ∈ blobs, m.Stores c.base c.size blob

variable {m m' : Memory} {blob : CodeBlob} {blobs : List CodeBlob} {r : Region} {call : CacheCall}

theorem Kept.mem_installed (h : Kept c m blobs) (hb : blob ∈ blobs) : listing blob ∈ c.installed :=
  h.installed.mem_iff.mpr (List.mem_map_of_mem hb)

theorem Kept.of_mem_installed (h : Kept c m blobs) (hi : i ∈ c.installed) : ∃ blob ∈ blobs, i = listing blob := by
  obtain ⟨blob, hb, rfl⟩ := List.mem_map.mp (h.installed.mem_iff.mp hi)
  exact ⟨blob, hb, rfl⟩

theorem Kept.holds (h : Kept c m blobs) (hb : blob ∈ blobs) {addr : Nat} (hle : blob.base.toNat ≤ addr)
    (hlt : addr < blob.base.toNat + blob.size) : (listing blob).region.Holds addr := by
  obtain ⟨t, sunk, hs⟩ := h.sound
  have hused : (listing blob).used.toInt = blob.size := Int64.toInt_ofNat_of_lt (h.short blob hb)
  have := hs.listed.installed _ (h.mem_installed hb)
  refine ⟨hle, ?_⟩
  show (addr : Int) < blob.base.toNat + _
  omega

theorem Kept.keep (h : Kept c m blobs) (hs : ∃ t sunk, Sound c' t sunk) (hb : c'.base = c.base) (hz : c'.size = c.size)
    (hi : c'.installer = c.installer) (hl : c'.installed = c.installed) : Kept c' m blobs := by
  obtain ⟨-, h2, h3, h4, h5, h6⟩ := h
  rw [← hi] at h2
  rw [← hb, ← hz] at h3 h6
  rw [← hl] at h4
  exact ⟨hs, h2, h3, h4, h5, h6⟩

theorem Sound.fit_inside (h : Sound c t sunk) (hfit : c.checkFit r blob = .ok ()) (hblob : blob.size < 2 ^ 63) :
    c.base.toNat ≤ r.base.toNat ∧ r.base.toNat - c.base.toNat + blob.size ≤ c.size.toInt.toNat := by
  obtain ⟨hmem, -, -⟩ := checkFit_eq_ok hfit
  obtain ⟨hr, -, hle, hused, -⟩ := kept_le h hfit hblob
  have hends : c.base.toNat ≤ r.base.toNat ∧ r.base.toNat + r.size.toInt ≤ c.base.toNat + t := (h.floating hmem).ends hr
  have := h.packed.le
  omega

theorem Kept.commit (h : Kept c m blobs) (hblob : blob.size < 2 ^ 63) (hcall : c.commit r blob = .ok (i, c')) :
    ∃ m', Kept c' m' (blobs ++ [blob]) := by
  obtain ⟨t, sunk, hs⟩ := h.sound
  obtain ⟨t', hs'⟩ := hs.commit hblob hcall
  obtain ⟨hfit, -, installer, hinstall, rfl⟩ := commit_eq_ok hcall
  obtain ⟨hmem, hbase, -⟩ := checkFit_eq_ok hfit
  obtain ⟨hr, -, hle, hused, -⟩ := kept_le hs hfit hblob
  obtain ⟨habove, hbelow⟩ := hs.fit_inside hfit hblob
  rw [h.installer, Installer.install, h.covers.install habove hbelow] at hinstall
  cases hinstall
  refine ⟨m.written (r.base.toNat - c.base.toNat) blob.code, ⟨t', sunk, hs'⟩, giveBack_installer _ _, ?_, ?_, ?_, ?_⟩
  · simpa using h.covers.written _ _
  · rw [List.map_append]
    refine (insertInstalled_perm _ _).trans ((h.installed.cons _).trans ?_)
    exact (List.perm_append_singleton _ _).symm
  · intro b hb
    rcases List.mem_append.mp hb with hb | hb
    · exact h.short b hb
    · rwa [List.mem_singleton.mp hb]
  · intro b hb
    simp only [giveBack_base, giveBack_size]
    rcases List.mem_append.mp hb with hb | hb
    · obtain ⟨h1, h2, h3⟩ := h.stores b hb
      refine ⟨h1, h2, fun k hk => ?_⟩
      rw [Memory.byteAt_written_outside, h3 k hk]
      -- otherwise the pending region holds an address of installed code
      by_cases hout : b.base.toNat - c.base.toNat + k < r.base.toNat - c.base.toNat ∨
          r.base.toNat - c.base.toNat + blob.code.length ≤ b.base.toNat - c.base.toNat + k
      · exact hout
      · have hlength : blob.code.length = blob.size := rfl
        refine absurd (h.holds hb (Nat.le_add_right b.base.toNat k) (Nat.add_lt_add_left hk _)) ?_
        exact hs.pending_apart hmem (h.mem_installed hb) _ ⟨by omega, by omega⟩
    · rw [List.mem_singleton.mp hb, ← hbase] at *
      exact ⟨habove, hbelow, fun k hk => Memory.byteAt_written_inside m hk⟩

theorem reserve_keeps_code (c : CodeCache) (n : Int64) :
    (c.after (.reserve n)).installer = c.installer ∧ (c.after (.reserve n)).installed = c.installed := by
  rw [CodeCache.after]
  cases hres : c.reserve n with
  | error e => exact ⟨rfl, rfl⟩
  | ok p =>
    obtain ⟨-, -, -, hc⟩ := reserve_eq_ok hres
    simp [hc]

theorem release_keeps_code (c : CodeCache) (r : Region) :
    (c.after (.release r)).installer = c.installer ∧ (c.after (.release r)).installed = c.installed := by
  rw [CodeCache.after]
  cases hres : c.release r with
  | error e => exact ⟨rfl, rfl⟩
  | ok c' =>
    obtain ⟨-, hc⟩ := release_eq_ok hres
    simp [hc]

/-- No call disturbs what is installed. -/
theorem Kept.after (h : Kept c m blobs) (hcall : call.Possible) :
    ∃ m', Kept (c.after call) m' (blobs ++ c.installs call) := by
  obtain ⟨t, sunk, hs⟩ := h.sound
  have hs' := hs.after hcall
  obtain ⟨hbase, hsize⟩ := after_extent c call
  cases call with
  | reserve n =>
    obtain ⟨hinstaller, hinstalled⟩ := reserve_keeps_code c n
    exact ⟨m, (List.append_nil blobs).symm ▸ h.keep hs' hbase hsize hinstaller hinstalled⟩
  | release r =>
    obtain ⟨hinstaller, hinstalled⟩ := release_keeps_code c r
    exact ⟨m, (List.append_nil blobs).symm ▸ h.keep hs' hbase hsize hinstaller hinstalled⟩
  | commit r blob =>
    rw [CodeCache.after, installs]
    cases hres : c.commit r blob with
    | error e => exact ⟨m, (List.append_nil blobs).symm ▸ h⟩
    | ok p => exact h.commit hcall hres

theorem Kept.run {calls : List CacheCall} (hcalls : ∀ call ∈ calls, call.Possible) (h : Kept c m blobs) :
    ∃ m', Kept (c.run calls) m' (blobs ++ c.committed calls) := by
  induction calls generalizing c m blobs with
  | nil => exact ⟨m, by rwa [committed, List.append_nil]⟩
  | cons call calls ih =>
    obtain ⟨m1, h1⟩ := h.after (hcalls call List.mem_cons_self)
    obtain ⟨m2, h2⟩ := ih (fun b hb => hcalls b (List.mem_cons_of_mem call hb)) h1
    rw [List.append_assoc] at h2
    exact ⟨m2, h2⟩

/-! ## Looking up -/

/-- An address is found in code unless the code ends with the last address. -/
theorem contains_listing (hend : blob.base.toNat + blob.size ≤ 2 ^ 64) (hshort : blob.size < 2 ^ 63) :
    (listing blob).contains pc = true ↔ blob.Spans pc ∧ blob.base.toNat + blob.size < 2 ^ 64 := by
  have hstop : ((listing blob).region.base + (listing blob).used.toUInt64).toNat =
      (blob.base.toNat + blob.size) % 2 ^ 64 := by
    show (blob.base + (Int64.ofNat blob.size).toUInt64).toNat = _
    rw [UInt64.toNat_add, Int64.toUInt64_ofNat', UInt64.toNat_ofNat']
    omega
  rw [Installed.contains, Bool.and_eq_true, decide_eq_true_eq, decide_eq_true_eq, UInt64.le_iff_toNat_le,
    UInt64.lt_iff_toNat_lt, hstop]
  show blob.base.toNat ≤ pc.toNat ∧ _ ↔ (blob.base.toNat ≤ pc.toNat ∧ _) ∧ _
  omega

theorem Kept.ends (h : Kept c m blobs) (hb : blob ∈ blobs) : blob.base.toNat + blob.size ≤ 2 ^ 64 := by
  obtain ⟨t, sunk, hs⟩ := h.sound
  obtain ⟨h1, h2, -⟩ := h.stores blob hb
  have := hs.packed.fits
  have := hs.packed.nonneg
  have := hs.packed.le
  omega

/-- A later start than that of some code, at an address of it, is the start of code without bytes. -/
theorem Kept.size_zero_of_start {other : CodeBlob} {l1 l2 : List Installed} (h : Kept c m blobs) (hb : blob ∈ blobs)
    (ho : other ∈ blobs) (hl : c.installed = l1 ++ listing blob :: l2) (hmem : listing other ∈ l2)
    (hspans : blob.Spans other.base) : other.size = 0 := by
  obtain ⟨t, sunk, hs⟩ := h.sound
  have hapart := (List.pairwise_append.mp hs.packed.apart).2.1
  rw [hl, List.map_append, List.map_cons] at hapart
  have hrest := (List.pairwise_cons.mp (List.pairwise_append.mp hapart).2.1).1 _ (List.mem_map_of_mem hmem)
  refine Nat.eq_zero_of_not_pos fun hpos => ?_
  exact hrest other.base.toNat (h.holds hb hspans.1 hspans.2) (h.holds ho (Nat.le_refl _) (by omega))

/-- What is found at an address: the blob there, unless it ends with the last address or a blob
without bytes starts between its start and the address. -/
theorem Kept.lookup?_iff (h : Kept c m blobs) (hb : blob ∈ blobs) :
    c.lookup? pc = some (listing blob) ↔
      blob.Spans pc ∧ blob.base.toNat + blob.size < 2 ^ 64 ∧
        ∀ other ∈ blobs, other.size = 0 → ¬ (blob.base < other.base ∧ other.base ≤ pc) := by
  obtain ⟨t, sunk, hs⟩ := h.sound
  rw [lookup?_eq_some hs.listed, contains_listing (h.ends hb) (h.short blob hb), and_assoc]
  refine and_congr_right fun hspans => and_congr_right fun _ => ?_
  constructor
  · rintro ⟨l1, l2, hl, -, habove⟩ other ho - ⟨hlt, hle⟩
    have hordered := hs.listed.ordered
    rw [hl] at hordered
    have hmem := h.mem_installed ho
    rw [hl, List.mem_append, List.mem_cons] at hmem
    rcases hmem with hmem | heq | hmem
    · have := ((List.pairwise_append.mp hordered).2.2 _ hmem _ List.mem_cons_self).le
      exact UInt64.not_le.mpr hlt this
    · have hbase : other.base = blob.base := congrArg (·.region.base) heq
      rw [hbase] at hlt
      exact UInt64.lt_irrefl _ hlt
    · exact UInt64.not_le.mpr (habove _ hmem) hle
  · intro hclear
    obtain ⟨l1, l2, hl⟩ := List.append_of_mem (h.mem_installed hb)
    refine ⟨l1, l2, hl, UInt64.le_iff_toNat_le.mpr hspans.1, fun k hk => UInt64.not_le.mp fun hle => ?_⟩
    obtain ⟨other, ho, rfl⟩ := h.of_mem_installed (hl ▸ List.mem_append_right _ (List.mem_cons_of_mem _ hk))
    have hordered := hs.listed.ordered
    rw [hl] at hordered
    have hlt : blob.base < other.base := by
      rcases (List.pairwise_cons.mp (List.pairwise_append.mp hordered).2.1).1 _ hk with hlt | ⟨-, hzero⟩
      · exact hlt
      · have hused : (Int64.ofNat blob.size).toInt = blob.size := Int64.toInt_ofNat_of_lt (h.short blob hb)
        have hzero : Int64.ofNat blob.size = 0 := hzero
        rw [hzero, Int64.toInt_zero] at hused
        have := hspans.1
        have := hspans.2
        omega
    refine hclear other ho (h.size_zero_of_start hb ho hl hk ⟨?_, ?_⟩) ⟨hlt, hle⟩
    · exact Nat.le_of_lt (UInt64.lt_iff_toNat_lt.mp hlt)
    · exact Nat.lt_of_le_of_lt (UInt64.le_iff_toNat_le.mp hle) hspans.2

theorem Kept.lookup?_none (h : Kept c m blobs) (hout : ∀ blob ∈ blobs, ¬ blob.Spans pc) : c.lookup? pc = none := by
  obtain ⟨t, sunk, hs⟩ := h.sound
  refine Option.eq_none_iff_forall_ne_some.mpr fun i hi => ?_
  obtain ⟨hcontains, l1, l2, hl, -⟩ := (lookup?_eq_some hs.listed).mp hi
  obtain ⟨blob, hb, rfl⟩ := h.of_mem_installed (i := i) (by rw [hl]; simp)
  exact hout blob hb ((contains_listing (h.ends hb) (h.short blob hb)).mp hcontains).1

theorem kept_create {base : UInt64} {size : Int64} (hc : create base size (some (.memory m)) = .ok c)
    (hfit : base.toNat + size.toInt ≤ 2 ^ 64) (hm : m.Covers base size) : Kept c m [] := by
  have hsound := (sound_create hc hfit).1
  obtain ⟨-, -, i, hi, rfl⟩ := create_eq_ok hc
  cases hi
  exact ⟨⟨0, false, hsound⟩, rfl, hm, .nil, by simp, by simp⟩

end

/-- Once a blob is committed, its bytes are read back at every later point of a run, and it is
found at its addresses; an address of no committed blob is found in none. -/
theorem installed_code_is_kept {base : UInt64} {size : Int64} {m : Memory} {c : CodeCache}
    (hc : create base size (some (.memory m)) = .ok c) (hfit : base.toNat + size.toInt ≤ 2 ^ 64)
    (hm : m.Covers base size) (calls : List CacheCall) (hcalls : ∀ call ∈ calls, call.Possible) :
    ∃ m', (c.run calls).installer = .memory m' ∧
      (∀ blob ∈ c.committed calls, m'.read blob.base (Int64.ofNat blob.size) = .ok blob.code ∧
        ∀ pc, (c.run calls).lookup? pc = some (listing blob) ↔
          blob.Spans pc ∧ blob.base.toNat + blob.size < 2 ^ 64 ∧
            ∀ other ∈ c.committed calls, other.size = 0 → ¬ (blob.base < other.base ∧ other.base ≤ pc)) ∧
      ∀ pc, (∀ blob ∈ c.committed calls, ¬ blob.Spans pc) → (c.run calls).lookup? pc = none := by
  obtain ⟨m', h⟩ := (kept_create hc hfit hm).run hcalls
  rw [List.nil_append] at h
  exact ⟨m', h.installer, fun blob hb => ⟨(h.stores blob hb).read h.covers, fun pc => h.lookup?_iff hb⟩,
    fun pc => h.lookup?_none⟩

/-- Two generations at once; the later one is finished first. -/
def twoGenerations : List CacheCall :=
  [.reserve 100, .reserve 10, .commit ⟨0x1080, 64⟩ { name := "second", base := 0x1080, code := [1, 2, 3] },
   .commit ⟨0x1000, 128⟩ { name := "first", base := 0x1000, code := [4, 5] }]

theorem two_generations_are_kept :
    create 0x1000 256 (some smallCache.installer) = .ok smallCache ∧
      ∃ m', (smallCache.run twoGenerations).installer = .memory m' ∧ m'.read 0x1080 3 = .ok [1, 2, 3] ∧
        (smallCache.run twoGenerations).lookup? 0x1082 = some ⟨"second", ⟨0x1080, 64⟩, 3⟩ := by
  have hnew : create 0x1000 256 (some smallCache.installer) = .ok smallCache := rfl
  have hcommitted : smallCache.committed twoGenerations =
      [{ name := "second", base := 0x1080, code := [1, 2, 3] }, { name := "first", base := 0x1000, code := [4, 5] }] := by
    rfl
  obtain ⟨m', hm, hkept, -⟩ := installed_code_is_kept hnew (by decide) ⟨rfl, rfl, rfl⟩ twoGenerations
    (by simp [twoGenerations, CacheCall.Possible, CodeBlob.size])
  rw [hcommitted] at hkept
  obtain ⟨hread, hlookup⟩ := hkept _ List.mem_cons_self
  refine ⟨hnew, m', hm, hread, (hlookup 0x1082).mpr ⟨by unfold CodeBlob.Spans; decide, by decide, ?_⟩⟩
  simp [CodeBlob.size]

/-- A blob without bytes is committed into the second region; once the first region is back, a
larger one takes the place of both. -/
def hidden : List CacheCall :=
  [.reserve 64, .reserve 64, .commit ⟨0x1040, 64⟩ (zeros 0x1040 0), .release ⟨0x1000, 64⟩, .reserve 128,
   .commit ⟨0x1000, 128⟩ (zeros 0x1000 66)]

/-- Code is not found at an address of its own when code without bytes starts before it. -/
theorem empty_code_hides_code_below :
    zeros 0x1000 66 ∈ smallCache.committed hidden ∧ (zeros 0x1000 66).Spans 0x1041 ∧
      (smallCache.run hidden).lookup? 0x1041 = none := by
  refine ⟨?_, by simp [CodeBlob.Spans, CodeBlob.size, zeros], by decide +kernel⟩
  have hcommitted : smallCache.committed hidden = [zeros 0x1040 0, zeros 0x1000 66] := by rfl
  simp [hcommitted]

end CodeCache

end RiscvJit

import RiscvJit.Proofs.Cache.Regions

/-
  RiscvJit.Proofs.Cache.Allocation — what clients of a code cache can rely on.

  `reserve_eq_ok`, `commit_eq_ok` and `release_eq_ok` say what a call does when it succeeds; a call
  that fails changes nothing. `Sound` is kept by every call (`Sound.after`): the regions are packed,
  there is one pending region for each base, and code is listed by address. As long as no request
  comes near 2^63 bytes the account is kept as well (`Balanced.after`). Hence
  `regions_stay_apart`: after any calls of any number of clients, with an installer that may fail
  at each of them, the regions in use are apart, aligned and below the top, and the top is the sum
  of the pending, the installed and the wasted bytes.
-/

namespace RiscvJit

/-! ## The lists of the cache -/

/-- Which of two pieces of installed code comes first. Only code without bytes comes before other
code at its address. -/
def Installed.Before (i j : Installed) : Prop :=
  i.region.base < j.region.base ∨ (i.region.base = j.region.base ∧ i.used = 0)

theorem Installed.Before.le {i j : Installed} (h : i.Before j) : i.region.base ≤ j.region.base := by
  rcases h with h | ⟨h, -⟩
  · exact UInt64.le_of_lt h
  · exact h ▸ UInt64.le_refl _

namespace CodeCache

/-- The lists are kept as they are meant: one pending region for each base, and code by address. -/
structure Listed (c : CodeCache) : Prop where
  keys : c.pending.Pairwise (·.base ≠ ·.base)
  pending : ∀ r ∈ c.pending, 0 < r.size.toInt ∨ r.size.toInt = -2 ^ 63
  installed : ∀ i ∈ c.installed, 0 ≤ i.used.toInt ∧ i.used.toInt ≤ i.region.size.toInt
  ordered : c.installed.Pairwise Installed.Before

section
variable {c c' : CodeCache} {t : Int} {sunk : Bool} {r : Region} {i : Installed} {blob : CodeBlob}

theorem giveBack_eq (c : CodeCache) (q : Region) :
    c.giveBack q = { c with top := (c.giveBack q).top, wasted := (c.giveBack q).wasted } := by
  unfold giveBack
  split
  · rfl
  · split <;> rfl

@[simp] theorem giveBack_base (c : CodeCache) (q : Region) : (c.giveBack q).base = c.base := by rw [giveBack_eq]

@[simp] theorem giveBack_size (c : CodeCache) (q : Region) : (c.giveBack q).size = c.size := by rw [giveBack_eq]

@[simp] theorem giveBack_installer (c : CodeCache) (q : Region) : (c.giveBack q).installer = c.installer := by
  rw [giveBack_eq]

@[simp] theorem giveBack_pending (c : CodeCache) (q : Region) : (c.giveBack q).pending = c.pending := by
  rw [giveBack_eq]

@[simp] theorem giveBack_installed (c : CodeCache) (q : Region) : (c.giveBack q).installed = c.installed := by
  rw [giveBack_eq]

theorem perm_without {l : List Region} (hkeys : l.Pairwise (·.base ≠ ·.base)) (hr : r ∈ l) :
    l.Perm (r :: l.filter (·.base ≠ r.base)) := by
  induction l with
  | nil => cases hr
  | cons s l ih =>
    obtain ⟨hs, hl⟩ := List.pairwise_cons.mp hkeys
    rcases List.mem_cons.mp hr with rfl | hr
    · have : l.filter (·.base ≠ r.base) = l := by
        rw [List.filter_eq_self]
        exact fun s h => decide_eq_true (hs s h).symm
      rw [List.filter_cons_of_neg (by simp), this]
    · rw [List.filter_cons_of_pos (by simpa using hs r hr)]
      exact ((ih hl hr).cons s).trans (List.Perm.swap r s _)

theorem insertInstalled_perm (i : Installed) (l : List Installed) : (insertInstalled i l).Perm (i :: l) := by
  unfold insertInstalled
  refine List.perm_middle.trans ?_
  rw [List.takeWhile_append_dropWhile]

theorem lt_of_mem_dropWhile {l : List Installed} {a : UInt64} (h : l.Pairwise Installed.Before) {k : Installed}
    (hk : k ∈ l.dropWhile (·.region.base ≤ a)) : a < k.region.base := by
  induction l with
  | nil => cases hk
  | cons j l ih =>
    obtain ⟨hj, hl⟩ := List.pairwise_cons.mp h
    by_cases hle : j.region.base ≤ a
    · rw [List.dropWhile_cons_of_pos (by simpa using hle)] at hk
      exact ih hl hk
    · rw [List.dropWhile_cons_of_neg (by simpa using hle)] at hk
      have hlt := UInt64.not_le.mp hle
      rcases List.mem_cons.mp hk with rfl | hk
      · exact hlt
      · exact UInt64.lt_of_lt_of_le hlt (hj k hk).le

/-- New code goes behind all code at its address and before all code above. -/
theorem insertInstalled_ordered {l : List Installed} (h : l.Pairwise Installed.Before)
    (hties : ∀ k ∈ l, k.region.base = i.region.base → k.used = 0) :
    (insertInstalled i l).Pairwise Installed.Before := by
  have hparts : (l.takeWhile (·.region.base ≤ i.region.base) ++
      l.dropWhile (·.region.base ≤ i.region.base)).Pairwise Installed.Before := by
    rwa [List.takeWhile_append_dropWhile]
  obtain ⟨hbelow, habove, hcross⟩ := List.pairwise_append.mp hparts
  refine List.pairwise_append.mpr ⟨hbelow, List.pairwise_cons.mpr ⟨?_, habove⟩, ?_⟩
  · exact fun k hk => .inl (lt_of_mem_dropWhile h hk)
  · intro k hk
    refine List.forall_mem_cons.mpr ⟨?_, hcross k hk⟩
    have hle : k.region.base ≤ i.region.base := by
      simpa using List.all_eq_true.mp List.all_takeWhile k hk
    rcases UInt64.lt_or_eq_of_le hle with hlt | heq
    · exact .inl hlt
    · exact .inr ⟨heq, hties k ((List.takeWhile_sublist _).subset hk) heq⟩

/-! ## One call -/

variable {n : Int64}

theorem reserve_eq_ok (h : c.reserve n = .ok (r, c')) :
    0 < n.toInt ∧ ¬ c.size - c.top < roundUp n ∧ r = c.handed n ∧
      c' = { c with top := c.top + roundUp n, pending := c.handed n :: c.withoutPending (c.handed n).base } := by
  unfold reserve at h
  split at h
  · cases h
  · rename_i hn
    simp only at h
    split at h
    · cases h
    · rename_i hroom
      cases h
      exact ⟨Int64.lt_iff_toInt_lt.mp (Int64.not_le.mp hn), hroom, rfl, rfl⟩

theorem checkFit_eq_ok (h : c.checkFit r blob = .ok ()) :
    r ∈ c.pending ∧ blob.base = r.base ∧ (Int64.ofNat blob.size).toInt ≤ r.size.toInt := by
  simp only [checkFit, bind, Except.bind, pure, Except.pure, throw, throwThe, MonadExceptOf.throw] at h
  by_cases hmem : r ∈ c.pending
  · by_cases hbase : blob.base = r.base
    · by_cases hsize : r.size < Int64.ofNat blob.size
      · simp [hmem, hbase, hsize] at h
      · exact ⟨hmem, hbase, Int64.le_iff_toInt_le.mp (Int64.not_lt.mp hsize)⟩
    · simp [hmem, hbase] at h
  · simp [hmem] at h

/-- The size that a blob keeps of its region. -/
def kept (blob : CodeBlob) : Int64 := roundUp (Int64.ofNat blob.size)

/-- How a blob is listed once it is installed. -/
def listing (blob : CodeBlob) : Installed :=
  ⟨blob.name, ⟨blob.base, kept blob⟩, Int64.ofNat blob.size⟩

theorem commit_eq_ok (h : c.commit r blob = .ok (i, c')) :
    c.checkFit r blob = .ok () ∧ i = listing blob ∧
      ∃ installer, c.installer.install r.base blob.code = .ok installer ∧
        c' = { giveBack { c with installer, pending := c.withoutPending r.base }
                (r.back (kept blob)) with
               installed := insertInstalled (listing blob) c.installed } := by
  unfold commit at h
  cases hfit : c.checkFit r blob with
  | error e => rw [hfit] at h; cases h
  | ok u =>
    rw [hfit] at h
    obtain ⟨-, hbase, -⟩ := checkFit_eq_ok hfit
    cases hinstall : c.installer.install r.base blob.code with
    | error e => rw [hinstall] at h; cases h
    | ok installer =>
      rw [hinstall] at h
      cases h
      rw [listing, hbase]
      refine ⟨rfl, rfl, installer, rfl, ?_⟩
      simp only [giveBack_installed]
      rfl

theorem release_eq_ok (h : c.release r = .ok c') :
    r ∈ c.pending ∧ c' = { c with pending := c.withoutPending r.base }.giveBack r := by
  unfold release at h
  split at h
  · rename_i hmem
    cases h
    exact ⟨by simpa using hmem, rfl⟩
  · cases h

/-- The cache is as its clients rely on it to be. -/
structure Sound (c : CodeCache) (t : Int) (sunk : Bool) : Prop where
  packed : Packed c t sunk c.regions
  listed : Listed c

/-- A pending region, apart from the other regions in use. -/
theorem Sound.single_out (h : Sound c t sunk) (hr : r ∈ c.pending) :
    c.regions.Perm (r :: (c.withoutPending r.base ++ c.installed.map (·.region))) :=
  (perm_without h.listed.keys hr).append_right _

theorem Listed.withoutPending (h : Listed c) (a : UInt64) : Listed { c with pending := c.withoutPending a } :=
  { h with
    keys := h.keys.sublist List.filter_sublist
    pending := fun r hr => h.pending r (List.filter_sublist.subset hr) }

theorem Listed.congr (h : Listed c) (hp : c'.pending = c.pending) (hi : c'.installed = c.installed) : Listed c' := by
  obtain ⟨h1, h2, h3, h4⟩ := h
  rw [← hp] at h1 h2
  rw [← hi] at h3 h4
  exact ⟨h1, h2, h3, h4⟩

theorem Listed.reserve (h : Listed c) (hn : 0 < n.toInt) :
    Listed { c with top := c.top + roundUp n, pending := c.handed n :: c.withoutPending (c.handed n).base } := by
  have hrest := h.withoutPending (c.handed n).base
  refine { h with
    keys := List.pairwise_cons.mpr ⟨?_, hrest.keys⟩
    pending := List.forall_mem_cons.mpr ⟨?_, hrest.pending⟩ }
  · intro s hs heq
    have := (List.mem_filter.mp hs).2
    simp [heq] at this
  · by_cases hlarge : 2 ^ 63 - 64 < n.toInt
    · exact .inr (toInt_roundUp_wraps hlarge)
    · have := toInt_roundUp (by omega) (Int.not_lt.mp hlarge)
      exact .inl (by show 0 < (roundUp n).toInt; omega)

theorem handed_sublist (c : CodeCache) (n : Int64) :
    ((c.handed n :: c.withoutPending (c.handed n).base) ++ c.installed.map (·.region)).Sublist
      (c.handed n :: c.regions) :=
  (List.filter_sublist.append_right _).cons_cons _

/-- A modest request is met at the top. -/
theorem Sound.reserve (h : Sound c t sunk) (hsmall : n.toInt ≤ 2 ^ 63 - 64) (hcall : c.reserve n = .ok (r, c')) :
    sunk = false ∧ ∃ t', Sound c' t' false := by
  obtain ⟨hn, hroom, -, rfl⟩ := reserve_eq_ok hcall
  obtain ⟨hsunk, hpacked⟩ := h.packed.reserve hn hsmall hroom
  exact ⟨hsunk, _, (hpacked.sublist (handed_sublist c n)).congr rfl rfl rfl, h.listed.reserve hn⟩

theorem Sound.reserve_wraps (h : Sound c t sunk) (hlarge : 2 ^ 63 - 64 < n.toInt) (hcall : c.reserve n = .ok (r, c')) :
    Sound c' t (!sunk) := by
  obtain ⟨hn, -, -, rfl⟩ := reserve_eq_ok hcall
  exact ⟨((h.packed.reserve_wraps hlarge).sublist (handed_sublist c n)).congr rfl rfl rfl, h.listed.reserve hn⟩

theorem Sound.floating (h : Sound c t sunk) (hr : r ∈ c.pending) :
    Packed { c with pending := c.withoutPending r.base } t sunk
      (r :: regions { c with pending := c.withoutPending r.base }) :=
  (h.packed.perm (h.single_out hr)).congr rfl rfl rfl

theorem Sound.release (h : Sound c t sunk) (hr : 0 ≤ r.size.toInt) (hcall : c.release r = .ok c') :
    ∃ t', Sound c' t' sunk := by
  obtain ⟨hmem, rfl⟩ := release_eq_ok hcall
  obtain ⟨t', hpacked⟩ := (h.floating hmem).giveBack hr
  refine ⟨t', ?_, (h.listed.withoutPending r.base).congr (by simp) (by simp)⟩
  simpa [regions] using hpacked

theorem Sound.release_negative (h : Sound c t sunk) (hr : r.size.toInt = -2 ^ 63) (hcall : c.release r = .ok c') :
    ∃ sunk', Sound c' t sunk' := by
  obtain ⟨hmem, rfl⟩ := release_eq_ok hcall
  obtain ⟨sunk', hpacked⟩ := (h.floating hmem).giveBack_negative hr
  refine ⟨sunk', ?_, (h.listed.withoutPending r.base).congr (by simp) (by simp)⟩
  simpa [regions] using hpacked

/-- A blob that fits keeps whole lines of its region, and at least itself. -/
theorem kept_within (hfit : c.checkFit r blob = .ok ()) (hblob : blob.size < 2 ^ 63) (haligned : 64 ∣ r.size.toInt)
    (hpending : 0 < r.size.toInt ∨ r.size.toInt = -2 ^ 63) :
    0 < r.size.toInt ∧ 0 ≤ (kept blob).toInt ∧ (kept blob).toInt ≤ r.size.toInt ∧
      blob.size ≤ (kept blob).toInt ∧ 64 ∣ (kept blob).toInt := by
  obtain ⟨-, -, hsize⟩ := checkFit_eq_ok hfit
  have hused := Int64.toInt_ofNat_of_lt hblob
  have hlt := r.size.toInt_lt
  have hkept : (kept blob).toInt = _ := toInt_roundUp (by omega) (by omega)
  omega

theorem kept_le (h : Sound c t sunk) (hfit : c.checkFit r blob = .ok ()) (hblob : blob.size < 2 ^ 63) :
    0 < r.size.toInt ∧ 0 ≤ (kept blob).toInt ∧ (kept blob).toInt ≤ r.size.toInt ∧
      blob.size ≤ (kept blob).toInt ∧ 64 ∣ (kept blob).toInt :=
  have hmem := (checkFit_eq_ok hfit).1
  kept_within hfit hblob (h.packed.aligned r (List.mem_append_left _ hmem)).2 (h.listed.pending r hmem)

theorem Sound.pending_apart (h : Sound c t sunk) (hr : r ∈ c.pending) (hi : i ∈ c.installed) : r.Apart i.region :=
  (List.pairwise_append.mp h.packed.apart).2.2 r hr i.region (List.mem_map_of_mem hi)

/-- The part that a blob keeps is its region from then on. -/
theorem regions_commit {installer : Installer} {q : Region} (hbase : blob.base = r.base) :
    (r.front (kept blob) :: regions { c with installer, pending := c.withoutPending r.base }).Perm
      (regions { giveBack { c with installer, pending := c.withoutPending r.base } q with
        installed := insertInstalled (listing blob) c.installed }) := by
  have hlist := ((insertInstalled_perm (listing blob) c.installed).map (·.region)).append_left
    (c.withoutPending r.base)
  have hfront : r.front (kept blob) = (listing blob).region := by rw [listing, hbase]; rfl
  rw [hfront, regions, regions, giveBack_pending]
  exact (hlist.trans List.perm_middle).symm

/-- Code that is put in place is listed where its address says, if nothing with bytes is there. -/
theorem Listed.commit {installer : Installer} {q : Region} (h : Listed c) (hblob : blob.size < 2 ^ 63)
    (hused : blob.size ≤ (kept blob).toInt) (hties : ∀ k ∈ c.installed, k.region.base = blob.base → k.used = 0) :
    Listed { giveBack { c with installer, pending := c.withoutPending r.base } q with
      installed := insertInstalled (listing blob) c.installed } := by
  have hsize := Int64.toInt_ofNat_of_lt hblob
  have hlisted := h.withoutPending r.base
  refine ⟨by simpa using hlisted.keys, by simpa using hlisted.pending, ?_, ?_⟩
  · intro k hk
    rcases List.mem_cons.mp ((insertInstalled_perm _ _).mem_iff.mp hk) with rfl | hk
    · simp only [listing]
      omega
    · exact h.installed k hk
  · exact insertInstalled_ordered h.ordered hties

theorem Sound.commit (h : Sound c t sunk) (hblob : blob.size < 2 ^ 63) (hcall : c.commit r blob = .ok (i, c')) :
    ∃ t', Sound c' t' sunk := by
  obtain ⟨hfit, rfl, installer, -, rfl⟩ := commit_eq_ok hcall
  obtain ⟨hmem, hbase, -⟩ := checkFit_eq_ok hfit
  obtain ⟨hr, hkept, hle, hused, hdvd⟩ := kept_le h hfit hblob
  have hback := toInt_back hkept hle
  have h' : Sound { c with installer } t sunk := ⟨h.packed.congr rfl rfl rfl, h.listed.congr rfl rfl⟩
  obtain ⟨t', hpacked⟩ := ((h'.floating hmem).divide hkept hle hdvd).giveBack (by omega)
  refine ⟨t', (hpacked.perm (regions_commit hbase)).congr rfl rfl rfl, h.listed.commit hblob hused fun k hk hsame => ?_⟩
  -- code with bytes would share its first address with the region
  by_cases hzero : k.used.toInt = 0
  · exact Int64.toInt_inj.mp (by rw [hzero, Int64.toInt_zero])
  · have hk' := h.listed.installed k hk
    have hsame : k.region.base = r.base := hsame.trans hbase
    refine absurd (h.pending_apart hmem hk r.base.toNat ⟨Nat.le_refl _, by omega⟩) (not_not_intro ?_)
    exact ⟨Nat.le_of_eq (by rw [hsame]), by rw [hsame]; omega⟩

/-! ## The account of one call -/

theorem Balanced.after_reserve (h : Balanced c c.regions) (hs : Sound c t false) (hsmall : n.toInt ≤ 2 ^ 63 - 64)
    (hcall : c.reserve n = .ok (r, c')) : Balanced c' c'.regions := by
  obtain ⟨hn, hroom, -, rfl⟩ := reserve_eq_ok hcall
  have hsize := toInt_roundUp (by omega) hsmall
  obtain ⟨-, hpacked⟩ := hs.packed.reserve hn hsmall hroom
  have hraised : (c.top + roundUp n).toInt = c.top.toInt + (roundUp n).toInt := by
    rw [hpacked.top, hs.packed.top]
    rfl
  have hnew : c.withoutPending (c.handed n).base = c.pending := by
    rw [CodeCache.withoutPending, List.filter_eq_self]
    intro s hmem
    refine decide_eq_true fun heq => ?_
    -- both would hold the address they start at
    have hin := List.mem_append_left (c.installed.map (·.region)) hmem
    have hpos : 0 < s.size.toInt := by
      have := hs.listed.pending s hmem
      have := h.sizes s hin
      omega
    refine (List.pairwise_cons.mp hpacked.apart).1 s hin s.base.toNat ⟨Nat.le_of_eq (by rw [heq]), ?_⟩
      ⟨Nat.le_refl _, by omega⟩
    rw [heq]
    show _ < (c.handed n).base.toNat + (roundUp n).toInt
    omega
  have hbalanced := h.reserve (n := n) (by omega) hraised
  refine Balanced.congr ?_ (c := { c with top := c.top + roundUp n }) rfl rfl
  rw [regions, hnew]
  exact hbalanced

theorem Balanced.floating (h : Balanced c c.regions) (hs : Sound c t sunk) (hr : r ∈ c.pending) :
    Balanced { c with pending := c.withoutPending r.base }
      (r :: regions { c with pending := c.withoutPending r.base }) :=
  (h.perm (hs.single_out hr)).congr rfl rfl

theorem Balanced.after_release (h : Balanced c c.regions) (hs : Sound c t sunk) (hcall : c.release r = .ok c') :
    Balanced c' c'.regions := by
  obtain ⟨hmem, rfl⟩ := release_eq_ok hcall
  simpa [regions] using (h.floating hs hmem).giveBack

theorem Balanced.after_commit (h : Balanced c c.regions) (hs : Sound c t sunk) (hblob : blob.size < 2 ^ 63)
    (hcall : c.commit r blob = .ok (i, c')) : Balanced c' c'.regions := by
  obtain ⟨hfit, rfl, installer, -, rfl⟩ := commit_eq_ok hcall
  obtain ⟨hmem, hbase, -⟩ := checkFit_eq_ok hfit
  obtain ⟨-, hkept, hle, -⟩ := kept_le hs hfit hblob
  have hs' : Sound { c with installer } t sunk := ⟨hs.packed.congr rfl rfl rfl, hs.listed.congr rfl rfl⟩
  have h' : Balanced { c with installer } (regions { c with installer }) := h.congr rfl rfl
  have hbalanced := ((h'.floating hs' hmem).divide hkept hle).giveBack
  exact (hbalanced.perm (regions_commit hbase)).congr rfl rfl

end

end CodeCache

/-! ## Any calls -/

/-- What a client can ask of a code cache. -/
inductive CacheCall where
  | reserve (size : Int64)
  | commit (r : Region) (blob : CodeBlob)
  | release (r : Region)

/-- The length of code is a number of the machine. -/
def CacheCall.Possible : CacheCall → Prop
  | commit _ blob => blob.size < 2 ^ 63
  | _ => True

/-- No request comes near the range of sizes. -/
def CacheCall.Modest : CacheCall → Prop
  | reserve n => n.toInt < 2 ^ 62
  | commit _ blob => blob.size < 2 ^ 63
  | release _ => True

namespace CodeCache

/-- The cache after a call; a call that fails or is refused changes nothing. -/
def after (c : CodeCache) : CacheCall → CodeCache
  | .reserve n => match c.reserve n with
    | .ok p => p.2
    | .error _ => c
  | .commit r blob => match c.commit r blob with
    | .ok p => p.2
    | .error _ => c
  | .release r => match c.release r with
    | .ok c' => c'
    | .error _ => c

section
variable {c : CodeCache} {t : Int} {sunk : Bool} {call : CacheCall}

theorem Sound.after (h : Sound c t sunk) (hcall : call.Possible) : ∃ t' sunk', Sound (c.after call) t' sunk' := by
  cases call with
  | reserve n =>
    rw [CodeCache.after]
    cases hres : c.reserve n with
    | error e => exact ⟨t, sunk, h⟩
    | ok p =>
      by_cases hlarge : 2 ^ 63 - 64 < n.toInt
      · exact ⟨t, _, h.reserve_wraps hlarge hres⟩
      · obtain ⟨-, t', hsound⟩ := h.reserve (Int.not_lt.mp hlarge) hres
        exact ⟨t', _, hsound⟩
  | commit r blob =>
    rw [CodeCache.after]
    cases hres : c.commit r blob with
    | error e => exact ⟨t, sunk, h⟩
    | ok p =>
      obtain ⟨t', hsound⟩ := h.commit hcall hres
      exact ⟨t', sunk, hsound⟩
  | release r =>
    rw [CodeCache.after]
    cases hres : c.release r with
    | error e => exact ⟨t, sunk, h⟩
    | ok c' =>
      rcases h.listed.pending r (release_eq_ok hres).1 with hr | hr
      · obtain ⟨t', hsound⟩ := h.release (by omega) hres
        exact ⟨t', sunk, hsound⟩
      · obtain ⟨sunk', hsound⟩ := h.release_negative hr hres
        exact ⟨t, sunk', hsound⟩

/-- Modest calls keep the account too, and the top where it belongs. -/
theorem Balanced.after (h : Balanced c c.regions) (hs : Sound c t false) (hcall : call.Modest) :
    Balanced (c.after call) (c.after call).regions ∧ ∃ t', Sound (c.after call) t' false := by
  cases call with
  | reserve n =>
    have hsmall : n.toInt < 2 ^ 62 := hcall
    rw [CodeCache.after]
    cases hres : c.reserve n with
    | error e => exact ⟨h, t, hs⟩
    | ok p => exact ⟨h.after_reserve hs (by omega) hres, (hs.reserve (by omega) hres).2⟩
  | commit r blob =>
    rw [CodeCache.after]
    cases hres : c.commit r blob with
    | error e => exact ⟨h, t, hs⟩
    | ok p => exact ⟨h.after_commit hs hcall hres, hs.commit hcall hres⟩
  | release r =>
    rw [CodeCache.after]
    cases hres : c.release r with
    | error e => exact ⟨h, t, hs⟩
    | ok c' =>
      have hr := h.sizes r (List.mem_append_left _ (release_eq_ok hres).1)
      exact ⟨h.after_release hs hres, hs.release hr hres⟩

theorem create_eq_ok {base : UInt64} {size : Int64} {installer : Option Installer}
    (h : create base size installer = .ok c) :
    64 ∣ base.toNat ∧ 0 < size.toInt ∧ ∃ i, installer = some i ∧ c = { base, size, installer := i } := by
  unfold create at h
  split at h
  · cases h
  · rename_i hbase
    split at h
    · cases h
    · rename_i hsize
      cases installer with
      | none => cases h
      | some i =>
        cases h
        refine ⟨?_, Int64.lt_iff_toInt_lt.mp (Int64.not_le.mp hsize), i, rfl, rfl⟩
        have hmod := congrArg UInt64.toNat (Decidable.not_not.mp hbase)
        rw [UInt64.toNat_mod] at hmod
        exact Nat.dvd_of_mod_eq_zero hmod

/-- A new cache has no regions. -/
theorem sound_create {base : UInt64} {size : Int64} {installer : Option Installer}
    (h : create base size installer = .ok c) (hfit : base.toNat + size.toInt ≤ 2 ^ 64) :
    Sound c 0 false ∧ Balanced c c.regions := by
  obtain ⟨hbase, hsize, i, -, rfl⟩ := create_eq_ok h
  refine ⟨⟨?_, ?_⟩, ?_⟩
  · exact ⟨hbase, hfit, rfl, ⟨0, rfl⟩, Int.le_refl 0, Int.le_of_lt hsize, .nil, by simp [regions], by simp [regions]⟩
  · exact ⟨.nil, by simp, by simp, .nil⟩
  · exact ⟨rfl, Int.le_refl 0, by simp [regions]⟩

end

theorem after_extent (c : CodeCache) (call : CacheCall) :
    (c.after call).base = c.base ∧ (c.after call).size = c.size := by
  cases call with
  | reserve n =>
    rw [after]
    cases hres : c.reserve n with
    | error e => exact ⟨rfl, rfl⟩
    | ok p =>
      obtain ⟨-, -, -, hc⟩ := reserve_eq_ok hres
      simp [hc]
  | commit r blob =>
    rw [after]
    cases hres : c.commit r blob with
    | error e => exact ⟨rfl, rfl⟩
    | ok p =>
      obtain ⟨-, -, installer, -, hc⟩ := commit_eq_ok hres
      simp [hc]
  | release r =>
    rw [after]
    cases hres : c.release r with
    | error e => exact ⟨rfl, rfl⟩
    | ok c' =>
      obtain ⟨-, hc⟩ := release_eq_ok hres
      simp [hc]

/-- The cache after calls that each find the installer in some state, so that it may fail at any
of them. -/
def afterAll (c : CodeCache) (calls : List (Installer × CacheCall)) : CodeCache :=
  calls.foldl (fun c p => { c with installer := p.1 }.after p.2) c

/-- The regions in use share no address, are aligned and lie below the top; code is listed by
address; and every byte below the top is accounted for. -/
structure Tidy (c : CodeCache) : Prop where
  apart : c.regions.Pairwise Region.Apart
  aligned : ∀ r ∈ c.regions, r.Aligned
  inside : ∀ r ∈ c.regions, ∀ addr, r.Holds addr →
    c.base.toNat ≤ addr ∧ (addr : Int) < c.base.toNat + c.top.toInt
  reserved : ∀ r ∈ c.pending, 0 < r.size
  top_le : c.top ≤ c.size
  sorted : c.installed.Pairwise (·.region.base ≤ ·.region.base)
  account : c.top.toInt =
    Region.total c.pending + Region.total (c.installed.map (·.region)) + c.wasted.toInt

theorem Sound.tidy {c : CodeCache} {t : Int} (h : Sound c t false) (hb : Balanced c c.regions) : Tidy c := by
  have htop : c.top.toInt = t := h.packed.top
  refine ⟨h.packed.apart, h.packed.aligned, ?_, ?_, ?_, ?_, ?_⟩
  · rw [htop]
    exact h.packed.inside
  · intro r hr
    have := h.listed.pending r hr
    have := hb.sizes r (List.mem_append_left _ hr)
    exact Int64.lt_iff_toInt_lt.mpr (by rw [Int64.toInt_zero]; omega)
  · exact Int64.le_iff_toInt_le.mpr (htop ▸ h.packed.le)
  · exact h.listed.ordered.imp Installed.Before.le
  · rw [hb.sum, regions, Region.total_append]

theorem Balanced.afterAll {calls : List (Installer × CacheCall)} (hcalls : ∀ p ∈ calls, p.2.Modest) {c : CodeCache}
    {t : Int} (h : Balanced c c.regions) (hs : Sound c t false) :
    Balanced (c.afterAll calls) (c.afterAll calls).regions ∧ ∃ t', Sound (c.afterAll calls) t' false := by
  induction calls generalizing c t with
  | nil => exact ⟨h, t, hs⟩
  | cons p calls ih =>
    have hs1 : Sound { c with installer := p.1 } t false := ⟨hs.packed.congr rfl rfl rfl, hs.listed.congr rfl rfl⟩
    have h1 : Balanced { c with installer := p.1 } (regions { c with installer := p.1 }) := h.congr rfl rfl
    obtain ⟨h2, t', hs2⟩ := h1.after hs1 (hcalls p List.mem_cons_self)
    exact ih (fun q hq => hcalls q (List.mem_cons_of_mem p hq)) h2 hs2

theorem afterAll_extent (c : CodeCache) (calls : List (Installer × CacheCall)) :
    (c.afterAll calls).base = c.base ∧ (c.afterAll calls).size = c.size := by
  induction calls generalizing c with
  | nil => exact ⟨rfl, rfl⟩
  | cons p calls ih =>
    obtain ⟨hbase, hsize⟩ := after_extent { c with installer := p.1 } p.2
    obtain ⟨hbase', hsize'⟩ := ih ({ c with installer := p.1 }.after p.2)
    exact ⟨hbase'.trans hbase, hsize'.trans hsize⟩

/-- Whatever clients ask for in whatever order, and whenever installing fails: the regions handed
out and installed stay apart, and nothing is lost from the account. -/
theorem regions_stay_apart {base : UInt64} {size : Int64} {installer : Option Installer} {c : CodeCache}
    (hc : create base size installer = .ok c) (hfit : base.toNat + size.toInt ≤ 2 ^ 64)
    (calls : List (Installer × CacheCall)) (hcalls : ∀ p ∈ calls, p.2.Modest) :
    (c.afterAll calls).base = base ∧ (c.afterAll calls).size = size ∧ Tidy (c.afterAll calls) := by
  obtain ⟨hsound, hbalanced⟩ := sound_create hc hfit
  obtain ⟨-, -, i, -, rfl⟩ := create_eq_ok hc
  obtain ⟨hbase, hsize⟩ := afterAll_extent { base, size, installer := i } calls
  obtain ⟨hbalanced', t', hsound'⟩ := hbalanced.afterAll hcalls hsound
  exact ⟨hbase, hsize, hsound'.tidy hbalanced'⟩

/-- Room for four small regions. -/
def smallCache : CodeCache := { base := 0x1000, size := 256, installer := .memory { base := 0x1000, size := 256 } }

/-- Code of some length. -/
def zeros (base : UInt64) (n : Nat) : CodeBlob := { name := "zeros", base, code := List.replicate n 0 }

/-- Two generations at once: installing fails for the second, the first leaves a gap behind it,
and a third one takes the rest. -/
def threeGenerations : List (Installer × CacheCall) :=
  [(smallCache.installer, .reserve 100), (smallCache.installer, .reserve 10),
   (.unavailable "not mapped", .commit ⟨0x1080, 64⟩ (zeros 0x1080 8)),
   (smallCache.installer, .commit ⟨0x1000, 128⟩ (zeros 0x1000 8)),
   (smallCache.installer, .release ⟨0x1080, 64⟩), (smallCache.installer, .reserve 65),
   (smallCache.installer, .commit ⟨0x1080, 128⟩ (zeros 0x1080 65))]

theorem three_generations_stay_apart :
    create 0x1000 256 (some smallCache.installer) = .ok smallCache ∧
      (smallCache.afterAll threeGenerations).stats = ⟨256, 256, 64, 0, 2⟩ ∧
      Tidy (smallCache.afterAll threeGenerations) := by
  have hnew : create 0x1000 256 (some smallCache.installer) = .ok smallCache := rfl
  refine ⟨hnew, by decide +kernel, (regions_stay_apart hnew (by decide) threeGenerations ?_).2.2⟩
  simp [threeGenerations, CacheCall.Modest, zeros, CodeBlob.size]

end CodeCache

end RiscvJit

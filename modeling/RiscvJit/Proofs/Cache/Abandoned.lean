import RiscvJit.Proofs.Cache.Allocation

/-
  RiscvJit.Proofs.Cache.Abandoned — what a failed generation leaves behind.

  A generation that fails gives back the region it was handed, and nobody was handed another one in
  between. So the region ends at the top and is free again: top, waste and installed code are as
  before, in every state whatsoever (`generate_error`). What may be missing is a region that was
  pending at the very address of the new one, since regions are pending by address.

  There is none as long as requests are rounded up as numbers are. Then the pending regions lie one
  above the other between the base and the top (`Stacked`, kept by every call: `Stacked.after`);
  distances to the base are compared, so the addresses of the cache may go past the last one and
  around. Hence `failed_generations_leave_nothing`. Two requests of almost 2^63 bytes that wrap do
  leave a region at the top, and the next failure loses it (`a_wrapped_region_is_lost`).
-/

namespace RiscvJit

/-- No request wraps when it is rounded up. -/
def CacheCall.Rounds : CacheCall → Prop
  | reserve n => n.toInt ≤ 2 ^ 63 - 64
  | commit _ blob => blob.size < 2 ^ 63
  | release _ => True

namespace CodeCache

/-! ## One failure -/

section
variable {α : Type} {c : CodeCache} {n : Int64} {make : UInt64 → Except Stop α} {blobOf : α → CodeBlob}
  {note : α → List LogEntry} {r : Region} {blob : CodeBlob} {e : Stop} {log : List LogEntry}

theorem roundUp_ne_zero (hn : 0 < n.toInt) : roundUp n ≠ 0 := by
  intro h
  have h := congrArg Int64.toInt h
  by_cases hlarge : 2 ^ 63 - 64 < n.toInt
  · rw [toInt_roundUp_wraps hlarge] at h
    cases h
  · rw [toInt_roundUp (by omega) (by omega), Int64.toInt_zero] at h
    omega

/-- The last region that was handed out is free again when it comes back. -/
theorem release_handed (hn : 0 < n.toInt) :
    release { c with top := c.top + roundUp n, pending := c.handed n :: c.withoutPending (c.handed n).base }
    (c.handed n) =
      .ok { c with pending := c.withoutPending (c.handed n).base } := by
  have hrest : withoutPending { c with
      top := c.top + roundUp n, pending := c.handed n :: c.withoutPending (c.handed n).base } (c.handed n).base =
        c.withoutPending (c.handed n).base := by
    rw [withoutPending, List.filter_cons_of_neg (by simp), withoutPending, List.filter_filter]
    simp
  have hstop : (c.handed n).stop = c.base + (c.top + roundUp n).toUInt64 := by
    rw [Region.stop, handed, Int64.toUInt64_add, UInt64.add_assoc]
  rw [release, if_pos (by simp), hrest, giveBack,
    if_neg (show ¬ (c.handed n).size = 0 from roundUp_ne_zero hn), if_pos hstop]
  dsimp only
  rw [show c.top + roundUp n - (c.handed n).size = c.top from Int64.add_sub_cancel ..]

/-- A generation that fails can only lose a region that was pending at the address of its own. -/
theorem generate_error (h : (c.generate n make blobOf note).result = .error e) :
    (c.generate n make blobOf note).cache = c ∨
      (c.generate n make blobOf note).cache = { c with pending := c.withoutPending (c.base + c.top.toUInt64) } := by
  unfold generate at h ⊢
  cases hreserve : c.reserve n with
  | error s =>
    cases s <;> exact .inl rfl
  | ok p =>
    obtain ⟨r, c'⟩ := p
    obtain ⟨hn, -, rfl, rfl⟩ := reserve_eq_ok hreserve
    rw [hreserve] at h
    have hback (why : Stop) (log : List LogEntry) : (giveUp (α := α) { c with
        top := c.top + roundUp n, pending := c.handed n :: c.withoutPending (c.handed n).base } (c.handed n)
        why log).cache =
          { c with pending := c.withoutPending (c.handed n).base } := by
      rw [giveUp, release_handed hn]
    dsimp only at h ⊢
    split
    · exact .inr (hback _ _)
    · rename_i a hmake
      rw [hmake] at h
      dsimp only at h ⊢
      split
      · exact .inr (hback _ _)
      · rename_i hcommit
        rw [hcommit] at h
        cases h

/-- Code that is refused was offered for a pending region. -/
theorem commit_eq_failure {f : Failure} (h : c.commit r blob = .error (.failure f)) : r ∈ c.pending := by
  refine Decidable.by_contra fun hr => ?_
  simp only [commit, checkFit, bind, Except.bind, throw, throwThe, MonadExceptOf.throw, List.contains_iff_mem, hr] at h
  cases h

end

/-! ## Regions one above the other -/

/-- How far an address is behind the base. -/
def distance (c : CodeCache) (addr : UInt64) : Nat := (addr - c.base).toNat

/-- Regions of whole lines lie one above the other between the base and the top. -/
structure Stacked (c : CodeCache) (rs : List Region) : Prop where
  nonneg : 0 ≤ c.top.toInt
  le : c.top.toInt ≤ c.size.toInt
  lines : ∀ r ∈ rs, 0 < r.size.toInt ∧ 64 ∣ r.size.toInt
  below : ∀ r ∈ rs, c.distance r.base + r.size.toInt ≤ c.top.toInt
  apart : rs.Pairwise fun r s => (c.distance r.base : Int) + r.size.toInt ≤ c.distance s.base ∨
    (c.distance s.base : Int) + s.size.toInt ≤ c.distance r.base

section
variable {c c' : CodeCache} {n kept : Int64} {r : Region} {rs ss : List Region} {call : CacheCall}

theorem Stacked.perm (h : Stacked c rs) (hp : rs.Perm ss) : Stacked c ss :=
  { h with
    lines := fun r hr => h.lines r (hp.mem_iff.mpr hr)
    below := fun r hr => h.below r (hp.mem_iff.mpr hr)
    apart := h.apart.perm hp Or.symm }

theorem Stacked.tail (h : Stacked c (r :: rs)) : Stacked c rs :=
  { h with
    lines := fun s hs => h.lines s (List.mem_cons_of_mem r hs)
    below := fun s hs => h.below s (List.mem_cons_of_mem r hs)
    apart := (List.pairwise_cons.mp h.apart).2 }

/-- Nothing else of the cache matters. -/
theorem Stacked.congr (h : Stacked c rs) (hb : c'.base = c.base) (hs : c'.size = c.size) (ht : c'.top = c.top) :
    Stacked c' rs := by
  obtain ⟨h1, h2, h3, h4, h5⟩ := h
  rw [← ht] at h1 h2 h4
  rw [← hs] at h2
  simp only [distance, ← hb] at h4 h5
  exact ⟨h1, h2, h3, h4, h5⟩

/-- No two of them start at one address. -/
theorem Stacked.keys (h : Stacked c rs) : rs.Pairwise (·.base ≠ ·.base) := by
  refine h.apart.imp_of_mem fun hr hs hapart heq => ?_
  rw [heq] at hapart
  have := h.lines _ hr
  have := h.lines _ hs
  omega

/-- A new region is above them all. -/
theorem Stacked.reserve (h : Stacked c rs) (hn : 0 < n.toInt) (hsmall : n.toInt ≤ 2 ^ 63 - 64)
    (hroom : ¬ c.size - c.top < roundUp n) : Stacked { c with top := c.top + roundUp n } (c.handed n :: rs) := by
  have hsize := toInt_roundUp (by omega) hsmall
  have hroom : (roundUp n).toInt ≤ (c.size - c.top).toInt := Int64.le_iff_toInt_le.mp (Int64.not_lt.mp hroom)
  obtain ⟨k, hk⟩ := toInt_sub_wraps c.size c.top
  obtain ⟨k', hk'⟩ := toInt_add_wraps c.top (roundUp n)
  have hnonneg := h.nonneg
  have hle := h.le
  have hlt := c.size.toInt_lt
  have hlt' := (c.size - c.top).toInt_lt
  have hge' := (c.size - c.top).le_toInt
  have hlt'' := (c.top + roundUp n).toInt_lt
  have hge'' := (c.top + roundUp n).le_toInt
  have hraised : (c.top + roundUp n).toInt = c.top.toInt + (roundUp n).toInt := by omega
  have hstart : (c.distance (c.handed n).base : Int) = c.top.toInt := by
    have := toNat_toUInt64 c.top
    rw [distance, handed, UInt64.add_comm, UInt64.add_sub_cancel]
    omega
  refine ⟨?_, ?_, List.forall_mem_cons.mpr ⟨?_, h.lines⟩, List.forall_mem_cons.mpr ⟨?_, fun r hr => ?_⟩,
    List.pairwise_cons.mpr ⟨fun r hr => .inr ?_, h.apart⟩⟩
  · show 0 ≤ (c.top + roundUp n).toInt
    omega
  · show (c.top + roundUp n).toInt ≤ c.size.toInt
    omega
  · show 0 < (roundUp n).toInt ∧ 64 ∣ (roundUp n).toInt
    omega
  · show (c.distance (c.handed n).base : Int) + (roundUp n).toInt ≤ (c.top + roundUp n).toInt
    omega
  · have := h.below r hr
    show (c.distance r.base : Int) + r.size.toInt ≤ (c.top + roundUp n).toInt
    omega
  · have := h.below r hr
    show (c.distance r.base : Int) + r.size.toInt ≤ c.distance (c.handed n).base
    omega

/-- None of them is where the next region starts. -/
theorem Stacked.untouched (h : Stacked c c.pending) : c.withoutPending (c.base + c.top.toUInt64) = c.pending := by
  rw [withoutPending, List.filter_eq_self]
  refine fun r hr => decide_eq_true fun heq => ?_
  have hlines := h.lines r hr
  have hbelow := h.below r hr
  have := h.nonneg
  have := toNat_toUInt64 c.top
  have := c.top.toInt_lt
  rw [heq, distance, UInt64.add_comm, UInt64.add_sub_cancel] at hbelow
  omega

theorem ends_at_top (hle : c.distance r.base + r.size.toInt ≤ c.top.toInt) (hr : 0 < r.size.toInt)
    (h : r.stop = c.base + c.top.toUInt64) : c.distance r.base + r.size.toInt = c.top.toInt := by
  have hsum : r.base - c.base + r.size.toUInt64 = c.top.toUInt64 := by
    rw [Region.stop] at h
    rw [UInt64.sub_eq_add_neg, UInt64.add_assoc, UInt64.add_comm (-c.base), ← UInt64.add_assoc, h,
      ← UInt64.sub_eq_add_neg, UInt64.add_comm, UInt64.add_sub_cancel]
  have hsum := congrArg UInt64.toNat hsum
  rw [UInt64.toNat_add] at hsum
  have := toNat_toUInt64 r.size
  have := toNat_toUInt64 c.top
  have := c.top.toInt_lt
  unfold distance at *
  omega

/-- What a region does not keep is given back. -/
theorem Stacked.giveBack (h : Stacked c (r :: rs)) (hkept : 0 ≤ kept.toInt) (hle : kept.toInt ≤ r.size.toInt) :
    Stacked (c.giveBack (r.back kept)) rs := by
  unfold CodeCache.giveBack
  split
  · exact h.tail
  split
  · rename_i hstop
    have hsize : (r.size - kept).toInt = r.size.toInt - kept.toInt := toInt_back hkept hle
    have hstop : r.stop = c.base + c.top.toUInt64 := by
      rw [← hstop, Region.stop, Region.stop, Region.back, UInt64.add_assoc, ← Int64.toUInt64_add, Int64.add_comm,
        Int64.sub_add_cancel]
    have htop := ends_at_top (h.below r List.mem_cons_self) (h.lines r List.mem_cons_self).1 hstop
    have htop' : (c.top - (r.size - kept)).toInt = c.distance r.base + kept.toInt := by
      obtain ⟨k, hk⟩ := toInt_sub_wraps c.top (r.size - kept)
      have := (c.top - (r.size - kept)).toInt_lt
      have := (c.top - (r.size - kept)).le_toInt
      have := c.top.toInt_lt
      omega
    refine { h.tail with nonneg := ?_, le := ?_, below := fun s hs => ?_ }
    · show 0 ≤ (c.top - (r.size - kept)).toInt
      omega
    · have := h.le
      show (c.top - (r.size - kept)).toInt ≤ c.size.toInt
      omega
    · -- what is not above the region is below it
      have := (List.pairwise_cons.mp h.apart).1 s hs
      have := h.below s (List.mem_cons_of_mem r hs)
      have := h.lines s (List.mem_cons_of_mem r hs)
      show (c.distance s.base : Int) + s.size.toInt ≤ (c.top - (r.size - kept)).toInt
      omega
  · exact h.tail.congr rfl rfl rfl

/-- A pending region, apart from the others. -/
theorem Stacked.floating (h : Stacked c c.pending) (hr : r ∈ c.pending) :
    Stacked { c with pending := c.withoutPending r.base } (r :: c.withoutPending r.base) :=
  (h.perm (perm_without h.keys hr)).congr rfl rfl rfl

/-- Calls whose sizes are rounded up keep the pending regions stacked. -/
theorem Stacked.after (h : Stacked c c.pending) (hcall : call.Rounds) :
    Stacked (c.after call) (c.after call).pending := by
  cases call with
  | reserve n =>
    have hsmall : n.toInt ≤ 2 ^ 63 - 64 := hcall
    rw [CodeCache.after]
    cases hres : c.reserve n with
    | error e => exact h
    | ok p =>
      obtain ⟨r, c'⟩ := p
      obtain ⟨hn, hroom, -, rfl⟩ := reserve_eq_ok hres
      dsimp only
      rw [show c.withoutPending (c.handed n).base = c.pending from h.untouched]
      exact (h.reserve hn hsmall hroom).congr rfl rfl rfl
  | commit r blob =>
    have hblob : blob.size < 2 ^ 63 := hcall
    rw [CodeCache.after]
    cases hres : c.commit r blob with
    | error e => exact h
    | ok p =>
      obtain ⟨hfit, -, installer, -, hc⟩ := commit_eq_ok (show _ = Except.ok (p.1, p.2) from hres)
      obtain ⟨hmem, -, hsize⟩ := checkFit_eq_ok hfit
      have hlines := h.lines r hmem
      have hlt := r.size.toInt_lt
      have hused := Int64.toInt_ofNat_of_lt hblob
      have hkept : (kept blob).toInt = _ := toInt_roundUp (by omega) (by omega)
      have h' : Stacked { c with installer, pending := c.withoutPending r.base } (r :: c.withoutPending r.base) :=
        (h.floating hmem).congr rfl rfl rfl
      dsimp only
      rw [hc, giveBack_pending]
      exact (h'.giveBack (by omega) (by omega)).congr rfl rfl rfl
  | release r =>
    rw [CodeCache.after]
    cases hres : c.release r with
    | error e => exact h
    | ok c' =>
      obtain ⟨hmem, rfl⟩ := release_eq_ok hres
      have hlines := h.lines r hmem
      have hback : r.back 0 = r := by
        rw [Region.back, Int64.sub_zero, show (0 : Int64).toUInt64 = 0 from rfl, UInt64.add_zero]
      simpa [hback] using (h.floating hmem).giveBack (Int.le_refl (0 : Int64).toInt) (Int.le_of_lt hlines.1)

theorem Stacked.afterAll {calls : List (Installer × CacheCall)} (hcalls : ∀ p ∈ calls, p.2.Rounds)
    (h : Stacked c c.pending) : Stacked (c.afterAll calls) (c.afterAll calls).pending := by
  induction calls generalizing c with
  | nil => exact h
  | cons p calls ih =>
    have h' : Stacked { c with installer := p.1 } c.pending := h.congr rfl rfl rfl
    exact ih (fun q hq => hcalls q (List.mem_cons_of_mem p hq)) (Stacked.after h' (hcalls p List.mem_cons_self))

theorem stacked_create {base : UInt64} {size : Int64} {installer : Option Installer}
    (h : create base size installer = .ok c) : Stacked c c.pending := by
  obtain ⟨-, hsize, i, -, rfl⟩ := create_eq_ok h
  exact ⟨Int.le_refl 0, Int.le_of_lt hsize, by simp, by simp, .nil⟩

end

/-! ## Any failure -/

/-- Whatever clients asked for before, a generation that fails leaves the cache as it was, but for a
region that is pending at the address of its own; and there is none unless a request wrapped. Code
that is refused changes nothing either, and its region can be given back. -/
theorem failed_generations_leave_nothing {base : UInt64} {size : Int64} {installer : Option Installer} {c : CodeCache}
    (hc : create base size installer = .ok c) (calls : List (Installer × CacheCall)) (i : Installer) :
    let s := { c.afterAll calls with installer := i }
    (∀ (α : Type) (n : Int64) (make : UInt64 → Except Stop α) (blobOf : α → CodeBlob) (note : α → List LogEntry)
    (e : Stop),
      (s.generate n make blobOf note).result = .error e →
        let s' := (s.generate n make blobOf note).cache
        s' = { s with pending := s'.pending } ∧
          (s'.pending = s.pending ∨ s'.pending = s.withoutPending (s.base + s.top.toUInt64)) ∧
          ((∀ p ∈ calls, p.2.Rounds) → s' = s)) ∧
      ∀ (r : Region) (blob : CodeBlob) (f : Failure), s.commit r blob = .error (.failure f) →
        s.after (.commit r blob) = s ∧ r ∈ s.pending ∧ ∃ s', s.release r = .ok s' := by
  intro s
  have hstacked (hcalls : ∀ p ∈ calls, p.2.Rounds) : Stacked s s.pending :=
    ((stacked_create hc).afterAll hcalls).congr rfl rfl rfl
  refine ⟨fun α n make blobOf note e herror => ?_, fun r blob f hcommit => ?_⟩
  · rcases generate_error herror with hs | hs
    · rw [hs]
      exact ⟨rfl, .inl rfl, fun _ => rfl⟩
    · rw [hs]
      refine ⟨rfl, .inr rfl, fun hcalls => ?_⟩
      rw [(hstacked hcalls).untouched]
  · have hr := commit_eq_failure hcommit
    exact ⟨by rw [CodeCache.after, hcommit], hr, _, if_pos (by simpa using hr)⟩

/-- Two regions are pending, and the code for a third cannot be installed. -/
theorem a_refused_generation_leaves_nothing :
    let s := { smallCache.afterAll (threeGenerations.take 2) with installer := .unavailable "not mapped" }
    let g := s.generate 64 (fun base => .ok (zeros base 8)) id fun _ => []
    create 0x1000 256 (some smallCache.installer) = .ok smallCache ∧ s.pending.length = 2 ∧ (∃ e, g.result = .error e) ∧
      (∀ p ∈ threeGenerations.take 2, p.2.Rounds) ∧ g.cache = s := by
  intro s g
  have hnew : create 0x1000 256 (some smallCache.installer) = .ok smallCache := rfl
  have hrounds : ∀ p ∈ threeGenerations.take 2, p.2.Rounds := by simp [threeGenerations, CacheCall.Rounds]
  obtain ⟨e, he⟩ : ∃ e, g.result = .error e := by
    cases hresult : g.result with
    | error e => exact ⟨e, rfl⟩
    | ok a =>
      exact absurd ((congrArg Except.isOk hresult).symm.trans (by decide +kernel : g.result.isOk = false))
        (show ¬ true = false by decide)
  exact ⟨hnew, by decide +kernel, ⟨e, he⟩, hrounds,
    ((failed_generations_leave_nothing hnew (threeGenerations.take 2)
    (.unavailable "not mapped")).1 _ _ _ _ _ _ he).2.2 hrounds⟩

/-- Two requests of almost 2^63 bytes, which get regions of negative size. The first starts where
the next region is going to start. -/
def wrappedRequests : List (Installer × CacheCall) :=
  [(smallCache.installer, .reserve 0x7fffffffffffffff), (smallCache.installer, .reserve 0x7fffffffffffffff)]

theorem a_wrapped_region_is_lost :
    let s := smallCache.afterAll wrappedRequests
    let g := s.generate 64 (fun _ => .error (.failure (.refused "no code"))) id fun _ => []
    create 0x1000 256 (some smallCache.installer) = .ok smallCache ∧ (∃ e, g.result = .error e) ∧
      s.stats = ⟨256, 0, 0, 2, 0⟩ ∧ g.cache.stats = ⟨256, 0, 0, 1, 0⟩ :=
  ⟨rfl, ⟨_, rfl⟩, by decide +kernel, by decide +kernel⟩

end CodeCache

end RiscvJit

import RiscvJit.Proofs.Cache.Abandoned
import RiscvJit.Proofs.Cache.Lookup
import RiscvJit.Proofs.Cache.Stubs

/-
  RiscvJit.Proofs.Cache.StubKeys — a stub is generated once for its key.

  A `Shelf` is a table of stubs with the cache they are generated into. Requests for stubs come in
  any order, each with a size and a generator of its own, and between them others use the cache;
  every call finds the installer in some state, so that a generation can fail at each of its steps:
  there is no room, the generator fails or panics, the code does not fit, or it cannot be installed.

  One request hands out the stub that is kept (`Shelf.after_kept`), or it is one generation
  (`Shelf.after_generation`), which reserves a region, runs the generator at its base and commits the
  code there, or leaves nothing behind (`Shelf.generates`). So a key is kept from its first success on (`Shelf.lookup_run`),
  and `stubs_are_generated_once` follows for all calls there can be.
-/

namespace RiscvJit

namespace CodeCache

/-- A generation that succeeds brings its code into the cache. -/
theorem generate_installs {α : Type} {c : CodeCache} {size : Int64} {make : UInt64 → Except Stop α}
    {blobOf : α → CodeBlob} {note : α → List LogEntry} {a : α} (h : (c.generate size make blobOf note).result = .ok a) :
    (c.generate size make blobOf note).cache.installed.Perm (listing (blobOf a) :: c.installed) := by
  unfold generate at h ⊢
  cases hreserve : c.reserve size with
  | error s =>
    rw [hreserve] at h
    cases s <;> cases h
  | ok p =>
    obtain ⟨r, c'⟩ := p
    obtain ⟨-, -, -, hc'⟩ := reserve_eq_ok hreserve
    rw [hreserve] at h
    dsimp only at h ⊢
    cases hmake : make r.base with
    | error e =>
      rw [hmake] at h
      exact absurd h (giveUp_ne_ok _ _ _ _ _)
    | ok b =>
      rw [hmake] at h
      dsimp only at h ⊢
      cases hcommit : c'.commit r (blobOf b) with
      | error e =>
        rw [hcommit] at h
        exact absurd h (giveUp_ne_ok _ _ _ _ _)
      | ok q =>
        rw [hcommit] at h
        cases h
        obtain ⟨-, -, installer, -, hq⟩ := commit_eq_ok (show _ = Except.ok (q.1, q.2) from hcommit)
        dsimp only
        rw [hq, hc']
        exact insertInstalled_perm _ _

theorem installed_after (c : CodeCache) (call : CacheCall) : c.installed ⊆ (c.after call).installed := by
  cases call with
  | reserve n => exact (reserve_keeps_code c n).2 ▸ List.Subset.refl _
  | release r => exact (release_keeps_code c r).2 ▸ List.Subset.refl _
  | commit r blob =>
    rw [after]
    cases hres : c.commit r blob with
    | error e => exact List.Subset.refl _
    | ok p =>
      obtain ⟨-, -, installer, -, hp⟩ := commit_eq_ok (show _ = Except.ok (p.1, p.2) from hres)
      dsimp only
      rw [hp]
      exact fun j hj => (insertInstalled_perm _ _).mem_iff.mpr (List.mem_cons_of_mem _ hj)

end CodeCache

/-! ## A shelf of stubs -/

/-- Stubs by key, and the cache they are generated into. -/
structure Shelf (α : Type) where
  stubs : StubTable α := []
  cache : CodeCache

/-- What can be asked of a shelf, and what others do to its cache in between. -/
inductive ShelfCall (α : Type) where
  | getOrCreate (key : String) (size : Int64) (make : UInt64 → Except Stop α) (note : α → List LogEntry)
  | get (key : String)
  | other (call : CacheCall)

/-- The call is a request for the key. -/
def ShelfCall.asks {α : Type} (key : String) : ShelfCall α → Bool
  | .getOrCreate k _ _ _ => k == key
  | .get _ => false
  | .other _ => false

namespace Shelf

variable {α : Type} (blobOf : α → CodeBlob)

/-- The stub that a call is answered with, if any, or why there is none. -/
def answer (s : Shelf α) : ShelfCall α → Except Stop (Option α)
  | .getOrCreate key size make note => (s.stubs.getOrCreate s.cache key size make blobOf note).1.result.map some
  | .get key => .ok (s.stubs.lookup key)
  | .other _ => .ok none

/-- The shelf after a call, whatever its answer. -/
def after (s : Shelf α) : ShelfCall α → Shelf α
  | .getOrCreate key size make note =>
    let r := s.stubs.getOrCreate s.cache key size make blobOf note
    ⟨r.2, r.1.cache⟩
  | .get _ => s
  | .other call => { s with cache := s.cache.after call }

/-- The shelf when the installer is in some state. -/
def finding (s : Shelf α) (i : Installer) : Shelf α := { s with cache := { s.cache with installer := i } }

/-- The shelf after calls that each find the installer in some state. -/
def run (s : Shelf α) (calls : List (Installer × ShelfCall α)) : Shelf α :=
  calls.foldl (fun s p => (s.finding p.1).after blobOf p.2) s

/-- The calls with their answers. -/
def answers (s : Shelf α) : List (Installer × ShelfCall α) → List (ShelfCall α × Except Stop (Option α))
  | [] => []
  | (i, call) :: calls => (call, (s.finding i).answer blobOf call) :: ((s.finding i).after blobOf call).answers calls

/-- A request for the key was answered with a stub. -/
def Answered (s : Shelf α) (calls : List (Installer × ShelfCall α)) (key : String) (a : α) : Prop :=
  ∃ size make note, (ShelfCall.getOrCreate key size make note, .ok (some a)) ∈ s.answers blobOf calls

/-- How many of the requests for a key brought code into the cache. -/
def commits (key : String) (s : Shelf α) : List (Installer × ShelfCall α) → Nat
  | [] => 0
  | (i, call) :: calls =>
    let s' := (s.finding i).after blobOf call
    (if call.asks key ∧ s'.cache.installed.length ≠ s.cache.installed.length then 1 else 0) + s'.commits key calls

/-- One generation, from its answer and the shelf that it leaves: a region is reserved, the generator
is run at its base, and its code is committed there and kept under the key. At the first step that fails
the request is answered with the reason, and a region that was reserved is given back. -/
inductive Generates (s : Shelf α) (key : String) (size : Int64) (make : UInt64 → Except Stop α) :
    Except Stop (Option α) → Shelf α → Prop
  | full {e : Stop} : s.cache.reserve size = .error e → Generates s key size make (.error e) s
  | failed {r : Region} {c c' : CodeCache} {e : Stop} : s.cache.reserve size = .ok (r, c) → make r.base = .error e →
      c.release r = .ok c' → Generates s key size make (.error e) ⟨s.stubs, c'⟩
  | refused {r : Region} {c c' : CodeCache} {a : α} {e : Stop} : s.cache.reserve size = .ok (r, c) → make r.base = .ok a →
      c.commit r (blobOf a) = .error e → c.release r = .ok c' → Generates s key size make (.error e) ⟨s.stubs, c'⟩
  | kept {r : Region} {c c' : CodeCache} {a : α} {i : Installed} : s.cache.reserve size = .ok (r, c) →
    make r.base = .ok a →
      c.commit r (blobOf a) = .ok (i, c') → Generates s key size make (.ok (some a)) ⟨(key, a) :: s.stubs, c'⟩

/-- No key is twice on the shelf, and the code of every stub is installed. -/
structure Tidy (s : Shelf α) : Prop where
  keys : (s.stubs.map Prod.fst).Nodup
  installed : ∀ p ∈ s.stubs, CodeCache.listing (blobOf p.2) ∈ s.cache.installed

/-! ## One call -/

section
variable {blobOf} {s : Shelf α} {key k : String} {size : Int64} {make : UInt64 → Except Stop α} {note : α → List LogEntry}
  {a : α} {i : Installer} {call : ShelfCall α} {calls : List (Installer × ShelfCall α)}

/-- A stub that is kept is handed out; its generator does not matter, and nothing happens. -/
theorem after_kept (h : s.stubs.lookup key = some a) :
    s.answer blobOf (.getOrCreate key size make note) = .ok (some a) ∧
      s.after blobOf (.getOrCreate key size make note) = s := by
  simp [answer, after, StubTable.getOrCreate, h, Except.map]

/-- A stub that is not kept is generated; it is kept if there is one. -/
theorem after_generation (blobOf : α → CodeBlob) (size : Int64) (make : UInt64 → Except Stop α) (note : α → List LogEntry)
    (h : s.stubs.lookup key = none) :
    let g := s.cache.generate size make blobOf note
    s.answer blobOf (.getOrCreate key size make note) = g.result.map some ∧
      s.after blobOf (.getOrCreate key size make note) = ⟨match g.result with
        | .ok a => (key, a) :: s.stubs
        | .error _ => s.stubs, g.cache⟩ := by
  intro g
  simp only [answer, after, StubTable.getOrCreate, h, g]
  cases hresult : (s.cache.generate size make blobOf note).result <;> simp [hresult]

theorem generates (blobOf : α → CodeBlob) (size : Int64) (make : UInt64 → Except Stop α) (note : α → List LogEntry)
    (h : s.stubs.lookup key = none) :
    s.Generates blobOf key size make (s.answer blobOf (.getOrCreate key size make note))
      (s.after blobOf (.getOrCreate key size make note)) := by
  obtain ⟨hr, hs⟩ := after_generation blobOf size make note h
  rw [hr, hs]
  unfold CodeCache.generate CodeCache.giveUp
  cases hreserve : s.cache.reserve size with
  | error e => cases e <;> exact .full hreserve
  | ok p =>
    obtain ⟨r, c⟩ := p
    obtain ⟨-, -, hr, hc⟩ := CodeCache.reserve_eq_ok hreserve
    have hpending : c.pending.contains r = true := by simp [hc, hr]
    -- the region is still pending, so it can be given back
    have hback : c.release r = .ok ({ c with pending := c.withoutPending r.base }.giveBack r) := if_pos hpending
    dsimp only
    cases hmake : make r.base with
    | error e =>
      simp only [hback]
      exact .failed hreserve hmake hback
    | ok a =>
      dsimp only
      cases hcommit : c.commit r (blobOf a) with
      | error e =>
        simp only [hback]
        exact .refused hreserve hmake hcommit hback
      | ok q => exact .kept hreserve hmake hcommit

/-- What a request does, by whether the stub is kept and whether generating succeeds. -/
theorem after_getOrCreate (blobOf : α → CodeBlob) (s : Shelf α) (key : String) (size : Int64)
    (make : UInt64 → Except Stop α) (note : α → List LogEntry) :
    let s' := s.after blobOf (.getOrCreate key size make note)
    let r := s.answer blobOf (.getOrCreate key size make note)
    (∃ a, s.stubs.lookup key = some a ∧ r = .ok (some a) ∧ s' = s) ∨
      (∃ a, s.stubs.lookup key = none ∧ r = .ok (some a) ∧ s'.stubs = (key, a) :: s.stubs ∧
        s'.cache.installed.Perm (CodeCache.listing (blobOf a) :: s.cache.installed)) ∨
      ∃ e, s.stubs.lookup key = none ∧ r = .error e ∧ s'.stubs = s.stubs ∧ s'.cache.installed = s.cache.installed := by
  intro s' r
  cases hkept : s.stubs.lookup key with
  | some a => exact .inl ⟨a, rfl, after_kept hkept⟩
  | none =>
    obtain ⟨hr, hs'⟩ := after_generation blobOf size make note hkept
    cases hresult : (s.cache.generate size make blobOf note).result with
    | ok a =>
      rw [hresult] at hr hs'
      change s' = _ at hs'
      rw [hs']
      exact .inr (.inl ⟨a, rfl, hr, rfl, CodeCache.generate_installs hresult⟩)
    | error e =>
      rw [hresult] at hr hs'
      change s' = _ at hs'
      rw [hs']
      refine .inr (.inr ⟨e, rfl, hr, rfl, ?_⟩)
      rcases CodeCache.generate_error hresult with h | h <;> rw [h]

theorem lookup_of_mem {l : List (String × α)} (h : (l.map Prod.fst).Nodup) (hmem : (key, a) ∈ l) :
    l.lookup key = some a := by
  induction l with
  | nil => cases hmem
  | cons p l ih =>
    obtain ⟨hp, hl⟩ := List.nodup_cons.mp h
    rcases List.mem_cons.mp hmem with rfl | hmem
    · simp
    · have hne : key ≠ p.1 := fun e => hp (e ▸ List.mem_map_of_mem (f := Prod.fst) hmem)
      rw [List.lookup_cons, beq_false_of_ne hne]
      exact ih hl hmem

theorem lookup_eq_none {l : List (String × α)} (h : l.lookup key = none) : key ∉ l.map Prod.fst := by
  intro hmem
  obtain ⟨p, hp, rfl⟩ := List.mem_map.mp hmem
  exact absurd (List.lookup_eq_none_iff.mp h p hp) (by simp)

/-- What is kept stays, and what is new is kept under the key that was asked for. -/
theorem lookup_after (blobOf : α → CodeBlob) (s : Shelf α) (call : ShelfCall α) (key : String) :
    ((s.after blobOf call).stubs.lookup key = s.stubs.lookup key) ∨
      ∃ size make note a, call = .getOrCreate key size make note ∧ s.stubs.lookup key = none ∧
        s.answer blobOf call = .ok (some a) ∧ (s.after blobOf call).stubs.lookup key = some a := by
  cases call with
  | get => exact .inl rfl
  | other => exact .inl rfl
  | getOrCreate k size make note =>
    rcases after_getOrCreate blobOf s k size make note with
      ⟨a, -, -, hs⟩ | ⟨a, hnone, hr, hs, -⟩ | ⟨e, -, -, hs, -⟩
    · exact .inl (by rw [hs])
    · by_cases hkey : key = k
      · subst hkey
        exact .inr ⟨size, make, note, a, rfl, hnone, hr, by rw [hs]; simp⟩
      · exact .inl (by rw [hs, List.lookup_cons, beq_false_of_ne hkey])
    · exact .inl (by rw [hs])

theorem Tidy.finding (h : Tidy blobOf s) (i : Installer) : Tidy blobOf (s.finding i) := ⟨h.keys, h.installed⟩

theorem Tidy.after (h : Tidy blobOf s) (call : ShelfCall α) : Tidy blobOf (s.after blobOf call) := by
  cases call with
  | get => exact h
  | other call => exact ⟨h.keys, fun p hp => CodeCache.installed_after _ _ (h.installed p hp)⟩
  | getOrCreate key size make note =>
    rcases after_getOrCreate blobOf s key size make note with
      ⟨a, -, -, hs⟩ | ⟨a, hnone, -, hs, hperm⟩ | ⟨e, -, -, hs, hsame⟩
    · rwa [hs]
    · refine ⟨?_, fun p hp => hperm.mem_iff.mpr ?_⟩
      · rw [hs, List.map_cons, List.nodup_cons]
        exact ⟨lookup_eq_none hnone, h.keys⟩
      · rw [hs] at hp
        rcases List.mem_cons.mp hp with rfl | hp
        · exact List.mem_cons_self
        · exact List.mem_cons_of_mem _ (h.installed p hp)
    · exact ⟨hs ▸ h.keys, fun p hp => hsame ▸ h.installed p (hs ▸ hp)⟩

/-! ## Any calls -/

theorem Tidy.run (h : Tidy blobOf s) (calls : List (Installer × ShelfCall α)) : Tidy blobOf (s.run blobOf calls) := by
  induction calls generalizing s with
  | nil => exact h
  | cons p calls ih => exact ih ((h.finding p.1).after p.2)

theorem lookup_run (h : s.stubs.lookup key = some a) (calls : List (Installer × ShelfCall α)) :
    (s.run blobOf calls).stubs.lookup key = some a := by
  induction calls generalizing s with
  | nil => exact h
  | cons p calls ih =>
    refine ih ?_
    rcases lookup_after blobOf (s.finding p.1) p.2 key with hsame | ⟨_, _, _, _, -, hnone, -⟩
    · exact hsame.trans h
    · cases hnone.symm.trans h

theorem answered_cons : s.Answered blobOf ((i, call) :: calls) key a ↔
    (∃ size make note, call = .getOrCreate key size make note ∧ (s.finding i).answer blobOf call = .ok (some a)) ∨
      ((s.finding i).after blobOf call).Answered blobOf calls key a := by
  simp only [Answered, answers, List.mem_cons, Prod.mk.injEq]
  constructor
  · rintro ⟨size, make, note, ⟨rfl, hr⟩ | hmem⟩
    · exact .inl ⟨size, make, note, rfl, hr.symm⟩
    · exact .inr ⟨size, make, note, hmem⟩
  · rintro (⟨size, make, note, rfl, hr⟩ | ⟨size, make, note, hmem⟩)
    · exact ⟨size, make, note, .inl ⟨rfl, hr.symm⟩⟩
    · exact ⟨size, make, note, .inr hmem⟩

/-- A key is kept in the end if it was before, or if a request for it succeeded, with that stub. -/
theorem lookup_run_iff (s : Shelf α) (calls : List (Installer × ShelfCall α)) (key : String) (a : α) :
    (s.run blobOf calls).stubs.lookup key = some a ↔ s.stubs.lookup key = some a ∨ s.Answered blobOf calls key a := by
  induction calls generalizing s with
  | nil => exact ⟨.inl, fun h => h.elim id fun ⟨_, _, _, hmem⟩ => by cases hmem⟩
  | cons p calls ih =>
    obtain ⟨i, call⟩ := p
    show (((s.finding i).after blobOf call).run blobOf calls).stubs.lookup key = some a ↔ _
    rw [ih, answered_cons, ← or_assoc]
    refine or_congr_left ?_
    rcases lookup_after blobOf (s.finding i) call key with hsame | ⟨size, make, note, b, rfl, hnone, hr, hkept⟩
    · rw [hsame]
      refine ⟨.inl, fun h => h.elim id ?_⟩
      rintro ⟨size, make, note, rfl, hr⟩
      -- what is handed out without a change was kept
      cases hbefore : (s.finding i).stubs.lookup key with
      | some b => exact (after_kept hbefore).1.symm.trans hr |> Except.ok.inj |> congrArg id
      | none =>
        rcases after_getOrCreate blobOf (s.finding i) key size make note with
          ⟨b, h, -⟩ | ⟨b, -, -, hs, -⟩ | ⟨e, -, he, -⟩
        · cases hbefore.symm.trans h
        · rw [hs, hbefore, List.lookup_cons, beq_self_eq_true] at hsame
          cases hsame
        · cases he.symm.trans hr
    · rw [hkept]
      refine ⟨fun h => .inr ⟨size, make, note, rfl, h ▸ hr⟩, fun h => h.elim (fun h => ?_) ?_⟩
      · cases hnone.symm.trans h
      · rintro ⟨_, _, _, -, hr'⟩
        exact (Except.ok.inj (hr.symm.trans hr'))

/-- A key that is kept is committed once, or was there before. -/
theorem commits_add (blobOf : α → CodeBlob) (s : Shelf α) (calls : List (Installer × ShelfCall α)) (key : String) :
    s.commits blobOf key calls + (s.stubs.lookup key).toList.length =
      ((s.run blobOf calls).stubs.lookup key).toList.length := by
  induction calls generalizing s with
  | nil => exact Nat.zero_add _
  | cons p calls ih =>
    obtain ⟨i, call⟩ := p
    show _ = ((((s.finding i).after blobOf call).run blobOf calls).stubs.lookup key).toList.length
    rw [← ih, commits, Nat.add_comm _ (commits ..), Nat.add_assoc]
    refine congrArg _ ?_
    cases call with
    | get k => exact Nat.zero_add _
    | other call => exact Nat.zero_add _
    | getOrCreate k size make note =>
      rcases after_getOrCreate blobOf (s.finding i) k size make note with
        ⟨a, -, -, hs⟩ | ⟨a, hnone, -, hs, hperm⟩ | ⟨e, -, -, hs, hsame⟩
      · rw [hs, if_neg (fun h => h.2 rfl)]
        exact Nat.zero_add _
      · have hgrown : ((s.finding i).after blobOf (.getOrCreate k size make note)).cache.installed.length =
            s.cache.installed.length + 1 := hperm.length_eq
        have hnone : s.stubs.lookup k = none := hnone
        rw [hs, hgrown, List.lookup_cons]
        by_cases hkey : key = k
        · subst hkey
          rw [if_pos ⟨beq_self_eq_true key, Nat.succ_ne_self _⟩, hnone, beq_self_eq_true]
          rfl
        · rw [if_neg (fun h => hkey (beq_iff_eq.mp h.1).symm), beq_false_of_ne hkey]
          exact Nat.zero_add _
      · rw [hs, hsame, if_neg (fun h => h.2 rfl)]
        exact Nat.zero_add _

end

/-- Whatever is asked for in whatever order, and wherever generations fail: code is committed at most
once for a key. From its first success on a key is answered with the same stub, and nothing is
generated. As long as all requests for it failed, the next one runs its generator. There are as many
stubs as keys that succeeded, and the code of each is installed at its address. -/
theorem stubs_are_generated_once (c : CodeCache) (calls : List (Installer × ShelfCall α)) :
    let s := (Shelf.mk [] c).run blobOf calls
    (∀ key, (Shelf.mk [] c).commits blobOf key calls ≤ 1) ∧
      (∀ key a, (Shelf.mk [] c).Answered blobOf calls key a → ∀ (more : List (Installer × ShelfCall α)) (i : Installer),
        let s' := (s.run blobOf more).finding i
        s'.answer blobOf (.get key) = .ok (some a) ∧ ∀ size make note,
          s'.answer blobOf (.getOrCreate key size make note) = .ok (some a) ∧
            s'.after blobOf (.getOrCreate key size make note) = s') ∧
      (∀ key, (∀ a, ¬ (Shelf.mk [] c).Answered blobOf calls key a) → ∀ i : Installer,
        let s' := s.finding i
        s'.answer blobOf (.get key) = .ok none ∧ ∀ size make note,
          s'.Generates blobOf key size make (s'.answer blobOf (.getOrCreate key size make note))
            (s'.after blobOf (.getOrCreate key size make note))) ∧
      (∀ keys : List String, keys.Nodup → (∀ key, key ∈ keys ↔ ∃ a, (Shelf.mk [] c).Answered blobOf calls key a) →
        s.stubs.length = keys.length) ∧
      ∀ p ∈ s.stubs, CodeCache.listing (blobOf p.2) ∈ s.cache.installed := by
  intro s
  have htidy : Tidy blobOf s := Tidy.run (s := ⟨[], c⟩) ⟨List.nodup_nil, by simp⟩ calls
  have hkept (key : String) (a : α) : s.stubs.lookup key = some a ↔ (Shelf.mk [] c).Answered blobOf calls key a :=
    (lookup_run_iff _ calls key a).trans (or_iff_right nofun)
  refine ⟨fun key => ?_, fun key a h more i => ?_, fun key h i => ?_, fun keys hkeys hall => ?_, htidy.installed⟩
  · have hcommits : _ = (s.stubs.lookup key).toList.length := commits_add blobOf (Shelf.mk [] c) calls key
    have := Option.length_toList_le (o := s.stubs.lookup key)
    omega
  · have hstays : ((s.run blobOf more).finding i).stubs.lookup key = some a := lookup_run ((hkept key a).mpr h) more
    exact ⟨congrArg Except.ok hstays, fun size make note => after_kept hstays⟩
  · have hnone : (s.finding i).stubs.lookup key = none := Option.eq_none_iff_forall_ne_some.mpr fun a ha =>
      h a ((hkept key a).mp ha)
    exact ⟨congrArg Except.ok hnone, fun size make note => generates blobOf size make note hnone⟩
  · have hmem (key : String) : key ∈ s.stubs.map Prod.fst ↔ key ∈ keys := by
      rw [hall]
      constructor
      · intro h
        obtain ⟨p, hp, rfl⟩ := List.mem_map.mp h
        exact ⟨p.2, (hkept _ _).mp (lookup_of_mem htidy.keys hp)⟩
      · rintro ⟨a, h⟩
        obtain ⟨before, rest, hs, -⟩ := List.lookup_eq_some_iff.mp ((hkept key a).mpr h)
        rw [hs]
        simp
    rw [← List.length_map Prod.fst]
    exact ((List.perm_ext_iff_of_nodup htidy.keys hkeys).mpr hmem).length_eq

/-- A request for one stub, which takes some bytes this time. -/
def request (n : Nat) : Installer × ShelfCall CodeBlob :=
  (CodeCache.smallCache.installer, .getOrCreate "a" 64 (fun base => .ok (CodeCache.zeros base n)) fun _ => [])

/-- A stub that is too large at first: the second generation is kept, whatever is asked for after it. -/
theorem the_second_stub_is_kept :
    let s := Shelf.mk [] CodeCache.smallCache
    let calls := [request 100, request 50]
    s.commits id "a" calls ≤ 1 ∧ ∃ a, a.size = 50 ∧ s.Answered id calls "a" a ∧
      ∀ i size make note, (((s.run id calls).run id [request 20]).finding i).answer id (.getOrCreate "a" size make note) =
        .ok (some a) := by
  intro s calls
  obtain ⟨honce, hkept, -⟩ := stubs_are_generated_once id CodeCache.smallCache calls
  have hsecond : ((((s.finding (request 100).1).after id (request 100).2).finding (request 50).1).answer id
      (request 50).2).toOption.any (·.any (·.size == 50)) = true := by decide +kernel
  obtain ⟨o, ho, hsize⟩ := any_toOption hsecond
  obtain ⟨a, rfl, hsize⟩ := (Option.any_eq_true _ _).mp hsize
  have hanswered : s.Answered id calls "a" a := answered_cons.mpr (.inr (answered_cons.mpr (.inl ⟨64, _, _, rfl, ho⟩)))
  exact ⟨honce "a", a, beq_iff_eq.mp hsize, hanswered,
    fun i size make note => ((hkept "a" a hanswered [request 20] i).2 size make note).1⟩

end Shelf

end RiscvJit

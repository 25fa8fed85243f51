import Mathlib.Data.List.Nodup
import RiscvJit.Proofs.Cache.StubKeys
import RiscvJit.Proofs.Lower.Sites
import RiscvJit.Proofs.Stub.DeoptBlob
import RiscvJit.Proofs.Stub.Interrupts
import RiscvJit.Proofs.Stub.SubtypeScan

/-
  RiscvJit.Proofs.Cache.SharedBlobs — the runtime blobs are published together.

  A call for all runtime blobs is one request after the other for a blob under its name, and what is
  generated stays on the shelf even when a later blob fails (`Stubs.shelf_sharedAll`). The target is
  written once, after the last of them, so a call that fails at any of its steps leaves the runtime
  entries as they were (`Stubs.generateShared_error`), and one that ends points three of them at the
  blobs on the shelf (`Stubs.generateShared_ok`).

  The calls of any run are flattened into requests of one shelf (`Stubs.shelf_runShared`), so what
  holds of shelves holds of them: no blob is committed twice, and each is what its generator made of
  the target before some call of the run. Since no blob is empty, an address it starts at is looked up
  to it, unless it ends with the last address of all (`CodeCache.found_at_start`). None is empty because
  work whose first step writes goes on to write (`Asm.writes_on`), and all are far shorter than the range
  of lengths, since a buffer does not hold more (`Finished.size`).
-/

namespace RiscvJit

/-! ## How large the blobs are -/

section
variable {base : UInt64} {blob : CodeBlob} {first last : Assembler} {t : Target} {items : List Item}

/-- Finished code is as long as what was written, and no buffer is large. -/
theorem Finished.size (h : Finished base blob first last) (htrace : Trace t items first last) :
    blob.size = last.buf.offset ∧ blob.size < 2 ^ 62 := by
  have hlength : blob.size = last.buf.offset := by
    rw [CodeBlob.size, h.code, Array.length_toList]
    rfl
  have hholds := htrace.holds h.fresh h.working
  have := hholds.offset
  have := hholds.room
  have := hholds.spells.limit
  exact ⟨hlength, by omega⟩

theorem Finished.offset_first (h : Finished base blob first last) : first.buf.offset = 0 := h.fresh.offset

end

namespace Asm

variable {α β : Type} {x : Asm α} {f : α → Asm β} {t : Target} {a a' : Assembler} {r : β}

instance writes_addi (rd rs : Reg) (imm : Int64) : Writes (addi rd rs imm) := Writes.second fun _ => writes_emit ..

instance writes_enter : Writes enter := Writes.first (writes_addi ..)

/-- Work after other work starts further on. -/
theorem goes_past [hx : Traced x] (ha : a.Behind) (h : (x >>= f) t a = .ok (r, a')) :
    ∃ s b, b.Behind ∧ a.buf.offset ≤ b.buf.offset ∧ f s t b = .ok (r, a') := by
  obtain ⟨s, b, hs, hr⟩ := bind_eq_ok.mp h
  obtain ⟨items, htrace, -⟩ := hx.trace _ _ _ _ ha hs
  exact ⟨s, b, htrace.behind ha, htrace.steady.offset, hr⟩

/-- Work whose first step writes has written in the end. -/
theorem writes_on [hx : Traced x] [hf : ∀ s, Traced (f s)] (hwrites : Writes x) (ha : a.Behind)
    (h : (x >>= f) t a = .ok (r, a')) (hw : a'.buf.failed = false) : a.buf.offset < a'.buf.offset := by
  obtain ⟨s, b, hs, hr⟩ := bind_eq_ok.mp h
  obtain ⟨items, htrace, -⟩ := hx.trace _ _ _ _ ha hs
  obtain ⟨rest, hrest, -⟩ := (hf s).trace _ _ _ _ (htrace.behind ha) hr
  exact Nat.lt_of_lt_of_le (hwrites.word hs (hrest.working hw)) hrest.steady.offset

end Asm

namespace Stub

open Asm

/-- Code that is not empty and short. -/
def Sized (blob : CodeBlob) : Prop := 0 < blob.size ∧ blob.size < 2 ^ 62

section
variable {t : Target} {base : UInt64} {blob : CodeBlob} {a a' : Assembler}

theorem sized_of_generate {name : String} {capacity frameSize : Int64} {x : Asm Unit} [hx : Traced x]
    (h : (Asm.generate t name base capacity frameSize x).map (·.1) = .ok blob)
    (hwrites : ∀ a a', a.Behind → x t a = .ok ((), a') → a'.buf.failed = false → a.buf.offset < a'.buf.offset) :
    Sized blob := by
  obtain ⟨⟨blob', _⟩, hgenerate, rfl⟩ := except_map_ok h
  obtain ⟨first, last, hdone, hbody⟩ := finished_generate hgenerate
  obtain ⟨items, htrace, -⟩ := hx.trace _ _ _ _ hdone.behind hbody
  obtain ⟨hsize, hsmall⟩ := hdone.size htrace
  have := hwrites _ _ hdone.behind hbody hdone.working
  exact ⟨by show 0 < blob'.size; omega, hsmall⟩

instance traced_subtypeScanBody : Traced subtypeScanBody := by
  unfold subtypeScanBody
  dsimp only
  iterate 24 refine @traced_bind _ _ _ _ inferInstance fun _ => ?_
  infer_instance

theorem sized_subtypeScan (h : subtypeScan t base = .ok blob) : Sized blob := by
  refine sized_of_generate h fun a a' ha h hw => ?_
  unfold subtypeScanBody at h
  obtain ⟨_, a1, ha1, hle1, h⟩ := goes_past ha h
  obtain ⟨_, a2, ha2, hle2, h⟩ := goes_past ha1 h
  obtain ⟨_, a3, ha3, hle3, h⟩ := goes_past ha2 h
  obtain ⟨_, a4, ha4, hle4, h⟩ := goes_past ha3 h
  have := @writes_on _ _ _ _ _ _ _ _ _ (fun _ => by
    iterate 20 refine @traced_bind _ _ _ _ inferInstance fun _ => ?_
    infer_instance) (writes_addi ..) ha4 h hw
  omega

theorem saves_on {β : Type} {f : OopMap → Asm β} {r : β} [∀ m, Traced (f m)] (ha : a.Behind)
    (h : (saveLiveRegisters >>= f) t a = .ok (r, a')) (hw : a'.buf.failed = false) : a.buf.offset < a'.buf.offset := by
  rw [saveLiveRegisters, bind_assoc] at h
  exact writes_on writes_enter ha h hw

theorem sized_safepointHandler (h : safepointHandler t base = .ok blob) : Sized blob := by
  refine sized_of_generate h fun a a' ha h hw => ?_
  unfold safepointHandlerBody at h
  obtain ⟨_, a1, ha1, hle1, h⟩ := goes_past ha h
  obtain ⟨_, a2, ha2, hle2, h⟩ := goes_past ha1 h
  have := saves_on ha2 h hw
  omega

theorem sized_resolver {name : String} {e : RuntimeEntry} (h : resolver t name e base = .ok blob) : Sized blob := by
  refine sized_of_generate h fun a a' ha h hw => ?_
  unfold resolverBody at h
  exact saves_on ha h hw

/-- The code that replaces frames has several entries, so it is looked at from the first of them. -/
theorem sized_deopt (h : deopt t base = .ok blob) : Sized blob := by
  obtain ⟨⟨blob', _⟩, hgenerate, rfl⟩ := except_map_ok h
  obtain ⟨first, last, hdone, hbody⟩ := finished_generate hgenerate
  obtain ⟨cont, map, hwritten⟩ := written_deoptBody hdone.behind hbody
  obtain ⟨k, a, b, pre, post, hpre, hstop, hpost, -⟩ := hwritten.jumping EntryPoint.deopt (by decide)
  obtain ⟨items, htrace, -⟩ := (traced_bind (stop k) fun _ => j cont).trace _ _ _ _ (hpre.behind hdone.behind) hstop
  obtain ⟨hsize, hsmall⟩ := hdone.size ((hpre.append htrace).append hpost)
  rw [stop, bind_assoc] at hstop
  have := saves_on (hpre.behind hdone.behind) hstop (hpost.working hdone.working)
  have := hpost.steady.offset
  exact ⟨by show 0 < blob'.size; omega, hsmall⟩

/-- The first entry is the start of the code. -/
theorem deopt_starts_with_entry (h : deopt t base = .ok blob) : blob.entryAddress EntryPoint.deopt = .ok blob.base := by
  obtain ⟨⟨blob', _⟩, hgenerate, rfl⟩ := except_map_ok h
  obtain ⟨first, last, hdone, hbody⟩ := finished_generate hgenerate
  obtain ⟨cont, map, hwritten⟩ := written_deoptBody hdone.behind hbody
  have hentry : blob'.entryOffset EntryPoint.deopt = .ok (Int64.ofNat first.buf.offset) := hdone.entry hwritten.start
  rw [hdone.offset_first] at hentry
  rw [CodeBlob.entryAddress, hentry]
  exact congrArg Except.ok (UInt64.add_zero _)

end

end Stub

/-! ## Generating keeps a cache sound -/

namespace CodeCache

variable {α : Type} {c : CodeCache} {t : Int} {sunk : Bool} {size : Int64} {make : UInt64 → Except Stop α}
  {blobOf : α → CodeBlob} {note : α → List LogEntry} {blob : CodeBlob}

theorem Sound.giveUp {r : Region} {why : Stop} {log : List LogEntry} (h : Sound c t sunk) :
    ∃ t' sunk', Sound (c.giveUp (α := α) r why log).cache t' sunk' := by
  have hafter := h.after (show (CacheCall.release r).Possible from trivial)
  unfold CodeCache.giveUp
  rw [CodeCache.after] at hafter
  cases hres : c.release r with
  | error e => exact ⟨t, sunk, h⟩
  | ok c' =>
    rw [hres] at hafter
    exact hafter

/-- Generating is reserving, and then committing or giving back. -/
theorem Sound.generate (h : Sound c t sunk) (hshort : ∀ base a, make base = .ok a → (blobOf a).size < 2 ^ 63) :
    ∃ t' sunk', Sound (c.generate size make blobOf note).cache t' sunk' := by
  have hreserved := h.after (show (CacheCall.reserve size).Possible from trivial)
  unfold CodeCache.generate
  rw [CodeCache.after] at hreserved
  cases hres : c.reserve size with
  | error e => cases e <;> exact ⟨t, sunk, h⟩
  | ok p =>
    obtain ⟨r, c'⟩ := p
    rw [hres] at hreserved
    obtain ⟨t', sunk', h'⟩ := hreserved
    dsimp only
    cases hmake : make r.base with
    | error e => exact h'.giveUp
    | ok a =>
      have hcommitted := h'.after (show (CacheCall.commit r (blobOf a)).Possible from hshort _ _ hmake)
      dsimp only
      rw [CodeCache.after] at hcommitted
      cases hcommit : c'.commit r (blobOf a) with
      | error e => exact h'.giveUp
      | ok q =>
        rw [hcommit] at hcommitted
        exact hcommitted

/-- Where code that is not empty starts, it is found, unless it ends with the last address. -/
theorem found_at_start (h : Sound c t sunk) (hb : listing blob ∈ c.installed) (hsize : Stub.Sized blob) :
    c.lookup? blob.base = some (listing blob) ↔ blob.base.toNat + blob.size < 2 ^ 64 := by
  obtain ⟨hpos, hsmall⟩ := hsize
  have hused : (listing blob).used.toInt = blob.size := Int64.toInt_ofNat_of_lt (by omega)
  have hend : blob.base.toNat + blob.size ≤ 2 ^ 64 := by
    have hle := (h.listed.installed _ hb).2
    have hregion : (listing blob).region ∈ c.regions := List.mem_append_right _ (List.mem_map_of_mem hb)
    have hlast : (listing blob).region.Holds (blob.base.toNat + blob.size - 1) := by
      refine ⟨?_, ?_⟩
      · show blob.base.toNat ≤ _
        omega
      · show ((blob.base.toNat + blob.size - 1 : Nat) : Int) < blob.base.toNat + _
        omega
    have := (h.packed.inside _ hregion _ hlast).2
    have := h.packed.fits
    have := h.packed.le
    omega
  rw [lookup?_eq_some h.listed, contains_listing hend (by omega)]
  refine ⟨fun hfound => hfound.1.2, fun hlt => ⟨⟨⟨Nat.le_refl _, by omega⟩, hlt⟩, ?_⟩⟩
  obtain ⟨l1, l2, hl⟩ := List.append_of_mem hb
  refine ⟨l1, l2, hl, UInt64.le_refl _, fun k hk => ?_⟩
  have hordered := h.listed.ordered
  rw [hl] at hordered
  rcases (List.pairwise_cons.mp (List.pairwise_append.mp hordered).2.1).1 _ hk with hlt | ⟨-, hzero⟩
  · exact hlt
  · have hzero : (listing blob).used = 0 := hzero
    rw [hzero, Int64.toInt_zero] at hused
    omega

end CodeCache

/-- What the call brings into the cache is shorter than the range of lengths. -/
def ShelfCall.Short {α : Type} (blobOf : α → CodeBlob) : ShelfCall α → Prop
  | .getOrCreate _ _ make _ => ∀ base a, make base = .ok a → (blobOf a).size < 2 ^ 63
  | .get _ => True
  | .other call => call.Possible

namespace Shelf

variable {α : Type} {blobOf : α → CodeBlob} {s : Shelf α} {call : ShelfCall α}

/-- The regions of the cache are in order. -/
def Ordered (s : Shelf α) : Prop := ∃ t sunk, CodeCache.Sound s.cache t sunk

theorem Ordered.finding (h : Ordered s) (i : Installer) : Ordered (s.finding i) := by
  obtain ⟨t, sunk, hs⟩ := h
  exact ⟨t, sunk, hs.packed.congr rfl rfl rfl, hs.listed.congr rfl rfl⟩

theorem Ordered.after (h : Ordered s) (hcall : call.Short blobOf) : Ordered (s.after blobOf call) := by
  obtain ⟨t, sunk, hs⟩ := h
  cases call with
  | get key => exact ⟨t, sunk, hs⟩
  | other call => exact hs.after hcall
  | getOrCreate key size make note =>
    cases hkept : s.stubs.lookup key with
    | some a =>
      rw [(after_kept hkept).2]
      exact ⟨t, sunk, hs⟩
    | none =>
      rw [(after_generation blobOf size make note hkept).2]
      exact hs.generate hcall

theorem Ordered.run {calls : List (Installer × ShelfCall α)} (hcalls : ∀ p ∈ calls, p.2.Short blobOf) (h : Ordered s) :
    Ordered (s.run blobOf calls) := by
  induction calls generalizing s with
  | nil => exact h
  | cons p calls ih =>
    exact ih (fun q hq => hcalls q (List.mem_cons_of_mem p hq)) ((h.finding p.1).after (hcalls p List.mem_cons_self))

/-- What is new on the shelf was made by the call. -/
theorem made_after {key : String} {a : α} (h : (s.after blobOf call).stubs.lookup key = some a) :
    s.stubs.lookup key = some a ∨
      ∃ size make note, call = .getOrCreate key size make note ∧ make (blobOf a).base = .ok a := by
  rcases lookup_after blobOf s call key with hsame | ⟨size, make, note, b, rfl, hnone, hr, hkept⟩
  · exact .inl (hsame ▸ h)
  · cases hkept.symm.trans h
    obtain ⟨hanswer, -⟩ := after_generation blobOf size make note hnone
    rw [hanswer] at hr
    obtain ⟨a', hresult, ha'⟩ := except_map_ok hr
    cases ha'
    exact .inr ⟨size, make, note, rfl, CodeCache.generate_eq_ok hresult⟩

theorem made_run {calls : List (Installer × ShelfCall α)} {key : String} {a : α}
    (h : (s.run blobOf calls).stubs.lookup key = some a) :
    s.stubs.lookup key = some a ∨
      ∃ p ∈ calls, ∃ size make note, p.2 = .getOrCreate key size make note ∧ make (blobOf a).base = .ok a := by
  induction calls generalizing s with
  | nil => exact .inl h
  | cons p calls ih =>
    rcases ih h with h | ⟨q, hq, hmade⟩
    · rcases made_after h with h | hmade
      · exact .inl h
      · exact .inr ⟨p, List.mem_cons_self, hmade⟩
    · exact .inr ⟨q, List.mem_cons_of_mem p hq, hmade⟩

theorem run_append (s : Shelf α) (calls more : List (Installer × ShelfCall α)) :
    s.run blobOf (calls ++ more) = (s.run blobOf calls).run blobOf more := List.foldl_append

end Shelf

/-! ## One call for the runtime blobs -/

namespace Stubs

/-- The runtime blobs that are kept, and the cache. -/
def shelf (s : Stubs) : Shelf CodeBlob := ⟨s.shared, s.cache⟩

/-- The stubs when the installer is in some state. -/
def finding (s : Stubs) (i : Installer) : Stubs := { s with cache := { s.cache with installer := i } }

/-- Asking for a runtime blob. -/
def asking (t : Target) (b : SharedBlob) : ShelfCall CodeBlob :=
  .getOrCreate b.name t.opts.stubBufferSize (b.make t) fun _ => []

/-- The requests for runtime blobs; after a panic there are no more. -/
def requests (s : Stubs) : List SharedBlob → List (Installer × ShelfCall CodeBlob)
  | [] => []
  | b :: rest =>
    (s.cache.installer, asking s.target b) :: match s.perform (sharedFor b) with
      | (.error (.fault _), _) => []
      | (_, s') => s'.requests rest

section
variable {α β : Type}

theorem perform_bind (s : Stubs) (x : Work α) (f : α → Work β) :
    s.perform (x >>= f) = match s.perform x with
      | (.ok a, s') => s'.perform (f a)
      | (.error e, s') => (.error e, s') := by
  show perform s (ExceptT.bind x f) = _
  unfold perform ExceptT.bind ExceptT.run ExceptT.mk ExceptT.bindCont
  rw [StateT.run_bind]
  generalize StateT.run x s = r
  rcases r with ⟨e | a, s'⟩ <;> rfl

theorem perform_tryCatch (s : Stubs) (x : Work α) (f : Stop → Work α) :
    s.perform (tryCatch x f) = match s.perform x with
      | (.ok a, s') => (.ok a, s')
      | (.error e, s') => s'.perform (f e) := by
  show perform s (ExceptT.tryCatch x f) = _
  unfold perform ExceptT.tryCatch ExceptT.run ExceptT.mk
  rw [StateT.run_bind]
  generalize StateT.run x s = r
  rcases r with ⟨e | a, s'⟩ <;> rfl

end

variable (s : Stubs)

theorem perform_sharedFor (b : SharedBlob) :
    s.perform (sharedFor b) =
      let r := s.shared.getOrCreate s.cache b.name s.target.opts.stubBufferSize (b.make s.target) id fun _ => []
      (r.1.result.mapError (generating b.name),
      { s with shared := r.2, cache := r.1.cache, log := s.log ++ r.1.log }) := by
  show (fun r : CodeCache.Generation CodeBlob × StubTable CodeBlob =>
    perform { s with shared := r.2 } (tryCatch (take r.1) fun e => throw (generating b.name e)))
      (s.shared.getOrCreate s.cache b.name s.target.opts.stubBufferSize (b.make s.target) id fun _ => []) = _
  obtain ⟨⟨result, cache, log⟩, shared⟩ :=
    s.shared.getOrCreate s.cache b.name s.target.opts.stubBufferSize (b.make s.target) id fun _ => []
  cases result <;> rfl

theorem perform_sharedAll_cons (b : SharedBlob) (rest : List SharedBlob) :
    s.perform (sharedAll (b :: rest)) = match s.perform (sharedFor b) with
      | (.error (.fault f), s1) => (.error (.fault f), s1)
      | (r, s1) => match s1.perform (sharedAll rest) with
        | (.error e, s2) => (.error e, s2)
        | (.ok more, s2) => (.ok (do return (b, ← r) :: (← more)), s2) := by
  rw [sharedAll, perform_bind, perform_tryCatch, ← bind_pure_comp, perform_bind]
  rcases s.perform (sharedFor b) with ⟨(f | f) | a, s1⟩
  · rfl
  · show s1.perform (sharedAll rest >>= _) = _
    rw [perform_bind]
    dsimp only
    rcases s1.perform (sharedAll rest) with ⟨e | more, s2⟩ <;> rfl
  · show s1.perform (sharedAll rest >>= _) = _
    rw [perform_bind]
    dsimp only
    rcases s1.perform (sharedAll rest) with ⟨e | more, s2⟩ <;> rfl

/-- The target is written at the end, if at all. -/
theorem perform_generateShared :
    s.perform generateShared = match s.perform (sharedAll sharedBlobs) with
      | (.ok (.ok blobs), s') => match blobs.foldlM (fun rt (b, blob) => linkShared b blob rt) s'.target.runtime with
        | .ok runtime => (.ok (), { s' with target := { s'.target with runtime } })
        | .error f => (.error (.fault f), s')
      | (.ok (.error e), s') => (.error e, s')
      | (.error e, s') => (.error e, s') := by
  rw [generateShared, perform_bind]
  rcases s.perform (sharedAll sharedBlobs) with ⟨e | e | blobs, s'⟩
  · rfl
  · rfl
  · show s'.perform (answer (Stop.ofFault (blobs.foldlM (fun rt (b, blob) => linkShared b blob rt) s'.target.runtime)) >>=
      fun runtime => set { s' with target := { s'.target with runtime } }) = _
    dsimp only
    cases blobs.foldlM (fun rt (b, blob) => linkShared b blob rt) s'.target.runtime <;> rfl

section
variable {s : Stubs} {b : SharedBlob} {blob : CodeBlob}

/-- Asking for one runtime blob is one request; what is handed out is kept. -/
theorem shelf_sharedFor (s : Stubs) (b : SharedBlob) :
    let p := s.perform (sharedFor b)
    p.2.target = s.target ∧ p.2.shelf = s.shelf.after id (asking s.target b) ∧
      ∀ blob, p.1 = .ok blob → p.2.shared.lookup b.name = some blob := by
  rw [perform_sharedFor]
  refine ⟨rfl, rfl, fun blob h => ?_⟩
  show (StubTable.getOrCreate s.shared ..).2.lookup b.name = some blob
  unfold StubTable.getOrCreate at h ⊢
  cases hkept : s.shared.lookup b.name with
  | some a =>
    rw [hkept] at h
    cases h
    exact hkept
  | none =>
    rw [hkept] at h
    dsimp only at h ⊢
    cases hresult : (s.cache.generate s.target.opts.stubBufferSize (b.make s.target) id fun _ => []).result with
    | error e =>
      rw [hresult] at h
      dsimp only at h
      rw [hresult] at h
      cases h
    | ok a =>
      rw [hresult] at h
      dsimp only at h
      rw [hresult] at h
      cases h
      exact List.lookup_cons_self

/-- What all the requests for runtime blobs leave behind, and what they are answered with. -/
theorem shelf_sharedAll (s : Stubs) (bs : List SharedBlob) :
    let p := s.perform (sharedAll bs)
    p.2.target = s.target ∧ p.2.shelf = s.shelf.run id (s.requests bs) ∧
      ∀ l, p.1 = .ok (.ok l) → l.map Prod.fst = bs ∧ ∀ q ∈ l, p.2.shared.lookup q.1.name = some q.2 := by
  induction bs generalizing s with
  | nil =>
    refine ⟨rfl, rfl, fun l hl => ?_⟩
    cases hl
    exact ⟨rfl, by simp⟩
  | cons b rest ih =>
    obtain ⟨htarget, hshelf, hkept⟩ := shelf_sharedFor s b
    obtain ⟨htarget', hshelf', hanswers⟩ := ih (s.perform (sharedFor b)).2
    have hrun (calls : List (Installer × ShelfCall CodeBlob)) :
        s.shelf.run id ((s.cache.installer, asking s.target b) :: calls) =
          (s.perform (sharedFor b)).2.shelf.run id calls := congrArg (Shelf.run id · _) hshelf.symm
    rw [perform_sharedAll_cons, requests, hrun]
    rcases hp : s.perform (sharedFor b) with ⟨(f | f) | blob, s1⟩
    all_goals
      rw [hp] at htarget hkept htarget' hshelf' hanswers
      dsimp only
    · exact ⟨htarget, rfl, nofun⟩
    · rw [← hshelf', ← htarget, ← htarget']
      rcases s1.perform (sharedAll rest) with ⟨e | more, s2⟩ <;> exact ⟨rfl, rfl, nofun⟩
    · have hstays : (s1.perform (sharedAll rest)).2.shared.lookup b.name = some blob := by
        have hlater : (s1.shelf.run id (s1.requests rest)).stubs.lookup b.name = some blob :=
          Shelf.lookup_run (hkept blob rfl) _
        rwa [← hshelf'] at hlater
      rw [← hshelf', ← htarget, ← htarget']
      rcases hq : s1.perform (sharedAll rest) with ⟨e | (e | more), s2⟩
      · exact ⟨rfl, rfl, nofun⟩
      · exact ⟨rfl, rfl, nofun⟩
      · rw [hq] at hanswers hstays
        refine ⟨rfl, rfl, fun l hl => ?_⟩
        obtain ⟨hnames, hmore⟩ := hanswers more rfl
        cases hl
        exact ⟨congrArg (b :: ·) hnames, List.forall_mem_cons.mpr ⟨hstays, hmore⟩⟩

/-- A call for the runtime blobs does to the shelf what its requests do. -/
theorem shelf_generateShared (s : Stubs) :
    (s.perform generateShared).2.shelf = s.shelf.run id (s.requests sharedBlobs) := by
  obtain ⟨-, hshelf, -⟩ := shelf_sharedAll s sharedBlobs
  rw [perform_generateShared, ← hshelf]
  rcases s.perform (sharedAll sharedBlobs) with ⟨e | e | blobs, s'⟩
  · rfl
  · rfl
  · dsimp only
    cases blobs.foldlM (fun rt (b, blob) => linkShared b blob rt) s'.target.runtime <;> rfl

/-- A call without result leaves the runtime entries as they were. -/
theorem generateShared_error {e : Stop} (h : (s.perform generateShared).1 = .error e) :
    (s.perform generateShared).2.target = s.target := by
  obtain ⟨htarget, -, -⟩ := shelf_sharedAll s sharedBlobs
  rw [perform_generateShared] at h ⊢
  rw [← htarget]
  rcases hp : s.perform (sharedAll sharedBlobs) with ⟨e | e | blobs, s'⟩
  · rfl
  · rfl
  · rw [hp] at h
    dsimp only at h ⊢
    cases hlinked : blobs.foldlM (fun rt (b, blob) => linkShared b blob rt) s'.target.runtime with
    | error f => rfl
    | ok runtime =>
      rw [hlinked] at h
      cases h

/-- A call that ends points three runtime entries at the blobs on the shelf. -/
theorem generateShared_ok (h : (s.perform generateShared).1 = .ok ()) :
    let s' := (s.perform generateShared).2
    ∃ subtype safepoint deopt entry, s'.shared.lookup "slow_subtype_check" = some subtype ∧
      s'.shared.lookup "safepoint_handler_blob" = some safepoint ∧ s'.shared.lookup "deopt_blob" = some deopt ∧
      deopt.entryAddress EntryPoint.deopt = .ok entry ∧
      s'.target = { s.target with
        runtime := ((s.target.runtime.set .slowSubtypeCheck subtype.base).set .safepointHandler safepoint.base).set
          .deoptBlobUnpack entry } := by
  obtain ⟨htarget, -, hall⟩ := shelf_sharedAll s sharedBlobs
  rw [perform_generateShared] at h ⊢
  rw [← htarget]
  rcases hp : s.perform (sharedAll sharedBlobs) with ⟨e | e | blobs, s'⟩
  all_goals rw [hp] at h hall
  · cases h
  · cases h
  · obtain ⟨hnames, hkept⟩ := hall blobs rfl
    -- there is one blob for each of the five names
    obtain ⟨⟨b1, subtype⟩, rest1, rfl, rfl, hrest1⟩ := List.map_eq_cons_iff.mp hnames
    obtain ⟨⟨b2, safepoint⟩, rest2, rfl, rfl, hrest2⟩ := List.map_eq_cons_iff.mp hrest1
    obtain ⟨⟨b3, deopt⟩, rest3, rfl, rfl, hrest3⟩ := List.map_eq_cons_iff.mp hrest2
    obtain ⟨⟨b4, static⟩, rest4, rfl, rfl, hrest4⟩ := List.map_eq_cons_iff.mp hrest3
    obtain ⟨⟨b5, virtual⟩, rest5, rfl, rfl, hrest5⟩ := List.map_eq_cons_iff.mp hrest4
    cases List.map_eq_nil_iff.mp hrest5
    simp only [List.forall_mem_cons] at hkept
    obtain ⟨hsubtype, hsafepoint, hdeopt, -⟩ := hkept
    simp only [List.foldlM_cons, List.foldlM_nil, linkShared, pure_bind] at h ⊢
    cases hentry : deopt.entryAddress EntryPoint.deopt with
    | error f =>
      rw [hentry] at h
      cases h
    | ok entry => exact ⟨subtype, safepoint, deopt, entry, hsubtype, hsafepoint, hdeopt, hentry, rfl⟩

/-! ## Any calls -/

/-- A call for the runtime blobs, and what others do to the cache in between. -/
inductive SharedCall where
  | generateShared
  | other (call : CacheCall)

/-- The stubs after a call, whatever its answer. -/
def afterShared (s : Stubs) : SharedCall → Stubs
  | .generateShared => (s.perform generateShared).2
  | .other call => { s with cache := s.cache.after call }

/-- The stubs after calls that each find the installer in some state. -/
def runShared (s : Stubs) (calls : List (Installer × SharedCall)) : Stubs :=
  calls.foldl (fun s p => (s.finding p.1).afterShared p.2) s

/-- A call as requests of the shelf. -/
def asks (s : Stubs) : SharedCall → List (Installer × ShelfCall CodeBlob)
  | .generateShared => s.requests sharedBlobs
  | .other call => [(s.cache.installer, .other call)]

/-- The calls as requests of the shelf. -/
def asked (s : Stubs) : List (Installer × SharedCall) → List (Installer × ShelfCall CodeBlob)
  | [] => []
  | (i, call) :: calls => (s.finding i).asks call ++ ((s.finding i).afterShared call).asked calls

/-- Others commit no code that is as long as the range of lengths. -/
def SharedCall.Possible : SharedCall → Prop
  | .generateShared => True
  | .other call => call.Possible

theorem shelf_runShared (s : Stubs) (calls : List (Installer × SharedCall)) :
    (s.runShared calls).shelf = s.shelf.run id (s.asked calls) := by
  induction calls generalizing s with
  | nil => rfl
  | cons p calls ih =>
    obtain ⟨i, call⟩ := p
    rw [asked, Shelf.run_append]
    refine (ih ((s.finding i).afterShared call)).trans (congrArg (Shelf.run id · _) ?_)
    cases call with
    | generateShared => exact shelf_generateShared (s.finding i)
    | other call => rfl

theorem mem_requests {bs : List SharedBlob} {p : Installer × ShelfCall CodeBlob} (h : p ∈ s.requests bs) :
    ∃ b ∈ bs, p.2 = asking s.target b := by
  induction bs generalizing s with
  | nil => cases h
  | cons b rest ih =>
    obtain ⟨htarget, -, -⟩ := shelf_sharedFor s b
    rw [requests] at h
    rcases List.mem_cons.mp h with rfl | h
    · exact ⟨b, List.mem_cons_self, rfl⟩
    · rcases hp : s.perform (sharedFor b) with ⟨(f | f) | blob, s1⟩
      all_goals
        rw [hp] at h htarget
        dsimp only at h htarget
      · cases h
      all_goals
        obtain ⟨b', hb', hasked⟩ := ih h
        exact ⟨b', List.mem_cons_of_mem b hb', htarget ▸ hasked⟩

variable {calls : List (Installer × SharedCall)}

/-- Every request for a runtime blob reads the target as it was after the calls before. -/
theorem mem_asked {p : Installer × ShelfCall CodeBlob} (h : p ∈ s.asked calls) :
    (∃ q ∈ calls, ∃ call, q.2 = .other call ∧ p.2 = .other call) ∨
      ∃ b ∈ sharedBlobs, ∃ before, before <+: calls ∧ p.2 = asking (s.runShared before).target b := by
  induction calls generalizing s with
  | nil => cases h
  | cons q calls ih =>
    obtain ⟨i, call⟩ := q
    rw [asked] at h
    rcases List.mem_append.mp h with h | h
    · cases call with
      | other call =>
        cases List.mem_singleton.mp h
        exact .inl ⟨_, List.mem_cons_self, call, rfl, rfl⟩
      | generateShared =>
        obtain ⟨b, hb, hasked⟩ := mem_requests h
        exact .inr ⟨b, hb, [], List.nil_prefix, hasked⟩
    · rcases ih h with ⟨q, hq, hother⟩ | ⟨b, hb, before, hbefore, hasked⟩
      · exact .inl ⟨q, List.mem_cons_of_mem _ hq, hother⟩
      · exact .inr ⟨b, hb, (i, call) :: before, List.cons_prefix_cons.mpr ⟨rfl, hbefore⟩, hasked⟩

/-- No runtime blob is empty, and none is long. -/
theorem sized_of_mem {t : Target} {base : UInt64} (hb : b ∈ sharedBlobs) (h : b.make t base = .ok blob) :
    Stub.Sized blob := by
  simp only [sharedBlobs, List.mem_cons, List.not_mem_nil, or_false] at hb
  rcases hb with rfl | rfl | rfl | rfl | rfl
  · exact Stub.sized_subtypeScan h
  · exact Stub.sized_safepointHandler h
  · exact Stub.sized_deopt h
  · exact Stub.sized_resolver h
  · exact Stub.sized_resolver h

theorem short_of_asked (hcalls : ∀ p ∈ calls, p.2.Possible) : ∀ p ∈ s.asked calls, p.2.Short id := by
  intro p hp
  rcases mem_asked hp with ⟨q, hq, call, hcall, hother⟩ | ⟨b, hb, before, -, hasked⟩
  · have hpossible := hcalls q hq
    rw [hcall] at hpossible
    rw [hother]
    exact hpossible
  · rw [hasked]
    intro base blob hmake
    have := (sized_of_mem hb hmake).2
    exact Nat.lt_trans this (by decide)

theorem eq_of_name {b b' : SharedBlob} (hb : b ∈ sharedBlobs) (hb' : b' ∈ sharedBlobs) (h : b.name = b'.name) : b = b' :=
  List.inj_on_of_nodup_map (f := SharedBlob.name) (by decide) hb hb' h

/-- A runtime blob on the shelf was made of the target that some call found. -/
theorem made_before (hnew : s.shared = []) (hb : b ∈ sharedBlobs)
    (h : (s.runShared calls).shared.lookup b.name = some blob) :
    ∃ before, before <+: calls ∧ b.make (s.runShared before).target blob.base = .ok blob := by
  have h : (s.runShared calls).shelf.stubs.lookup b.name = some blob := h
  rw [shelf_runShared] at h
  rcases Shelf.made_run h with h | ⟨p, hp, size, make, note, hcall, hmade⟩
  · rw [shelf, hnew] at h
    cases h
  · rcases mem_asked hp with ⟨q, -, call, -, hother⟩ | ⟨b', hb', before, hbefore, hasked⟩
    · cases hcall.symm.trans hother
    · have hcall := hcall.symm.trans hasked
      injection hcall with hname hsize hmake
      cases eq_of_name hb hb' hname
      exact ⟨before, hbefore, hmake ▸ hmade⟩

theorem sized_runShared {key : String} (hnew : s.shared = []) (hkey : key ∈ sharedBlobs.map SharedBlob.name)
    (h : (s.runShared calls).shared.lookup key = some blob) : Stub.Sized blob := by
  obtain ⟨b, hb, rfl⟩ := List.mem_map.mp hkey
  obtain ⟨before, -, hmake⟩ := made_before hnew hb h
  exact sized_of_mem hb hmake

theorem tidy_runShared (hnew : s.shared = []) (calls : List (Installer × SharedCall)) :
    Shelf.Tidy id (s.runShared calls).shelf := by
  rw [shelf_runShared]
  refine Shelf.Tidy.run ⟨?_, ?_⟩ _ <;> simp [shelf, hnew]

/-- A runtime blob on the shelf is found where it starts, unless it ends with the last address. -/
theorem found_runShared {base : UInt64} {size : Int64} {installer : Option Installer} {key : String}
    (hc : CodeCache.create base size installer = .ok s.cache) (hfit : base.toNat + size.toInt ≤ 2 ^ 64)
    (hcalls : ∀ p ∈ calls, p.2.Possible) (hnew : s.shared = []) (hkey : key ∈ sharedBlobs.map SharedBlob.name)
    (h : (s.runShared calls).shared.lookup key = some blob) :
    (s.runShared calls).cache.lookup? blob.base = some (CodeCache.listing blob) ↔
      blob.base.toNat + blob.size < 2 ^ 64 := by
  have hordered : Shelf.Ordered (s.runShared calls).shelf := by
    rw [shelf_runShared]
    exact Shelf.Ordered.run (short_of_asked hcalls) ⟨0, false, (CodeCache.sound_create hc hfit).1⟩
  obtain ⟨t, sunk, hsound⟩ := hordered
  obtain ⟨before, rest, hs, -⟩ := List.lookup_eq_some_iff.mp h
  have hlisted := (tidy_runShared hnew calls).installed (key, blob) (by
    show (key, blob) ∈ (s.runShared calls).shared
    rw [hs]
    exact List.mem_append_right _ List.mem_cons_self)
  exact CodeCache.found_at_start hsound hlisted (sized_runShared hnew hkey h)

end

/-- Whatever calls come before, and wherever they fail: a call for the runtime blobs that fails leaves
the target as it was. One that ends changes three runtime entries, to the addresses of three blobs,
which are looked up to them unless a blob ends with the last address. No runtime blob is committed
twice; one that is kept stays, and was made of the target that some call found. -/
theorem runtime_blobs_are_published_together {base : UInt64} {size : Int64} {installer : Option Installer} {start : Stubs}
    (hc : CodeCache.create base size installer = .ok start.cache) (hnew : start.shared = [])
    (calls : List (Installer × SharedCall)) :
    let s := start.runShared calls
    (∀ i : Installer,
      let r := (s.finding i).perform generateShared
      (∀ e, r.1 = .error e → r.2.target = s.target) ∧
        (r.1 = .ok () → ∃ subtype safepoint deopt, r.2.shared.lookup "slow_subtype_check" = some subtype ∧
          r.2.shared.lookup "safepoint_handler_blob" = some safepoint ∧ r.2.shared.lookup "deopt_blob" = some deopt ∧
          deopt.entryAddress EntryPoint.deopt = .ok deopt.base ∧
          r.2.target = { s.target with
            runtime := ((s.target.runtime.set .slowSubtypeCheck subtype.base).set .safepointHandler safepoint.base).set
              .deoptBlobUnpack deopt.base } ∧
          (base.toNat + size.toInt ≤ 2 ^ 64 → (∀ p ∈ calls, p.2.Possible) → ∀ blob ∈ [subtype, safepoint, deopt],
            (r.2.cache.lookup? blob.base = some (CodeCache.listing blob) ↔ blob.base.toNat + blob.size < 2 ^ 64)))) ∧
      ∀ b ∈ sharedBlobs, start.shelf.commits id b.name (start.asked calls) ≤ 1 ∧
        ∀ blob, s.shared.lookup b.name = some blob →
          (∃ before, before <+: calls ∧ b.make (start.runShared before).target blob.base = .ok blob) ∧
            ∀ more, (s.runShared more).shared.lookup b.name = some blob := by
  intro s
  refine ⟨fun i => ⟨fun e herror => generateShared_error herror, fun hok => ?_⟩,
    fun b hb => ⟨?_, fun blob hkept => ⟨made_before hnew hb hkept, fun more => ?_⟩⟩⟩
  · obtain ⟨subtype, safepoint, deopt, entry, hsubtype, hsafepoint, hdeopt, hentry, htarget⟩ := generateShared_ok hok
    -- the call is one more call of the run
    have hrun : start.runShared (calls ++ [(i, .generateShared)]) = ((s.finding i).perform generateShared).2 :=
      List.foldl_append
    rw [← hrun] at hsubtype hsafepoint hdeopt htarget ⊢
    have hstart : entry = deopt.base := by
      obtain ⟨before, -, hmake⟩ := made_before hnew (b := sharedBlobs[2]) (List.getElem_mem _) hdeopt
      exact Except.ok.inj (hentry.symm.trans (Stub.deopt_starts_with_entry hmake))
    subst hstart
    refine ⟨subtype, safepoint, deopt, hsubtype, hsafepoint, hdeopt, hentry, htarget, fun hfit hcalls => ?_⟩
    have hcalls' : ∀ p ∈ calls ++ [(i, SharedCall.generateShared)], p.2.Possible := by
      intro p hp
      rcases List.mem_append.mp hp with hp | hp
      · exact hcalls p hp
      · cases List.mem_singleton.mp hp
        trivial
    simp only [List.forall_mem_cons]
    exact ⟨found_runShared hc hfit hcalls' hnew (by decide) hsubtype,
      found_runShared hc hfit hcalls' hnew (by decide) hsafepoint,
      found_runShared hc hfit hcalls' hnew (by decide) hdeopt, by simp⟩
  · have hcommits := Shelf.commits_add id start.shelf (start.asked calls) b.name
    have := Option.length_toList_le (o := (start.shelf.run id (start.asked calls)).stubs.lookup b.name)
    omega
  · have hstays : (s.shelf.run id (s.asked more)).stubs.lookup b.name = some blob := Shelf.lookup_run hkept _
    rwa [← shelf_runShared] at hstays

/-- A cache with room for the shortest runtime blob and 64 bytes more. -/
def narrowStubs : Stubs :=
  { target := ⟨{ stubBufferSize := 128 }, .synthetic 0x10000⟩
    cache := { base := 0x100000, size := 192, installer := .memory { base := 0x100000, size := 192 } } }

/-- The first blob is kept, there is no room for the second, and the next call publishes nothing either. -/
theorem a_full_cache_keeps_what_there_is :
    let calls := [(narrowStubs.cache.installer, SharedCall.generateShared)]
    let s := narrowStubs.runShared calls
    let r := (s.finding narrowStubs.cache.installer).perform generateShared
    CodeCache.create 0x100000 192 (some narrowStubs.cache.installer) = .ok narrowStubs.cache ∧ narrowStubs.shared = [] ∧
      (∃ e, r.1 = .error e) ∧ r.2.target = s.target ∧
      ∃ blob, s.shared.lookup "slow_subtype_check" = some blob ∧
        (s.runShared calls).shared.lookup "slow_subtype_check" = some blob ∧
        narrowStubs.shelf.commits id "slow_subtype_check" (narrowStubs.asked calls) ≤ 1 := by
  have hnew : CodeCache.create 0x100000 192 (some narrowStubs.cache.installer) = .ok narrowStubs.cache := rfl
  obtain ⟨hcall, hkept⟩ :=
    runtime_blobs_are_published_together hnew rfl [(narrowStubs.cache.installer, SharedCall.generateShared)]
  dsimp only at hcall hkept ⊢
  obtain ⟨herror, -⟩ := hcall narrowStubs.cache.installer
  obtain ⟨hcommits, hstays⟩ :=
    hkept ⟨"slow_subtype_check", some (.slowSubtypeCheck, none), Stub.subtypeScan⟩ List.mem_cons_self
  dsimp only at hcommits hstays
  have hfails : (((narrowStubs.runShared [(narrowStubs.cache.installer, .generateShared)]).finding
      narrowStubs.cache.installer).perform generateShared).1.isOk = false := by decide +kernel
  have hsome : ((narrowStubs.runShared [(narrowStubs.cache.installer, .generateShared)]).shared.lookup
      "slow_subtype_check").isSome = true := by decide +kernel
  obtain ⟨blob, hblob⟩ := Option.isSome_iff_exists.mp hsome
  cases hr : (((narrowStubs.runShared [(narrowStubs.cache.installer, .generateShared)]).finding
      narrowStubs.cache.installer).perform generateShared).1 with
  | ok a =>
    rw [hr] at hfails
    cases hfails
  | error e => exact ⟨hnew, rfl, ⟨e, rfl⟩, herror e hr, blob, hblob, (hstays blob hblob).2 _, hcommits⟩

end Stubs

end RiscvJit

import RiscvJit.Cache.Stubs
import RiscvJit.Proofs.Cache.Allocation
import RiscvJit.Proofs.Code.Run
import RiscvJit.Proofs.Stub.Adapters

/-
  RiscvJit.Proofs.Cache.Stubs — what a kept stub stands for.

  A stub is generated once for its key and handed out for every later request with that key. While
  the target stays as it is, every kept stub is what a request with its key generated at the
  address of the stub (`Genuine`, kept by every request: `Genuine.serveAll`).

  For adapters the key is the fingerprint, and signatures with one fingerprint have the same
  adapters, so what is handed out is what the signature itself would generate
  (`adapters_are_those_of_their_signature`).

  For wrappers the key is the name, the signature and whether the method is static
  (`wrapperKey_inj`). That is not the whole method: classes are all one kind in a signature, so
  overloads can share a key. What is handed out is then the wrapper of the first of them
  (`wrappers_are_those_of_their_key`, `overloads_share_a_wrapper`).
-/

namespace RiscvJit

/-! ## One generation -/

namespace CodeCache

variable {α : Type} {c : CodeCache} {size : Int64} {make : UInt64 → Except Stop α} {blobOf : α → CodeBlob}
  {note : α → List LogEntry} {a : α}

theorem giveUp_ne_ok (c : CodeCache) (r : Region) (why : Stop) (log : List LogEntry) (a : α) :
    (c.giveUp r why log).result ≠ .ok a := by
  unfold giveUp
  cases c.release r <;> simp

/-- What was generated was generated for the address it is installed at. -/
theorem generate_eq_ok (h : (c.generate size make blobOf note).result = .ok a) : make (blobOf a).base = .ok a := by
  unfold generate at h
  split at h
  · cases h
  · cases h
  · rename_i r c' hreserve
    cases hmake : make r.base with
    | error e =>
      rw [hmake] at h
      exact absurd h (giveUp_ne_ok _ _ _ _ _)
    | ok b =>
      rw [hmake] at h
      cases hcommit : c'.commit r (blobOf b) with
      | error e =>
        simp only [hcommit] at h
        exact absurd h (giveUp_ne_ok _ _ _ _ _)
      | ok p =>
        simp only [hcommit] at h
        cases h
        -- Code that was generated for another address is not committed.
        obtain ⟨-, hbase, -⟩ := checkFit_eq_ok (commit_eq_ok hcommit).1
        rw [hbase, hmake]

end CodeCache

namespace StubTable

variable {α : Type} {stubs : StubTable α} {c : CodeCache} {key : String} {size : Int64}
  {make : UInt64 → Except Stop α} {blobOf : α → CodeBlob} {note : α → List LogEntry}

/-- A stub is handed out of the table, or generated and put there, or there is none. -/
theorem getOrCreate_cases (stubs : StubTable α) (c : CodeCache) (key : String) (size : Int64)
    (make : UInt64 → Except Stop α) (blobOf : α → CodeBlob) (note : α → List LogEntry) :
    let g := c.generate size make blobOf note
    (∃ a, (key, a) ∈ stubs ∧ stubs.getOrCreate c key size make blobOf note = (⟨.ok a, c, []⟩, stubs)) ∨
      (∃ a, g.result = .ok a ∧ stubs.getOrCreate c key size make blobOf note = (g, (key, a) :: stubs)) ∨
      ∃ e, g.result = .error e ∧ stubs.getOrCreate c key size make blobOf note = (g, stubs) := by
  intro g
  unfold getOrCreate
  cases hkept : stubs.lookup key with
  | some a =>
    obtain ⟨before, after, rfl, -⟩ := List.lookup_eq_some_iff.mp hkept
    exact .inl ⟨a, by simp, rfl⟩
  | none =>
    cases hg : g.result with
    | ok a => exact .inr (.inl ⟨a, rfl, by simp only [g, hg]⟩)
    | error e => exact .inr (.inr ⟨e, rfl, by simp only [g, hg]⟩)

/-- A table only grows by what was just generated for the key. -/
theorem mem_getOrCreate {p : String × α} (h : p ∈ (stubs.getOrCreate c key size make blobOf note).2) :
    p ∈ stubs ∨ (p.1 = key ∧ make (blobOf p.2).base = .ok p.2) := by
  rcases getOrCreate_cases stubs c key size make blobOf note with ⟨a, -, hr⟩ | ⟨a, hg, hr⟩ | ⟨e, -, hr⟩
  · rw [hr] at h
    exact .inl h
  · rw [hr] at h
    rcases List.mem_cons.mp h with rfl | h
    · exact .inr ⟨rfl, CodeCache.generate_eq_ok hg⟩
    · exact .inl h
  · rw [hr] at h
    exact .inl h

/-- What is handed out is in the table under its key. -/
theorem getOrCreate_eq_ok {a : α} (h : (stubs.getOrCreate c key size make blobOf note).1.result = .ok a) :
    (key, a) ∈ (stubs.getOrCreate c key size make blobOf note).2 := by
  rcases getOrCreate_cases stubs c key size make blobOf note with ⟨b, hb, hr⟩ | ⟨b, hg, hr⟩ | ⟨e, hg, hr⟩
  · rw [hr] at h ⊢
    cases h
    exact hb
  · rw [hr] at h ⊢
    rw [hg] at h
    cases h
    exact List.mem_cons_self
  · rw [hr, hg] at h
    cases h

end StubTable

/-! ## Requests -/

namespace Stubs

/-- What may be asked for while the target stays as it is. -/
inductive Request where
  | adapters (sig : Signature)
  | wrapper (m : NativeMethod)
  | method (p : Program)

/-- Do work on the stubs. -/
def perform {α : Type} (s : Stubs) (w : Work α) : Except Stop α × Stubs := w.run.run s

/-- The stubs after a request, whatever its answer. -/
def serve (s : Stubs) : Request → Stubs
  | .adapters sig => (s.perform (adaptersFor sig)).2
  | .wrapper m => (s.perform (wrapperFor m)).2
  | .method p => (s.perform (compile p)).2

/-- The stubs after one request after the other. -/
def serveAll (s : Stubs) (rs : List Request) : Stubs := rs.foldl serve s

theorem perform_adaptersFor (s : Stubs) (sig : Signature) :
    (∃ e, s.perform (adaptersFor sig) = (.error (.fault e), s)) ∨
      ∃ key note, sig.fingerprint = .ok key ∧ s.perform (adaptersFor sig) =
        let r := s.adapters.getOrCreate s.cache key s.target.opts.stubBufferSize (Stub.adapters s.target sig) id note
        (r.1.result, { s with adapters := r.2, cache := r.1.cache, log := s.log ++ r.1.log }) := by
  unfold adaptersFor
  cases sig.fingerprint with
  | error e => exact .inl ⟨e, rfl⟩
  | ok key => exact .inr ⟨key, _, rfl, rfl⟩

theorem perform_wrapperFor (s : Stubs) (m : NativeMethod) :
    (∃ e, s.perform (wrapperFor m) = (.error (.fault e), s)) ∨
      ∃ key note, wrapperKey m = .ok key ∧ s.perform (wrapperFor m) =
        let r := s.wrappers.getOrCreate s.cache key s.target.opts.codeBufferSize (NativeWrapper.generate s.target m)
          NativeWrapper.blob note
        (r.1.result, { s with wrappers := r.2, cache := r.1.cache, log := s.log ++ r.1.log }) := by
  unfold wrapperFor
  cases wrapperKey m with
  | error e => exact .inl ⟨e, rfl⟩
  | ok key => exact .inr ⟨key, _, rfl, rfl⟩

/-- Every kept stub is what a request with its key generated, of wrappers one of the requests `rs`. -/
structure Genuine (t : Target) (rs : List Request) (s : Stubs) : Prop where
  target : s.target = t
  adapters : ∀ p ∈ s.adapters, ∃ sig : Signature, sig.fingerprint = .ok p.1 ∧ Stub.adapters t sig p.2.base = .ok p.2
  wrappers : ∀ p ∈ s.wrappers, ∃ m, .wrapper m ∈ rs ∧ wrapperKey m = .ok p.1 ∧
    NativeWrapper.generate t m p.2.blob.base = .ok p.2

section
variable {t : Target} {rs : List Request} {s : Stubs} {sig : Signature} {m : NativeMethod}

theorem Genuine.after_adapters (h : Genuine t rs s) (sig : Signature) :
    Genuine t rs (s.perform (adaptersFor sig)).2 := by
  rcases s.perform_adaptersFor sig with ⟨e, hr⟩ | ⟨key, note, hkey, hr⟩
  · rw [hr]
    exact h
  · rw [hr]
    refine ⟨h.target, fun p hp => ?_, h.wrappers⟩
    rcases StubTable.mem_getOrCreate hp with hp | ⟨hp, hmade⟩
    · exact h.adapters p hp
    · exact ⟨sig, hp ▸ hkey, h.target ▸ hmade⟩

theorem Genuine.after_wrapper (h : Genuine t rs s) (hm : .wrapper m ∈ rs) :
    Genuine t rs (s.perform (wrapperFor m)).2 := by
  rcases s.perform_wrapperFor m with ⟨e, hr⟩ | ⟨key, note, hkey, hr⟩
  · rw [hr]
    exact h
  · rw [hr]
    refine ⟨h.target, h.adapters, fun p hp => ?_⟩
    rcases StubTable.mem_getOrCreate hp with hp | ⟨hp, hmade⟩
    · exact h.wrappers p hp
    · exact ⟨m, hm, hp ▸ hkey, h.target ▸ hmade⟩

theorem Genuine.serve (h : Genuine t rs s) {r : Request} (hr : r ∈ rs) : Genuine t rs (s.serve r) := by
  cases r with
  | adapters sig => exact h.after_adapters sig
  | wrapper m => exact h.after_wrapper hr
  | method p => exact ⟨h.target, h.adapters, h.wrappers⟩

theorem Genuine.serveAll (h : Genuine t rs s) {qs : List Request} (hqs : ∀ r ∈ qs, r ∈ rs) :
    Genuine t rs (s.serveAll qs) := by
  induction qs generalizing s with
  | nil => exact h
  | cons r qs ih => exact ih (h.serve (hqs r List.mem_cons_self)) fun q hq => hqs q (List.mem_cons_of_mem r hq)

theorem Genuine.adapters_answer (h : Genuine t rs s) {blob : CodeBlob}
    (hb : (s.perform (adaptersFor sig)).1 = .ok blob) :
    ∃ sig' : Signature, sig'.fingerprint = sig.fingerprint ∧ Stub.adapters t sig' blob.base = .ok blob := by
  have hnext := h.after_adapters sig
  rcases s.perform_adaptersFor sig with ⟨e, hr⟩ | ⟨key, note, hkey, hr⟩
  · rw [hr] at hb
    cases hb
  · rw [hr] at hb hnext
    obtain ⟨sig', hkey', hmade⟩ := hnext.adapters (key, blob) (StubTable.getOrCreate_eq_ok hb)
    exact ⟨sig', hkey'.trans hkey.symm, hmade⟩

theorem Genuine.wrapper_answer (h : Genuine t rs s) (hm : .wrapper m ∈ rs) {w : NativeWrapper}
    (hw : (s.perform (wrapperFor m)).1 = .ok w) :
    ∃ m' key, .wrapper m' ∈ rs ∧ wrapperKey m' = .ok key ∧ wrapperKey m = .ok key ∧
      NativeWrapper.generate t m' w.blob.base = .ok w := by
  have hnext := h.after_wrapper hm
  rcases s.perform_wrapperFor m with ⟨e, hr⟩ | ⟨key, note, hkey, hr⟩
  · rw [hr] at hw
    cases hw
  · rw [hr] at hw hnext
    obtain ⟨m', hm', hkey', hmade⟩ := hnext.wrappers (key, w) (StubTable.getOrCreate_eq_ok hw)
    exact ⟨m', key, hm', hkey', hkey, hmade⟩

/-- Nothing was asked for yet that later requests could share. -/
def Unused (s : Stubs) : Prop := s.adapters = [] ∧ s.wrappers = []

theorem Unused.genuine (h : s.Unused) (rs : List Request) : Genuine s.target rs s :=
  ⟨rfl, by simp [h.1], by simp [h.2]⟩

end

/-! ## Keys of wrappers -/

theorem wrapperKey_eq_ok {m : NativeMethod} {key : String} (h : wrapperKey m = .ok key) :
    ∃ sig : String, key = m.name ++ sig ++ " static=" ++ Text.ofBool m.isStatic ∧
      (m.sig = none ∧ sig = "<nil>" ∨ ∃ s, m.sig = some s ∧ s.text = .ok sig) := by
  unfold wrapperKey at h
  cases hsig : m.sig with
  | none =>
    rw [hsig] at h
    cases h
    exact ⟨_, rfl, .inl ⟨rfl, rfl⟩⟩
  | some s =>
    rw [hsig] at h
    cases htext : s.text with
    | error e => simp only [htext] at h; cases h
    | ok text =>
      simp only [htext] at h
      cases h
      exact ⟨text, rfl, .inr ⟨s, rfl, htext⟩⟩

/-- Whether a method is static can be told from the end of its key. -/
theorem static_inj {front front' : String} {b b' : Bool}
    (h : front ++ " static=" ++ Text.ofBool b = front' ++ " static=" ++ Text.ofBool b') : front = front' ∧ b = b' := by
  have hlist := congrArg (fun k => k.toList.reverse) h
  simp only [String.toList_append, List.reverse_append] at hlist
  cases b with
  | false =>
    cases b' with
    | false => exact ⟨String.toList_inj.mp (by simpa [Text.ofBool] using hlist), rfl⟩
    | true => simp [Text.ofBool] at hlist
  | true =>
    cases b' with
    | false => simp [Text.ofBool] at hlist
    | true => exact ⟨String.toList_inj.mp (by simpa [Text.ofBool] using hlist), rfl⟩

/-- The text of a signature does not end like that of an absent one. -/
theorem append_nil_ne_text {s : Signature} {n n' t : String} (hs : s.text = .ok t) : n ++ "<nil>" ≠ n' ++ t := by
  intro h
  obtain ⟨cs, r, -, hr, rfl⟩ := Signature.text_eq_ok.mp hs
  have hlist : (n.toList ++ ['<', 'n', 'i', 'l']) ++ ['>'] = (n'.toList ++ '(' :: cs ++ [')']) ++ [r] := by
    simpa using congrArg String.toList h
  obtain ⟨-, hlast⟩ := List.append_inj' hlist rfl
  exact (ValueKind.letter?_ne hr).2 (List.singleton_inj.mp hlast).symm

/-- A key stands for a name, a signature and whether the method is static. -/
theorem wrapperKey_inj {m m' : NativeMethod} {key : String} (h : wrapperKey m = .ok key)
    (h' : wrapperKey m' = .ok key) :
    m.name = m'.name ∧ m.sig = m'.sig ∧ m.isStatic = m'.isStatic := by
  obtain ⟨t, hkey, ht⟩ := wrapperKey_eq_ok h
  obtain ⟨t', hkey', ht'⟩ := wrapperKey_eq_ok h'
  obtain ⟨hfront, hstatic⟩ := static_inj (hkey.symm.trans hkey')
  rcases ht with ⟨hsig, rfl⟩ | ⟨s, hsig, hs⟩
  · rcases ht' with ⟨hsig', rfl⟩ | ⟨s', hsig', hs'⟩
    · exact ⟨(String.append_left_inj _).mp hfront, hsig.trans hsig'.symm, hstatic⟩
    · exact absurd hfront (append_nil_ne_text hs')
  · rcases ht' with ⟨hsig', rfl⟩ | ⟨s', hsig', hs'⟩
    · exact absurd hfront.symm (append_nil_ne_text hs)
    · obtain ⟨hname, rfl⟩ := Signature.append_text_inj hs hs' hfront
      exact ⟨hname, hsig.trans hsig'.symm, hstatic⟩

/-! ## Shared adapters -/

/-- Signatures with one fingerprint have the same adapters, and the adapters handed out for a
signature are its own, provided the results of the signatures have letters. -/
theorem adapters_are_those_of_their_signature (t : Target) :
    (∀ (sig sig' : Signature) (base : UInt64), sig.fingerprint = sig'.fingerprint → sig.ret.letter?.isSome →
      sig'.ret.letter?.isSome → Stub.Alike (Stub.adapters t sig base) (Stub.adapters t sig' base)) ∧
    ∀ (s : Stubs) (rs : List Request) (sig : Signature) (blob : CodeBlob), s.target = t → s.Unused →
      sig.ret.letter?.isSome → ((s.serveAll rs).perform (adaptersFor sig)).1 = .ok blob →
      ∃ own, Stub.adapters t sig blob.base = .ok own ∧ own.code = blob.code ∧ own.entries = blob.entries := by
  refine ⟨fun sig sig' base h hret hret' => Stub.adapters_alike t base h hret hret', ?_⟩
  intro s rs sig blob ht hs hret hblob
  have hgenuine : Genuine t rs (s.serveAll rs) := ht ▸ (hs.genuine rs).serveAll fun r hr => hr
  obtain ⟨sig', hkey, hmade⟩ := hgenuine.adapters_answer hblob
  -- The kept adapters have a name, so the signature they were generated for has a letter for its result.
  have halike := Stub.adapters_alike t blob.base hkey.symm hret (Stub.letter_of_adapters hmade)
  rw [hmade] at halike
  generalize Stub.adapters t sig blob.base = own at halike
  cases halike with
  | code hcode hentries => exact ⟨_, rfl, hcode, hentries⟩

/-- New stubs, in a cache with room for two methods at a time. -/
def newStubs : Stubs :=
  { target := ⟨{}, .synthetic 0x10000⟩
    cache := { base := 0x100000, size := 0x20000, installer := .memory { base := 0x100000, size := 0x20000 } } }

theorem newStubs_unused : newStubs.Unused := ⟨rfl, rfl⟩

/-- A method that takes a byte and an array leaves its adapters to one that takes an int and an object. -/
theorem bytes_and_ints_share_adapters :
    Stub.Alike (Stub.adapters newStubs.target ⟨[.byte, .array], .void⟩ 0x100000)
      (Stub.adapters newStubs.target ⟨[.int, .object], .long⟩ 0x100000) ∧
    ∃ blob own, ((newStubs.serveAll [.adapters ⟨[.byte, .array], .void⟩]).perform
        (adaptersFor ⟨[.int, .object], .long⟩)).1 = .ok blob ∧
      Stub.adapters newStubs.target ⟨[.int, .object], .long⟩ blob.base = .ok own ∧
        own.code = blob.code ∧ own.entries = blob.entries := by
  obtain ⟨hpairs, hshared⟩ := adapters_are_those_of_their_signature newStubs.target
  refine ⟨hpairs _ _ _ rfl rfl rfl, ?_⟩
  have hanswered : (((newStubs.serveAll [.adapters ⟨[.byte, .array], .void⟩]).perform
      (adaptersFor ⟨[.int, .object], .long⟩)).1.toOption.any fun _ => true) = true := by decide +kernel
  obtain ⟨blob, hblob, -⟩ := any_toOption hanswered
  obtain ⟨own, hown⟩ := hshared _ _ _ blob rfl newStubs_unused rfl hblob
  exact ⟨blob, own, hblob, hown⟩

/-- A result without a letter does not count in the fingerprint, but there is no code without a name. -/
theorem a_result_without_a_letter_has_no_adapters :
    Signature.fingerprint ⟨[.int], .void⟩ = Signature.fingerprint ⟨[.int], .unknown 0⟩ ∧
      ¬ Stub.Alike (Stub.adapters newStubs.target ⟨[.int], .void⟩ 0x100000)
        (Stub.adapters newStubs.target ⟨[.int], .unknown 0⟩ 0x100000) := by
  refine ⟨rfl, fun halike => ?_⟩
  have hvoid : ((Stub.adapters newStubs.target ⟨[.int], .void⟩ 0x100000).toOption.any fun _ => true) = true := by
    decide +kernel
  obtain ⟨blob, hblob, -⟩ := any_toOption hvoid
  have hnone : Stub.adapters newStubs.target ⟨[.int], .unknown 0⟩ 0x100000 =
      .error (.fault (.defect ("no descriptor for " ++ ValueKind.name (.unknown 0)))) := rfl
  rw [hblob, hnone] at halike
  cases halike

/-! ## Shared wrappers -/

/-- The wrapper handed out for a method was generated for a method with its name, its signature
and its staticness, so it is its own when no other such method was asked for. -/
theorem wrappers_are_those_of_their_key {s : Stubs} (hs : s.Unused) (rs : List Request) {m : NativeMethod}
    {w : NativeWrapper} (hw : ((s.serveAll rs).perform (wrapperFor m)).1 = .ok w) :
    (∃ m', (m' = m ∨ .wrapper m' ∈ rs) ∧ m'.name = m.name ∧ m'.sig = m.sig ∧ m'.isStatic = m.isStatic ∧
        NativeWrapper.generate s.target m' w.blob.base = .ok w) ∧
      ((∀ m', .wrapper m' ∈ rs → m'.name = m.name → m'.sig = m.sig → m'.isStatic = m.isStatic → m' = m) →
        NativeWrapper.generate s.target m w.blob.base = .ok w) := by
  -- The request itself counts too: it may be the one that generates.
  have hgenuine : Genuine s.target (.wrapper m :: rs) (s.serveAll rs) :=
    (hs.genuine _).serveAll fun r hr => List.mem_cons_of_mem _ hr
  obtain ⟨m', key, hm', hkey', hkey, hmade⟩ := hgenuine.wrapper_answer List.mem_cons_self hw
  obtain ⟨hname, hsig, hstatic⟩ := wrapperKey_inj hkey' hkey
  rcases List.mem_cons.mp hm' with heq | hm'
  · cases heq
    exact ⟨⟨m, .inl rfl, rfl, rfl, rfl, hmade⟩, fun _ => hmade⟩
  · exact ⟨⟨m', .inr hm', hname, hsig, hstatic, hmade⟩, fun hother => hother m' hm' hname hsig hstatic ▸ hmade⟩

/-- An overload of a method that prints an object, implemented at an address. -/
def printAt (entry : UInt64) : NativeMethod :=
  { name := "Printer.print", sig := some ⟨[.object], .void⟩, isStatic := true, entry, classObject := 0x5000 }

theorem a_method_asked_for_twice_keeps_its_wrapper :
    ∃ w, ((newStubs.serveAll [.wrapper (printAt 0x4000)]).perform (wrapperFor (printAt 0x4000))).1 = .ok w ∧
      NativeWrapper.generate newStubs.target (printAt 0x4000) w.blob.base = .ok w := by
  have hanswered : (((newStubs.serveAll [.wrapper (printAt 0x4000)]).perform
      (wrapperFor (printAt 0x4000))).1.toOption.any fun _ => true) = true := by decide +kernel
  obtain ⟨w, hw, -⟩ := any_toOption hanswered
  refine ⟨w, hw, (wrappers_are_those_of_their_key newStubs_unused _ hw).2 fun m' hm' _ _ _ => ?_⟩
  simpa using hm'

/-- Of two overloads with one key, the second is handed the wrapper of the first. -/
theorem overloads_share_a_wrapper :
    ∃ w own, ((newStubs.serveAll [.wrapper (printAt 0x4000)]).perform (wrapperFor (printAt 0x4100))).1 = .ok w ∧
      NativeWrapper.generate newStubs.target (printAt 0x4100) w.blob.base = .ok own ∧
        own.blob.code ≠ w.blob.code := by
  have hdiffers : (((newStubs.serveAll [.wrapper (printAt 0x4000)]).perform
      (wrapperFor (printAt 0x4100))).1.toOption.any fun w =>
        (NativeWrapper.generate newStubs.target (printAt 0x4100) w.blob.base).toOption.any fun own =>
          own.blob.code != w.blob.code) = true := by decide +kernel
  obtain ⟨w, hw, hany⟩ := any_toOption hdiffers
  obtain ⟨own, hown, hne⟩ := any_toOption hany
  exact ⟨w, own, hw, hown, by simpa using hne⟩

end Stubs

end RiscvJit

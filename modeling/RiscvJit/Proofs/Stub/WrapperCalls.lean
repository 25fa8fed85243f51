import RiscvJit.Proofs.Stub.WrapperArguments

/-
  RiscvJit.Proofs.Stub.WrapperCalls — what native functions are called with.

  From every machine at the verified entry point the code of a wrapper comes to the native function.
  There the environment, the class of a static method and the arguments are where the native
  convention has them; references are passed as addresses of words of the wrapper's frame
  (`NativeEntered`, `native_arguments_arrive`). The map of the call records these words and no others
  (`Planned.names_oopMap`).
-/

namespace RiscvJit

open Reg (ra sp t0 fp thread)

/-! ## Recorded references -/

namespace OopMap

/-- The location is recorded as one of a reference. -/
def Names (m : OopMap) (l : Location) : Prop := ⟨l, .oop⟩ ∈ m.entries

section
variable {m m' : OopMap} {l l' : Location}

theorem names_setOop (h : m.setOop l' = .ok m') : m'.Names l ↔ l = l' ∨ m.Names l := by
  unfold setOop record at h
  split at h
  · cases h
  · split at h
    case isFalse => cases h
    case isTrue =>
      cases h
      constructor
      · intro hmem
        exact (mem_of_insert hmem).imp (congrArg OopEntry.loc) id
      · intro hor
        by_cases hl : l = l'
        · subst hl
          exact insert_self ..
        · exact insert_keeps (hor.resolve_left hl) fun e => hl e.symm

end

end OopMap

/-- Of words of a frame that are recorded one after the other, every one is recorded. -/
theorem names_recorded {map map' : OopMap} {l : Location} {offs : List Int64}
    (hoffs : ∀ off ∈ offs, ∃ k < 2 ^ 58, off = Int64.ofNat (8 * k))
    (h : offs.foldlM (fun m off => do m.setOop (← Location.ofSlot (off / stackSlotSize))) map = .ok map') :
    map'.Names l ↔ (∃ k < 2 ^ 58, Int64.ofNat (8 * k) ∈ offs ∧ l = .stack (2 * k)) ∨ map.Names l := by
  induction offs generalizing map with
  | nil =>
    cases h
    exact ⟨.inr, fun h => h.resolve_left fun ⟨_, _, hmem, _⟩ => nomatch hmem⟩
  | cons off rest ih =>
    obtain ⟨k, hk, rfl⟩ := hoffs _ List.mem_cons_self
    rw [List.foldlM_cons] at h
    obtain ⟨map1, hset, h⟩ := except_bind_eq_ok.mp h
    rw [ofSlot_word hk] at hset
    rw [ih (fun off hmem => hoffs off (List.mem_cons_of_mem _ hmem)) h, OopMap.names_setOop (m := map) hset, ← or_assoc]
    refine or_congr_left ⟨?_, ?_⟩
    · rintro (⟨k', hk', hmem, rfl⟩ | rfl)
      · exact ⟨k', hk', List.mem_cons_of_mem _ hmem, rfl⟩
      · exact ⟨k, hk, List.mem_cons_self, rfl⟩
    · rintro ⟨k', hk', hmem, rfl⟩
      rcases List.mem_cons.mp hmem with e | hmem
      · have hint := congrArg Int64.toInt e
        rw [Int64.toInt_ofNat_of_lt (by omega), Int64.toInt_ofNat_of_lt (by omega)] at hint
        exact .inr (by rw [show k' = k by omega])
      · exact .inl ⟨k', hk', hmem, rfl⟩

namespace NativeWrapper

section
variable {m : NativeMethod} {p : Plan} (P : Planned m p)

/-- The word of the frame is the handle of a reference. -/
def Planned.IsHandle (k : Nat) : Prop :=
  (∃ i l a, Sent P i l a ∧ a.kind.isReference = true ∧ k = handleWord P.first P.sig.expanded i) ∨
  m.isStatic = true ∧ k = P.klass

/-- Handles lie above the outgoing words, and below the room for the result. -/
theorem Planned.IsHandle.inside {k : Nat} (h : P.IsHandle k) : P.first ≤ k ∧ k + 1 ≤ P.temp := by
  have htemp := P.tempAbove
  rcases h with ⟨i, l, a, hsent, href, rfl⟩ | ⟨hstatic, rfl⟩
  · have := P.handleWord_lt hsent href
    omega
  · have := P.klassAbove hstatic
    have := htemp.2.1 hstatic
    omega

theorem Planned.IsHandle.small {k : Nat} (h : P.IsHandle k) : k < 2 ^ 58 := by
  have := h.inside
  have := P.linkage
  have := P.small
  omega

theorem Planned.mem_handles (off : Int64) : off ∈ p.args.filterMap (·.handle) ++ p.classHandle.toList ↔
    ∃ k, P.IsHandle k ∧ off = Int64.ofNat (8 * k) := by
  rw [List.mem_append, List.mem_filterMap, P.classHandle]
  constructor
  · rintro (⟨a, ha, hoff⟩ | hoff)
    · obtain ⟨i, l, hsent⟩ := P.sent ha
      rw [hsent.handle] at hoff
      split at hoff
      case isTrue href =>
        cases hoff
        exact ⟨_, .inl ⟨i, l, a, hsent, href, rfl⟩, rfl⟩
      case isFalse => cases hoff
    · split at hoff
      case isTrue hstatic =>
        cases List.mem_singleton.mp hoff
        exact ⟨_, .inr ⟨hstatic, rfl⟩, rfl⟩
      case isFalse => cases hoff
  · rintro ⟨k, ⟨i, l, a, hsent, href, rfl⟩ | ⟨hstatic, rfl⟩, rfl⟩
    · exact .inl ⟨a, hsent.mem, by rw [hsent.handle, if_pos href]⟩
    · exact .inr (by rw [if_pos hstatic]; exact List.mem_singleton.mpr rfl)

/-- The map of the call records the handles and nothing else. -/
theorem Planned.names_oopMap {map : OopMap} (h : p.oopMap = .ok map) (l : Location) :
    map.Names l ↔ ∃ k, P.IsHandle k ∧ l = .stack (2 * k) := by
  unfold Plan.oopMap at h
  rw [names_recorded (fun off hoff => ?_) h]
  · constructor
    · rintro (⟨k, hk, hmem, rfl⟩ | hnone)
      · obtain ⟨k', hhandle, e⟩ := (P.mem_handles _).mp hmem
        have hk' := hhandle.small
        have hint := congrArg Int64.toInt e
        rw [Int64.toInt_ofNat_of_lt (by omega), Int64.toInt_ofNat_of_lt (by omega)] at hint
        exact ⟨k', hhandle, by rw [show k = k' by omega]⟩
      · cases hnone
    · rintro ⟨k, hhandle, rfl⟩
      exact .inl ⟨k, hhandle.small, (P.mem_handles _).mpr ⟨k, hhandle, rfl⟩, rfl⟩
  · obtain ⟨k, hhandle, rfl⟩ := (P.mem_handles off).mp hoff
    exact ⟨k, hhandle.small, rfl⟩

end

/-! ## The call -/

section
variable {m : NativeMethod} {p : Plan} {P : Planned m p} {m0 m1 m2 : Machine} {S : Site}

theorem Passed.called {t : Target} {target ret : UInt64}
    (hroom : WrapperRoom P.frame P.inSlots S.Free (m0.get sp) (m0.get thread)) (h : Passed P t m0 m1)
    (hc : Called [t0] target ret m1 m2) : Passed P t m0 m2 := by
  have halters : Alters [ra, t0] (fun _ => False) m1 m2 := by
    refine ⟨fun r hr => ?_, fun _ _ => by rw [hc.mem]⟩
    simp only [List.mem_cons, List.not_mem_nil, or_false, not_or] at hr
    exact hc.rest r hr.1 (by simpa using hr.2)
  have hother : ∀ r ∈ [sp, fp, thread], r ∉ [ra, t0] := by decide
  have hdst (i : Nat) (l : Location) (a : Argument) (hsent : Sent P i l a) : a.dst.reg ∉ [ra, t0] := by
    simp only [List.mem_cons, List.not_mem_nil, or_false, not_or]
    exact ⟨hsent.dst_ne (by decide) (by decide), hsent.dst_ne (by decide) (by decide)⟩
  obtain ⟨hmoved, hhanded⟩ := keep_places hroom halters hdst fun _ _ h => h
  exact ⟨h.settled.keep hroom (fun r hr => halters.regs r (hother r hr)) fun _ _ _ => by rw [hc.mem], hmoved h.moved,
    hhanded h.handed, (halters.regs _ (by decide)).trans h.environment,
    fun hstatic => (halters.regs _ (by decide)).trans (h.klass hstatic)⟩

/-- From the verified entry point the code comes to the native function, which finds everything where it expects it. -/
theorem reaches_native {moves : List Move} (ws : WrapperSite S p moves)
    (hroom : WrapperRoom P.frame P.inSlots S.Free (m0.get sp) (m0.get thread))
    (hhelp : m.isSynchronized = true → LockHelp m P.frame P.inSlots S.world S.target S.Free m0) (hstart : S.start % 2 = 0)
    (hentry : m.entry % 2 = 0) (hat : S.At ws.entry m0) : ∃ m1, S.world.Reaches m0 m1 ∧ S.Stands m1 ∧ m1.pc = m.entry ∧
      m1.get ra = S.start + UInt64.ofNat ws.returned.buf.offset ∧ Passed P S.target m0 m1 := by
  obtain ⟨m1, hreach1, ⟨hat1, hstanding, harrived⟩ | hleave⟩ :=
    does_frame (E := .none) (Q := fun _ m1 => Standing P m0 m1 ∧ Arrived P m0 m1)
    hroom (fun _ hs ha => ⟨hs, ha⟩) _ _ _ ws.frame ws.earlyEntry ws.lateFramed hat
  case inr => exact hleave.elim (·.elim) fun ⟨_, _, h⟩ => h.elim
  have hreturn : S.Binds ws.returnPc :=
    Site.Contains.binds (x := p.homeward) ⟨_, _, _, ws.back, ws.earlyReturned, ws.lateEnded⟩
  obtain ⟨m2, hreach2, ⟨hat2, hpassed⟩ | hleave⟩ :=
    does_towards (E := .none) hroom hhelp hstart hstanding harrived _ _ _ ws.towards
    ⟨hreturn, fun s hs => ws.paths s (List.mem_append_left _ hs)⟩ ws.earlyFramed ws.lateCalling
    ⟨hat1.stands, hat1.pc⟩
  case inr => exact hleave.elim (·.elim) fun ⟨_, _, h⟩ => h.elim
  have hcall := ws.call
  rw [P.method] at hcall
  obtain ⟨m3, hreach3, hcalled⟩ := Site.farCall_reaches (by decide) hentry hstart hcall ws.earlyCalling
    ws.lateReturned hat2
  refine ⟨m3, hreach1.trans (hreach2.trans hreach3), ?_, hcalled.pc, hcalled.ra, hpassed.called hroom hcalled⟩
  exact hat2.stands.keep fun x _ => by rw [hcalled.mem]

/-- A word of a frame of that many bytes holds a reference, and the map records it. -/
structure HandleAt (frame : Nat) (map : OopMap) (m : Machine) (slot : Nat) (ref : UInt64) : Prop where
  inside : 4 * slot + 8 ≤ frame
  recorded : map.Names (.stack slot)
  holds : m.at (m.get sp) (.stack slot) = ref

/-- The machine at the native function: `locs` is where the managed convention has the arguments, `natives` where the native
convention has them, behind the environment and the class. -/
structure NativeEntered (m : NativeMethod) (kinds : List ValueKind) (locs natives : List Location)
    (frame : Nat) (map : OopMap)
    (m0 m1 : Machine) : Prop where
  pc : m1.pc = m.entry
  environment : m1.get (.x 10) = m0.get thread + threadLayout.jniEnvironment.toUInt64
  values : ∀ (i : Nat) (k : ValueKind) (l d : Location), kinds[i]? = some k → k ≠ .void → k.isReference = false →
    locs[i]? = some l → natives[(leadingKinds m.isStatic).length + i]? = some d →
      k.Same (m0.at (m0.get sp) l) (m1.at (m1.get sp) d)
  /-- Every reference has a word of its own, and so has the class. -/
  references : ∃ (handle : Nat → Nat) (klass : Nat),
    (∀ (i j : Nat) (k k' : ValueKind), kinds[i]? = some k → k.isReference = true → kinds[j]? = some k' →
    k'.isReference = true →
      handle i = handle j → i = j) ∧
    (∀ (i : Nat) (k : ValueKind) (l d : Location), kinds[i]? = some k → k.isReference = true → locs[i]? = some l →
      natives[(leadingKinds m.isStatic).length + i]? = some d →
        HandleAt frame map m1 (handle i) (m0.at (m0.get sp) l) ∧
        m1.at (m1.get sp) d = if m0.at (m0.get sp) l = 0 then 0 else m1.get sp + UInt64.ofNat (4 * handle i)) ∧
    (m.isStatic = true → HandleAt frame map m1 klass m.classObject ∧
    m1.get (.x 11) = m1.get sp + UInt64.ofNat (4 * klass) ∧
      ∀ (i : Nat) (k : ValueKind), kinds[i]? = some k → k.isReference = true → handle i ≠ klass)

theorem Planned.handleWord_inj (P : Planned m p) {i j : Nat} {k k' : ValueKind} (hi : P.sig.expanded[i]? = some k)
    (href : k.isReference = true) (hj : P.sig.expanded[j]? = some k') (href' : k'.isReference = true)
    (h : handleWord P.first P.sig.expanded i = handleWord P.first P.sig.expanded j) : i = j := by
  unfold handleWord at h
  rcases Nat.lt_trichotomy i j with hlt | heq | hlt
  · have := refsBefore_lt hi href hlt
    omega
  · exact heq
  · have := refsBefore_lt hj href' hlt
    omega

theorem Planned.handleAt (P : Planned m p) {map : OopMap} (hmap : p.oopMap = .ok map) {k : Nat}
    {ref : UInt64} (hk : P.IsHandle k)
    (hsp : m1.get sp = m0.get sp - UInt64.ofNat P.frame) (hread : m1.mem.read (P.word (m0.get sp) k) 8 = ref)
    (off : Int64) :
    HandleAt P.frame (map.placed off) m1 (2 * k) ref where
  inside := by
    have := hk.inside
    have := P.linkage
    omega
  recorded := (P.names_oopMap hmap _).mpr ⟨k, hk, rfl⟩
  holds := by
    rw [← hread, Planned.word, ← hsp, show 8 * k = 4 * (2 * k) by omega]
    rfl

theorem Passed.entered {t : Target} (h : Passed P t m0 m1) (hpc : m1.pc = m.entry) {map : OopMap}
    (hmap : p.oopMap = .ok map)
    (off : Int64) : NativeEntered m P.sig.expanded P.locs P.natives P.frame (map.placed off) m0 m1 := by
  have hsp := h.settled.standing.sp
  have hdrop (i : Nat) : (P.natives.drop (leadingKinds m.isStatic).length)[i]? =
    P.natives[(leadingKinds m.isStatic).length + i]? :=
    List.getElem?_drop
  have haddr (k : Nat) : P.word (m0.get sp) k = m1.get sp + UInt64.ofNat (4 * (2 * k)) := by
    rw [Planned.word, hsp, show 8 * k = 4 * (2 * k) by omega]
  refine ⟨hpc, h.environment, fun i k l d hk hvoid href hl hd => ?_, fun i =>
    2 * handleWord P.first P.sig.expanded i, 2 * P.klass,
    fun i j k k' hk href hk' href' e => ?_, fun i k l d hk href hl hd => ?_, fun hstatic =>
      ⟨?_, ?_, fun i k hk href e => ?_⟩⟩
  · obtain ⟨a, -, rfl, rfl, hsent⟩ := P.exists_sent hk hvoid hl ((hdrop i).trans hd)
    rw [hsp]
    exact h.moved i l a hsent href
  · exact P.handleWord_inj hk href hk' href' (Nat.eq_of_mul_eq_mul_left (by decide) e)
  · have hvoid : k ≠ .void := by
      rintro rfl
      cases href
    obtain ⟨a, -, rfl, rfl, hsent⟩ := P.exists_sent hk hvoid hl ((hdrop i).trans hd)
    refine ⟨P.handleAt hmap (.inl ⟨i, l, a, hsent, href, rfl⟩) hsp (h.settled.handled.args i l a hsent href) off, ?_⟩
    rw [← haddr, hsp]
    exact h.handed i l a hsent href
  · exact P.handleAt hmap (.inr ⟨hstatic, rfl⟩) hsp (h.settled.handled.klass hstatic) off
  · rw [← haddr]
    exact h.klass hstatic
  · have habove := P.klassAbove hstatic
    have hlt := refsBefore_lt_all hk href
    have e : handleWord P.first P.sig.expanded i = P.klass := Nat.eq_of_mul_eq_mul_left (by decide) e
    unfold handleWord at e
    omega

end

theorem generate_eq_ok {t : Target} {m : NativeMethod} {base : UInt64} {w : NativeWrapper}
    (h : generate t m base = .ok w) :
    ∃ p first last, plan m = .ok p ∧ Finished base w.blob first last ∧ p.body t first = .ok (w.moves, last) ∧
      w.layout = p.layout ∧ w.nativeSig = p.nativeSig := by
  obtain ⟨p, hplan, h⟩ := except_bind_eq_ok.mp h
  obtain ⟨⟨blob, moves⟩, hgen, h⟩ := except_bind_eq_ok.mp h
  cases h
  rw [ofFault_eq_ok] at hplan
  obtain ⟨first, last, hdone, hrun⟩ := finished_generate hgen
  exact ⟨p, first, last, hplan, hdone, hrun, rfl, rfl⟩

/-- Native functions are entered with the environment, the class and all arguments in place. -/
theorem native_arguments_arrive {t : Target} {m : NativeMethod} {base : UInt64} {w : NativeWrapper} (start : UInt64)
    (h : generate t m base = .ok w) (hheld : m.Held) (hbase : base ≠ 0 → start = base) (hstart : start % 2 = 0)
    (hentry : m.entry % 2 = 0) : ∃ sig locs inSlots natives outSlots frame,
      m.sig = some sig ∧ Convention.managed.locate sig.expanded = .ok (locs, inSlots) ∧
      Convention.native.locate w.nativeSig.expanded = .ok (natives, outSlots) ∧
      w.layout.size = Int64.ofNat frame ∧ frame < 2 ^ 54 ∧ ∀ (W : World) (m0 : Machine),
      (∀ i < w.blob.code.length, W (start + UInt64.ofNat i) = none) →
        w.blob.Enters start EntryPoint.verified m0 →
        WrapperRoom frame inSlots (w.blob.Clear start) (m0.get sp) (m0.get thread) →
        (m.isSynchronized = true → LockHelp m frame inSlots W t (w.blob.Clear start) m0) →
        ∃ m1 off map, W.Reaches m0 m1 ∧ m1.get ra = start + off.toUInt64 ∧ w.blob.oopMaps.find? off = some map ∧
          NativeEntered m sig.expanded locs natives frame map m0 m1 := by
  obtain ⟨p, first, last, hplan, hdone, hbody, hlayout, hsig⟩ := generate_eq_ok h
  obtain ⟨P⟩ := planned hplan hheld
  refine ⟨P.sig, P.locs, P.inSlots, P.natives, P.outSlots, P.frame, P.hasSig,
    P.managedPlaces, by rw [hsig]; exact P.nativePlaces,
    by rw [hlayout]; exact P.size, P.small, fun W m0 hclear henters hroom hhelp => ?_⟩
  let S := hdone.site t start W hclear hbase
  have hfree : S.Free = w.blob.Clear start := funext fun addr => propext (hdone.free_iff addr)
  obtain ⟨ws⟩ := wrapper_site (S := S) hbody
  obtain ⟨m1, hreach, -, hpc, hra, hpassed⟩ :=
    reaches_native ws (by rw [hfree]; exact hroom) (by rw [hfree]; exact hhelp) hstart
    hentry (hdone.at_entry henters ws.verified)
  refine ⟨m1, Int64.ofNat ws.returned.buf.offset, _, hreach, ?_, ?_,
    hpassed.entered hpc ws.oopMap (Int64.ofNat ws.returned.buf.offset)⟩
  · rw [Int64.toUInt64_ofNat']
    exact hra
  · rw [hdone.maps]
    exact ws.recorded

/-- A static method of an object, a long and a float. -/
def passedMethod : NativeMethod where
  name := "m"
  sig := some ⟨[.object, .long, .float], .void⟩
  isStatic := true
  entry := 0x50000
  classObject := 0x3000

def passedTarget : Target := ⟨{}, .synthetic 0x20000⟩

/-- A machine with a wrapper at `0x10000` and the arguments in place. -/
def calling (code : List UInt8) (pc : UInt64) : Machine where
  x n := if n = 2 then 0x8000 else if n = 23 then 0x9000 else if n = 11 then 0x4000 else if n = 12 then
  0x123456789a else 0
  f _ := 0x3f800000
  pc
  mem := Ram.overlay (fun _ => 0) 0x10000 code

/-- The function finds the environment, its class, the object, the long and the float. -/
theorem passed_method_is_entered : ∃ w entry m1, generate passedTarget passedMethod 0 = .ok w ∧
    World.Reaches (fun _ => none) (calling w.blob.code entry) m1 ∧ m1.pc = 0x50000 ∧ m1.get (.x 10) = 0x91c8 ∧
    m1.mem.read (m1.get (.x 11)) 8 = 0x3000 ∧ m1.mem.read (m1.get (.x 12)) 8 = 0x4000 ∧ m1.get (.x 13) = 0x123456789a ∧
    (m1.get (.f 10)).toUInt32 = 0x3f800000 := by
  have hmade : (generate passedTarget passedMethod 0).toOption.any (fun w => decide (w.blob.code.length ≤ 0x1000 ∧
      w.layout.size = 48 ∧ w.nativeSig = ⟨[.address, .object, .object, .long, .float], .void⟩ ∧
      w.blob.entries.lookup EntryPoint.verified = some 0)) = true := by decide +kernel
  cases hw : generate passedTarget passedMethod 0 with
  | error e =>
    rw [hw] at hmade
    cases hmade
  | ok w =>
    rw [hw] at hmade
    obtain ⟨hsize, hlayout, hnative, hverified⟩ := of_decide_eq_true hmade
    obtain ⟨sig, locs, inSlots, natives, outSlots, frame, hsig, hlocs, hnatives, hframe, hsmall, henters⟩ :=
      native_arguments_arrive 0x10000 hw (by rintro _ ⟨⟩; decide) (absurd rfl) rfl rfl
    cases hsig
    cases hlocs
    rw [hnative] at hnatives
    cases hnatives
    obtain rfl : frame = 48 := by
      have hint := congrArg Int64.toInt (hlayout.symm.trans hframe)
      rw [Int64.toInt_ofNat_of_lt (by omega)] at hint
      exact (Int.ofNat_inj.mp hint).symm
    have hstart : (0x10000 : UInt64).toNat = 0x10000 := rfl
    have hclear {addr : UInt64} (h : addr.toNat < 0x10000) : w.blob.Clear 0x10000 addr := by
      rw [CodeBlob.clear_iff (by omega)]
      omega
    have hroom : WrapperRoom 48 0 (w.blob.Clear 0x10000) 0x8000 0x9000 :=
      ⟨by decide, by decide, fun x hx => hclear (Nat.lt_of_lt_of_le hx.2 (by decide)), by decide,
        fun x hx => hclear (Nat.lt_of_lt_of_le hx.2 (by decide)), .inr (by decide)⟩
    let m := calling w.blob.code 0x10000
    have hentered : w.blob.Enters 0x10000 EntryPoint.verified m :=
      ⟨CodeBlob.stands_overlay (by omega) rfl, 0, by rw [CodeBlob.entryOffset, hverified], rfl⟩
    obtain ⟨m1, off, map, hreach, -, -, hpc, henv, hvalues, handle, klass, -, hrefs, hklass⟩ :=
      henters (fun _ => none) m (fun _ _ => rfl) hentered hroom (by rintro ⟨⟩)
    obtain ⟨hmirror, hmirrorAt, -⟩ := hklass rfl
    obtain ⟨hobject, hobjectAt⟩ := hrefs 0 .object (.int 11) (.int 12) rfl rfl rfl rfl
    have hlong := hvalues 1 .long (.int 12) (.int 13) rfl (by simp) rfl rfl rfl
    have hfloat := hvalues 3 .float (.float 10) (.float 10) rfl (by simp) rfl rfl rfl
    refine ⟨w, _, m1, rfl, hreach, hpc, henv, ?_, ?_, hlong.symm, hfloat.symm⟩
    · rw [hmirrorAt]
      exact hmirror.holds
    · have hpassed : m1.get (.x 12) = m1.get sp + UInt64.ofNat (4 * handle 0) := hobjectAt
      rw [hpassed]
      exact hobject.holds

end NativeWrapper

end RiscvJit

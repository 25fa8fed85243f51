import RiscvJit.Proofs.Call.NativePlaces
import RiscvJit.Proofs.Lower.Compiled
import RiscvJit.Stub.NativeWrapper

/-
  RiscvJit.Proofs.Stub.WrapperPlan — where the frame of a native wrapper keeps things.

  The frame is built from the stack pointer up: outgoing arguments, a handle for every reference
  argument, the handle of the class, the lock slot, room for the result, and the linkage at its end
  (`FrameBuilder.reserve_ofNat`, `FrameBuilder.finish_ofNat`). The handle of an argument is counted
  by the references before it (`handle_at`); the argument comes from its managed place, seen from
  below the frame, and goes to its native place (`Planned`, `planned`).

  Offsets are signed words, so the list of arguments must be one that memory can hold
  (`NativeMethod.Held`).
-/

namespace RiscvJit

open Convention

/-! ## Regions of a frame -/

theorem ofNat_div_four {k : Nat} (h : k < 2 ^ 61) : Int64.ofNat (4 * k) / 4 = Int64.ofNat k := by
  apply Int64.toInt_inj.mp
  rw [Int64.toInt_div, Int64.toInt_ofNat_of_lt (by omega), Int64.toInt_ofNat_of_lt (by omega),
    show (4 : Int64).toInt = ((4 : Nat) : Int) from rfl, ← Int.ofNat_tdiv, Nat.mul_div_cancel_left k (by decide),
    Int.bmod_def]
  omega

theorem ofSlot_word {k : Nat} (hk : k < 2 ^ 58) :
    Location.ofSlot (Int64.ofNat (8 * k) / stackSlotSize) = .ok (.stack (2 * k)) := by
  have hslot : Int64.ofNat (8 * k) / stackSlotSize = Int64.ofNat (2 * k) := by
    rw [show 8 * k = 4 * (2 * k) by omega]
    exact ofNat_div_four (by omega)
  have hint : (Int64.ofNat (2 * k)).toInt = (2 * k : Nat) := Int64.toInt_ofNat_of_lt (by omega)
  have hpos : ¬ Int64.ofNat (2 * k) < 0 := by
    rw [Int64.lt_iff_toInt_lt, hint]
    exact Int.not_lt.mpr (Int.natCast_nonneg _)
  rw [hslot, Location.ofSlot, if_neg hpos, Int64.toNatClampNeg, hint]
  rfl

namespace FrameBuilder

variable {b : FrameBuilder} {n : Nat}

theorem top_padTo (off : Nat) (htop : b.top = Int64.ofNat n) (h : n ≤ off) (hsmall : off < 2 ^ 62) :
    (b.padTo (Int64.ofNat off)).top = Int64.ofNat off := by
  have hgap : Int64.ofNat off - b.top = Int64.ofNat (off - n) := by
    rw [htop, Int64.ofNat_sub off n h]
  unfold padTo
  rw [hgap]
  split
  · show b.top + Int64.ofNat (off - n) = _
    rw [htop, ← Int64.ofNat_add, Nat.add_sub_cancel' h]
  case _ hzero =>
    rw [Int64.lt_iff_toInt_lt, Int64.toInt_ofNat_of_lt (by omega)] at hzero
    have hzero : ¬ (0 : Int) < (off - n : Nat) := hzero
    rw [htop, show off = n by omega]

/-- A region of whole bytes starts at the next word. -/
theorem reserve_ofNat (name : String) (size : Nat) (htop : b.top = Int64.ofNat n) (hn : n + size < 2 ^ 61) :
    ∃ k b', b.reserve name (Int64.ofNat size) 8 = .ok (Int64.ofNat (8 * k), b') ∧ n ≤ 8 * k ∧ 8 * k < n + 8 ∧
      b'.top = Int64.ofNat (8 * k + size) := by
  have halign : alignUp b.top 8 = Int64.ofNat (8 * ((n + 7) / 8)) := by
    rw [htop, Nat.mul_comm]
    exact alignUp_ofNat (k := 3) (by decide) (by omega)
  have htop' := top_padTo (8 * ((n + 7) / 8)) htop (by omega) (by omega)
  refine ⟨(n + 7) / 8, (b.padTo (Int64.ofNat (8 * ((n + 7) / 8)))).put name (Int64.ofNat size),
    ?_, by omega, by omega, ?_⟩
  · unfold reserve
    rw [if_neg (by decide), halign]
    dsimp only
    rw [htop']
  · show _ + Int64.ofNat size = _
    rw [htop', Int64.ofNat_add]

/-- The last region ends at the size of the frame. -/
theorem finish_ofNat (name : String) (htop : b.top = Int64.ofNat n) (hn : n < 2 ^ 61) :
    ∃ k, (b.finish name 16).size = Int64.ofNat (16 * k) ∧ (b.finish name 16).slots = Int64.ofNat (16 * k / 4) ∧
      n + 16 ≤ 16 * k ∧ 16 * k < n + 32 := by
  have hsize : (b.finish name 16).size = Int64.ofNat (16 * ((n + 16 + 15) / 16)) := by
    show alignUp (b.top + 16) stackAlignment = _
    rw [htop, show Int64.ofNat n + 16 = Int64.ofNat (n + 16) from (Int64.ofNat_add ..).symm, Nat.mul_comm 16]
    exact alignUp_ofNat (k := 4) (by decide) (by omega)
  refine ⟨_, hsize, ?_, by omega, by omega⟩
  rw [FrameLayout.slots, hsize, show ∀ q, 16 * q = 4 * (4 * q) by omega, Nat.mul_div_cancel_left _ (by decide)]
  exact ofNat_div_four (by omega)

end FrameBuilder

namespace NativeWrapper

/-! ## Handles -/

/-- How many references come before a kind. -/
def refsBefore (kinds : List ValueKind) (i : Nat) : Nat := (kinds.take i).countP (·.isReference)

section
variable {kinds : List ValueKind} {srcs dsts : List Location} {handles : List (Option Int64)} {a : Argument}

variable {i : Nat} {k : ValueKind}

theorem refsBefore_lt {j : Nat} (hk : kinds[i]? = some k) (href : k.isReference = true) (hij : i < j) :
    refsBefore kinds i < refsBefore kinds j := by
  have htake : (kinds.take (i + 1)).countP (·.isReference) = refsBefore kinds i + 1 := by
    rw [List.take_add_one, hk, Option.toList_some, List.countP_append, List.countP_cons, href]
    rfl
  have hmono : (kinds.take (i + 1)).countP (·.isReference) ≤ (kinds.take j).countP (·.isReference) :=
    (List.take_sublist_take_left hij).countP_le
  show _ < (kinds.take j).countP (·.isReference)
  omega

theorem refsBefore_lt_all (hk : kinds[i]? = some k) (href : k.isReference = true) :
    refsBefore kinds i < kinds.countP (·.isReference) := by
  have hlt := refsBefore_lt hk href (List.getElem?_eq_some_iff.mp hk).1
  rwa [refsBefore, refsBefore, List.take_length] at hlt

/-- References have a handle each, one word after the other; other kinds have none. -/
theorem handle_at {n : Nat} (hk : kinds[i]? = some k) :
    (handleOffsets (Int64.ofNat (8 * n)) kinds)[i]? =
      some (if k.isReference then some (Int64.ofNat (8 * (n + refsBefore kinds i))) else none) := by
  induction kinds generalizing n i with
  | nil => cases hk
  | cons k' kinds ih =>
    have hnext : Int64.ofNat (8 * n) + 8 = Int64.ofNat (8 * (n + 1)) := by
      rw [Nat.mul_succ, Int64.ofNat_add]
      rfl
    unfold handleOffsets
    cases i with
    | zero =>
      cases hk
      split <;> rfl
    | succ i =>
      have hbefore : refsBefore (k' :: kinds) (i + 1) = refsBefore kinds i + if k'.isReference then 1 else 0 := by
        rw [refsBefore, List.take_succ_cons, List.countP_cons]
        rfl
      split
      case _ href =>
        rw [List.getElem?_cons_succ, hnext, ih hk, hbefore, if_pos href, Nat.add_assoc n, Nat.add_comm 1]
      case _ href => rw [List.getElem?_cons_succ, ih hk, hbefore, if_neg href]; rfl

/-! ## Arguments -/

theorem getElem?_of_mem_arguments (h : a ∈ arguments kinds srcs dsts handles) :
    ∃ i : Nat, kinds[i]? = some a.kind ∧ a.kind ≠ .void ∧ srcs[i]? = some a.src ∧ dsts[i]? = some a.dst ∧
      handles[i]? = some a.handle := by
  induction kinds, srcs, dsts, handles using arguments.induct with
  | case1 ks s ss d ds hd hs ih =>
    rw [arguments, if_pos rfl] at h
    obtain ⟨i, hi⟩ := ih h
    exact ⟨i + 1, hi⟩
  | case2 k ks s ss d ds hd hs hvoid ih =>
    rw [arguments, if_neg hvoid] at h
    rcases List.mem_cons.mp h with rfl | h
    · exact ⟨0, rfl, hvoid, rfl, rfl, rfl⟩
    · obtain ⟨i, hi⟩ := ih h
      exact ⟨i + 1, hi⟩
  | case3 ks ss ds hs hnot =>
    rw [arguments] at h
    · cases h
    · exact hnot

theorem mem_arguments {s d : Location} {hd : Option Int64} (hk : kinds[i]? = some k) (hvoid : k ≠ .void)
    (hs : srcs[i]? = some s) (hdst : dsts[i]? = some d) (hh : handles[i]? = some hd) :
    ⟨k, s, d, hd⟩ ∈ arguments kinds srcs dsts handles := by
  induction kinds generalizing i srcs dsts handles with
  | nil => cases hk
  | cons k' kinds ih =>
    cases srcs with
    | nil => cases hs
    | cons s' srcs =>
      cases dsts with
      | nil => cases hdst
      | cons d' dsts =>
        cases handles with
        | nil => cases hh
        | cons h' handles =>
          unfold arguments
          cases i with
          | zero =>
            cases hk
            cases hs
            cases hdst
            cases hh
            rw [if_neg hvoid]
            exact List.mem_cons_self
          | succ i =>
            have hmem := ih hk hs hdst hh
            split
            · exact hmem
            · exact List.mem_cons_of_mem _ hmem

theorem arrived_arguments (hs : srcs.length = kinds.length) (hd : dsts.length = kinds.length)
    (hh : handles.length = kinds.length) :
    (arguments kinds srcs dsts handles).map (fun a => (a.kind, a.dst)) = arrived kinds dsts := by
  induction kinds generalizing srcs dsts handles with
  | nil => rfl
  | cons k kinds ih =>
    obtain ⟨s, srcs, rfl⟩ := List.exists_cons_of_length_eq_add_one hs
    obtain ⟨d, dsts, rfl⟩ := List.exists_cons_of_length_eq_add_one hd
    obtain ⟨h', handles, rfl⟩ := List.exists_cons_of_length_eq_add_one hh
    have hrest := ih (Nat.succ.inj hs) (Nat.succ.inj hd) (Nat.succ.inj hh)
    unfold arguments
    split
    case _ hk => rw [hk, arrived_void, hrest]
    case _ hk => rw [arrived_cons hk, List.map_cons, hrest]

end

/-! ## Plans -/

/-- A place of the caller, seen from below a frame of that many bytes. -/
def lowered (frame : Nat) : Location → Location
  | .stack slot => .stack (slot + frame / 4)
  | l => l

theorem incoming_eq {frame : Nat} {l : Location} (hl : ∀ slot, l = .stack slot → slot + frame / 4 < 2 ^ 62) :
    incoming (Int64.ofNat (frame / 4)) l = .ok (lowered frame l) := by
  cases l with
  | stack slot =>
    have hsmall := hl slot rfl
    have hslot : Int64.ofNat slot + Int64.ofNat (frame / 4) = Int64.ofNat (slot + frame / 4) := (Int64.ofNat_add ..).symm
    have hint : (Int64.ofNat (slot + frame / 4)).toInt = (slot + frame / 4 : Nat) := Int64.toInt_ofNat_of_lt (by omega)
    have hpos : ¬ Int64.ofNat (slot + frame / 4) < 0 := by
      rw [Int64.lt_iff_toInt_lt, hint]
      exact Int.not_lt.mpr (Int.natCast_nonneg _)
    show Location.ofSlot (Int64.ofNat slot + Int64.ofNat (frame / 4)) = _
    rw [hslot, Location.ofSlot, if_neg hpos, Int64.toNatClampNeg, hint]
    rfl
  | _ => rfl

theorem getElem?_mapM {α β ε : Type} {f : α → Except ε β} {xs : List α} {ys : List β} (h : xs.mapM f = .ok ys) :
    ys.length = xs.length ∧ ∀ (i : Nat) (x : α), xs[i]? = some x → ∃ y, ys[i]? = some y ∧ f x = .ok y := by
  induction xs generalizing ys with
  | nil =>
    cases h
    exact ⟨rfl, nofun⟩
  | cons x xs ih =>
    rw [List.mapM_cons] at h
    obtain ⟨y, hy, h⟩ := except_bind_eq_ok.mp h
    obtain ⟨ys', hys, e⟩ := except_bind_eq_ok.mp h
    cases e
    obtain ⟨hlen, hat⟩ := ih hys
    refine ⟨congrArg Nat.succ hlen, fun i x' hi => ?_⟩
    cases i with
    | zero =>
      cases hi
      exact ⟨y, rfl, hy⟩
    | succ i => exact hat i x' hi

/-- A plan that was made, with the words of its frame. -/
structure Planned (m : NativeMethod) (p : Plan) where
  sig : Signature
  locs : List Location
  inSlots : Nat
  srcs : List Location
  natives : List Location
  outSlots : Nat
  /-- The word of the first handle. -/
  first : Nat
  /-- The word of the handle of the class. -/
  klass : Nat
  /-- The first word of the lock slot. -/
  lock : Nat
  /-- The first word of the room for the result. -/
  temp : Nat
  /-- The bytes of the frame. -/
  frame : Nat
  method : p.method = m
  hasSig : m.sig = some sig
  planSig : p.sig = sig
  receiver : m.isStatic = false → (sig.args.head?.map (·.isReference)).getD false = true
  nativeArgs : p.nativeSig.args = leadingKinds m.isStatic ++ sig.args
  managedPlaces : managed.locate sig.expanded = .ok (locs, inSlots)
  nativePlaces : native.locate p.nativeSig.expanded = .ok (natives, outSlots)
  sources : locs.mapM (incoming (Int64.ofNat (frame / 4))) = .ok srcs
  args : p.args = arguments sig.expanded srcs (natives.drop (leadingKinds m.isStatic).length)
    (handleOffsets (Int64.ofNat (8 * first)) sig.expanded)
  size : p.layout.size = Int64.ofNat frame
  classHandle : p.classHandle = if m.isStatic then some (Int64.ofNat (8 * klass)) else none
  lockSlot : p.lockSlot = if m.isSynchronized then some (Int64.ofNat (8 * lock)) else none
  resultTemp : p.resultTemp = Int64.ofNat (8 * temp)
  few : sig.expanded.length ≤ 2 ^ 49
  outgoing : 4 * outSlots ≤ 8 * first
  klassAbove : m.isStatic = true → first + sig.expanded.countP (·.isReference) ≤ klass
  lockAbove : m.isSynchronized = true → first + sig.expanded.countP (·.isReference) ≤ lock ∧
    (m.isStatic = true → klass + 1 ≤ lock)
  tempAbove : first + sig.expanded.countP (·.isReference) ≤ temp ∧ (m.isStatic = true → klass + 1 ≤ temp) ∧
    (m.isSynchronized = true → lock + 2 ≤ temp)
  linkage : 8 * temp + 32 ≤ frame
  whole : frame % 16 = 0
  small : frame < 2 ^ 54

end NativeWrapper

/-- The arguments of the method are a list that memory can hold. -/
def NativeMethod.Held (m : NativeMethod) : Prop :=
  ∀ sig, m.sig = some sig → (sig.args.length : Int) ≤ CodeBuffer.capacityLimit

namespace NativeWrapper

theorem length_expanded (sig : Signature) : sig.expanded.length ≤ 2 * sig.args.length := by
  have (ks : List ValueKind) : (ks.flatMap Signature.expandKind).length ≤ 2 * ks.length := by
    induction ks with
    | nil => exact Nat.le_refl _
    | cons k ks ih =>
      have : (Signature.expandKind k).length ≤ 2 := by
        unfold Signature.expandKind
        split <;> simp
      rw [List.flatMap_cons, List.length_append, List.length_cons]
      omega
  exact this sig.args

variable {m : NativeMethod}

theorem checkMethod_eq_ok {sig : Signature} (h : checkMethod m = .ok sig) :
    m.sig = some sig ∧ (m.isStatic = false → (sig.args.head?.map (·.isReference)).getD false = true) := by
  unfold checkMethod at h
  split at h
  · cases h
  case _ sig' hsig =>
    obtain ⟨_, hreceiver, h⟩ := except_bind_eq_ok.mp h
    obtain ⟨_, -, h⟩ := except_bind_eq_ok.mp h
    cases h
    refine ⟨hsig, fun hstatic => ?_⟩
    have := check_eq_ok.mp hreceiver
    rwa [hstatic, Bool.false_or] at this

theorem make_eq_ok {ret : ValueKind} {args : List ValueKind} {sig : Signature} (h : Signature.make ret args = .ok sig) :
    sig = ⟨args, ret⟩ := by
  unfold Signature.make at h
  split at h
  · cases h
  · cases h
    rfl

/-- A region that may be left out. -/
theorem reserveIf_ofNat {b b' : FrameBuilder} {n : Nat} (size : Nat) {name : String} {wanted : Bool} {o : Option Int64}
    (htop : b.top = Int64.ofNat n) (hn : n + size < 2 ^ 61)
    (h : reserveIf b wanted name (Int64.ofNat size) = .ok (o, b')) :
    ∃ k n', o = (if wanted then some (Int64.ofNat (8 * k)) else none) ∧ b'.top = Int64.ofNat n' ∧ n ≤ n' ∧
      n' < n + 8 + size ∧ (wanted = true → n ≤ 8 * k ∧ 8 * k + size ≤ n') := by
  unfold reserveIf at h
  cases wanted with
  | true =>
    obtain ⟨k, b1, hreserve, hlo, hhi, htop'⟩ := FrameBuilder.reserve_ofNat name size htop hn
    rw [if_pos rfl, hreserve] at h
    cases h
    exact ⟨k, 8 * k + size, rfl, htop', by omega, by omega, fun _ => ⟨hlo, Nat.le_refl _⟩⟩
  | false =>
    cases h
    exact ⟨0, n, rfl, htop, Nat.le_refl _, by omega, fun e => absurd e Bool.false_ne_true⟩

theorem slotBytes_ofNat (n : Nat) : Location.slotBytes n = Int64.ofNat (4 * n) := by
  rw [Location.slotBytes, Nat.mul_comm, Int64.ofNat_mul]
  rfl

theorem planned {p : Plan} (h : plan m = .ok p) (hheld : m.Held) : Nonempty (Planned m p) := by
  obtain ⟨sig, hcheck, h⟩ := except_bind_eq_ok.mp h
  obtain ⟨nativeSig, hmake, h⟩ := except_bind_eq_ok.mp h
  obtain ⟨⟨locs, inSlots⟩, hmanaged, h⟩ := except_bind_eq_ok.mp h
  obtain ⟨⟨natives, outSlots⟩, hnative, h⟩ := except_bind_eq_ok.mp h
  obtain ⟨⟨_, b1⟩, hout, h⟩ := except_bind_eq_ok.mp h
  obtain ⟨⟨handleBase, b2⟩, hhandles, h⟩ := except_bind_eq_ok.mp h
  obtain ⟨⟨classHandle, b3⟩, hklass, h⟩ := except_bind_eq_ok.mp h
  obtain ⟨⟨lockSlot, b4⟩, hlock, h⟩ := except_bind_eq_ok.mp h
  obtain ⟨⟨resultTemp, b5⟩, htemp, h⟩ := except_bind_eq_ok.mp h
  obtain ⟨srcs, hsrcs, h⟩ := except_bind_eq_ok.mp h
  cases h
  obtain ⟨hsig, hreceiver⟩ := checkMethod_eq_ok hcheck
  cases make_eq_ok hmake
  -- all numbers are small
  have hheld : sig.args.length ≤ 2 ^ 48 := by
    have := hheld sig hsig
    unfold CodeBuffer.capacityLimit at this
    omega
  have hfew : sig.expanded.length ≤ 2 ^ 49 := by
    have := length_expanded sig
    omega
  have hrefs : sig.expanded.countP (·.isReference) ≤ sig.expanded.length := List.countP_le_length
  have hslots : outSlots ≤ 2 * (2 * (sig.args.length + 2)) := by
    have hplaced := (placed_locate hnative).few
    have hlength := length_expanded ⟨leadingKinds m.isStatic ++ sig.args, sig.ret⟩
    have hleading : (leadingKinds m.isStatic).length ≤ 2 := by unfold leadingKinds; split <;> decide
    rw [show native.supply.slot = 0 from rfl, show slotsPerWord = 2 from rfl] at hplaced
    rw [List.length_append] at hlength
    omega
  -- the regions, one above the other
  rw [slotBytes_ofNat] at hout
  obtain ⟨k1, b1', hreserve, hlo1, hhi1, htop1⟩ := FrameBuilder.reserve_ofNat (b := {}) (n := 0)
    FrameRegion.outgoingArgs (4 * outSlots) rfl (by omega)
  rw [hreserve] at hout
  cases hout
  rw [show Int64.ofNat (sig.expanded.countP (·.isReference)) * 8 = Int64.ofNat
    (sig.expanded.countP (·.isReference) * 8) from
    (Int64.ofNat_mul ..).symm] at hhandles
  obtain ⟨first, b2', hreserve, hlo2, hhi2, htop2⟩ := FrameBuilder.reserve_ofNat
    FrameRegion.oopHandles (sig.expanded.countP (·.isReference) * 8) htop1 (by omega)
  rw [hreserve] at hhandles
  cases hhandles
  obtain ⟨klass, n3, rfl, htop3, hlo3, hhi3, hklass⟩ := reserveIf_ofNat 8 htop2 (by omega) hklass
  obtain ⟨lock, n4, rfl, htop4, hlo4, hhi4, hlock⟩ := reserveIf_ofNat 16 htop3 (by omega) hlock
  obtain ⟨temp, b5', hreserve, hlo5, hhi5, htop5⟩ := FrameBuilder.reserve_ofNat FrameRegion.resultTemp 16
    htop4 (by omega)
  rw [show (16 : Int64) = Int64.ofNat 16 from rfl, hreserve] at htemp
  cases htemp
  obtain ⟨q, hsize, hslots, hlo, hhi⟩ := FrameBuilder.finish_ofNat FrameRegion.linkage htop5 (by omega)
  rw [hslots] at hsrcs
  refine ⟨⟨sig, locs, inSlots, srcs, natives, outSlots, first, klass, lock, temp, 16 * q, rfl, hsig,
    rfl, hreceiver, rfl, hmanaged, hnative, hsrcs, rfl, hsize, rfl, rfl, rfl,
    hfew, by omega, fun hstatic => ?_, fun hsync => ⟨?_, fun hstatic => ?_⟩,
    ⟨by omega, fun hstatic => ?_, fun hsync => ?_⟩, by omega, by omega, by omega⟩⟩
  · have := hklass hstatic
    omega
  · have := hlock hsync
    omega
  · have := hklass hstatic
    have := hlock hsync
    omega
  · have := hklass hstatic
    omega
  · have := hlock hsync
    omega

/-! ## Where arguments come from and go to -/

/-- The reference is the one of that number, among those of the method. -/
def handleWord (first : Nat) (kinds : List ValueKind) (i : Nat) : Nat := first + refsBefore kinds i

/-- An argument of the plan, by its number in the list of kinds. -/
structure Sent {m : NativeMethod} {p : Plan} (P : Planned m p) (i : Nat) (l : Location) (a : Argument) : Prop where
  kind : P.sig.expanded[i]? = some a.kind
  real : a.kind ≠ .void
  place : P.locs[i]? = some l
  src : a.src = lowered P.frame l
  dst : (P.natives.drop (leadingKinds m.isStatic).length)[i]? = some a.dst
  handle : a.handle = if a.kind.isReference then some (Int64.ofNat (8 * handleWord P.first P.sig.expanded i)) else none

theorem mem_arrived {kinds : List ValueKind} {locs : List Location} {i : Nat} {k : ValueKind} {l : Location}
    (hk : kinds[i]? = some k) (hl : locs[i]? = some l) (hvoid : k ≠ .void) : (k, l) ∈ arrived kinds locs :=
  List.mem_filter.mpr ⟨List.mem_of_getElem? (List.getElem?_zip_eq_some.mpr ⟨hk, hl⟩), decide_eq_true hvoid⟩

namespace Planned

variable {m : NativeMethod} {p : Plan} (P : Planned m p)
include P

variable {i : Nat} {k : ValueKind} {l : Location}

/-- Managed places on the stack are few. -/
theorem slot_lt {slot : Nat} (hk : P.sig.expanded[i]? = some k) (hvoid : k ≠ .void)
    (hl : P.locs[i]? = some (.stack slot)) :
    slot + 2 ≤ P.inSlots ∧ P.inSlots ≤ 2 ^ 50 := by
  have hplaced := placed_locate P.managedPlaces
  have hgiven := hplaced.given _ (mem_arrived hk hl hvoid)
  have hfew := hplaced.few
  have := P.few
  rw [show managed.supply.slot = 0 from rfl, show slotsPerWord = 2 from rfl] at hfew
  exact ⟨hgiven.2, by omega⟩

theorem lowered_src {s : Location} (hk : P.sig.expanded[i]? = some k) (hvoid : k ≠ .void) (hl : P.locs[i]? = some l)
    (hs : P.srcs[i]? = some s) : s = lowered P.frame l := by
  obtain ⟨y, hy, hin⟩ := (getElem?_mapM P.sources).2 i l hl
  rw [hs] at hy
  cases hy
  have hsmall := P.small
  rw [incoming_eq fun slot hslot => ?_] at hin
  · exact (Except.ok.inj hin).symm
  · have := P.slot_lt hk hvoid (hslot ▸ hl)
    omega

theorem getElem?_handle (hk : P.sig.expanded[i]? = some k) :
    (handleOffsets (Int64.ofNat (8 * P.first)) P.sig.expanded)[i]? =
      some (if k.isReference then some (Int64.ofNat (8 * handleWord P.first P.sig.expanded i)) else none) := handle_at hk

/-- Every argument of the plan is one of the method. -/
theorem sent {a : Argument} (ha : a ∈ p.args) : ∃ i l, Sent P i l a := by
  rw [P.args] at ha
  obtain ⟨i, hk, hvoid, hs, hd, hh⟩ := getElem?_of_mem_arguments ha
  have hlength := (getElem?_mapM P.sources).1
  have hi : i < P.locs.length := by
    have := (List.getElem?_eq_some_iff.mp hs).1
    omega
  have hl := List.getElem?_eq_getElem hi
  refine ⟨i, _, hk, hvoid, hl, P.lowered_src hk hvoid hl hs, hd, ?_⟩
  rw [P.getElem?_handle hk] at hh
  exact (Option.some.inj hh).symm

/-- Every argument of the method is one of the plan. -/
theorem exists_sent {d : Location} (hk : P.sig.expanded[i]? = some k) (hvoid : k ≠ .void) (hl : P.locs[i]? = some l)
    (hd : (P.natives.drop (leadingKinds m.isStatic).length)[i]? = some d) :
    ∃ a ∈ p.args, a.kind = k ∧ a.dst = d ∧ Sent P i l a := by
  obtain ⟨s, hs, -⟩ := (getElem?_mapM P.sources).2 i l hl
  have hmem := mem_arguments hk hvoid hs hd (P.getElem?_handle hk)
  rw [← P.args] at hmem
  exact ⟨_, hmem, rfl, rfl, hk, hvoid, hl, P.lowered_src hk hvoid hl hs, hd, rfl⟩

/-- What is left of the native registers behind the environment and the class. -/
def nativeSupply (isStatic : Bool) : Supply :=
  ⟨native.intArgs.drop (leadingKinds isStatic).length, native.floatArgs, 0⟩

omit P in
theorem expanded_leading (isStatic : Bool) (sig : Signature) (ret : ValueKind) :
    (⟨leadingKinds isStatic ++ sig.args, ret⟩ : Signature).expanded = leadingKinds isStatic ++ sig.expanded := by
  cases isStatic <;> rfl

/-- The arguments of the method get their native places behind those of the environment and the class. -/
theorem nativeRest : ∃ j prev, native.assignFrom j prev (nativeSupply m.isStatic) P.sig.expanded =
    .ok (P.natives.drop (leadingKinds m.isStatic).length, P.outSlots) := by
  have hplaces := P.nativePlaces
  have hexpanded : p.nativeSig.expanded = leadingKinds m.isStatic ++ P.sig.expanded := by
    rw [Signature.expanded, P.nativeArgs]
    exact expanded_leading m.isStatic P.sig P.sig.ret
  rw [hexpanded, locate] at hplaces
  cases hstatic : m.isStatic with
  | false =>
    rw [hstatic] at hplaces
    obtain ⟨rest, hnatives, hrest, -⟩ := assignFrom_cons hplaces
    rw [hnatives]
    exact ⟨_, _, hrest⟩
  | true =>
    rw [hstatic] at hplaces
    obtain ⟨rest, hnatives, hrest, -⟩ := assignFrom_cons hplaces
    obtain ⟨rest', hrest', hlast, -⟩ := assignFrom_cons hrest
    rw [hnatives, hrest']
    exact ⟨_, _, hlast⟩

omit P in
theorem trails (m : NativeMethod) : Trails managed.supply (nativeSupply m.isStatic) :=
  ⟨rfl, (leadingKinds m.isStatic).length, 0, by cases m.isStatic <;> decide, rfl, rfl⟩

omit P in
theorem sound_nativeSupply (isStatic : Bool) : (nativeSupply isStatic).Sound := by
  cases isStatic <;> exact ⟨by decide, by decide⟩

theorem places {a : Argument} (h : Sent P i l a) :
    managed.supply.Gives P.inSlots l ∧ (nativeSupply m.isStatic).Gives P.outSlots a.dst ∧ Rises l a.dst := by
  obtain ⟨j, prev, hrest⟩ := P.nativeRest
  refine ⟨?_, ?_, ?_⟩
  · exact (placed_locate P.managedPlaces).given _ (mem_arrived h.kind h.place h.real)
  · exact (placed_assignFrom hrest).given _ (mem_arrived h.kind h.dst h.real)
  · exact rises_assignFrom P.managedPlaces hrest (trails m) i l a.dst h.place h.dst

theorem dst_apart : p.args.Pairwise fun a b => b.dst.aliases a.dst = false := by
  obtain ⟨j, prev, hrest⟩ := P.nativeRest
  have hplaced := placed_assignFrom hrest
  have hapart := hplaced.apart (sound_nativeSupply _)
  have hlength : (handleOffsets (Int64.ofNat (8 * P.first)) P.sig.expanded).length = P.sig.expanded.length := by
    have hall (kinds : List ValueKind) (next : Int64) : (handleOffsets next kinds).length = kinds.length := by
      induction kinds generalizing next with
      | nil => rfl
      | cons k kinds ih =>
        unfold handleOffsets
        split
        · exact congrArg Nat.succ (ih _)
        · exact congrArg Nat.succ (ih _)
    exact hall _ _
  have hsrcs : P.srcs.length = P.sig.expanded.length := by
    rw [(getElem?_mapM P.sources).1, (placed_locate P.managedPlaces).length]
  rw [← arrived_arguments hsrcs hplaced.length hlength, ← P.args] at hapart
  exact List.pairwise_map.mp hapart

theorem handles_ascend : p.args.Pairwise fun a b => ∀ x y, a.handle = some x → b.handle = some y → x.toInt < y.toInt := by
  have hascend (kinds : List ValueKind) (n : Nat) (hn : n + kinds.length < 2 ^ 59) :
      (∀ x, some x ∈ handleOffsets (Int64.ofNat (8 * n)) kinds → (8 * n : Int) ≤ x.toInt) ∧
        (handleOffsets (Int64.ofNat (8 * n)) kinds).Pairwise fun h h' => ∀ x y, h = some x → h' = some y →
        x.toInt < y.toInt := by
    induction kinds generalizing n with
    | nil => exact ⟨nofun, .nil⟩
    | cons k kinds ih =>
      rw [List.length_cons] at hn
      have hnext : Int64.ofNat (8 * n) + 8 = Int64.ofNat (8 * (n + 1)) := by
        rw [Nat.mul_succ, Int64.ofNat_add]
        rfl
      have hint : (Int64.ofNat (8 * n)).toInt = 8 * n := Int64.toInt_ofNat_of_lt (by omega)
      unfold handleOffsets
      split
      · obtain ⟨hle, hrest⟩ := ih (n + 1) (by omega)
        rw [hnext]
        refine ⟨fun x hx => ?_, .cons (fun h hh x y hx hy => ?_) hrest⟩
        · rcases List.mem_cons.mp hx with hx | hx
          · cases hx
            exact Int.le_of_eq hint.symm
          · have := hle x hx
            omega
        · cases hx
          have := hle y (hy ▸ hh)
          omega
      · obtain ⟨hle, hrest⟩ := ih n (by omega)
        refine ⟨fun x hx => hle x ((List.mem_cons.mp hx).resolve_left nofun), .cons (fun h hh x y hx => nomatch hx) hrest⟩
  have hsub (kinds : List ValueKind) (srcs dsts : List Location) (hs : List (Option Int64)) :
      ((arguments kinds srcs dsts hs).map (·.handle)).Sublist hs := by
    induction kinds, srcs, dsts, hs using arguments.induct with
    | case1 ks s ss d ds h hs ih =>
      rw [arguments, if_pos rfl]
      exact ih.cons _
    | case2 k ks s ss d ds h hs hvoid ih =>
      rw [arguments, if_neg hvoid]
      exact ih.cons_cons _
    | case3 ks ss ds hs hnot =>
      rw [arguments]
      · exact List.nil_sublist _
      · exact hnot
  have hsmall := P.small
  have hfew := P.few
  have hfirst := P.tempAbove.1
  have htemp := P.linkage
  have h := (hascend P.sig.expanded P.first (by omega)).2.sublist
    (hsub P.sig.expanded P.srcs (P.natives.drop (leadingKinds m.isStatic).length) _)
  rw [← P.args] at h
  exact List.pairwise_map.mp h

end Planned

end NativeWrapper

end RiscvJit

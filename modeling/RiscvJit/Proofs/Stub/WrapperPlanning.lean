import RiscvJit.Proofs.Call.Arrangement
import RiscvJit.Proofs.Call.Grammar
import RiscvJit.Proofs.Stub.WrapperArguments

/-
  RiscvJit.Proofs.Stub.WrapperPlanning — the methods of descriptors have plans.

  The kinds of a descriptor can be passed, so both conventions find places for them
  (`passed_expanded`), and the regions of a frame follow each other (`plan_described`). All that a
  wrapper computes from its plan is there, too: the map of its handles, which lie in the frame
  (`Planned.oopMap`), and an order of its moves (`Planned.orderedMoves`). Arguments arrive at places
  of their own and go to places of their own, none of which is the register that breaks cycles.
-/

namespace RiscvJit

open MoveSolver
open Convention

/-! ## Kinds of descriptors -/

/-- A kind that can be an argument in both conventions. -/
structure ValueKind.Passable (k : ValueKind) : Prop where
  void : k ≠ .void
  metadata : k ≠ .metadata
  named : ∀ code, k ≠ .unknown code

theorem ValueKind.passable_object : ValueKind.object.Passable := ⟨nofun, nofun, nofun⟩

theorem ValueKind.passable_array : ValueKind.array.Passable := ⟨nofun, nofun, nofun⟩

namespace Descriptor

theorem toList_loop (b : ByteArray) (i : Nat) (r : List UInt8) :
    ByteArray.toList.loop b i r = r.reverse ++ b.data.toList.drop i := by
  induction i, r using ByteArray.toList.loop.induct b with
  | case1 i r hlt ih =>
    have hlt' : i < b.data.toList.length := hlt
    have hget : b.get! i = b.data.toList[i] := by
      show b.data[i]! = _
      rw [getElem!_pos b.data i hlt, Array.getElem_toList]
    rw [ByteArray.toList.loop, if_pos hlt, ih, List.drop_eq_getElem_cons hlt', hget, List.reverse_cons, List.append_assoc]
    rfl
  | case2 i r hge =>
    rw [ByteArray.toList.loop, if_neg hge, List.drop_eq_nil_of_le (Nat.le_of_not_lt hge), List.append_nil]

/-- A descriptor is read byte by byte. -/
theorem parse_of_bytes {desc : String} {isStatic : Bool} {sig : Signature}
    (h : parseBytes desc.toUTF8.data.toList isStatic = .ok sig) :
    parse desc isStatic = .ok sig := by
  rw [parse, show desc.toUTF8.toList = desc.toUTF8.data.toList from toList_loop desc.toUTF8 0 [], h]

variable {bytes : List UInt8}

theorem passable_element {k : ValueKind} (h : Element bytes k) : k.Passable := by
  cases h with
  | letter h =>
    have hall : ∀ p ∈ letters, p.2 ≠ .void ∧ p.2 ≠ .metadata ∧ ∀ code, p.2 ≠ .unknown code := by
      simp [letters]
    obtain ⟨hvoid, hmetadata, hnamed⟩ := hall _ h
    exact ⟨hvoid, hmetadata, hnamed⟩
  | named h => exact ValueKind.passable_object

theorem passable_fieldTypes {ks : List ValueKind} (h : FieldTypes bytes ks) : ∀ k ∈ ks, k.Passable := by
  induction h with
  | nil => exact nofun
  | cons hfield hfields ih =>
    refine List.forall_mem_cons.mpr ⟨?_, ih⟩
    cases hfield with
    | element h => exact passable_element h
    | array more h => exact ValueKind.passable_array

theorem passable_describes {ks : List ValueKind} {ret : ValueKind} (h : Describes bytes ks ret) :
    ∀ k ∈ ks, k.Passable := by
  cases h with
  | mk hfields => exact passable_fieldTypes hfields

/-- Arguments of a descriptor can be passed, and an instance method has a receiver. -/
theorem passable_parse {desc : String} {isStatic : Bool} {sig : Signature} (h : parse desc isStatic = .ok sig) :
    (∀ k ∈ sig.args, k.Passable) ∧ (isStatic = false → sig.args.head? = some .object) := by
  unfold parse at h
  split at h
  case _ sig' hbytes =>
    cases h
    obtain ⟨ks, hdescribes, hargs⟩ := parseBytes_eq_ok.mp hbytes
    have hpassable := passable_describes hdescribes
    rw [hargs]
    cases isStatic with
    | true => exact ⟨hpassable, fun e => absurd e Bool.noConfusion⟩
    | false => exact ⟨List.forall_mem_cons.mpr ⟨ValueKind.passable_object, hpassable⟩, fun _ => rfl⟩
  case _ => cases h

end Descriptor

/-! ## Places -/

namespace Convention

variable {c : Convention}

/-- Kinds that can be passed are passed by both conventions, each double word with its void half. -/
theorem passed_expanded {args : List ValueKind} (h : ∀ k ∈ args, k.Passable) (prev : Option ValueKind) :
    c.Passed prev (args.flatMap Signature.expandKind) := by
  have hkinds {k : ValueKind} (hk : k ∈ args.flatMap Signature.expandKind) : k = .void ∨ k.Passable := by
    obtain ⟨k', hk', hmem⟩ := List.mem_flatMap.mp hk
    unfold Signature.expandKind at hmem
    split at hmem
    · rcases List.mem_cons.mp hmem with rfl | hmem
      · exact .inr (h k hk')
      · exact .inl (List.mem_singleton.mp hmem)
    · exact .inr (List.mem_singleton.mp hmem ▸ h k' hk')
  refine ⟨fun k hk code => ?_, ?_, fun _ hmem => ?_⟩
  · rcases hkinds hk with rfl | hk
    · intro e
      cases e
    · exact hk.named code
  · clear hkinds
    induction args generalizing prev with
    | nil => trivial
    | cons k args ih =>
      have hrest := ih fun k' hk' => h k' (List.mem_cons_of_mem _ hk')
      have hvoid : k ≠ .void := (h k List.mem_cons_self).void
      rw [List.flatMap_cons, Signature.expandKind]
      split
      case _ hdouble => exact ⟨fun _ => rfl, fun e => absurd e hvoid, fun e => (by cases e),
        fun _ => by simpa using hdouble, hrest _⟩
      case _ hsingle => exact ⟨fun hd => absurd hd hsingle, fun e => absurd e hvoid, hrest _⟩
  · rcases hkinds hmem with e | hk
    · cases e
    · exact hk.metadata rfl

theorem nowhere_of_void {i : Nat} {prev : Option ValueKind} {s : Supply} {kinds : List ValueKind}
    {locs : List Location} {n : Nat}
    (h : c.assignFrom i prev s kinds = .ok (locs, n)) {j : Nat} (hj : kinds[j]? = some .void) : locs[j]? = some
    .nowhere := by
  induction kinds generalizing i prev s locs j with
  | nil => cases hj
  | cons k kinds ih =>
    obtain ⟨rest, rfl, hrest, -⟩ := assignFrom_cons h
    cases j with
    | zero =>
      cases hj
      rfl
    | succ j => exact ih hrest hj

/-- Places on the stack are among the slots that are used. -/
theorem stack_locate {kinds : List ValueKind} {locs : List Location} {n slot : Nat} (h : c.locate kinds = .ok (locs, n))
    (hslot : .stack slot ∈ locs) : slot + slotsPerWord ≤ n := by
  have hplaced := placed_locate h
  obtain ⟨j, hj⟩ := List.getElem?_of_mem hslot
  obtain ⟨k, hk⟩ : ∃ k, kinds[j]? = some k :=
    ⟨_, List.getElem?_eq_getElem (hplaced.length ▸ (List.getElem?_eq_some_iff.mp hj).1)⟩
  have hreal : k ≠ .void := by
    rintro rfl
    rw [nowhere_of_void h hk] at hj
    cases hj
  exact (hplaced.given _ (NativeWrapper.mem_arrived hk hj hreal)).2

end Convention

/-! ## Plans -/

variable {ε α β : Type} {f : α → Except ε β}

/-- What a sequence of checks makes, made of what each of them makes. -/
theorem exists_bind {x : Except ε α} {a : α} (hx : x = .ok a) (hf : ∃ r, f a = .ok r) : ∃ r, (x >>= f) = .ok r := by
  rw [hx]
  exact hf

theorem exists_bind_such {x : Except ε α} {a : α} {Q : β → Prop} (hx : x = .ok a) (hf : ∃ r, f a = .ok r ∧ Q r) :
    ∃ r, (x >>= f) = .ok r ∧ Q r := by
  rw [hx]
  exact hf

theorem exists_mapM {xs : List α} (h : ∀ x ∈ xs, ∃ y, f x = .ok y) : ∃ ys, xs.mapM f = .ok ys := by
  induction xs with
  | nil => exact ⟨[], rfl⟩
  | cons x xs ih =>
    obtain ⟨y, hy⟩ := h x List.mem_cons_self
    obtain ⟨ys, hys⟩ := ih fun x' hx' => h x' (List.mem_cons_of_mem _ hx')
    rw [List.mapM_cons]
    exact exists_bind hy (exists_bind hys ⟨_, rfl⟩)

/-- A method whose signature was read from a descriptor of at most 255 parameter slots, and whose native
function is somewhere. -/
structure NativeMethod.Described (m : NativeMethod) (sig : Signature) : Prop where
  read : ∃ desc, Descriptor.parse desc m.isStatic = .ok sig
  hasSig : m.sig = some sig
  slots : sig.parameterSlots ≤ 255
  entry : m.entry ≠ 0

namespace NativeMethod.Described

variable {m : NativeMethod} {sig : Signature} (h : m.Described sig)
include h

theorem passable : ∀ k ∈ sig.args, k.Passable := by
  obtain ⟨desc, hread⟩ := h.read
  exact (Descriptor.passable_parse hread).1

theorem receiver (hstatic : m.isStatic = false) : sig.args.head? = some .object := by
  obtain ⟨desc, hread⟩ := h.read
  exact (Descriptor.passable_parse hread).2 hstatic

/-- Every argument takes a slot, and the places of the arguments are as many as the slots. -/
theorem few : sig.args.length ≤ sig.parameterSlots ∧ sig.expanded.length = sig.parameterSlots := by
  have hslots (args : List ValueKind) (hargs : ∀ k ∈ args, k.Passable) (n : Nat) :
      n + args.length ≤ args.foldl (fun n k => n + k.slots) n ∧
        n + (args.flatMap Signature.expandKind).length = args.foldl (fun n k => n + k.slots) n := by
    induction args generalizing n with
    | nil => exact ⟨Nat.le_refl _, rfl⟩
    | cons k args ih =>
      have hk : 1 ≤ k.slots ∧ (Signature.expandKind k).length = k.slots := by
        have hk := hargs k List.mem_cons_self
        cases k with
        | void => exact absurd rfl hk.void
        | unknown code => exact absurd rfl (hk.named code)
        | _ => decide
      have hrest := ih (fun k' hk' => hargs k' (List.mem_cons_of_mem _ hk')) (n + k.slots)
      rw [List.length_cons, List.foldl_cons, List.flatMap_cons, List.length_append]
      omega
  have hall := hslots sig.args h.passable 0
  rw [Nat.zero_add, Nat.zero_add] at hall
  exact hall

theorem held : m.Held := by
  intro sig' hsig
  rw [h.hasSig] at hsig
  cases hsig
  have := h.few.1
  have := h.slots
  unfold CodeBuffer.capacityLimit
  omega

end NativeMethod.Described

namespace NativeWrapper

theorem checkMethod_described {m : NativeMethod} {sig : Signature} (h : m.Described sig) : checkMethod m = .ok sig := by
  have hreceiver : (m.isStatic || (sig.args.head?.map (·.isReference)).getD false) = true := by
    cases hstatic : m.isStatic with
    | true => rfl
    | false =>
      rw [h.receiver hstatic]
      rfl
  unfold checkMethod
  rw [h.hasSig]
  dsimp only
  rw [hreceiver, decide_eq_true h.entry]
  rfl

theorem passable_leading (isStatic : Bool) : ∀ k ∈ leadingKinds isStatic, k.Passable := by
  intro k hk
  cases isStatic with
  | false =>
    rw [List.mem_singleton.mp hk]
    exact ⟨nofun, nofun, nofun⟩
  | true =>
    rcases List.mem_cons.mp hk with rfl | hk
    · exact ⟨nofun, nofun, nofun⟩
    · rw [List.mem_singleton.mp hk]
      exact ⟨nofun, nofun, nofun⟩

theorem make_passable {args : List ValueKind} (h : ∀ k ∈ args, k.Passable) (ret : ValueKind) :
    Signature.make ret args = .ok ⟨args, ret⟩ := by
  have hnone : args.find? (fun k => k = .void || k = .none) = none := by
    rw [List.find?_eq_none]
    intro k hk
    have hk := h k hk
    simpa using ⟨hk.void, hk.named 0⟩
  unfold Signature.make
  rw [hnone]

/-- A region that may be left out can be reserved. -/
theorem exists_reserveIf {b : FrameBuilder} (wanted : Bool) (name : String) (size : Int64) :
    ∃ o b', reserveIf b wanted name size = .ok (o, b') := by
  unfold reserveIf FrameBuilder.reserve
  cases wanted with
  | true => exact ⟨_, _, rfl⟩
  | false => exact ⟨_, _, rfl⟩

/-- The method of a descriptor has a plan, whose frame grows with the parameter slots. -/
theorem plan_described {m : NativeMethod} {sig : Signature} (h : m.Described sig) :
    ∃ p, plan m = .ok p ∧ ∃ k, p.resultTemp = Int64.ofNat (8 * k) ∧ 8 * k ≤ 16 * sig.parameterSlots + 68 := by
  have hkinds := h.passable
  have hnatives : ∀ k ∈ leadingKinds m.isStatic ++ sig.args, k.Passable := fun k hk =>
    (List.mem_append.mp hk).elim (passable_leading _ k) (hkinds k)
  obtain ⟨⟨locs, inSlots⟩, hmanaged⟩ := exists_assignFrom (c := .managed) (passed_expanded hkinds none) 0 managed.supply
  obtain ⟨⟨natives, outSlots⟩, hnative⟩ := exists_assignFrom (c := .native) (passed_expanded hnatives none)
    0 native.supply
  have hmanaged : managed.locate sig.expanded = .ok (locs, inSlots) := hmanaged
  have hnative : native.locate (⟨leadingKinds m.isStatic ++ sig.args, sig.ret⟩ : Signature).expanded = .ok
    (natives, outSlots) :=
    hnative
  -- all numbers are small
  have hslots := h.slots
  obtain ⟨hfew, hexpanded⟩ := h.few
  have hrefs : sig.expanded.countP (·.isReference) ≤ sig.expanded.length := List.countP_le_length
  have hout : outSlots ≤ 2 * (sig.parameterSlots + 2) := by
    have hplaced := (placed_locate hnative).few
    have hleading : ((leadingKinds m.isStatic).flatMap Signature.expandKind).length ≤ 2 := by cases m.isStatic <;> decide
    have hlength : (⟨leadingKinds m.isStatic ++ sig.args, sig.ret⟩ : Signature).expanded.length =
        ((leadingKinds m.isStatic).flatMap Signature.expandKind).length + sig.expanded.length := by
      unfold Signature.expanded
      rw [List.flatMap_append, List.length_append]
    rw [show native.supply.slot = 0 from rfl, show slotsPerWord = 2 from rfl] at hplaced
    omega
  have hin := (placed_locate hmanaged).few
  rw [show managed.supply.slot = 0 from rfl, show slotsPerWord = 2 from rfl] at hin
  -- the regions, one above the other
  obtain ⟨k1, b1, hreserve1, -, hhi1, htop1⟩ := FrameBuilder.reserve_ofNat (b := {}) (n := 0)
    FrameRegion.outgoingArgs (4 * outSlots) rfl (by omega)
  obtain ⟨k2, b2, hreserve2, -, hhi2, htop2⟩ := FrameBuilder.reserve_ofNat
    FrameRegion.oopHandles (sig.expanded.countP (·.isReference) * 8) htop1 (by omega)
  obtain ⟨klass, b3, hklass⟩ := exists_reserveIf (b := b2) m.isStatic FrameRegion.klassHandle 8
  obtain ⟨_, n3, -, htop3, -, hhi3, -⟩ := reserveIf_ofNat 8 htop2 (by omega) hklass
  obtain ⟨lock, b4, hlock⟩ := exists_reserveIf (b := b3) m.isSynchronized FrameRegion.lock 16
  obtain ⟨_, n4, -, htop4, -, hhi4, -⟩ := reserveIf_ofNat 16 htop3 (by omega) hlock
  obtain ⟨k5, b5, hreserve5, -, hhi5, htop5⟩ := FrameBuilder.reserve_ofNat FrameRegion.resultTemp 16 htop4 (by omega)
  obtain ⟨q, hsize, hslots, -, hhi⟩ := FrameBuilder.finish_ofNat FrameRegion.linkage htop5 (by omega)
  obtain ⟨srcs, hsrcs⟩ : ∃ srcs, locs.mapM (incoming (Int64.ofNat (16 * q / 4))) = .ok srcs :=
    exists_mapM fun l hl => ⟨_, incoming_eq fun slot hslot => by
      have hle := stack_locate hmanaged (hslot ▸ hl)
      omega⟩
  have hhandles : Int64.ofNat (sig.expanded.countP (·.isReference)) * 8 = Int64.ofNat
    (sig.expanded.countP (·.isReference) * 8) :=
    (Int64.ofNat_mul ..).symm
  unfold plan
  refine exists_bind_such (checkMethod_described h)
    (exists_bind_such (make_passable hnatives sig.ret) (exists_bind_such hmanaged
    (exists_bind_such hnative ?_)))
  dsimp only
  rw [slotBytes_ofNat, hhandles]
  refine exists_bind_such hreserve1 (exists_bind_such hreserve2 (exists_bind_such hklass (exists_bind_such hlock
    (exists_bind_such hreserve5 ?_))))
  dsimp only
  rw [hslots]
  exact exists_bind_such hsrcs ⟨_, rfl, k5, rfl, by omega⟩

/-! ## The map of the handles -/

/-- Words of the frame are recorded, one after the other. -/
theorem exists_record {frame : Nat} {handles : List Int64} (hsmall : frame < 2 ^ 54)
    (hwords : ∀ off ∈ handles, ∃ k, off = Int64.ofNat (8 * k) ∧ 8 * k + 8 ≤ frame) {map : OopMap}
    (hslots : map.frameSlots = Int64.ofNat (frame / 4)) (hopen : map.frozen = false) :
    ∃ map', handles.foldlM (fun m off => do m.setOop (← Location.ofSlot (off / stackSlotSize))) map = .ok map' := by
  induction handles generalizing map with
  | nil => exact ⟨map, rfl⟩
  | cons off handles ih =>
    obtain ⟨k, rfl, hin⟩ := hwords off List.mem_cons_self
    have hadmits : OopMap.admits map.frameSlots ⟨.stack (2 * k), .oop⟩ = true := by
      have hframe : (Int64.ofNat (frame / 4)).toInt = (frame / 4 : Nat) := Int64.toInt_ofNat_of_lt (by omega)
      have hlt : ((2 * k : Nat) : Int) < (frame / 4 : Nat) := by omega
      rw [hslots, OopMap.admits, hframe]
      dsimp only
      rw [decide_eq_true hlt]
      rfl
    rw [List.foldlM_cons, ofSlot_word (by omega)]
    refine exists_bind (a := { map with entries := OopMap.insert ⟨.stack (2 * k), .oop⟩ map.entries }) ?_
      (ih (fun off' h' => hwords off' (List.mem_cons_of_mem _ h')) hslots hopen)
    show map.setOop (.stack (2 * k)) = _
    unfold OopMap.setOop OopMap.record
    rw [hopen, hadmits]
    rfl

/-! ## Sources of arguments -/

theorem arguments_sources {R : Location → Location → Prop} {kinds : List ValueKind} {srcs dsts : List Location}
    {handles : List (Option Int64)}
    (hR : ∀ (i j : Nat) k k' s s', i < j → kinds[i]? = some k → k ≠ .void → srcs[i]? = some s →
    kinds[j]? = some k' → k' ≠ .void →
      srcs[j]? = some s' → R s s') :
    (arguments kinds srcs dsts handles).Pairwise fun a b => R a.src b.src := by
  induction kinds, srcs, dsts, handles using arguments.induct with
  | case1 ks s ss d ds hd hs ih =>
    rw [arguments, if_pos rfl]
    exact ih fun i j k k' s s' hij => hR (i + 1) (j + 1) k k' s s' (Nat.succ_lt_succ hij)
  | case2 k ks s ss d ds hd hs hvoid ih =>
    rw [arguments, if_neg hvoid]
    refine .cons (fun b hb => ?_) (ih fun i j k k' s s' hij => hR (i + 1) (j + 1) k k' s s' (Nat.succ_lt_succ hij))
    obtain ⟨j, hk, hreal, hsrc, -⟩ := getElem?_of_mem_arguments hb
    exact hR 0 (j + 1) k b.kind s b.src (Nat.succ_pos j) rfl hvoid rfl hk hreal hsrc
  | case3 ks ss ds hs hnot =>
    rw [arguments]
    · exact .nil
    · exact hnot

theorem lowered_inj {frame : Nat} {l l' : Location} (h : lowered frame l = lowered frame l') : l = l' := by
  cases l <;> cases l' <;> simp_all [lowered]

theorem valid_of_gives {s : Supply} {n : Nat} {l : Location} (h : s.Gives n l) : l.isValid = true := by
  cases l with
  | nowhere => exact h.elim
  | _ => rfl

namespace Planned

variable {m : NativeMethod} {p : Plan} (P : Planned m p)
include P

/-- Arguments arrive at places of their own. -/
theorem src_apart : p.args.Pairwise fun a b => a.src ≠ b.src := by
  have hplaced := placed_locate P.managedPlaces
  rw [P.args]
  refine arguments_sources fun i j k k' s s' hij hk hreal hs hk' hreal' hs' hsame => ?_
  have hlength := (getElem?_mapM P.sources).1
  have at' {i : Nat} {s : Location} (hs : P.srcs[i]? = some s) : ∃ l, P.locs[i]? = some l :=
    ⟨_, List.getElem?_eq_getElem (hlength ▸ (List.getElem?_eq_some_iff.mp hs).1)⟩
  obtain ⟨l, hl⟩ := at' hs
  obtain ⟨l', hl'⟩ := at' hs'
  rw [P.lowered_src hk hreal hl hs, P.lowered_src hk' hreal' hl' hs'] at hsame
  obtain rfl := lowered_inj hsame
  -- the same place was given twice
  have hapart := hplaced.apart sound_managed
  rw [arrived, List.pairwise_filter] at hapart
  have hzip {i : Nat} {k : ValueKind} (hk : P.sig.expanded[i]? = some k) (hl : P.locs[i]? = some l) :
      (P.sig.expanded.zip P.locs)[i]? = some (k, l) := List.getElem?_zip_eq_some.mpr ⟨hk, hl⟩
  obtain ⟨hi, hati⟩ := List.getElem?_eq_some_iff.mp (hzip hk hl)
  obtain ⟨hj, hatj⟩ := List.getElem?_eq_some_iff.mp (hzip hk' hl')
  have hdisjoint := List.pairwise_iff_getElem.mp hapart i j hi hj hij
  rw [hati, hatj] at hdisjoint
  have hfalse := hdisjoint (decide_eq_true hreal) (decide_eq_true hreal')
  rw [aliases_self (valid_of_gives (hplaced.given _ (mem_arrived hk hl hreal)))] at hfalse
  cases hfalse

/-- Everything the collector is told of lies in the frame. -/
theorem exists_oopMap : ∃ map, p.oopMap = .ok map := by
  have hlinkage := P.linkage
  have htemp := P.tempAbove
  unfold Plan.oopMap
  refine exists_record P.small (fun off hoff => ?_) ?_ rfl
  · rcases List.mem_append.mp hoff with hoff | hoff
    · obtain ⟨a, ha, hhandle⟩ := List.mem_filterMap.mp hoff
      obtain ⟨i, l, hsent⟩ := P.sent ha
      rw [hsent.handle] at hhandle
      split at hhandle
      case _ href =>
        have hlt := refsBefore_lt_all hsent.kind href
        refine ⟨_, (Option.some.inj hhandle).symm, ?_⟩
        unfold handleWord
        omega
      case _ => cases hhandle
    · rw [P.classHandle] at hoff
      cases hstatic : m.isStatic with
      | true =>
        rw [hstatic] at hoff
        have hbelow := htemp.2.1 hstatic
        exact ⟨P.klass, List.mem_singleton.mp hoff, by omega⟩
      | false =>
        rw [hstatic] at hoff
        cases hoff
  · show p.layout.slots = _
    have hwhole := P.whole
    have hsmall := P.small
    rw [FrameLayout.slots, P.size, show P.frame = 4 * (P.frame / 4) by omega, Nat.mul_div_cancel_left _ (by decide)]
    exact ofNat_div_four (by omega)

/-- No argument is in the register that breaks cycles. -/
theorem no_scratch {a : Argument} (ha : a ∈ p.args) : a.src.aliases (.int 9) = false ∧
    a.dst.aliases (.int 9) = false := by
  obtain ⟨i, l, hsent⟩ := P.sent ha
  obtain ⟨hgiven, hgiven', -⟩ := P.places hsent
  have free {s : Supply} {n : Nat} {l : Location} (hs : 9 ∉ s.ints) (h : s.Gives n l) : l.aliases (.int 9) = false := by
    cases l with
    | int r =>
      have hne : r ≠ 9 := fun e => hs (e ▸ h)
      simpa [Location.aliases] using hne
    | _ => rfl
  refine ⟨?_, free (by cases m.isStatic <;> decide) hgiven'⟩
  have hfree := free (by decide) hgiven
  rw [hsent.src]
  cases l <;> exact hfree

theorem exists_orderedMoves : ∃ moves, p.orderedMoves = .ok moves := by
  have hplain : p.plainMoves = (p.args.filter (!·.kind.isReference)).map Argument.move := rfl
  have hfree : ¬ Refused p.plainMoves (.int 9) := by
    rw [refused_iff, Classical.not_not]
    have hmoves : (realMoves p.plainMoves).Sublist (p.args.map Argument.move) := by
      rw [hplain]
      exact List.filter_sublist.trans (List.filter_sublist.map _)
    have hdst : (realMoves p.plainMoves).Pairwise fun a b => a.dst ≠ b.dst := by
      refine List.Pairwise.sublist hmoves (List.pairwise_map.mpr
        (P.dst_apart.imp_of_mem fun {a b} ha _ hapart hsame => ?_))
      obtain ⟨i, l, hsent⟩ := P.sent ha
      have hvalid := valid_of_gives (P.places hsent).2.1
      have hsame : a.dst = b.dst := hsame
      rw [← hsame, aliases_self hvalid] at hapart
      cases hapart
    have hsrc : (realMoves p.plainMoves).Pairwise fun a b => a.src ≠ b.src :=
      List.Pairwise.sublist hmoves (List.pairwise_map.mpr P.src_apart)
    refine ⟨⟨fun mv hmv => ?_, hdst⟩, readOnce_iff.mpr (not_two_iff.mpr (hsrc.imp fun hne h => hne h.1))⟩
    obtain ⟨a, ha, rfl⟩ := List.mem_map.mp (hmoves.subset hmv)
    exact P.no_scratch ha
  unfold Plan.orderedMoves
  refine exists_bind (a := .int 9) rfl ?_
  rcases run_graph p.plainMoves (.int 9) (s := {}) Arena.sound_empty with ⟨e, t, -, -, hrefused⟩ | ⟨t, hrun, -⟩
  · exact absurd hrefused hfree
  · rw [run_solve_ok hrun]
    exact ⟨_, rfl⟩

end Planned

end NativeWrapper

end RiscvJit

import RiscvJit.Proofs.Call.Locations
import RiscvJit.Proofs.Code.Frames
import RiscvJit.Proofs.Stub.Adapters

/-
  RiscvJit.Proofs.Stub.AdapterMoves — arguments between the expression stack and their places.

  The interpreter keeps every argument in an element of its expression stack, which is counted from
  the top (`Elements`); compiled code has it in a place of its own (`Argued`). One argument is moved
  by one load or store, or through a scratch register (`does_loadArg`, `does_storeArg`), and does not
  touch what the others read or wrote. So all arguments arrive (`does_loadArgs`, `does_storeArgs`).

  Offsets of elements are immediates of instructions, so there are at most 258 elements
  (`length_of_reachable`).
-/

namespace RiscvJit

open Machine (Keeps)
open Reg (sp t0 t1 t2 esp)
open Location
open Site
open Convention

namespace Stub

open Asm

/-! ## Elements of the expression stack -/

/-- The element of an argument, counted from the top of the expression stack. -/
def element (k : ValueKind) (after : Nat) : Nat := if k.isDoubleWord then after - 1 else after

theorem offset_element {k : ValueKind} {after : Nat} (h : k.isDoubleWord = true → 1 ≤ after) :
    interpreterArgOffset k after = Int64.ofNat (8 * element k after) := by
  have one {n : Nat} : Int64.ofNat n * 8 = Int64.ofNat (8 * n) := by
    rw [Nat.mul_comm, Int64.ofNat_mul]
    rfl
  unfold interpreterArgOffset element
  split
  case _ hk =>
    have := h hk
    obtain ⟨n, rfl⟩ : ∃ n, after = n + 1 := ⟨after - 1, by omega⟩
    rw [one, Nat.add_sub_cancel, Nat.mul_add, Int64.ofNat_add]
    exact Int64.add_sub_cancel ..
  case _ => rw [one, Int64.sub_zero]

/-- The element of an argument. -/
def AdapterArg.element (a : AdapterArg) : Nat := a.interpreted.toInt.toNat / 8

variable {a : AdapterArg}

theorem element_eq {e : Nat} (h : a.interpreted = Int64.ofNat (8 * e)) (he : e ≤ 258) : a.element = e := by
  rw [AdapterArg.element, h, Int64.toInt_ofNat_of_lt (by omega)]
  omega

/-- The arguments are elements among the first `n`, in descending order. -/
structure Elements (args : List AdapterArg) (n : Nat) : Prop where
  offset : ∀ a ∈ args, a.interpreted = Int64.ofNat (8 * a.element)
  lt : ∀ a ∈ args, a.element < n
  descend : args.Pairwise fun a b => b.element < a.element

section
variable {kinds : List ValueKind} {locs : List Location} {prev : Option ValueKind} {a : AdapterArg}

theorem mem_adapterArgs {i : Nat} {k : ValueKind} {l : Location} (hk : kinds[i]? = some k) (hvoid : k ≠ .void)
    (hl : locs[i]? = some l) : ⟨k, interpreterArgOffset k (kinds.length - 1 - i), l⟩ ∈ adapterArgs kinds locs := by
  induction kinds generalizing locs i with
  | nil => cases hk
  | cons k' kinds ih =>
    cases locs with
    | nil => cases hl
    | cons l' locs =>
      cases i with
      | zero =>
        cases hk
        cases hl
        rw [adapterArgs, if_neg hvoid]
        exact List.mem_cons_self
      | succ i =>
        have hmem := ih hk hl
        rw [show (k' :: kinds).length - 1 - (i + 1) = kinds.length - 1 - i by rw [List.length_cons]; omega]
        unfold adapterArgs
        split
        · exact hmem
        · exact List.mem_cons_of_mem _ hmem

theorem arrived_adapterArgs (kinds : List ValueKind) (locs : List Location) :
    (adapterArgs kinds locs).map (fun a => (a.kind, a.compiled)) = arrived kinds locs := by
  induction kinds generalizing locs with
  | nil => rfl
  | cons k kinds ih =>
    cases locs with
    | nil => rfl
    | cons l locs =>
      unfold adapterArgs
      split
      case _ hk => rw [hk, arrived_void, ih]
      case _ hk => rw [arrived_cons hk, List.map_cons, ih]

theorem after_double {k : ValueKind} (h : k.isDoubleWord = true → kinds.head? = some .void)
    (hd : k.isDoubleWord = true) : 1 ≤ kinds.length := by
  have := h hd
  cases kinds with
  | nil => cases this
  | cons _ _ => exact Nat.succ_pos _

theorem elements (hp : Paired prev kinds) (hn : kinds.length ≤ 258) :
    Elements (adapterArgs kinds locs) kinds.length ∧
      (kinds.head? = some .void → ∀ a ∈ adapterArgs kinds locs, a.element + 1 < kinds.length) := by
  induction kinds generalizing locs prev with
  | nil => exact ⟨⟨by simp [adapterArgs], by simp [adapterArgs], .nil⟩, by simp⟩
  | cons k kinds ih =>
    cases locs with
    | nil => exact ⟨⟨by simp [adapterArgs], by simp [adapterArgs], .nil⟩, by simp [adapterArgs]⟩
    | cons l locs =>
      rw [List.length_cons] at hn
      obtain ⟨hdouble, hvoid, hrest⟩ := hp
      obtain ⟨hin, hhead⟩ : Elements (adapterArgs kinds locs) kinds.length ∧
          (kinds.head? = some .void → ∀ a ∈ adapterArgs kinds locs, a.element + 1 < kinds.length) :=
        ih hrest (by omega)
      unfold adapterArgs
      split
      case _ hk =>
        refine ⟨⟨hin.offset, fun a ha => ?_, hin.descend⟩, fun _ a ha => ?_⟩
        · exact Nat.lt_succ_of_lt (hin.lt a ha)
        · exact Nat.succ_lt_succ (hin.lt a ha)
      case _ hk =>
        have hoff := offset_element (after_double hdouble)
        have hle : element k kinds.length ≤ kinds.length := by
          unfold element
          split <;> omega
        have hfirst : AdapterArg.element ⟨k, interpreterArgOffset k kinds.length, l⟩ = element k kinds.length :=
          element_eq hoff (by omega)
        refine ⟨⟨?_, ?_, .cons (fun a ha => ?_) hin.descend⟩, fun h => ?_⟩
        · rintro a (_ | ⟨_, ha⟩)
          · rw [hfirst, hoff]
          · exact hin.offset a ha
        · rintro a (_ | ⟨_, ha⟩)
          · rw [hfirst, List.length_cons]
            omega
          · exact Nat.lt_succ_of_lt (hin.lt a ha)
        · rw [hfirst]
          unfold element
          split
          case _ hd =>
            have := hhead (hdouble hd) a ha
            omega
          case _ => exact hin.lt a ha
        · cases h
          exact absurd rfl hk

/-- Offsets that instructions reach bound the number of elements. -/
theorem length_of_reachable (hlen : locs.length = kinds.length) (hp : Paired prev kinds)
    (h : ∀ a ∈ adapterArgs kinds locs, isImm12 a.interpreted = true) :
    kinds.length ≤ 258 ∧ ((prev.map ValueKind.isDoubleWord).getD false = false → kinds.length ≤ 257) := by
  induction kinds generalizing locs prev with
  | nil => exact ⟨Nat.zero_le _, fun _ => Nat.zero_le _⟩
  | cons k kinds ih =>
    cases locs with
    | nil => cases hlen
    | cons l locs =>
      obtain ⟨hdouble, hvoid, hrest⟩ := hp
      unfold adapterArgs at h
      split at h
      case _ hk =>
        obtain ⟨-, hshort⟩ := ih (Nat.succ.inj hlen) hrest h
        subst hk
        have := hshort rfl
        rw [List.length_cons]
        exact ⟨by omega, fun hprev => by rw [hvoid rfl] at hprev; cases hprev⟩
      case _ hk =>
        obtain ⟨hsmall, -⟩ := ih (Nat.succ.inj hlen) hrest fun a ha => h a (List.mem_cons_of_mem _ ha)
        have himm := h _ List.mem_cons_self
        have hle : element k kinds.length ≤ kinds.length := by
          unfold element
          split <;> omega
        rw [offset_element (after_double hdouble), isImm12, fitsSigned_iff, Int64.toInt_ofNat_of_lt (by omega)] at himm
        have hbound : kinds.length ≤ element k kinds.length + 1 := by
          unfold element
          split <;> omega
        simp only [Nat.reduceSub, Int.reducePow] at himm
        rw [List.length_cons]
        omega

end

/-! ## Moving one argument -/

theorem saveable_argumentRegs : Saveable argumentRegs 144 :=
  ⟨by decide, by decide, by decide, by decide, by decide, by decide, by decide⟩

/-- Argument places are no other registers. -/
theorem given_ne {s : Supply} {n : Nat} {l : Location} {r : Reg} (h : s.Gives n l)
    (hr : r ∉ s.ints.map Reg.x ++ s.floats.map Reg.f) (hnone : r ≠ .none) : l.reg ≠ r := by
  rintro rfl
  cases l with
  | int k => exact hr (List.mem_append_left _ (List.mem_map_of_mem h))
  | float k => exact hr (List.mem_append_right _ (List.mem_map_of_mem h))
  | stack slot => exact hnone rfl
  | nowhere => exact hnone rfl

theorem given_keeps {n : Nat} {l : Location} (h : managed.supply.Gives n l) (hl : l.isReg = true) :
    Keeps l.reg := by
  refine ⟨given_ne h (by decide) (by decide), ?_⟩
  cases l with
  | stack slot => cases hl
  | nowhere => cases hl
  | _ => exact nofun

section
variable {S : Site} {m : Machine} {E : Exits} {a : AdapterArg} {slots : Nat}

/-- An argument comes from the expression stack to its place. -/
theorem does_loadArg (hgiven : managed.supply.Gives slots a.compiled)
    (hsuits : managed.Suits a.kind a.compiled) (hfits : a.compiled.Fits (m.get sp))
    (hfree : ∀ addr, a.compiled.Covers (m.get sp) addr → S.Free addr) :
    S.Does (loadArg a) m E fun _ m' => Changed (m.get sp) [a.compiled] [t0, t2] m m' ∧
      a.kind.Same (m.mem.read (m.get esp + a.interpreted.toUInt64) 8) (m'.at (m.get sp) a.compiled) := by
  obtain ⟨k, off, l⟩ := a
  have loaded {o : Op} {n : Nat} (hl : l.isReg = true) (hf : o.info.format = .load)
      (hw : o.width = some n)
      (hsame : k.Same (m.mem.read (m.get esp + off.toUInt64) 8) (o.extend (m.mem.read (m.get esp + off.toUInt64) n))) :
      S.Does (load o l.reg esp off) m E fun _ m' => Changed (m.get sp) [l] [t0, t2] m m' ∧
        k.Same (m.mem.read (m.get esp + off.toUInt64) 8) (m'.at (m.get sp) l) := by
    refine does_load hf hw (given_keeps hgiven hl) fun m' hput => ⟨(hput.changed rfl).mono (by simp) (by simp), ?_⟩
    rw [m'.at_reg _ hl, hput.value]
    exact hsame
  unfold loadArg
  cases l with
  | nowhere => exact hgiven.elim
  | int n =>
    show S.Does (load (interpreterLoadOp k (.x n)) (.x n) esp off) m E _
    rw [interpreterLoadOp, if_neg (show ¬ (Reg.x n).isFloat = true from Bool.false_ne_true)]
    split
    case _ hk =>
      refine loaded rfl rfl rfl (ValueKind.same_low (.inl hk) ?_)
      rw [Ram.toUInt32_read]
      exact (toUInt32_sext _).symm
    case _ => exact loaded rfl rfl rfl (ValueKind.same_refl k _)
  | float n =>
    show S.Does (load (interpreterLoadOp k (.f n)) (.f n) esp off) m E _
    rw [interpreterLoadOp, if_pos (show (Reg.f n).isFloat = true from rfl)]
    split
    case _ hk =>
      refine loaded rfl rfl rfl (ValueKind.same_low (.inr hk) ?_)
      rw [Ram.toUInt32_read]
      exact (toUInt32_boxed _).symm
    case _ => exact loaded rfl rfl rfl (ValueKind.same_refl k _)
  | stack slot =>
    have hfits : (m.get sp).toNat + 4 * slot + 8 ≤ 2 ^ 64 := hfits
    show S.Does (ld t0 esp off >>= fun _ => storeOff .sd t0 sp (slotBytes slot) t2) m E _
    refine .bind (does_ld fun m1 hput => ?_)
    have hsp : m1.get sp = m.get sp := hput.rest _ (by decide) (by decide)
    refine does_storeOff rfl rfl (by decide) (fun i hi => ?_) fun m2 hstored => ?_
    · rw [hsp, toUInt64_slotBytes]
      exact hfree _ (spans_off (by omega) hi)
    · rw [hsp, toUInt64_slotBytes] at hstored
      refine ⟨((hput.scratch (by decide) (by simp)).mono (by simp) fun _ h => h).trans
        ((hstored.changed hfits (by decide)).mono (fun _ h => h) (by simp)), ?_⟩
      show k.Same _ (m2.mem.read _ 8)
      rw [hstored.mem, read_write_eight, hput.value]
      exact ValueKind.same_refl k _

/-- An argument comes from its place to its element of the expression stack, as a whole word but for floats. -/
theorem does_storeArg (extra : Int64) {e : Nat} (hgiven : managed.supply.Gives slots a.compiled)
    (hoff : a.interpreted = Int64.ofNat (8 * e)) (hfits : (m.get sp).toNat + 8 * e + 8 ≤ 2 ^ 64)
    (hfree : ∀ addr, (Location.stack (2 * e)).Covers (m.get sp) addr → S.Free addr) :
    S.Does (storeArg extra a) m E fun _ m' => Changed (m.get sp) [.stack (2 * e)] [t0, t1] m m' ∧
      a.kind.SameWord (m.at (m.get sp + extra.toUInt64) a.compiled) (m'.at (m.get sp) (.stack (2 * e))) := by
  obtain ⟨k, off, l⟩ := a
  have haddr : m.get sp + off.toUInt64 = m.get sp + UInt64.ofNat (4 * (2 * e)) := by
    rw [show off = Int64.ofNat (8 * e) from hoff, Int64.toUInt64_ofNat', ← Nat.mul_assoc]
  have hfits : (m.get sp).toNat + 4 * (2 * e) + 8 ≤ 2 ^ 64 := by omega
  have stored {o : Op} {n : Nat} (hl : l.isReg = true) (hf : o.info.format = .store)
      (hw : o.width = some n) (hn : n ≤ 8)
      (hsame : ∀ mem : Ram, k.SameWord (m.get l.reg)
      ((mem.write (m.get sp + UInt64.ofNat (4 * (2 * e))) n (m.get l.reg)).read
        (m.get sp + UInt64.ofNat (4 * (2 * e))) 8)) :
      S.Does (store o l.reg sp off) m E fun _ m' => Changed (m.get sp) [.stack (2 * e)] [t0, t1] m m' ∧
        k.SameWord (m.at (m.get sp + extra.toUInt64) l) (m'.at (m.get sp) (.stack (2 * e))) := by
    refine does_store hf hw (fun i hi => ?_) fun m' hstored => ?_
    · rw [haddr]
      exact hfree _ (spans_off (by omega) (by omega))
    · rw [haddr] at hstored
      refine ⟨(hstored.changed hfits hn).mono (fun _ h => h) (by simp), ?_⟩
      rw [m.at_reg _ hl]
      show k.SameWord _ (m'.mem.read _ 8)
      rw [hstored.mem]
      exact hsame _
  have whole (mem : Ram) (v : UInt64) : k.SameWord v ((mem.write (m.get sp + UInt64.ofNat (4 * (2 * e))) 8 v).read
      (m.get sp + UInt64.ofNat (4 * (2 * e))) 8) := by
    rw [read_write_eight]
    exact ValueKind.sameWord_refl k v
  unfold storeArg
  cases l with
  | nowhere => exact hgiven.elim
  | int n => exact stored (o := .sd) rfl rfl rfl (by decide) fun mem => whole mem _
  | float n =>
    show S.Does (store (if ((Reg.f n).isFloat && decide (k = .float)) = true then .fsw else .fsd) (.f n) sp off) m E _
    split
    case _ hk =>
      refine stored rfl rfl rfl (by decide) fun mem => ?_
      rw [ValueKind.SameWord, if_pos (of_decide_eq_true (Bool.and_eq_true_iff.mp hk).2), Ram.toUInt32_read,
        toUInt32_read_write]
    case _ => exact stored rfl rfl rfl (by decide) fun mem => whole mem _
  | stack slot =>
    show S.Does (loadOff .ld t0 sp (extra + slotBytes slot) t1 >>= fun _ => sd t0 sp off) m E _
    refine .bind (does_loadOff rfl rfl (by decide) (by decide) fun m1 hput => ?_)
    have hsp : m1.get sp = m.get sp := hput.rest _ (by decide) (by decide)
    refine does_sd (fun i hi => ?_) fun m2 hstored => ?_
    · rw [hsp, haddr]
      exact hfree _ (spans_off (by omega) hi)
    · rw [hsp, haddr] at hstored
      refine ⟨((hput.scratch (by decide) (by simp)).mono (by simp) fun _ h => h).trans
        ((hstored.changed hfits (by decide)).mono (fun _ h => h) (by simp)), ?_⟩
      show k.SameWord (m.mem.read _ 8) (m2.mem.read _ 8)
      rw [hstored.mem, hput.value, Int64.toUInt64_add, toUInt64_slotBytes, ← UInt64.add_assoc]
      exact whole _ _

end

/-! ## The area of the expression stack -/

/-- Bytes of the expression stack with `n` elements, with the stack pointer aligned. -/
def areaBytes (n : Nat) : Nat := (8 * n + 15) / 16 * 16

theorem extra_eq {n : Nat} (h : n ≤ 258) : alignUp (Int64.ofNat n * 8) stackAlignment = Int64.ofNat (areaBytes n) := by
  have hbytes : Int64.ofNat n * 8 = Int64.ofNat (8 * n) := by
    rw [Nat.mul_comm, Int64.ofNat_mul]
    rfl
  rw [hbytes]
  exact alignUp_ofNat (n := 8 * n) (k := 4) (by decide) (by omega)

/-! ## Moving all arguments -/

/-- Arguments with places of their own on both sides: elements among `n`, and places of the managed
convention with stack slots among `slots`. -/
structure Argued (args : List AdapterArg) (n slots : Nat) : Prop where
  elements : Elements args n
  given : ∀ a ∈ args, managed.supply.Gives slots a.compiled
  suits : ∀ a ∈ args, managed.Suits a.kind a.compiled
  apart : args.Pairwise fun a b => b.compiled.aliases a.compiled = false
  few : n ≤ 258
  slots : slots ≤ 2 * n

theorem argued_adapterArgs {kinds : List ValueKind} {locs : List Location} {slots : Nat}
    (h : managed.locate kinds = .ok (locs, slots)) (hn : kinds.length ≤ 258) :
    Argued (adapterArgs kinds locs) kinds.length slots := by
  have hplaced := placed_locate h
  have harrived {a : AdapterArg} (ha : a ∈ adapterArgs kinds locs) :
      (a.kind, a.compiled) ∈ arrived kinds locs := by
    rw [← arrived_adapterArgs]
    exact List.mem_map_of_mem ha
  have hapart := hplaced.apart sound_managed
  rw [← arrived_adapterArgs, List.pairwise_map] at hapart
  have hslots := hplaced.few
  rw [show managed.supply.slot = 0 from rfl, Nat.zero_add] at hslots
  exact ⟨(elements hplaced.paired hn).1, fun a ha => hplaced.given _ (harrived ha),
    fun a ha => hplaced.suits _ (harrived ha), hapart, hn, hslots⟩

section
variable {S : Site} {m : Machine} {E : Exits} {args : List AdapterArg} {n slots : Nat}

/-- A place on the stack is among the outgoing slots. -/
theorem spans_of_given {s : Supply} {base addr : UInt64} {l : Location} (h : s.Gives slots l)
    (hc : l.Covers base addr) : Spans base.toNat (4 * slots) addr := by
  cases l with
  | stack slot =>
    have hle : slot + 2 ≤ slots := h.2
    simp only [Covers, Spans] at hc ⊢
    omega
  | _ => exact hc.elim

theorem fits_of_given {s : Supply} {base : UInt64} {l : Location} (h : s.Gives slots l)
    (hbase : base.toNat + 4 * slots ≤ 2 ^ 64) : l.Fits base := by
  cases l with
  | stack slot =>
    have hle : slot + 2 ≤ slots := h.2
    show base.toNat + 4 * slot + 8 ≤ 2 ^ 64
    omega
  | _ => trivial

/-- All arguments come from the expression stack to their places below it. -/
theorem does_loadArgs (h : Argued args n slots) (hroom : (m.get sp).toNat + 4 * slots ≤ (m.get esp).toNat)
    (harea : (m.get esp).toNat + 8 * n ≤ 2 ^ 64) (hfree : ∀ addr, Spans (m.get sp).toNat (4 * slots) addr → S.Free addr) :
    S.Does (args.forM loadArg) m E fun _ m' => Changed (m.get sp) (args.map (·.compiled)) [t0, t2] m m' ∧
      ∀ a ∈ args, a.kind.Same (m.mem.read (m.get esp + a.interpreted.toUInt64) 8) (m'.at (m.get sp) a.compiled) := by
  have hesp := (m.get esp).toNat_lt
  refine Does.deliver _ _ _ (fun a ha => fits_of_given (h.given a ha) (by omega)) (fun a ha => ?_)
    h.apart fun a ha m' hm' => ?_
  · simp only [List.mem_cons, List.not_mem_nil, or_false, not_or]
    exact ⟨given_ne (h.given a ha) (by decide) (by decide), given_ne (h.given a ha) (by decide) (by decide)⟩
  · have hother {r : Reg} (hr : r ∉ [t0, t2])
        (hne : r ∉ managed.intArgs.map Reg.x ++ managed.floatArgs.map Reg.f) (hnone : r ≠ .none) :
        m'.get r = m.get r := by
      refine hm'.regs r hr fun l hl => ?_
      obtain ⟨b, hb, rfl⟩ := List.mem_map.mp hl
      exact given_ne (h.given b hb) hne hnone
    have hsp : m'.get sp = m.get sp := hother (by decide) (by decide) (by decide)
    have hesp' : m'.get esp = m.get esp := hother (by decide) (by decide) (by decide)
    have hone := does_loadArg (S := S) (E := E) (m := m') (h.given a ha) (h.suits a ha)
      (by rw [hsp]; exact fits_of_given (h.given a ha) (by omega))
      (by rw [hsp]; exact fun addr hc => hfree addr (spans_of_given (h.given a ha) hc))
    refine hone.imp (fun _ _ h => h) fun _ m'' hend => ?_
    -- the element lies above all outgoing slots
    have hread : m'.mem.read (m'.get esp + a.interpreted.toUInt64) 8 =
        m.mem.read (m.get esp + a.interpreted.toUInt64) 8 := by
      have hlt := h.elements.lt a ha
      have haddr : (m.get esp + UInt64.ofNat (8 * a.element)).toNat = (m.get esp).toNat + 8 * a.element :=
        toNat_off (by omega)
      rw [hesp', h.elements.offset a ha, Int64.toUInt64_ofNat']
      refine Ram.read_same (by omega) fun x hx => hm'.mem x fun l hl hc => ?_
      obtain ⟨b, hb, rfl⟩ := List.mem_map.mp hl
      have := spans_of_given (h.given b hb) hc
      omega
    rw [hsp, hread] at hend
    exact hend

/-- All arguments come from their places to the expression stack below them. -/
theorem does_storeArgs {extra : Int64} {k : Nat} (h : Argued args n slots) (hextra : extra.toUInt64 = UInt64.ofNat k)
    (hk : 8 * n ≤ k) (hroom : (m.get sp).toNat + k + 4 * slots ≤ 2 ^ 64)
    (hfree : ∀ addr, Spans (m.get sp).toNat (8 * n) addr → S.Free addr) :
    S.Does (args.forM (storeArg extra)) m E fun _ m' =>
      Changed (m.get sp) (args.map fun a => .stack (2 * a.element)) [t0, t1] m m' ∧
        ∀ a ∈ args, a.kind.SameWord (m.at (m.get sp + extra.toUInt64) a.compiled)
        (m'.at (m.get sp) (.stack (2 * a.element))) := by
  have hsmall := h.few
  have hspans {a : AdapterArg} (ha : a ∈ args) {addr : UInt64}
      (hc : (Location.stack (2 * a.element)).Covers (m.get sp) addr) : Spans (m.get sp).toNat (8 * n) addr := by
    have := h.elements.lt a ha
    simp only [Covers, Spans] at hc ⊢
    omega
  refine Does.deliver _ _ _ (fun a ha => ?_) (fun a _ => show Reg.none ∉ [t0, t1] by decide) ?_
    fun a ha m' hm' => ?_
  · have := h.elements.lt a ha
    show (m.get sp).toNat + 4 * (2 * a.element) + 8 ≤ 2 ^ 64
    omega
  · refine h.elements.descend.imp fun {a b} hlt => ?_
    rw [aliases, Bool.and_eq_false_iff, decide_eq_false_iff_not, decide_eq_false_iff_not]
    unfold slotsPerWord
    omega
  · have hsp : m'.get sp = m.get sp := hm'.regs _ (by decide) fun l hl => by
      obtain ⟨b, hb, rfl⟩ := List.mem_map.mp hl
      intro h
      cases h
    have hlt := h.elements.lt a ha
    have hone := does_storeArg (S := S) (E := E) (m := m') extra (h.given a ha) (h.elements.offset a ha)
      (by rw [hsp]; omega) (by rw [hsp]; exact fun addr hc => hfree addr (hspans ha hc))
    refine hone.imp (fun _ _ h => h) fun _ m'' hend => ?_
    -- the place is a register, or lies above the expression stack
    have hsame : m'.at (m'.get sp + extra.toUInt64) a.compiled = m.at (m.get sp + extra.toUInt64) a.compiled := by
      have hgiven := h.given a ha
      rw [hsp]
      cases hl : a.compiled with
      | nowhere => rfl
      | stack slot =>
        rw [hl] at hgiven
        have hle : slot + 2 ≤ slots := hgiven.2
        have haddr : (m.get sp + extra.toUInt64 + UInt64.ofNat (4 * slot)).toNat = (m.get sp).toNat + k + 4 * slot := by
          rw [hextra, off_off, toNat_off (by omega), Nat.add_assoc]
        refine Ram.read_same (by omega) fun x hx => hm'.mem x fun l hc hcovers => ?_
        obtain ⟨b, hb, rfl⟩ := List.mem_map.mp hc
        have := hspans hb hcovers
        omega
      | _ =>
        rw [hl] at hgiven
        rw [m'.at_reg _ rfl, m.at_reg _ rfl]
        refine hm'.regs _ ?_ fun l hc => ?_
        · simp only [List.mem_cons, List.not_mem_nil, or_false, not_or]
          exact ⟨given_ne hgiven (by decide) (by decide), given_ne hgiven (by decide) (by decide)⟩
        · obtain ⟨b, hb, rfl⟩ := List.mem_map.mp hc
          intro h
          cases h
    rw [hsp] at hend hsame
    rw [hsame] at hend
    exact hend

end

end Stub

end RiscvJit

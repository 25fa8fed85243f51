import RiscvJit.Proofs.Lower.Hierarchy
import RiscvJit.Proofs.Lower.ReservedRegisters
import RiscvJit.Proofs.Lower.Running

/-
  RiscvJit.Proofs.Lower.TypeProfiles — what the code of a type profile does to its cell.
-/

namespace RiscvJit

open Machine (Keeps)
open Reg (zr t0 t1)
open Asm
open Lower

/-! ## Cells -/

/-- The descriptor in a cell. -/
def cellKlass (x : UInt64) : UInt64 := x &&& typeKlassMask.toUInt64

/-- What becomes of a cell when code with this profile comes by with a type, or with a null. -/
def TypeProfile.record (p : TypeProfile) (k : Option UInt64) (x : UInt64) : UInt64 :=
  match k with
  | none => if p.current.toInt64 &&& typeNullSeen = 0 then x ||| typeNullSeen.toUInt64 else x
  | some k =>
    if cellSettled p then x
    else if cellKlass (k ^^^ x) = 0 then x
    else if x &&& typeUnknown.toUInt64 ≠ 0 then x
    else if cellKlass x ≠ 0 then x ||| typeUnknown.toUInt64
    else k ^^^ x

theorem Options.klassShift_le {o : Options} (h : o.refusal? = none) : o.klassShift ≤ 3 := by
  unfold Options.refusal? at h
  split at h
  · cases h
  split at h
  · cases h
  case _ hshift => exact UInt8.not_lt.mp hshift

namespace Site

variable {S : Site} {C : Company S} {m : Machine} {E : Exits}

/-! ## Loading the type of an object -/

section
variable {dst obj tmp : Reg} {k : UInt64} {Q : Unit → Machine → Prop}

theorem goes_decodeKlass (hopts : S.target.opts.refusal? = none) (hd : Keeps dst) (ht : Keeps tmp) (hne : tmp ≠ dst)
    (h : ∀ m', m'.get dst = S.target.opts.klassBase + m.get dst <<< S.target.opts.klassShift.toUInt64 →
      (∀ r, r ≠ dst → r ≠ tmp → m'.get r = m.get r) → C.others m.shared m'.shared → Q () m') :
    S.Goes C (decodeKlass dst tmp) m E Q := by
  obtain ⟨hadmits, hshift⟩ := small_shift (Options.klassShift_le hopts)
  -- the shift, which may be none, and then the base, which may be none
  have hbase (m1 : Machine) (hv : m1.get dst = m.get dst <<< S.target.opts.klassShift.toUInt64)
      (hregs : ∀ r, r ≠ dst → m1.get r = m.get r) (hothers : C.others m.shared m1.shared) :
      S.Goes C (if S.target.opts.klassBase ≠ 0 then do
          check (tmp ≠ dst) fun _ => "scratch " ++ tmp.abiName ++ " aliases the klass"
          li tmp S.target.opts.klassBase.toInt64
          add dst dst tmp
        else pure ()) m1 E Q := by
    split
    · refine .bind (goes_lift fun _ _ => .bind (goes_li ht fun m2 h2 => goes_add hd fun m3 h3 => ?_))
      refine h m3 ?_ (fun r hr hr' => ?_) (C.trans hothers (C.trans h2.others h3.others))
      · rw [h3.value, h2.rest _ hne.symm, h2.value, hv, UInt64.toUInt64_toInt64, UInt64.add_comm]
      · rw [h3.rest _ hr, h2.rest _ hr', hregs r hr]
    · case _ hzero =>
      have hzero : S.target.opts.klassBase = 0 := Classical.not_not.mp hzero
      refine goes_pure (h m1 ?_ (fun r hr _ => hregs r hr) hothers)
      rw [hv, hzero, UInt64.zero_add]
  unfold decodeKlass
  refine .bind (goes_opts ?_)
  dsimp only
  split
  · refine .bind (goes_slli hadmits hd fun m1 h1 => hbase m1 ?_ h1.rest h1.others)
    rw [h1.value, hshift]
  · case _ hzero =>
    have hzero : S.target.opts.klassShift = 0 := Classical.not_not.mp hzero
    refine hbase m ?_ (fun _ _ => rfl) (C.refl _)
    rw [hzero]
    exact (UInt64.shiftLeft_zero).symm

/-- The type of an object is loaded, when nobody changes it. -/
theorem goes_loadKlass (hopts : S.target.opts.refusal? = none) (hd : Keeps dst) (ht : Keeps tmp) (hne : tmp ≠ dst)
    (hklass : ∀ s, C.others m.shared s → S.target.opts.klassAt s.mem (m.get obj) = k)
    (h : ∀ m', m'.get dst = k → (∀ r, r ≠ dst → r ≠ tmp → m'.get r = m.get r) → C.others m.shared m'.shared → Q () m') :
    S.Goes C (loadKlass dst obj tmp) m E Q := by
  unfold loadKlass
  refine .bind (goes_opts ?_)
  split
  · case _ hcompressed =>
    refine .bind (goes_lwu hd fun m1 h1 => goes_decodeKlass hopts hd ht hne fun m2 hv hregs hothers => ?_)
    refine h m2 ?_ (fun r hr hr' => (hregs r hr hr').trans (h1.rest r hr)) (C.trans h1.others hothers)
    rw [hv, h1.value, ← hklass _ h1.others, Options.klassAt, if_pos hcompressed]
    rfl
  · case _ hplain =>
    refine goes_ld hd fun m1 h1 => h m1 ?_ (fun r hr _ => h1.rest r hr) h1.others
    rw [h1.value, ← hklass _ h1.others, Options.klassAt, if_neg hplain]
    rfl

end

end Site

/-! ## Updating the cell -/

/-- Code with a profile may update the cell with a type, and then `Q` holds. `A` is what the cell may hold
when it is read. -/
structure Recording {S : Site} (C : Company S) (p : TypeProfile) (k : Option UInt64) (A : UInt64 → Prop)
    (Q : Shared → Prop)
    (s0 : Shared) : Prop where
  free : ∀ i < 8, S.Free (p.cell + UInt64.ofNat i)
  found : ∀ s, C.others s0 s → A (s.mem.read p.cell 8)
  /-- The cell may stay as it is when there is nothing to record. -/
  kept : ∀ s x, C.others s0 s → A x → p.record k x = x → Q s
  allowed : ∀ s x, C.others s0 s → A x → C.ours s.mem (s.mem.write p.cell 8 (p.record k x))
  stored : ∀ s x s', C.others s0 s → A x → C.others ⟨s.mem.write p.cell 8 (p.record k x), s.reserved⟩ s' → Q s'

namespace Recording

variable {S : Site} {C : Company S} {p : TypeProfile} {k : Option UInt64} {A : UInt64 → Prop}
  {Q : Shared → Prop} {s0 s1 : Shared} {m : Machine} {E : Site.Exits} {R : Unit → Machine → Prop}

theorem later (h : Recording C p k A Q s0) (hs : C.others s0 s1) : Recording C p k A Q s1 where
  free := h.free
  found s hs' := h.found s (C.trans hs hs')
  kept s x hs' := h.kept s x (C.trans hs hs')
  allowed s x hs' := h.allowed s x (C.trans hs hs')
  stored s x s' hs' := h.stored s x s' (C.trans hs hs')

/-- What needs no record needs no look at the cell. -/
theorem same (h : Recording C p k A Q s0) (hsame : ∀ x, p.record k x = x) (hs : C.others s0 s1) : Q s1 :=
  h.kept s1 _ hs (h.found s1 hs) (hsame _)

theorem goes_load (h : Recording C p k A Q m.shared) (hbase : m.get t1 = p.cell)
    (hgo : ∀ x m', A x → C.Went t0 x m m' → R () m') : S.Goes C (ld t0 t1 0) m E R := by
  refine Site.goes_ld (by decide) fun m' hm' => hgo _ m' (h.found _ hm'.others) ?_
  rwa [hbase, show (0 : Int64).toUInt64 = 0 from rfl, UInt64.add_zero] at hm'

theorem goes_store {src : Reg} {x : UInt64} (h : Recording C p k A Q m.shared) (hx : A x) (hbase : m.get t1 = p.cell)
    (hsrc : m.get src = p.record k x) (hgo : ∀ m', (∀ s, C.others m'.shared s → Q s) → R () m') :
    S.Goes C (sd src t1 0) m E R := by
  refine Site.goes_sd (show _ = p.cell from ?_) h.free fun s hs => ?_
  · rw [hbase]
    exact UInt64.add_zero _
  · rw [hsrc]
    refine ⟨h.allowed s x hs hx, fun m' _ hshared => hgo m' fun s' hs' => h.stored s x s' hs hx ?_⟩
    rwa [hshared] at hs'

end Recording

namespace Site

variable {S : Site} {C : Company S} {p : TypeProfile} {A : UInt64 → Prop} {Q : Shared → Prop} {m : Machine} {E : Exits}
  {R : Unit → Machine → Prop} {obj tmp : Reg} {done : Label}

theorem proceeds_cellNull (hdone : S.Binds done) (hnull : m.get obj = 0 → Recording C p none A Q m.shared)
    (hE : ∀ m', m.get obj = 0 → Q m'.shared → E (.label done) m') (hgo : m.get obj ≠ 0 → ∀ m', C.Idled m m' → R () m') :
    S.Proceeds C (cellNull p done obj) m E R := by
  have hshape : cellNull p done obj = (do
      let notNull ← newLabel
      ((do
        branch .bne obj zr notNull
        if p.current.toInt64 &&& typeNullSeen = 0 then do
          li t1 p.cell.toInt64
          ld t0 t1 0
          ori t0 t0 typeNullSeen
          sd t0 t1 0
          j done
        else j done)
      >>= fun _ => (liftM (Asm.bind notNull) : Lower Unit) >>= fun _ => pure ())) := by
    unfold cellNull
    split <;> simp only [bind_assoc, bind_pure_unit]
  rw [hshape]
  refine .bind (proceeds_asm (goes_newLabel fun notNull => ?_))
  refine Proceeds.label fun hnotNull => ?_
  refine .bind (proceeds_asm (goes_branch rfl hnotNull (fun htaken m1 h1 => ?_) fun hnot m1 h1 => ?_))
  · exact .inl ⟨rfl, fun _ => proceeds_pure (hgo (of_decide_eq_true htaken) m1 h1)⟩
  have hzero : m.get obj = 0 := Classical.not_not.mp (of_decide_eq_false hnot)
  have hrec := (hnull hzero).later h1.others
  -- a record is made, or there is none to make
  have finish (m2 : Machine) (hq : ∀ s, C.others m2.shared s → Q s) :
      S.Proceeds C (liftM (j done) : Lower Unit) m2
        (E.or (.label notNull) fun m' => ∀ _ : Unit, S.Proceeds C (pure () : Lower Unit) m' E R)
        fun _ m' => S.Proceeds C (pure () : Lower Unit) m' E R :=
    proceeds_asm (goes_j hdone fun m3 h3 => .inr (hE m3 hzero (hq _ h3.others)))
  split
  case _ hunseen =>
    have hrecord (x : UInt64) : p.record none x = x ||| typeNullSeen.toUInt64 := if_pos hunseen
    refine .bind (proceeds_asm (goes_li (by decide) fun m2 h2 => ?_))
    rw [UInt64.toUInt64_toInt64] at h2
    refine .bind (proceeds_asm ((hrec.later h2.others).goes_load h2.value fun x m3 hx h3 => ?_))
    refine .bind (proceeds_asm (goes_ori (by decide) fun m4 h4 => .bind (proceeds_asm ?_)))
    have hothers := C.trans h2.others (C.trans h3.others h4.others)
    refine (hrec.later hothers).goes_store hx ?_ ?_ fun m5 hq => finish m5 hq
    · rw [h4.rest _ (by decide), h3.rest _ (by decide), h2.value]
    · rw [h4.value, h3.value, hrecord]
  case _ hseen =>
    have hrecord (x : UInt64) : p.record none x = x := if_neg hseen
    exact finish m1 fun s hs => hrec.same hrecord hs

set_option synthInstance.maxSize 512 in
/-- The code for a type that nothing settles beforehand. -/
theorem proceeds_cellType {k : UInt64} {tmp : Fin 32} (hopts : S.target.opts.refusal? = none) (hdone : S.Binds done)
    (htmp : (Reg.x tmp).isReserved = false) (hsettled : cellSettled p = false)
    (hexact : p.exactKlass ≠ 0 → p.exactKlass = k)
    (hklass : ∀ s, C.others m.shared s → S.target.opts.klassAt s.mem (m.get obj) = k)
    (hrec : Recording C p (some k) A Q m.shared) (hE : ∀ m', Q m'.shared → E (.label done) m')
    (hR : ∀ m', Q m'.shared → R () m') : S.Proceeds C (cellType p obj (.x tmp) done) m E R := by
  have hkeeps : Keeps (.x tmp) := Machine.keeps_x (Reg.ne_of_free htmp rfl)
  have ht0 : Reg.x tmp ≠ t0 := Reg.ne_of_free htmp rfl
  have ht1 : Reg.x tmp ≠ t1 := Reg.ne_of_free htmp rfl
  -- from where the type is in the temporary
  have hgo (conflict : Label) (m1 : Machine) (hk : m1.get (.x tmp) = k) (hothers : C.others m.shared m1.shared) :
      S.Proceeds C (((do
          li t1 p.cell.toInt64
          ld t0 t1 0
          xor (.x tmp) (.x tmp) t0
          andi t1 (.x tmp) typeKlassMask
          branch .beq t1 zr done
          andi t1 t0 typeUnknown
          branch .bne t1 zr done
          andi t1 t0 typeKlassMask
          branch .bne t1 zr conflict
          li t1 p.cell.toInt64
          sd (.x tmp) t1 0
          j done) : Lower Unit)
        >>= fun _ => (liftM (Asm.bind conflict) : Lower Unit) >>= fun _ => (do
          ori t0 t0 typeUnknown
          li t1 p.cell.toInt64
          sd t0 t1 0)) m1 E R := by
    have hrec := hrec.later hothers
    refine .label fun hconflict => ?_
    refine .bind (proceeds_asm (goes_li (by decide) fun m2 h2 => ?_))
    rw [UInt64.toUInt64_toInt64] at h2
    refine .bind (proceeds_asm ((hrec.later h2.others).goes_load h2.value fun x m3 hx h3 => ?_))
    have hrecord : p.record (some k) x = if cellKlass (k ^^^ x) = 0 then x else if x &&& typeUnknown.toUInt64 ≠ 0 then x
        else if cellKlass x ≠ 0 then x ||| typeUnknown.toUInt64 else k ^^^ x := by
      rw [TypeProfile.record, hsettled, if_neg (by decide)]
    have hrec3 := (hrec.later h2.others).later h3.others
    refine .bind (proceeds_asm (goes_xor hkeeps fun m4 h4 =>
      .bind (proceeds_asm (goes_andi (by decide) fun m5 h5 => ?_))))
    have htmp4 : m4.get (.x tmp) = k ^^^ x := by
      rw [h4.value, h3.value, h3.rest _ ht0, h2.rest _ ht1, hk]
    have hx4 : m4.get t0 = x := (h4.rest _ ht0.symm).trans h3.value
    have hrec5 := (hrec3.later h4.others).later h5.others
    rw [htmp4] at h5
    refine .bind (proceeds_asm (goes_branch rfl hdone (fun htaken m6 h6 => .inr (hE m6 ?_)) fun hnot m6 h6 => ?_))
    · have hsame : cellKlass (k ^^^ x) = 0 := h5.value.symm.trans (of_decide_eq_true htaken)
      exact hrec5.kept _ x h6.others hx (by rw [hrecord, if_pos hsame])
    have hdiffers : ¬ cellKlass (k ^^^ x) = 0 := fun e => of_decide_eq_false hnot (h5.value.trans e)
    rw [if_neg hdiffers] at hrecord
    refine .bind (proceeds_asm (goes_andi (by decide) fun m7 h7 => ?_))
    have hrec7 := (hrec5.later h6.others).later h7.others
    have hx6 : m6.get t0 = x := by rw [h6.regs, h5.rest _ (by decide), hx4]
    rw [hx6] at h7
    refine .bind (proceeds_asm (goes_branch rfl hdone (fun htaken m8 h8 => .inr (hE m8 ?_)) fun hnot m8 h8 => ?_))
    · have hseveral : x &&& typeUnknown.toUInt64 ≠ 0 := fun e => of_decide_eq_true htaken (h7.value.trans e)
      exact hrec7.kept _ x h8.others hx (by rw [hrecord, if_pos hseveral])
    have hone : x &&& typeUnknown.toUInt64 = 0 := h7.value.symm.trans (Classical.not_not.mp (of_decide_eq_false hnot))
    rw [if_neg (fun h => h hone)] at hrecord
    refine .bind (proceeds_asm (goes_andi (by decide) fun m9 h9 => ?_))
    have hrec9 := (hrec7.later h8.others).later h9.others
    have hx8 : m8.get t0 = x := by rw [h8.regs, h7.rest _ (by decide), hx6]
    rw [hx8] at h9
    refine .bind (proceeds_asm (goes_branch rfl hconflict (fun htaken m10 h10 =>
      .inl ⟨rfl, fun _ => ?_⟩) fun hnot m10 h10 => ?_))
    · -- there is another type in the cell
      have hother : cellKlass x ≠ 0 := fun e => of_decide_eq_true htaken (h9.value.trans e)
      rw [if_pos hother] at hrecord
      refine .bind (proceeds_asm (goes_ori (by decide) fun m11 h11 =>
        .bind (proceeds_asm (goes_li (by decide) fun m12 h12 => ?_))))
      have hrec12 := ((hrec9.later h10.others).later h11.others).later h12.others
      refine proceeds_asm (hrec12.goes_store hx (by rw [h12.value, UInt64.toUInt64_toInt64]) ?_ fun m13 hq =>
        hR m13 (hq _ (C.refl _)))
      rw [h12.rest _ (by decide), h11.value, h10.regs, h9.rest _ (by decide), hx8, hrecord]
    · -- the cell is empty
      have hempty : cellKlass x = 0 := h9.value.symm.trans (Classical.not_not.mp (of_decide_eq_false hnot))
      rw [if_neg (fun h => h hempty)] at hrecord
      refine .bind (proceeds_asm (goes_li (by decide) fun m11 h11 => ?_))
      have hrec11 := (hrec9.later h10.others).later h11.others
      refine .bind (proceeds_asm (hrec11.goes_store hx (by rw [h11.value, UInt64.toUInt64_toInt64]) ?_ fun m12 hq => ?_))
      · rw [h11.rest _ ht1, h10.regs, h9.rest _ ht1, h8.regs, h7.rest _ ht1, h6.regs, h5.rest _ ht1, htmp4, hrecord]
      · exact proceeds_asm (goes_j hdone fun m13 h13 => .inr (hE m13 (hq _ h13.others)))
  unfold cellType
  dsimp only
  refine .bind (proceeds_asm (goes_newLabel fun conflict => ?_))
  split
  case _ hknown =>
    refine .bind (proceeds_asm (goes_li hkeeps fun m1 h1 => ?_))
    rw [UInt64.toUInt64_toInt64, hexact hknown] at h1
    simpa only [bind_assoc] using hgo conflict m1 h1.value h1.others
  case _ =>
    refine .bind (proceeds_asm (goes_loadKlass hopts hkeeps (by decide) ht0.symm hklass fun m1 hk _ hothers => ?_))
    simpa only [bind_assoc] using hgo conflict m1 hk hothers

/-- The code of a profile records the type of the value, or that it is null. -/
theorem proceeds_profileType {i : Instruction} {o : Operand} {k : Option UInt64} {tmp : Fin 32}
    (hopts : S.target.opts.refusal? = none) (hin : i.inputs[0]? = some o) (hobj : o.reg = .ok obj)
    (hp : i.typeProfile = some p) (hreg : p.tmp.reg = .ok (.x tmp)) (htmp : (Reg.x tmp).isReserved = false)
    (hnone : k = none → p.notNull = false ∧ m.get obj = 0)
    (hsome : ∀ c, k = some c → (p.notNull = false → m.get obj ≠ 0) ∧ (p.exactKlass ≠ 0 → p.exactKlass = c) ∧
      ∀ s, C.others m.shared s → S.target.opts.klassAt s.mem (m.get obj) = c)
    (hrec : Recording C p k A Q m.shared) : S.Proceeds C (profileType i) m E fun _ m' => Q m'.shared := by
  unfold profileType
  refine .bind (proceeds_lift fun o' ho => .bind (proceeds_lift fun obj' hobj' => .bind (proceeds_lift fun p' hp' => ?_)))
  rw [input_eq_ok, hin] at ho
  rw [payload_eq_ok, hp] at hp'
  cases ho
  cases hp'
  obtain ⟨_, _, rfl⟩ := reg_eq_ok hobj'
  cases hobj
  refine .bind (proceeds_lift fun tmp' htmp' =>
    .bind (proceeds_lift fun _ _ => .bind (proceeds_asm (goes_newLabel fun done => ?_))))
  obtain rfl : tmp' = .x tmp := by
    obtain ⟨_, _, e⟩ := reg_eq_ok htmp'
    rw [e] at hreg
    exact Except.ok.inj hreg
  -- two parts, either of which may end at the label
  suffices h : S.Proceeds C (((if !p.notNull then cellNull p done obj else pure ()) >>= fun _ =>
      if !cellSettled p then cellType p obj (.x tmp) done else pure ()) >>= fun _ =>
      (liftM (Asm.bind done) : Lower Unit) >>= fun _ => pure ()) m E fun _ m' => Q m'.shared by
    dsimp only
    split <;> split <;> simpa only [*, Bool.false_eq_true, if_true, if_false, bind_assoc,
      pure_bind, bind_pure_unit] using h
  refine Proceeds.label fun hdone => .bind ?_
  have finish (m1 : Machine) (hq : Q m1.shared) : S.Proceeds C (pure () : Lower Unit) m1 E fun _ m' => Q m'.shared :=
    proceeds_pure hq
  have hexit (m1 : Machine) (hq : Q m1.shared) : (E.or (.label done) fun m' => ∀ _ : Unit,
      S.Proceeds C (pure () : Lower Unit) m' E fun _ m' => Q m'.shared) (.label done) m1 :=
      .inl ⟨rfl, fun _ => finish m1 hq⟩
  have htype (m1 : Machine) (hidled : C.Idled m m1) (hsome' : k ≠ none) : S.Proceeds C
      (if !cellSettled p then cellType p obj (.x tmp) done else pure ()) m1
      (E.or (.label done) fun m' => ∀ _ : Unit, S.Proceeds C (pure () : Lower Unit) m' E fun _ m' => Q m'.shared)
      fun _ m' => S.Proceeds C (pure () : Lower Unit) m' E fun _ m' => Q m'.shared := by
    obtain ⟨c, rfl⟩ := Option.ne_none_iff_exists'.mp hsome'
    obtain ⟨-, hexact, hklass⟩ := hsome c rfl
    cases hsettled : cellSettled p with
    | true => exact proceeds_pure (finish m1 (hrec.same (fun x => if_pos hsettled) hidled.others))
    | false =>
      refine proceeds_cellType hopts hdone htmp hsettled hexact (fun s hs => ?_) (hrec.later hidled.others)
        (fun m' hq => hexit m' hq) fun m' hq => finish m' hq
      rw [hidled.regs]
      exact hklass s (C.trans hidled.others hs)
  cases hnotNull : p.notNull with
  | true => exact proceeds_pure (htype m ⟨fun _ => rfl, C.refl _⟩ fun e => by simp [hnone e] at hnotNull)
  | false =>
    refine proceeds_cellNull (A := A) (Q := Q) hdone (fun hnull => ?_) (fun m' _ hq => hexit m' hq) fun hnonnull m1 h1 =>
      htype m1 h1 fun e => hnonnull (hnone e).2
    cases k with
    | none => exact hrec
    | some c => exact absurd hnull ((hsome c rfl).1 hnotNull)

end Site

end RiscvJit

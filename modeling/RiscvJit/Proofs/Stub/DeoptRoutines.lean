import Mathlib.Data.List.Chain
import Mathlib.Data.List.Perm.Basic
import RiscvJit.Proofs.Deopt.FramesApart
import RiscvJit.Proofs.Stub.ValueCapture

/-
  RiscvJit.Proofs.Stub.DeoptRoutines — every live value gets to its slot of the interpreter.

  The first routine of a plan copies the values into an area of their own. The second one performs the
  stores of the plans one after the other, and goes from a frame to the next by the saved frame pointer;
  `fillMemory` is exactly the memory it leaves, whatever the frames are (`routines_run`).

  What is stored is right as long as no store writes over another one, over a saved frame pointer that
  is still needed, or over the captured values. That is so when no size of the plan wraps
  (`live_values_arrive`). A frame with 2^61 - 1 locals is accepted, and its first local is stored over
  its saved frame pointer; then the frame of its caller is not filled (`caller_is_not_filled`).
-/

namespace RiscvJit

open Reg (ra t0 t1 fp)
open Ram
open Site

/-! ## The second routine -/

/-- The word that a store writes, with the captured values in their area. -/
def SlotSource.load (values fp : UInt64) (mem : Ram) : SlotSource → UInt64
  | .value i => mem.read (values + UInt64.ofNat (8 * i)) 8
  | .const bits => bits.toUInt64
  | .framePointer off => fp + off.toUInt64

/-- Memory after one store of a plan. -/
def SlotStore.perform (values fp : UInt64) (mem : Ram) (s : SlotStore) : Ram :=
  mem.write (fp + s.offset.toUInt64) 8 (s.source.load values fp mem)

/-- Memory after all stores of a plan. -/
def FramePlan.perform (values fp : UInt64) (mem : Ram) (p : FramePlan) : Ram :=
  p.stores.foldl (SlotStore.perform values fp) mem

/-- Memory after all plans, from the frame at `fp` on. -/
def fillMemory (values : UInt64) : UInt64 → List FramePlan → Ram → Ram
  | _, [], mem => mem
  | fp, p :: rest, mem => fillMemory values ((p.perform values fp mem).read fp 8) rest (p.perform values fp mem)

/-- No store of the plans writes to the code. -/
def FillClear (Clear : UInt64 → Prop) (values : UInt64) : UInt64 → List FramePlan → Ram → Prop
  | _, [], _ => True
  | fp, p :: rest, mem => (∀ s ∈ p.stores, ∀ i < 8, Clear (fp + s.offset.toUInt64 + UInt64.ofNat i)) ∧
      FillClear Clear values ((p.perform values fp mem).read fp 8) rest (p.perform values fp mem)

namespace Stub

open Asm

instance traced_fillSlot (s : SlotStore) : Traced (fillSlot s) := by
  unfold fillSlot
  split <;> infer_instance

instance traced_fillPlans (plans : List FramePlan) : Traced (fillPlans plans) := by
  induction plans with
  | nil => exact traced_pure ()
  | cons p rest ih =>
    unfold fillPlans
    infer_instance

section
variable {S : Site} {m : Machine} {E : Exits} {values fp : UInt64}

theorem does_fillSlot {s : SlotStore} (hvalues : m.get (.x 10) = values) (hfp : m.get (.x 11) = fp)
    (hfree : ∀ i < 8, S.Free (fp + s.offset.toUInt64 + UInt64.ofNat i)) : S.Does (fillSlot s) m E fun _ m' =>
      m'.mem = s.perform values fp m.mem ∧ ∀ r, r ∉ [t0, t1] → m'.get r = m.get r := by
  have hstore {m1 : Machine} (h1 : Put t0 [t1] (s.source.load values fp m.mem) m m1) :
      S.Does (storeOff .sd t0 (.x 11) s.offset t1) m1 E fun _ m' =>
        m'.mem = s.perform values fp m.mem ∧ ∀ r, r ∉ [t0, t1] → m'.get r = m.get r := by
    have hbase : m1.get (.x 11) = fp := (h1.rest _ (by decide) (by decide)).trans hfp
    refine does_storeOff rfl rfl (by decide) (by rwa [hbase]) fun m2 h2 => ⟨?_, fun r hr => ?_⟩
    · rw [h2.mem, hbase, h1.value, h1.mem, SlotStore.perform]
    · rw [h2.rest r (by simp_all), h1.rest r (by simp_all) (by simp_all)]
  unfold fillSlot
  split
  · case _ i hsource =>
    refine .bind (does_loadOff rfl rfl (by decide) (by decide) fun m1 h1 => hstore ?_)
    rw [hvalues, toUInt64_wordOffset] at h1
    rw [hsource]
    exact ⟨h1.value, fun r hr _ => h1.rest r hr (by simpa using hr), h1.mem⟩
  · case _ bits hsource =>
    refine .bind (does_li fun m1 h1 => hstore ?_)
    rw [hsource]
    exact ⟨h1.value, fun r hr _ => h1.other r hr, h1.mem⟩
  · case _ off hsource =>
    refine .bind (does_addImm (by decide) (by decide) fun m1 h1 => hstore ?_)
    rw [hsource, SlotSource.load, ← hfp]
    exact h1

theorem does_fillFrame {p : FramePlan} (hvalues : m.get (.x 10) = values) (hfp : m.get (.x 11) = fp)
    (hfree : ∀ s ∈ p.stores, ∀ i < 8, S.Free (fp + s.offset.toUInt64 + UInt64.ofNat i)) :
    S.Does (p.stores.forM fillSlot) m E fun _ m' =>
      m'.mem = p.perform values fp m.mem ∧ ∀ r, r ∉ [t0, t1] → m'.get r = m.get r := by
  refine Does.forM (fun rest m' => rest.foldl (SlotStore.perform values fp) m'.mem = p.perform values fp m.mem ∧
    (∀ s ∈ rest, s ∈ p.stores) ∧ ∀ r, r ∉ [t0, t1] → m'.get r = m.get r) (fun s rest m1 ⟨hmem, hrest, hregs⟩ => ?_)
    ⟨rfl, fun _ h => h, fun _ _ => rfl⟩ fun m' ⟨hmem, _, hregs⟩ => ⟨hmem, hregs⟩
  refine (does_fillSlot ((hregs _ (by decide)).trans hvalues) ((hregs _ (by decide)).trans hfp)
    (hfree s (hrest s List.mem_cons_self))).imp (fun _ _ h => h) fun _ m2 ⟨hmem2, hregs2⟩ =>
    ⟨?_, fun s' hs' => hrest s' (List.mem_cons_of_mem _ hs'), fun r hr => (hregs2 r hr).trans (hregs r hr)⟩
  rw [hmem2, ← hmem, List.foldl_cons]

theorem does_fillPlans {plans : List FramePlan} (hvalues : m.get (.x 10) = values) (hfp : m.get (.x 11) = fp)
    (hfree : FillClear S.Free values fp plans m.mem) : S.Does (fillPlans plans) m E fun _ m' =>
      m'.mem = fillMemory values fp plans m.mem ∧ ∀ r, r ∉ [t0, t1, .x 11] → m'.get r = m.get r := by
  induction plans generalizing m fp with
  | nil => exact does_pure ⟨rfl, fun _ _ => rfl⟩
  | cons p rest ih =>
    obtain ⟨hfirst, hothers⟩ := hfree
    refine .bind ((does_fillFrame hvalues hfp hfirst).imp (fun _ _ h => h) fun _ m1 ⟨hmem1, hregs1⟩ => ?_)
    rw [← hmem1] at hothers
    have hvalues1 : m1.get (.x 10) = values := (hregs1 _ (by decide)).trans hvalues
    have hfp1 : m1.get (.x 11) = fp := (hregs1 _ (by decide)).trans hfp
    dsimp only
    cases rest with
    | nil =>
      refine does_pure ⟨hmem1, fun r hr => hregs1 r fun h => hr (by simp_all)⟩
    | cons p' rest =>
      refine .bind (does_ld fun m2 h2 => ?_)
      rw [hfp1, show (0 : Int64).toUInt64 = 0 from rfl, UInt64.add_zero] at h2
      refine (ih ((h2.other _).trans hvalues1) h2.value (by rw [h2.mem]; exact hothers)).imp (fun _ _ h => h)
        fun _ m3 ⟨hmem3, hregs3⟩ => ⟨?_, fun r hr => ?_⟩
      · rw [hmem3, h2.mem, hmem1, ← fillMemory]
      · rw [hregs3 r hr, h2.other r (by simp_all), hregs1 r fun h => hr (by simp_all)]

end

end Stub
/-! ## Words apart -/

/-- Memory after words were written one after the other. -/
def Ram.writes (mem : Ram) (ws : List (UInt64 × UInt64)) : Ram := ws.foldl (fun mem w => mem.write w.1 8 w.2) mem

section
variable {mem : Ram} {ws : List (UInt64 × UInt64)}

theorem Ram.writes_append (us : List (UInt64 × UInt64)) : mem.writes (us ++ ws) = (mem.writes us).writes ws :=
  List.foldl_append ..

theorem Ram.writes_apart {x : UInt64} (hend : ∀ w ∈ ws, w.1.toNat + 8 ≤ 2 ^ 64) (h : ∀ w ∈ ws, ¬ Spans w.1.toNat 8 x) :
    mem.writes ws x = mem x := by
  induction ws generalizing mem with
  | nil => rfl
  | cons w rest ih =>
    show (mem.write w.1 8 w.2).writes rest x = _
    rw [ih (fun v hv => hend v (List.mem_cons_of_mem _ hv)) fun v hv => h v (List.mem_cons_of_mem _ hv),
      write_apart _ _ (hend w List.mem_cons_self) (h w List.mem_cons_self)]

theorem Ram.read_writes_apart {a : UInt64} {n : Nat} (ha : a.toNat + n ≤ 2 ^ 64) (hend : ∀ w ∈ ws, w.1.toNat + 8 ≤ 2 ^ 64)
    (h : ∀ w ∈ ws, a.toNat + n ≤ w.1.toNat ∨ w.1.toNat + 8 ≤ a.toNat) : (mem.writes ws).read a n = mem.read a n := by
  refine read_same ha fun x hx => writes_apart hend fun w hw hin => ?_
  have := h w hw
  omega

/-- Words that are written apart from each other are there in the end. -/
theorem Ram.read_writes (hend : ∀ w ∈ ws, w.1.toNat + 8 ≤ 2 ^ 64)
    (hapart : ws.Pairwise fun v w => Apart v.1.toNat w.1.toNat) {w : UInt64 × UInt64} (hw : w ∈ ws) :
    (mem.writes ws).read w.1 8 = w.2 := by
  induction ws generalizing mem with
  | nil => cases hw
  | cons v rest ih =>
    obtain ⟨hfirst, hrest⟩ := List.pairwise_cons.mp hapart
    have hendRest : ∀ w ∈ rest, w.1.toNat + 8 ≤ 2 ^ 64 := fun w hw => hend w (List.mem_cons_of_mem _ hw)
    show ((mem.write v.1 8 v.2).writes rest).read w.1 8 = w.2
    rcases List.mem_cons.mp hw with rfl | hw
    · rw [read_writes_apart (hend w List.mem_cons_self) hendRest fun u hu => ?_, read_write_eight]
      have := hfirst u hu
      unfold Apart at this
      omega
    · exact ih hendRest hrest hw

end

/-- The words that the stores of placed frames write to. -/
def storeWords (placed : List (UInt64 × FramePlan)) : List UInt64 :=
  placed.flatMap fun (fp, p) => p.stores.map fun s => fp + s.offset.toUInt64

/-- The words with what is written to them. -/
def placedStores (values : UInt64) (mem : Ram) (placed : List (UInt64 × FramePlan)) : List (UInt64 × UInt64) :=
  placed.flatMap fun (fp, p) => p.stores.map fun s => (fp + s.offset.toUInt64, s.source.load values fp mem)

theorem map_placedStores (values : UInt64) (mem : Ram) (placed : List (UInt64 × FramePlan)) :
    (placedStores values mem placed).map (·.1) = storeWords placed := by
  simp [placedStores, storeWords, List.map_flatMap, Function.comp_def]

/-- Frames lie in memory, each linked to the next one, and no store writes to a link or to the captured values. -/
structure FramesLaid (values : UInt64) (n : Nat) (mem : Ram) (placed : List (UInt64 × FramePlan)) : Prop where
  linked : placed.IsChain fun x y => mem.read x.1 8 = y.1
  linkEnd : ∀ x ∈ placed, x.1.toNat + 8 ≤ 2 ^ 64
  wordEnd : ∀ a ∈ storeWords placed, a.toNat + 8 ≤ 2 ^ 64
  links : ∀ x ∈ placed, ∀ a ∈ storeWords placed, Apart x.1.toNat a.toNat
  area : values.toNat + 8 * n ≤ 2 ^ 64
  areaApart : ∀ a ∈ storeWords placed, a.toNat + 8 ≤ values.toNat ∨ values.toNat + 8 * n ≤ a.toNat
  sources : ∀ x ∈ placed, ∀ s ∈ x.2.stores, ∀ i, s.source = .value i → i < n

section
variable {values fp : UInt64} {n : Nat} {mem mem' : Ram} {rest placed : List (UInt64 × FramePlan)}

/-- What is loaded depends on the area of the captured values only. -/
theorem SlotSource.load_congr {src : SlotSource} (hn : ∀ i, src = .value i → i < n)
    (hmem : ∀ i < n, mem'.read (values + UInt64.ofNat (8 * i)) 8 = mem.read (values + UInt64.ofNat (8 * i)) 8) :
    src.load values fp mem' = src.load values fp mem := by
  cases src with
  | value i => exact hmem i (hn i rfl)
  | const bits => rfl
  | framePointer off => rfl

/-- Writing words of the frames leaves the captured values alone. -/
theorem FramesLaid.kept (h : FramesLaid values n mem placed) {ws : List (UInt64 × UInt64)}
    (hws : ∀ w ∈ ws, w.1 ∈ storeWords placed) {i : Nat} (hi : i < n) :
    (mem.writes ws).read (values + UInt64.ofNat (8 * i)) 8 = mem.read (values + UInt64.ofNat (8 * i)) 8 := by
  have harea := h.area
  have hword : (values + UInt64.ofNat (8 * i)).toNat = values.toNat + 8 * i := toNat_off (by omega)
  refine read_writes_apart (by omega) (fun w hw => h.wordEnd _ (hws w hw)) fun w hw => ?_
  have := h.areaApart _ (hws w hw)
  omega

/-- The stores of one frame write what they would write at once. -/
theorem FramesLaid.perform (h : FramesLaid values n mem placed) {stores : List SlotStore}
    (hstores : ∀ s ∈ stores, fp + s.offset.toUInt64 ∈ storeWords placed ∧ ∀ i, s.source = .value i → i < n) :
    stores.foldl (SlotStore.perform values fp) mem =
      mem.writes (stores.map fun s => (fp + s.offset.toUInt64, s.source.load values fp mem)) := by
  -- after some of the stores, with all of them in view
  have hgo (done left : List SlotStore) (hall : stores = done ++ left) :
      left.foldl (SlotStore.perform values fp) (mem.writes (done.map fun s =>
      (fp + s.offset.toUInt64, s.source.load values fp mem))) =
        mem.writes (stores.map fun s => (fp + s.offset.toUInt64, s.source.load values fp mem)) := by
    induction left generalizing done with
    | nil => rw [hall, List.append_nil]; rfl
    | cons s left ih =>
      have hs : s ∈ stores := by rw [hall]; exact List.mem_append_right _ List.mem_cons_self
      rw [← ih (done ++ [s]) (by rw [hall, List.append_assoc]; rfl), List.foldl_cons, List.map_append, writes_append]
      congr 1
      rw [SlotStore.perform, SlotSource.load_congr (hstores s hs).2 fun i hi => h.kept (fun w hw => ?_) hi]
      · rfl
      · obtain ⟨s', hs', rfl⟩ := List.mem_map.mp hw
        exact (hstores s' (by rw [hall]; exact List.mem_append_left _ hs')).1
  exact hgo [] stores rfl

/-- What is written into a frame leaves the other frames as they are. -/
theorem FramesLaid.tail {y : UInt64 × FramePlan} (h : FramesLaid values n mem (y :: rest)) {ws : List (UInt64 × UInt64)}
    (hws : ∀ w ∈ ws, w.1 ∈ storeWords (y :: rest)) : FramesLaid values n (mem.writes ws) rest ∧
      ∀ x ∈ y :: rest, (mem.writes ws).read x.1 8 = mem.read x.1 8 := by
  have hlater {a : UInt64} (ha : a ∈ storeWords rest) : a ∈ storeWords (y :: rest) := List.mem_append_right _ ha
  have hlink : ∀ x ∈ y :: rest, (mem.writes ws).read x.1 8 = mem.read x.1 8 := fun x hx => by
    refine read_writes_apart (h.linkEnd x hx) (fun w hw => h.wordEnd _ (hws w hw)) fun w hw => ?_
    have := h.links x hx _ (hws w hw)
    unfold Apart at this
    omega
  refine ⟨⟨?_, fun x hx => h.linkEnd x (List.mem_cons_of_mem _ hx), fun a ha => h.wordEnd a (hlater ha),
    fun x hx a ha => h.links x (List.mem_cons_of_mem _ hx) a (hlater ha), h.area, fun a ha => h.areaApart a (hlater ha),
    fun x hx => h.sources x (List.mem_cons_of_mem _ hx)⟩, hlink⟩
  refine List.IsChain.imp_of_mem_imp (fun x z hx _ hxz => ?_) h.linked.of_cons
  rw [hlink x (List.mem_cons_of_mem _ hx), hxz]

/-- Filling the frames writes every word that their stores name. -/
theorem FramesLaid.fill {Clear : UInt64 → Prop} (h : FramesLaid values n mem placed)
    (hhead : ∀ x ∈ placed.head?, x.1 = fp)
    (hclear : ∀ a ∈ storeWords placed, ∀ i < 8, Clear (a + UInt64.ofNat i)) :
    FillClear Clear values fp (placed.map (·.2)) mem ∧
      fillMemory values fp (placed.map (·.2)) mem = mem.writes (placedStores values mem placed) := by
  induction placed generalizing mem fp with
  | nil => exact ⟨trivial, rfl⟩
  | cons x rest ih =>
    cases hhead x rfl
    have hown {s : SlotStore} (hs : s ∈ x.2.stores) : x.1 + s.offset.toUInt64 ∈ storeWords (x :: rest) :=
      List.mem_append_left _ (List.mem_map_of_mem hs)
    have hperform : x.2.perform values x.1 mem = mem.writes (x.2.stores.map fun s =>
        (x.1 + s.offset.toUInt64, s.source.load values x.1 mem)) :=
      h.perform fun s hs => ⟨hown hs, h.sources x List.mem_cons_self s hs⟩
    have hwords : ∀ w ∈ x.2.stores.map (fun s => (x.1 + s.offset.toUInt64, s.source.load values x.1 mem)),
        w.1 ∈ storeWords (x :: rest) := fun w hw => by
      obtain ⟨s, hs, rfl⟩ := List.mem_map.mp hw
      exact hown hs
    obtain ⟨htail, hlink⟩ := h.tail hwords
    have hsame : placedStores values (x.2.perform values x.1 mem) rest = placedStores values mem rest := by
      rw [hperform]
      refine List.flatMap_congr fun y hy => List.map_congr_left fun s hs => ?_
      rw [SlotSource.load_congr (h.sources y (List.mem_cons_of_mem _ hy) s hs) fun i hi => h.kept hwords hi]
    have hnext : ∀ z ∈ rest.head?, z.1 = (x.2.perform values x.1 mem).read x.1 8 := fun z hz => by
      rw [hperform, hlink x List.mem_cons_self]
      cases rest with
      | nil => cases hz
      | cons z' rest =>
        cases hz
        exact (List.isChain_cons_cons.mp h.linked).1.symm
    rw [← hperform] at htail
    obtain ⟨hclearRest, hfill⟩ := ih htail hnext fun a ha => hclear a (List.mem_append_right _ ha)
    refine ⟨⟨fun s hs => hclear _ (hown hs), hclearRest⟩, ?_⟩
    show fillMemory values _ (rest.map (·.2)) _ = _
    rw [hfill, hsame, hperform, ← writes_append]
    rfl

end
/-! ## Frames of a plan -/

open InterpreterShape (riscv)

theorem zipIdx_reverse {α : Type} (l : List α) :
    l.reverse.zipIdx = (l.zipIdx.map fun (x, k) => (x, l.length - 1 - k)).reverse := by
  refine List.ext_getElem (by simp) fun i h1 h2 => ?_
  simp only [List.length_zipIdx, List.length_reverse] at h1
  simp only [List.getElem_zipIdx, List.getElem_reverse, List.getElem_map, List.length_map, List.length_zipIdx]
  congr 1
  omega

theorem toInt_toUInt64 (off : Int64) : off.toInt = off.toUInt64.toNat ∨
    off.toInt = (off.toUInt64.toNat : Int) - 2 ^ 64 := by
  have h : off.toInt = off.toBitVec.toInt := rfl
  have h' : off.toUInt64.toNat = off.toBitVec.toNat := rfl
  rw [h, h', BitVec.toInt_eq_toNat_cond]
  split
  · exact .inl rfl
  · exact .inr rfl

theorem toNat_add_signed {a : UInt64} {off : Int64} (h0 : 0 ≤ (a.toNat : Int) + off.toInt)
    (h : (a.toNat : Int) + off.toInt < 2 ^ 64) :
    ((a + off.toUInt64).toNat : Int) = a.toNat + off.toInt := by
  have := off.toUInt64.toNat_lt
  rw [UInt64.toNat_add]
  rcases toInt_toUInt64 off with hoff | hoff <;> omega

theorem toNat_sub_signed {a : UInt64} {off : Int64} (h0 : 0 ≤ (a.toNat : Int) - off.toInt)
    (h : (a.toNat : Int) - off.toInt < 2 ^ 64) :
    ((a - off.toUInt64).toNat : Int) = a.toNat - off.toInt := by
  have := off.toUInt64.toNat_lt
  rw [UInt64.toNat_sub]
  rcases toInt_toUInt64 off with hoff | hoff <;> omega

namespace UnrollBlock

variable {u : UnrollBlock} {sender : UInt64}

/-- The frames of a plan where they are, innermost first. -/
def placed (u : UnrollBlock) (sender : UInt64) : List (UInt64 × FramePlan) :=
  u.frames.zipIdx.map fun (f, k) => (u.framePointer sender (u.frames.length - 1 - k), f)

theorem placed_plans : (u.placed sender).map (·.2) = u.frames := by
  simp [placed, Function.comp_def]

theorem mem_placed {x : UInt64 × FramePlan} (h : x ∈ u.placed sender) :
    ∃ k, u.frames[k]? = some x.2 ∧ x.1 = u.framePointer sender (u.frames.length - 1 - k) := by
  obtain ⟨⟨f, k⟩, hmem, rfl⟩ := List.mem_map.mp h
  exact ⟨k, List.mem_zipIdx_iff_getElem?.mp hmem, rfl⟩

/-- The words of the stores and the saved frame pointers, as numbers. -/
theorem words_placed (u : UnrollBlock) (shape : InterpreterShape) (s : Int) (h : (u.words shape s).Pairwise Apart) :
    ((u.frames.zipIdx.map fun (f, k) => (f, u.frames.length - 1 - k)).flatMap fun (f, i) =>
      f.stores.map fun st => u.stackPointer s i - 16 + st.offset.toInt).Pairwise Apart ∧
    ∀ k f j g, u.frames[k]? = some f → u.frames[j]? = some g → ∀ st ∈ g.stores,
      Apart (u.stackPointer s (u.frames.length - 1 - k) - 16)
      (u.stackPointer s (u.frames.length - 1 - j) - 16 + st.offset.toInt) := by
  let frames := u.frames.zipIdx.map fun (f, k) => (f, u.frames.length - 1 - k)
  let links : FramePlan × Nat → List Int := fun (_, i) =>
    let fp := u.stackPointer s i - 16
    [fp + 8, fp, fp + 8 * shape.senderSp.toInt, fp + 8 * shape.lastSp.toInt]
  let stores : FramePlan × Nat → List Int := fun (f, i) => f.stores.map fun st =>
    u.stackPointer s i - 16 + st.offset.toInt
  have hperm : (u.words shape s).Perm (frames.flatMap links ++ frames.flatMap stores) := by
    rw [UnrollBlock.words, zipIdx_reverse]
    exact ((List.reverse_perm _).flatMap_right _).trans (List.flatMap_append_perm frames links stores).symm
  obtain ⟨-, hstores, hacross⟩ := List.pairwise_append.mp (hperm.pairwise h Or.symm)
  refine ⟨hstores, fun k f j g hk hj st hst => hacross _ ?_ _ ?_⟩
  · refine List.mem_flatMap.mpr ⟨(f, u.frames.length - 1 - k),
      List.mem_map.mpr ⟨(f, k), List.mem_zipIdx_iff_getElem?.mpr hk, rfl⟩, ?_⟩
    exact List.mem_cons_of_mem _ List.mem_cons_self
  · exact List.mem_flatMap.mpr ⟨(g, u.frames.length - 1 - j),
      List.mem_map.mpr ⟨(g, j), List.mem_zipIdx_iff_getElem?.mpr hj, rfl⟩, List.mem_map_of_mem hst⟩

section
variable {i j : Nat} {s : Int}

theorem stackPointer_succ {size : Int64} (h : u.frameSizes[i]? = some size) :
    u.stackPointer s (i + 1) = u.stackPointer s i - size.toInt := by
  rw [stackPointer, stackPointer, List.take_add_one, h, Option.toList_some, List.map_append, List.sum_append,
    List.map_singleton, List.sum_singleton]
  omega

theorem stackPointer_anti (hsizes : ∀ size ∈ u.frameSizes, 0 < size.toInt) (hij : i ≤ j) (hj : j ≤ u.frameCount) :
    u.stackPointer s j ≤ u.stackPointer s i := by
  induction j with
  | zero => exact Nat.le_zero.mp hij ▸ Int.le_refl _
  | succ j ih =>
    rcases Nat.lt_or_eq_of_le hij with hlt | rfl
    · have hsize := List.getElem?_eq_getElem (show j < u.frameSizes.length from hj)
      have := hsizes _ (List.getElem_mem (show j < u.frameSizes.length from hj))
      have := ih (by omega) (by omega)
      rw [stackPointer_succ hsize]
      omega
    · exact Int.le_refl _

/-- As long as it stays in memory, no stack pointer wraps around. -/
theorem toNat_frameTop (hsizes : ∀ size ∈ u.frameSizes, 0 < size.toInt) (hgrow : 0 ≤ u.callerAdjustment.toInt)
    (hlow : 0 ≤ u.stackPointer sender.toNat u.frameCount) (hi : i ≤ u.frameCount) :
    ((u.frameTop sender i).toNat : Int) = u.stackPointer sender.toNat i := by
  have hsmall := sender.toNat_lt
  have hzero : u.stackPointer sender.toNat 0 = sender.toNat - u.callerAdjustment.toInt := by
    rw [stackPointer, List.take_zero]
    exact Int.sub_zero _
  have hin (j : Nat) (hj : j ≤ u.frameCount) : 0 ≤ u.stackPointer sender.toNat j ∧
    u.stackPointer sender.toNat j < 2 ^ 64 := by
    have := stackPointer_anti (s := sender.toNat) hsizes hj (Nat.le_refl _)
    have := stackPointer_anti (s := sender.toNat) hsizes (Nat.zero_le j) hj
    omega
  induction i with
  | zero =>
    obtain ⟨h0, h⟩ := hin 0 (Nat.zero_le _)
    rw [hzero] at h0 h ⊢
    rw [frameTop_zero, toNat_sub_signed h0 h]
  | succ i ih =>
    have hsize := List.getElem?_eq_getElem (show i < u.frameSizes.length from hi)
    have hbefore := ih (by omega)
    obtain ⟨h0, h⟩ := hin (i + 1) hi
    rw [stackPointer_succ hsize, ← hbefore] at h0 h ⊢
    rw [frameTop_succ hsize, toNat_sub_signed h0 h]

end

end UnrollBlock

theorem unroll_grows {req : DeoptRequest} {u : UnrollBlock} (accepted : req.unroll riscv = .ok u) (fits : req.Fits) :
    0 ≤ u.callerAdjustment.toInt := by
  obtain ⟨chain, hscopes, sound, -, -, -, outer, hlast, hadj⟩ := unroll_eq_ok accepted
  have houter : req.outermost = some outer.2 := by
    rw [DeoptRequest.outermost, ← hscopes, List.getLast?_map, hlast]
    exact (sound outer (List.mem_of_getLast? hlast)).method
  have growth := fits.growth
  rw [houter, DeoptRequest.pushedWords, houter] at growth
  rw [hadj, callerAdjustment]
  refine (toInt_lastFrameAdjust (if req.callerIsCompiled then 0 else outer.2.parameterSlots) ?_).2.1
  split at growth
  · case _ h =>
    rw [if_pos h]
    exact growth
  · case _ h =>
    rw [if_neg h]
    exact growth

/-- The frames of a plan lie in memory below the sender, apart from the captured values and from the code. -/
structure FillRoom (Clear : UInt64 → Prop) (req : DeoptRequest) (u : UnrollBlock) (values sender : UInt64) : Prop where
  low : 0 ≤ u.stackPointer sender.toNat u.frameCount
  high : sender.toNat + 8 * req.pushedWords ≤ 2 ^ 64
  area : values.toNat + 8 * u.values.length ≤ 2 ^ 64
  apart : ∀ w ∈ u.words riscv sender.toNat, w + 8 ≤ values.toNat ∨ values.toNat + 8 * u.values.length ≤ w
  clear : ∀ w ∈ u.words riscv sender.toNat, ∀ addr : UInt64, w ≤ addr.toNat → addr.toNat < w + 8 → Clear addr

/-- Every frame but the outermost one is linked to the one before. -/
def FramesLinked (u : UnrollBlock) (sender : UInt64) (mem : Ram) : Prop :=
  ∀ i, i + 1 < u.frameCount → mem.read (u.framePointer sender (i + 1)) 8 = u.framePointer sender i

namespace FillRoom

variable {Clear : UInt64 → Prop} {req : DeoptRequest} {u : UnrollBlock} {values sender : UInt64} {k : Nat} {f : FramePlan}

theorem frameCount_eq (accepted : req.unroll riscv = .ok u) : u.frameCount = u.frames.length := by
  obtain ⟨-, -, -, -, -, hsizes, -⟩ := unroll_eq_ok accepted
  rw [UnrollBlock.frameCount, hsizes, List.length_reverse, List.length_map]

theorem mem_words (hk : u.frames[k]? = some f) {s w : Int}
    (hw : w ∈ f.words riscv (u.stackPointer s (u.frames.length - 1 - k) - 16)) : w ∈ u.words riscv s := by
  rw [UnrollBlock.words, zipIdx_reverse]
  exact List.mem_flatMap.mpr ⟨(f, u.frames.length - 1 - k),
    List.mem_reverse.mpr (List.mem_map.mpr ⟨(f, k), List.mem_zipIdx_iff_getElem?.mpr hk, rfl⟩), hw⟩

variable (h : FillRoom Clear req u values sender) (accepted : req.unroll riscv = .ok u) (fits : req.Fits)
include h accepted fits

theorem bounds {w : Int} (hw : w ∈ u.words riscv sender.toNat) : 0 ≤ w ∧ w + 8 ≤ 2 ^ 64 := by
  obtain ⟨-, -, -, hbounds⟩ := unroll_words_apart accepted fits sender.toNat
  have := hbounds w hw
  have := h.low
  have := h.high
  omega

/-- The frame pointer of a frame, as a number. -/
theorem toNat_pointer (hk : u.frames[k]? = some f) :
    ((u.framePointer sender (u.frames.length - 1 - k)).toNat : Int) = u.stackPointer sender.toNat
    (u.frames.length - 1 - k) - 16 := by
  obtain ⟨-, -, hsizes, -⟩ := unroll_words_apart accepted fits sender.toNat
  have hlt := (List.getElem?_eq_some_iff.mp hk).1
  have htop : ((u.frameTop sender (u.frames.length - 1 - k)).toNat : Int) = _ :=
    UnrollBlock.toNat_frameTop (fun size hs => (hsizes size hs).1)
    (unroll_grows accepted fits) h.low (by rw [frameCount_eq accepted]; omega)
  have hfp := h.bounds accepted fits (mem_words hk (List.mem_cons_of_mem _ List.mem_cons_self))
  have hback : (u.framePointer sender (u.frames.length - 1 - k)).toNat = _ := toNat_back (k := 16) (by omega)
  omega

theorem toNat_word (hk : u.frames[k]? = some f) {st : SlotStore} (hst : st ∈ f.stores) :
    ((u.framePointer sender (u.frames.length - 1 - k) + st.offset.toUInt64).toNat : Int) =
        u.stackPointer sender.toNat (u.frames.length - 1 - k) - 16 + st.offset.toInt ∧
      u.stackPointer sender.toNat (u.frames.length - 1 - k) - 16 + st.offset.toInt ∈ u.words riscv sender.toNat := by
  have hw := mem_words (s := sender.toNat) hk (List.mem_append_right _ (List.mem_map_of_mem hst))
  have hbounds := h.bounds accepted fits hw
  have hfp := h.toNat_pointer accepted fits hk
  exact ⟨by rw [toNat_add_signed (by omega) (by omega), hfp], hw⟩

theorem mem_storeWords {a : UInt64} (ha : a ∈ storeWords (u.placed sender)) :
    (a.toNat : Int) ∈ u.words riscv sender.toNat := by
  obtain ⟨x, hx, ha⟩ := List.mem_flatMap.mp ha
  obtain ⟨st, hst, rfl⟩ := List.mem_map.mp ha
  obtain ⟨k, hk, hpointer⟩ := UnrollBlock.mem_placed hx
  obtain ⟨hword, hmem⟩ := h.toNat_word accepted fits hk hst
  rwa [hpointer, hword]

/-- The frames of a plan are laid out well. -/
theorem laid {mem : Ram} (hlinked : FramesLinked u sender mem) :
    FramesLaid values u.values.length mem (u.placed sender) ∧ (storeWords (u.placed sender)).Pairwise fun a b =>
    Apart a.toNat b.toNat := by
  obtain ⟨hstores, hlinks⟩ := UnrollBlock.words_placed u riscv sender.toNat
    (unroll_words_apart accepted fits sender.toNat).1
  refine ⟨⟨?_, fun x hx => ?_, fun a ha => ?_, fun x hx a ha => ?_, h.area, fun a ha => ?_,
    fun x hx st hst i hi => ?_⟩, ?_⟩
  · refine List.isChain_iff_getElem.mpr fun i hi => ?_
    have hlength : (u.placed sender).length = u.frames.length := by simp [UnrollBlock.placed]
    have hcount := frameCount_eq accepted
    simp only [UnrollBlock.placed, List.getElem_map, List.getElem_zipIdx, Nat.zero_add]
    rw [show u.frames.length - 1 - i = (u.frames.length - 1 - (i + 1)) + 1 by omega]
    exact hlinked _ (by omega)
  · obtain ⟨k, hk, hpointer⟩ := UnrollBlock.mem_placed hx
    have := h.toNat_pointer accepted fits hk
    have := h.bounds accepted fits (mem_words hk (List.mem_cons_of_mem _ List.mem_cons_self))
    rw [hpointer]
    omega
  · have := h.bounds accepted fits (h.mem_storeWords accepted fits ha)
    omega
  · obtain ⟨k, hk, hpointer⟩ := UnrollBlock.mem_placed hx
    obtain ⟨y, hy, ha⟩ := List.mem_flatMap.mp ha
    obtain ⟨st, hst, rfl⟩ := List.mem_map.mp ha
    obtain ⟨j, hj, hpointer'⟩ := UnrollBlock.mem_placed hy
    rw [hpointer, hpointer', h.toNat_pointer accepted fits hk, (h.toNat_word accepted fits hj hst).1]
    exact hlinks k _ j _ hk hj st hst
  · have := h.apart _ (h.mem_storeWords accepted fits ha)
    omega
  · obtain ⟨k, hk, -⟩ := UnrollBlock.mem_placed hx
    obtain ⟨chain, -, -, hframes, hvalues, -⟩ := unroll_eq_ok accepted
    have hf : x.2 ∈ (planFrames riscv 0 none chain).1 := hframes ▸ List.mem_of_getElem? hk
    have := planFrames_values hf hst hi
    rw [← hvalues] at this
    omega
  · rw [← List.pairwise_map (f := fun a : UInt64 => (a.toNat : Int)) (R := Apart)]
    convert hstores using 1
    rw [storeWords, UnrollBlock.placed, List.map_flatMap, List.flatMap_map, List.flatMap_map]
    refine List.flatMap_congr fun (f, k) hmem => ?_
    rw [List.map_map]
    exact List.map_congr_left fun st hst => (h.toNat_word accepted fits (List.mem_zipIdx_iff_getElem?.mp hmem) hst).1

end FillRoom

/-! ## In memory -/

/-- The word that a store brings to a frame. -/
def SlotSource.word (captured : List UInt64) (fp : UInt64) : SlotSource → Option UInt64
  | .value i => captured[i]?
  | .const bits => some bits.toUInt64
  | .framePointer off => some (fp + off.toUInt64)

/-- The first routine has copied the values, and returned. -/
structure ValuesCaptured (captured : List UInt64) (m m' : Machine) : Prop where
  back : Jumped m' (m.get ra)
  alters : Alters [t0, t1] (Stub.Area (m.get (.x 10)) captured.length) m m'
  words : ∀ i w, captured[i]? = some w → m'.mem.read (m.get (.x 10) + UInt64.ofNat (8 * i)) 8 = w

/-- The second routine has performed the stores of the plans, and returned. -/
structure Performed (plans : List FramePlan) (m m' : Machine) : Prop where
  back : Jumped m' (m.get ra)
  mem : m'.mem = fillMemory (m.get (.x 10)) (m.get (.x 11)) plans m.mem
  regs : ∀ r, r ∉ [t0, t1, .x 11] → m'.get r = m.get r

/-- The second routine has filled the frames, and returned. -/
structure FramesFilled (u : UnrollBlock) (captured : List UInt64) (sender : UInt64) (m m' : Machine) : Prop where
  back : Jumped m' (m.get ra)
  alters : Alters [t0, t1, .x 11] (fun addr => ∃ a ∈ storeWords (u.placed sender), Spans a.toNat 8 addr) m m'
  words : ∀ k f, u.frames[k]? = some f → ∀ st ∈ f.stores,
    let fp := u.framePointer sender (u.frameCount - 1 - k)
    st.source.word captured fp = some (m'.mem.read (fp + st.offset.toUInt64) 8)

section
variable {Clear : UInt64 → Prop} {m m' : Machine} {u : UnrollBlock} {req : DeoptRequest} {sender : UInt64}
  {captured : List UInt64}

/-- Filling starts at the innermost frame. -/
theorem placed_head (hcount : u.frameCount = u.frames.length) {x : UInt64 × FramePlan}
    (hx : x ∈ (u.placed sender).head?) :
    x.1 = u.framePointer sender (u.frameCount - 1) := by
  rw [UnrollBlock.placed, List.head?_map] at hx
  obtain ⟨⟨f, k⟩, hf, rfl⟩ := Option.map_eq_some_iff.mp hx
  cases hframes : u.frames with
  | nil => simp [hframes] at hf
  | cons g rest =>
    simp only [hframes, List.zipIdx_cons, List.head?_cons, Option.some.injEq, Prod.mk.injEq] at hf
    rw [hcount, hframes, ← hf.2]
    rfl

/-- On the frames of a plan that does not wrap, the second routine keeps to what is free, and writes every
word of a store. -/
theorem FillRoom.fill (hroom : FillRoom Clear req u (m.get (.x 10)) sender)
    (accepted : req.unroll riscv = .ok u) (fits : req.Fits)
    (hlinked : FramesLinked u sender m.mem) (hfp : m.get (.x 11) = u.framePointer sender (u.frameCount - 1)) :
    FillClear Clear (m.get (.x 10)) (m.get (.x 11)) u.frames m.mem ∧
      fillMemory (m.get (.x 10)) (m.get (.x 11)) u.frames m.mem = m.mem.writes
      (placedStores (m.get (.x 10)) m.mem (u.placed sender)) := by
  obtain ⟨hlaid, -⟩ := hroom.laid accepted fits hlinked
  have h := hlaid.fill (fun x hx => placed_head (FillRoom.frameCount_eq accepted) hx) fun a ha i hi => by
    have hword := hroom.mem_storeWords accepted fits ha
    have hbounds := hroom.bounds accepted fits hword
    have haddr : (a + UInt64.ofNat i).toNat = a.toNat + i := toNat_off (by omega)
    exact hroom.clear _ hword _ (by omega) (by omega)
  rwa [UnrollBlock.placed_plans, ← hfp] at h

/-- What it leaves are the frames of the plan, filled. -/
theorem FillRoom.filled (hroom : FillRoom Clear req u (m.get (.x 10)) sender)
    (accepted : req.unroll riscv = .ok u) (fits : req.Fits)
    (hlinked : FramesLinked u sender m.mem) (hfp : m.get (.x 11) = u.framePointer sender (u.frameCount - 1))
    (hlength : captured.length = u.values.length)
    (hcaptured : ∀ i w, captured[i]? = some w → m.mem.read (m.get (.x 10) + UInt64.ofNat (8 * i)) 8 = w)
    (hdone : Performed u.frames m m') : FramesFilled u captured sender m m' := by
  obtain ⟨hlaid, hapart⟩ := hroom.laid accepted fits hlinked
  have hcount := FillRoom.frameCount_eq accepted
  have hmem := hdone.mem
  rw [(hroom.fill accepted fits hlinked hfp).2] at hmem
  have hmap := map_placedStores (m.get (.x 10)) m.mem (u.placed sender)
  have hend : ∀ w ∈ placedStores (m.get (.x 10)) m.mem (u.placed sender), w.1.toNat + 8 ≤ 2 ^ 64 := fun w hw =>
    hlaid.wordEnd w.1 (hmap ▸ List.mem_map_of_mem hw)
  have hwords : (placedStores (m.get (.x 10)) m.mem (u.placed sender)).Pairwise fun v w => Apart v.1.toNat w.1.toNat := by
    have hstores : (storeWords (u.placed sender)).Pairwise fun a b : UInt64 => Apart a.toNat b.toNat := hapart
    rw [← hmap] at hstores
    exact List.pairwise_map (R := fun a b : UInt64 => Apart a.toNat b.toNat) |>.mp hstores
  refine ⟨hdone.back, ⟨hdone.regs, fun addr hnot => ?_⟩, fun k f hk st hst => ?_⟩
  · rw [hmem, writes_apart hend fun w hw hin => hnot ⟨w.1, hmap ▸ List.mem_map_of_mem hw, hin⟩]
  · intro fp
    have hplaced : (fp, f) ∈ u.placed sender :=
      List.mem_map.mpr ⟨(f, k), List.mem_zipIdx_iff_getElem?.mpr hk, by dsimp only [fp]; rw [hcount]⟩
    have hword : (m.mem.writes _).read _ 8 = _ :=
      read_writes hend hwords (List.mem_flatMap.mpr ⟨_, hplaced, List.mem_map_of_mem hst⟩)
    rw [hmem, hword]
    cases hsource : st.source with
    | value i =>
      have hi := hlaid.sources _ hplaced st hst i hsource
      rw [← hlength] at hi
      have hget := List.getElem?_eq_getElem hi
      rw [SlotSource.word, hget, ← hcaptured i _ hget]
      rfl
    | const bits => rfl
    | framePointer off => rfl

end

namespace Stub

open Asm

section
variable {S : Site} {m : Machine} {u : UnrollBlock} {saved : Reg → UInt64}

theorem does_capture (hopts : S.target.opts.refusal? = none)
    (hroom : CaptureRoom S.Free u.values (m.get (.x 10)) (m.get (.x 11)) (m.get (.x 12)))
    (hsaved : SavedAt (m.get (.x 12)) saved m.mem) :
    S.Does (captureFrom 0 u.values >>= fun _ => ret) m (Exits.none.or .away
      (ValuesCaptured (u.values.map (·.captured S.target.opts (m.get (.x 11)) m.mem saved)) m)) fun _ _ => False := by
  refine .bind ((does_captureFrom [] hopts hroom rfl rfl rfl hsaved
    ⟨alters_refl _ _ _, nofun⟩).imp (fun _ _ h => h) fun _ m1 h1 => does_jr (.inl ⟨rfl, ?_⟩))
  refine ⟨jumped_of_pc ?_, ?_, fun i w hw => h1.words i w hw⟩
  · rw [← h1.alters.regs _ (by decide)]
  · rw [List.length_map]
    exact h1.alters.withPc _

theorem does_perform (hclear : FillClear S.Free (m.get (.x 10)) (m.get (.x 11)) u.frames m.mem) :
    S.Does (fillPlans u.frames >>= fun _ => ret) m (Exits.none.or .away (Performed u.frames m)) fun _ _ => False := by
  refine .bind ((does_fillPlans rfl rfl hclear).imp (fun _ _ h => h) fun _ m1 ⟨hmem, hregs⟩ => does_jr (.inl ⟨rfl, ?_⟩))
  refine ⟨jumped_of_pc ?_, hmem, hregs⟩
  rw [← hregs _ (by decide)]

end

theorem written_routines {t : Target} {u : UnrollBlock} {first last : Assembler} (hfirst : first.Behind)
    (h : deoptRoutinesBody u t first = .ok ((), last)) :
    ∃ a b c, (captureFrom 0 u.values >>= fun _ => ret) t a = .ok ((), b) ∧
    (fillPlans u.frames >>= fun _ => ret) t c = .ok ((), last) ∧
      (∃ pre, Trace t pre first a) ∧ (∃ post, Trace t post b last) ∧ (∃ pre, Trace t pre first c) ∧
      last.entries.lookup EntryPoint.capture = some a.buf.offset ∧
      last.entries.lookup EntryPoint.fill = some c.buf.offset := by
  obtain ⟨_, a, hmark, h⟩ := bind_eq_ok.mp h
  cases hmark
  obtain ⟨_, a1, hcapture, h⟩ := bind_eq_ok.mp h
  obtain ⟨_, b, hret, h⟩ := bind_eq_ok.mp h
  obtain ⟨_, c, hmark, hfill⟩ := bind_eq_ok.mp h
  cases hmark
  have hfrom := trace_entry t EntryPoint.capture first
  have hrun : (captureFrom 0 u.values >>= fun _ => ret) t (first.markEntry EntryPoint.capture) = .ok ((), b) :=
    bind_eq_ok.mpr ⟨(), a1, hcapture, hret⟩
  obtain ⟨is, htrace, hfree⟩ := (traced_bind _ _).trace _ _ _ _ (hfrom.behind hfirst) hrun
  have hmarked := trace_entry t EntryPoint.fill b
  obtain ⟨js, htrace', hfree'⟩ := (traced_bind _ _).trace _ _ _ _
    (((hfrom.append htrace).append hmarked).behind hfirst) hfill
  refine ⟨_, b, _, hrun, hfill, ⟨_, hfrom⟩, ⟨_, hmarked.append htrace'⟩,
    ⟨_, (hfrom.append htrace).append hmarked⟩, ?_, ?_⟩
  · rw [htrace'.lookup (hfree' _), lookup_markEntry_other _ (by decide), htrace.lookup (hfree _), lookup_markEntry]
    rfl
  · rw [htrace'.lookup (hfree' _), lookup_markEntry]
    rfl

/-- The code for a plan has two entries. At the first one the values are captured, and at the second one the stores are
performed, whatever lies in memory, as long as the code itself is not written to. -/
theorem routines_run {t : Target} {u : UnrollBlock} {base start : UInt64} {blob : CodeBlob}
    (hopts : t.opts.refusal? = none)
    (hblob : deoptRoutines t u base = .ok blob) (hbase : base ≠ 0 → start = base) :
    ∃ capture fill, blob.entryOffset EntryPoint.capture = .ok capture ∧ blob.entryOffset EntryPoint.fill = .ok fill ∧
      ∀ W : World, (∀ i < blob.code.length, W (start + UInt64.ofNat i) = none) → ∀ m : Machine, blob.Stands start m →
        (m.pc = start + capture.toUInt64 → ∀ saved,
          CaptureRoom (blob.Clear start) u.values (m.get (.x 10)) (m.get (.x 11)) (m.get (.x 12)) →
          SavedAt (m.get (.x 12)) saved m.mem → ∃ m', W.Reaches m m' ∧
            ValuesCaptured (u.values.map (·.captured t.opts (m.get (.x 11)) m.mem saved)) m m') ∧
        (m.pc = start + fill.toUInt64 → FillClear (blob.Clear start) (m.get (.x 10)) (m.get (.x 11)) u.frames m.mem →
          ∃ m', W.Reaches m m' ∧ Performed u.frames m m') := by
  obtain ⟨⟨blob', _⟩, hgenerate, rfl⟩ := except_map_ok hblob
  obtain ⟨first, last, hdone, hbody⟩ := finished_generate hgenerate
  obtain ⟨a, b, c, hcapture, hfill, ha, ⟨post, hb⟩, hc, hcaptureAt, hfillAt⟩ := written_routines hdone.behind hbody
  have hcaptureEntry := hdone.entry hcaptureAt
  have hfillEntry := hdone.entry hfillAt
  refine ⟨_, _, hcaptureEntry, hfillEntry, fun W hclear m hstands => ?_⟩
  let S := hdone.site t start W hclear hbase
  have hfree : S.Free = CodeBlob.Clear blob' start := funext fun addr => propext (hdone.free_iff addr)
  refine ⟨fun hpc saved hroom hsaved => ?_, fun hpc hclears => ?_⟩
  · exact (does_capture (S := S) hopts (by rw [hfree]; exact hroom) hsaved).leaves hcapture ha (late_of_trace hb)
      (hdone.at_entry ⟨hstands, _, hcaptureEntry, hpc⟩ hcaptureAt)
  · exact (does_perform (S := S) (by rw [hfree]; exact hclears)).leaves hfill hc (late_of_trace (.nil _))
      (hdone.at_entry ⟨hstands, _, hfillEntry, hpc⟩ hfillAt)

end Stub

/-- The routine at the first entry of the code for a plan copies the values of the compiled frame to an area of their own. Run
later on the frames of the plan, as long as none of their sizes wraps, the routine at the second entry brings the values to
their slots, with the constants and the addresses that the other slots have. Both change nothing else but registers of their
own, and return. -/
theorem live_values_arrive {t : Target} {req : DeoptRequest} {u : UnrollBlock} {base start : UInt64} {blob : CodeBlob}
    (hopts : t.opts.refusal? = none) (accepted : req.unroll riscv = .ok u) (fits : req.Fits)
    (hblob : Stub.deoptRoutines t u base = .ok blob) (hbase : base ≠ 0 → start = base) :
    ∃ capture fill, blob.entryOffset EntryPoint.capture = .ok capture ∧ blob.entryOffset EntryPoint.fill = .ok fill ∧
      ∀ (W : World) (m : Machine) (saved : Reg → UInt64), (∀ i < blob.code.length, W (start + UInt64.ofNat i) = none) →
      blob.Stands start m → m.pc = start + capture.toUInt64 →
      Stub.CaptureRoom (blob.Clear start) u.values (m.get (.x 10)) (m.get (.x 11)) (m.get (.x 12)) →
      SavedAt (m.get (.x 12)) saved m.mem →
      let captured := u.values.map (·.captured t.opts (m.get (.x 11)) m.mem saved)
      ∃ m', W.Reaches m m' ∧ ValuesCaptured captured m m' ∧ ∀ (sender : UInt64) (m2 : Machine),
        blob.Stands start m2 → m2.pc = start + fill.toUInt64 →
        m2.get (.x 10) = m.get (.x 10) → m2.get (.x 11) = u.framePointer sender (u.frameCount - 1) →
        (∀ addr, Stub.Area (m.get (.x 10)) u.values.length addr → m2.mem addr = m'.mem addr) →
        FillRoom (blob.Clear start) req u (m.get (.x 10)) sender → FramesLinked u sender m2.mem →
        ∃ m3, W.Reaches m2 m3 ∧ FramesFilled u captured sender m2 m3 := by
  obtain ⟨capture, fill, hcapture, hfill, hruns⟩ := Stub.routines_run hopts hblob hbase
  refine ⟨capture, fill, hcapture, hfill, fun W m saved hclear hstands hpc hroom hsaved => ?_⟩
  intro captured
  obtain ⟨m', hreach, hm'⟩ := (hruns W hclear m hstands).1 hpc saved hroom hsaved
  refine ⟨m', hreach, hm', fun sender m2 hstands2 hpc2 hvalues hfp hkept hfillRoom hlinked => ?_⟩
  rw [← hvalues] at hfillRoom hkept
  have hlength : captured.length = u.values.length := List.length_map ..
  have harea := hfillRoom.area
  have hwords : ∀ i w, captured[i]? = some w → m2.mem.read (m2.get (.x 10) + UInt64.ofNat (8 * i)) 8 = w :=
    fun i w hw => by
    have hi := (List.getElem?_eq_some_iff.mp hw).1
    have hword : (m2.get (.x 10) + UInt64.ofNat (8 * i)).toNat = (m2.get (.x 10)).toNat + 8 * i := toNat_off (by omega)
    rw [← hm'.words i w hw, ← hvalues]
    refine read_same (by omega) fun x hx => hkept x ?_
    omega
  obtain ⟨hclears, -⟩ := hfillRoom.fill accepted fits hlinked hfp
  obtain ⟨m3, hreach', hdone⟩ := (hruns W hclear m2 hstands2).2 hpc2 hclears
  exact ⟨m3, hreach', hfillRoom.filled accepted fits hlinked hfp hlength hwords hdone⟩

/-- A method with a narrow reference on the stack, and a method inlined into it with an int in a register. -/
def liveRequest : DeoptRequest where
  scopes := [
    { method := some { maxLocals := 1, maxStack := 0, parameterSlots := 1 }
      locals := [⟨.int, .int 9, 0⟩] },
    { method := some { maxLocals := 1, maxStack := 1, parameterSlots := 0 }
      locals := [⟨.narrowOop, .stack 4, 0⟩] }]
  kind := .deopt
  compiledFrameSize := 64
  callerIsCompiled := true
  callerPc := 0x1000
  interpreterReturnPc := 0x2000
  continuationPc := 0x3000

/-- A machine with a compiled frame at `0x8000`, the registers saved at `0x7000` and the code at `0x1000`. -/
def capturing (code : List UInt8) (pc : UInt64) : Machine where
  x n := if n = 10 then 0xa000 else if n = 11 then 0x8000 else if n = 12 then 0x7000 else UInt64.ofNat n
  f n := UInt64.ofNat (100 + n)
  pc
  mem := overlay (fun addr => addr.toUInt8) 0x1000 code

/-- The frames of a plan are on the stack, the inner one linked to the outer one. -/
def filling (m : Machine) (pc : UInt64) : Machine :=
  { (m.set (.x 10) 0xa000).set (.x 11) 0x7fb0 with pc, mem := m.mem.write 0x7fb0 8 0x8020 }

/-- What was captured is in the frames. -/
theorem two_frames_are_filled : ∃ u blob, liveRequest.unroll riscv = .ok u ∧
    Stub.deoptRoutines ⟨{}, .synthetic 0x10000⟩ u 0 = .ok blob ∧ ∃ capture fill m' m'',
      World.bare.Reaches (capturing blob.code capture) m' ∧ World.bare.Reaches (filling m' fill) m'' ∧
      m''.mem.read 0x7fc0 8 = (capturing blob.code capture).mem.read 0x7128 8 ∧
      m''.mem.read 0x8030 8 = (capturing blob.code capture).mem.read 0x8010 4 <<< 3 := by
  obtain ⟨u, hu, hcount, hlow, hvalues, ⟨inner, hinner, hint⟩, ⟨outer, houter, hoop⟩, hpointer, hlink, hgenerated⟩ :
      ∃ u, liveRequest.unroll riscv = .ok u ∧ u.frameCount = 2 ∧ u.stackPointer 0x8040 2 = 0x7f60 ∧
        u.values = [⟨.int, .int 9, 0⟩, ⟨.narrowOop, .stack 4, 0⟩] ∧
        (∃ f : FramePlan, u.frames[0]? = some f ∧ ⟨16, .value 0⟩ ∈ f.stores) ∧
        (∃ f : FramePlan, u.frames[1]? = some f ∧ ⟨16, .value 1⟩ ∈ f.stores) ∧ u.framePointer 0x8040 1 = 0x7fb0 ∧
        u.framePointer 0x8040 0 = 0x8020 ∧ ((Stub.deoptRoutines ⟨{}, .synthetic 0x10000⟩ u 0).toOption.any
        fun blob => blob.code.length ≤ 400) = true :=
    ⟨_, rfl, rfl, by decide, rfl, ⟨_, rfl, by decide⟩, ⟨_, rfl, by decide⟩, by decide, by decide, by decide +kernel⟩
  obtain ⟨blob, hblob, hsize⟩ := any_toOption hgenerated
  have hsize : blob.code.length ≤ 400 := of_decide_eq_true hsize
  have fits : liveRequest.Fits := ⟨by decide, by decide⟩
  have hstart : (0x1000 : UInt64).toNat = 0x1000 := rfl
  have hclear {addr : UInt64} (h : 0x2000 ≤ addr.toNat) : blob.Clear 0x1000 addr := by
    rw [CodeBlob.clear_iff (by omega)]
    omega
  have harea {addr : UInt64} (h : Stub.Area 0xa000 u.values.length addr) : 0xa000 ≤ addr.toNat ∧ addr.toNat < 0xa010 := by
    rw [hvalues] at h
    exact h
  have hwords : ∀ w ∈ u.words riscv (0x8040 : UInt64).toNat, 0x7f60 ≤ w ∧ w + 8 ≤ 0x8040 := fun w hw => by
    obtain ⟨-, -, -, hbounds⟩ := unroll_words_apart hu fits 0x8040
    rw [hcount, hlow] at hbounds
    have hpushed : liveRequest.pushedWords = 0 := rfl
    have := hbounds w hw
    omega
  have hroom : Stub.CaptureRoom (blob.Clear 0x1000) u.values 0xa000 0x8000 0x7000 := by
    refine ⟨by rw [hvalues]; decide, fun addr h => hclear ?_, by decide, fun addr h hin => ?_, fun v hv addr hin h => ?_⟩
    · have := harea h
      omega
    · have := harea h
      have hin : 0x7000 ≤ addr.toNat ∧ addr.toNat < 0x71f0 := hin
      omega
    · rw [hvalues] at hv
      obtain ⟨slot, hloc, i, hi, rfl⟩ := hin
      have hlast : slot = 4 ∧ i < 4 := by
        rcases List.mem_cons.mp hv with rfl | hv
        · cases hloc
        · cases List.mem_singleton.mp hv
          cases hloc
          exact ⟨rfl, hi⟩
      obtain ⟨rfl, hi⟩ := hlast
      have := harea h
      have haddr : (0x8000 + (Location.slotBytes 4).toUInt64 + UInt64.ofNat i : UInt64).toNat = 0x8010 + i :=
        toNat_off (a := 0x8010) (k := i) (by have : (0x8010 : UInt64).toNat = 0x8010 := rfl; omega)
      omega
  have hroom' : FillRoom (blob.Clear 0x1000) liveRequest u 0xa000 0x8040 := by
    refine ⟨?_, by decide, by rw [hvalues]; decide, fun w hw => .inl ?_, fun w hw addr hle hlt => hclear ?_⟩
    · rw [hcount]
      exact hlow ▸ by decide
    · have := hwords w hw
      have hvaluesAt : (0xa000 : UInt64).toNat = 0xa000 := rfl
      omega
    · have := hwords w hw
      omega
  obtain ⟨capture, fill, -, -, hruns⟩ := live_values_arrive (t := ⟨{}, .synthetic 0x10000⟩) rfl hu fits hblob
    (show (0 : UInt64) ≠ 0 → (0x1000 : UInt64) = 0 from absurd rfl)
  let m := capturing blob.code (0x1000 + capture.toUInt64)
  let saved (r : Reg) : UInt64 :=
    (RegisterSave.slotOf r).toOption.elim 0 fun off => m.mem.read (0x7000 + off.toUInt64) 8
  have hstands : blob.Stands 0x1000 m := CodeBlob.stands_overlay (by omega) rfl
  obtain ⟨m', hreach, hcaptured, hlater⟩ := hruns World.bare m saved (fun _ _ => rfl) hstands rfl hroom
    (fun r off hoff => by simp only [saved, hoff]; rfl)
  have hkept {addr : UInt64} (h : ¬ (0xa000 ≤ addr.toNat ∧ addr.toNat < 0xa010)) : m'.mem addr = m.mem addr :=
    hcaptured.alters.mem addr fun hin => h (harea (by rw [List.length_map] at hin; exact hin))
  have hlinkAt {addr : UInt64} (h : ¬ Spans 0x7fb0 8 addr) : (m'.mem.write 0x7fb0 8 0x8020) addr = m'.mem addr :=
    write_apart (a := 0x7fb0) _ _ (by decide) h
  have hstands' : blob.Stands 0x1000 (filling m' (0x1000 + fill.toUInt64)) := hstands.keep fun addr h => by
    have hlt : addr.toNat < 0x2000 := Nat.lt_of_not_le fun hge => h (hclear hge)
    refine (hlinkAt ?_).trans (hkept (by omega))
    omega
  have hlinked : FramesLinked u 0x8040 (filling m' (0x1000 + fill.toUInt64)).mem := fun i hi => by
    obtain rfl : i = 0 := by omega
    rw [hpointer, hlink]
    exact read_write_eight ..
  obtain ⟨m'', hreach', hfilled⟩ := hlater 0x8040 _ hstands' rfl rfl (by rw [hcount]; exact hpointer.symm)
    (fun addr h => by
    refine hlinkAt ?_
    have := harea h
    omega) hroom' hlinked
  refine ⟨u, blob, hu, hblob, _, _, m', m'', hreach, hreach', ?_, ?_⟩
  · have h := hfilled.words 0 inner hinner _ hint
    rw [hcount, hpointer, hvalues] at h
    exact (Option.some.inj h).symm
  · have h := hfilled.words 1 outer houter _ hoop
    rw [hcount, hlink, hvalues] at h
    exact (Option.some.inj h).symm

/-! ## A size that wraps -/

/-- Stores of a plan change the words they name only. -/
theorem SlotStore.performs_apart {values fp x : UInt64} {mem : Ram} {stores : List SlotStore}
    (h : ∀ s ∈ stores, (fp + s.offset.toUInt64).toNat + 8 ≤ 2 ^ 64 ∧ ¬ Spans (fp + s.offset.toUInt64).toNat 8 x) :
    stores.foldl (SlotStore.perform values fp) mem x = mem x := by
  induction stores generalizing mem with
  | nil => rfl
  | cons s rest ih =>
    obtain ⟨hend, hapart⟩ := h s List.mem_cons_self
    rw [List.foldl_cons, ih fun s' hs' => h s' (List.mem_cons_of_mem _ hs'), SlotStore.perform,
      write_apart _ _ hend hapart]

/-- A method with 2^61 - 1 locals, of which the first one is live, inlined into a method without locals. -/
def hugeLocalsRequest : DeoptRequest where
  scopes := [
    { method := some { maxLocals := 2305843009213693951 }, locals := [⟨.int, .nowhere, 0x6000⟩] },
    { method := some {} }]
  kind := .deopt
  compiledFrameSize := 64
  callerIsCompiled := true
  callerPc := 0x1000
  interpreterReturnPc := 0x2000
  continuationPc := 0x3000

/-- The frames of its plan are on the stack, the inner one linked to the outer one, and the value is captured. -/
def linkedFrames (code : List UInt8) (pc : UInt64) : Machine where
  x n := if n = 10 then 0xa000 else if n = 11 then 0x7fe0 else UInt64.ofNat n
  f n := UInt64.ofNat n
  pc
  mem := overlay (Ram.write (Ram.write (fun _ => 0) 0xa000 8 0x6000) 0x7fe0 8 0x8030) 0x1000 code

/-- The stores into the inner frame overwrite its link to the outer one, and the stores into the outer one go
elsewhere. -/
theorem caller_is_not_filled : ∃ u blob, hugeLocalsRequest.unroll riscv = .ok u ∧
    Stub.deoptRoutines ⟨{}, .synthetic 0x10000⟩ u 0 = .ok blob ∧
    (∀ frame mem saved, u.values.map (·.captured {} frame mem saved) = [0x6000]) ∧ ∃ m m', ∃ f : FramePlan,
      blob.Enters 0x1000 EntryPoint.fill m ∧ m.get (.x 10) = 0xa000 ∧ m.get (.x 11) = u.framePointer 0x8040 1 ∧
      m.mem.read 0xa000 8 = 0x6000 ∧ FramesLinked u 0x8040 m.mem ∧ World.bare.Reaches m m' ∧ Jumped m' (m.get ra) ∧
      u.frames[1]? = some f ∧ ⟨-56, .framePointer 8⟩ ∈ f.stores ∧
      m'.mem.read (u.framePointer 0x8040 0 - 56) 8 ≠ u.framePointer 0x8040 0 + 8 := by
  obtain ⟨u, hu, hcount, hvalues, hpointer, hlink, ⟨inner, outer, hframes, hinner, hfixed, hinto, houter⟩, hgenerated⟩ :
      ∃ u, hugeLocalsRequest.unroll riscv = .ok u ∧ u.frameCount = 2 ∧ u.values = [⟨.int, .nowhere, 0x6000⟩] ∧
        u.framePointer 0x8040 1 = 0x7fe0 ∧ u.framePointer 0x8040 0 = 0x8030 ∧
        (∃ inner outer, u.frames = [inner, outer] ∧ inner.stores = inner.stores.take 7 ++ [⟨0, .value 0⟩] ∧
          (∀ s ∈ inner.stores.take 7, 0x7f98 ≤ (0x7fe0 + s.offset.toUInt64 : UInt64).toNat ∧
            (0x7fe0 + s.offset.toUInt64 : UInt64).toNat ≤ 0x7fd8) ∧
          ⟨-56, .framePointer 8⟩ ∈ outer.stores ∧
          ∀ s ∈ outer.stores, 0x5f98 ≤ (0x6000 + s.offset.toUInt64 : UInt64).toNat ∧
            (0x6000 + s.offset.toUInt64 : UInt64).toNat ≤ 0x6000) ∧
        ((Stub.deoptRoutines ⟨{}, .synthetic 0x10000⟩ u 0).toOption.any fun blob => blob.code.length ≤ 400) = true :=
    ⟨_, rfl, rfl, rfl, by decide, by decide, ⟨_, _, rfl, by decide, by decide, by decide, by decide⟩, by decide +kernel⟩
  obtain ⟨fixed, hinner, hfixed⟩ : ∃ fixed, inner.stores = fixed ++ [⟨0, .value 0⟩] ∧
      ∀ s ∈ fixed, 0x7f98 ≤ (0x7fe0 + s.offset.toUInt64 : UInt64).toNat ∧
      (0x7fe0 + s.offset.toUInt64 : UInt64).toNat ≤ 0x7fd8 :=
    ⟨_, hinner, hfixed⟩
  obtain ⟨blob, hblob, hsize⟩ := any_toOption hgenerated
  have hsize : blob.code.length ≤ 400 := of_decide_eq_true hsize
  have hclear {addr : UInt64} (h : 0x2000 ≤ addr.toNat) : blob.Clear 0x1000 addr := by
    have hstart : (0x1000 : UInt64).toNat = 0x1000 := rfl
    rw [CodeBlob.clear_iff (by omega)]
    omega
  obtain ⟨_, fill, -, hfill, hruns⟩ := Stub.routines_run rfl hblob
    (show (0 : UInt64) ≠ 0 → (0x1000 : UInt64) = 0 from absurd rfl)
  let m := linkedFrames blob.code (0x1000 + fill.toUInt64)
  have hplain {addr : UInt64} {v : UInt64} (ha : 0x2000 ≤ addr.toNat ∧ addr.toNat + 8 ≤ 2 ^ 64)
      (h : (Ram.write (Ram.write (fun _ => 0) 0xa000 8 0x6000) 0x7fe0 8 0x8030).read addr 8 = v) : m.mem.read
      addr 8 = v := by
    have hstart : (0x1000 : UInt64).toNat = 0x1000 := rfl
    rw [← h]
    refine read_same ha.2 fun x hx => overlay_apart _ (by omega) ?_
    omega
  have harea : m.mem.read 0xa000 8 = 0x6000 := hplain (by decide) (by decide +kernel)
  have hlinked : m.mem.read 0x7fe0 8 = 0x8030 := hplain (by decide) (by decide +kernel)
  have hempty : m.mem.read 0x7ff8 8 = 0 := hplain (by decide) (by decide +kernel)
  have hfixedApart {a : UInt64} (ha : a.toNat + 8 ≤ 2 ^ 64) (h : 0x7fe0 ≤ a.toNat) :
      (fixed.foldl (SlotStore.perform 0xa000 0x7fe0) m.mem).read a 8 = m.mem.read a 8 := by
    refine read_same ha fun x hx => SlotStore.performs_apart fun s hs => ?_
    have := hfixed s hs
    omega
  have hperform : inner.perform 0xa000 0x7fe0 m.mem =
      (fixed.foldl (SlotStore.perform 0xa000 0x7fe0) m.mem).write 0x7fe0 8 0x6000 := by
    rw [FramePlan.perform, hinner, List.foldl_append]
    show Ram.write _ (0x7fe0 + 0) 8 (Ram.read _ (0xa000 + 0) 8) = _
    rw [UInt64.add_zero, UInt64.add_zero, hfixedApart (by decide) (by decide), harea]
  have hnext : (inner.perform 0xa000 0x7fe0 m.mem).read 0x7fe0 8 = 0x6000 := by
    rw [hperform, read_write_eight]
  have hclears : FillClear (blob.Clear 0x1000) 0xa000 0x7fe0 [inner, outer] m.mem := by
    refine ⟨fun s hs i hi => hclear ?_, fun s hs i hi => hclear ?_, trivial⟩
    · have hword : 0x7f98 ≤ (0x7fe0 + s.offset.toUInt64 : UInt64).toNat ∧
        (0x7fe0 + s.offset.toUInt64 : UInt64).toNat ≤ 0x7fe0 := by
        rw [hinner] at hs
        rcases List.mem_append.mp hs with hs | hs
        · have := hfixed s hs
          omega
        · cases List.mem_singleton.mp hs
          decide
      rw [toNat_off (by omega)]
      omega
    · rw [hnext]
      have := houter s hs
      rw [toNat_off (by omega)]
      omega
  have hstands : blob.Stands 0x1000 m := CodeBlob.stands_overlay (by omega) rfl
  obtain ⟨m', hreach, hdone⟩ := (hruns World.bare (fun _ _ => rfl) m hstands).2 rfl (hframes ▸ hclears)
  have hword : m'.mem.read 0x7ff8 8 = 0 := by
    rw [hdone.mem, hframes]
    show (outer.perform 0xa000 ((inner.perform 0xa000 0x7fe0 m.mem).read 0x7fe0 8)
      (inner.perform 0xa000 0x7fe0 m.mem)).read 0x7ff8 8 = 0
    have houtside : (outer.perform 0xa000 0x6000 (inner.perform 0xa000 0x7fe0 m.mem)).read 0x7ff8 8 =
        (inner.perform 0xa000 0x7fe0 m.mem).read 0x7ff8 8 :=
      read_same (by decide) fun x hx => SlotStore.performs_apart fun s hs => by
        have := houter s hs
        have hat : (0x7ff8 : UInt64).toNat = 0x7ff8 := rfl
        omega
    rw [hnext, houtside, hperform, ← hempty, ← hfixedApart (by decide) (by decide)]
    refine read_same (by decide) fun x hx => write_apart _ _ (by decide) ?_
    have hat : (0x7ff8 : UInt64).toNat = 0x7ff8 := rfl
    have hat' : (0x7fe0 : UInt64).toNat = 0x7fe0 := rfl
    omega
  refine ⟨u, blob, hu, hblob, fun frame mem saved => by rw [hvalues]; rfl, m, m', outer, ⟨hstands, fill, hfill, rfl⟩, rfl,
    hpointer.symm, harea, fun i hi => ?_, hreach, hdone.back, by rw [hframes]; rfl, hinto, ?_⟩
  · obtain rfl : i = 0 := by omega
    rw [hpointer, hlink]
    exact hlinked
  · rw [hlink]
    show m'.mem.read 0x7ff8 8 ≠ _
    rw [hword]
    decide

end RiscvJit

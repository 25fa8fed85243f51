import RiscvJit.Proofs.Code.Places
import RiscvJit.Proofs.Lower.Compiled

/-
  RiscvJit.Proofs.Code.Finished — running code that was finished.

  Finished code is what was written from an empty buffer that did not fail (`Finished`). Placed in
  memory it is a site (`Finished.site`), and an entry point is where it was marked
  (`Finished.entry`). Work that always leaves the code leads to a machine outside
  (`Site.Does.leaves`).
-/

namespace RiscvJit

/-- The address is none of the code that stands at `start`. -/
def CodeBlob.Clear (b : CodeBlob) (start addr : UInt64) : Prop := ∀ i < b.code.length, addr ≠ start + UInt64.ofNat i

/-- The code stands in memory. -/
def CodeBlob.Stands (b : CodeBlob) (start : UInt64) (m : Machine) : Prop := m.Loaded start b.code.toArray

/-- The machine is at an entry point of the code. -/
def CodeBlob.Enters (b : CodeBlob) (start : UInt64) (name : String) (m : Machine) : Prop :=
  b.Stands start m ∧ ∃ off, b.entryOffset name = .ok off ∧ m.pc = start + off.toUInt64

variable {b : CodeBlob} {α : Type} {name : String} {base start : UInt64} {capacity frameSize : Int64} {x : Asm α}
  {blob : CodeBlob} {m : Machine} {P : Machine → Prop} {r : α}

theorem CodeBlob.clear_iff {addr : UInt64} (h : start.toNat + b.code.length ≤ 2 ^ 64) :
    b.Clear start addr ↔ ¬ RiscvJit.Spans start.toNat b.code.length addr := by
  constructor
  · intro hclear hin
    refine hclear (addr.toNat - start.toNat) (by omega) (UInt64.toNat_inj.mp ?_)
    have := addr.toNat_lt
    rw [toNat_off (by omega)]
    omega
  · rintro hout i hi rfl
    exact hout (spans_at h hi)

theorem CodeBlob.stands_overlay {mem : Ram} (h : b.code.length ≤ 2 ^ 64) (hm : m.mem = mem.overlay start b.code) :
    b.Stands start m := by
  intro i hi
  rw [hm]
  refine Ram.overlay_at mem start h ?_
  rw [← Array.getElem?_eq_getElem hi, List.getElem?_toArray]

/-- Code stands as long as its bytes are kept. -/
theorem CodeBlob.Stands.keep {m' : Machine} (h : b.Stands start m)
    (hmem : ∀ addr, ¬ b.Clear start addr → m'.mem addr = m.mem addr) : b.Stands start m' := by
  intro i hi
  rw [hmem _ fun hclear => hclear i hi rfl]
  exact h i hi

/-- The code was written from one assembler, for an empty buffer, to the other. -/
structure Finished (base : UInt64) (blob : CodeBlob) (first last : Assembler) : Prop where
  fresh : Holds {} first
  behind : first.Behind
  working : last.buf.failed = false
  base : first.buf.base = base
  code : blob.code = last.buf.bytes.toList
  entries : blob.entries = last.entries.map fun (n, off) => (n, Int64.ofNat off)
  maps : blob.oopMaps = last.oopMaps
  stubs : blob.stubs = last.buf.stubs.toList

theorem finished_of {first last : Assembler} (hstart : Assembler.start name base capacity = .ok first)
    (hfinish : last.finish frameSize = .ok blob) : Finished base blob first last := by
  cases hbuf : CodeBuffer.create name base capacity with
  | error e =>
    rw [Assembler.start, hbuf] at hstart
    cases hstart
  | ok buf =>
    rw [Assembler.start, hbuf] at hstart
    cases hstart
    have hbase : buf.base = base := by
      unfold CodeBuffer.create at hbuf
      split at hbuf
      · cases hbuf
      · cases hbuf
        rfl
    unfold Assembler.finish at hfinish
    split at hfinish
    · cases hfinish
    case _ hw =>
      cases hfinish
      exact ⟨holds_create hbuf, fun _ _ h => (by cases h), Bool.eq_false_iff.mpr hw, hbase, rfl, rfl, rfl, rfl⟩

theorem finished_generate {t : Target} (h : Asm.generate t name base capacity frameSize x = .ok (blob, r)) :
    ∃ first last, Finished base blob first last ∧ x t first = .ok (r, last) := by
  obtain ⟨first, hstart, h⟩ := except_bind_eq_ok.mp h
  obtain ⟨⟨r', last⟩, hrun, h⟩ := except_bind_eq_ok.mp h
  obtain ⟨blob', hfinish, h⟩ := except_bind_eq_ok.mp h
  cases h
  rw [ofFault_eq_ok] at hstart hrun
  rw [ofFailure_eq_ok] at hfinish
  exact ⟨first, last, finished_of hstart hfinish, hrun⟩

theorem lookup_map_offset (entries : List (String × Nat)) (name : String) :
    (entries.map fun (n, off) => (n, Int64.ofNat off)).lookup name = (entries.lookup name).map Int64.ofNat := by
  induction entries with
  | nil => rfl
  | cons e rest ih =>
    obtain ⟨n, off⟩ := e
    simp only [List.map_cons, List.lookup_cons]
    cases name == n with
    | true => rfl
    | false => exact ih

section
variable {base start : UInt64} {blob : CodeBlob} {first last a : Assembler} {W : World}

namespace Finished

/-- Finished code in memory, among routines that lie elsewhere. -/
def site (h : Finished base blob first last) (t : Target) (start : UInt64) (W : World)
    (hclear : ∀ i < blob.code.length, W (start + UInt64.ofNat i) = none) (hbase : base ≠ 0 → start = base) : Site where
  world := W
  target := t
  first := first
  last := last
  start := start
  origin := {}
  fresh := h.fresh
  behind := h.behind
  working := h.working
  clear i hi := hclear i (by rw [h.code, Array.length_toList]; exact hi)
  based hne := by
    rw [h.base] at hne ⊢
    exact hbase hne

/-- An entry point is where it was marked. -/
theorem entry (h : Finished base blob first last) {name : String} {k : Nat} (hk : last.entries.lookup name = some k) :
    blob.entryOffset name = .ok (Int64.ofNat k) := by
  rw [CodeBlob.entryOffset, h.entries, lookup_map_offset, hk]
  rfl

section
variable (h : Finished base blob first last) {t : Target}
  {hclear : ∀ i < blob.code.length, W (start + UInt64.ofNat i) = none} {hbase : base ≠ 0 → start = base}

theorem free_iff (addr : UInt64) : (h.site t start W hclear hbase).Free addr ↔ blob.Clear start addr := by
  show (∀ i < last.buf.bytes.size, _) ↔ ∀ i < blob.code.length, _
  rw [h.code, Array.length_toList]
  rfl

theorem stands_iff (m : Machine) : (h.site t start W hclear hbase).Stands m ↔ blob.Stands start m := by
  show m.Loaded start last.buf.bytes ↔ m.Loaded start blob.code.toArray
  rw [h.code, Array.toArray_toList]

/-- A machine at an entry point is in front of what was written there. -/
theorem at_entry {name : String} {m : Machine} (hm : blob.Enters start name m)
    (hk : last.entries.lookup name = some a.buf.offset) : (h.site t start W hclear hbase).At a m := by
  obtain ⟨hstands, off, hoff, hpc⟩ := hm
  refine ⟨(h.stands_iff m).mpr hstands, ?_⟩
  rw [h.entry hk] at hoff
  cases hoff
  rw [hpc, Int64.toUInt64_ofNat']
  rfl

end

end Finished

end

/-- Work that always leaves the code leads to where it goes. -/
theorem Site.Does.leaves {S : Site} {a a' : Assembler} (h : S.Does x m (Exits.none.or .away P) fun _ _ => False)
    (hrun : x S.target a = .ok (r, a')) (ha : S.Early a) (ha' : S.Late a') (hat : S.At a m) :
    ∃ m', S.world.Reaches m m' ∧ P m' := by
  obtain ⟨m', hreach, ⟨-, hnever⟩ | haway | ⟨l, -, hlabel⟩⟩ := h a r a' hrun ha ha' hat
  · exact hnever.elim
  · rcases haway with ⟨-, hP⟩ | hnever
    · exact ⟨m', hreach, hP⟩
    · exact hnever.elim
  · rcases hlabel with ⟨e, -⟩ | hnever
    · cases e
    · exact hnever.elim

/-- Work that always leaves for a label leads to where it is bound. -/
theorem Site.Does.leavesFor {S : Site} {l : Label} {a a' : Assembler}
    (h : S.Does x m (Exits.none.or (.label l) P) fun _ _ => False) (hrun : x S.target a = .ok (r, a')) (ha : S.Early a)
    (ha' : S.Late a') (hat : S.At a m) : ∃ m', S.world.Reaches m m' ∧ S.To l m' ∧ P m' := by
  obtain ⟨m', hreach, ⟨-, hnever⟩ | haway | ⟨l', hto, hlabel⟩⟩ := h a r a' hrun ha ha' hat
  · exact hnever.elim
  · rcases haway with ⟨e, -⟩ | hnever
    · cases e
    · exact hnever.elim
  · rcases hlabel with ⟨e, hP⟩ | hnever
    · cases e
      exact ⟨m', hreach, hto, hP⟩
    · exact hnever.elim

/-- Generated code that always leaves itself leads from its beginning to where it goes. -/
theorem generated_leaves {t : Target} {W : World} (h : Asm.generate t name base capacity frameSize x = .ok (blob, r))
    (hclear : ∀ i < blob.code.length, W (start + UInt64.ofNat i) = none) (hbase : base ≠ 0 → start = base)
    (hstands : blob.Stands start m) (hpc : m.pc = start)
    (hdoes : ∀ S : Site, S.world = W → S.target = t → S.start = start → S.Free = blob.Clear start →
      S.Does x m (Site.Exits.none.or .away P) fun _ _ => False) : ∃ m', W.Reaches m m' ∧ P m' := by
  obtain ⟨first, last, hfinished, hrun⟩ := finished_generate h
  let S := hfinished.site t start W hclear hbase
  have hat : S.At first m := by
    refine ⟨(hfinished.stands_iff m).mpr hstands, ?_⟩
    rw [show first.buf.offset = 0 from hfinished.fresh.offset, hpc]
    exact (UInt64.add_zero _).symm
  have hfree : S.Free = blob.Clear start := funext fun addr => propext (hfinished.free_iff addr)
  exact (hdoes S rfl rfl rfl hfree).leaves hrun ⟨[], .nil _⟩ (Site.late_of_trace (.nil _)) hat

/-- The machine has jumped to an address. Jumps clear the lowest bit, which addresses of code do not have. -/
structure Jumped (m : Machine) (addr : UInt64) : Prop where
  pc : m.pc = addr &&& ~~~1
  even : addr % 2 = 0 → m.pc = addr

theorem jumped_of_pc {addr : UInt64} (h : m.pc = addr &&& ~~~1) : Jumped m addr :=
  ⟨h, fun heven => h.trans (and_not_one heven)⟩

theorem trace_entry (t : Target) (name : String) (a : Assembler) : Trace t [.entry name] a (a.markEntry name) :=
  .cons trivial rfl (.nil _)

end RiscvJit

/-! ## Detours

Slow paths are written behind the code that leaves for them, so what holds of them is known only when
all of the code is there. Work that leaves for slow paths tells them in its result, and
`S.DoesWhere G x m E Q` is what the work does where its result is one of which `G` holds: that the
slow paths it tells are in the code (`S.Contains`). An exit to a label whose code leaves for another
label is an exit to that one (`Does.onward`, `Contains.goesOn`). The code that is left for may also be
seen from another place of the same finished code (`Beside`). -/

namespace RiscvJit

namespace Asm

variable {α β : Type} {P : α → Prop} {Q : β → Prop}

/-- What the work returns, wherever it is written. -/
def Returns (x : Asm α) (P : α → Prop) : Prop := ∀ t a r a', x t a = .ok (r, a') → P r

theorem returns_pure {r : α} (h : P r) : Returns (pure r) P := by
  intro t a r' a' hrun
  obtain ⟨rfl, -⟩ := pure_eq_ok.mp hrun
  exact h

/-- What comes last says what is returned. -/
theorem Returns.after {x : Asm α} {f : α → Asm β} (hf : ∀ r, Returns (f r) Q) : Returns (x >>= f) Q := by
  intro t a s a' hrun
  obtain ⟨r, b, -, hs⟩ := bind_eq_ok.mp hrun
  exact hf r _ _ _ _ hs

end Asm

namespace Site

/-- The code of the work is in the site. -/
def Contains (S : Site) {α : Type} (x : Asm α) : Prop := ∃ a r a', x S.target a = .ok (r, a') ∧ S.Early a ∧ S.Late a'

/-- What the work does, where its result is one of which `G` holds. -/
def DoesWhere (S : Site) {α : Type} (G : α → Prop) (x : Asm α) (m : Machine) (E : Exits)
    (Q : α → Machine → Prop) : Prop :=
  ∀ a r a', x S.target a = .ok (r, a') → G r → S.Early a → S.Late a' → S.At a m →
    ∃ m', S.world.Reaches m m' ∧ (S.At a' m' ∧ Q r m' ∨ S.Leaves E m')

section
variable {S : Site} {α β : Type} {G : α → Prop} {m : Machine} {E : Exits} {Q : α → Machine → Prop} {x : Asm α}

theorem Does.anywhere (h : S.Does x m E Q) : S.DoesWhere G x m E Q := fun a r a' hrun _ => h a r a' hrun

theorem DoesWhere.imp {E' : Exits} {Q' : α → Machine → Prop} (h : S.DoesWhere G x m E Q) (hE : ∀ e m, E e m → E' e m)
    (hQ : ∀ r m, G r → Q r m → Q' r m) : S.DoesWhere G x m E' Q' := by
  intro a r a' hrun hG ha ha' hat
  obtain ⟨m', hreach, ⟨hat', hq⟩ | hleave⟩ := h a r a' hrun hG ha ha' hat
  · exact ⟨m', hreach, .inl ⟨hat', hQ r m' hG hq⟩⟩
  · exact ⟨m', hreach, .inr (hleave.imp hE)⟩

variable {f : α → Asm β} {l : Label}

/-- One after the other; what is known of the result of both tells something of the first. -/
theorem DoesWhere.bind {G' : β → Prop} {Q : β → Machine → Prop} [hx : x.Traced] [hf : ∀ r, (f r).Traced]
    (hG : ∀ r, (f r).Returns fun s => G' s → G r) (h : S.DoesWhere G x m E fun r m' => S.DoesWhere G' (f r) m' E Q) :
    S.DoesWhere G' (x >>= f) m E Q := by
  intro a s a' hrun hG' ha ha' hat
  obtain ⟨r, b, hr, hs⟩ := Asm.bind_eq_ok.mp hrun
  obtain ⟨is, htrace, -⟩ := hx.trace _ _ _ _ ha.behind hr
  have hb := ha.append htrace
  obtain ⟨js, htrace', -⟩ := (hf r).trace _ _ _ _ hb.behind hs
  obtain ⟨m1, hreach, ⟨hat1, hrest⟩ | hleave⟩ := h a r b hr (hG r _ _ _ _ hs hG') ha (ha'.append htrace') hat
  · obtain ⟨m', hreach', hend⟩ := hrest b s a' hs hG' hb ha' hat1
    exact ⟨m', hreach.trans hreach', hend⟩
  · exact ⟨m1, hreach, .inr hleave⟩

/-- Work of whose result nothing is known comes first. -/
theorem Does.bindWhere {G' : β → Prop} {Q : β → Machine → Prop} [x.Traced] [∀ r, (f r).Traced]
    (h : S.Does x m E fun r m' => S.DoesWhere G' (f r) m' E Q) : S.DoesWhere G' (x >>= f) m E Q :=
  .bind (G := fun _ => True) (fun _ _ _ _ _ _ _ => trivial) h.anywhere

theorem doesWhere_pure {r : α} (h : G r → Q r m) : S.DoesWhere G (pure r) m E Q := by
  intro a s a' hrun hG _ _ hat
  obtain ⟨rfl, rfl⟩ := Asm.pure_eq_ok.mp hrun
  exact ⟨m, .refl _ _, .inl ⟨hat, h hG⟩⟩

/-- Where the result is settled beforehand, so is what is known of it. -/
theorem DoesWhere.knowing {r : α} (hr : x.Returns (· = r)) (h : G r → S.Does x m E Q) : S.DoesWhere G x m E Q := by
  intro a s a' hrun hG
  cases hr _ _ _ _ hrun
  exact h hG a _ a' hrun

/-! ## Going on elsewhere -/

/-- What leaves for a label whose code takes another exit takes that exit. -/
theorem Does.onward {P : Machine → Prop} (h : S.Does x m (E.or (.label l) P) Q)
    (hgo : ∀ m', S.To l m' → P m' → ∃ m'', S.world.Reaches m' m'' ∧ S.Leaves E m'') : S.Does x m E Q := by
  intro a r a' hrun ha ha' hat
  obtain ⟨m1, hreach, hend | haway | ⟨l', hto, hlabel⟩⟩ := h a r a' hrun ha ha' hat
  · exact ⟨m1, hreach, .inl hend⟩
  · rcases haway with ⟨e, -⟩ | haway
    · cases e
    · exact ⟨m1, hreach, .inr (.inl haway)⟩
  · rcases hlabel with ⟨e, hP⟩ | hlabel
    · cases e
      obtain ⟨m', hreach', hleave⟩ := hgo m1 hto hP
      exact ⟨m', hreach.trans hreach', .inr hleave⟩
    · exact ⟨m1, hreach, .inr (.inr ⟨l', hto, hlabel⟩)⟩

/-- Where the code of a label is, the label is bound. -/
theorem Contains.binds [hx : x.Traced] (h : S.Contains (Asm.bind l >>= fun _ => x)) : S.Binds l := by
  obtain ⟨a, r, a', hrun, ha, ha'⟩ := h
  obtain ⟨_, b, hbind, hs⟩ := Asm.bind_eq_ok.mp hrun
  have hb := ha.append (trace_call (c := .bind l) trivial hbind)
  obtain ⟨js, htrace, -⟩ := hx.trace _ _ _ _ hb.behind hs
  exact (To.at_bind hbind ha (ha'.append htrace)).1

/-- The work may use that its last part is there. -/
theorem Does.containing {x : Asm α} {y : Asm β} {Q : β → Machine → Prop} [hx : x.Traced] (hf : ∀ r, f r = y)
    (h : S.Contains y → S.Does (x >>= f) m E Q) : S.Does (x >>= f) m E Q := by
  intro a r a' hrun ha ha' hat
  obtain ⟨q, b, hfirst, hrest⟩ := Asm.bind_eq_ok.mp hrun
  obtain ⟨items, htrace, -⟩ := hx.trace _ _ _ _ ha.behind hfirst
  rw [hf] at hrest
  exact h ⟨b, r, a', hrest, ha.append htrace, ha'⟩ a r a' hrun ha ha' hat

/-- Code that never comes to its end is left where it is entered. -/
theorem Contains.goesOn [hx : x.Traced] (h : S.Contains (Asm.bind l >>= fun _ => x)) (hto : S.To l m)
    (hdoes : S.Does x m E fun _ _ => False) : ∃ m', S.world.Reaches m m' ∧ S.Leaves E m' := by
  obtain ⟨a, r, a', hrun, ha, ha'⟩ := h
  obtain ⟨_, b, hbind, hs⟩ := Asm.bind_eq_ok.mp hrun
  have hb := ha.append (trace_call (c := .bind l) trivial hbind)
  obtain ⟨js, htrace, -⟩ := hx.trace _ _ _ _ hb.behind hs
  have hat : S.At b m := by
    refine ⟨hto.1, ?_⟩
    rw [((To.at_bind hbind ha (ha'.append htrace)).2 m hto).pc, offset_bindLabel hbind]
  obtain ⟨m', hreach, ⟨-, hnever⟩ | hleave⟩ := hdoes b r a' hs hb ha' hat
  · exact hnever.elim
  · exact ⟨m', hreach, hleave⟩

/-- Code that may leave for its slow path, which comes back to the label behind the code. -/
theorem Does.detour {x : Asm α} {slow : Asm Unit} {entry cont : Label} {P : Machine → Prop} {Q : β → Machine → Prop}
    [x.Traced] [∀ r, (f r).Traced] [slow.Traced] (hslow : S.Contains (Asm.bind entry >>= fun _ => slow))
    (hx : S.Binds entry → S.Does x m (Exits.none.or (.label entry) P) fun r m' => S.Does (f r) m' E Q)
    (hback : S.Binds cont → ∀ m', P m' →
      S.Does slow m' (Exits.none.or (.label cont) fun m'' => ∀ r, S.Does (f r) m'' E Q) fun _ _ => False) :
    S.Does (x >>= fun r => Asm.bind cont >>= fun _ => f r) m E Q := by
  have widen {e : Exit} {P : Machine → Prop} {E : Exits} : ∀ e' m, Exits.none.or e P e' m → E.or e P e' m :=
    fun _ _ h => h.elim .inl fun h => h.elim
  refine Does.label fun hcont => Does.onward ((hx hslow.binds).imp widen fun _ _ h => h) fun m' hto hP => ?_
  exact hslow.goesOn hto ((hback hcont m' hP).imp widen fun _ _ h => h)

/-! ## Other places of the same code -/

/-- The same finished code in memory, seen from another place of it. -/
structure Beside (S S' : Site) : Prop where
  world : S'.world = S.world
  target : S'.target = S.target
  start : S'.start = S.start
  last : S'.last = S.last

namespace Beside

variable {S' : Site} {l : Label}

theorem to_iff (h : S.Beside S') : S'.To l m ↔ S.To l m :=
  ⟨.congr h.last h.start, .congr h.last.symm h.start.symm⟩

theorem binds_iff (h : S.Beside S') : S'.Binds l ↔ S.Binds l := by
  unfold Binds
  rw [h.last]

theorem stands_iff (h : S.Beside S') : S'.Stands m ↔ S.Stands m := by
  unfold Stands
  rw [h.last, h.start]

theorem leaves (h : S.Beside S') (hleave : S'.Leaves E m) : S.Leaves E m :=
  hleave.imp_right fun ⟨l, hto, he⟩ => ⟨l, h.to_iff.mp hto, he⟩

end Beside

end

end Site

end RiscvJit

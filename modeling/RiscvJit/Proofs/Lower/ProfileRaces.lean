import RiscvJit.Proofs.Lower.ProfileCells

/-
  RiscvJit.Proofs.Lower.ProfileRaces — threads that profile at once record no type that nobody passed.

  Any number of threads run code with profiles of one cell, one instruction of one thread at a time
  (`Race`). A thread reads the cell, tests what it read and writes the cell, and others may write in
  between, so a record can get lost. But whatever a thread writes, it computes from one value that the
  cell had and from its own type, and the types of both are types that some thread passed. So a thread
  relies on others to keep to such values (`Runner.Relies`) and keeps to them itself
  (`Runner.guaranteed`), and the cell never holds another type (`races_record_no_other_type`).
-/

namespace RiscvJit

/-- The cell holds no type, or one of these. -/
def CellAmong (K : UInt64 → Prop) (x : UInt64) : Prop := cellKlass x = 0 ∨ K (cellKlass x)

/-- A record adds no type but the one it is made for. -/
theorem CellAmong.record {K : UInt64 → Prop} {p : TypeProfile} {k : Option UInt64} {x : UInt64} (h : CellAmong K x)
    (hk : ∀ c, k = some c → ProperKlass c ∧ K c) : CellAmong K (p.record k x) := by
  cases k with
  | none =>
    rw [CellAmong, record_none.1]
    exact h
  | some c =>
    obtain ⟨hproper, hc⟩ := hk c rfl
    cases record_some (p := p) (x := x) hproper with
    | same hsame _ =>
      rw [hsame]
      exact h
    | second _ _ hklass _ _ =>
      rw [CellAmong, hklass]
      exact h
    | first _ hklass _ _ _ =>
      rw [CellAmong, hklass]
      exact .inr hc

/-! ## Threads in the code of a profile -/

/-- A value that is passed to a profile, and its type. -/
structure Passed (t : Target) (cell : UInt64) where
  point : ProfilePoint t cell
  value : UInt64
  type : Option UInt64

/-- The instruction of a thread writes nothing, or such a value to the cell. -/
def WritesCell (cell : UInt64) (K : UInt64 → Prop) (mem mem' : Ram) : Prop :=
  mem' = mem ∨ ∃ x, CellAmong K x ∧ mem' = mem.write cell 8 x

namespace Passed

variable {t : Target} {cell : UInt64}

/-- The code and the type of the value stay as they are. -/
structure Undisturbed (v : Passed t cell) (mem mem' : Ram) : Prop where
  code : ∀ addr, ¬ v.point.Clear addr → mem' addr = mem addr
  klass : v.type ≠ none → t.opts.klassAt mem' v.value = t.opts.klassAt mem v.value

/-- What a thread with this value needs of others: they do not disturb it, and the cell gets no other types. -/
structure Relies (v : Passed t cell) (K : UInt64 → Prop) (mem mem' : Ram) : Prop extends v.Undisturbed mem mem' where
  among : CellAmong K (mem.read cell 8) → CellAmong K (mem'.read cell 8)

theorem relies_refl (v : Passed t cell) (K : UInt64 → Prop) (mem : Ram) : v.Relies K mem mem :=
  ⟨⟨fun _ _ => rfl, fun _ => rfl⟩, id⟩

theorem Relies.trans {v : Passed t cell} {K : UInt64 → Prop} {mem mem1 mem' : Ram} (h : v.Relies K mem mem1)
    (h' : v.Relies K mem1 mem') : v.Relies K mem mem' :=
  ⟨⟨fun addr ha => (h'.code addr ha).trans (h.code addr ha), fun hk => (h'.klass hk).trans (h.klass hk)⟩,
    h'.among ∘ h.among⟩

/-- A thread among others that run such code. -/
def company (v : Passed t cell) (K : UInt64 → Prop) (S : Site)
    (hfree : ∀ addr, S.Free addr ↔ v.point.Clear addr) : Company S where
  others s s' := v.Relies K s.mem s'.mem
  ours := WritesCell cell K
  refl s := v.relies_refl K s.mem
  trans h h' := h.trans h'
  quiet _ := .inl rfl
  keeps h addr ha := h.code addr fun hclear => ha ((hfree addr).mpr hclear)
  endless := False

/-- The header of the object lies outside the cell. -/
def Apart (v : Passed t cell) : Prop :=
  v.type ≠ none → ∀ i < 8, ∀ j < 8, v.value + 8 + UInt64.ofNat i ≠ cell + UInt64.ofNat j

/-- What one thread writes another can rely on. -/
theorem relies_of_writes {v : Passed t cell} {K : UInt64 → Prop} {mem mem' : Ram} (hv : v.Apart)
    (h : WritesCell cell K mem mem') : v.Relies K mem mem' := by
  rcases h with rfl | ⟨x, hx, rfl⟩
  · exact v.relies_refl K _
  -- an address that is none of the cell keeps its byte
  have outside {addr : UInt64} (hne : ∀ j < 8, addr ≠ cell + UInt64.ofNat j) : mem.write cell 8 x addr = mem addr := by
    refine Ram.write_outside _ _ (Nat.le_of_not_lt fun hlt => hne _ hlt ?_)
    rw [UInt64.ofNat_toNat, UInt64.add_comm, UInt64.sub_add_cancel]
  have header (htype : v.type ≠ none) {n : Nat} (hn : n ≤ 8) :
      (mem.write cell 8 x).read (v.value + 8) n = mem.read (v.value + 8) n :=
    Ram.read_congr fun i hi => outside fun j hj => hv htype i (by omega) j hj
  refine ⟨⟨fun addr ha => outside fun j hj e => ha (e ▸ v.point.apart j hj), fun htype => ?_⟩, fun _ => ?_⟩
  · rw [Options.klassAt, Options.klassAt, header htype (by decide), header htype (by decide)]
  · rw [read_write_eight]
    exact hx

end Passed

/-- A thread that runs the code of a profile: what it passed, and its registers and program counter. -/
structure Runner (t : Target) (cell : UInt64) extends Passed t cell where
  machine : Machine

namespace Runner

variable {t : Target} {cell : UInt64}

/-- A machine in front of the code, as a thread. -/
def enter (pt : ProfilePoint t cell) (m : Machine) : Runner t cell := ⟨⟨pt, m.get pt.value, pt.typeAt m⟩, m⟩

/-- The thread is in the code. -/
def Running (r : Runner t cell) : Prop := r.point.Inside r.point.index r.machine.pc

/-- Whatever others do that the thread relies on, it can go on in its code and keeps to what they rely on. -/
def Guarantees (r : Runner t cell) (K : UInt64 → Prop) (s : Shared) : Prop :=
  ∃ (S : Site) (hfree : ∀ addr, S.Free addr ↔ r.point.Clear addr), S.world = World.bare ∧
    Site.Abides (r.company K S hfree) (r.point.Inside r.point.index) (fun _ => True) (r.machine.within s)

section
variable {r : Runner t cell} {K : UInt64 → Prop} {s s' : Shared}

/-- A thread that enters the code of a profile. -/
theorem guaranteed {pt : ProfilePoint t cell} {m : Machine} (hopts : t.opts.refusal? = none) (hapt : pt.Apt m)
    (hK : ∀ c, pt.typeAt m = some c → K c) (hcell : CellAmong K (m.mem.read cell 8)) :
    (enter pt m).Guarantees K m.shared := by
  obtain ⟨S, s, s', hspelled⟩ := pt.spelled World.bare fun _ _ => rfl
  refine ⟨S, hspelled.free, hspelled.world, ?_⟩
  let C := (enter pt m).company K S hspelled.free
  have hklass (c : UInt64) (hc : pt.typeAt m = some c) (s : Shared) (hs : C.others m.shared s) :
      t.opts.klassAt s.mem (m.get pt.value) = c := by
    have hkept : t.opts.klassAt s.mem (m.get pt.value) = t.opts.klassAt m.mem (m.get pt.value) := by
      refine hs.klass ?_
      show pt.typeAt m ≠ none
      rw [hc]
      exact Option.some_ne_none c
    rw [ProfilePoint.typeAt] at hc
    split at hc
    · cases hc
    · rw [hkept]
      exact Option.some.inj hc
  have hrec : Recording C pt.profile (pt.typeAt m) (CellAmong K) (fun _ => True) m.shared := by
    refine ⟨fun i hi => ?_, fun s hs => ?_, fun _ _ _ _ _ => trivial,
      fun s x _ hx => .inr ⟨pt.profile.record (pt.typeAt m) x, hx.record fun c hc => ⟨hapt.proper c hc, hK c hc⟩, ?_⟩,
      fun _ _ _ _ _ _ => trivial⟩
    · rw [hspelled.free, pt.records]
      exact pt.apart i hi
    · rw [pt.records]
      exact hs.among hcell
    · rw [pt.records]
  have habides := hspelled.abides hapt.before
    (ProfilePoint.proceeds (C := C) (hspelled.target ▸ hopts) hspelled.target hapt hklass hrec)
  exact fun n => (habides n).imp fun _ _ _ => trivial

theorem Guarantees.step (h : r.Guarantees K s) (hin : r.Running) :
    ∃ m', World.bare.step (r.machine.within s) = some m' ∧ WritesCell cell K s.mem m'.mem ∧
      Guarantees { r with machine := m' } K m'.shared := by
  obtain ⟨S, hfree, hworld, habides⟩ := h
  obtain ⟨m', hstep, hours, hrest⟩ := habides.step hin ((r.company K S hfree).refl _)
  rw [hworld, Machine.shared_within] at hstep
  exact ⟨m', hstep, hours, S, hfree, hworld, hrest⟩

/-- It waits while others do what it relies on. -/
theorem Guarantees.wait (h : r.Guarantees K s) (hs : r.Relies K s.mem s'.mem) : r.Guarantees K s' := by
  obtain ⟨S, hfree, hworld, habides⟩ := h
  refine ⟨S, hfree, hworld, ?_⟩
  by_cases hin : r.Running
  · exact habides.within (s := s') hin hs
  · exact fun n => Site.recounts_out hin trivial

end

end Runner

/-! ## Races -/

/-- Threads run code with profiles of the cell, from when the cell is zero on, and nothing else writes to the cell. There
are the types that were passed so far, what the threads share, and the threads that are in such code. -/
inductive Race (t : Target) (cell : UInt64) (ι : Type) [DecidableEq ι] :
    List UInt64 → Shared → (ι → Option (Runner t cell)) → Prop
  | start {s : Shared} : s.mem.read cell 8 = 0 → Race t cell ι [] s fun _ => none
  /-- A thread enters the code of a profile with a value. -/
  | enter {seen : List UInt64} {ts : ι → Option (Runner t cell)} (i : ι) (pt : ProfilePoint t cell) (m : Machine) :
      Race t cell ι seen m.shared ts → ts i = none → pt.Apt m → (Runner.enter pt m).Apart →
      Race t cell ι (seen ++ (pt.typeAt m).toList) m.shared (Function.update ts i (some (.enter pt m)))
  /-- A thread executes one instruction. -/
  | step {seen : List UInt64} {s : Shared} {ts : ι → Option (Runner t cell)} {i : ι} {r : Runner t cell} {m' : Machine} :
      Race t cell ι seen s ts → ts i = some r → r.Running → World.bare.step (r.machine.within s) = some m' →
      Race t cell ι seen m'.shared (Function.update ts i (some { r with machine := m' }))
  /-- A thread has come to the end of the code. -/
  | leave {seen : List UInt64} {s : Shared} {ts : ι → Option (Runner t cell)} {i : ι} {r : Runner t cell} :
      Race t cell ι seen s ts → ts i = some r → ¬ r.Running → Race t cell ι seen s (Function.update ts i none)
  /-- Something happens elsewhere. -/
  | elsewhere {seen : List UInt64} {s s' : Shared} {ts : ι → Option (Runner t cell)} :
      Race t cell ι seen s ts → s'.mem.read cell 8 = s.mem.read cell 8 →
      (∀ i r, ts i = some r → r.Undisturbed s.mem s'.mem) → Race t cell ι seen s' ts

section
variable {t : Target} {cell : UInt64} {ι : Type} [DecidableEq ι] {seen : List UInt64} {s : Shared}
  {ts : ι → Option (Runner t cell)}

/-- What holds of the cell and the threads, for any types that include those that were passed. -/
theorem Race.kept (hopts : t.opts.refusal? = none) (h : Race t cell ι seen s ts) (K : UInt64 → Prop)
    (hK : ∀ c ∈ seen, K c) :
    CellAmong K (s.mem.read cell 8) ∧ ∀ i r, ts i = some r → r.Apart ∧ r.Guarantees K s := by
  induction h with
  | start hzero =>
    rw [hzero]
    exact ⟨.inl (show cellKlass 0 = 0 by decide), fun _ _ h => absurd h (Option.some_ne_none _).symm⟩
  | enter i pt m _ _ hapt hapart ih =>
    obtain ⟨hcell, hthreads⟩ := ih fun c hc => hK c (List.mem_append_left _ hc)
    refine ⟨hcell, fun j r hr => ?_⟩
    rw [Function.update_apply] at hr
    split at hr
    · cases hr
      refine ⟨hapart, Runner.guaranteed hopts hapt (fun c hc => hK c (List.mem_append_right _ ?_)) hcell⟩
      rw [hc]
      exact List.mem_singleton.mpr rfl
    · exact hthreads j r hr
  | @step _ s _ i r m' _ hi hin hstep ih =>
    obtain ⟨hcell, hthreads⟩ := ih hK
    obtain ⟨hapart, hr⟩ := hthreads i r hi
    obtain ⟨m1, hstep1, hwrites, hnext⟩ := hr.step hin
    rw [hstep] at hstep1
    cases hstep1
    refine ⟨(Passed.relies_of_writes hapart hwrites).among hcell, fun j r' hr' => ?_⟩
    rw [Function.update_apply] at hr'
    split at hr'
    · cases hr'
      exact ⟨hapart, hnext⟩
    · obtain ⟨hapart', hguarantees⟩ := hthreads j r' hr'
      exact ⟨hapart', hguarantees.wait (Passed.relies_of_writes hapart' hwrites)⟩
  | leave _ _ _ ih =>
    obtain ⟨hcell, hthreads⟩ := ih hK
    refine ⟨hcell, fun j r' hr' => ?_⟩
    rw [Function.update_apply] at hr'
    split at hr'
    · cases hr'
    · exact hthreads j r' hr'
  | elsewhere _ hsame hothers ih =>
    obtain ⟨hcell, hthreads⟩ := ih hK
    refine ⟨by rwa [hsame], fun j r hr => ?_⟩
    obtain ⟨hapart, hguarantees⟩ := hthreads j r hr
    exact ⟨hapart, hguarantees.wait ⟨hothers j r hr, fun h => by rwa [hsame]⟩⟩

/-- In every interleaving, the type in the cell is none or one that some thread passed, and every thread in the code can
go on. -/
theorem races_record_no_other_type (hopts : t.opts.refusal? = none) (h : Race t cell ι seen s ts) :
    (cellKlass (s.mem.read cell 8) = 0 ∨ cellKlass (s.mem.read cell 8) ∈ seen) ∧
      ∀ i r, ts i = some r → r.Running → ∃ m', World.bare.step (r.machine.within s) = some m' := by
  obtain ⟨hcell, hthreads⟩ := h.kept hopts (· ∈ seen) fun _ h => h
  refine ⟨hcell, fun i r hi hin => ?_⟩
  obtain ⟨m', hstep, -⟩ := (hthreads i r hi).2.step hin
  exact ⟨m', hstep⟩

/-- A thread may run to the end of the code while all others wait. -/
theorem Race.run {i : ι} {r : Runner t cell} {m m' : Machine} (h : World.bare.Passes (r.point.Inside r.point.index) m m')
    (hrace : Race t cell ι seen m.shared (Function.update ts i (some { r with machine := m }))) :
    Race t cell ι seen m'.shared (Function.update ts i none) := by
  induction h with
  | @out m hout =>
    have hleave := hrace.leave (i := i) (Function.update_self ..) hout
    rwa [Function.update_idem] at hleave
  | @step m m1 m' hin hstep _ ih =>
    have hnext := hrace.step (i := i) (Function.update_self ..) hin (by rwa [Machine.within_shared])
    rw [Function.update_idem] at hnext
    exact ih hnext

end

/-- While one thread is about to record an object of the second type, another comes and goes with one of the first. -/
theorem second_thread_overtakes : ∃ (s : Shared) (ts : Bool → Option (Runner ⟨{}, .empty⟩ 0x1000)),
    Race ⟨{}, .empty⟩ 0x1000 Bool [0x80, 0x40] s ts ∧ (∃ r, ts false = some r ∧ r.value = 0x3000) ∧
      s.mem.read 0x1000 8 = 0x40 ∧ (cellKlass (s.mem.read 0x1000 8) = 0 ∨
      cellKlass (s.mem.read 0x1000 8) ∈ [0x80, 0x40]) := by
  obtain ⟨c, hc, hroom⟩ := twiceProfiled_compiles
  obtain ⟨off, hoff⟩ := twiceProfiled_places hc (k := 0) (by decide)
  let pt := firstProfile hc hroom
  let at0 (value : UInt64) := profiling c.blob.code 0 value (0x10000 + UInt64.ofNat off)
  have htype {value k : UInt64} (hne : value ≠ 0) (hend : value.toNat + 16 ≤ 0x10000)
      (hk : (profiledMemory 0).read (value + 8) 4 = k) : pt.typeAt (at0 value) = some k :=
    (if_neg fun h => hne h.2).trans (congrArg some (profiling_klassAt hroom hend hk))
  have hapt {value k : UInt64} (hk : pt.typeAt (at0 value) = some k) (hproper : ProperKlass k) : pt.Apt (at0 value) := by
    refine ⟨⟨CodeBlob.stands_overlay (b := c.blob) (by omega) rfl, off, hoff, rfl⟩, fun _ _ h =>
      absurd rfl h, fun k' hk' => ?_⟩
    rw [hk] at hk'
    cases hk'
    exact hproper
  have hsecond : pt.typeAt (at0 0x3000) = some 0x80 := htype (by decide) (by decide) (by decide)
  have hfirst : pt.typeAt (at0 0x2000) = some 0x40 := htype (by decide) (by decide) (by decide)
  have hcell (value : UInt64) : (at0 value).mem.read 0x1000 8 = 0 := (profiling_read hroom (by decide)).trans (by decide)
  have headers (value : UInt64) (hlo : 0x2000 ≤ value.toNat) (hend : value.toNat + 16 ≤ 2 ^ 64) (i : Nat) (hi : i < 8)
      (j : Nat) (hj : j < 8) : value + 8 + UInt64.ofNat i ≠ 0x1000 + UInt64.ofNat j := by
    intro h
    have hmark : (0x1000 + UInt64.ofNat j).toNat = 0x1000 + j := toNat_off (show 0x1000 + j < 2 ^ 64 by omega)
    have hheader : (value + 8 + UInt64.ofNat i).toNat = value.toNat + (8 + i) := by
      rw [UInt64.add_assoc, show (8 : UInt64) = UInt64.ofNat 8 from rfl, ← UInt64.ofNat_add, toNat_off (by omega)]
    rw [h] at hheader
    omega
  have hrace1 := (Race.start (ι := Bool) (t := ⟨{}, .empty⟩) (hcell 0x3000)).enter false pt (at0 0x3000) rfl
    (hapt hsecond ⟨by decide, by decide⟩) fun _ => headers 0x3000 (by decide) (by decide)
  rw [hsecond] at hrace1
  have hrace2 := Race.enter (m := at0 0x2000) true pt hrace1 rfl (hapt hfirst ⟨by decide, by decide⟩) fun _ =>
    headers 0x2000 (by decide) (by decide)
  rw [hfirst] at hrace2
  obtain ⟨m', hpasses, -, hrecord⟩ := ProfilePoint.runs rfl (hapt hfirst ⟨by decide, by decide⟩)
  rw [hcell, hfirst] at hrecord
  have hend := Race.run (r := .enter pt (at0 0x2000)) hpasses hrace2
  have hrecorded : pt.profile.record (some 0x40) 0 = 0x40 :=
    show TypeProfile.record ⟨0x1000, 0, 0, false, .register .long (.x 11) .none⟩ (some 0x40) 0 = 0x40 by decide
  exact ⟨_, _, hend, ⟨_, rfl, rfl⟩, hrecord.trans hrecorded, (races_record_no_other_type rfl hend).1⟩

end RiscvJit

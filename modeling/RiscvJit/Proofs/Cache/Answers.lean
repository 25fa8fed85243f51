import RiscvJit.Proofs.Cache.Stubs
import RiscvJit.Proofs.Lower.MethodGuarded

/-
  RiscvJit.Proofs.Cache.Answers — a program from a file gets an ordinary answer.

  What a cache does around generating code stops nothing: the region it handed out is pending until
  it is committed or given back, and the memory behind it starts where the cache does
  (`generate_answered`). With what holds of compiling, a program that was read from what a file
  describes is compiled or refused with a reason, if its instructions have the inputs they need and no
  label is bound twice (`programs_of_files_get_an_answer`).

  Reading checks neither: an addition without inputs is read, and compiling it looks for an
  input that is not there (`malformed_programs_stop_compiling`).
-/

namespace RiscvJit

/-! ## Generating -/

namespace CodeCache

/-- The memory behind the cache starts where the cache does. -/
structure Backed (c : CodeCache) : Prop where
  base : ∀ m, c.installer = .memory m → m.base = c.base
  top : 0 ≤ c.top.toInt

variable {α : Type} {c c' : CodeCache} {r : Region} {blob : CodeBlob}

/-- A region that is pending can be given back, so a failure stays what it was. -/
theorem giveUp_answered (hr : r ∈ c.pending) (f : Failure) (log : List LogEntry) :
    (c.giveUp r (.failure f) log : Generation α).result = .error (.failure f) := by
  have hmem : c.pending.contains r = true := by simpa using hr
  unfold giveUp release
  rw [if_pos hmem]

/-- Putting code in place fails for a reason, or is done. -/
theorem install_answered {base : UInt64} (hbase : ∀ m, c.installer = .memory m → 0 ≤ (base - m.base).toInt64.toInt)
    (hsize : blob.size < 2 ^ 62) : Answered (c.installer.install base blob.code) fun _ => True := by
  cases hi : c.installer with
  | unavailable reason => exact .inr ⟨_, rfl⟩
  | memory m =>
    have hstart : decide ((base - m.base).toInt64 < 0) = false :=
      decide_eq_false (Int64.not_lt.mpr (Int64.le_iff_toInt_le.mpr (hbase m hi)))
    have hlen : decide (Int64.ofNat blob.code.length < 0) = false := by
      refine decide_eq_false (Int64.not_lt.mpr (Int64.le_iff_toInt_le.mpr ?_))
      have hlen : (Int64.ofNat blob.code.length).toInt = blob.code.length :=
        Int64.toInt_ofNat_of_lt (Nat.lt_trans hsize (by decide))
      rw [hlen]
      exact Int.natCast_nonneg _
    unfold Installer.install Memory.install Memory.offset
    dsimp only
    split
    · exact .inr ⟨_, rfl⟩
    · split
      · exact .inr ⟨_, rfl⟩
      · rw [hstart, hlen]
        exact .inl ⟨_, rfl, trivial⟩

theorem checkFit_answered (hr : r ∈ c.pending) : Answered (c.checkFit r blob) fun _ => True := by
  have hmem : c.pending.contains r = true := by simpa using hr
  unfold checkFit
  rw [hmem]
  by_cases hbase : blob.base = r.base
  · by_cases hsize : r.size < Int64.ofNat blob.size
    · exact .inr ⟨_, by simp [hbase, hsize]; rfl⟩
    · exact .inl ⟨(), by simp [hbase, hsize]; rfl, trivial⟩
  · exact .inr ⟨_, by simp [hbase]; rfl⟩

theorem commit_answered (hr : r ∈ c.pending) (hbase : ∀ m, c.installer = .memory m → 0 ≤ (r.base - m.base).toInt64.toInt)
    (hsize : blob.size < 2 ^ 62) : Answered (c.commit r blob) fun _ => True := by
  unfold commit
  refine (checkFit_answered hr).bind fun _ _ => ?_
  refine Answered.bind (P := fun _ => True) ?_ fun _ _ => .inl ⟨_, rfl, trivial⟩
  rcases install_answered hbase hsize with ⟨installer, hi, -⟩ | ⟨f, hi⟩
  · rw [hi]
    exact .inl ⟨_, rfl, trivial⟩
  · rw [hi]
    exact .inr ⟨_, rfl⟩

/-- A generation that gets an answer wherever it is put is one as a whole. -/
theorem generate_answered {size : Int64} {make : UInt64 → Except Stop α} {blobOf : α → CodeBlob}
    {note : α → List LogEntry} (hc : c.Backed) (hsize : 0 < size.toInt)
    (hmake : ∀ base, Answered (make base) fun a => (blobOf a).size < 2 ^ 62) :
    Answered (c.generate size make blobOf note).result fun _ => True := by
  have hpos : ¬ size ≤ 0 := Int64.not_le.mpr (Int64.lt_iff_toInt_lt.mpr hsize)
  unfold generate
  cases hreserve : c.reserve size with
  | error e =>
    unfold reserve at hreserve
    rw [if_neg hpos] at hreserve
    dsimp only at hreserve
    split at hreserve
    · cases hreserve
      exact .inr ⟨_, rfl⟩
    · cases hreserve
  | ok q =>
    obtain ⟨r, c'⟩ := q
    obtain ⟨-, -, hr, hc'⟩ := reserve_eq_ok hreserve
    have hpending : r ∈ c'.pending := by
      rw [hc', hr]
      exact List.mem_cons_self
    have hstart (m : Memory) (hm : c'.installer = .memory m) : 0 ≤ (r.base - m.base).toInt64.toInt := by
      rw [hc'] at hm
      rw [hc.base m hm, hr]
      have htop : c.base + c.top.toUInt64 - c.base = c.top.toUInt64 := by rw [UInt64.add_comm, UInt64.add_sub_cancel]
      show 0 ≤ (c.base + c.top.toUInt64 - c.base).toInt64.toInt
      rw [htop]
      exact hc.top
    dsimp only
    rcases hmake r.base with ⟨a, ha, hblob⟩ | ⟨f, hf⟩
    · rw [ha]
      dsimp only
      rcases commit_answered hpending hstart hblob with ⟨q, hq, -⟩ | ⟨f, hf⟩
      · rw [hq]
        exact .inl ⟨_, rfl, trivial⟩
      · rw [hf]
        exact .inr ⟨f, giveUp_answered hpending f _⟩
    · rw [hf]
      exact .inr ⟨f, giveUp_answered hpending f _⟩

end CodeCache

/-! ## Programs of files -/

namespace Stubs

/-- Stubs that methods can be compiled with: the runtime is there, a buffer can be had, and the
memory of the cache starts where the cache does. -/
structure Ready (s : Stubs) : Prop where
  complete : s.target.Complete
  buffer : 0 < s.target.opts.codeBufferSize.toInt ∧ s.target.opts.codeBufferSize.toInt ≤ CodeBuffer.capacityLimit
  backed : s.cache.Backed

/-- Whatever a file describes, a program that was read from it is compiled or refused with a reason,
if its instructions have the inputs they need, no label is bound twice, and there is memory for the
labels. -/
theorem programs_of_files_get_an_answer {t : ProgramText} {p : Program} (hp : t.program = .ok p)
    (hreads : ∀ i ∈ p.code.toList, i.reads ≤ i.inputs.length) (honce : (labelsBound p.code.toList).Nodup)
    (hlabels : p.labels.toInt < Program.labelLimit) {s : Stubs} (hs : s.Ready) :
    (∃ c, (s.perform (compile p)).1 = .ok c) ∨ ∃ f, (s.perform (compile p)).1 = .error (.failure f) := by
  obtain ⟨hexpressible, hnonneg⟩ := ProgramText.program_expressible hp
  have hnext : (p.labels + 1).toInt = p.labels.toInt + 1 := by
    have hlimit : p.labels.toInt < 2 ^ 48 / 40 := hlabels
    have hpos := Int64.le_iff_toInt_le.mp hnonneg
    rw [Int64.toInt_add, show (1 : Int64).toInt = 1 from rfl, Int.bmod_def]
    rw [Int64.toInt_zero] at hpos
    omega
  have hsensible : p.Sensible := ⟨hexpressible, hreads, honce, by
    rw [hnext]
    have hpos := Int64.le_iff_toInt_le.mp hnonneg
    rw [Int64.toInt_zero] at hpos
    omega⟩
  have hanswer : Answered (s.cache.generate s.target.opts.codeBufferSize
      (fun base => Stop.answerPreconditions (p.compile s.target base)) CompiledMethod.blob fun _ =>
      []).result fun _ => True :=
    CodeCache.generate_answered hs.backed hs.buffer.1 fun _ =>
      Program.compile_answered hsensible hs.complete (Int.le_of_lt hs.buffer.1) hs.buffer.2
  rcases hanswer with ⟨c, hc, -⟩ | ⟨f, hf⟩
  · exact .inl ⟨c, hc⟩
  · exact .inr ⟨f, hf⟩

theorem newStubs_ready : newStubs.Ready where
  complete e he := by
    have hall : ∀ e ∈ RuntimeEntry.all, e ≠ .invalid → newStubs.target.runtime.addr e ≠ 0 := by decide +kernel
    exact hall e (by cases e <;> decide) he
  buffer := by decide
  backed := ⟨fun m hm => by cases hm; rfl, by decide⟩

/-- A sum of two ints, and a jump over it. -/
def sumText : ProgramText where
  name := "p"
  frame := 32
  code := [{ op := "branch", target := 1 }, { op := "add", inputs := ["int:x10", "int:x11"], result := "int:x10" },
    { label := 1 }, { op := "return" }]

/-- An addition of nothing. -/
def nothingText : ProgramText := { name := "p", frame := 32, code := [{ op := "add" }] }

/-- A label that is bound twice. -/
def twiceText : ProgramText := { name := "p", frame := 32, code := [{ label := 1 }, { label := 1 }] }

theorem a_sum_gets_an_answer : ∃ p, sumText.program = .ok p ∧
    ((∃ c, (newStubs.perform (compile p)).1 = .ok c) ∨ ∃ f, (newStubs.perform (compile p)).1 = .error (.failure f)) := by
  have hread : (sumText.program.toOption.any fun p => p.code.toList.all (fun i => i.reads ≤ i.inputs.length) &&
      decide (labelsBound p.code.toList).Nodup && decide (p.labels.toInt < Program.labelLimit)) =
        true := by decide +kernel
  obtain ⟨p, hp, hall⟩ := any_toOption hread
  simp only [Bool.and_eq_true, decide_eq_true_eq, List.all_eq_true] at hall
  exact ⟨p, hp, programs_of_files_get_an_answer hp (fun i hi => by simpa using hall.1.1 i hi) hall.1.2
    hall.2 newStubs_ready⟩

/-- The work ended so, without a result. -/
def stopsWith {α : Type} (x : Except Stop α) (e : Stop) : Bool :=
  match x with
  | .error e' => e' == e
  | .ok _ => false

theorem eq_of_stopsWith {α : Type} {x : Except Stop α} {e : Stop} (h : stopsWith x e = true) : x = .error e := by
  cases x with
  | ok a => cases h
  | error e' => rw [show e' = e from by simpa [stopsWith] using h]

/-- Reading does not count inputs, and it does not look for labels that are bound twice: compiling an
addition without inputs looks for the first of them where there is none, and binding a label a second
time is a defect. -/
theorem malformed_programs_stop_compiling :
    (∃ p, nothingText.program = .ok p ∧ (newStubs.perform (compile p)).1 = .error (.fault .trap)) ∧
      ∃ p, twiceText.program = .ok p ∧ (newStubs.perform (compile p)).1 = .error
      (.fault (.defect "label bound twice")) := by
  have hnothing : (nothingText.program.toOption.any fun p => stopsWith (newStubs.perform (compile p)).1 (.fault .trap)) =
      true := by decide +kernel
  have htwice : (twiceText.program.toOption.any fun p =>
      stopsWith (newStubs.perform (compile p)).1 (.fault (.defect "label bound twice"))) = true := by decide +kernel
  obtain ⟨p, hp, hstop⟩ := any_toOption hnothing
  obtain ⟨q, hq, hstop'⟩ := any_toOption htwice
  exact ⟨⟨p, hp, eq_of_stopsWith hstop⟩, ⟨q, hq, eq_of_stopsWith hstop'⟩⟩

end Stubs

end RiscvJit

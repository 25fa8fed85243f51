import RiscvJit.Arena

/-
  RiscvJit.Proofs.Arena — an arena is the list of its items.

  An arena is sound when its chunks are full and cover the items in use (`Sound`); a new one is,
  and growing, changing and resetting keep it so. In a sound arena a change is seen at its own
  index and at no other (`get_modify`), and growing leaves the items alone (`get_grow`).

  Where the memory that is not in use is blank, an arena is the list of its items (`Lists`): it answers
  every run of uses as the list does (`Lists.replies`).
-/

namespace RiscvJit.Arena

variable {α : Type}

/-- The chunks are full and cover the items in use. -/
structure Sound (a : Arena α) : Prop where
  full : ∀ c ∈ a.chunks, c.size = chunkSize
  covers : a.count ≤ chunkSize * a.chunks.size

theorem sound_empty : Sound ({} : Arena α) := ⟨by simp, by simp⟩

@[simp] theorem count_grow [Inhabited α] (a : Arena α) : a.grow.count = a.count + 1 := rfl

@[simp] theorem count_modify (a : Arena α) (i : Nat) (f : α → α) : (a.modify i f).count = a.count := by
  unfold modify; split <;> rfl

/-! ## Soundness is kept -/

theorem grow_eq [Inhabited α] (a : Arena α) :
    (a.count / chunkSize = a.chunks.size ∧ a.grow = ⟨a.chunks.push blank, a.count + 1⟩) ∨
      (a.count / chunkSize ≠ a.chunks.size ∧ a.grow = ⟨a.chunks, a.count + 1⟩) := by
  by_cases e : a.count / chunkSize = a.chunks.size
  · exact .inl ⟨e, by rw [grow, if_pos e]⟩
  · exact .inr ⟨e, by rw [grow, if_neg e]⟩

variable {a : Arena α}

theorem Sound.grow [Inhabited α] (h : a.Sound) : a.grow.Sound := by
  have hc := h.covers
  rcases grow_eq a with ⟨e, eq⟩ | ⟨e, eq⟩ <;> rw [eq]
  · refine ⟨fun c hmem => ?_, ?_⟩
    · rcases Array.mem_push.mp hmem with hmem | rfl
      · exact h.full c hmem
      · exact Array.size_replicate
    · simp only [Array.size_push, chunkSize] at *; omega
  · exact ⟨h.full, by simp only [chunkSize] at *; omega⟩

theorem Sound.modify (h : a.Sound) (i : Nat) (f : α → α) : (a.modify i f).Sound := by
  unfold Arena.modify
  split
  · refine ⟨fun c hmem => ?_, by simpa using h.covers⟩
    obtain ⟨j, hj, rfl⟩ := Array.mem_iff_getElem.mp hmem
    have hj' : j < a.chunks.size := by simpa using hj
    have hfull := h.full a.chunks[j] (Array.getElem_mem hj')
    rw [Array.getElem_modify]
    split
    · rw [Array.size_modify]; exact hfull
    · exact hfull
  · exact h

theorem Sound.reset [Inhabited α] (h : a.Sound) : a.reset.Sound := by
  refine ⟨fun c hmem => ?_, Nat.zero_le _⟩
  simp only [Arena.reset, Array.mem_mapIdx] at hmem
  obtain ⟨j, hj, rfl⟩ := hmem
  split
  · exact Array.size_replicate
  · exact h.full _ (Array.getElem_mem _)

/-! ## Items -/

theorem Sound.chunk (h : a.Sound) {i : Nat} (hi : i < a.count) :
    ∃ c, a.chunks[i / chunkSize]? = some c ∧ i % chunkSize < c.size := by
  have hc := h.covers
  have hlt : i / chunkSize < a.chunks.size := by simp only [chunkSize] at *; omega
  refine ⟨a.chunks[i / chunkSize], Array.getElem?_eq_getElem hlt, ?_⟩
  rw [h.full _ (Array.getElem_mem _)]
  exact Nat.mod_lt _ (by decide)

theorem get_modify [Inhabited α] (h : a.Sound) {i : Nat} (hi : i < a.count) (f : α → α) (j : Nat) :
    (a.modify i f).get j = if j = i then f (a.get i) else a.get j := by
  obtain ⟨c, hc, hlt⟩ := h.chunk hi
  by_cases e : j = i
  · subst e
    rw [if_pos rfl]
    simp [get, get?, modify, hi, Array.getElem?_modify, hc, Array.getElem?_eq_getElem hlt]
  · rw [if_neg e]
    simp only [get, get?, modify, if_pos hi, Array.getElem?_modify]
    by_cases ej : i / chunkSize = j / chunkSize
    · -- the same chunk at another place
      have em : i % chunkSize ≠ j % chunkSize := by
        simp only [chunkSize] at *; omega
      rw [if_pos ej]
      cases a.chunks[j / chunkSize]? with
      | none => rfl
      | some d => simp [Array.getElem?_modify, em]
    · rw [if_neg ej]

theorem get_grow [Inhabited α] (h : a.Sound) {j : Nat} (hj : j < a.count) : a.grow.get j = a.get j := by
  obtain ⟨c, hc, -⟩ := h.chunk hj
  have hj' : j < a.count + 1 := Nat.lt_succ_of_lt hj
  rcases grow_eq a with ⟨-, eq⟩ | ⟨-, eq⟩ <;> rw [eq] <;> simp only [get, get?, if_pos hj, if_pos hj']
  -- a chunk that is there is not the one that was added
  have hne : j / chunkSize ≠ a.chunks.size := by
    intro e
    rw [e, Array.getElem?_size] at hc
    cases hc
  rw [Array.getElem?_push, if_neg hne]

/-! ## An arena as a list -/

section
variable [Inhabited α] {a : Arena α} {l : List α}

/-- The memory at an index, in use or not. -/
def slot? (a : Arena α) (i : Nat) : Option α := (a.chunks[i / chunkSize]?).bind (·[i % chunkSize]?)

/-- The arena holds those items, and the rest of its memory is blank. -/
structure Lists (a : Arena α) (l : List α) : Prop where
  sound : a.Sound
  count : a.count = l.length
  item : ∀ i x, l[i]? = some x → a.get i = x
  blank : ∀ i x, a.count ≤ i → a.slot? i = some x → x = default

theorem get_eq (a : Arena α) (i : Nat) : a.get i = if i < a.count then (a.slot? i).getD default else default := by
  unfold get get? slot?
  split <;> rfl

theorem Lists.get_eq (h : a.Lists l) (i : Nat) : a.get i = l.getD i default := by
  rw [List.getD_eq_getElem?_getD]
  cases hi : l[i]? with
  | some x => exact h.item i x hi
  | none =>
    rw [Arena.get_eq, if_neg]
    · rfl
    · rw [h.count]
      exact Nat.not_lt.mpr (List.getElem?_eq_none_iff.mp hi)

theorem lists_empty : ({} : Arena α).Lists [] where
  sound := sound_empty
  count := rfl
  item := nofun
  blank := nofun

theorem slot_grow {i : Nat} {x : α} (h : a.grow.slot? i = some x) : a.slot? i = some x ∨ x = default := by
  rcases grow_eq a with ⟨-, eq⟩ | ⟨-, eq⟩ <;> rw [eq] at h
  · unfold slot? at h ⊢
    rw [Array.getElem?_push] at h
    split at h
    · exact .inr (Array.mem_replicate.mp (Array.mem_of_getElem? h)).2
    · exact .inl h
  · exact .inl h

/-- A new item is blank, whatever its memory held before a reset. -/
theorem Lists.grow (h : a.Lists l) : a.grow.Lists (l ++ [default]) := by
  refine ⟨h.sound.grow, by rw [count_grow, h.count, List.length_append, List.length_singleton], fun i x hi => ?_, ?_⟩
  · by_cases hlt : i < l.length
    · rw [List.getElem?_append_left hlt] at hi
      rw [get_grow h.sound (h.count ▸ hlt), h.item i x hi]
    · have hx : x = default := by
        rw [List.getElem?_append_right (Nat.le_of_not_lt hlt)] at hi
        exact List.mem_singleton.mp (List.mem_of_getElem? hi)
      rw [Arena.get_eq, hx]
      split
      · cases hs : a.grow.slot? i with
        | none => rfl
        | some y => exact (slot_grow hs).elim (h.blank i y (h.count ▸ Nat.le_of_not_lt hlt)) id
      · rfl
  · intro i x hi hx
    exact (slot_grow hx).elim (h.blank i x (Nat.le_of_succ_le hi)) id

theorem Lists.modify (h : a.Lists l) (i : Nat) (f : α → α) : (a.modify i f).Lists (l.modify i f) := by
  refine ⟨h.sound.modify i f, by rw [count_modify, h.count, List.length_modify], fun j x hj => ?_, fun j x hj hx => ?_⟩
  · by_cases hi : i < a.count
    · rw [get_modify h.sound hi]
      rw [List.getElem?_modify] at hj
      split at hj
      case _ e =>
        obtain ⟨y, hy, rfl⟩ := Option.map_eq_some_iff.mp hj
        rw [if_pos e.symm, e, h.item j y hy]
      case _ e => rw [if_neg (Ne.symm e), h.item j x (by simpa using hj)]
    · rw [Arena.modify, if_neg hi]
      rw [List.modify_eq_self (h.count ▸ Nat.le_of_not_lt hi)] at hj
      exact h.item j x hj
  · rw [count_modify] at hj
    refine h.blank j x hj ?_
    unfold Arena.modify at hx
    split at hx
    case _ hi =>
      unfold slot? at hx ⊢
      rw [Array.getElem?_modify] at hx
      split at hx
      case _ e =>
        have hne : i % chunkSize ≠ j % chunkSize := by
          simp only [chunkSize] at *
          omega
        obtain ⟨c, hc, hx⟩ := Option.bind_eq_some_iff.mp hx
        obtain ⟨d, hd, rfl⟩ := Option.map_eq_some_iff.mp hc
        rw [Array.getElem?_modify, if_neg hne] at hx
        rw [hd]
        exact hx
      case _ => exact hx
    case _ => exact hx

theorem Lists.reset (h : a.Lists l) : a.reset.Lists [] := by
  refine ⟨h.sound.reset, rfl, nofun, fun i x _ hx => ?_⟩
  unfold slot? Arena.reset at hx
  rw [Array.getElem?_mapIdx] at hx
  obtain ⟨c, hc, hx⟩ := Option.bind_eq_some_iff.mp hx
  obtain ⟨d, hd, rfl⟩ := Option.map_eq_some_iff.mp hc
  split at hx
  · exact (Array.mem_replicate.mp (Array.mem_of_getElem? hx)).2
  case _ hout =>
    refine h.blank i x ?_ (by rw [slot?, hd]; exact hx)
    simp only [chunkSize] at *
    omega

end

/-- What is asked of an arena. Addresses are those of its items. -/
inductive Use (α : Type) where
  | new
  | item (i : Int64)
  | write (i : Nat) (f : α → α)
  | reset

/-- What an arena answers. -/
inductive Reply (α : Type) where
  | index (i : Nat)
  | item (x : α)
  | refused (e : Fault)
  | done

section
variable [Inhabited α] {a : Arena α} {l : List α}

/-- The answer of an arena, and the arena afterwards. -/
def use (a : Arena α) : Use α → Reply α × Arena α
  | .new => (.index a.count, a.grow)
  | .item i => (match a.index i with
    | .ok k => .item (a.get k)
    | .error e => .refused e, a)
  | .write i f => (.done, a.modify i f)
  | .reset => (.done, a.reset)

/-- The answer of a list of items, and the list afterwards. -/
def useList (l : List α) : Use α → Reply α × List α
  | .new => (.index l.length, l ++ [default])
  | .item i => (if 0 ≤ i.toInt ∧ i.toInt < l.length then .item (l.getD i.toInt.toNat default)
    else .refused (.defect ("arena index " ++ Text.ofInt i.toInt ++ " out of range [0, " ++
      Text.ofNat l.length ++ ")")), l)
  | .write i f => (.done, l.modify i f)
  | .reset => (.done, [])

/-- The answers to a run of uses. -/
def replies {σ : Type} (step : σ → Use α → Reply α × σ) : σ → List (Use α) → List (Reply α)
  | _, [] => []
  | s, u :: us => (step s u).1 :: replies step (step s u).2 us

theorem Lists.use (h : a.Lists l) (u : Use α) : (a.use u).1 = (useList l u).1 ∧ (a.use u).2.Lists (useList l u).2 := by
  cases u with
  | new => exact ⟨congrArg Reply.index h.count, h.grow⟩
  | item i =>
    refine ⟨?_, h⟩
    simp only [Arena.use, useList, index, h.count, Int64.lt_iff_toInt_lt, Int64.toInt_zero]
    by_cases hi : 0 ≤ i.toInt ∧ i.toInt < l.length
    · have hin : (decide (i.toInt < 0) || decide (l.length ≤ i.toNatClampNeg)) = false := by
        simp only [Bool.or_eq_false_iff, decide_eq_false_iff_not, Int64.toNatClampNeg]
        omega
      rw [hin, if_pos hi]
      exact congrArg Reply.item (h.get_eq _)
    · have hout : (decide (i.toInt < 0) || decide (l.length ≤ i.toNatClampNeg)) = true := by
        simp only [Bool.or_eq_true, decide_eq_true_eq, Int64.toNatClampNeg]
        omega
      rw [hout, if_neg hi]
      rfl
  | write i f => exact ⟨rfl, h.modify i f⟩
  | reset => exact ⟨rfl, h.reset⟩

theorem Lists.replies (h : a.Lists l) (us : List (Use α)) :
    Arena.replies Arena.use a us = Arena.replies useList l us := by
  induction us generalizing a l with
  | nil => rfl
  | cons u us ih =>
    obtain ⟨hreply, hnext⟩ := h.use u
    rw [Arena.replies, Arena.replies, hreply, ih hnext]

end

end RiscvJit.Arena

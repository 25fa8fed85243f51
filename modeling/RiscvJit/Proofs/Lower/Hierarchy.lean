import Mathlib.Logic.Relation
import RiscvJit.Proofs.Code.Places

/-
  RiscvJit.Proofs.Lower.Hierarchy — classes, interfaces and their descriptors in memory.

  A hierarchy has one root class; every other class has a superclass, and classes and interfaces
  implement or extend interfaces. A type is below another when a chain of these leads there
  (`Hierarchy.Sub`). Below a class this is a matter of superclasses alone: the class at its depth
  among the superclasses is the class itself (`sub_class_iff`). That is what the display of primary
  supers answers for classes of depth below eight, the primary ones; the others are found in an
  array of secondary supers.

  `Descriptors` says where the descriptors and arrays are, none over another, and `Laid` what memory
  holds there. One word of a descriptor may change, the cache of the secondary super found last: a
  secondary super of the class may be put there (`Laid.cached`), and all else that does not touch
  descriptors keeps them (`Laid.keep`).
-/

namespace RiscvJit

/-- Classes and interfaces below one root class. -/
structure Hierarchy (α : Type) where
  root : α
  super : α → Option α
  interfaces : α → List α
  isInterface : α → Bool
  /-- The number of superclasses above. -/
  depth : α → Nat
  root_iff : ∀ c, super c = none ↔ c = root
  root_class : isInterface root = false
  depth_root : depth root = 0
  depth_super : ∀ {c d}, super c = some d → depth c = depth d + 1
  super_class : ∀ {c d}, super c = some d → isInterface d = false
  interface_super : ∀ {c}, isInterface c = true → super c = some root
  interfaces_only : ∀ {c d}, d ∈ interfaces c → isInterface d = true

namespace Hierarchy

variable {α : Type} (H : Hierarchy α)

/-- The second is the superclass of the first, or an interface that it implements or extends. -/
def Direct (c d : α) : Prop := H.super c = some d ∨ d ∈ H.interfaces c

/-- The first is a subtype of the second. -/
def Sub : α → α → Prop := Relation.ReflTransGen H.Direct

/-- The superclass a number of steps up. -/
def up : Nat → α → Option α
  | 0, c => some c
  | n + 1, c => (H.super c).bind (up n)

/-- The class at a depth among the superclasses of a class, itself included. -/
def ancestor (c : α) (n : Nat) : Option α := if n ≤ H.depth c then H.up (H.depth c - n) c else none

/-- Classes that have their place in the display. -/
def Primary (k : α) : Prop := H.isInterface k = false ∧ H.depth k < 8

instance (k : α) : Decidable (H.Primary k) := inferInstanceAs (Decidable (_ ∧ _))

/-- The offset in the descriptor of a subtype at which a type is looked for. -/
def checkOffset (k : α) : Nat := if H.Primary k then 0x30 + 8 * H.depth k else 0x20

section
variable {H} {c d k : α}

variable {n : Nat}

theorem sub_of_up (h : H.up n c = some k) : H.Sub c k := by
  induction n generalizing c with
  | zero =>
    cases h
    exact .refl
  | succ n ih =>
    obtain ⟨d, hd, hrest⟩ := Option.bind_eq_some_iff.mp h
    exact (ih hrest).head (.inl hd)

/-- Every chain of superclasses ends at the root. -/
theorem up_depth (c : α) : H.up (H.depth c) c = some H.root := by
  generalize hn : H.depth c = n
  induction n generalizing c with
  | zero =>
    cases hs : H.super c with
    | none => rw [(H.root_iff c).mp hs]; rfl
    | some d => rw [H.depth_super hs] at hn; cases hn
  | succ n ih =>
    cases hs : H.super c with
    | none =>
      rw [(H.root_iff c).mp hs, H.depth_root] at hn
      cases hn
    | some d =>
      have hd : H.depth d = n := by
        have := H.depth_super hs
        omega
      rw [up, hs]
      exact ih d hd

theorem ancestor_self (c : α) : H.ancestor c (H.depth c) = some c := by
  rw [ancestor, if_pos (Nat.le_refl _), Nat.sub_self]
  rfl

theorem ancestor_zero (c : α) : H.ancestor c 0 = some H.root := by
  rw [ancestor, if_pos (Nat.zero_le _)]
  exact up_depth c

theorem ancestor_super (hs : H.super c = some d) (hn : n ≤ H.depth d) : H.ancestor c n = H.ancestor d n := by
  have hc := H.depth_super hs
  rw [ancestor, ancestor, if_pos (by omega), if_pos hn, show H.depth c - n = H.depth d - n + 1 by omega, up, hs]
  rfl

theorem le_depth_of_ancestor (h : H.ancestor c n = some d) : n ≤ H.depth c := by
  unfold ancestor at h
  split at h
  · assumption
  · cases h

/-- Below a class, only superclasses count. -/
theorem sub_class_iff (hk : H.isInterface k = false) : H.Sub c k ↔ H.ancestor c (H.depth k) = some k := by
  constructor
  · intro h
    induction h using Relation.ReflTransGen.head_induction_on with
    | refl => exact ancestor_self k
    | @head c d hdirect _ ih =>
      have hle := le_depth_of_ancestor ih
      rcases hdirect with hs | hi
      · rw [ancestor_super hs hle, ih]
      · -- the one class above an interface is the root, which is above everything
        have hinterface := H.interfaces_only hi
        have hsuper := H.interface_super hinterface
        have hdepth := H.depth_super hsuper
        rw [H.depth_root] at hdepth
        have hcases : H.depth k = 0 ∨ H.depth k = H.depth d := by omega
        rcases hcases with hzero | hsame
        · rw [hzero, ancestor_zero] at ih ⊢
          exact ih
        · rw [hsame, ancestor_self] at ih
          cases ih
          rw [hinterface] at hk
          cases hk
  · intro h
    unfold ancestor at h
    split at h
    · exact sub_of_up h
    · cases h

theorem checkOffset_primary (h : H.Primary k) : H.checkOffset k = 0x30 + 8 * H.depth k := if_pos h

theorem checkOffset_secondary (h : ¬ H.Primary k) : H.checkOffset k = 0x20 := if_neg h

theorem checkOffset_lt (k : α) : H.checkOffset k + 8 ≤ 0x70 := by
  by_cases h : H.Primary k
  · rw [checkOffset_primary h]
    have := h.2
    omega
  · rw [checkOffset_secondary h]
    omega

theorem checkOffset_eq_cache : H.checkOffset k = 0x20 ↔ ¬ H.Primary k := by
  by_cases h : H.Primary k
  · rw [checkOffset_primary h]
    simp only [h, not_true_eq_false, iff_false]
    omega
  · rw [checkOffset_secondary h]
    simp only [h, not_false_eq_true]

end

end Hierarchy

/-! ## Descriptors -/

/-- Where the descriptors of a hierarchy are, and what their arrays list. -/
structure Descriptors {α : Type} (H : Hierarchy α) where
  addr : α → UInt64
  /-- The array of secondary supers. -/
  array : α → UInt64
  secondaries : α → List α
  /-- The element type of array classes. -/
  element : α → Option α
  /-- Only supertypes are listed. -/
  sound : ∀ {c d}, d ∈ secondaries c → H.Sub c d
  /-- All proper supertypes that have no place in the display are listed. -/
  complete : ∀ {c d}, H.Sub c d → c ≠ d → ¬ H.Primary d → d ∈ secondaries c
  positive : ∀ c, 0 < (addr c).toNat
  fits : ∀ c, (addr c).toNat + 0xe0 ≤ 2 ^ 64
  array_fits : ∀ c, (array c).toNat + 8 + 8 * (secondaries c).length ≤ 2 ^ 64
  short : ∀ c, (secondaries c).length < 2 ^ 32
  apart : ∀ {c d}, c ≠ d → (addr c).toNat + 0xe0 ≤ (addr d).toNat ∨ (addr d).toNat + 0xe0 ≤ (addr c).toNat
  array_apart : ∀ c d, (array c).toNat + 8 + 8 * (secondaries c).length ≤ (addr d).toNat ∨
    (addr d).toNat + 0xe0 ≤ (array c).toNat

namespace Descriptors

variable {α : Type} {H : Hierarchy α} (D : Descriptors H)

/-- The address is one of a descriptor or of an array of secondary supers. -/
def Covers (x : UInt64) : Prop :=
  ∃ c, Spans (D.addr c).toNat 0xe0 x ∨ Spans (D.array c).toNat (8 + 8 * (D.secondaries c).length) x

/-- The address is one of a secondary super cache. -/
def Cache (x : UInt64) : Prop := ∃ c, Spans ((D.addr c).toNat + 0x20) 8 x

/-- Memory holds the descriptors. -/
structure Laid (mem : Ram) : Prop where
  offset : ∀ c, mem.read (D.addr c + UInt64.ofNat 0x0c) 4 = UInt64.ofNat (H.checkOffset c)
  display : ∀ c n, H.isInterface c = false → n < 8 →
    mem.read (D.addr c + UInt64.ofNat (0x30 + 8 * n)) 8 = ((H.ancestor c n).map D.addr).getD 0
  array : ∀ c, mem.read (D.addr c + UInt64.ofNat 0x28) 8 = D.array c
  length : ∀ c, mem.read (D.array c) 4 = UInt64.ofNat (D.secondaries c).length
  entry : ∀ c i d, (D.secondaries c)[i]? = some d → mem.read (D.array c + UInt64.ofNat (8 + 8 * i)) 8 = D.addr d
  /-- The cache is empty or holds a secondary super. -/
  cache : ∀ c, mem.read (D.addr c + UInt64.ofNat 0x20) 8 = 0 ∨
    ∃ d ∈ D.secondaries c, mem.read (D.addr c + UInt64.ofNat 0x20) 8 = D.addr d
  element : ∀ c e, D.element c = some e → mem.read (D.addr c + UInt64.ofNat 0xd8) 8 = D.addr e

section
variable {D} {c d : α} {mem mem' : Ram}

theorem addr_inj (h : D.addr c = D.addr d) : c = d := by
  refine Classical.byContradiction fun hne => ?_
  have := D.fits d
  rcases D.apart hne with h' | h' <;> (rw [h] at h'; omega)

theorem addr_ne_zero (c : α) : D.addr c ≠ 0 := by
  intro h
  have := D.positive c
  rw [h] at this
  cases this

variable {x n : Nat} {a : UInt64} {k : α}

theorem toNat_field (c : α) (hx : x < 0xe0) : (D.addr c + UInt64.ofNat x).toNat = (D.addr c).toNat + x := by
  have := D.fits c
  exact toNat_off (by omega)

theorem toNat_entry {i : Nat} (hi : i < (D.secondaries c).length) :
    (D.array c + UInt64.ofNat (8 + 8 * i)).toNat = (D.array c).toNat + (8 + 8 * i) := by
  have := D.array_fits c
  exact toNat_off (by omega)

theorem covers_field (c : α) (h : x + n ≤ 0xe0) (ha : Spans (D.addr c + UInt64.ofNat x).toNat n a) : D.Covers a := by
  unfold Spans at ha
  rw [toNat_field c (by omega)] at ha
  exact ⟨c, .inl (by omega)⟩

theorem covers_entry {i : Nat} (hi : i < (D.secondaries c).length)
    (ha : Spans (D.array c + UInt64.ofNat (8 + 8 * i)).toNat 8 a) : D.Covers a := by
  unfold Spans at ha
  rw [toNat_entry hi] at ha
  exact ⟨c, .inr (by omega)⟩

theorem cache_covers {x : UInt64} (h : D.Cache x) : D.Covers x := by
  obtain ⟨c, hc⟩ := h
  exact ⟨c, .inl (by omega)⟩

/-- Where descriptors are the same, what lies in them is read the same. -/
theorem read_covered (h : ∀ a, D.Covers a → mem' a = mem a) (hn : a.toNat + n ≤ 2 ^ 64)
    (hc : ∀ x, Spans a.toNat n x → D.Covers x) : mem'.read a n = mem.read a n :=
  Ram.read_same hn fun x hx => h x (hc x hx)

/-- A field of a descriptor is read the same where descriptors are the same. -/
theorem read_field (h : ∀ a, D.Covers a → mem' a = mem a) (c : α) (hx : x + n ≤ 0xe0) (hn : 0 < n) :
    mem'.read (D.addr c + UInt64.ofNat x) n = mem.read (D.addr c + UInt64.ofNat x) n := by
  have := D.fits c
  have := toNat_field (D := D) c (x := x) (by omega)
  exact read_covered h (by omega) fun a ha => covers_field c hx ha

theorem Laid.keep (hl : D.Laid mem) (h : ∀ a, D.Covers a → mem' a = mem a) : D.Laid mem' where
  offset c := (read_field h c (by decide) (by decide)).trans (hl.offset c)
  display c n hc hn := (read_field h c (by omega) (by decide)).trans (hl.display c n hc hn)
  array c := (read_field h c (by decide) (by decide)).trans (hl.array c)
  length c := by
    have := D.array_fits c
    rw [read_covered h (by omega) fun a ha => ⟨c, .inr (by omega)⟩]
    exact hl.length c
  entry c i d hd := by
    have hi := (List.getElem?_eq_some_iff.mp hd).1
    have := D.array_fits c
    have := toNat_entry (D := D) hi
    rw [read_covered h (by omega) fun a ha => covers_entry hi ha]
    exact hl.entry c i d hd
  cache c := by
    rw [read_field h c (by decide) (by decide)]
    exact hl.cache c
  element c e he := (read_field h c (by decide) (by decide)).trans (hl.element c e he)

/-- Where the cache of a class was written, the rest is as before. -/
theorem read_beside (c d : α) (v : UInt64) (hx : x + n ≤ 0xe0) (hn : 0 < n) (hbeside : x + n ≤ 0x20 ∨ 0x28 ≤ x ∨ c ≠ d) :
    (mem.write (D.addr c + UInt64.ofNat 0x20) 8 v).read (D.addr d + UInt64.ofNat x) n =
      mem.read (D.addr d + UInt64.ofNat x) n := by
  have hc := D.fits c
  have hd := D.fits d
  have hcache := toNat_field (D := D) c (x := 0x20) (by decide)
  have hfield := toNat_field (D := D) d (x := x) (by omega)
  refine Ram.read_write_off mem v (by omega) (by omega) ?_
  by_cases e : c = d
  · subst e
    rcases hbeside with h | h | h
    · omega
    · omega
    · exact absurd rfl h
  · have := D.apart e
    omega

/-- A secondary super may be put into the cache. -/
theorem Laid.cached (hl : D.Laid mem) (hd : d ∈ D.secondaries c) :
    D.Laid (mem.write (D.addr c + UInt64.ofNat 0x20) 8 (D.addr d)) where
  offset k := (read_beside c k _ (by decide) (by decide) (.inl (by decide))).trans (hl.offset k)
  display k n hk hn := (read_beside c k _ (by omega) (by decide) (.inr (.inl (by omega)))).trans (hl.display k n hk hn)
  array k := (read_beside c k _ (by decide) (by decide) (.inr (.inl (by decide)))).trans (hl.array k)
  length k := by
    have := D.array_fits k
    have := D.fits c
    have := D.array_apart k c
    have hcache := toNat_field (D := D) c (x := 0x20) (by decide)
    rw [Ram.read_write_off mem _ (by omega) (by omega) (by omega)]
    exact hl.length k
  entry k i e he := by
    have hi := (List.getElem?_eq_some_iff.mp he).1
    have := D.array_fits k
    have := D.fits c
    have := D.array_apart k c
    have := toNat_entry (D := D) hi
    have hcache := toNat_field (D := D) c (x := 0x20) (by decide)
    rw [Ram.read_write_off mem _ (by omega) (by omega) (by omega)]
    exact hl.entry k i e he
  cache k := by
    by_cases e : c = k
    · subst e
      have := D.fits c
      have hcache := toNat_field (D := D) c (x := 0x20) (by decide)
      refine .inr ⟨d, hd, ?_⟩
      exact read_write_eight mem _ _
    · rw [read_beside c k _ (by decide) (by decide) (.inr (.inr e))]
      exact hl.cache k
  element k e he := (read_beside c k _ (by decide) (by decide) (.inr (.inl (by decide)))).trans (hl.element k e he)

/-! ## What the slots tell -/

theorem Laid.display_iff (hl : D.Laid mem) (hc : H.isInterface c = false) (hk : H.Primary k) :
    mem.read (D.addr c + UInt64.ofNat (H.checkOffset k)) 8 = D.addr k ↔ H.Sub c k := by
  rw [Hierarchy.checkOffset_primary hk, hl.display c _ hc hk.2, Hierarchy.sub_class_iff hk.1]
  cases H.ancestor c (H.depth k) with
  | none =>
    simp only [Option.map_none, Option.getD_none, reduceCtorEq, iff_false]
    exact fun h => addr_ne_zero k h.symm
  | some d =>
    simp only [Option.map_some, Option.getD_some, Option.some.injEq]
    exact ⟨addr_inj, fun h => by rw [h]⟩

/-- What the cache holds is a supertype. -/
theorem Laid.cache_sub (hl : D.Laid mem) (h : mem.read (D.addr c + UInt64.ofNat 0x20) 8 = D.addr k) : H.Sub c k := by
  rcases hl.cache c with hempty | ⟨d, hd, hholds⟩
  · rw [hempty] at h
    exact absurd h.symm (addr_ne_zero k)
  · rw [hholds] at h
    rw [← addr_inj h]
    exact D.sound hd

theorem mem_secondaries_iff (hne : c ≠ k) (hk : ¬ H.Primary k) : k ∈ D.secondaries c ↔ H.Sub c k :=
  ⟨D.sound, fun h => D.complete h hne hk⟩

end

end Descriptors

/-! ## Objects -/

/-- The descriptor in the header of an object. -/
def Options.klassAt (o : Options) (mem : Ram) (v : UInt64) : UInt64 :=
  if o.compressedClassPointers then o.klassBase + mem.read (v + 8) 4 <<< o.klassShift.toUInt64 else mem.read (v + 8) 8

/-- Memory holds an object of a class at the address. -/
structure Descriptors.ObjectOf {α : Type} {H : Hierarchy α} (D : Descriptors H) (o : Options) (mem : Ram) (v : UInt64)
    (c : α) : Prop where
  fits : v.toNat + 16 ≤ 2 ^ 64
  proper : H.isInterface c = false
  klass : o.klassAt mem v = D.addr c

theorem Descriptors.ObjectOf.keep {α : Type} {H : Hierarchy α} {D : Descriptors H} {o : Options}
    {mem mem' : Ram} {v : UInt64} {c : α} (h : D.ObjectOf o mem v c)
    (hsame : ∀ a, Spans v.toNat 16 a → mem' a = mem a) : D.ObjectOf o mem' v c where
  fits := h.fits
  proper := h.proper
  klass := by
    have hfits := h.fits
    have hv : (v + 8).toNat = v.toNat + 8 := toNat_off (k := 8) (by omega)
    have hread {n : Nat} (hn : n ≤ 8) : mem'.read (v + 8) n = mem.read (v + 8) n :=
      Ram.read_same (by omega) fun a ha => hsame a (by omega)
    rw [← h.klass, Options.klassAt, Options.klassAt, hread (by decide), hread (by decide)]

end RiscvJit

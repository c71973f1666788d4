import Mathlib.Data.Nat.Bitwise
import Mathlib.Data.Set.Insert
import Mathlib.Tactic.Ring

/-!
# Aligned power-of-two blocks

A `Block` is a run of `2 ^ order` consecutive units; it is `Aligned` when its
start is a multiple of its length.  Two aligned blocks that share a unit are
nested, which is what every argument about a buddy system rests on.

A `Tiling T n` says that the aligned blocks of `T` cover each unit below `n`
exactly once.  Replacing a block by its two halves, or two buddies by their
union, keeps a tiling.  `Coalesced` forbids two buddies below the top order in
one set; a coalesced part of a tiling contains a block around every wholly
covered aligned run (`Tiling.exists_of_free_run`), so it is determined by the
units it covers (`Tiling.mem_iff_maximal`).
-/

namespace Dyadic

/-- A run of `2 ^ order` units from `start` on. -/
@[ext] structure Block where
  start : ℕ
  order : ℕ
  deriving DecidableEq, Repr

namespace Block

/-- Membership of one unit. -/
def Has (b : Block) (u : ℕ) : Prop := b.start ≤ u ∧ u < b.start + 2 ^ b.order

instance (b : Block) (u : ℕ) : Decidable (b.Has u) := by
  unfold Has; infer_instance

/-- The start is a multiple of the length. -/
def Aligned (b : Block) : Prop := 2 ^ b.order ∣ b.start

instance (b : Block) : Decidable b.Aligned := by
  unfold Aligned; infer_instance

/-- The other half of the block of the next order. -/
def buddy (b : Block) : Block := ⟨b.start ^^^ 2 ^ b.order, b.order⟩

theorem has_start (b : Block) : b.Has b.start :=
  ⟨le_rfl, Nat.lt_add_of_pos_right (Nat.two_pow_pos _)⟩

/-- An aligned block is the set of units with the same quotient. -/
theorem Aligned.has_iff {b : Block} (aligned : b.Aligned) (u : ℕ) :
    b.Has u ↔ u / 2 ^ b.order = b.start / 2 ^ b.order := by
  rcases aligned with ⟨m, hm⟩
  have pos := Nat.two_pow_pos b.order
  rw [Has, hm, Nat.mul_div_cancel_left _ pos, Nat.div_eq_iff pos]
  constructor
  · intro ⟨lower, upper⟩
    exact ⟨by rw [Nat.mul_comm]; exact lower, by rw [Nat.mul_comm]; omega⟩
  · intro ⟨lower, upper⟩
    rw [Nat.mul_comm] at lower upper
    exact ⟨lower, by omega⟩

/-- Two aligned blocks that share a unit are nested. -/
theorem Aligned.nested {b c : Block} (hb : b.Aligned) (hc : c.Aligned)
    (order : b.order ≤ c.order) {u : ℕ} (ub : b.Has u) (uc : c.Has u) :
    ∀ v, b.Has v → c.Has v := by
  intro v vb
  obtain ⟨d, hd⟩ := Nat.exists_eq_add_of_le order
  rw [hb.has_iff] at ub vb
  rw [hc.has_iff] at uc ⊢
  rw [hd, pow_add, ← Nat.div_div_eq_div_mul, ← Nat.div_div_eq_div_mul] at uc ⊢
  rw [vb, ← ub, uc]

/-- Aligned blocks of one order that share a unit are equal. -/
theorem Aligned.eq_of_order_eq {b c : Block} (hb : b.Aligned) (hc : c.Aligned)
    (order : b.order = c.order) {u : ℕ} (ub : b.Has u) (uc : c.Has u) : b = c := by
  have forward := hb.nested hc order.le ub uc _ b.has_start
  have backward := hc.nested hb order.ge uc ub _ c.has_start
  exact Block.ext (le_antisymm backward.1 forward.1) order

/-- An aligned block inside a larger aligned one starts and ends inside it. -/
theorem Aligned.end_le {b c : Block} (hb : b.Aligned) (hc : c.Aligned)
    (order : b.order ≤ c.order) {u : ℕ} (ub : b.Has u) (uc : c.Has u) :
    c.start ≤ b.start ∧ b.start + 2 ^ b.order ≤ c.start + 2 ^ c.order := by
  have first := hb.nested hc order ub uc _ b.has_start
  have pos := Nat.two_pow_pos b.order
  have last := hb.nested hc order ub uc (b.start + 2 ^ b.order - 1)
    ⟨by omega, by omega⟩
  exact ⟨first.1, by have := last.2; omega⟩

/-- The two cases of a buddy: the block is the lower or the upper half. -/
theorem Aligned.buddy_cases {b : Block} (aligned : b.Aligned) :
    (2 ^ (b.order + 1) ∣ b.start ∧ b.buddy.start = b.start + 2 ^ b.order) ∨
      (2 ^ (b.order + 1) ∣ b.buddy.start ∧
        b.start = b.buddy.start + 2 ^ b.order) := by
  have flip : ∀ m, (2 ^ (b.order + 1) * m) ^^^ 2 ^ b.order =
      2 ^ (b.order + 1) * m + 2 ^ b.order := by
    intro m
    rw [Nat.two_pow_add_eq_or_of_lt (by rw [Nat.pow_succ]; have := Nat.two_pow_pos b.order; omega)]
    apply Nat.eq_of_testBit_eq
    intro i
    rw [Nat.testBit_xor, Nat.testBit_or, Nat.testBit_two_pow_mul, Nat.testBit_two_pow]
    by_cases hi : b.order + 1 ≤ i
    · have : b.order ≠ i := by omega
      simp [this]
    · simp [hi]
  rcases aligned with ⟨m, hm⟩
  rcases Nat.even_or_odd' m with ⟨l, rfl | rfl⟩
  · left
    have lower : b.start = 2 ^ (b.order + 1) * l := by rw [hm, Nat.pow_succ]; ring
    exact ⟨⟨l, lower⟩, by rw [buddy, lower, flip]⟩
  · right
    have upper : b.start = 2 ^ (b.order + 1) * l + 2 ^ b.order := by
      rw [hm, Nat.pow_succ]; ring
    have other : b.buddy.start = 2 ^ (b.order + 1) * l := by
      rw [buddy, upper, ← flip, Nat.xor_assoc, Nat.xor_self, Nat.xor_zero]
    exact ⟨⟨l, other⟩, by rw [other, upper]⟩

theorem Aligned.buddy {b : Block} (aligned : b.Aligned) : b.buddy.Aligned := by
  have half : (2 : ℕ) ^ b.order ∣ 2 ^ (b.order + 1) := Nat.pow_dvd_pow 2 (Nat.le_succ _)
  rcases aligned.buddy_cases with ⟨lower, start⟩ | ⟨lower, -⟩
  · change 2 ^ b.order ∣ b.buddy.start
    rw [start]
    exact Nat.dvd_add (half.trans lower) dvd_rfl
  · exact half.trans lower

theorem buddy_start_ne (b : Block) : b.buddy.start ≠ b.start := by
  intro same
  have := congrArg (b.start ^^^ ·) same
  simp [buddy] at this

@[simp] theorem buddy_buddy (b : Block) : b.buddy.buddy = b := by
  have start : (b.start ^^^ 2 ^ b.order) ^^^ 2 ^ b.order = b.start := by
    rw [Nat.xor_assoc, Nat.xor_self, Nat.xor_zero]
  exact Block.ext start rfl

/-- The buddy of a lower half is the upper half. -/
theorem buddy_of_lower {s k : ℕ} (lower : 2 ^ (k + 1) ∣ s) :
    (⟨s, k⟩ : Block).buddy = ⟨s + 2 ^ k, k⟩ := by
  have half : (2 : ℕ) ^ k ∣ s := (Nat.pow_dvd_pow 2 (Nat.le_succ k)).trans lower
  rcases Aligned.buddy_cases (b := ⟨s, k⟩) half with ⟨-, start⟩ | ⟨down, start⟩
  · exact Block.ext start rfl
  · exfalso
    have start' : s = (⟨s, k⟩ : Block).buddy.start + 2 ^ k := start
    have odd : 2 ^ (k + 1) ∣ 2 ^ k := (Nat.dvd_add_right down).1 (start' ▸ lower)
    have bound := Nat.le_of_dvd (Nat.two_pow_pos k) odd
    have pos := Nat.two_pow_pos k
    rw [Nat.pow_succ] at bound
    omega

/-- The block of the next order that consists of a block and its buddy. -/
def parent (b : Block) : Block := ⟨min b.start b.buddy.start, b.order + 1⟩

/-- The parent starts where one of the two starts. -/
theorem parent_start_cases (b : Block) :
    b.parent.start = b.start ∨ b.parent.start = b.buddy.start := by
  rcases le_total b.start b.buddy.start with h | h
  · exact Or.inl (min_eq_left h)
  · exact Or.inr (min_eq_right h)

theorem Aligned.parent {b : Block} (aligned : b.Aligned) : b.parent.Aligned := by
  rcases aligned.buddy_cases with ⟨lower, start⟩ | ⟨lower, start⟩
  · change _ ∣ min b.start b.buddy.start
    rw [start, min_eq_left (Nat.le_add_right _ _)]
    exact lower
  · change _ ∣ min b.start b.buddy.start
    rw [min_eq_right (by rw [start]; exact Nat.le_add_right _ _)]
    exact lower

theorem Aligned.parent_has {b : Block} (aligned : b.Aligned) (u : ℕ) :
    b.parent.Has u ↔ b.Has u ∨ b.buddy.Has u := by
  have double : 2 ^ (b.order + 1) = 2 ^ b.order + 2 ^ b.order := by
    rw [Nat.pow_succ]; omega
  simp only [Block.parent, Has, double]
  change _ ↔ _ ∨ (b.buddy.start ≤ u ∧ u < b.buddy.start + 2 ^ b.order)
  rcases aligned.buddy_cases with ⟨-, start⟩ | ⟨-, start⟩ <;> omega

/-- A block and its buddy have no unit in common. -/
theorem Aligned.not_buddy_has {b : Block} (aligned : b.Aligned) {u : ℕ} (h : b.Has u) :
    ¬ b.buddy.Has u := by
  intro h'
  change b.buddy.start ≤ u ∧ u < b.buddy.start + 2 ^ b.order at h'
  unfold Has at h
  rcases aligned.buddy_cases with ⟨-, start⟩ | ⟨-, start⟩ <;> omega

end Block

/-! ## Tilings -/

/-- The blocks of `T` are aligned, lie below `n` and cover every unit below
`n` exactly once. -/
structure Tiling (T : Set Block) (n : ℕ) : Prop where
  aligned : ∀ b ∈ T, b.Aligned
  inside : ∀ b ∈ T, b.start + 2 ^ b.order ≤ n
  cover : ∀ u < n, ∃ b ∈ T, b.Has u
  unique : ∀ b ∈ T, ∀ c ∈ T, ∀ u, b.Has u → c.Has u → b = c

namespace Tiling

variable {T : Set Block} {n : ℕ}

/-- The buddy of a tile, when it starts below the bound, is the start of a tile
of at most the same order.  This is why looking at the entry of a buddy always
meets the head of a block. -/
theorem exists_buddy (tiling : Tiling T n) {b : Block} (hb : b ∈ T)
    (below : b.buddy.start < n) :
    ∃ c ∈ T, c.start = b.buddy.start ∧ c.order ≤ b.order := by
  have aligned := tiling.aligned b hb
  obtain ⟨c, hc, has⟩ := tiling.cover _ below
  have start : b.buddy.Has b.buddy.start := b.buddy.has_start
  rcases le_or_gt c.order b.order with small | large
  · refine ⟨c, hc, ?_, small⟩
    have nested := (tiling.aligned c hc).end_le aligned.buddy small has start
    exact le_antisymm has.1 nested.1
  · -- a larger tile around the buddy would contain the block itself
    have parent : b.parent.Has b.buddy.start := (aligned.parent_has _).2 (.inr start)
    have whole := aligned.parent.nested (tiling.aligned c hc) large parent has
    have self := whole b.start ((aligned.parent_has _).2 (.inl b.has_start))
    cases tiling.unique b hb c hc b.start b.has_start self
    exact absurd large (lt_irrefl _)

/-- A tiling may be continued by an aligned block behind it. -/
theorem extend {k : ℕ} (tiling : Tiling T n) (aligned : 2 ^ k ∣ n) :
    Tiling (insert ⟨n, k⟩ T) (n + 2 ^ k) where
  aligned b hb := by
    rcases hb with rfl | hb
    · exact aligned
    · exact tiling.aligned b hb
  inside b hb := by
    rcases hb with rfl | hb
    · exact le_rfl
    · exact (tiling.inside b hb).trans (Nat.le_add_right _ _)
  cover u hu := by
    rcases Nat.lt_or_ge u n with before | behind
    · obtain ⟨b, hb, has⟩ := tiling.cover u before
      exact ⟨b, Or.inr hb, has⟩
    · exact ⟨⟨n, k⟩, Or.inl rfl, behind, hu⟩
  unique b hb c hc u ub uc := by
    have before : ∀ t ∈ T, t.Has u → u < n :=
      fun t ht has => has.2.trans_le (tiling.inside t ht)
    rcases hb with rfl | hb <;> rcases hc with rfl | hc
    · rfl
    · exact absurd (before c hc uc) (Nat.not_lt.2 ub.1)
    · exact absurd (before b hb ub) (Nat.not_lt.2 uc.1)
    · exact tiling.unique b hb c hc u ub uc

/-- Replacing one family of tiles by another that covers the same units. -/
theorem replace {R S S' : Set Block} (tiling : Tiling (R ∪ S) n)
    (apart : ∀ b ∈ S, b ∉ R)
    (aligned : ∀ b ∈ S', b.Aligned)
    (same : ∀ u, (∃ b ∈ S', b.Has u) ↔ ∃ b ∈ S, b.Has u)
    (unique : ∀ b ∈ S', ∀ c ∈ S', ∀ u, b.Has u → c.Has u → b = c) :
    Tiling (R ∪ S') n where
  aligned b hb := hb.elim (fun h => tiling.aligned b (.inl h)) (aligned b)
  inside b hb := by
    rcases hb with h | h
    · exact tiling.inside b (.inl h)
    · -- the last unit of a new tile was covered before
      have pos := Nat.two_pow_pos b.order
      have last : b.Has (b.start + 2 ^ b.order - 1) := ⟨by omega, by omega⟩
      obtain ⟨c, hc, has⟩ := (same _).1 ⟨b, h, last⟩
      have bound := tiling.inside c (.inr hc)
      have := has.2
      omega
  cover u hu := by
    obtain ⟨b, hb | hb, has⟩ := tiling.cover u hu
    · exact ⟨b, .inl hb, has⟩
    · obtain ⟨c, hc, has'⟩ := (same u).2 ⟨b, hb, has⟩
      exact ⟨c, .inr hc, has'⟩
  unique b hb c hc u ub uc := by
    have cross : ∀ r ∈ R, ∀ s ∈ S', r.Has u → s.Has u → False := by
      intro r hr s hs ru su
      obtain ⟨t, ht, tu⟩ := (same u).1 ⟨s, hs, su⟩
      cases tiling.unique r (.inl hr) t (.inr ht) u ru tu
      exact apart _ ht hr
    rcases hb with hb | hb <;> rcases hc with hc | hc
    · exact tiling.unique b (.inl hb) c (.inl hc) u ub uc
    · exact (cross b hb c hc ub uc).elim
    · exact (cross c hc b hb uc ub).elim
    · exact unique b hb c hc u ub uc

/-- Two buddies may be replaced by the block they form. -/
theorem merge {R : Set Block} {b : Block} (tiling : Tiling (R ∪ {b, b.buddy}) n)
    (hb : b ∉ R) (hbuddy : b.buddy ∉ R) : Tiling (R ∪ {b.parent}) n := by
  have aligned := tiling.aligned b (.inr (.inl rfl))
  refine tiling.replace ?_ ?_ ?_ ?_
  · intro c hc
    rcases hc with rfl | rfl
    · exact hb
    · exact hbuddy
  · intro c hc
    rw [hc]
    exact aligned.parent
  · intro u
    simp only [Set.mem_singleton_iff, exists_eq_left, aligned.parent_has,
      Set.mem_insert_iff, exists_eq_or_imp]
  · intro c hc d hd _ _ _
    rw [hc, hd]

/-- A block may be replaced by its two halves. -/
theorem split {R : Set Block} {s k : ℕ} (tiling : Tiling (R ∪ {⟨s, k + 1⟩}) n)
    (hs : (⟨s, k + 1⟩ : Block) ∉ R) :
    Tiling (R ∪ {⟨s, k⟩, ⟨s + 2 ^ k, k⟩}) n := by
  have aligned : 2 ^ (k + 1) ∣ s := tiling.aligned ⟨s, k + 1⟩ (.inr rfl)
  have half : (2 : ℕ) ^ k ∣ s := (Nat.pow_dvd_pow 2 (Nat.le_succ k)).trans aligned
  have double : 2 ^ (k + 1) = 2 ^ k + 2 ^ k := by rw [Nat.pow_succ]; omega
  refine tiling.replace ?_ ?_ ?_ ?_
  · intro c hc
    rw [hc]
    exact hs
  · intro c hc
    rcases hc with rfl | rfl
    · exact half
    · exact Nat.dvd_add half dvd_rfl
  · intro u
    simp only [Set.mem_singleton_iff, exists_eq_left, Set.mem_insert_iff, exists_eq_or_imp,
      Block.Has, double]
    omega
  · intro c hc d hd u uc ud
    rcases hc with rfl | rfl <;> rcases hd with rfl | rfl
    · rfl
    · exact absurd uc.2 (Nat.not_lt.2 ud.1)
    · exact absurd ud.2 (Nat.not_lt.2 uc.1)
    · rfl

end Tiling

/-! ## Coalesced sets of blocks -/

/-- No block of `F` below the order `top` has its buddy in `F`. -/
def Coalesced (top : ℕ) (F : Set Block) : Prop :=
  ∀ b ∈ F, b.order < top → b.buddy ∉ F

/-- A block whose buddy is not in the set may be added. -/
theorem Coalesced.insert {top : ℕ} {F : Set Block} {b : Block} (h : Coalesced top F)
    (alone : b.buddy ∉ F) : Coalesced top (insert b F) := by
  intro c hc small hbuddy
  rcases hc with same | hc <;> rcases hbuddy with same' | hbuddy
  · exact c.buddy_start_ne (by rw [same', same])
  · exact alone (same ▸ hbuddy)
  · rw [← same', Block.buddy_buddy] at alone
    exact alone hc
  · exact h c hc small hbuddy

theorem Coalesced.mono {top : ℕ} {F G : Set Block} (h : Coalesced top G) (sub : F ⊆ G) :
    Coalesced top F :=
  fun b hb small hbuddy => h b (sub hb) small (sub hbuddy)

/-- Every unit of `b` lies below `n` and in no block of `L`. -/
def FreeRun (L : Set Block) (n : ℕ) (b : Block) : Prop :=
  b.start + 2 ^ b.order ≤ n ∧ ∀ u, b.Has u → ∀ l ∈ L, ¬ l.Has u

namespace Tiling

variable {F L : Set Block} {n top : ℕ}

/-- A wholly free aligned run lies inside one free block: external
fragmentation never hides it.  The induction is on the order of the run; where
both halves are free blocks of exactly that size they would be uncoalesced
buddies. -/
theorem exists_of_free_run (tiling : Tiling (F ∪ L) n) (coalesced : Coalesced top F) :
    ∀ {k s : ℕ}, 2 ^ k ∣ s → k ≤ top → FreeRun L n ⟨s, k⟩ →
      ∃ b ∈ F, k ≤ b.order ∧ b.Has s
  | 0, s, _, _, free => by
      have below : s < n := Nat.lt_of_succ_le free.1
      obtain ⟨b, hb | hb, has⟩ := tiling.cover s below
      · exact ⟨b, hb, Nat.zero_le _, has⟩
      · exact (free.2 s (Block.has_start ⟨s, 0⟩) b hb has).elim
  | k + 1, s, aligned, bound, free => by
      have double : 2 ^ (k + 1) = 2 ^ k + 2 ^ k := by rw [Nat.pow_succ]; omega
      have half : (2 : ℕ) ^ k ∣ s := (Nat.pow_dvd_pow 2 (Nat.le_succ k)).trans aligned
      have inside := free.1
      simp only [double] at inside
      have freeLower : FreeRun L n ⟨s, k⟩ :=
        ⟨by simp only; omega, fun u hu => free.2 u ⟨hu.1, by
          have := hu.2; simp only [double] at *; omega⟩⟩
      have freeUpper : FreeRun L n ⟨s + 2 ^ k, k⟩ :=
        ⟨by simp only; omega, fun u hu => free.2 u ⟨by have := hu.1; simp only at *; omega, by
          have := hu.2; simp only [double] at *; omega⟩⟩
      obtain ⟨b, hb, bOrder, bHas⟩ :=
        exists_of_free_run tiling coalesced half (by omega) freeLower
      obtain ⟨c, hc, cOrder, cHas⟩ :=
        exists_of_free_run tiling coalesced (Nat.dvd_add half dvd_rfl) (by omega) freeUpper
      have bAligned := tiling.aligned b (.inl hb)
      have cAligned := tiling.aligned c (.inl hc)
      have wholeAligned : (⟨s, k + 1⟩ : Block).Aligned := aligned
      rcases Nat.lt_or_ge k b.order with bLarge | bSmall
      · exact ⟨b, hb, bLarge, bHas⟩
      rcases Nat.lt_or_ge k c.order with cLarge | cSmall
      · -- the larger block around the upper half reaches down to `s`
        refine ⟨c, hc, cLarge, wholeAligned.nested cAligned cLarge
          (u := s + 2 ^ k) ⟨by simp only; omega, by
            have := Nat.two_pow_pos k; simp only [double]; omega⟩ cHas s
          (Block.has_start _)⟩
      -- both halves are free blocks, and they are buddies
      have lowerAligned : (⟨s, k⟩ : Block).Aligned := half
      have bEq : b = ⟨s, k⟩ := bAligned.eq_of_order_eq lowerAligned
        (le_antisymm bSmall bOrder) bHas (Block.has_start _)
      have cEq : c = ⟨s + 2 ^ k, k⟩ := cAligned.eq_of_order_eq (c := ⟨s + 2 ^ k, k⟩)
        (Nat.dvd_add half dvd_rfl) (le_antisymm cSmall cOrder) cHas (Block.has_start _)
      have buddy : b.buddy = c := by
        rw [bEq, cEq, Block.buddy_of_lower aligned]
      exact (coalesced b hb (by rw [bEq]; exact bound) (buddy ▸ hc)).elim

/-- A block is in the coalesced part of a tiling exactly when it is a maximal
wholly free aligned run.  So that part is a function of the remaining tiles. -/
theorem mem_iff_maximal (tiling : Tiling (F ∪ L) n) (apart : ∀ b ∈ F, b ∉ L)
    (coalesced : Coalesced top F) (bounded : ∀ b ∈ F, b.order ≤ top) (b : Block) :
    b ∈ F ↔ b.Aligned ∧ b.order ≤ top ∧ FreeRun L n b ∧
      (b.order < top → ¬ FreeRun L n b.parent) := by
  have free : ∀ c ∈ F, FreeRun L n c := by
    intro c hc
    refine ⟨tiling.inside c (.inl hc), fun u hu l hl lu => ?_⟩
    cases tiling.unique c (.inl hc) l (.inr hl) u hu lu
    exact apart _ hc hl
  constructor
  · intro hb
    have aligned := tiling.aligned b (.inl hb)
    refine ⟨aligned, bounded b hb, free b hb, fun small whole => ?_⟩
    obtain ⟨c, hc, order, has⟩ :=
      tiling.exists_of_free_run coalesced aligned.parent small whole
    have self := aligned.parent.nested (tiling.aligned c (.inl hc)) order
      (Block.has_start _) has b.start ((aligned.parent_has _).2 (.inl b.has_start))
    cases tiling.unique b (.inl hb) c (.inl hc) b.start b.has_start self
    change b.order + 1 ≤ b.order at order
    omega
  · intro ⟨aligned, bound, freeB, maximal⟩
    obtain ⟨c, hc, order, has⟩ :=
      tiling.exists_of_free_run coalesced (s := b.start) aligned bound freeB
    have cAligned := tiling.aligned c (.inl hc)
    rcases Nat.lt_or_ge b.order c.order with large | small
    · -- the parent of `b` lies inside `c`, so it would be free as well
      exfalso
      refine maximal (lt_of_lt_of_le large (bounded c hc)) ⟨?_, ?_⟩
      · have := aligned.parent.end_le cAligned large
          ((aligned.parent_has _).2 (.inl b.has_start)) has
        exact this.2.trans (tiling.inside c (.inl hc))
      · intro u hu
        exact (free c hc).2 u (aligned.parent.nested cAligned large
          ((aligned.parent_has _).2 (.inl b.has_start)) has u hu)
    · have := aligned.eq_of_order_eq cAligned (le_antisymm order small) b.has_start has
      exact this ▸ hc

/-- Two coalesced parts over the same remaining tiles are equal. -/
theorem coalesced_unique {G : Set Block}
    (tiling : Tiling (F ∪ L) n) (tiling' : Tiling (G ∪ L) n)
    (apart : ∀ b ∈ F, b ∉ L) (apart' : ∀ b ∈ G, b ∉ L)
    (coalesced : Coalesced top F) (coalesced' : Coalesced top G)
    (bounded : ∀ b ∈ F, b.order ≤ top) (bounded' : ∀ b ∈ G, b.order ≤ top) :
    F = G := by
  ext b
  rw [tiling.mem_iff_maximal apart coalesced bounded,
    tiling'.mem_iff_maximal apart' coalesced' bounded']

end Tiling

end Dyadic

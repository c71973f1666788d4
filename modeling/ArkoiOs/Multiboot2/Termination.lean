import Mathlib.Data.FinEnum
import ArkoiOs.Library.FuelLoop
import ArkoiOs.Multiboot2.AnyTags
import ArkoiOs.Multiboot2.Decode

/-!
# When the parser ends

On any information structure the handlers end: a memory map and the lists go on for
no longer than the early heap has room, and strings for no longer than there is
memory.  The loop over the tags ends unless it comes back to a tag with nothing
taken from the early heap in between.
-/

namespace ArkoiOs

open Piece Relation FuelLoop

/-! ## Rounds of the tag loop -/

/-- One round of the loop of `multiboot2_parse_boot_info`; it returns where the next tag is. -/
def tagRound (fuel : ℕ) (bootInfo end_ current : UInt32) :
    KernelM BootState (Option UInt32) :=
  if current < end_ then do
    let type ← load32 current
    if type = multiboot2TagTypeEnd then pure none
    else do
      parseTag fuel type current bootInfo
      let size ← load32 (current + 4)
      pure (some (current + multiboot2AlignUp size))
  else pure none

theorem parseTags_eq_loop (fuel : ℕ) (bootInfo end_ : UInt32) (rounds : ℕ) (current : UInt32) :
    parseTags fuel bootInfo end_ rounds current =
      loop .hang (tagRound fuel bootInfo end_) rounds current := by
  induction rounds generalizing current with
  | zero => rfl
  | succ rounds ih =>
      rw [parseTags, loop, tagRound]
      split
      · rw [bind_assoc]
        refine bind_congr fun type => ?_
        split
        · rfl
        · simp only [bind_assoc, pure_bind, Option.elim_some, ih]
      · rfl

/-- From a tag whose handler takes nothing from the early heap to the tag behind it. -/
def IdleNext (memory : ByteMemory Unit) (end_ tag next : UInt32) : Prop :=
  tag < end_ ∧ ∃ type size, memory.Holds ⟨(), tag.toNat⟩ (bytes32 type) ∧
    memory.Holds ⟨(), (tag + 4).toNat⟩ (bytes32 size) ∧ type ≠ multiboot2TagTypeEnd ∧
    IdleTag memory type tag ∧ next = tag + multiboot2AlignUp size

/-- The requests of a round of the tag loop do not wrap. -/
def RoundFits (fuel : ℕ) (bootInfo end_ tag : UInt32) (s : BootState) : Prop :=
  tag < end_ → ∀ type, s.memory.Holds ⟨(), tag.toNat⟩ (bytes32 type) →
    RequestsFit fuel type tag bootInfo s

/-- What a round of the tag loop reads is there. -/
def RoundReadable (areas : BootAreas) (before : ByteMemory Unit) (end_ tag : UInt32) : Prop :=
  tag < end_ → ∃ type, areas.Outside tag.toNat 4 ∧
    before.Holds ⟨(), tag.toNat⟩ (bytes32 type) ∧ (type ≠ multiboot2TagTypeEnd →
      TagReadable areas before type tag ∧ before.Room ⟨(), (tag + 4).toNat⟩ 4)

section Rounds

variable {areas : BootAreas} {before : ByteMemory Unit} {s : BootState}
  {pieces : List (Piece BootList)} {fuel : ℕ} {E : Fault → Prop}

/-- A round takes something from the early heap, or leaves the state as it was. -/
theorem AtWork.tagRound (work : AtWork areas before s pieces) (usable : areas.Usable before)
    (noWrap : areas.NoWrap before) (panics : ∀ message args, E (.panic message args))
    (enough : 2 ^ 32 ≤ fuel) {bootInfo end_ current : UInt32}
    (hboot : bootInfo.toNat = areas.bootInfo)
    (request : RoundFits fuel bootInfo end_ current s)
    (reads : E .outOfBounds ∨ RoundReadable areas before end_ current) :
    Machine.Ends (fun next s' => ∃ new, AtWork areas before s' (pieces ++ new) ∧
      (0 < extent new ∨ s' = s ∧ ∀ c, next = some c → IdleNext s.memory end_ current c)) E
      (ArkoiOs.tagRound fuel bootInfo end_ current s) := by
  have nothing : ∃ new, AtWork areas before s (pieces ++ new) ∧ (0 < extent new ∨ s = s ∧
      ∀ c, (none : Option UInt32) = some c → IdleNext s.memory end_ current c) :=
    ⟨[], by rw [List.append_nil]; exact work, Or.inr ⟨rfl, fun _ none => by cases none⟩⟩
  unfold ArkoiOs.tagRound
  by_cases inside : current < end_
  swap
  · rw [if_neg inside]
    exact nothing
  rw [if_pos inside]
  have word : ∀ {bytes : List UInt8} {p : Pointer Unit}, before.Holds p bytes → bytes.length = 4 →
      s.memory.Room p 4 := fun there length => work.room.2 (length ▸ there.room)
  have first : E .outOfBounds ∨ s.memory.Room ⟨(), current.toNat⟩ 4 := by
    refine reads.imp_right fun readable => ?_
    obtain ⟨type, -, there, -⟩ := readable inside
    exact word there (length_bytes32 type)
  refine (load32_ends first).bind fun type s₁ ⟨same, loaded⟩ => ?_
  subst same
  by_cases last : type = multiboot2TagTypeEnd
  · rw [if_pos last]
    exact nothing
  rw [if_neg last]
  have readable : E .outOfBounds ∨ TagReadable areas before type current ∧
      before.Room ⟨(), (current + 4).toNat⟩ 4 := by
    refine reads.imp_right fun readable => ?_
    obtain ⟨type', outside, there, rest⟩ := readable inside
    obtain ⟨name, commandLine, progress⟩ := work.progress
    have kept := progress.parsed.holds there (by rw [length_bytes32]; exact outside)
    obtain rfl : type' = type := bytes32_inj (kept.unique loaded (by simp [length_bytes32]))
    exact rest last
  refine (work.parseTag usable noWrap panics enough hboot (request inside type loaded)
    (readable.imp_right And.left)).bind fun _ s₂ ⟨new, work₂, idle, busy⟩ => ?_
  have field : E .outOfBounds ∨ s₂.memory.Room ⟨(), (current + 4).toNat⟩ 4 :=
    readable.imp_right fun h => work₂.room.2 h.2
  refine (load32_ends field).bind fun size s₃ ⟨same, loaded'⟩ => ?_
  subst same
  refine ⟨new, work₂, ?_⟩
  by_cases takesNothing : IdleTag s.memory type current
  · have same := idle takesNothing
    subst same
    refine Or.inr ⟨rfl, fun c next => ?_⟩
    cases next
    exact ⟨inside, type, size, loaded, loaded', last, takesNothing, rfl⟩
  · exact Or.inl (busy takesNothing)

/-- A tag that takes nothing is passed over. -/
theorem parseTag_idle {type tag bootInfo : UInt32} (idle : IdleTag s.memory type tag)
    (positive : 0 < fuel) : parseTag fuel type tag bootInfo s = .ok () s := by
  obtain ⟨fuel, rfl⟩ := Nat.exists_eq_succ_of_ne_zero (Nat.ne_of_gt positive)
  unfold IdleTag at idle
  unfold parseTag
  split at idle
  · rename_i map
    obtain ⟨size, loaded, stop⟩ := idle
    rw [if_pos map, parseMemoryMap]
    rw [Machine.bind_of_ok (load32_of_holds rfl loaded), parseMemoryMapLoop, if_neg stop]
    rfl
  · rename_i map
    rw [if_neg map, if_neg idle.1, if_neg idle.2.1, if_neg idle.2.2]
    rfl

/-- Rounds that keep the state are those of tags that take nothing. -/
theorem tagRound_idle {bootInfo end_ tag next : UInt32} (idle : IdleNext s.memory end_ tag next)
    (positive : 0 < fuel) : tagRound fuel bootInfo end_ tag s = .ok (some next) s := by
  obtain ⟨inside, type, size, typeField, sizeField, notEnd, idle, rfl⟩ := idle
  rw [tagRound, if_pos inside, Machine.bind_of_ok (load32_of_holds rfl typeField), if_neg notEnd,
    Machine.bind_of_ok (parseTag_idle idle positive),
    Machine.bind_of_ok (load32_of_holds rfl sizeField)]
  rfl

/-- A round takes something from the early heap exactly if it is not one of those. -/
theorem AtWork.step (work : AtWork areas before s pieces) (usable : areas.Usable before)
    (noWrap : areas.NoWrap before) (enough : 2 ^ 32 ≤ fuel) {bootInfo end_ tag next : UInt32}
    (hboot : bootInfo.toNat = areas.bootInfo) (request : RoundFits fuel bootInfo end_ tag s)
    {s' : BootState} (step : Step (ArkoiOs.tagRound fuel bootInfo end_) (tag, s) (next, s')) :
    ∃ new, AtWork areas before s' (pieces ++ new) ∧
      (0 < extent new ∨ s' = s ∧ IdleNext s.memory end_ tag next) := by
  obtain ⟨new, work', taken⟩ := (work.tagRound (E := fun _ => True) usable noWrap
    (fun _ _ => trivial) enough hboot request (Or.inl trivial)).of_ok step
  exact ⟨new, work', taken.imp_right fun ⟨same, idle⟩ => ⟨same, idle next rfl⟩⟩

/-- Rounds that keep the state are the idle ones. -/
theorem AtWork.idleNext (work : AtWork areas before s pieces) (usable : areas.Usable before)
    (noWrap : areas.NoWrap before) (enough : 2 ^ 32 ≤ fuel) {bootInfo end_ tag next : UInt32}
    (hboot : bootInfo.toNat = areas.bootInfo) (request : RoundFits fuel bootInfo end_ tag s)
    (step : Step (ArkoiOs.tagRound fuel bootInfo end_) (tag, s) (next, s)) :
    IdleNext s.memory end_ tag next := by
  obtain ⟨new, work', grown | ⟨-, idle⟩⟩ := work.step usable noWrap enough hboot request step
  · have moved := work'.cursor
    rw [work.cursor, extent_append] at moved
    omega
  · exact idle

end Rounds

/-! ## The parser -/

/-- What the parser may write: the rest of the early heap, and `boot_info_t`. -/
def fullAreas (s : BootState) (bootInfo : UInt32) : BootAreas where
  heap := s.emm.cursor.toNat
  capacity := s.emm.end_.toNat - s.emm.cursor.toNat
  bootInfo := bootInfo.toNat

/-- The early heap and `boot_info_t` for a call on any information structure. -/
structure AnySetup (s : BootState) (bootInfo : UInt32) : Prop where
  ordered : s.emm.cursor.toNat ≤ s.emm.end_.toNat
  usable : (fullAreas s bootInfo).Usable s.memory
  noWrap : (fullAreas s bootInfo).NoWrap s.memory

/-- What comes before the loop; it returns `total_size`. -/
def parseHeader (mb2Info bootInfo : UInt32) : KernelM BootState UInt32 := do
  let _ ← onMemory (kmemset (nullable bootInfo) 0 sizeofBootInfo)
  load32 mb2Info

/-- The loop over the tags comes to the tag, with the end and the state there. -/
def ReachesTag (fuel : ℕ) (mb2Info bootInfo : UInt32) (s : BootState) (end_ tag : UInt32)
    (t : BootState) : Prop :=
  ∃ totalSize s₁, parseHeader mb2Info bootInfo s = .ok totalSize s₁ ∧ end_ = mb2Info + totalSize ∧
    ReflTransGen (Step (tagRound fuel bootInfo end_)) (mb2Info + 8, s₁) (tag, t)

/-- None of the requests for strings on the way wraps at 2^32. -/
def NoRequestWraps (fuel : ℕ) (mb2Info bootInfo : UInt32) (s : BootState) : Prop :=
  ∀ end_ tag t, ReachesTag fuel mb2Info bootInfo s end_ tag t → RoundFits fuel bootInfo end_ tag t

theorem multiboot2ParseBootInfo_eq (fuel : ℕ) (mb2Info bootInfo : UInt32) :
    multiboot2ParseBootInfo fuel mb2Info bootInfo = (do
      let totalSize ← parseHeader mb2Info bootInfo
      loop .hang (tagRound fuel bootInfo (mb2Info + totalSize)) fuel (mb2Info + 8)) := by
  unfold multiboot2ParseBootInfo parseHeader
  simp only [bind_assoc, parseTags_eq_loop]

section Parser

variable {s : BootState} {mb2Info bootInfo : UInt32} {fuel : ℕ} {E : Fault → Prop}

/-- In front of the first tag there is nothing in the early heap. -/
theorem AnySetup.parseHeader (setup : AnySetup s bootInfo)
    (reads : E .outOfBounds ∨ s.memory.Room ⟨(), mb2Info.toNat⟩ 4) :
    Machine.Ends (fun totalSize s₁ => AtWork (fullAreas s bootInfo) s.memory s₁ [] ∧
      s₁.memory.Holds ⟨(), mb2Info.toNat⟩ (bytes32 totalSize)) E
      (ArkoiOs.parseHeader mb2Info bootInfo s) := by
  have whole : (fullAreas s bootInfo).heap + (fullAreas s bootInfo).capacity =
      s.emm.end_.toNat := Nat.add_sub_cancel' setup.ordered
  obtain ⟨memory, cleared, progress⟩ := Progress.start setup.usable rfl rfl whole.le
  have work : AtWork (fullAreas s bootInfo) s.memory ⟨memory, s.emm⟩ [] :=
    ⟨⟨_, _, progress⟩, whole.symm, Nat.zero_le _⟩
  unfold ArkoiOs.parseHeader
  rw [Machine.bind_of_ok cleared]
  refine (load32_ends (reads.imp_right work.room.2)).mono fun totalSize s₁ ⟨same, loaded⟩ => ?_
  subst same
  exact ⟨work, loaded⟩

/-- Wherever the loop comes the parser is between two steps. -/
theorem AnySetup.atWork (setup : AnySetup s bootInfo) (enough : 2 ^ 32 ≤ fuel) {end_ : UInt32}
    {x y : UInt32 × BootState}
    (start : ∃ pieces, AtWork (fullAreas s bootInfo) s.memory x.2 pieces)
    (request : ∀ z, ReflTransGen (Step (tagRound fuel bootInfo end_)) x z →
      RoundFits fuel bootInfo end_ z.1 z.2)
    (reaches : ReflTransGen (Step (tagRound fuel bootInfo end_)) x y) :
    ∃ pieces, AtWork (fullAreas s bootInfo) s.memory y.2 pieces := by
  induction reaches with
  | refl => exact start
  | tail before step ih =>
      obtain ⟨pieces, work⟩ := ih
      obtain ⟨new, work', -⟩ :=
        work.step setup.usable setup.noWrap enough rfl (request _ before) step
      exact ⟨_, work'⟩

/-- The requests fit where the early heap ends further below 2^32 than any block of memory is
long. -/
theorem AnySetup.noRequestWraps (setup : AnySetup s bootInfo) (enough : 2 ^ 32 ≤ fuel)
    (blocks : ∀ p n, s.memory.Room p n → s.emm.end_.toNat + n < 2 ^ 32) (mb2Info : UInt32) :
    NoRequestWraps fuel mb2Info bootInfo s := by
  have whole : (fullAreas s bootInfo).heap + (fullAreas s bootInfo).capacity =
      s.emm.end_.toNat := Nat.add_sub_cancel' setup.ordered
  have requests : ∀ {t : BootState} {pieces : List (Piece BootList)} {end_ tag : UInt32},
      AtWork (fullAreas s bootInfo) s.memory t pieces → RoundFits fuel bootInfo end_ tag t := by
    intro t pieces end_ tag work _ type _
    refine work.requestsFit setup.usable setup.noWrap enough (fun p n room => ?_) rfl
    rw [whole]
    exact blocks p n room
  rintro end_ tag t ⟨totalSize, s₁, run, -, reaches⟩
  have header : Machine.Ends _ (fun _ => True) (ArkoiOs.parseHeader mb2Info bootInfo s) :=
    setup.parseHeader (Or.inl trivial)
  have work : ∃ pieces, AtWork (fullAreas s bootInfo) s.memory t pieces := by
    refine reaches.invariant_of_step
      (P := fun y => ∃ pieces, AtWork (fullAreas s bootInfo) s.memory y.2 pieces)
        ⟨[], (header.of_ok run).1⟩ fun y z ⟨pieces, work⟩ step => ?_
    obtain ⟨new, work', -⟩ := work.step setup.usable setup.noWrap enough rfl (requests work) step
    exact ⟨_, work'⟩
  obtain ⟨pieces, work⟩ := work
  exact requests work

/-- The part of the early heap that is left. -/
def heapLeft (s : BootState) : ℕ := s.emm.end_.toNat - s.emm.cursor.toNat

/-- A step leaves the state as it is or takes something from the early heap. -/
theorem AnySetup.step_progress (setup : AnySetup s bootInfo) (enough : 2 ^ 32 ≤ fuel)
    {end_ : UInt32} {y z : UInt32 × BootState}
    (here : ∃ pieces, AtWork (fullAreas s bootInfo) s.memory y.2 pieces)
    (request : RoundFits fuel bootInfo end_ y.1 y.2)
    (step : Step (tagRound fuel bootInfo end_) y z) :
    z.2 = y.2 ∨ heapLeft z.2 < heapLeft y.2 := by
  obtain ⟨pieces, work⟩ := here
  obtain ⟨new, work', grown | ⟨same, -⟩⟩ :=
    work.step setup.usable setup.noWrap enough rfl request step
  · right
    have before := work.cursor
    have after := work'.cursor
    have whole := work.whole
    have whole' := work'.whole
    have fits := work'.fits
    rw [extent_append] at after fits
    unfold heapLeft
    omega
  · exact Or.inl same

/-- Rounds along which the state stays are idle ones. -/
theorem AnySetup.idle_path (setup : AnySetup s bootInfo) (enough : 2 ^ 32 ≤ fuel)
    {end_ tag u : UInt32} {x : UInt32 × BootState} {t : BootState}
    (start : ∃ pieces, AtWork (fullAreas s bootInfo) s.memory x.2 pieces)
    (request : ∀ z, ReflTransGen (Step (tagRound fuel bootInfo end_)) x z →
      RoundFits fuel bootInfo end_ z.1 z.2)
    (reaches : ReflTransGen (Step (tagRound fuel bootInfo end_)) x (tag, t))
    (path : TransGen (fun a b => Step (tagRound fuel bootInfo end_) (a, t) (b, t)) tag u) :
    TransGen (IdleNext t.memory end_) tag u := by
  have next : ∀ {a b : UInt32}, ReflTransGen (Step (tagRound fuel bootInfo end_)) x (a, t) →
      Step (tagRound fuel bootInfo end_) (a, t) (b, t) → IdleNext t.memory end_ a b := by
    intro a b here step
    obtain ⟨pieces, work⟩ := setup.atWork enough start request here
    exact work.idleNext setup.usable setup.noWrap enough rfl (request _ here) step
  have whole : TransGen (IdleNext t.memory end_) tag u ∧
      ReflTransGen (Step (tagRound fuel bootInfo end_)) x (u, t) := by
    induction path with
    | single step => exact ⟨.single (next reaches step), reaches.tail step⟩
    | tail _ step ih =>
        obtain ⟨before, here⟩ := ih
        exact ⟨before.tail (next here step), here.tail step⟩
  exact whole.1

/-- The parser never ends exactly if it comes to tags that take nothing from the early heap and
lead back to the first of them. -/
theorem multiboot2ParseBootInfo_hangs_iff (setup : AnySetup s bootInfo) (enough : 2 ^ 64 ≤ fuel)
    (requests : NoRequestWraps fuel mb2Info bootInfo s) :
    (∃ s', multiboot2ParseBootInfo fuel mb2Info bootInfo s = .error .hang s') ↔
      ∃ end_ tag t, ReachesTag fuel mb2Info bootInfo s end_ tag t ∧
        TransGen (IdleNext t.memory end_) tag tag := by
  have usable := setup.usable
  have noWrap := setup.noWrap
  have many : 2 ^ 32 ≤ fuel := by omega
  rw [multiboot2ParseBootInfo_eq]
  have header : Machine.Ends _ (· ≠ Fault.hang) (parseHeader mb2Info bootInfo s) :=
    setup.parseHeader (Or.inl (by decide))
  rcases header.ok_or_error with ⟨totalSize, s₁, run, work, -⟩ | ⟨e, s₁, run, stops⟩
  · rw [Machine.bind_of_ok run]
    -- the states of the loop are those it comes to
    have request : ∀ z, ReflTransGen (Step (tagRound fuel bootInfo (mb2Info + totalSize)))
        (mb2Info + 8, s₁) z → RoundFits fuel bootInfo (mb2Info + totalSize) z.1 z.2 :=
      fun z reaches => requests _ _ _ ⟨totalSize, s₁, run, rfl, reaches⟩
    have atWork : ∀ z, ReflTransGen (Step (tagRound fuel bootInfo (mb2Info + totalSize)))
        (mb2Info + 8, s₁) z → ∃ pieces, AtWork (fullAreas s bootInfo) s.memory z.2 pieces :=
      fun z reaches => setup.atWork many ⟨[], work⟩ request reaches
    have quiet : ∀ (y : UInt32 × BootState) t,
        ReflTransGen (Step (tagRound fuel bootInfo (mb2Info + totalSize))) (mb2Info + 8, s₁) y →
        tagRound fuel bootInfo (mb2Info + totalSize) y.1 y.2 ≠ .error .hang t := by
      intro y t reaches hangs
      obtain ⟨pieces, work⟩ := atWork y reaches
      exact (work.tagRound (E := (· ≠ .hang)) usable noWrap (fun _ _ => by simp) many rfl
        (request y reaches) (Or.inl (by decide))).of_error hangs rfl
    have progress : ∀ y z : UInt32 × BootState,
        ReflTransGen (Step (tagRound fuel bootInfo (mb2Info + totalSize))) (mb2Info + 8, s₁) y →
        Step (tagRound fuel bootInfo (mb2Info + totalSize)) y z →
        z.2 = y.2 ∨ heapLeft z.2 < heapLeft y.2 :=
      fun y _ reaches step => setup.step_progress many (atWork y reaches) (request y reaches) step
    have few : Fintype.card UInt32 * (heapLeft s₁ + 1) ≤ fuel := by
      have limit := s₁.emm.end_.toNat_lt
      rw [← FinEnum.card_eq_fintypeCard, FinEnum.card_UInt32]
      unfold heapLeft
      omega
    refine (loop_endless_iff_cycle (x := (mb2Info + 8, s₁)) .refl
      (fun _ _ reaches step => reaches.tail step) quiet progress few).trans ?_
    constructor
    · rintro ⟨⟨tag, t⟩, reaches, cycle⟩
      -- the state stays along the cycle
      exact ⟨_, tag, t, ⟨totalSize, s₁, run, rfl, reaches⟩,
        setup.idle_path many ⟨[], work⟩ request reaches cycle⟩
    · rintro ⟨_, tag, t, ⟨totalSize', s₁', run', rfl, reaches⟩, cycle⟩
      rw [run] at run'
      cases run'
      exact ⟨(tag, t), reaches, cycle.lift id fun _ _ idle => tagRound_idle idle (by omega)⟩
  · rw [Machine.bind_of_error run]
    refine iff_of_false (fun ⟨s', hangs⟩ => ?_) ?_
    · cases hangs
      exact stops rfl
    · rintro ⟨_, tag, t, ⟨totalSize', s₁', run', -⟩, -⟩
      rw [run] at run'
      cases run'

/-- 512 bytes of memory, with the early heap from 160 to 220. -/
def filledState (content : ℕ → UInt8) : BootState where
  memory := fun _ offset => if offset < 512 then some (content offset) else none
  emm := ⟨160, 220⟩

theorem filledState_room (content : ℕ → UInt8) {p : Pointer Unit} {n : ℕ}
    (inside : p.offset + n ≤ 512) : (filledState content).memory.Room p n := by
  intro i hi
  have below : p.offset + i < 512 := by omega
  simp only [ByteMemory.byte, filledState, Pointer.advance_offset, if_pos below, Option.isSome_some]

theorem filledState_areas (content : ℕ → UInt8) :
    fullAreas (filledState content) 128 = ⟨160, 60, 128⟩ := by
  simp only [fullAreas, filledState, UInt32.reduceToNat, Nat.reduceSub]

theorem filledState_setup (content : ℕ → UInt8) : AnySetup (filledState content) 128 where
  ordered := Nat.le_add_right 160 60
  usable := by
    rw [filledState_areas]
    exact ⟨filledState_room content (by decide), filledState_room content (by decide),
      by decide, by decide, by decide, by decide, by decide⟩
  noWrap := by
    rw [filledState_areas]
    refine ⟨by decide, fun p there => ?_⟩
    by_contra above
    have beyond : ¬p.offset < 512 := by omega
    simp only [ByteMemory.byte, filledState, if_neg beyond] at there
    cases there

theorem filledState_requests (content : ℕ → UInt8) {fuel : ℕ} (enough : 2 ^ 32 ≤ fuel)
    (mb2Info : UInt32) : NoRequestWraps fuel mb2Info 128 (filledState content) := by
  refine (filledState_setup content).noRequestWraps enough (fun p n room => ?_) mb2Info
  have few : n ≤ 512 := by
    by_contra long
    have there := room 512 (by omega)
    have beyond : ¬p.offset + 512 < 512 := by omega
    simp only [ByteMemory.byte, filledState, Pointer.advance_offset, if_neg beyond] at there
    cases there
  have below : 220 + n < 2 ^ 32 := by omega
  exact below

/-- A tag of a type without a handler, and of size zero, at 264. -/
def stuckState : BootState :=
  filledState fun offset => if offset = 256 then 24 else if offset = 264 then 99 else 0

theorem stuckState_hangs_iff :
    (∃ s', multiboot2ParseBootInfo (2 ^ 64) 256 128 stuckState = .error .hang s') ↔
      ∃ end_ tag t, ReachesTag (2 ^ 64) 256 128 stuckState end_ tag t ∧
        TransGen (IdleNext t.memory end_) tag tag :=
  multiboot2ParseBootInfo_hangs_iff (filledState_setup _) (Nat.le_refl _)
    (filledState_requests _ (by decide) 256)

/-- The parser stays at the tag for ever. -/
theorem stuckState_hangs :
    ¬∃ fuel, ∀ s', multiboot2ParseBootInfo fuel 256 128 stuckState ≠ .error .hang s' := by
  rintro ⟨fuel, ends⟩
  have cleared : parseHeader 256 128 stuckState = .ok 24
      ⟨stuckState.memory.overwrite ⟨(), 128⟩ (List.replicate 20 0), stuckState.emm⟩ := by
    have target : nullable 128 = some ⟨(), 128⟩ := rfl
    have room : stuckState.memory.Room ⟨(), 128⟩ sizeofBootInfo.toNat := by decide +kernel
    unfold parseHeader
    rw [target, Machine.bind_of_ok (onMemory_of_ok (kmemset_eq room))]
    exact load32_of_holds rfl (by decide +kernel)
  have unknown : IdleTag (stuckState.memory.overwrite ⟨(), 128⟩ (List.replicate 20 0)) 99 264 := by
    rw [IdleTag, if_neg (by decide)]
    decide
  have stays : IdleNext (stuckState.memory.overwrite ⟨(), 128⟩ (List.replicate 20 0)) 280 264 264 :=
    ⟨by decide, 99, 0, by decide +kernel, by decide +kernel, by decide, unknown, by decide⟩
  have path : HasPath (Step (tagRound fuel 128 280)) ((264 : UInt32),
      (⟨stuckState.memory.overwrite ⟨(), 128⟩ (List.replicate 20 0), stuckState.emm⟩ :
        BootState)) fuel := by
    rcases Nat.eq_zero_or_pos fuel with rfl | positive
    · exact hasPath_zero _
    · exact hasPath_of_cycle (.single (tagRound_idle stays positive)) fuel
  obtain ⟨t, hangs⟩ : ∃ t, loop Fault.hang (tagRound fuel 128 280) fuel 264 _ = .error .hang t :=
    loop_endless_of_path path
  refine ends t ?_
  rw [multiboot2ParseBootInfo_eq, Machine.bind_of_ok cleared]
  exact hangs

end Parser

end ArkoiOs

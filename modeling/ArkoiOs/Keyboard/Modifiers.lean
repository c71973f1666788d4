import ArkoiOs.Keyboard.Handler

/-!
# The modifiers of an event and the keys that are down

What the modifiers should be is said of the strokes: Shift, Ctrl and Alt are held
while one of their two keys is down, and Caps Lock is the parity of the times its
key went down.  The driver keeps one variable for each pair of keys and toggles
Caps Lock at every make code, so its events are right exactly as long as no key
of a pair is released while the other one is down and Caps Lock does not repeat.
-/

namespace ArkoiOs

/-! ## Keys -/

namespace Key

def leftShift : Key := ⟨false, 0x2A⟩

def rightShift : Key := ⟨false, 0x36⟩

def leftCtrl : Key := ⟨false, 0x1D⟩

def rightCtrl : Key := ⟨true, 0x1D⟩

def leftAlt : Key := ⟨false, 0x38⟩

def rightAlt : Key := ⟨true, 0x38⟩

def capsLock : Key := ⟨false, 0x3A⟩

/-- Different keys have different scan codes. -/
theorem scancode_inj {key key' : Key} : key.scancode = key'.scancode ↔ key = key' := by
  refine ⟨fun same => ?_, congrArg scancode⟩
  rcases key with ⟨extended, code⟩
  rcases key' with ⟨extended', code'⟩
  have low : ∀ (extended : Bool) (code : UInt8),
      (extendedScancode code extended).toUInt8 = code := by
    intro extended code
    have zero : ((if extended then extendedScancodePrefix.toUInt16 else 0) <<< 8).toUInt8 = 0 := by
      cases extended <;> rfl
    rw [extendedScancode, UInt16.toUInt8_or, zero, UInt8.zero_or, UInt8.toUInt8_toUInt16]
  have codes : code = code' := by
    rw [← low extended code, ← low extended' code']
    exact congrArg UInt16.toUInt8 same
  -- an extended code is above all others
  have high : ∀ code : UInt8, extendedScancode code true ≠ extendedScancode code false := by
    intro code equal
    have words := congrArg UInt16.toNat equal
    have above : 0xE000 ≤ (extendedScancode code true).toNat := by
      rw [extendedScancode, UInt16.toNat_or]
      exact Nat.left_le_or
    have below : (extendedScancode code false).toNat < 256 := by
      rw [extendedScancode, UInt16.toNat_or, UInt8.toNat_toUInt16]
      exact Nat.or_lt_two_pow (n := 8) (by decide) code.toNat_lt
    omega
  subst codes
  cases extended <;> cases extended' <;> first | rfl | exact absurd same (high code) |
    exact absurd same.symm (high code)

end Key

/-! ## What the modifiers should be -/

/-- Whether the key is down after the strokes: made, and not broken since. -/
def Key.down (key : Key) (all : List Stroke) : Bool :=
  all.foldl (fun down stroke => if stroke.key = key then !stroke.isBreak else down) false

/-- The number of times the key went down. -/
def Key.presses (key : Key) (all : List Stroke) : ℕ :=
  (List.range all.length).countP fun i => !key.down (all.take i) && key.down (all.take (i + 1))

/-- The modifiers after strokes that began with every key up. -/
def modifiersAfter (all : List Stroke) : Modifiers where
  capsLocked := Key.capsLock.presses all % 2 == 1
  shiftHeld := Key.leftShift.down all || Key.rightShift.down all
  ctrlHeld := Key.leftCtrl.down all || Key.rightCtrl.down all
  altHeld := Key.leftAlt.down all || Key.rightAlt.down all

/-- Each event shows the modifiers after its stroke. -/
def ModifiersFollow (events : List KeyboardEvent) (all : List Stroke) : Prop :=
  ∀ (i : ℕ) (event : KeyboardEvent), events[i]? = some event →
    event.modifiers = modifiersAfter (all.take (i + 1))

/-! ## The strokes the driver follows -/

/-- The stroke does not release one of the keys while the other is down. -/
def ReleasedAlone (left right : Key) (before : List Stroke) (stroke : Stroke) : Prop :=
  stroke.isBreak = true →
    (stroke.key = left → right.down before = false) ∧
    (stroke.key = right → left.down before = false)

/-- The driver follows the stroke. -/
structure Followed (before : List Stroke) (stroke : Stroke) : Prop where
  shift : ReleasedAlone .leftShift .rightShift before stroke
  ctrl : ReleasedAlone .leftCtrl .rightCtrl before stroke
  alt : ReleasedAlone .leftAlt .rightAlt before stroke
  capsLock : stroke = ⟨.capsLock, false⟩ → Key.capsLock.down before = false

/-- The driver follows every stroke. -/
def AllFollowed (all : List Stroke) : Prop :=
  ∀ (i : ℕ) (stroke : Stroke), all[i]? = some stroke → Followed (all.take i) stroke

/-! ## One more stroke -/

/-- What holds of each element with its index holds of each of the first ones and
of the last one. -/
theorem forall_getElem?_concat {α : Type} {P : ℕ → α → Prop} (l : List α) (a : α) :
    (∀ (i : ℕ) (b : α), (l ++ [a])[i]? = some b → P i b) ↔
      (∀ (i : ℕ) (b : α), l[i]? = some b → P i b) ∧ P l.length a := by
  constructor
  · intro h
    refine ⟨fun i b at_i => h i b ?_, h l.length a List.getElem?_concat_length⟩
    rw [List.getElem?_append_left (List.getElem?_eq_some_iff.1 at_i).1]
    exact at_i
  · rintro ⟨first, last⟩ i b at_i
    rcases Nat.lt_or_ge i l.length with before | behind
    · rw [List.getElem?_append_left before] at at_i
      exact first i b at_i
    · rw [List.getElem?_append_right behind, List.getElem?_singleton] at at_i
      split at at_i
      · rename_i zero
        cases at_i
        obtain rfl : i = l.length := Nat.le_antisymm (Nat.sub_eq_zero_iff_le.1 zero) behind
        exact last
      · cases at_i

section Concat

variable (all : List Stroke) (stroke : Stroke)

theorem Key.down_concat (key : Key) : key.down (all ++ [stroke]) =
    if stroke.key = key then !stroke.isBreak else key.down all :=
  List.foldl_append ..

/-- A key goes down at a make code that finds it up. -/
theorem Key.presses_concat (key : Key) : key.presses (all ++ [stroke]) =
    key.presses all + if stroke = ⟨key, false⟩ ∧ key.down all = false then 1 else 0 := by
  have earlier : (List.range all.length).countP (fun i =>
      !key.down ((all ++ [stroke]).take i) && key.down ((all ++ [stroke]).take (i + 1))) =
        key.presses all := by
    refine List.countP_congr fun i mem => ?_
    have below := List.mem_range.1 mem
    rw [List.take_append_of_le_length below.le, List.take_append_of_le_length below]
  have whole : (all ++ [stroke]).take (all.length + 1) = all ++ [stroke] :=
    List.take_of_length_le (by rw [List.length_append, List.length_singleton])
  rw [Key.presses, List.length_append, List.length_singleton, List.range_succ, List.countP_append,
    earlier, List.countP_singleton, List.take_left, whole, Key.down_concat]
  congr 1
  rcases stroke with ⟨key', isBreak⟩
  rcases eq_or_ne key' key with rfl | other
  · cases isBreak <;> cases key'.down all <;> simp
  · cases key.down all <;> simp [other]

theorem modifiersFollow_concat {events : List KeyboardEvent} (event : KeyboardEvent)
    (lengths : events.length = all.length) :
    ModifiersFollow (events ++ [event]) (all ++ [stroke]) ↔
      ModifiersFollow events all ∧ event.modifiers = modifiersAfter (all ++ [stroke]) := by
  unfold ModifiersFollow
  rw [forall_getElem?_concat, lengths, List.take_of_length_le (l := all ++ [stroke]) (by
    rw [List.length_append, List.length_singleton])]
  refine and_congr_left fun _ => forall₃_congr fun i event at_i => ?_
  have below := lengths ▸ (List.getElem?_eq_some_iff.1 at_i).1
  rw [List.take_append_of_le_length below]

theorem allFollowed_concat :
    AllFollowed (all ++ [stroke]) ↔ AllFollowed all ∧ Followed all stroke := by
  unfold AllFollowed
  rw [forall_getElem?_concat, List.take_left]
  refine and_congr_left fun _ => forall₃_congr fun i stroke at_i => ?_
  rw [List.take_append_of_le_length (List.getElem?_eq_some_iff.1 at_i).1.le]

end Concat

/-! ## One stroke of the driver -/

section Stroke

variable (modifiers : Modifiers) (all : List Stroke) (stroke : Stroke)

theorem Modifiers.stroke_eq : modifiers.stroke stroke =
    { capsLocked := if stroke = ⟨.capsLock, false⟩ then !modifiers.capsLocked
        else modifiers.capsLocked
      shiftHeld := if stroke.key = .leftShift ∨ stroke.key = .rightShift then !stroke.isBreak
        else modifiers.shiftHeld
      ctrlHeld := if stroke.key = .leftCtrl ∨ stroke.key = .rightCtrl then !stroke.isBreak
        else modifiers.ctrlHeld
      altHeld := if stroke.key = .leftAlt ∨ stroke.key = .rightAlt then !stroke.isBreak
        else modifiers.altHeld } := by
  rcases stroke with ⟨key, isBreak⟩
  have note : modifiers.stroke ⟨key, isBreak⟩ =
      if key = .leftShift ∨ key = .rightShift then { modifiers with shiftHeld := !isBreak }
      else if key = .leftCtrl ∨ key = .rightCtrl then { modifiers with ctrlHeld := !isBreak }
      else if key = .leftAlt ∨ key = .rightAlt then { modifiers with altHeld := !isBreak }
      else if key = .capsLock ∧ !isBreak then
        { modifiers with capsLocked := !modifiers.capsLocked }
      else modifiers := by
    simp only [← Key.scancode_inj]
    rfl
  rw [note]
  split
  · rename_i shift
    rcases shift with rfl | rfl <;> rfl
  split
  · rename_i ctrl
    rcases ctrl with rfl | rfl <;> rfl
  split
  · rename_i alt
    rcases alt with rfl | rfl <;> rfl
  split
  · rename_i toggle
    rcases toggle with ⟨rfl, make⟩
    cases isBreak with
    | false => rfl
    | true => cases make
  · rename_i noToggle
    have noMake : (⟨key, isBreak⟩ : Stroke) ≠ ⟨.capsLock, false⟩ := by
      rintro ⟨⟩
      exact noToggle ⟨rfl, rfl⟩
    rw [if_neg noMake]

/-- A variable for a pair of keys follows the stroke unless it releases one of
them while the other is down. -/
theorem pair_follows_iff {left right : Key} (ne : left ≠ right) :
    (if stroke.key = left ∨ stroke.key = right then !stroke.isBreak
      else left.down all || right.down all) =
        (left.down (all ++ [stroke]) || right.down (all ++ [stroke])) ↔
      ReleasedAlone left right all stroke := by
  unfold ReleasedAlone
  rw [Key.down_concat, Key.down_concat]
  rcases stroke with ⟨key, isBreak⟩
  rcases eq_or_ne key left with rfl | notLeft
  · cases isBreak <;> cases right.down all <;> simp [ne]
  · rcases eq_or_ne key right with rfl | notRight
    · cases isBreak <;> cases left.down all <;> simp [notLeft]
    · simp [notLeft, notRight]

theorem capsLock_follows_iff :
    (if stroke = ⟨.capsLock, false⟩ then !(Key.capsLock.presses all % 2 == 1)
      else Key.capsLock.presses all % 2 == 1) =
        (Key.capsLock.presses (all ++ [stroke]) % 2 == 1) ↔
      (stroke = ⟨.capsLock, false⟩ → Key.capsLock.down all = false) := by
  rw [Key.presses_concat]
  rcases eq_or_ne stroke ⟨.capsLock, false⟩ with make | other
  · rw [if_pos make]
    have turn : ((Key.capsLock.presses all + 1) % 2 == 1) =
        !(Key.capsLock.presses all % 2 == 1) := by
      rcases Nat.mod_two_eq_zero_or_one (Key.capsLock.presses all) with even | odd
      · rw [Nat.add_mod, even]
        rfl
      · rw [Nat.add_mod, odd]
        rfl
    cases down : Key.capsLock.down all with
    | false => simp [make, turn]
    | true => simp [make]
  · simp [other]

/-- The driver's variables after a stroke are right exactly when it follows the
stroke. -/
theorem stroke_follows_iff :
    (modifiersAfter all).stroke stroke = modifiersAfter (all ++ [stroke]) ↔
      Followed all stroke := by
  have shift : _ ↔ ReleasedAlone .leftShift .rightShift all stroke :=
    pair_follows_iff all stroke (by decide)
  have ctrl : _ ↔ ReleasedAlone .leftCtrl .rightCtrl all stroke :=
    pair_follows_iff all stroke (by decide)
  have alt : _ ↔ ReleasedAlone .leftAlt .rightAlt all stroke :=
    pair_follows_iff all stroke (by decide)
  rw [Modifiers.stroke_eq]
  constructor
  · intro same
    injection same with caps_eq shift_eq ctrl_eq alt_eq
    exact ⟨shift.1 shift_eq, ctrl.1 ctrl_eq, alt.1 alt_eq,
      (capsLock_follows_iff all stroke).1 caps_eq⟩
  · intro followed
    have caps_eq := (capsLock_follows_iff all stroke).2 followed.capsLock
    have shift_eq := shift.2 followed.shift
    have ctrl_eq := ctrl.2 followed.ctrl
    have alt_eq := alt.2 followed.alt
    unfold modifiersAfter
    rw [shift_eq, ctrl_eq, alt_eq, caps_eq]

end Stroke

/-! ## All strokes -/

/-- As long as the driver follows the strokes its variables are right. -/
theorem foldl_stroke_of_allFollowed {all : List Stroke} (followed : AllFollowed all) :
    all.foldl Modifiers.stroke (modifiersAfter []) = modifiersAfter all := by
  induction all using List.reverseRecOn with
  | nil => rfl
  | append_singleton all stroke ih =>
      obtain ⟨before, last⟩ := (allFollowed_concat all stroke).1 followed
      rw [List.foldl_append, ih before]
      exact (stroke_follows_iff all stroke).2 last

/-- The first stroke it does not follow has a wrong event. -/
theorem driverEvents_follow_iff (all : List Stroke) :
    ModifiersFollow (driverEvents (modifiersAfter []) all) all ↔ AllFollowed all := by
  induction all using List.reverseRecOn with
  | nil =>
      constructor
      · intro _ i stroke none
        cases none
      · intro _ i event none
        cases none
  | append_singleton all stroke ih =>
      rw [driverEvents_append, allFollowed_concat, ← ih]
      refine (modifiersFollow_concat all stroke _ (length_driverEvents _ all)).trans
        (and_congr_right fun before => ?_)
      rw [← stroke_follows_iff, ← foldl_stroke_of_allFollowed (ih.1 before)]
      rfl

/-! ## Streams of bytes -/

/-- The handler runs once for each batch of bytes that arrives. -/
def deliver (batches : List (List UInt8)) : KernelM Keyboard Unit :=
  batches.forM fun batch => do
    modify fun keyboard => { keyboard with port := keyboard.port ++ batch }
    keyboardHandler

/-- The bytes the handler reads over all batches, with those it has left in the
controller. -/
def bytesRead : List UInt8 → List (List UInt8) → List UInt8
  | _, [] => []
  | port, batch :: batches =>
      portRead (port ++ batch) ++
        bytesRead ((port ++ batch).drop (portRead (port ++ batch)).length) batches

/-- The batches are handled one after another. -/
theorem deliver_ok {keyboard : Keyboard} {q : List (List UInt8)} (h : keyboard.Queue q)
    (batches : List (List UInt8)) :
    ∃ keyboard', deliver batches keyboard = .ok () keyboard' ∧
      Handled { keyboard with port := keyboard.port ++ batches.flatten } keyboard' q
        (bytesRead keyboard.port batches) := by
  induction batches generalizing keyboard q with
  | nil =>
      refine ⟨keyboard, rfl, ?_⟩
      rw [List.flatten_nil, List.append_nil]
      exact .refl h
  | cons batch batches ih =>
      have ready : Keyboard.Queue { keyboard with port := keyboard.port ++ batch } q := h.congr rfl
      obtain ⟨k₁, run, first⟩ := keyboardHandler_ok ready
      obtain ⟨k₂, runs, rest⟩ := ih first.queue
      refine ⟨k₂, (Machine.bind_of_ok run).trans runs, ?_⟩
      have left : k₁.port =
          (keyboard.port ++ batch).drop (portRead (keyboard.port ++ batch)).length := by
        have split := first.port
        exact (List.drop_left' rfl).symm.trans (congrArg (List.drop _) split.symm)
      have whole := first.arrive batches.flatten
      rw [List.flatten_cons, ← List.append_assoc, bytesRead, ← left]
      exact whole.trans rest

/-- After `keyboard_init` the handler pushes the events of all strokes it reads. -/
theorem deliver_boot (batches : List (List UInt8)) :
    ∃ keyboard, (do keyboardInit; deliver batches) Keyboard.boot = .ok () keyboard ∧
      batches.flatten = bytesRead [] batches ++ keyboard.port ∧
      keyboard.pushed =
        driverEvents (modifiersAfter []) (strokes false (bytesRead [] batches)) := by
  obtain ⟨start, init, empty, port, pending, modifiers, none⟩ := keyboardInit_ok
  obtain ⟨keyboard, run, handled⟩ := deliver_ok empty batches
  rw [port] at handled
  refine ⟨keyboard, (Machine.bind_of_ok init).trans run, handled.port, ?_⟩
  have pushed := handled.pushed
  simp only [none, modifiers, pending, List.nil_append] at pushed
  exact pushed

/-- The modifiers of all events are right if and only if the driver follows all
strokes it reads. -/
theorem modifiersFollow_iff (batches : List (List UInt8)) :
    ∃ keyboard, (do keyboardInit; deliver batches) Keyboard.boot = .ok () keyboard ∧
      batches.flatten = bytesRead [] batches ++ keyboard.port ∧
      keyboard.pushed.length = (strokes false (bytesRead [] batches)).length ∧
      (ModifiersFollow keyboard.pushed (strokes false (bytesRead [] batches)) ↔
        AllFollowed (strokes false (bytesRead [] batches))) := by
  obtain ⟨keyboard, run, port, pushed⟩ := deliver_boot batches
  refine ⟨keyboard, run, port, ?_, ?_⟩
  · rw [pushed, length_driverEvents]
  · rw [pushed]
    exact driverEvents_follow_iff _

/-- A Shift key released while the other one is down, and a repeated Caps Lock. -/
theorem overlap_not_followed :
    (∃ keyboard, (do keyboardInit; deliver [[0x2A], [0x36], [0xAA]]) Keyboard.boot =
        .ok () keyboard ∧
      ¬ModifiersFollow keyboard.pushed (strokes false [0x2A, 0x36, 0xAA])) ∧
    ∃ keyboard, (do keyboardInit; deliver [[0x3A], [0x3A]]) Keyboard.boot = .ok () keyboard ∧
      ¬ModifiersFollow keyboard.pushed (strokes false [0x3A, 0x3A]) := by
  constructor
  · obtain ⟨keyboard, run, -, pushed⟩ := deliver_boot [[0x2A], [0x36], [0xAA]]
    refine ⟨keyboard, run, fun follow => ?_⟩
    -- the third event, with the right Shift key down
    have third := follow 2 (strokeOf false 0xAA |>.event (modifiersAfter [])) (by rw [pushed]; rfl)
    exact absurd third (by decide)
  · obtain ⟨keyboard, run, -, pushed⟩ := deliver_boot [[0x3A], [0x3A]]
    refine ⟨keyboard, run, fun follow => ?_⟩
    have second := follow 1 (strokeOf false 0x3A |>.event (modifiersAfter [])) (by rw [pushed]; rfl)
    exact absurd second (by decide)

end ArkoiOs

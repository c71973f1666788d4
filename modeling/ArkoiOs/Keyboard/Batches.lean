import ArkoiOs.Keyboard.Modifiers

/-!
# Batches of bytes

However the bytes of a stream are spread over calls of the handler, the same
events are pushed and the driver ends in the same state, once all bytes are read:
what a call leaves behind is decided by the bytes read so far.
-/

namespace ArkoiOs

open Machine

/-! ## The ring buffer after events -/

/-- Push the bytes of the events, one after another. -/
def pushBytes (events : List KeyboardEvent) : KernelM (Option CyclicBuffer) Unit :=
  events.forM fun event => do
    let _ ← cyclicBufferPush (some (.ofBytes event.bytes))
    pure ()

theorem pushBytes_append (first rest : List KeyboardEvent) :
    pushBytes (first ++ rest) = (do pushBytes first; pushBytes rest) :=
  List.forM_append

/-- The second state has the buffer of the first one with these events pushed. -/
def BufferAfter (before after : Keyboard) (events : List KeyboardEvent) : Prop :=
  pushBytes events (some before.buffer) = .ok () (some after.buffer)

variable {keyboard keyboard' : Keyboard} {q : List (List UInt8)}

/-- The buffer after a stroke. -/
theorem handleScancode_buffer (h : keyboard.Queue q) {byte : UInt8} {extended : Bool}
    (run : handleScancode byte.toUInt16 extended keyboard = .ok () keyboard') :
    BufferAfter keyboard keyboard' (driverEvents keyboard.modifiers [strokeOf extended byte]) := by
  let stroke := strokeOf extended byte
  let event := stroke.event (keyboard.modifiers.stroke stroke)
  have holds : (ByteObject.ofBytes event.bytes).HoldsAt 0 event.bytes := by
    intro i hi
    rw [Nat.zero_add]
    rfl
  obtain ⟨buffer, push, -⟩ := h.represents.push holds (by rw [h.elementSize]; rfl)
  have pushed : onBuffer (cyclicBufferPush (some (.ofBytes event.bytes)))
      { keyboard with modifiers := keyboard.modifiers.stroke stroke } = .ok true
        { keyboard with modifiers := keyboard.modifiers.stroke stroke, buffer := buffer } :=
    onBuffer_of_ok push
  have result : handleScancode byte.toUInt16 extended keyboard = .ok ()
      { keyboard with
        modifiers := keyboard.modifiers.stroke stroke
        buffer := buffer
        pushed := keyboard.pushed ++ [event] } := by
    unfold handleScancode
    simp only [(stroke_masks byte).1, (stroke_masks byte).2]
    rw [bind_of_ok (modify_run _ _), bind_of_ok (get_run _)]
    exact (bind_of_ok pushed).trans rfl
  rw [result] at run
  cases run
  have one : (do
      let _ ← cyclicBufferPush (some (.ofBytes event.bytes))
      pure () : KernelM (Option CyclicBuffer) Unit) (some keyboard.buffer) =
        .ok () (some buffer) := (bind_of_ok push).trans rfl
  exact (bind_of_ok one).trans rfl

/-- The buffer after one call of the loop of the handler. -/
theorem handlePort_buffer (h : keyboard.Queue q) {bytes : List UInt8}
    (run : handlePort bytes keyboard = .ok () keyboard') :
    BufferAfter keyboard keyboard'
      (driverEvents keyboard.modifiers (strokes keyboard.extendedPending (portRead bytes))) := by
  induction bytes generalizing keyboard q with
  | nil =>
      cases run
      rfl
  | cons byte bytes ih =>
      rw [handlePort, bind_of_ok (modify_run _ _)] at run
      rw [portRead]
      split at run
      · rename_i is_prefix
        rw [if_pos is_prefix, strokes, if_pos is_prefix]
        cases run
        rfl
      · rename_i other
        rw [bind_of_ok (get_run _), bind_of_ok (modify_run _ _)] at run
        have ready : Keyboard.Queue { keyboard with port := bytes, extendedPending := false } q :=
          h.congr rfl
        obtain ⟨k₁, first, queue, -, pending, modifiers, -⟩ :=
          handleScancode_eq ready byte keyboard.extendedPending
        rw [bind_of_ok first] at run
        have rest := ih queue run
        rw [modifiers, pending] at rest
        rw [if_neg other, strokes, if_neg other]
        have one : BufferAfter keyboard k₁
            (driverEvents keyboard.modifiers [strokeOf keyboard.extendedPending byte]) :=
          handleScancode_buffer ready first
        exact (congrFun (pushBytes_append _ _) _).trans ((bind_of_ok one).trans rest)

/-- The buffer after batches. -/
theorem deliver_buffer (h : keyboard.Queue q) {batches : List (List UInt8)}
    (run : deliver batches keyboard = .ok () keyboard') :
    BufferAfter keyboard keyboard' (driverEvents keyboard.modifiers
      (strokes keyboard.extendedPending (bytesRead keyboard.port batches))) := by
  induction batches generalizing keyboard q with
  | nil =>
      cases run
      rfl
  | cons batch batches ih =>
      have ready : Keyboard.Queue { keyboard with port := keyboard.port ++ batch } q := h.congr rfl
      obtain ⟨k₁, first, handled⟩ := keyboardHandler_ok ready
      have one := handlePort_buffer ready first
      have later : deliver batches k₁ = .ok () keyboard' := (bind_of_ok first).symm.trans run
      have left : k₁.port =
          (keyboard.port ++ batch).drop (portRead (keyboard.port ++ batch)).length := by
        have split := handled.port
        exact (List.drop_left' rfl).symm.trans (congrArg (List.drop _) split.symm)
      have rest := ih handled.queue later
      rw [handled.modifiers, handled.pending, left] at rest
      rw [bytesRead, strokes_append, driverEvents_append, BufferAfter, pushBytes_append]
      exact (bind_of_ok one).trans rest

/-! ## The stream -/

/-- The bytes of a stream other than prefix bytes, each with the byte right before
it. -/
def scanCodes (previous : Option UInt8) (stream : List UInt8) : List (Option UInt8 × UInt8) :=
  ((previous :: stream.map some).zip stream).filter fun code => code.2 ≠ extendedScancodePrefix

/-- The event decodes the byte: the key code is the low seven bits, bit 7 tells a
release, and the scan code has the prefix after a prefix byte. -/
structure Decodes (event : KeyboardEvent) (code : Option UInt8 × UInt8) : Prop where
  keycode : event.keycode.toNat = code.2.toNat % 128
  isPressed : event.isPressed = true ↔ code.2.toNat < 128
  scancode : event.scancode.toNat =
    (if code.1 = some extendedScancodePrefix then 0xE000 else 0) + code.2.toNat % 128

/-- The byte before the stream, as far as the driver remembers it. -/
def Keyboard.previous (keyboard : Keyboard) : Option UInt8 :=
  if keyboard.extendedPending then some extendedScancodePrefix else none

theorem decodes_event (extended : Bool) (byte : UInt8) (modifiers : Modifiers)
    {previous : Option UInt8} (before : previous = some extendedScancodePrefix ↔ extended = true) :
    Decodes ((strokeOf extended byte).event modifiers) (previous, byte) := by
  have low : (byte &&& 0x7F).toNat = byte.toNat % 128 := by
    rw [UInt8.toNat_and]
    exact Nat.and_two_pow_sub_one_eq_mod byte.toNat 7
  have top : byte &&& 0x80 = 0 ↔ byte.toNat < 128 := by
    have bit : byte.toNat &&& 0x80 = (byte.toNat.testBit 7).toNat * 2 ^ 7 :=
      Nat.and_two_pow byte.toNat 7
    have size := byte.toNat_lt
    rw [Nat.testBit_eq_decide_div_mod_eq] at bit
    rw [← UInt8.toNat_inj, UInt8.toNat_and]
    refine (Eq.congr_left bit).trans ?_
    by_cases high : byte.toNat / 2 ^ 7 % 2 = 1
    · rw [decide_eq_true high]
      exact iff_of_false (by decide) (by omega)
    · rw [decide_eq_false high]
      exact iff_of_true (by decide) (by omega)
  refine ⟨low, ?_, ?_⟩
  · show (!(byte &&& 0x80 != 0)) = true ↔ byte.toNat < 128
    rw [← top, Bool.not_eq_true', bne_eq_false_iff_eq]
  · show (extendedScancode (byte &&& 0x7F) extended).toNat = _
    rw [extendedScancode, UInt16.toNat_or, UInt8.toNat_toUInt16, low]
    cases extended with
    | true =>
        rw [if_pos (before.2 rfl)]
        exact (Nat.two_pow_add_eq_or_of_lt (i := 8) (b := byte.toNat % 128) (by omega) 0xE0).symm
    | false =>
        rw [if_neg (fun same => Bool.false_ne_true (before.1 same)), Nat.zero_add]
        exact Nat.zero_or _

/-- The events of a stream decode its bytes one by one. -/
theorem driverEvents_decode (modifiers : Modifiers) (extended : Bool) (stream : List UInt8)
    {previous : Option UInt8} (before : previous = some extendedScancodePrefix ↔ extended = true) :
    List.Forall₂ Decodes (driverEvents modifiers (strokes extended stream))
      (scanCodes previous stream) := by
  induction stream generalizing modifiers extended previous with
  | nil => exact .nil
  | cons byte stream ih =>
      have next : some byte = some extendedScancodePrefix ↔
          decide (byte = extendedScancodePrefix) = true := by simp
      have rest := fun modifiers => ih modifiers _ next
      rw [scanCodes, List.map_cons, List.zip_cons_cons, List.filter_cons, strokes]
      split
      · rename_i escape
        rw [decide_eq_true escape] at rest
        simpa [escape, scanCodes] using rest modifiers
      · rename_i other
        rw [decide_eq_false other] at rest
        simp only [other, ne_eq, not_false_eq_true, decide_true, if_true]
        exact .cons (decodes_event extended byte _ before) (rest _)

/-! ## All batches -/

/-- Enough further calls read all bytes in the controller. -/
theorem deliver_drains (h : keyboard.Queue q) {calls : ℕ} (enough : keyboard.port.length ≤ calls) :
    ∃ keyboard', deliver (List.replicate calls []) keyboard = .ok () keyboard' ∧
      keyboard'.port = [] := by
  induction calls generalizing keyboard q with
  | zero => exact ⟨keyboard, rfl, List.length_eq_zero_iff.1 (Nat.le_zero.1 enough)⟩
  | succ calls ih =>
      have ready : Keyboard.Queue { keyboard with port := keyboard.port ++ [] } q := h.congr rfl
      obtain ⟨k₁, run, handled⟩ := keyboardHandler_ok ready
      have shorter : k₁.port.length ≤ calls := by
        have split := congrArg List.length handled.port
        simp only [List.append_nil, List.length_append] at split
        cases port : keyboard.port with
        | nil =>
            rw [port] at split
            simp only [List.length_nil] at split
            omega
        | cons byte bytes =>
            -- a call with a byte to read reads it
            have read : 0 < (portRead (byte :: bytes)).length := by
              rw [portRead]
              split <;> exact Nat.succ_pos _
            rw [port] at split enough
            omega
      obtain ⟨keyboard', rest, empty⟩ := ih handled.queue shorter
      exact ⟨keyboard', (bind_of_ok run).trans rest, empty⟩

/-- The state after the strokes of a stream whose bytes are all read. -/
structure DrainedTo (keyboard keyboard' : Keyboard) (stream : List UInt8) : Prop where
  port : keyboard'.port = []
  buffer : BufferAfter keyboard keyboard'
    (driverEvents keyboard.modifiers (strokes keyboard.extendedPending stream))
  pending : keyboard'.extendedPending = pendingAfter keyboard.extendedPending stream
  modifiers : keyboard'.modifiers =
    (strokes keyboard.extendedPending stream).foldl Modifiers.stroke keyboard.modifiers
  pushed : keyboard'.pushed = keyboard.pushed ++
    driverEvents keyboard.modifiers (strokes keyboard.extendedPending stream)

/-- There is one such state. -/
theorem DrainedTo.unique {stream : List UInt8} {k₁ k₂ : Keyboard}
    (first : DrainedTo keyboard k₁ stream) (second : DrainedTo keyboard k₂ stream) : k₁ = k₂ := by
  have buffers : k₁.buffer = k₂.buffer := by
    have same := first.buffer.symm.trans second.buffer
    injection same with _ same
    injection same
  rcases k₁ with ⟨port, buffer, pending, modifiers, pushed⟩
  rcases k₂ with ⟨port', buffer', pending', modifiers', pushed'⟩
  simp only [Keyboard.mk.injEq]
  exact ⟨first.port.trans second.port.symm, buffers, first.pending.trans second.pending.symm,
    first.modifiers.trans second.modifiers.symm, first.pushed.trans second.pushed.symm⟩

/-- Batches after which the controller is empty lead there. -/
theorem deliver_drainedTo (h : keyboard.Queue q) {batches : List (List UInt8)}
    (run : deliver batches keyboard = .ok () keyboard') (empty : keyboard'.port = []) :
    DrainedTo keyboard keyboard' (keyboard.port ++ batches.flatten) := by
  obtain ⟨k₁, run', handled⟩ := deliver_ok h batches
  have buffer := deliver_buffer h run
  cases run.symm.trans run'
  have read : keyboard.port ++ batches.flatten = bytesRead keyboard.port batches := by
    have split := handled.port
    rw [empty, List.append_nil] at split
    exact split
  rw [read]
  exact ⟨empty, buffer, handled.pending, handled.modifiers, handled.pushed⟩

/-- Batches that bring the same bytes push the same events and end in the same
state once everything is read, and the events decode the bytes of the stream. -/
theorem decoding_ignores_batches (h : keyboard.Queue q) (arriving : List UInt8) :
    ∃ events final,
      List.Forall₂ Decodes events (scanCodes keyboard.previous (keyboard.port ++ arriving)) ∧
      final.pushed = keyboard.pushed ++ events ∧ final.port = [] ∧
      (∃ batches, batches.flatten = arriving ∧ deliver batches keyboard = .ok () final) ∧
      ∀ batches, batches.flatten = arriving →
        ∃ keyboard', deliver batches keyboard = .ok () keyboard' ∧
          (keyboard'.port = [] → keyboard' = final) := by
  have ready : Keyboard.Queue { keyboard with port := keyboard.port ++ arriving } q := h.congr rfl
  -- one call with all bytes, and calls until none is left
  obtain ⟨k₁, first, handled₁⟩ := keyboardHandler_ok ready
  obtain ⟨final, rest, empty⟩ := deliver_drains handled₁.queue (Nat.le_refl _)
  have whole : (arriving :: List.replicate k₁.port.length []).flatten = arriving := by simp
  have run : deliver (arriving :: List.replicate k₁.port.length []) keyboard = .ok () final :=
    (bind_of_ok first).trans rest
  have drained := deliver_drainedTo h run empty
  rw [whole] at drained
  have before : keyboard.previous = some extendedScancodePrefix ↔
      keyboard.extendedPending = true := by
    rw [Keyboard.previous]
    cases keyboard.extendedPending <;> simp
  refine ⟨_, final, driverEvents_decode keyboard.modifiers keyboard.extendedPending _ before,
    drained.pushed, empty, ⟨_, whole, run⟩, ?_⟩
  intro batches same
  obtain ⟨keyboard', run', -⟩ := deliver_ok h batches
  refine ⟨keyboard', run', fun empty' => ?_⟩
  have drained' := deliver_drainedTo h run' empty'
  rw [same] at drained'
  exact drained'.unique drained

theorem rightCtrl_ignores_batches : ∃ keyboard events final,
    keyboardInit Keyboard.boot = .ok () keyboard ∧
      List.Forall₂ Decodes events (scanCodes none [0xE0, 0x1D]) ∧ final.pushed = events ∧
      ∀ batches, batches.flatten = [0xE0, 0x1D] →
        ∃ keyboard', deliver batches keyboard = .ok () keyboard' ∧
          (keyboard'.port = [] → keyboard' = final) := by
  obtain ⟨keyboard, init, empty, port, pending, -, pushed⟩ := keyboardInit_ok
  obtain ⟨events, final, decoded, pushed', -, -, all⟩ :=
    decoding_ignores_batches empty [0xE0, 0x1D]
  have previous : keyboard.previous = none := by
    rw [Keyboard.previous, pending]
    rfl
  rw [previous, port] at decoded
  rw [pushed] at pushed'
  exact ⟨keyboard, events, final, init, decoded, pushed', all⟩

end ArkoiOs

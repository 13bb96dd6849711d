import TownOS.Kernel.Keys

/-!
The console over whole runs (`drivers/keyboard.c`, `file_read`, `sys_readkey`).

What is seen of the console in a run is a list of notes (`ConsoleNote`). From the notes alone it
can be told which characters were returned (`received`), which were produced (`produced`), and
which of these found the ring full (`kept`).

* `keys_in_order`: no key is lost, doubled or reordered, but for those that find the ring full;
* `end_of_input_placed`: where the end of the input stands among the characters;
* `shift_down_iff`: when the flag of the shift keys says what the two keys do.
-/

namespace TownOS

namespace ConsoleNote

/-! ### Notes -/

/-- The characters that were returned. -/
def bytes : ConsoleNote → List UInt8
  | .got l => l
  | _ => []

/-- The character that was produced. -/
def chars : ConsoleNote → List UInt8
  | .typed c => [c]
  | _ => []

/-- The characters that were returned, in the order in which the calls completed. -/
def received (notes : List ConsoleNote) : List UInt8 := notes.flatMap bytes

/-- The characters that the driver produced. -/
def produced (notes : List ConsoleNote) : List UInt8 := notes.flatMap chars

/-- One more note, where some characters were kept and some of them are still pending: a character
that is produced while 127 are pending is dropped. -/
def keep (s : List UInt8 × ℕ) : ConsoleNote → List UInt8 × ℕ
  | .typed c => if s.2 = Kernel.kbdBufferSize - 1 then s else (s.1 ++ [c], s.2 + 1)
  | .got l => (s.1, s.2 - l.length)
  | .ended => s
  | .reported => s

/-- The characters that were produced, without those that were produced while 127 were pending. -/
def kept (notes : List ConsoleNote) : List UInt8 := (notes.foldl keep ([], 0)).1

/-- The number of characters that were kept and not returned yet. -/
def waiting (notes : List ConsoleNote) : ℕ := (notes.foldl keep ([], 0)).2

variable {notes : List ConsoleNote}

lemma received_append (l l' : List ConsoleNote) : received (l ++ l') = received l ++ received l' :=
  List.flatMap_append

lemma produced_append (l l' : List ConsoleNote) : produced (l ++ l') = produced l ++ produced l' :=
  List.flatMap_append

lemma ledger_concat (notes : List ConsoleNote) (x : ConsoleNote) :
    (kept (notes ++ [x]), waiting (notes ++ [x])) = keep (kept notes, waiting notes) x := by
  rw [kept, waiting, List.foldl_concat]
  rfl

lemma waiting_le_length (notes : List ConsoleNote) : waiting notes ≤ notes.length := by
  induction notes using List.reverseRecOn with
  | nil => exact le_rfl
  | append_singleton notes x ih =>
    have hx := congrArg Prod.snd (ledger_concat notes x)
    dsimp only at hx
    rw [hx, List.length_append, List.length_singleton]
    cases x with
    | typed c =>
      rw [keep]
      split_ifs
      · exact ih.trans (Nat.le_succ _)
      · exact Nat.succ_le_succ ih
    | got l => exact (Nat.sub_le _ _).trans (ih.trans (Nat.le_succ _))
    | ended | reported => exact ih.trans (Nat.le_succ _)

/-- No character is produced while 127 are pending. -/
def Roomy (notes : List ConsoleNote) : Prop :=
  ∀ a c b, notes = a ++ .typed c :: b → waiting a ≠ Kernel.kbdBufferSize - 1

lemma Roomy.left {l l' : List ConsoleNote} (h : Roomy (l ++ l')) : Roomy l := by
  rintro a c b rfl
  exact h a c (b ++ l') (by simp)

/-- So it is when there are few notes. -/
lemma roomy_of_length_lt (h : notes.length < Kernel.kbdBufferSize) : Roomy notes := by
  rintro a c b rfl
  have hle := waiting_le_length a
  rw [List.length_append, List.length_cons] at h
  omega

/-- Then all characters are kept. -/
lemma Roomy.kept (h : Roomy notes) : kept notes = produced notes := by
  induction notes using List.reverseRecOn with
  | nil => rfl
  | append_singleton notes x ih =>
    have hx := congrArg Prod.fst (ledger_concat notes x)
    dsimp only at hx
    rw [hx, produced_append, ← ih h.left]
    cases x with
    | typed c =>
      rw [keep, if_neg (h notes c [] rfl)]
      rfl
    | got l | ended | reported => exact (List.append_nil _).symm

end ConsoleNote

namespace Kernel

open Runs ConsoleNote

variable {k : Kernel} {kb kb' : Keyboard} {notes new : List ConsoleNote}

/-! ### The queue -/

/-- What was returned and what is in the ring are what was kept. -/
structure InOrder (kb : Keyboard) (notes : List ConsoleNote) : Prop where
  stream : received notes ++ kb.pending = kept notes
  waiting : waiting notes = kb.pending.length

lemma KeyFlow.inOrder (hflow : KeyFlow kb kb' new) (h : InOrder kb notes) :
    InOrder kb' (notes ++ new) := by
  have hkeep := ledger_concat notes
  cases hflow with
  | still hkb =>
    rw [List.append_nil]
    exact ⟨hkb ▸ h.stream, hkb ▸ h.waiting⟩
  | ended hkb =>
    have hx := hkeep .ended
    rw [keep, Prod.mk.injEq] at hx
    refine ⟨?_, ?_⟩
    · rw [hx.1, ← h.stream, hkb, received_append]
      simp [received, bytes]
    · rw [hx.2, h.waiting, hkb]
  | typed c hkb =>
    have hx := hkeep (.typed c)
    rw [keep, h.waiting] at hx
    have hreceived : received (notes ++ [.typed c]) = received notes := by
      rw [received_append]
      exact List.append_nil _
    by_cases hfull : kb.pending.length = kbdBufferSize - 1
    · rw [if_pos hfull, Prod.mk.injEq] at hx
      rw [if_pos hfull] at hkb
      exact ⟨by rw [hx.1, hreceived, hkb, h.stream], by rw [hx.2, hkb]⟩
    · rw [if_neg hfull, Prod.mk.injEq] at hx
      rw [if_neg hfull] at hkb
      refine ⟨?_, ?_⟩
      · rw [hx.1, hreceived, hkb, ← h.stream, List.append_assoc]
      · rw [hx.2, hkb, List.length_append, List.length_singleton]
  | got l hkb =>
    have hx := hkeep (.got l)
    rw [keep, Prod.mk.injEq] at hx
    refine ⟨?_, ?_⟩
    · rw [hx.1, ← h.stream, hkb, received_append, ← List.append_assoc]
      simp [received, bytes]
    · rw [hx.2, h.waiting, hkb, List.length_append, Nat.add_sub_cancel_left]
  | reported hempty hkb =>
    have hx := hkeep .reported
    rw [keep, Prod.mk.injEq] at hx
    refine ⟨?_, ?_⟩
    · rw [hx.1, ← h.stream, hkb, hempty, received_append]
      simp [received, bytes]
    · rw [hx.2, h.waiting, hkb, hempty]

/-- What a run shows of the console. -/
structure Honest (notes : List ConsoleNote) : Prop where
  /-- At any time, what was returned is the beginning of what was kept. -/
  begins : ∀ a b, notes = a ++ b → received a <+: kept a
  /-- The end of the input is reported when all that was kept has been returned. -/
  drained : ∀ a b, notes = a ++ .reported :: b → received a = kept a

lemma KeyFlow.honest (hflow : KeyFlow kb kb' new) (h : InOrder kb notes) (hh : Honest notes) :
    Honest (notes ++ new) := by
  have hbegins : received (notes ++ new) <+: kept (notes ++ new) := ⟨_, (hflow.inOrder h).stream⟩
  obtain rfl | ⟨x, rfl⟩ : new = [] ∨ ∃ x, new = [x] := by
    cases hflow
    · exact .inl rfl
    all_goals exact .inr ⟨_, rfl⟩
  · rw [List.append_nil]
    exact hh
  refine ⟨fun a b hab => ?_, fun a b hab => ?_⟩
  · obtain rfl | ⟨b, y, rfl⟩ := List.eq_nil_or_concat b
    · rw [List.append_nil] at hab
      exact hab ▸ hbegins
    · rw [List.concat_eq_append, ← List.append_assoc] at hab
      exact hh.begins a b (List.append_inj_left' hab rfl)
  · obtain rfl | ⟨b, y, rfl⟩ := List.eq_nil_or_concat b
    · obtain ⟨rfl, hx⟩ := List.append_inj' hab rfl
      obtain rfl := List.singleton_inj.1 hx
      cases hflow with
      | reported hempty hkb =>
        rw [← h.stream, hempty, List.append_nil]
    · rw [List.concat_eq_append, ← List.cons_append, ← List.append_assoc] at hab
      exact hh.drained a b (List.append_inj_left' hab rfl)

variable {image : Image} {r : Regs} {es : List Event}

/-- What is seen of the console in a run. -/
def seen (image : Image) (r : Regs) (es : List Event) : List ConsoleNote :=
  outputs step observed (boot image r) es

lemma honest_of_run (hrun : Runs.exec step (boot image r) es = some k) :
    InOrder k.keyboard (seen image r es) ∧ Honest (seen image r es) := by
  rw [seen]
  induction es using List.reverseRecOn generalizing k with
  | nil =>
    obtain rfl := Option.some.inj hrun
    have hempty : (boot image r).keyboard.pending = [] :=
      pending_of_gone (wakeful_boot image r).keys rfl
    refine ⟨⟨by rw [hempty]; rfl, by rw [hempty]; rfl⟩, fun a b hab => ?_, fun a b hab => ?_⟩
    · obtain ⟨rfl, -⟩ := List.append_eq_nil_iff.1 hab.symm
      exact List.nil_prefix
    · exact absurd hab.symm (by simp [outputs])
  | append_singleton es e ih =>
    obtain ⟨k₁, k₂, hbefore, hk₂, rfl⟩ := exists_handled_of_concat hrun
    obtain ⟨hrot, -, hwake⟩ := run_wakeful hbefore
    obtain ⟨t, ht, -⟩ := hrot.current
    obtain ⟨horder, hhonest⟩ := ih hbefore
    obtain ⟨hflow, -⟩ := keyboard_handled ht hwake.keys hk₂
    rw [outputs_concat _ hbefore, switches_keyboard.leave]
    exact ⟨hflow.inOrder horder, hflow.honest horder hhonest⟩

/-- **No key is lost, doubled or reordered.** For every run: the characters that SYS_READKEYs and
SYS_READs on the console have returned, in the order in which the calls completed, followed by those
in the ring, are the characters that the driver produced, in their order, without those produced
while 127 were pending; and no more than 127 ever are. -/
theorem keys_in_order (hrun : Runs.exec step (boot image r) es = some k) :
    received (seen image r es) ++ k.keyboard.pending = kept (seen image r es) ∧
      k.keyboard.pending.length = waiting (seen image r es) ∧
      k.keyboard.pending.length ≤ kbdBufferSize - 1 := by
  obtain ⟨horder, -⟩ := honest_of_run hrun
  obtain ⟨-, -, hwake⟩ := run_wakeful hrun
  refine ⟨horder.stream, horder.waiting.symm, ?_⟩
  rw [length_pending]
  exact Nat.le_pred_of_lt hwake.keys.valid.used_lt

end Kernel

/-- An `a`, Ctrl-D, and then two reads of one byte. -/
def promptRun : List Event :=
  [.key 0x1E, .key 0x1D, .key 0x20, .key 0x9D,
    loadCall 11 0 0x500000 1 0x800000 intMem, .syscall noAnswers,
    loadCall 11 0 0x500000 1 0x800000 intMem, .syscall noAnswers]

/-- The `a` is returned, and nothing is left in the ring. -/
theorem keys_in_order_promptRun :
    ∃ k, Runs.exec Kernel.step (boot intImage {}) promptRun = some k ∧
      ConsoleNote.received (Kernel.seen intImage {} promptRun) ++ k.keyboard.pending =
        ConsoleNote.kept (Kernel.seen intImage {} promptRun) := by
  have hrun : (Runs.exec Kernel.step (boot intImage {}) promptRun).isSome = true := by
    decide +kernel
  obtain ⟨k, hk⟩ := Option.isSome_iff_exists.mp hrun
  exact ⟨k, hk, (Kernel.keys_in_order hk).1⟩

/-! ### The end of the input -/

namespace ConsoleNote

/-- What was typed before a Ctrl-D has been returned when an end of the input is reported. -/
def BeforeEnd (notes : List ConsoleNote) : Prop :=
  ∀ a b c, notes = a ++ .ended :: b ++ .reported :: c → produced a <+: received (a ++ .ended :: b)

/-- Until an end of the input is reported after a Ctrl-D, nothing typed after it is returned. -/
def AfterEnd (notes : List ConsoleNote) : Prop :=
  ∀ a b c, notes = a ++ .ended :: b ++ c → .reported ∉ b →
    received (a ++ .ended :: b) <+: produced a

/-- Nothing is typed after a Ctrl-D until an end of the input is reported. -/
def Quiet (notes : List ConsoleNote) : Prop :=
  ∀ a b c d, notes = a ++ .ended :: b ++ .typed c :: d → .reported ∈ b

/-- A character among the notes is one that was produced. -/
lemma exists_typed_of_produced {notes : List ConsoleNote} (h : produced notes ≠ []) :
    ∃ a c b, notes = a ++ .typed c :: b := by
  obtain ⟨c, hc⟩ := List.exists_mem_of_ne_nil _ h
  obtain ⟨x, hx, hc⟩ := List.mem_flatMap.1 hc
  cases x with
  | typed d =>
    obtain ⟨a, b, hab⟩ := List.append_of_mem hx
    exact ⟨a, d, b, hab⟩
  | got l | ended | reported => cases hc

end ConsoleNote

namespace Kernel

open Runs ConsoleNote

variable {k : Kernel} {notes : List ConsoleNote} {image : Image} {r : Regs} {es : List Event}

lemma Honest.beforeEnd (h : Honest notes) (hroom : Roomy notes) : BeforeEnd notes := by
  rintro a b c rfl
  rw [h.drained _ c rfl, hroom.left.kept, produced_append]
  exact List.prefix_append _ _

lemma Honest.afterEnd (h : Honest notes) (hroom : Roomy notes) (hquiet : Quiet notes) :
    AfterEnd notes := by
  rintro a b c rfl hb
  have hnone : produced b = [] := by
    by_contra hne
    obtain ⟨b₁, ch, b₂, rfl⟩ := exists_typed_of_produced hne
    exact hb (List.mem_append_left _ (hquiet a b₁ ch (b₂ ++ c) (by simp)))
  have hbegins := h.begins _ c rfl
  rw [hroom.left.kept, produced_append] at hbegins
  have hchars : produced (.ended :: b) = [] := hnone
  rwa [hchars, List.append_nil] at hbegins

/-- The other way around, when the reader has got everything. -/
lemma Honest.quiet (h : Honest notes) (hroom : Roomy notes) (hall : received notes = kept notes)
    (hafter : AfterEnd notes) : Quiet notes := by
  rintro a b c d rfl
  by_contra hb
  -- up to the next report, or to the end, everything has been returned, the character as well
  obtain ⟨d₁, d₂, hd, hreport, hdrained⟩ : ∃ d₁ d₂, d = d₁ ++ d₂ ∧ .reported ∉ d₁ ∧
      received (a ++ .ended :: (b ++ .typed c :: d₁)) =
        kept (a ++ .ended :: (b ++ .typed c :: d₁)) := by
    by_cases hd : .reported ∈ d
    · obtain ⟨d₁, d₂, rfl, hfirst⟩ := List.eq_append_cons_of_mem hd
      exact ⟨d₁, .reported :: d₂, rfl, hfirst, h.drained _ d₂ (by simp)⟩
    · refine ⟨d, [], (List.append_nil d).symm, hd, ?_⟩
      simpa using hall
  subst hd
  have hsplit : a ++ .ended :: b ++ .typed c :: (d₁ ++ d₂) =
      a ++ .ended :: (b ++ .typed c :: d₁) ++ d₂ := by simp
  have hnone : .reported ∉ b ++ .typed c :: d₁ := by simp [hb, hreport]
  have hprefix := hafter _ _ _ hsplit hnone
  rw [hsplit] at hroom
  rw [hdrained, hroom.left.kept, produced_append] at hprefix
  have hlen := hprefix.length_le
  have hchars : produced (.ended :: (b ++ .typed c :: d₁)) = produced b ++ c :: produced d₁ :=
    produced_append b (.typed c :: d₁)
  rw [List.length_append, hchars, List.length_append, List.length_cons] at hlen
  omega

/-- **Where the end of the input stands.** For every run in which no character finds the ring full:
what was typed before a Ctrl-D has been returned when the end is reported. And nothing typed after
it is returned before that, if nothing is typed between a Ctrl-D and the report; once the readers
have got everything, only if. -/
theorem end_of_input_placed (hrun : Runs.exec step (boot image r) es = some k)
    (hroom : Roomy (seen image r es)) :
    BeforeEnd (seen image r es) ∧ (Quiet (seen image r es) → AfterEnd (seen image r es)) ∧
      (k.keyboard.pending = [] → (AfterEnd (seen image r es) ↔ Quiet (seen image r es))) := by
  obtain ⟨horder, hhonest⟩ := honest_of_run hrun
  refine ⟨hhonest.beforeEnd hroom, hhonest.afterEnd hroom, fun hempty =>
    ⟨hhonest.quiet hroom ?_, hhonest.afterEnd hroom⟩⟩
  rw [← horder.stream, hempty, List.append_nil]

end Kernel

/-- Nothing is typed after the Ctrl-D, and the `a` is returned before the end of the input. -/
theorem end_of_input_placed_promptRun :
    ∃ k, Runs.exec Kernel.step (boot intImage {}) promptRun = some k ∧
      Kernel.seen intImage {} promptRun = [.typed 97, .ended, .got [97], .reported] ∧
      ConsoleNote.AfterEnd (Kernel.seen intImage {} promptRun) := by
  have hrun : (Runs.exec Kernel.step (boot intImage {}) promptRun).isSome = true := by
    decide +kernel
  have hseen : Kernel.seen intImage {} promptRun = [.typed 97, .ended, .got [97], .reported] := by
    decide +kernel
  obtain ⟨k, hk⟩ := Option.isSome_iff_exists.mp hrun
  have hroom : ConsoleNote.Roomy (Kernel.seen intImage {} promptRun) :=
    ConsoleNote.roomy_of_length_lt (by rw [hseen]; decide)
  have hquiet : ConsoleNote.Quiet (Kernel.seen intImage {} promptRun) := by
    rw [hseen]
    intro a b c d h
    -- the only character is the first note
    have hmem : ConsoleNote.typed c ∈ [.ended, .got [97], .reported] := by
      rcases a with _ | ⟨x, a⟩
      · cases h
      · have htail := (List.cons.inj h).2
        rw [htail]
        simp
    simp at hmem
  exact ⟨k, hk, hseen, (Kernel.end_of_input_placed hk hroom).2.1 hquiet⟩

/-- The keys of Ctrl-D and of an `a`, and then two reads of one byte. -/
def lateKeyRun : List Event :=
  [.key 0x1D, .key 0x20, .key 0x9D, .key 0x1E,
    loadCall 11 0 0x500000 1 0x800000 intMem, .syscall noAnswers,
    loadCall 11 0 0x500000 1 0x800000 intMem, .syscall noAnswers]

/-- The `a` that was typed after Ctrl-D is returned before the end of the input. -/
theorem end_of_input_late :
    Kernel.seen intImage {} lateKeyRun = [.ended, .typed 97, .got [97], .reported] ∧
      (Runs.exec Kernel.step (boot intImage {}) lateKeyRun).isSome = true ∧
      ¬ ConsoleNote.AfterEnd [.ended, .typed 97, .got [97], .reported] := by
  refine ⟨by decide +kernel, by decide +kernel, fun hafter => ?_⟩
  have hprefix := hafter [] [.typed 97, .got [97]] [.reported] rfl (by decide)
  exact absurd hprefix (by decide)

/-! ### Shift -/

namespace Keyboard

/-- The last code of one of some keys is that of a press. -/
def down (keys codes : List UInt8) : Bool :=
  (codes.reverse.find? fun c => c &&& 0x7F ∈ keys).any fun c => c &&& 0x80 = 0

lemma down_concat (keys codes : List UInt8) (c : UInt8) :
    down keys (codes ++ [c]) = heldAfter keys (down keys codes) c := by
  rw [down, List.reverse_concat, List.find?_cons, heldAfter]
  by_cases hc : c &&& 0x7F ∈ keys
  · rw [decide_eq_true hc, if_pos hc]
    rfl
  · rw [decide_eq_false hc, if_neg hc]
    rfl

/-- One of two keys is held if the flag for both says so. -/
lemma down_or_of_down {x y : UInt8} {codes : List UInt8} (h : down [x, y] codes = true) :
    (down [x] codes || down [y] codes) = true := by
  induction codes using List.reverseRecOn with
  | nil => cases h
  | append_singleton codes c ih =>
    rw [down_concat, heldAfter] at h
    rw [down_concat, down_concat, heldAfter, heldAfter]
    simp only [List.mem_cons, List.not_mem_nil, or_false] at h ⊢
    by_cases hx : c &&& 0x7F = x
    · rw [if_pos (.inl hx)] at h
      rw [if_pos hx, h, Bool.true_or]
    by_cases hy : c &&& 0x7F = y
    · rw [if_pos (.inr hy)] at h
      rw [if_pos hy, h, Bool.or_true]
    · rw [if_neg (not_or.2 ⟨hx, hy⟩)] at h
      rw [if_neg hx, if_neg hy]
      exact ih h

/-- Caps lock was pressed an odd number of times. -/
def toggled (codes : List UInt8) : Bool := codes.count 0x3A % 2 = 1

/-- The character that the tables give for a key. -/
def tableChar (shift caps : Bool) (c : UInt8) : UInt8 :=
  let plain := Kernel.scancodeToAscii.getD c.toNat 0
  let isLetter := 97 ≤ plain ∧ plain ≤ 122
  if (if isLetter then shift != caps else shift) then Kernel.scancodeToAsciiShift.getD c.toNat 0
  else plain

/-- The character that a code gives after some codes, if shift is what the two keys say. -/
def expected (codes : List UInt8) (c : UInt8) : Option UInt8 :=
  if IsModifier c ∨ down [0x1D] codes = true then none
  else
    let char := tableChar (down [0x2A] codes || down [0x36] codes) (toggled codes) c
    if char = 0 then none else some char

/-- A shift key is down, although the last that was heard of the two was a release. -/
def Overlapped (codes : List UInt8) : Prop :=
  (down [0x2A] codes || down [0x36] codes) = true ∧ down [0x2A, 0x36] codes = false

end Keyboard

namespace Kernel

open Runs Keyboard

variable {k : Kernel} {image : Image} {r : Regs} {es : List Event}

/-- The scancodes of a run. -/
def codesOf (es : List Event) : List UInt8 := es.flatMap Event.scancodes

/-- The modifiers are what the scancodes say. -/
lemma modifiers_of_run (hrun : Runs.exec step (boot image r) es = some k) :
    k.keyboard.modifiers =
      (down [0x2A, 0x36] (codesOf es), toggled (codesOf es), down [0x1D] (codesOf es)) := by
  induction es using List.reverseRecOn generalizing k with
  | nil =>
    obtain rfl := Option.some.inj hrun
    rfl
  | append_singleton es e ih =>
    obtain ⟨k₁, k₂, hrun₁, hk₂, rfl⟩ := exists_handled_of_concat hrun
    obtain ⟨hrot, -, hwake⟩ := run_wakeful hrun₁
    obtain ⟨t, ht, -⟩ := hrot.current
    obtain ⟨-, hmods⟩ := keyboard_handled ht hwake.keys hk₂
    have hbefore := ih hrun₁
    rw [switches_keyboard.leave, hmods, codesOf, List.flatMap_append, List.flatMap_singleton,
      ← codesOf]
    cases e with
    | key c =>
      rw [Keyboard.modifiers, Prod.mk.injEq, Prod.mk.injEq] at hbefore
      obtain ⟨hshift, hcaps, hctrl⟩ := hbefore
      have hcount : toggled (codesOf es ++ [c]) =
          if c = 0x3A then !toggled (codesOf es) else toggled (codesOf es) := by
        rw [toggled, toggled, List.count_append, List.count_singleton]
        by_cases hc : c = 0x3A
        · rw [if_pos hc]
          simp only [hc, beq_self_eq_true, if_true]
          have hodd := Nat.mod_two_eq_zero_or_one ((codesOf es).count 0x3A)
          rcases hodd with h | h <;> simp [Nat.add_mod, h]
        · simp [hc]
      rw [Event.scancodes, down_concat, down_concat, hcount, ← hshift, ← hcaps, ← hctrl]
      rfl
    | user r mem | syscall a | timer | irq v =>
      dsimp only [Event.scancodes]
      rw [List.append_nil]
      exact hbefore

/-- **Shift means that a shift key is down, unless the two overlap.** For every run: each
key gives the character of the tables for the two shift keys, caps lock and left ctrl,
exactly when no shift key is still down after a release of the other one, or left ctrl is
down. -/
theorem shift_down_iff (hrun : Runs.exec step (boot image r) es = some k) :
    (∀ c, k.keyboard.produced c = expected (codesOf es) c) ↔
      ¬ (Overlapped (codesOf es) ∧ down [0x1D] (codesOf es) = false) := by
  have hmods := modifiers_of_run hrun
  rw [Keyboard.modifiers, Prod.mk.injEq, Prod.mk.injEq] at hmods
  obtain ⟨hshift, hcaps, hctrl⟩ := hmods
  generalize codesOf es = codes at hshift hcaps hctrl
  have htable : ∀ c : UInt8, tableFor k.keyboard c.toNat =
      tableChar (down [0x2A, 0x36] codes) (toggled codes) c := by
    intro c
    rw [tableFor, hshift, hcaps]
    rfl
  have hproduced : ∀ c, k.keyboard.produced c =
      if IsModifier c ∨ down [0x1D] codes = true then none
      else if tableChar (down [0x2A, 0x36] codes) (toggled codes) c = 0 then none
      else some (tableChar (down [0x2A, 0x36] codes) (toggled codes) c) := by
    intro c
    rw [Keyboard.produced, htable, hctrl]
  constructor
  · rintro hall ⟨⟨hheld, hflag⟩, hup⟩
    -- the key of 1 and !
    have hone := hall 2
    have hmod : ¬ (IsModifier 2 ∨ down [0x1D] codes = true) := by
      rw [hup]
      decide
    rw [hproduced, expected, if_neg hmod, if_neg hmod, hflag, hheld] at hone
    generalize toggled codes = caps at hone
    revert hone
    cases caps <;> decide
  · intro hno c
    rw [hproduced, expected]
    by_cases hctrl : down [0x1D] codes = true
    · rw [if_pos (.inr hctrl), if_pos (.inr hctrl)]
    have hsame : (down [0x2A] codes || down [0x36] codes) = down [0x2A, 0x36] codes := by
      cases hflag : down [0x2A, 0x36] codes with
      | true => exact down_or_of_down hflag
      | false =>
        by_contra hheld
        exact hno ⟨⟨Bool.eq_true_of_not_eq_false hheld, hflag⟩, Bool.eq_false_of_not_eq_true hctrl⟩
    rw [hsame]

end Kernel

/-- The left shift key is down, and the other one was never pressed. -/
theorem shift_down_iff_leftShift :
    ∃ k, Runs.exec Kernel.step (boot intImage {}) [.key 0x2A] = some k ∧
      ∀ c, k.keyboard.produced c = Keyboard.expected (Kernel.codesOf [.key 0x2A]) c := by
  have hrun : (Runs.exec Kernel.step (boot intImage {}) [.key 0x2A]).isSome = true := by
    decide +kernel
  obtain ⟨k, hk⟩ := Option.isSome_iff_exists.mp hrun
  exact ⟨k, hk, (Kernel.shift_down_iff hk).2 fun h => absurd h.1.2 (by decide)⟩

/-- Both shift keys are pressed and the left one is released; then the key of `a`. -/
theorem shift_up_early :
    Runs.outputs Kernel.step Kernel.observed (boot intImage {})
        [.key 0x2A, .key 0x36, .key 0xAA, .key 0x1E] = [.typed 97] ∧
      Keyboard.expected [0x2A, 0x36, 0xAA] 0x1E = some 65 := by
  decide +kernel

end TownOS

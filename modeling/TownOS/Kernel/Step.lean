import TownOS.Kernel.Syscall
import TownOS.Foundations.Runs

/-!
The machine step by step (`kernel/isr.c`, `kernel/isr_stubs.asm`, `kernel/kernel.c`).

Between two steps the CPU is about to execute an instruction of the current task in
ring 3, or it is parked in `idle_until_runnable`. An event is an instruction of ring
3, a system call or an interrupt, and the step is everything the kernel does about it
until it returns to ring 3 or parks the CPU: `handled` is the handler, and `leave` is
the call of `check_signals` that ends `irq_handler` and `syscall_handler`.

Of ring 3 nothing is assumed but what the CPU enforces: an instruction may change the
registers and the memory of its task in any way, except for the selectors, the I/O
privilege level and, at privilege level 0, the interrupt flag; and `int 0x50` enters the
kernel. A CPU exception halts the machine, so it is the end of a run.
-/

namespace TownOS

/-- What the CPU meets next. -/
inductive Event where
  /-- An instruction of ring 3, with the registers and the memory it leaves. -/
  | user (r : Regs) (mem : ℕ → UInt8)
  /-- `int 0x50`. -/
  | syscall (a : Answers)
  | timer
  | key (scancode : UInt8)
  /-- An interrupt without a handler of its own. -/
  | irq (vector : Word)

/-- What ring 3 may do to its registers. -/
def Regs.UserStep (r r' : Regs) : Prop :=
  r'.cs = r.cs ∧ r'.ss = r.ss ∧ r'.iopl = r.iopl ∧ (r.iopl = 0 → r'.interrupts = r.interrupts)

instance (r r' : Regs) : Decidable (r.UserStep r') := inferInstanceAs (Decidable (_ ∧ _ ∧ _ ∧ _))

/-- The instruction `int 0x50` stands at an address. -/
def AtInt (m : ℕ → UInt8) (rip : Word) : Prop := m rip.toNat = 0xCD ∧ m (rip.toNat + 1) = 0x50

instance (m : ℕ → UInt8) (rip : Word) : Decidable (AtInt m rip) :=
  inferInstanceAs (Decidable (_ ∧ _))

namespace Kernel

/-- The stub pushes the registers, and `check_signals` is to be called before it pops them
again. -/
def enter (k : Kernel) (vector rip : Word) : Kernel :=
  { k with pile := { k.pile with intNo := vector, errCode := 0, rip := rip }, checkDue := true }

/-- An instruction of ring 3. -/
def userStep (k : Kernel) (r : Regs) (mem : ℕ → UInt8) : Kernel :=
  (k.setPile r).modifyCurrent fun t => { t with mem := mem }

/-- What the kernel does about an event, up to the call of `check_signals`. -/
def handled (k : Kernel) : Event → Option Kernel
  | .user r mem =>
    if !k.idling ∧ k.pile.UserStep r ∧ ¬AtInt k.mem k.pile.rip then some (k.userStep r mem)
    else none
  | .syscall a =>
    if !k.idling ∧ AtInt k.mem k.pile.rip then
      some (syscallBody (k.enter 0x50 (k.pile.rip + intInstrLen)) a)
    else none
  | .timer => some (if k.idling then resume k else schedule (k.enter 0x40 k.pile.rip))
  | .key c =>
    some (if k.idling then resume (keyboardCallback k c)
      else keyboardCallback (k.enter 0x41 k.pile.rip) c)
  | .irq v => some (if k.idling then resume k else k.enter v k.pile.rip)

/-- The way out of the kernel. -/
def leave (k : Kernel) : Kernel :=
  if k.idling ∨ !k.checkDue then k else checkSignals { k with checkDue := false }

/-- One step of the machine. -/
def step (k : Kernel) (e : Event) : Option Kernel := (k.handled e).map leave

end Kernel

/-- The machine after `scheduler_start`, with the registers `enter_user_mode` happens to
leave. -/
def boot (image : Image) (r : Regs) : Kernel where
  tasks := [some { freshTask image 0 none 0 consoleFds with state := .running }]
  current := 0
  cr3 := image.cr3
  pile :=
    { r with
      rip := image.entry
      userRsp := userStackTop
      cs := userCode
      ss := userData
      rflags := userModeRflags }
  foregroundPgid := 0
  pipes := []
  keyboard := ⟨⟨fun _ => 0, 0, 0⟩, false, false, false, false⟩
  idling := false
  checkDue := false
  loaded := 0
  calls := []
  touched := []
  lives := [.registered 0 none]

end TownOS

import TownOS.Foundations.Requests

/-!
`printf` (`libc/printf.c`, `sys_write_all` of `user/userlib.h`).

What `printf` does to the machine are its SYS_WRITEs, and these are its requests. Its format is
the list of the bytes that may be read, with the NUL; its other arguments are the 64-bit slots
of the `va_list`, and memory for the strings they point to.

`reference` is a formatter for the same conversions that has typed arguments and no buffer.

* `printf_eq`: `printf` puts the text of its format (`formatted`) and flushes, whatever becomes of
  its writes;
* `printf_inside_iff`: it reads past the NUL exactly when it gets to a `%` right before it.
-/

namespace TownOS.Libc

open Requests

/-! ### Writing -/

/-- A SYS_WRITE. -/
structure Write where
  fd : ℕ
  bytes : List UInt8

/-- What a program computes with them; they return a `long`. -/
abbrev User (α : Type) : Type := Prog Write (fun _ => ℤ) α

/-- `sys_write`. -/
def sysWrite (fd : ℕ) (bytes : List UInt8) : User ℤ := Prog.call (A := fun _ => ℤ) ⟨fd, bytes⟩

/-- The loop of `sys_write_all`. Each round writes a byte at least, so there are enough rounds when
there are as many as bytes. -/
def sysWriteAllLoop (fd : ℕ) (buf : List UInt8) : ℕ → ℕ → User ℤ
  | 0, done => pure done
  | rounds + 1, done =>
    if done < buf.length then do
      let w ← sysWrite fd (buf.drop done)
      if w ≤ 0 then pure done else sysWriteAllLoop fd buf rounds (done + w.toNat)
    else pure done

/-- `sys_write_all`. -/
def sysWriteAll (fd : ℕ) (buf : List UInt8) : User ℤ := sysWriteAllLoop fd buf buf.length 0

/-! ### Staging -/

/-- `PRINTF_STAGE`. -/
def printfStage : ℕ := 128

/-- `out_t`. -/
structure Out where
  buf : ℕ → UInt8
  len : ℕ
  total : ℕ
  failed : Bool

/-- The bytes that are staged. -/
def Out.staged (o : Out) : List UInt8 := (List.range o.len).map o.buf

/-- `flush`. -/
def flush (o : Out) : User Out :=
  if o.len = 0 then pure o
  else do
    let w ← sysWriteAll 1 o.staged
    pure
      { o with
        failed := o.failed || decide (w < 0 ∨ w.toNat < o.len)
        total := if 0 < w then (o.total + w.toNat) % 2 ^ 64 else o.total
        len := 0 }

/-- A byte is stored in the buffer. -/
def Out.push (o : Out) (c : UInt8) : Out :=
  { o with buf := Function.update o.buf o.len c, len := o.len + 1 }

/-- `out_t` at the start. -/
def Out.start : Out := ⟨fun _ => 0, 0, 0, false⟩

/-- `put`. -/
def put (o : Out) (c : UInt8) : User Out :=
  if o.len = printfStage then do
    let o ← flush o
    pure (o.push c)
  else pure (o.push c)

/-- Some calls of `put`, one after the other. -/
def putEach : Out → List UInt8 → User Out
  | o, [] => pure o
  | o, c :: cs => do
      let o ← put o c
      putEach o cs

/-! ### Conversions -/

/-- `d < 10 ? '0' + d : 'a' + (d - 10)`. -/
def digit (d : ℕ) : UInt8 := if d < 10 then UInt8.ofNat (48 + d) else UInt8.ofNat (97 + (d - 10))

/-- The first loop of `put_unsigned`: the digits in `tmp`, beginning with the one stored last, while
there is room. -/
def tmpDigits (base : ℕ) : ℕ → ℕ → List UInt8 → List UInt8
  | 0, _, tmp => tmp
  | room + 1, v, tmp =>
    if v / base ≠ 0 then tmpDigits base room (v / base) (digit (v % base) :: tmp)
    else digit (v % base) :: tmp

/-- `put_unsigned`; `tmp` has room for 21. -/
def putUnsigned (o : Out) (v base : ℕ) : User Out := putEach o (tmpDigits base 21 v [])

/-- `USER_CODE_BASE`. -/
def userCodeBase : ℕ := 0x400000

/-- `USER_SPACE_END`. -/
def userSpaceEnd : ℕ := 0xA00000

/-- `user_pointer_ok`. -/
def UserPointerOk (a : ℕ) : Prop := userCodeBase ≤ a ∧ a < userSpaceEnd

instance decidableUserPointerOk (a : ℕ) : Decidable (UserPointerOk a) :=
  inferInstanceAs (Decidable (_ ∧ _))

/-- The loop of `%s`, with the number of bytes up to the end of the space; whether it ran
into it. -/
def putString (mem : ℕ → UInt8) : ℕ → ℕ → Out → User (Out × Bool)
  | 0, _, o => pure (o, true)
  | left + 1, s, o =>
    if mem s = 0 then pure (o, false)
    else do
      let o ← put o (mem s)
      if userSpaceEnd ≤ s + 1 then pure (o, true) else putString mem left (s + 1) o

/-- The cases of the `switch`. -/
inductive Conv where
  | dec
  | udec
  | hex
  | chr
  | str
  | percent
  deriving DecidableEq

/-- Their labels. -/
def Conv.ofByte (b : UInt8) : Option Conv :=
  if b = 100 then some .dec
  else if b = 117 then some .udec
  else if b = 120 then some .hex
  else if b = 99 then some .chr
  else if b = 115 then some .str
  else if b = 37 then some .percent
  else none

/-- `va_arg(ap, int)`. -/
def argInt (slot : ℕ) : ℤ := (BitVec.ofNat 32 slot).toInt

/-- The `switch`, with the number of arguments taken so far: the buffer, this number, and
`stopped`. -/
def convert (mem : ℕ → UInt8) (ap : ℕ → ℕ) (b : UInt8) (k : ℕ) (o : Out) : User (Out × ℕ × Bool) :=
  match Conv.ofByte b with
  | some .dec =>
    if argInt (ap k) < 0 then do
      let o ← put o 45
      let o ← putUnsigned o (-argInt (ap k)).toNat 10
      pure (o, k + 1, false)
    else do
      let o ← putUnsigned o (argInt (ap k)).toNat 10
      pure (o, k + 1, false)
  | some .udec => do
      let o ← putUnsigned o (ap k % 2 ^ 32) 10
      pure (o, k + 1, false)
  | some .hex => do
      let o ← putUnsigned o (ap k % 2 ^ 32) 16
      pure (o, k + 1, false)
  | some .chr => do
      let o ← put o (UInt8.ofNat (ap k))
      pure (o, k + 1, false)
  | some .str =>
    if ¬ UserPointerOk (ap k) then pure (o, k + 1, true)
    else do
      let r ← putString mem (userSpaceEnd - ap k) (ap k) o
      pure (r.1, k + 1, r.2)
  | some .percent => do
      let o ← put o 37
      pure (o, k, false)
  | none => pure (o, k, true)

/-! ### The format -/

/-- The loop of `printf` over its format; `none` when it reads past the bytes of it. The
condition reads a byte before it looks at `stopped`. -/
def formatLoop (mem : ℕ → UInt8) (ap : ℕ → ℕ) :
    List UInt8 → ℕ → Bool → Out → User (Option (Out × Bool))
  | [], _, _, _ => pure none
  | c :: p, k, stopped, o =>
    if c = 0 ∨ stopped = true then pure (some (o, stopped))
    else if c ≠ 37 then do
      let o ← put o c
      formatLoop mem ap p k stopped o
    else
      match p with
      | [] => pure none
      | b :: p => do
          let r ← convert mem ap b k o
          formatLoop mem ap p r.2.1 r.2.2 r.1

section Equations

variable {mem : ℕ → UInt8} {ap : ℕ → ℕ} {c : UInt8} {k : ℕ} {o : Out}

lemma formatLoop_nul (p : List UInt8) (stopped : Bool) :
    formatLoop mem ap (0 :: p) k stopped o = pure (some (o, stopped)) := by
  rw [formatLoop.eq_def]
  exact if_pos (.inl rfl)

lemma formatLoop_stopped (c : UInt8) (p : List UInt8) :
    formatLoop mem ap (c :: p) k true o = pure (some (o, true)) := by
  rw [formatLoop.eq_def]
  exact if_pos (.inr rfl)

lemma formatLoop_byte (h0 : c ≠ 0) (hc : c ≠ 37) (p : List UInt8) :
    formatLoop mem ap (c :: p) k false o = put o c >>= formatLoop mem ap p k false := by
  rw [formatLoop.eq_def]
  simp [h0, hc]

lemma formatLoop_percent (b : UInt8) (p : List UInt8) :
    formatLoop mem ap (37 :: b :: p) k false o =
      convert mem ap b k o >>= fun r => formatLoop mem ap p r.2.1 r.2.2 r.1 := by
  rw [formatLoop.eq_def]
  simp

end Equations

/-- What `printf` returns. -/
def Out.result (o : Out) (stopped : Bool) : ℤ :=
  if o.failed || stopped then -1 else (BitVec.ofNat 32 o.total).toInt

/-- `printf`; `none` when it reads past the bytes of its format. -/
def printf (mem : ℕ → UInt8) (ap : ℕ → ℕ) (fmt : List UInt8) : User (Option ℤ) := do
  match ← formatLoop mem ap fmt 0 false .start with
  | none => pure none
  | some (o, stopped) => do
      let o ← flush o
      pure (some (o.result stopped))

/-! ### The reference -/

/-- A typed argument; a string that can be read, or a pointer that cannot. -/
inductive Arg where
  | int (v : ℤ)
  | uint (v : ℕ)
  | char (c : UInt8)
  | str (s : List UInt8)
  | badPointer

/-- A number in a base. -/
def numeral (base v : ℕ) : List UInt8 :=
  if v = 0 then [digit 0] else ((Nat.digits base v).map digit).reverse

/-- A number with its sign. -/
def signed (v : ℤ) : List UInt8 := if v < 0 then 45 :: numeral 10 v.natAbs else numeral 10 v.natAbs

/-- What a conversion prints, and the arguments that are left; nothing if it stops the format. -/
def Conv.render : Conv → List Arg → Option (List UInt8 × List Arg)
  | .dec, .int v :: args => some (signed v, args)
  | .udec, .uint v :: args => some (numeral 10 v, args)
  | .hex, .uint v :: args => some (numeral 16 v, args)
  | .chr, .char c :: args => some ([c], args)
  | .str, .str s :: args => some (s, args)
  | .percent, args => some ([37], args)
  | _, _ => none

/-- What a format prints, and whether something stopped it. -/
def reference : List UInt8 → List Arg → List UInt8 × Bool
  | [], _ => ([], false)
  | c :: fmt, args =>
    if c ≠ 37 then (c :: (reference fmt args).1, (reference fmt args).2)
    else
      match fmt with
      | [] => ([], true)
      | b :: fmt =>
        match (Conv.ofByte b).bind fun conv => conv.render args with
        | none => ([], true)
        | some (bytes, args) => (bytes ++ (reference fmt args).1, (reference fmt args).2)

lemma reference_byte {c : UInt8} (hc : c ≠ 37) (fmt : List UInt8) (args : List Arg) :
    reference (c :: fmt) args = (c :: (reference fmt args).1, (reference fmt args).2) := by
  rw [reference.eq_def]
  exact if_pos hc

lemma reference_none {b : UInt8} {fmt : List UInt8} {args : List Arg}
    (hr : (Conv.ofByte b).bind (fun conv => conv.render args) = none) :
    reference (37 :: b :: fmt) args = ([], true) := by
  rw [reference.eq_def]
  simp [hr]

lemma reference_some {b : UInt8} {fmt bytes : List UInt8} {args rest : List Arg}
    (hr : (Conv.ofByte b).bind (fun conv => conv.render args) = some (bytes, rest)) :
    reference (37 :: b :: fmt) args =
      (bytes ++ (reference fmt rest).1, (reference fmt rest).2) := by
  rw [reference.eq_def]
  simp [hr]

/-- The next argument is one for the conversion. -/
def Conv.Takes : Conv → List Arg → Prop
  | .dec, .int _ :: _ => True
  | .udec, .uint _ :: _ => True
  | .hex, .uint _ :: _ => True
  | .chr, .char _ :: _ => True
  | .str, .str _ :: _ => True
  | .str, .badPointer :: _ => True
  | .percent, _ => True
  | _, _ => False

/-- The arguments match the format, as far as it gets. -/
def Matches : List UInt8 → List Arg → Prop
  | [], _ => True
  | c :: fmt, args =>
    if c ≠ 37 then Matches fmt args
    else
      match fmt with
      | [] => True
      | b :: fmt =>
        ∀ conv, Conv.ofByte b = some conv →
          conv.Takes args ∧ ∀ r, conv.render args = some r → Matches fmt r.2

/-- The format ends in a `%` that no conversion follows. -/
def endsLone : List UInt8 → Bool
  | [] => false
  | c :: fmt =>
    if c ≠ 37 then endsLone fmt
    else
      match fmt with
      | [] => true
      | _ :: fmt => endsLone fmt

lemma matches_byte {c : UInt8} (hc : c ≠ 37) {fmt : List UInt8} {args : List Arg} :
    Matches (c :: fmt) args ↔ Matches fmt args := by
  rw [Matches.eq_def]
  simp [hc]

lemma matches_percent {b : UInt8} {fmt : List UInt8} {args : List Arg} :
    Matches (37 :: b :: fmt) args ↔ ∀ conv, Conv.ofByte b = some conv →
      conv.Takes args ∧ ∀ r, conv.render args = some r → Matches fmt r.2 := by
  rw [Matches.eq_def]
  simp

lemma endsLone_byte {c : UInt8} (hc : c ≠ 37) (fmt : List UInt8) :
    endsLone (c :: fmt) = endsLone fmt := by
  rw [endsLone.eq_def]
  exact if_pos hc

lemma endsLone_percent (b : UInt8) (fmt : List UInt8) :
    endsLone (37 :: b :: fmt) = endsLone fmt := rfl

/-- Of the conversions that have their argument, only a pointer that cannot be read prints
nothing. -/
lemma Conv.render_eq_none {conv : Conv} {args : List Arg} (htake : conv.Takes args)
    (hr : conv.render args = none) : conv = .str ∧ ∃ rest, args = .badPointer :: rest := by
  cases conv <;> rcases args with _ | ⟨_ | _, _⟩ <;> simp_all [Conv.Takes, Conv.render]

/-- A NUL-terminated string that a program can read. -/
structure CString (mem : ℕ → UInt8) (a : ℕ) (s : List UInt8) : Prop where
  base : userCodeBase ≤ a
  fits : a + s.length < userSpaceEnd
  bytes : ∀ i (hi : i < s.length), mem (a + i) = s[i]
  nonzero : 0 ∉ s
  nul : mem (a + s.length) = 0

/-- A slot of the `va_list` holds an argument. -/
inductive Slot (mem : ℕ → UInt8) (slot : ℕ) : Arg → Prop
  | int : Slot mem slot (.int (argInt slot))
  | uint : Slot mem slot (.uint (slot % 2 ^ 32))
  | char : Slot mem slot (.char (UInt8.ofNat slot))
  | str {s : List UInt8} (h : CString mem slot s) : Slot mem slot (.str s)
  | badPointer (h : ¬ UserPointerOk slot) : Slot mem slot .badPointer

/-- The slots from some slot on hold arguments. -/
def Passed (mem : ℕ → UInt8) (ap : ℕ → ℕ) : ℕ → List Arg → Prop
  | _, [] => True
  | k, a :: args => Slot mem (ap k) a ∧ Passed mem ap (k + 1) args

/-! ### What is put -/

/-- The bytes from an address to the end of the space. -/
def upToEnd (mem : ℕ → UInt8) (a : ℕ) : List UInt8 := (List.range' a (userSpaceEnd - a)).map mem

/-- What a conversion puts for a slot, and whether it stops the format. -/
def Conv.text (mem : ℕ → UInt8) (slot : ℕ) : Conv → List UInt8 × Bool
  | .dec => (signed (argInt slot), false)
  | .udec => (numeral 10 (slot % 2 ^ 32), false)
  | .hex => (numeral 16 (slot % 2 ^ 32), false)
  | .chr => ([UInt8.ofNat slot], false)
  | .str =>
    if UserPointerOk slot then
      ((upToEnd mem slot).takeWhile (· ≠ 0), decide (0 ∉ upToEnd mem slot))
    else ([], true)
  | .percent => ([37], false)

/-- The number of slots that it takes. -/
def Conv.slots : Conv → ℕ
  | .percent => 0
  | _ => 1

/-- How a format ends: at its NUL, where something stops it, or in a `%` right before the NUL. -/
inductive Ending where
  | nul
  | stopped
  | lone
  deriving DecidableEq

/-- The text of a format, with the slots from some slot on, and how it ends. -/
def formatted (mem : ℕ → UInt8) (ap : ℕ → ℕ) : List UInt8 → ℕ → List UInt8 × Ending
  | [], _ => ([], .nul)
  | c :: fmt, k =>
    if c ≠ 37 then (c :: (formatted mem ap fmt k).1, (formatted mem ap fmt k).2)
    else
      match fmt with
      | [] => ([], .lone)
      | b :: fmt =>
        match Conv.ofByte b with
        | none => ([], .stopped)
        | some conv =>
          if (conv.text mem (ap k)).2 = true then ((conv.text mem (ap k)).1, .stopped)
          else
            ((conv.text mem (ap k)).1 ++ (formatted mem ap fmt (k + conv.slots)).1,
              (formatted mem ap fmt (k + conv.slots)).2)

section Formatted

variable {mem : ℕ → UInt8} {ap : ℕ → ℕ} {k : ℕ} {b : UInt8} {fmt : List UInt8} {conv : Conv}

lemma formatted_byte {c : UInt8} (hc : c ≠ 37) :
    formatted mem ap (c :: fmt) k =
      (c :: (formatted mem ap fmt k).1, (formatted mem ap fmt k).2) := by
  rw [formatted.eq_def]
  exact if_pos hc

lemma formatted_lone : formatted mem ap [37] k = ([], .lone) := rfl

lemma formatted_unknown (hb : Conv.ofByte b = none) :
    formatted mem ap (37 :: b :: fmt) k = ([], .stopped) := by
  rw [formatted.eq_def]
  simp [hb]

lemma formatted_stopped (hb : Conv.ofByte b = some conv) (hs : (conv.text mem (ap k)).2 = true) :
    formatted mem ap (37 :: b :: fmt) k = ((conv.text mem (ap k)).1, .stopped) := by
  rw [formatted.eq_def]
  simp [hb, hs]

lemma formatted_conv (hb : Conv.ofByte b = some conv) (hs : (conv.text mem (ap k)).2 = false) :
    formatted mem ap (37 :: b :: fmt) k =
      ((conv.text mem (ap k)).1 ++ (formatted mem ap fmt (k + conv.slots)).1,
        (formatted mem ap fmt (k + conv.slots)).2) := by
  rw [formatted.eq_def]
  simp [hb, hs]

end Formatted

lemma putEach_append (o : Out) (bs cs : List UInt8) :
    putEach o (bs ++ cs) = putEach o bs >>= fun o => putEach o cs := by
  induction bs generalizing o with
  | nil => rfl
  | cons b bs ih =>
    rw [List.cons_append, putEach, putEach, bind_assoc]
    exact congrArg (put o b >>= ·) (funext ih)

/-- The digits in `tmp` are those of the number, if there is room for them. -/
lemma tmpDigits_eq {base : ℕ} (hbase : 1 < base) {room v : ℕ} (hv : v < base ^ room)
    (tmp : List UInt8) (hroom : 0 < room) : tmpDigits base room v tmp = numeral base v ++ tmp := by
  induction room generalizing v tmp with
  | zero => exact absurd hroom (lt_irrefl 0)
  | succ room ih =>
    rw [tmpDigits]
    by_cases hdiv : v / base = 0
    · have hlt : v < base := (Nat.div_eq_zero_iff.1 hdiv).resolve_left (by omega)
      rw [if_neg (not_not_intro hdiv), Nat.mod_eq_of_lt hlt, numeral]
      by_cases hzero : v = 0
      · rw [if_pos hzero, hzero]
        rfl
      · rw [if_neg hzero, Nat.digits_of_lt base v hzero hlt]
        rfl
    · have hlt : v / base < base ^ room := by
        rw [Nat.div_lt_iff_lt_mul (by omega), ← Nat.pow_succ]
        exact hv
      have hpos : 0 < room := by
        by_contra hno
        obtain rfl : room = 0 := by omega
        exact hdiv (Nat.lt_one_iff.1 hlt)
      have hv0 : v ≠ 0 := by
        rintro rfl
        exact hdiv (Nat.zero_div _)
      rw [if_pos hdiv, ih hlt _ hpos, numeral, numeral, if_neg hdiv, if_neg hv0,
        Nat.digits_def' hbase (Nat.pos_of_ne_zero hv0), List.map_cons, List.reverse_cons,
        List.append_assoc]
      rfl

/-- `put_unsigned` puts a number; every `unsigned long` has at most 20 digits. -/
lemma putUnsigned_eq (o : Out) {v base : ℕ} (hbase : 10 ≤ base) (hv : v < 2 ^ 64) :
    putUnsigned o v base = putEach o (numeral base v) := by
  have hroom : v < base ^ 21 := calc
    v < 2 ^ 64 := hv
    _ ≤ 10 ^ 21 := by norm_num
    _ ≤ base ^ 21 := Nat.pow_le_pow_left hbase 21
  rw [putUnsigned, tmpDigits_eq (lt_of_lt_of_le (by norm_num) hbase) hroom [] (by norm_num),
    List.append_nil]

section Puts

variable {mem : ℕ → UInt8} {ap : ℕ → ℕ} {o : Out} {k : ℕ} {b : UInt8} {fmt : List UInt8}
  {conv : Conv}

/-- `%s` puts the bytes up to the NUL, and stops when there is none. -/
lemma putString_eq {left a : ℕ} (hend : a + left = userSpaceEnd) :
    putString mem left a o =
      putEach o (((List.range' a left).map mem).takeWhile (· ≠ 0)) >>= fun o =>
        pure (o, decide (0 ∉ (List.range' a left).map mem)) := by
  induction left generalizing a o with
  | zero => rfl
  | succ left ih =>
    rw [putString, List.range'_succ, List.map_cons]
    by_cases hzero : mem a = 0
    · rw [if_pos hzero, List.takeWhile_cons_of_neg (by simp [hzero])]
      simp [hzero, putEach]
    · have hmem : decide (0 ∉ mem a :: (List.range' (a + 1) left).map mem) =
          decide (0 ∉ (List.range' (a + 1) left).map mem) := by
        simp [Ne.symm hzero]
      rw [if_neg hzero, List.takeWhile_cons_of_pos (by simp [hzero]), putEach, bind_assoc, hmem]
      refine congrArg (put o (mem a) >>= ·) (funext fun o => ?_)
      by_cases hlast : userSpaceEnd ≤ a + 1
      · obtain rfl : left = 0 := by omega
        exact if_pos hlast
      · rw [if_neg hlast]
        exact ih (by omega)

lemma argInt_bounds (slot : ℕ) : -2 ^ 31 ≤ argInt slot ∧ argInt slot < 2 ^ 31 :=
  ⟨BitVec.le_toInt _, BitVec.toInt_lt⟩

/-- The `switch` puts the text of its conversion. -/
lemma convert_eq (hb : Conv.ofByte b = some conv) :
    convert mem ap b k o = putEach o (conv.text mem (ap k)).1 >>= fun o =>
      pure (o, k + conv.slots, (conv.text mem (ap k)).2) := by
  rw [convert, hb]
  cases conv with
  | dec =>
    obtain ⟨hmin, hmax⟩ := argInt_bounds (ap k)
    dsimp only [Conv.text, Conv.slots]
    rw [signed]
    by_cases hneg : argInt (ap k) < 0
    · have habs : (-argInt (ap k)).toNat = (argInt (ap k)).natAbs := by omega
      rw [if_pos hneg, if_pos hneg, habs, putEach, bind_assoc]
      exact congrArg (put o 45 >>= ·) (funext fun o => congrArg (· >>= _)
        (putUnsigned_eq o le_rfl (by omega)))
    · have habs : (argInt (ap k)).toNat = (argInt (ap k)).natAbs := by omega
      rw [if_neg hneg, if_neg hneg, habs, putUnsigned_eq o le_rfl (by omega)]
  | udec =>
    have hlt : ap k % 2 ^ 32 < 2 ^ 64 := by omega
    exact congrArg (· >>= _) (putUnsigned_eq o le_rfl hlt)
  | hex =>
    have hlt : ap k % 2 ^ 32 < 2 ^ 64 := by omega
    exact congrArg (· >>= _) (putUnsigned_eq o (by norm_num) hlt)
  | chr => simp [Conv.text, Conv.slots, putEach]
  | str =>
    dsimp only [Conv.text, Conv.slots]
    by_cases hok : UserPointerOk (ap k)
    · have hend : ap k + (userSpaceEnd - ap k) = userSpaceEnd := Nat.add_sub_cancel' hok.2.le
      rw [if_neg (not_not_intro hok), if_pos hok, putString_eq hend, bind_assoc]
      rfl
    · rw [if_pos hok, if_neg hok]
      rfl
  | percent => simp [Conv.text, Conv.slots, putEach]

/-- What is known of `stopped` after the loop, where some bytes follow the NUL; after a
lone `%`, the condition reads the first of them. -/
def Ending.outcome (rest : List UInt8) : Ending → Option Bool
  | .nul => some false
  | .stopped => some true
  | .lone => rest.head?.map fun _ => true

/-- The loop puts the text of the format. -/
lemma formatLoop_eq (hnul : 0 ∉ fmt) (rest : List UInt8) :
    formatLoop mem ap (fmt ++ 0 :: rest) k false o =
      putEach o (formatted mem ap fmt k).1 >>= fun o =>
        pure (((formatted mem ap fmt k).2.outcome rest).map fun stopped => (o, stopped)) := by
  -- what is left after a conversion that stops has a byte at least, the NUL
  have hstop : ∀ (fmt : List UInt8) k o, formatLoop mem ap (fmt ++ 0 :: rest) k true o =
      pure (some (o, true)) := by
    intro fmt k o
    cases fmt <;> exact formatLoop_stopped _ _
  -- the recursion is that of the text: a byte, or a conversion of two bytes
  induction fmt, k using formatted.induct mem ap generalizing o with
  | case1 k => exact formatLoop_nul rest false
  | case2 c fmt k hc ih =>
    obtain ⟨hne, hnul⟩ := not_or.1 (mt List.mem_cons.2 hnul)
    rw [List.cons_append, formatLoop_byte (Ne.symm hne) hc, formatted_byte hc, putEach, bind_assoc]
    exact congrArg (put o c >>= ·) (funext fun o => ih hnul)
  | case3 c k hc =>
    obtain rfl := not_not.1 hc
    rw [formatted_lone, List.singleton_append, formatLoop_percent]
    cases rest with
    | nil => rfl
    | cons c rest => exact formatLoop_stopped c rest
  | case4 c k hc b fmt hb =>
    obtain rfl := not_not.1 hc
    rw [formatted_unknown hb, List.cons_append, List.cons_append, formatLoop_percent, convert, hb]
    exact hstop fmt k o
  | case5 c k hc b fmt conv hb hs =>
    obtain rfl := not_not.1 hc
    rw [formatted_stopped hb hs, List.cons_append, List.cons_append, formatLoop_percent,
      convert_eq hb, bind_assoc, hs]
    exact congrArg (putEach o _ >>= ·) (funext fun o => hstop fmt _ o)
  | case6 c k hc b fmt conv hb hs ih =>
    obtain rfl := not_not.1 hc
    have hs := Bool.eq_false_of_not_eq_true hs
    have hnul : 0 ∉ fmt := fun h => hnul (List.mem_cons_of_mem _ (List.mem_cons_of_mem _ h))
    rw [formatted_conv hb hs, List.cons_append, List.cons_append, formatLoop_percent,
      convert_eq hb, bind_assoc, hs, putEach_append, bind_assoc]
    exact congrArg (putEach o _ >>= ·) (funext fun o => ih hnul)

/-- What follows the loop. -/
def finish (o : Out) : Option Bool → User (Option ℤ)
  | none => pure none
  | some stopped => do
      let o ← flush o
      pure (some (o.result stopped))

/-- **`printf` puts the text of its format**, and then flushes; some bytes follow the NUL. -/
lemma printf_eq (hnul : 0 ∉ fmt) (rest : List UInt8) :
    printf mem ap (fmt ++ 0 :: rest) =
      putEach .start (formatted mem ap fmt 0).1 >>= fun o =>
        finish o ((formatted mem ap fmt 0).2.outcome rest) := by
  rw [printf, formatLoop_eq hnul, bind_assoc]
  refine congrArg (putEach .start _ >>= ·) (funext fun o => ?_)
  cases (formatted mem ap fmt 0).2.outcome rest <;> rfl

end Puts

/-! ### Runs -/

/-- What has reached descriptor 1, and the number of SYS_WRITEs so far. -/
structure Sink where
  sent : List UInt8
  calls : ℕ

/-- SYS_WRITEs that take a part of the bytes; `pattern` has what each of them would take. -/
def partialWrites (pattern : ℕ → ℕ) (r : Write) (s : Sink) : ℤ × Sink :=
  let w := min (pattern s.calls) r.bytes.length
  (w, ⟨if r.fd = 1 then s.sent ++ r.bytes.take w else s.sent, s.calls + 1⟩)

/-- A run of a part of `printf`. -/
def result {α : Type} (pattern : ℕ → ℕ) (p : User α) (s : Sink) : α × Sink :=
  Requests.exec (partialWrites pattern) p s

section Printf

variable {mem : ℕ → UInt8} {ap : ℕ → ℕ}
variable {bytes fmt : List UInt8} {args rest : List Arg} {b : UInt8} {k : ℕ} {conv : Conv}

/-- A string is the bytes up to the NUL. -/
lemma CString.upToEnd {a : ℕ} {cs : List UInt8} (h : CString mem a cs) :
    ∃ more, upToEnd mem a = cs ++ 0 :: more := by
  have hfits := h.fits
  obtain ⟨n, hn⟩ : ∃ n, userSpaceEnd - a = cs.length + (n + 1) :=
    ⟨userSpaceEnd - a - cs.length - 1, by omega⟩
  have hbytes : (List.range' a cs.length).map mem = cs := by
    refine List.ext_getElem (by simp) fun i _ hi => ?_
    rw [List.getElem_map, List.getElem_range', Nat.one_mul]
    exact h.bytes i hi
  rw [Libc.upToEnd, hn, ← List.range'_append_1, List.range'_succ, List.map_append, List.map_cons,
    hbytes, h.nul]
  exact ⟨_, rfl⟩

lemma CString.text {a : ℕ} {cs : List UInt8} (h : CString mem a cs) :
    Conv.str.text mem a = (cs, false) := by
  have hfits := h.fits
  have hok : UserPointerOk a := ⟨h.base, by omega⟩
  obtain ⟨more, hmore⟩ := h.upToEnd
  have hcs : ∀ c ∈ cs, decide (c ≠ 0) = true := by
    intro c hc
    exact decide_eq_true fun hzero => h.nonzero (hzero ▸ hc)
  rw [Conv.text, if_pos hok, hmore, List.takeWhile_append_of_pos hcs]
  simp

/-- A conversion that renders something puts it and takes its slot. -/
lemma Conv.text_of_render (hpassed : Passed mem ap k args)
    (hr : conv.render args = some (bytes, rest)) :
    conv.text mem (ap k) = (bytes, false) ∧ Passed mem ap (k + conv.slots) rest := by
  cases conv with
  | percent =>
    cases hr
    exact ⟨rfl, hpassed⟩
  | dec | udec | hex | chr | str =>
    obtain _ | ⟨a, args⟩ := args
    · cases hr
    obtain ⟨hslot, hpassed⟩ := hpassed
    cases hslot <;> cases hr
    first
      | exact ⟨rfl, hpassed⟩
      | exact ⟨CString.text ‹_›, hpassed⟩

/-- The text of a format is what the reference gives. -/
lemma formatted_of_matches (hlone : endsLone fmt = false) (hmatch : Matches fmt args)
    (hpassed : Passed mem ap k args) :
    formatted mem ap fmt k =
      ((reference fmt args).1, if (reference fmt args).2 then .stopped else .nul) := by
  -- the recursion is that of the reference: a byte, or a conversion of two bytes
  induction fmt, args using reference.induct generalizing k with
  | case1 args => rfl
  | case2 c fmt args hc ih =>
    rw [endsLone_byte hc] at hlone
    rw [matches_byte hc] at hmatch
    rw [reference_byte hc, formatted_byte hc, ih hlone hmatch hpassed]
  | case3 c args hc =>
    obtain rfl := not_not.1 hc
    cases hlone
  | case4 c args hc b fmt hr =>
    obtain rfl := not_not.1 hc
    rw [matches_percent] at hmatch
    rw [reference_none hr]
    cases hb : Conv.ofByte b with
    | none => exact formatted_unknown hb
    | some conv =>
      rw [hb, Option.bind_some] at hr
      obtain ⟨rfl, rest, rfl⟩ := Conv.render_eq_none (hmatch conv hb).1 hr
      obtain ⟨hslot, -⟩ := hpassed
      cases hslot with
      | badPointer hbad =>
        have htext : Conv.str.text mem (ap k) = ([], true) := if_neg hbad
        rw [formatted_stopped hb (congrArg Prod.snd htext), htext]
        rfl
  | case5 c args hc b fmt bytes rest hr ih =>
    obtain rfl := not_not.1 hc
    obtain ⟨conv, hb, hrender⟩ := Option.bind_eq_some_iff.1 hr
    obtain ⟨htext, hpassed⟩ := Conv.text_of_render hpassed hrender
    rw [reference_some hr, formatted_conv hb (congrArg Prod.snd htext), htext,
      ih hlone ((matches_percent.1 hmatch conv hb).2 _ hrender) hpassed]

end Printf

/-! ### The end of the format -/

section Inside

variable {mem : ℕ → UInt8} {ap : ℕ → ℕ} {fmt : List UInt8} {S : Type}

/-- `printf` gets to its result unless its loop reads past the bytes of the format. -/
lemma exec_printf_eq_none_iff (hnul : 0 ∉ fmt) (rest : List UInt8) (f : Write → S → ℤ × S) (s : S) :
    (Requests.exec f (printf mem ap (fmt ++ 0 :: rest)) s).1 = none ↔
      (formatted mem ap fmt 0).2 = .lone ∧ rest = [] := by
  rw [printf_eq hnul, exec_bind]
  generalize Requests.exec f (putEach .start (formatted mem ap fmt 0).1) s = r
  cases (formatted mem ap fmt 0).2 with
  | nul | stopped =>
    rw [Ending.outcome, finish, exec_bind]
    simp [Requests.exec, pure]
  | lone =>
    cases rest with
    | nil => exact iff_of_true rfl ⟨rfl, rfl⟩
    | cons c rest =>
      rw [Ending.outcome, List.head?_cons, Option.map_some, finish, exec_bind]
      simp [Requests.exec, pure]

/-- A format whose walk ends in a lone `%` has one at its end. -/
lemma endsLone_of_formatted {k : ℕ} (h : (formatted mem ap fmt k).2 = .lone) :
    endsLone fmt = true := by
  induction fmt, k using formatted.induct mem ap with
  | case1 k => cases h
  | case2 c fmt k hc ih =>
    rw [formatted_byte hc] at h
    rw [endsLone_byte hc]
    exact ih h
  | case3 c k hc =>
    obtain rfl := not_not.1 hc
    rfl
  | case4 c k hc b fmt hb =>
    obtain rfl := not_not.1 hc
    rw [formatted_unknown hb] at h
    cases h
  | case5 c k hc b fmt conv hb hs =>
    obtain rfl := not_not.1 hc
    rw [formatted_stopped hb hs] at h
    cases h
  | case6 c k hc b fmt conv hb hs ih =>
    obtain rfl := not_not.1 hc
    rw [formatted_conv hb (Bool.eq_false_of_not_eq_true hs)] at h
    rw [endsLone_percent]
    exact ih h

/-- **`printf` stays inside its format unless it gets to a lone `%`**: whatever the
arguments are and whatever becomes of the writes, no byte after the NUL is read exactly
when the walk over the format does not end in a `%` right before the NUL, and never when
there is no such `%`. If there is, one byte after the NUL is read and no other. -/
theorem printf_inside_iff (hnul : 0 ∉ fmt) (f : Write → S → ℤ × S) (s : S) :
    ((Requests.exec f (printf mem ap (fmt ++ [0])) s).1 ≠ none ↔
        (formatted mem ap fmt 0).2 ≠ .lone) ∧
      (endsLone fmt = false → (Requests.exec f (printf mem ap (fmt ++ [0])) s).1 ≠ none) ∧
      ∀ c, (Requests.exec f (printf mem ap (fmt ++ [0, c])) s).1 ≠ none := by
  have hiff := @exec_printf_eq_none_iff mem ap fmt S hnul [] f s
  refine ⟨not_congr (hiff.trans (and_iff_left rfl)), fun hends hnone => ?_, fun c hnone => ?_⟩
  · have hlone := endsLone_of_formatted (hiff.1 hnone).1
    rw [hends] at hlone
    cases hlone
  · have hrest := ((exec_printf_eq_none_iff hnul [c] f s).1 hnone).2
    cases hrest

/-- `"100%"`, with the NUL: the byte after it is read. -/
theorem printf_reads_past :
    (result (fun _ => 1) (printf (fun _ => 0) (fun _ => 0) ([49, 48, 48, 37] ++ [0])) ⟨[], 0⟩).1 =
      none := by
  decide

/-- `"%d"` does not end in a `%`. -/
theorem printf_inside_decimal :
    (0 : UInt8) ∉ [37, 100] ∧
      (Requests.exec (partialWrites fun _ => 1)
        (printf (fun _ => 0) (fun _ => 7) ([37, 100] ++ [0])) ⟨[], 0⟩).1 ≠ none := by
  have hnul : (0 : UInt8) ∉ [37, 100] := by decide
  exact ⟨hnul, (printf_inside_iff hnul _ _).2.1 rfl⟩

end Inside

end TownOS.Libc

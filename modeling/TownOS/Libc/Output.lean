import TownOS.Libc.Printf

/-!
What of the text of `printf` is written (`flush`, `put` and `printf` of `libc/printf.c`,
`sys_write_all` of `user/userlib.h`).

A SYS_WRITE can take a part of its bytes, and it can fail and the next one succeed: the write to a
full pipe that a signal interrupts (`kernel/pipe.c`). `flush` then drops what it could not write,
and `put` goes on.

* `accepted`: how many bytes `sys_write_all` gets written, from what its SYS_WRITEs return;
  `written`: the places in the text of the bytes that are taken in a call of `printf`;
* `Out.Account`: what has been written and what is staged after some calls of `put`;
* `printf_matches`: `printf` writes what `reference` gives, however its writes are cut;
* `printf_whole_iff`: what is taken is a prefix of the text exactly when every byte is the one that
  belongs where it lands; they all land at their own places exactly when no SYS_WRITE of the call
  takes a byte after one that failed.
-/

namespace TownOS.Libc

open Requests

/-! ### Writes that can fail -/

/-- SYS_WRITEs that take a part of the bytes or fail; `pattern` has what each of them would
return. -/
def failingWrites (pattern : ℕ → ℤ) (r : Write) (s : Sink) : ℤ × Sink :=
  let w := min (pattern s.calls) r.bytes.length
  (w, ⟨if r.fd = 1 then s.sent ++ r.bytes.take w.toNat else s.sent, s.calls + 1⟩)

/-- A run of a part of `printf` with them. -/
def outcome {α : Type} (pattern : ℕ → ℤ) (p : User α) (s : Sink) : α × Sink :=
  Requests.exec (failingWrites pattern) p s

/-- Of the first SYS_WRITEs, none takes a byte after one that failed. -/
def StaysFailed (pattern : ℕ → ℤ) (calls : ℕ) : Prop :=
  ∀ i j, i < j → j < calls → pattern i ≤ 0 → pattern j ≤ 0

/-- Of `len` bytes, those that the rounds of `sys_write_all` get written when the next SYS_WRITE is
number `c`; and the number of the SYS_WRITE after them. -/
def accepted (pattern : ℕ → ℤ) : ℕ → ℕ → ℕ → ℕ × ℕ
  | 0, _, c => (0, c)
  | rounds + 1, len, c =>
    if len = 0 then (0, c)
    else if pattern c ≤ 0 then (0, c + 1)
    else
      let w := min (pattern c).toNat len
      let r := accepted pattern rounds (len - w) (c + 1)
      (w + r.1, r.2)

/-- What `accepted` says: the bytes are the first ones, and the SYS_WRITEs end with the first that
fails. -/
structure Accepted (pattern : ℕ → ℤ) (len c : ℕ) (r : ℕ × ℕ) : Prop where
  le : r.1 ≤ len
  calls : c ≤ r.2
  first : 0 < len → c < r.2 ∧ (0 < r.1 ↔ 0 < pattern c)
  last : ∀ i, c ≤ i → i < r.2 → pattern i ≤ 0 → i + 1 = r.2
  short_iff : r.1 < len ↔ ∃ i, c ≤ i ∧ i < r.2 ∧ pattern i ≤ 0

section Writing

variable {α β : Type} {pattern : ℕ → ℤ} {s : Sink} {buf : List UInt8} {len c : ℕ}

@[simp] lemma outcome_pure (a : α) (s : Sink) : outcome pattern (pure a) s = (a, s) := rfl

@[simp] lemma outcome_bind (p : User α) (f : α → User β) (s : Sink) :
    outcome pattern (p >>= f) s =
      outcome pattern (f (outcome pattern p s).1) (outcome pattern p s).2 :=
  exec_bind _ _ _ _

/-- Writes that take a part of the bytes are writes that do not fail. -/
lemma result_eq_outcome (pattern : ℕ → ℕ) (p : User α) (s : Sink) :
    result pattern p s = outcome (fun k => pattern k) p s := by
  have hwrites : partialWrites pattern = failingWrites fun k => pattern k := by
    funext r s
    simp [partialWrites, failingWrites, ← Nat.cast_min]
  rw [result, outcome, hwrites]

/-- There is nothing to write. -/
lemma Accepted.nil : Accepted pattern 0 c (0, c) where
  le := le_rfl
  calls := le_rfl
  first := fun h => absurd h (lt_irrefl 0)
  last := fun _ hi hi' => absurd hi' (Nat.not_lt.2 hi)
  short_iff := iff_of_false (Nat.not_lt_zero _) fun ⟨_, hi, hi', _⟩ => Nat.not_lt.2 hi hi'

/-- The next SYS_WRITE fails. -/
lemma Accepted.fails (hlen : 0 < len) (hw : pattern c ≤ 0) :
    Accepted pattern len c (0, c + 1) where
  le := Nat.zero_le _
  calls := Nat.le_succ _
  first := fun _ => ⟨Nat.lt_succ_self _, iff_of_false (lt_irrefl 0) (not_lt.2 hw)⟩
  last := fun i hi hi' _ => by
    dsimp only at hi' ⊢
    omega
  short_iff := iff_of_true hlen ⟨c, le_rfl, Nat.lt_succ_self _, hw⟩

/-- The next SYS_WRITE takes some bytes, and the rest is written. -/
lemma Accepted.takes {w : ℕ} {r : ℕ × ℕ} (hpos : 0 < w) (hw : w ≤ len) (hp : 0 < pattern c)
    (h : Accepted pattern (len - w) (c + 1) r) : Accepted pattern len c (w + r.1, r.2) := by
  have hcalls : c + 1 ≤ r.2 := h.calls
  have hle := h.le
  have hne : ∀ {i}, pattern i ≤ 0 → i ≠ c := by
    rintro i hfail rfl
    exact hfail.not_gt hp
  refine ⟨?_, by omega, fun _ => ⟨hcalls, iff_of_true ?_ hp⟩, fun i hi hi' hfail => ?_, ?_⟩
  · dsimp only
    omega
  · dsimp only
    omega
  · have := hne hfail
    exact h.last i (by omega) hi' hfail
  · have hiff : w + r.1 < len ↔ r.1 < len - w := by omega
    rw [hiff, h.short_iff]
    refine exists_congr fun i => ⟨fun ⟨hi, h⟩ => ⟨by omega, h⟩, fun ⟨hi, hi', hfail⟩ => ?_⟩
    have := hne hfail
    exact ⟨by omega, hi', hfail⟩

lemma accepted_spec {rounds : ℕ} (h : len ≤ rounds) :
    Accepted pattern len c (accepted pattern rounds len c) := by
  induction rounds generalizing len c with
  | zero =>
    obtain rfl := Nat.le_zero.1 h
    exact .nil
  | succ rounds ih =>
    rw [accepted]
    split_ifs with hzero hw
    · subst hzero
      exact .nil
    · exact .fails (Nat.pos_of_ne_zero hzero) hw
    · exact .takes (by omega) (Nat.min_le_right _ _) (not_le.1 hw) (ih (by omega))

/-- The rounds of the loop. -/
lemma outcome_sysWriteAllLoop {rounds done : ℕ} (hdone : done ≤ buf.length) :
    outcome pattern (sysWriteAllLoop 1 buf rounds done) s =
      (((done + (accepted pattern rounds (buf.length - done) s.calls).1 : ℕ) : ℤ),
        ⟨s.sent ++ (buf.drop done).take (accepted pattern rounds (buf.length - done) s.calls).1,
          (accepted pattern rounds (buf.length - done) s.calls).2⟩) := by
  induction rounds generalizing done s with
  | zero => simp [sysWriteAllLoop, accepted]
  | succ rounds ih =>
    rw [sysWriteAllLoop, accepted]
    by_cases hlt : done < buf.length
    · have hwrite : outcome pattern (sysWrite 1 (buf.drop done)) s =
          (min (pattern s.calls) (buf.drop done).length, ⟨s.sent ++ (buf.drop done).take
            (min (pattern s.calls) ((buf.drop done).length : ℤ)).toNat, s.calls + 1⟩) := rfl
      rw [if_pos hlt, if_neg (by omega), outcome_bind, hwrite, List.length_drop]
      dsimp only
      by_cases hw : pattern s.calls ≤ 0
      · have hmin : min (pattern s.calls) ((buf.length - done : ℕ) : ℤ) ≤ 0 := by omega
        rw [if_pos hmin, if_pos hw, Int.toNat_of_nonpos hmin]
        rfl
      · have hmin : (min (pattern s.calls) ((buf.length - done : ℕ) : ℤ)).toNat =
            min (pattern s.calls).toNat (buf.length - done) := by omega
        rw [if_neg (by omega), if_neg hw, hmin, ih (by omega), Nat.add_assoc, Nat.sub_add_eq]
        dsimp only
        rw [List.append_assoc, ← List.drop_drop, List.take_add]
    · rw [if_neg hlt, if_pos (by omega)]
      simp

lemma length_staged (o : Out) : o.staged.length = o.len := by simp [Out.staged]

lemma staged_push (o : Out) (c : UInt8) : (o.push c).staged = o.staged ++ [c] := by
  rw [Out.staged, Out.push, List.range_succ, List.map_append, List.map_singleton]
  refine congrArg₂ (· ++ ·) (List.map_congr_left fun i hi => ?_) ?_
  · exact Function.update_of_ne (List.mem_range.1 hi).ne _ _
  · exact congrArg (fun b => [b]) (Function.update_self ..)

/-- `flush` writes what is staged, and remembers whether that was short. -/
lemma outcome_flush (o : Out) (s : Sink) :
    outcome pattern (flush o) s =
      ({ o with
          failed := o.failed || decide ((accepted pattern o.len o.len s.calls).1 < o.len)
          total := if 0 < (accepted pattern o.len o.len s.calls).1 then
            (o.total + (accepted pattern o.len o.len s.calls).1) % 2 ^ 64 else o.total
          len := 0 },
        ⟨s.sent ++ o.staged.take (accepted pattern o.len o.len s.calls).1,
          (accepted pattern o.len o.len s.calls).2⟩) := by
  rw [flush]
  by_cases hzero : o.len = 0
  · obtain ⟨buf, len, total, failed⟩ := o
    obtain rfl : len = 0 := hzero
    simp [accepted]
  · have hrun := @outcome_sysWriteAllLoop pattern s o.staged o.len 0 (Nat.zero_le _)
    rw [Nat.zero_add, Nat.sub_zero, List.drop_zero, length_staged] at hrun
    have hnonneg : ¬ ((accepted pattern o.len o.len s.calls).1 : ℤ) < 0 := by omega
    rw [if_neg hzero, outcome_bind, sysWriteAll, length_staged, hrun]
    simp [hnonneg]

end Writing

/-! ### What is taken -/

/-- Of the first `upto` bytes of a text, the places of those that have been taken, and the number of
SYS_WRITEs so far. -/
structure Taken where
  places : List ℕ
  upto : ℕ
  calls : ℕ

namespace Taken

/-- The next `len` bytes are passed to `sys_write_all`. -/
def extend (pattern : ℕ → ℤ) (t : Taken) (len : ℕ) : Taken :=
  ⟨t.places ++ List.range' t.upto (accepted pattern len len t.calls).1, t.upto + len,
    (accepted pattern len len t.calls).2⟩

/-- Some full buffers are flushed, the first SYS_WRITE being number `c`. -/
def blocks (pattern : ℕ → ℤ) (c : ℕ) : ℕ → Taken
  | 0 => ⟨[], 0, c⟩
  | q + 1 => (blocks pattern c q).extend pattern printfStage

end Taken

/-- The full buffers that are flushed before `n` bytes have been put: each is when the next byte is
put. -/
def fullBuffers (n : ℕ) : ℕ := (n - 1) / printfStage

/-- What is taken of a text of `n` bytes in a call of `printf`: the last buffer is flushed when the
loop is done, and not when it reads past its format. -/
def written (pattern : ℕ → ℤ) (ending : Option Bool) (n : ℕ) : Taken :=
  match ending with
  | none => .blocks pattern 0 (fullBuffers n)
  | some _ =>
    (Taken.blocks pattern 0 (fullBuffers n)).extend pattern (n - printfStage * fullBuffers n)

/-- The bytes at some places. -/
def bytesAt (text : List UInt8) (places : List ℕ) : List UInt8 := places.map (text.getD · 0)

/-- Every byte is the one that belongs where it lands. -/
def InPlace (text : List UInt8) (places : List ℕ) : Prop :=
  ∀ x ∈ places.zipIdx, text.getD x.1 0 = text.getD x.2 0

instance (text : List UInt8) (places : List ℕ) : Decidable (InPlace text places) :=
  inferInstanceAs (Decidable (∀ x ∈ places.zipIdx, text.getD x.1 0 = text.getD x.2 0))

section Places

variable {text out : List UInt8} {places : List ℕ} {n a : ℕ}

lemma bytesAt_append (places places' : List ℕ) :
    bytesAt text (places ++ places') = bytesAt text places ++ bytesAt text places' :=
  List.map_append

lemma bytesAt_range' (h : a + n ≤ text.length) :
    bytesAt text (List.range' a n) = (text.drop a).take n := by
  refine List.ext_getElem ?_ fun i hi hi' => ?_
  · rw [bytesAt, List.length_map, List.length_range', List.length_take, List.length_drop]
    omega
  · rw [bytesAt, List.length_map, List.length_range'] at hi
    have hlt : a + i < text.length := by omega
    simp [bytesAt, List.getElem?_eq_getElem hlt]

lemma bytesAt_range (text : List UInt8) : bytesAt text (List.range text.length) = text := by
  rw [List.range_eq_range', bytesAt_range' (Nat.zero_add _).le, List.drop_zero, List.take_length]

lemma bytesAt_append_text (h : places.Sublist (List.range n)) (hn : n ≤ out.length) :
    bytesAt (out ++ text) places = bytesAt out places := by
  refine List.map_congr_left fun p hp => ?_
  have hlt := List.mem_range.1 (h.subset hp)
  rw [List.getD_append _ _ _ _ (by omega)]

/-- The bytes at some places are a prefix exactly when each of them is in place. -/
lemma bytesAt_prefix_iff (h : places.length ≤ text.length) :
    bytesAt text places <+: text ↔ InPlace text places := by
  rw [List.prefix_iff_getElem]
  constructor
  · rintro ⟨hle, hbyte⟩ ⟨p, k⟩ hx
    have hget : places[k]? = some p := List.mem_zipIdx_iff_getElem?.1 hx
    obtain ⟨hk, rfl⟩ := List.getElem?_eq_some_iff.1 hget
    have hsame := hbyte k (by rwa [bytesAt, List.length_map])
    simp only [bytesAt, List.getElem_map] at hsame
    dsimp only
    rw [hsame, List.getD_eq_getElem _ _ (hk.trans_le h)]
  · refine fun hin => ⟨by rwa [bytesAt, List.length_map], fun k hk => ?_⟩
    rw [bytesAt, List.length_map] at hk
    have hx := hin (places[k], k) (List.mem_zipIdx_iff_getElem?.2 (List.getElem?_eq_getElem hk))
    dsimp only at hx
    simp only [bytesAt, List.getElem_map]
    rw [hx, List.getD_eq_getElem _ _ (hk.trans_le h)]

end Places

namespace Taken

variable {pattern : ℕ → ℤ} {t : Taken} {c : ℕ}

/-- What is taken are bytes of the text in its order. -/
lemma sublist_extend (pattern : ℕ → ℤ) (h : t.places.Sublist (List.range t.upto)) (len : ℕ) :
    (t.extend pattern len).places.Sublist (List.range (t.extend pattern len).upto) := by
  have hle := (@accepted_spec pattern len t.calls len le_rfl).le
  rw [extend, List.range_eq_range', ← List.range'_append_1, Nat.zero_add]
  exact (List.range_eq_range' ▸ h).append (List.range'_sublist_right.2 hle)

lemma upto_blocks (q : ℕ) : (blocks pattern c q).upto = printfStage * q := by
  induction q with
  | zero => rfl
  | succ q ih => rw [blocks, extend, ih, Nat.mul_succ]

/-- When no SYS_WRITE fails, all is taken. -/
lemma places_extend_of_pos (hpos : ∀ k, 0 < pattern k) (h : t.places = List.range t.upto)
    (len : ℕ) : (t.extend pattern len).places = List.range (t.extend pattern len).upto := by
  have hspec := @accepted_spec pattern len t.calls len le_rfl
  have hall : (accepted pattern len len t.calls).1 = len := by
    by_contra hne
    obtain ⟨i, -, -, hfail⟩ := hspec.short_iff.1 (lt_of_le_of_ne hspec.le hne)
    exact hfail.not_gt (hpos i)
  rw [extend, hall, h, List.range_eq_range', List.range_eq_range', ← List.range'_append_1,
    Nat.zero_add]

lemma places_blocks_of_pos (hpos : ∀ k, 0 < pattern k) (q : ℕ) :
    (blocks pattern c q).places = List.range (blocks pattern c q).upto := by
  induction q with
  | zero => rfl
  | succ q ih => exact places_extend_of_pos hpos ih _

/-- Bytes are lost exactly if a SYS_WRITE failed, and what is taken are the first bytes exactly if
none takes a byte after that. -/
structure Sound (pattern : ℕ → ℤ) (t : Taken) : Prop where
  sublist : t.places.Sublist (List.range t.upto)
  short_iff : t.places.length < t.upto ↔ ∃ i < t.calls, pattern i ≤ 0
  stays_iff : StaysFailed pattern t.calls ↔ t.places = List.range t.places.length

/-- The places that are added are the next ones only if nothing was lost before. -/
lemma append_range'_eq_range_iff {l : List ℕ} {n m : ℕ} :
    l ++ List.range' n m = List.range (l ++ List.range' n m).length ↔
      l = List.range l.length ∧ (m = 0 ∨ n = l.length) := by
  rw [List.length_append, List.length_range', List.range_eq_range', ← List.range'_append_1,
    Nat.zero_add, ← List.range_eq_range']
  constructor
  · intro h
    obtain ⟨hl, hr⟩ := List.append_inj h (by simp)
    exact ⟨hl, (List.range'_inj.1 hr).2⟩
  · rintro ⟨hl, rfl | rfl⟩
    · simpa using hl
    · rw [← hl]

lemma Sound.extend (h : t.Sound pattern) (len : ℕ) : (t.extend pattern len).Sound pattern := by
  have hspec := @accepted_spec pattern len t.calls len le_rfl
  have hlen := h.sublist.length_le
  rw [List.length_range] at hlen
  refine ⟨sublist_extend pattern h.sublist len, ?_, ?_⟩
  · have hsplit : (t.extend pattern len).places.length < (t.extend pattern len).upto ↔
        t.places.length < t.upto ∨ (accepted pattern len len t.calls).1 < len := by
      have := hspec.le
      rw [Taken.extend, List.length_append, List.length_range']
      dsimp only
      omega
    rw [hsplit, h.short_iff, hspec.short_iff]
    constructor
    · rintro (⟨i, hi, hp⟩ | ⟨i, -, hi, hp⟩)
      · exact ⟨i, hi.trans_le hspec.calls, hp⟩
      · exact ⟨i, hi, hp⟩
    · rintro ⟨i, hi, hp⟩
      by_cases hbefore : i < t.calls
      · exact .inl ⟨i, hbefore, hp⟩
      · exact .inr ⟨i, Nat.not_lt.1 hbefore, hi, hp⟩
  · rw [Taken.extend, append_range'_eq_range_iff, ← h.stays_iff]
    constructor
    · refine fun hstays => ⟨fun i j hij hj => hstays i j hij (hj.trans_le hspec.calls), ?_⟩
      refine or_iff_not_imp_left.2 fun hsome => ?_
      by_contra hne
      -- a SYS_WRITE that failed is followed by one that takes a byte
      obtain ⟨i, hi, hp⟩ := h.short_iff.1 (lt_of_le_of_ne hlen (Ne.symm hne))
      have hle := hspec.le
      obtain ⟨hlt, hfirst⟩ := hspec.first (by omega)
      exact (hstays i t.calls hi hlt hp).not_gt (hfirst.1 (Nat.pos_of_ne_zero hsome))
    · rintro ⟨hstays, hnext⟩ i j hij hj hp
      by_cases hbefore : j < t.calls
      · exact hstays i j hij hbefore hp
      by_cases hi : i < t.calls
      · -- the first SYS_WRITE of `sys_write_all` fails, and it is the last
        have hshort := h.short_iff.2 ⟨i, hi, hp⟩
        obtain hnone | heq := hnext
        · have hpos : 0 < len := by
            by_contra hzero
            obtain rfl : len = 0 := by omega
            exact hbefore hj
          have hfail : pattern t.calls ≤ 0 := by
            rw [← not_lt, ← (hspec.first hpos).2, hnone]
            exact lt_irrefl 0
          have hlast := hspec.last t.calls le_rfl (hspec.first hpos).1 hfail
          obtain rfl : j = t.calls := by
            have : j < (accepted pattern len len t.calls).2 := hj
            omega
          exact hfail
        · omega
      · have hlast := hspec.last i (Nat.not_lt.1 hi) (hij.trans hj) hp
        have : j < (accepted pattern len len t.calls).2 := hj
        omega

lemma sound_blocks (q : ℕ) : (blocks pattern 0 q).Sound pattern := by
  induction q with
  | zero =>
    exact ⟨List.Sublist.refl _, iff_of_false (lt_irrefl 0) fun ⟨i, hi, _⟩ => Nat.not_lt_zero i hi,
      iff_of_true (fun _ j _ hj => absurd hj (Nat.not_lt_zero j)) rfl⟩
  | succ q ih => exact ih.extend _

end Taken

lemma sound_written (pattern : ℕ → ℤ) (ending : Option Bool) (n : ℕ) :
    (written pattern ending n).Sound pattern := by
  cases ending with
  | none => exact Taken.sound_blocks _
  | some _ => exact (Taken.sound_blocks _).extend _

/-! ### What is staged -/

/-- After the bytes `out` were put, from the sink `s₀` on: what has been written and what is
staged. -/
structure Out.Account (s₀ : Sink) (t : Taken) (out : List UInt8) (o : Out) (s : Sink) : Prop where
  len_le : o.len ≤ printfStage
  upto : t.upto + o.len = out.length
  staged : o.staged = out.drop t.upto
  sublist : t.places.Sublist (List.range t.upto)
  sent : s.sent = s₀.sent ++ bytesAt out t.places
  calls : s.calls = t.calls
  failed : o.failed = decide (t.places.length < t.upto)
  total : o.failed = false → (o.total + o.len) % 2 ^ 64 = out.length % 2 ^ 64

namespace Out.Account

variable {pattern : ℕ → ℤ} {s₀ s : Sink} {t : Taken} {out : List UInt8} {o : Out}

lemma sink (h : o.Account s₀ t out s) : s = ⟨s₀.sent ++ bytesAt out t.places, t.calls⟩ := by
  rw [← h.sent, ← h.calls]

lemma start (pattern : ℕ → ℤ) (s₀ : Sink) :
    Out.Account s₀ (.blocks pattern s₀.calls (fullBuffers ([] : List UInt8).length)) [] .start s₀ :=
  ⟨Nat.zero_le _, rfl, rfl, List.Sublist.refl _, (List.append_nil _).symm, rfl, rfl, fun _ => rfl⟩

/-- A byte is stored where there is room. -/
lemma push (h : o.Account s₀ t out s) (hlen : o.len < printfStage) (c : UInt8) :
    (o.push c).Account s₀ t (out ++ [c]) s where
  len_le := hlen
  upto := by
    rw [List.length_append, List.length_singleton, ← h.upto]
    rfl
  staged := by
    have hle : t.upto ≤ out.length := h.upto ▸ Nat.le_add_right _ _
    rw [staged_push, h.staged, List.drop_append_of_le_length hle]
  sublist := h.sublist
  sent := by rw [h.sent, bytesAt_append_text h.sublist (h.upto ▸ Nat.le_add_right _ _)]
  calls := h.calls
  failed := h.failed
  total := fun hfailed => by
    rw [List.length_append, List.length_singleton, Nat.add_mod out.length, ← h.total hfailed,
      ← Nat.add_mod]
    rfl

/-- `flush` empties the buffer. -/
lemma flush (h : o.Account s₀ t out s) (pattern : ℕ → ℤ) :
    (outcome pattern (flush o) s).1.Account s₀ (t.extend pattern o.len) out
        (outcome pattern (flush o) s).2 ∧
      (outcome pattern (flush o) s).1.len = 0 := by
  have hspec := @accepted_spec pattern o.len s.calls o.len le_rfl
  have hle := hspec.le
  have hupto := h.upto
  have hlen := h.sublist.length_le
  rw [List.length_range] at hlen
  rw [outcome_flush, Taken.extend, ← h.calls]
  refine ⟨⟨Nat.zero_le _, hupto, ?_, ?_, ?_, rfl, ?_, fun hfailed => ?_⟩, rfl⟩
  · rw [hupto, List.drop_length]
    rfl
  · have hsub := Taken.sublist_extend pattern h.sublist o.len
    rwa [Taken.extend, ← h.calls] at hsub
  · dsimp only
    rw [h.sent, h.staged, bytesAt_append, bytesAt_range' (by omega), List.append_assoc]
  · dsimp only
    rw [h.failed, ← Bool.decide_or, decide_eq_decide, List.length_append, List.length_range']
    omega
  · dsimp only at hfailed ⊢
    rw [Bool.or_eq_false_iff, decide_eq_false_iff_not] at hfailed
    have hall : (accepted pattern o.len o.len s.calls).1 = o.len := by omega
    rw [← h.total hfailed.1, hall, Nat.add_zero]
    split_ifs with hpos
    · exact Nat.mod_mod _ _
    · rw [Nat.eq_zero_of_not_pos hpos, Nat.add_zero]

/-- `put` puts a byte. -/
lemma put (h : o.Account s₀ (.blocks pattern s₀.calls (fullBuffers out.length)) out s)
    (c : UInt8) :
    (outcome pattern (put o c) s).1.Account s₀
      (.blocks pattern s₀.calls (fullBuffers (out ++ [c]).length)) (out ++ [c])
      (outcome pattern (put o c) s).2 := by
  have hlen := h.len_le
  have hupto := h.upto
  rw [Taken.upto_blocks] at hupto
  rw [List.length_append, List.length_singleton, Libc.put]
  by_cases hfull : o.len = printfStage
  · obtain ⟨hflush, hempty⟩ := h.flush pattern
    have hmore : fullBuffers (out.length + 1) = fullBuffers out.length + 1 := by
      simp only [fullBuffers, printfStage] at hupto hfull ⊢
      omega
    rw [if_pos hfull, outcome_bind, hmore]
    rw [hfull] at hflush
    exact hflush.push (hempty ▸ by decide) c
  · have hsame : fullBuffers (out.length + 1) = fullBuffers out.length := by
      simp only [fullBuffers, printfStage] at hlen hupto hfull ⊢
      omega
    rw [if_neg hfull, hsame]
    exact h.push (lt_of_le_of_ne hlen hfull) c

lemma putEach (h : o.Account s₀ (.blocks pattern s₀.calls (fullBuffers out.length)) out s)
    (cs : List UInt8) :
    (outcome pattern (putEach o cs) s).1.Account s₀
      (.blocks pattern s₀.calls (fullBuffers (out ++ cs).length)) (out ++ cs)
      (outcome pattern (putEach o cs) s).2 := by
  induction cs generalizing out o s with
  | nil =>
    rw [List.append_nil]
    exact h
  | cons c cs ih =>
    rw [Libc.putEach, outcome_bind, List.append_cons]
    exact ih (h.put c)

/-- A result that is not negative says that all of the text was written. -/
lemma sent_eq (h : o.Account s₀ t out s) (hempty : o.len = 0) {stopped : Bool}
    (hpos : 0 ≤ o.result stopped) : s.sent = s₀.sent ++ out := by
  have hupto := h.upto
  have hlen := h.sublist.length_le
  rw [hempty, Nat.add_zero] at hupto
  rw [List.length_range] at hlen
  have hfailed : o.failed = false := by
    by_contra hfailed
    rw [Out.result, Bool.eq_true_of_not_eq_false hfailed, Bool.true_or, if_pos rfl] at hpos
    omega
  have hall := h.failed.symm.trans hfailed
  rw [decide_eq_false_iff_not] at hall
  have hplaces : t.places = List.range out.length := by
    rw [← hupto]
    refine h.sublist.eq_of_length ?_
    rw [List.length_range]
    omega
  rw [h.sent, hplaces, bytesAt_range]

end Out.Account

/-- The account when all of a text has been put. -/
lemma account_putEach (pattern : ℕ → ℤ) (text : List UInt8) (s : Sink) :
    (outcome pattern (putEach .start text) s).1.Account s
      (.blocks pattern s.calls (fullBuffers text.length)) text
      (outcome pattern (putEach .start text) s).2 := by
  have hput := Out.Account.putEach (Out.Account.start pattern s) text
  rwa [List.nil_append] at hput

/-- And when it has been flushed. -/
lemma account_flush (pattern : ℕ → ℤ) (text : List UInt8) (s : Sink) :
    (outcome pattern (putEach .start text >>= flush) s).1.Account s
        ((Taken.blocks pattern s.calls (fullBuffers text.length)).extend pattern
          (text.length - printfStage * fullBuffers text.length)) text
        (outcome pattern (putEach .start text >>= flush) s).2 ∧
      (outcome pattern (putEach .start text >>= flush) s).1.len = 0 := by
  have haccount := account_putEach pattern text s
  have hlen : text.length - printfStage * fullBuffers text.length =
      (outcome pattern (putEach .start text) s).1.len := by
    have hupto := haccount.upto
    rw [Taken.upto_blocks] at hupto
    omega
  rw [outcome_bind, hlen]
  exact haccount.flush pattern

section Matches

variable {mem : ℕ → UInt8} {ap : ℕ → ℕ} {pattern : ℕ → ℕ} (hpattern : ∀ k, 0 < pattern k)
variable {fmt : List UInt8} {args : List Arg}

/-- What `printf` returns when no write was short; `total` is cast to an `int`. -/
lemma Out.result_of_whole {o : Out} {n : ℕ} (hwhole : o.failed = false)
    (htotal : o.total % 2 ^ 64 = n % 2 ^ 64) (hn : n < 2 ^ 31) (stopped : Bool) :
    o.result stopped = if stopped then -1 else (n : ℤ) := by
  have hcast : BitVec.ofNat 32 o.total = BitVec.ofNat 32 n := by
    apply BitVec.eq_of_toNat_eq
    rw [BitVec.toNat_ofNat, BitVec.toNat_ofNat]
    omega
  have hmod : n % 2 ^ 32 = n := Nat.mod_eq_of_lt (by omega)
  rw [Out.result, hwhole, Bool.false_or, hcast, BitVec.toInt_eq_toNat_of_lt, BitVec.toNat_ofNat,
    hmod]
  rw [BitVec.toNat_ofNat, hmod]
  omega

lemma outcome_finish (pattern : ℕ → ℤ) (text : List UInt8) (s : Sink) (stopped : Bool) :
    outcome pattern (putEach .start text >>= fun o => finish o (some stopped)) s =
      (some ((outcome pattern (putEach .start text >>= flush) s).1.result stopped),
        (outcome pattern (putEach .start text >>= flush) s).2) := by
  simp only [finish, outcome_bind, outcome_pure]

include hpattern

/-- **`printf` matches its reference**: for every format, with its NUL, that does not end in a lone
`%`, and arguments that match it, the bytes that reach descriptor 1 are those of the reference,
whatever part of its bytes each SYS_WRITE takes; and it returns their number, or -1 when something
stopped the format. -/
theorem printf_matches (hnul : 0 ∉ fmt) (hlone : endsLone fmt = false) (hmatch : Matches fmt args)
    (hpassed : Passed mem ap 0 args) (hlen : (reference fmt args).1.length < 2 ^ 31) (s : Sink) :
    (result pattern (printf mem ap (fmt ++ [0])) s).1 =
        some (if (reference fmt args).2 then -1 else ((reference fmt args).1.length : ℤ)) ∧
      (result pattern (printf mem ap (fmt ++ [0])) s).2.sent =
        s.sent ++ (reference fmt args).1 := by
  have houtcome : (if (reference fmt args).2 then Ending.stopped else Ending.nul).outcome [] =
      some (reference fmt args).2 := by
    cases (reference fmt args).2 <;> rfl
  have hpos : ∀ k, 0 < (fun k => (pattern k : ℤ)) k := fun k => Int.natCast_pos.2 (hpattern k)
  obtain ⟨haccount, hempty⟩ := account_flush (fun k => pattern k) (reference fmt args).1 s
  have hplaces := Taken.places_extend_of_pos hpos (Taken.places_blocks_of_pos (c := s.calls) hpos
    (fullBuffers (reference fmt args).1.length))
    ((reference fmt args).1.length - printfStage * fullBuffers (reference fmt args).1.length)
  have hupto := haccount.upto
  rw [hempty, Nat.add_zero] at hupto
  have hwhole := haccount.failed
  rw [hplaces, List.length_range, decide_eq_false (lt_irrefl _)] at hwhole
  rw [result_eq_outcome, printf_eq hnul, formatted_of_matches hlone hmatch hpassed, houtcome,
    outcome_finish]
  refine ⟨congrArg some ?_, ?_⟩
  · have htotal := haccount.total hwhole
    rw [hempty, Nat.add_zero] at htotal
    exact Out.result_of_whole hwhole htotal hlen _
  · rw [haccount.sent, hplaces, hupto, bytesAt_range]

end Matches

/-- `"%d%s"`. -/
def greeting : List UInt8 := [37, 100, 37, 115]

/-- Memory with a string of two bytes at 4 MB. -/
def greetingMem (a : ℕ) : UInt8 :=
  if a = userCodeBase then 104 else if a = userCodeBase + 1 then 105 else 0

/-- The slots of -42 and of the string. -/
def greetingSlots (k : ℕ) : ℕ := if k = 0 then 2 ^ 32 - 42 else userCodeBase

/-- A number and a string, with SYS_WRITEs that take one byte each. -/
theorem printf_matches_greeting :
    (result (fun _ => 1) (printf greetingMem greetingSlots (greeting ++ [0])) ⟨[], 0⟩).1 = some 5 ∧
      (result (fun _ => 1) (printf greetingMem greetingSlots (greeting ++ [0])) ⟨[], 0⟩).2.sent =
        [45, 52, 50, 104, 105] := by
  have href : reference greeting [.int (-42), .str [104, 105]] =
      ([45, 52, 50, 104, 105], false) := by
    simp [reference, greeting, Conv.ofByte, Conv.render, signed, numeral, digit]
  have hmatch : Matches greeting [.int (-42), .str [104, 105]] := by
    simp [Matches, greeting, Conv.ofByte, Conv.render, Conv.Takes]
  have hstring : CString greetingMem userCodeBase [104, 105] := by
    refine ⟨le_rfl, by decide, fun i hi => ?_, by decide, by decide⟩
    obtain rfl | rfl : i = 0 ∨ i = 1 := by
      simp only [List.length_cons, List.length_nil] at hi
      omega
    · rfl
    · rfl
  have hpassed : Passed greetingMem greetingSlots 0 [.int (-42), .str [104, 105]] :=
    ⟨.int, .str hstring, trivial⟩
  have hone : ∀ k : ℕ, 0 < (fun _ : ℕ => 1) k := fun _ => Nat.one_pos
  have hprintf := printf_matches hone (by decide) rfl hmatch hpassed (by rw [href]; decide) ⟨[], 0⟩
  rw [href] at hprintf
  exact hprintf

/-! ### The whole text -/

/-- A SYS_WRITE that a signal interrupts, and then some that take all bytes. -/
def interruptedOnce (k : ℕ) : ℤ := if k = 0 then -1 else 128

end TownOS.Libc

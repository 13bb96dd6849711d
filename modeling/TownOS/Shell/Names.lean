import TownOS.Fat32.Directory

/-!
The shell's check of a file name (`name_is_83` of `user/shell.c`) beside the kernel's
(`name_to_83` of `fs/fat32.c`).

The shell counts the characters of the two parts before it tests them against the literals 8
and 3. The kernel tests how many bytes it has written, and then writes the next one. So a loop of
the shell is the loop of the kernel with nothing but the number of bytes kept.

* `baseIs83_length`, `extIs83_length`: the loops of the shell count what those of the kernel write;
* `nameIs83_iff_lengths`: a name is judged by the lengths of its parts;
* `nameIs83_iff_nameTo83`: the shell accepts what the kernel accepts.
-/

namespace TownOS.Shell

/-! ### The check -/

/-- The first loop of `name_is_83`: the counter, and the name from the dot or the terminator
on. -/
def baseIs83 : List UInt8 → ℕ → Option (ℕ × List UInt8)
  | [], base => some (base, [])
  | c :: cs, base =>
    if c = 0 ∨ c = 0x2E then some (base, c :: cs)
    else if 8 < base + 1 then none
    else baseIs83 cs (base + 1)

/-- The second loop, with its counter. -/
def extIs83 : List UInt8 → ℕ → Bool
  | [], _ => true
  | c :: cs, ext =>
    if c = 0 then true
    else if 3 < ext + 1 then false
    else extIs83 cs (ext + 1)

/-- The part after the dot, if the name has one. -/
def dotIs83 : List UInt8 → Bool
  | [] => true
  | c :: cs => if c = 0x2E then extIs83 cs 0 else true

/-- `name_is_83`. -/
def nameIs83 (name : List UInt8) : Bool :=
  match baseIs83 name 0 with
  | none => false
  | some (base, rest) => if base = 0 then false else dotIs83 rest

/-! ### Lengths -/

/-- The name without its terminator. -/
def stem (name : List UInt8) : List UInt8 := name.takeWhile (· ≠ 0)

/-- The part before the first dot. -/
def basePart (name : List UInt8) : List UInt8 := (stem name).takeWhile (· ≠ 0x2E)

/-- The part after it. -/
def extPart (name : List UInt8) : List UInt8 := ((stem name).dropWhile (· ≠ 0x2E)).tail

section Lengths

variable {c : UInt8} {cs : List UInt8}

lemma stem_zero (cs : List UInt8) : stem (0 :: cs) = [] := rfl

lemma stem_cons (hc : c ≠ 0) : stem (c :: cs) = c :: stem cs := by simp [stem, hc]

lemma basePart_cons (hc : c ≠ 0) (hdot : c ≠ 0x2E) : basePart (c :: cs) = c :: basePart cs := by
  simp [basePart, stem_cons hc, hdot]

lemma extPart_cons (hc : c ≠ 0) (hdot : c ≠ 0x2E) : extPart (c :: cs) = extPart cs := by
  simp [extPart, stem_cons hc, hdot]

/-- The second loop accepts at most three characters. -/
lemma extIs83_eq (cs : List UInt8) {n : ℕ} (hn : n ≤ 3) :
    extIs83 cs n = decide (n + (stem cs).length ≤ 3) := by
  induction cs generalizing n with
  | nil => simpa [extIs83, stem] using hn
  | cons c cs ih =>
    rw [extIs83]
    by_cases h0 : c = 0
    · rw [if_pos h0, h0, stem_zero]
      simpa using hn
    · rw [if_neg h0, stem_cons h0, List.length_cons]
      by_cases hlong : 3 < n + 1
      · rw [if_pos hlong]
        exact (decide_eq_false (by omega)).symm
      · rw [if_neg hlong, ih (by omega)]
        exact decide_eq_decide.mpr (by omega)

/-- The first loop accepts at most eight characters, and leaves the extension. -/
lemma baseIs83_eq (name : List UInt8) {n : ℕ} (hn : n ≤ 8) :
    (baseIs83 name n).map (fun x => (x.1, dotIs83 x.2)) =
      if n + (basePart name).length ≤ 8 then
        some (n + (basePart name).length, decide ((extPart name).length ≤ 3)) else none := by
  induction name generalizing n with
  | nil => simp [baseIs83, basePart, extPart, stem, dotIs83, hn]
  | cons c cs ih =>
    rw [baseIs83]
    by_cases h0 : c = 0
    · subst h0
      simp [basePart, extPart, stem_zero, dotIs83, hn]
    by_cases hdot : c = 0x2E
    · subst hdot
      have hext := extIs83_eq cs (Nat.zero_le 3)
      simp [basePart, extPart, stem_cons, dotIs83, hn, hext]
    · rw [if_neg (by simp [h0, hdot]), basePart_cons h0 hdot, extPart_cons h0 hdot,
        List.length_cons]
      by_cases hlong : 8 < n + 1
      · rw [if_pos hlong, if_neg (by omega), Option.map_none]
      · rw [if_neg hlong, ih (by omega)]
        refine if_congr (by omega) ?_ rfl
        rw [Nat.add_right_comm, Nat.add_assoc]

/-- **A name is judged by the lengths of its parts**: one to eight characters before the first
dot, and up to three after it. -/
theorem nameIs83_iff_lengths (name : List UInt8) :
    nameIs83 name = true ↔ (basePart name).length ∈ Set.Icc 1 8 ∧ (extPart name).length ≤ 3 := by
  have hbase := baseIs83_eq name (Nat.zero_le 8)
  rw [Nat.zero_add] at hbase
  rw [nameIs83, Set.mem_Icc]
  cases hloop : baseIs83 name 0 with
  | none =>
    rw [hloop, Option.map_none] at hbase
    have hlong : ¬ (basePart name).length ≤ 8 := fun h => by simp [h] at hbase
    simp [hlong]
  | some x =>
    obtain ⟨base, rest⟩ := x
    rw [hloop, Option.map_some] at hbase
    by_cases hshort : (basePart name).length ≤ 8
    · rw [if_pos hshort] at hbase
      obtain ⟨hlen, hext⟩ := Prod.mk.inj (Option.some.inj hbase)
      dsimp only at hlen hext ⊢
      rw [hlen, hext]
      by_cases h0 : (basePart name).length = 0
      · simp [h0]
      · rw [if_neg h0, decide_eq_true_eq]
        omega
    · rw [if_neg hshort] at hbase
      cases hbase

end Lengths

/-! ### The kernel's check -/

/-- The first loop of the shell counts the bytes that the kernel writes. -/
lemma baseIs83_length (name out : List UInt8) :
    baseIs83 name out.length = (baseTo83 name out).map fun x => (x.1.length, x.2) := by
  induction name generalizing out with
  | nil => rfl
  | cons c cs ih =>
    rw [baseIs83, baseTo83]
    by_cases hstop : c = 0 ∨ c = 0x2E
    · rw [if_pos hstop, if_pos hstop]
      rfl
    · rw [if_neg hstop, if_neg hstop]
      -- the counter is tested after it is incremented, the bytes before one more is written
      by_cases hfull : 8 ≤ out.length
      · rw [if_pos (by omega), if_pos hfull]
        rfl
      · have hnext : out.length + 1 = (out ++ [toUpper c]).length := by simp
        rw [if_neg (by omega), if_neg hfull, hnext, ih]

lemma extIs83_length (cs out : List UInt8) : extIs83 cs out.length = (extTo83 cs out).isSome := by
  induction cs generalizing out with
  | nil => rfl
  | cons c cs ih =>
    rw [extIs83, extTo83]
    by_cases hstop : c = 0
    · rw [if_pos hstop, if_pos hstop]
      rfl
    · rw [if_neg hstop, if_neg hstop]
      by_cases hfull : 3 ≤ out.length
      · rw [if_pos (by omega), if_pos hfull]
        rfl
      · have hnext : out.length + 1 = (out ++ [toUpper c]).length := by simp
        rw [if_neg (by omega), if_neg hfull, hnext, ih]

lemma dotIs83_isSome (rest : List UInt8) : dotIs83 rest = (dotTo83 rest).isSome := by
  cases rest with
  | nil => rfl
  | cons c cs =>
    rw [dotIs83, dotTo83]
    by_cases hdot : c = 0x2E
    · rw [if_pos hdot, if_pos hdot]
      exact extIs83_length cs []
    · rw [if_neg hdot, if_neg hdot]
      rfl

/-- **The shell's name check is the kernel's**: `name_is_83` accepts a string exactly if
`name_to_83` returns 0. -/
theorem nameIs83_iff_nameTo83 (name : List UInt8) :
    nameIs83 name = true ↔ (nameTo83 name).isSome = true := by
  have hbase : baseIs83 name 0 = _ := baseIs83_length name []
  rw [nameIs83, nameTo83, hbase]
  cases baseTo83 name [] with
  | none => rfl
  | some x =>
    obtain ⟨base, rest⟩ := x
    dsimp only [Option.map_some]
    by_cases h0 : base.length = 0
    · rw [if_pos h0, if_pos h0]
      rfl
    · rw [if_neg h0, if_neg h0, Option.isSome_map, dotIs83_isSome]

end TownOS.Shell

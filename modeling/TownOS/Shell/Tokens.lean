import TownOS.Foundations.Strings
import TownOS.Foundations.Runs
import TownOS.Shell.Program

/-!
`next_token` of `user/userlib.h`, in the memory of the shell.

The function edits the buffer it scans: a token is ended by a 0 in the place of the separator
after it, and the caller's position moves behind that. What the shell goes on with is the rest of
the line as it was typed, so `run_pipeline` can cut a line at each `|` and `start_segment` the
stages at each space.

* `TokenStep`, `nextToken_step`: what a call does to a line;
* `Remainder`, `TokenStep.remainder`: what it leaves is the rest of the line, untouched;
* `Tokenised`, `tokens_tokenised`: what the calls return, until one returns NULL;
* `Tokenised.apart`: the tokens can be tokenised further, one by one;
* `TokenStep.nextToken_chr`, `Found.nextToken_chr`: a call is `nextToken` on the characters;
* `splitLine_pieces`: the stages of a pipeline;
* `next_token_exact`: the result for every line and all separators.
-/

namespace TownOS.Shell

open Strings

/-! ### The code -/

/-- The memory, and the position that the caller of `next_token` holds. -/
structure Cursor where
  mem : ℕ → UInt8
  pos : ℕ

namespace Cursor

/-- `next_token`: what it returns (`none` for NULL), and the memory and the position after it.
The loops of the code are not bounded: `fuel` bounds their rounds, and the outer `none` is for a
bound that is too small. -/
def nextToken (fuel : ℕ) (c : Cursor) (sep : UInt8) : Option (Option ℕ × Cursor) :=
  -- while (*p == sep)
  match scan (fun x => x ≠ sep) c.mem fuel c.pos with
  | none => none
  | some p =>
    if c.mem p = 0 then some (none, ⟨c.mem, p⟩)
    else
      -- while (*p != '\0' && *p != sep)
      match scan (fun x => x = 0 ∨ x = sep) c.mem fuel p with
      | none => none
      | some q =>
        if c.mem q = sep then some (some p, ⟨Function.update c.mem q 0, q + 1⟩)
        else some (some p, ⟨c.mem, q⟩)

/-- A call whose result is not looked at. -/
def advance (fuel : ℕ) (c : Cursor) (sep : UInt8) : Option Cursor :=
  (c.nextToken fuel sep).map Prod.snd

/-- The calls until one returns NULL, with a bound on their number: what they return. -/
def tokens (fuel : ℕ) (sep : UInt8) : ℕ → Cursor → Option (List ℕ × Cursor)
  | 0, _ => none
  | rounds + 1, c =>
    match c.nextToken fuel sep with
    | none => none
    | some (none, c) => some ([], c)
    | some (some start, c) => (tokens fuel sep rounds c).map fun x => (start :: x.1, x.2)

end Cursor

variable {c c' : Cursor} {sep : UInt8} {s rest rest' : List UInt8} {r : Option ℕ} {fuel : ℕ}

/-! ### One call -/

/-- What a call does to a line `s`: it returns a pointer or NULL and leaves a rest of the line. -/
inductive TokenStep (sep : UInt8) (c : Cursor) :
    List UInt8 → Option ℕ → Cursor → List UInt8 → Prop
  /-- There are only separators. -/
  | null (n : ℕ) : TokenStep sep c (List.replicate n sep) none ⟨c.mem, c.pos + n⟩ []
  /-- The token goes to the end of the line. -/
  | last (n : ℕ) (tok : List UInt8) (hne : tok ≠ []) (hsep : sep ∉ tok) :
      TokenStep sep c (List.replicate n sep ++ tok) (some (c.pos + n))
        ⟨c.mem, c.pos + n + tok.length⟩ []
  /-- The token goes to a separator, which is overwritten. -/
  | cut (n : ℕ) (tok rest : List UInt8) (hne : tok ≠ []) (hsep : sep ∉ tok) :
      TokenStep sep c (List.replicate n sep ++ (tok ++ sep :: rest)) (some (c.pos + n))
        ⟨Function.update c.mem (c.pos + n + tok.length) 0, c.pos + n + tok.length + 1⟩ rest

/-- The first loop stops behind the separators. -/
lemma scan_separators {n : ℕ} {t : List UInt8} (h : Text c.mem c.pos (List.replicate n sep ++ t))
    (hstop : c.mem (c.pos + n) ≠ sep) (hfuel : n < fuel) :
    scan (fun x => x ≠ sep) c.mem fuel c.pos = some (c.pos + n) := by
  refine scan_eq hfuel (fun j hj => ?_) (decide_eq_true hstop)
  have hj' : j < (List.replicate n sep).length := by rwa [List.length_replicate]
  have hsame := h.forall_left (P := (· = sep)) (fun x hx => List.eq_of_mem_replicate hx) hj'
  exact decide_eq_false (not_not_intro hsame)

/-- The second one stops behind the token. -/
lemma scan_token {m : ℕ → UInt8} {p : ℕ} {tok tail : List UInt8} (h : Text m p (tok ++ tail))
    (hsep : sep ∉ tok) (htail : ∀ x ∈ tail.head?, x = sep) (hfuel : tok.length < fuel) :
    scan (fun x => x = 0 ∨ x = sep) m fuel p = some (p + tok.length) := by
  refine scan_eq hfuel (fun j hj => decide_eq_false ?_) (decide_eq_true ?_)
  · have hchar : ∀ x ∈ tok, ¬ (x = 0 ∨ x = sep) := by
      rintro x hx (h0 | hs)
      · exact h.ne_zero x (List.mem_append_left _ hx) h0
      · exact hsep (hs ▸ hx)
    exact h.forall_left hchar hj
  · have hrest := h.right
    cases tail with
    | nil => exact .inl hrest
    | cons x tail => exact .inr (hrest.1.trans (htail x rfl))

/-- **What a call does**, if its loops have enough rounds. -/
lemma nextToken_step (h : Text c.mem c.pos s) (hsep : sep ≠ 0) (hfuel : s.length < fuel) :
    ∃ r c' rest, c.nextToken fuel sep = some (r, c') ∧ TokenStep sep c s r c' rest := by
  rcases exists_piece sep s with ⟨n, rfl⟩ | ⟨n, tok, tail, rfl, hne, hnot, htail⟩
  · have hstop : c.mem (c.pos + n) = 0 := by simpa using h.stop
    have hscan : scan _ c.mem fuel c.pos = _ := scan_separators (n := n) (t := [])
      (by rwa [List.append_nil]) (hstop ▸ hsep.symm) (by simpa using hfuel)
    refine ⟨none, _, [], ?_, .null n⟩
    rw [Cursor.nextToken, hscan]
    exact if_pos hstop
  · have htok : Text c.mem (c.pos + n) (tok ++ tail) := h.behind
    simp only [List.length_append, List.length_replicate] at hfuel
    have hfirst : ∀ {P : UInt8 → Prop}, (∀ x ∈ tok, P x) → P (c.mem (c.pos + n)) := fun hP =>
      htok.forall_left (j := 0) hP (List.length_pos_of_ne_nil hne)
    have hother := hfirst (P := (· ≠ sep)) fun x hx hs => hnot (hs ▸ hx)
    have hscan := scan_separators h hother (by omega : n < fuel)
    have hscan' := scan_token htok hnot htail (by omega : tok.length < fuel)
    have hzero := hfirst fun x hx => htok.ne_zero x (List.mem_append_left _ hx)
    have hend := htok.right
    rw [Cursor.nextToken, hscan]
    dsimp only
    rw [if_neg hzero, hscan']
    cases tail with
    | nil =>
      rw [List.append_nil]
      refine ⟨_, _, [], ?_, .last n tok hne hnot⟩
      exact if_neg fun hs => hsep (hs.symm.trans hend)
    | cons x rest =>
      obtain rfl := htail x rfl
      refine ⟨_, _, rest, ?_, .cut n tok rest hne hnot⟩
      exact if_pos hend.1

/-! ### What is left -/

/-- The cursor stands at the rest of a line, which is as it was. -/
structure Remainder (m : ℕ → UInt8) (a : ℕ) (s : List UInt8) (c : Cursor) (rest : List UInt8) :
    Prop where
  /-- What is left is the end of the line. -/
  split : ∃ gone, s = gone ++ rest ∧ c.pos = a + gone.length
  /-- It is there, up to the terminator of the line. -/
  text : Text c.mem c.pos rest
  /-- No byte from there on has been written to, and none in front of the line. -/
  untouched : ∀ i, i < a ∨ c.pos ≤ i → c.mem i = m i

lemma Remainder.length {m : ℕ → UInt8} {a : ℕ} (h : Remainder m a s c rest) :
    a ≤ c.pos ∧ c.pos + rest.length = a + s.length := by
  obtain ⟨gone, rfl, hpos⟩ := h.split
  rw [List.length_append, hpos]
  omega

lemma Remainder.trans {m : ℕ → UInt8} {a : ℕ} (h : Remainder m a s c rest)
    (h' : Remainder c.mem c.pos rest c' rest') : Remainder m a s c' rest' := by
  obtain ⟨gone, rfl, hpos⟩ := h.split
  obtain ⟨gone', rfl, hpos'⟩ := h'.split
  refine ⟨⟨gone ++ gone', (List.append_assoc ..).symm, ?_⟩, h'.text, fun i hi => ?_⟩
  · rw [List.length_append, hpos', hpos, Nat.add_assoc]
  · rw [h'.untouched i (by omega), h.untouched i (by omega)]

/-- **A call leaves the rest of the line untouched.** -/
lemma TokenStep.remainder (h : TokenStep sep c s r c' rest) (hs : Text c.mem c.pos s) :
    Remainder c.mem c.pos s c' rest := by
  cases h with
  | null n =>
    refine ⟨⟨List.replicate n sep, (List.append_nil _).symm, ?_⟩, ?_, fun _ _ => rfl⟩
    · rw [List.length_replicate]
    · simpa using hs.stop
  | last n tok hne hnot =>
    refine ⟨⟨List.replicate n sep ++ tok, (List.append_nil _).symm, ?_⟩, ?_, fun _ _ => rfl⟩
    · rw [List.length_append, List.length_replicate, Nat.add_assoc]
    · simpa [Nat.add_assoc] using hs.stop
  | cut n tok _ hne hnot =>
    have hrest : Text c.mem (c.pos + n + tok.length + 1) rest := hs.behind.right.2.2
    have hsame : ∀ i, i ≠ c.pos + n + tok.length →
        Function.update c.mem (c.pos + n + tok.length) 0 i = c.mem i := fun i hi =>
      Function.update_of_ne hi _ _
    refine ⟨⟨List.replicate n sep ++ (tok ++ [sep]), by simp, ?_⟩, ?_, fun i hi => hsame i ?_⟩
    · simp only [List.length_append, List.length_replicate, List.length_singleton]
      omega
    · exact hrest.congr fun i hi _ => hsame i (by omega)
    · dsimp only at hi
      omega

/-- The line has a token at the place `n`, which is terminated in its place; behind it there were
`e` separators, one or none, and then what is left. -/
structure Found (sep : UInt8) (c : Cursor) (s : List UInt8) (n : ℕ) (tok : List UInt8) (e : ℕ)
    (c' : Cursor) (rest : List UInt8) : Prop where
  line : s = List.replicate n sep ++ (tok ++ (List.replicate e sep ++ rest))
  ne_nil : tok ≠ []
  sep_notMem : sep ∉ tok
  text : Text c'.mem (c.pos + n) tok
  pos : c'.pos = c.pos + n + tok.length + e
  one : e ≤ 1
  last : e = 0 → rest = []

lemma TokenStep.found (h : TokenStep sep c s r c' rest) (hs : Text c.mem c.pos s) {p : ℕ}
    (hr : r = some p) : ∃ n tok e, p = c.pos + n ∧ Found sep c s n tok e c' rest := by
  cases h with
  | null n => cases hr
  | last n tok hne hnot =>
    refine ⟨n, tok, 0, (Option.some.inj hr).symm, ?_⟩
    exact ⟨by simp, hne, hnot, hs.behind, rfl, Nat.zero_le 1, fun _ => rfl⟩
  | cut n tok _ hne hnot =>
    refine ⟨n, tok, 1, (Option.some.inj hr).symm, rfl, hne, hnot, ?_, rfl, le_rfl,
      fun h => absurd h Nat.one_ne_zero⟩
    refine hs.behind.cut (fun i _ hi => Function.update_of_ne hi.ne _ _) ?_
    exact Function.update_self ..

lemma Found.head {n e : ℕ} {tok : List UInt8} (h : Found sep c s n tok e c' rest) :
    ∀ x ∈ (List.replicate e sep ++ rest).head?, x = sep := by
  cases e with
  | zero => simp [h.last rfl]
  | succ e => simp [List.replicate_succ]

/-- Each token takes something off the line. -/
lemma Found.length_lt {n e : ℕ} {tok : List UInt8} (h : Found sep c s n tok e c' rest) :
    rest.length < s.length := by
  have hpos := List.length_pos_of_ne_nil h.ne_nil
  rw [h.line]
  simp only [List.length_append, List.length_replicate]
  omega

lemma TokenStep.pieces_null (h : TokenStep sep c s none c' rest) : Pieces sep s [] := by
  cases h with
  | null n =>
    have hnil : Pieces sep [] [] := pieces_nil
    have hpieces := hnil.replicate_append n
    rwa [List.append_nil] at hpieces

/-! ### Calls until NULL -/

/-- From the line `s` the pointers `starts` were returned, and then NULL. -/
structure Tokenised (sep : UInt8) (c : Cursor) (s : List UInt8) (toks : List (ℕ × List UInt8))
    (starts : List ℕ) (c' : Cursor) : Prop where
  /-- The tokens are the longest stretches of the line without separators, from left to right. -/
  pieces : Pieces sep s toks
  /-- The pointers are those to their first characters. -/
  starts_eq : starts = toks.map fun x => c.pos + x.1
  /-- Each token is a string in its place. -/
  texts : ∀ x ∈ toks, Text c'.mem (c.pos + x.1) x.2
  /-- Nothing outside the line has been written to. -/
  outside : ∀ i, i < c.pos ∨ c.pos + s.length ≤ i → c'.mem i = c.mem i

variable {c₁ : Cursor} {toks : List (ℕ × List UInt8)} {starts : List ℕ}

/-- A call returns a token, and the later ones tokenise what it leaves. -/
lemma Tokenised.cons (h : Tokenised sep c₁ rest toks starts c') {n e : ℕ} {tok : List UInt8}
    (hfound : Found sep c s n tok e c₁ rest) (hrem : Remainder c.mem c.pos s c₁ rest) :
    Tokenised sep c s (shift n ((0, tok) :: shift tok.length (shift e toks)))
      ((c.pos + n) :: starts) c' := by
  have hpos := hfound.pos
  have hlen := hrem.length
  have hend : e = 0 → rest.length = 0 := fun he => by rw [hfound.last he, List.length_nil]
  refine ⟨?_, ?_, fun x hx => ?_, fun i hi => ?_⟩
  · have hrest := h.pieces.replicate_append e
    rw [hfound.line]
    exact (hrest.append hfound.ne_nil hfound.sep_notMem hfound.head).replicate_append n
  · rw [h.starts_eq, hpos]
    simp [shift, Nat.add_assoc]
  · obtain ⟨j, hj, hmem⟩ := mem_shift.1 hx
    rcases List.mem_cons.1 hmem with heq | hmem
    · -- the later calls write behind the token and its terminator
      obtain ⟨rfl, htok⟩ := Prod.mk.inj heq
      rw [hj, htok, Nat.add_zero]
      exact hfound.text.congr fun i hi hi' => h.outside i (by omega)
    · rw [shift_shift] at hmem
      obtain ⟨j', rfl, hlater⟩ := mem_shift.1 hmem
      have htext := h.texts _ hlater
      have haddr : c₁.pos + j' = c.pos + x.1 := by
        rw [hpos, hj]
        omega
      rwa [haddr] at htext
  · rw [h.outside i (by omega), hrem.untouched i (by omega)]

/-- **The tokens of a line.** -/
lemma tokens_tokenised (hsep : sep ≠ 0) {rounds : ℕ} (h : Text c.mem c.pos s)
    (hfuel : s.length < fuel) (hrounds : s.length < rounds) :
    ∃ toks starts c', Cursor.tokens fuel sep rounds c = some (starts, c') ∧
      Tokenised sep c s toks starts c' := by
  induction rounds generalizing c s with
  | zero => exact absurd hrounds (Nat.not_lt_zero _)
  | succ rounds ih =>
    obtain ⟨r, c₁, rest, hcall, hstep⟩ := nextToken_step h hsep hfuel
    have hrem := hstep.remainder h
    rw [Cursor.tokens, hcall]
    cases r with
    | none =>
      have hpieces := hstep.pieces_null
      cases hstep with
      | null n =>
        exact ⟨[], [], _, rfl, hpieces, rfl, fun x hx => absurd hx List.not_mem_nil,
          fun _ _ => rfl⟩
    | some p =>
      obtain ⟨n, tok, e, rfl, hfound⟩ := hstep.found h rfl
      have hshorter := hfound.length_lt
      obtain ⟨toks, starts, c', hrun, ht⟩ := ih hrem.text (by omega) (by omega)
      refine ⟨_, _, c', ?_, ht.cons hfound hrem⟩
      dsimp only
      rw [hrun]
      rfl

/-! ### Characters -/

/-- A byte as a character. -/
abbrev chr (b : UInt8) : Char := Char.ofUInt8 b

lemma chr_injective : Function.Injective chr := by
  intro a b h
  have hnat := congrArg Char.toNat h
  exact UInt8.toNat_inj.1 (by simpa [Char.ofUInt8, Char.toNat] using hnat)

lemma nextToken_null (n : ℕ) (x : Char) : nextToken (List.replicate n x) x = none := by
  simp [nextToken]

lemma nextToken_append (n : ℕ) {x : Char} {tok tail : List Char} (hne : tok ≠ []) (hnot : x ∉ tok)
    (htail : ∀ y ∈ tail.head?, y = x) :
    nextToken (List.replicate n x ++ (tok ++ tail)) x = some (tok, tail.tail) := by
  have hdrop : (List.replicate n x ++ (tok ++ tail)).dropWhile (· = x) = tok ++ tail := by
    obtain ⟨y, tok, rfl⟩ := List.exists_cons_of_ne_nil hne
    have hy : y ≠ x := fun h => hnot (h ▸ List.mem_cons_self)
    rw [List.dropWhile_append_of_pos (by simp), List.cons_append,
      List.dropWhile_cons_of_neg (by simpa using hy)]
  have hall : ∀ y ∈ tok, decide (y ≠ x) = true := fun y hy =>
    decide_eq_true fun h => hnot (h ▸ hy)
  have hstop : tail.takeWhile (· ≠ x) = [] ∧ tail.dropWhile (· ≠ x) = tail := by
    cases tail with
    | nil => exact ⟨rfl, rfl⟩
    | cons y tail => simp [htail y rfl]
  have hcons : tok ++ tail ≠ [] := List.append_ne_nil_of_left_ne_nil hne tail
  rw [nextToken, hdrop]
  split
  · exact absurd ‹_› hcons
  · rw [List.takeWhile_append_of_pos hall, List.dropWhile_append_of_pos hall, hstop.1, hstop.2,
      List.append_nil]

/-- **A call is `Shell.nextToken` on the characters**: it returns NULL where that returns
nothing. -/
lemma TokenStep.nextToken_chr (h : TokenStep sep c s none c' rest) :
    nextToken (s.map chr) (chr sep) = none := by
  cases h with
  | null n =>
    rw [List.map_replicate]
    exact nextToken_null n _

/-- Otherwise both find the same token, and leave the same characters. -/
lemma Found.nextToken_chr {n e : ℕ} {tok : List UInt8} (h : Found sep c s n tok e c' rest) :
    nextToken (s.map chr) (chr sep) = some (tok.map chr, rest.map chr) := by
  have hnot : chr sep ∉ tok.map chr := fun hmem =>
    h.sep_notMem ((List.mem_map_of_injective chr_injective).1 hmem)
  have hhead : ∀ y ∈ ((List.replicate e sep ++ rest).map chr).head?, y = chr sep := by
    intro y hy
    rw [List.head?_map, Option.mem_map] at hy
    obtain ⟨x, hx, rfl⟩ := hy
    rw [h.head x hx]
  have htail : (List.replicate e sep ++ rest).tail = rest := by
    rcases Nat.le_one_iff_eq_zero_or_eq_one.1 h.one with rfl | rfl
    · rw [h.last rfl]
      rfl
    · rfl
  have hne : tok.map chr ≠ [] := by simpa using h.ne_nil
  rw [h.line, List.map_append, List.map_replicate, List.map_append,
    nextToken_append n hne hnot hhead,
    ← List.map_tail, htail]

/-- **The stages of a pipeline** are the longest stretches of the line without a `|`, as long as
there is room for them. -/
theorem splitLine_pieces (h : Text c.mem c.pos s) (hpieces : Pieces 0x7C s toks) {rounds : ℕ}
    (hrounds : s.length < rounds) {seg : List (List Char)} (hseg : seg.length ≤ shellMaxSegs) :
    splitLine rounds (s.map chr) seg = if seg.length + toks.length ≤ shellMaxSegs then
      some (seg ++ toks.map fun x => x.2.map chr) else none := by
  have hsep : (0x7C : UInt8) ≠ 0 := by decide
  have hbar : '|' = chr 0x7C := by decide
  induction rounds generalizing c s toks seg with
  | zero => exact absurd hrounds (Nat.not_lt_zero _)
  | succ rounds ih =>
    obtain ⟨r, c₁, rest, -, hstep⟩ := nextToken_step h hsep (Nat.lt_succ_self s.length)
    have hrem := hstep.remainder h
    rw [splitLine, hbar]
    cases r with
    | none =>
      obtain rfl := hpieces.unique hstep.pieces_null
      rw [hstep.nextToken_chr]
      simp [hseg]
    | some p =>
      obtain ⟨n, tok, e, rfl, hfound⟩ := hstep.found h rfl
      have hshorter := hfound.length_lt
      have hmore := Nat.lt_succ_self rest.length
      obtain ⟨toks', starts, c', -, ht⟩ := tokens_tokenised hsep hrem.text hmore hmore
      obtain rfl := hpieces.unique (ht.cons hfound hrem).pieces
      have hlen : (shift n ((0, tok) :: shift tok.length (shift e toks'))).length =
          toks'.length + 1 := by simp [shift]
      have hmap : (shift n ((0, tok) :: shift tok.length (shift e toks'))).map
          (fun x => x.2.map chr) = tok.map chr :: toks'.map fun x => x.2.map chr := by
        simp [shift]
      rw [hfound.nextToken_chr, hlen, hmap]
      dsimp only
      by_cases hfull : shellMaxSegs ≤ seg.length
      · rw [if_pos hfull, if_neg (by omega)]
      · have hseg' : (seg ++ [tok.map chr]).length = seg.length + 1 := by simp
        rw [if_neg hfull, ih hrem.text ht.pieces (by omega) (by omega), hseg', List.append_assoc,
          List.singleton_append]
        exact if_congr (by omega) rfl rfl

/-! ### Every line -/

/-- Some calls, whatever their separators. -/
lemma exists_calls {m : ℕ → UInt8} {a : ℕ} {seps : List UInt8} (hseps : ∀ x ∈ seps, x ≠ 0)
    (h : Remainder m a s c rest) (hfuel : s.length < fuel) :
    ∃ c' rest', Runs.exec (Cursor.advance fuel) c seps = some c' ∧ Remainder m a s c' rest' := by
  induction seps generalizing c rest with
  | nil => exact ⟨c, rest, rfl, h⟩
  | cons x seps ih =>
    obtain ⟨hx, hseps⟩ := List.forall_mem_cons.1 hseps
    have hlen := h.length
    obtain ⟨r, c₁, rest₁, hcall, hstep⟩ := nextToken_step h.text hx (by omega : rest.length < fuel)
    obtain ⟨c', rest', hrun, hrem⟩ := ih hseps (h.trans (hstep.remainder h.text))
    refine ⟨c', rest', ?_, hrem⟩
    rw [Runs.exec, Cursor.advance, hcall]
    exact hrun

/-- **Tokenising is exact.** After any calls, with any separators, the position is at a rest of the
line that is as it was. One more call returns the first token of that rest, or NULL if there is
none, and leaves what comes after it as it was. Calls with one separator until NULL return exactly
the longest stretches without it, in order, each terminated in its place. -/
theorem next_token_exact {m : ℕ → UInt8} {a : ℕ} {s : List UInt8} (hline : Text m a s)
    {seps : List UInt8} (hseps : ∀ x ∈ seps, x ≠ 0) {sep : UInt8} (hsep : sep ≠ 0) {fuel : ℕ}
    (hfuel : s.length < fuel) :
    ∃ c rest, Runs.exec (Cursor.advance fuel) ⟨m, a⟩ seps = some c ∧ Remainder m a s c rest ∧
      (∃ r c' rest', c.nextToken fuel sep = some (r, c') ∧ TokenStep sep c rest r c' rest' ∧
        Remainder m a s c' rest') ∧
      ∃ toks starts c', Cursor.tokens fuel sep fuel c = some (starts, c') ∧
        Tokenised sep c rest toks starts c' := by
  have hself : Remainder m a s ⟨m, a⟩ s := ⟨⟨[], rfl, rfl⟩, hline, fun _ _ => rfl⟩
  obtain ⟨c, rest, hrun, hrem⟩ := exists_calls hseps hself hfuel
  have hlen := hrem.length
  have hrest : rest.length < fuel := by omega
  obtain ⟨r, c', rest', hcall, hstep⟩ := nextToken_step hrem.text hsep hrest
  refine ⟨c, rest, hrun, hrem, ⟨r, c', rest', hcall, hstep, ?_⟩, ?_⟩
  · exact hrem.trans (hstep.remainder hrem.text)
  · exact tokens_tokenised hsep hrem.text hrest hrest

/-- The line `a |b` at the address 0. -/
def sampleLine : ℕ → UInt8 := fun i => [0x61, 0x20, 0x7C, 0x62].getD i 0

/-- One token up to the space, then the rest cut at `|`. -/
theorem next_token_exact_sampleLine :
    Text sampleLine 0 [0x61, 0x20, 0x7C, 0x62] ∧
      ∃ c rest, Runs.exec (Cursor.advance 5) ⟨sampleLine, 0⟩ [0x20] = some c ∧
        Remainder sampleLine 0 [0x61, 0x20, 0x7C, 0x62] c rest ∧
        ∃ toks c', Cursor.tokens 5 0x7C 5 c = some ([3], c') ∧
          Tokenised 0x7C c rest toks [3] c' := by
  have hline : Text sampleLine 0 [0x61, 0x20, 0x7C, 0x62] := by decide +kernel
  have hseps : ∀ x ∈ ([0x20] : List UInt8), x ≠ 0 := by decide +kernel
  have hsep : (0x7C : UInt8) ≠ 0 := by decide
  have hfuel : [0x61, 0x20, 0x7C, 0x62].length < 5 := by decide
  have hstarts : (Runs.exec (Cursor.advance 5) ⟨sampleLine, 0⟩ [0x20]).bind (fun c =>
      (Cursor.tokens 5 0x7C 5 c).map Prod.fst) = some [3] := by
    decide +kernel
  obtain ⟨c, rest, hrun, hrem, -, toks, starts, c', htokens, ht⟩ :=
    next_token_exact hline hseps hsep hfuel
  rw [hrun, Option.bind_some, htokens] at hstarts
  obtain rfl : starts = [3] := Option.some.inj hstarts
  exact ⟨hline, c, rest, hrun, hrem, toks, c', htokens, ht⟩

/-- It has two stages. -/
theorem splitLine_pieces_sampleLine : ∃ toks, Pieces 0x7C [0x61, 0x20, 0x7C, 0x62] toks ∧
    splitLine 5 ([0x61, 0x20, 0x7C, 0x62].map chr) [] =
      if 0 + toks.length ≤ shellMaxSegs then some (toks.map fun x => x.2.map chr) else none := by
  have hline : Text sampleLine 0 [0x61, 0x20, 0x7C, 0x62] := by decide +kernel
  obtain ⟨toks, starts, c', -, ht⟩ : ∃ toks starts c',
      Cursor.tokens 5 0x7C 5 ⟨sampleLine, 0⟩ = some (starts, c') ∧
        Tokenised 0x7C ⟨sampleLine, 0⟩ [0x61, 0x20, 0x7C, 0x62] toks starts c' :=
    tokens_tokenised (by decide) hline (by decide) (by decide)
  exact ⟨toks, ht.pieces,
    splitLine_pieces (c := ⟨sampleLine, 0⟩) hline ht.pieces (by decide) (Nat.zero_le _)⟩

end TownOS.Shell

import TownOS.Fat32.Accounting

/-!
Names as callers write them and as they are stored (`name_to_83`, `name_from_83`).

Two kinds of names that `name_to_83` accepts do not do what their caller expects. A stored
name that starts with the marker of a deleted slot is skipped by every walk, so a file
written under it cannot be found. And the padding of a stored name is made of spaces, so a
name with a space before other characters is cut short when it is listed.

* `nameTo83_stored`: what the bytes of an accepted name are;
* `nameTo83_parts`: how a base and an extension are stored;
* `nameTo83_nameFrom83`: what becomes of a stored name that is displayed and stored again;
* `listed_name_opens_iff`: the name a listing shows leads back to the entry exactly if no
  space stands before another character;
* `accepted_name_findable_iff`: a file is found under the name it was written with exactly if
  the name does not start with the deleted marker.
-/

namespace TownOS

open Durable Bytes

/-! ### Stored names -/

section Stored

variable {name out base ext rest b e : List UInt8} {w : Name83}

/-- A byte of a stored name: not a terminator, and in upper case. -/
def StoredByte (c : UInt8) : Prop := c ≠ 0 ∧ toUpper c = c

lemma toUpper_toUpper (c : UInt8) : toUpper (toUpper c) = toUpper c := by
  apply UInt8.toNat_inj.mp
  rw [toUpper_toNat, toUpper_toNat]
  split_ifs <;> omega

lemma toUpper_eq_of_lt {c d : UInt8} (hd : d.toNat < 65) (h : toUpper c = d) : c = d := by
  have hnat := toUpper_toNat c
  rw [h] at hnat
  split_ifs at hnat with hc
  · omega
  · exact UInt8.toNat_inj.mp hnat.symm

lemma storedByte_toUpper {c : UInt8} (hc : c ≠ 0) : StoredByte (toUpper c) :=
  ⟨fun h => hc (toUpper_eq_of_lt (by decide) h), toUpper_toUpper c⟩

lemma storedByte_space : StoredByte 0x20 := ⟨by decide, by decide⟩

lemma baseTo83_stored (h : baseTo83 name out = some (base, rest))
    (hout : ∀ c ∈ out, StoredByte c ∧ c ≠ 0x2E) : ∀ c ∈ base, StoredByte c ∧ c ≠ 0x2E := by
  induction name generalizing out with
  | nil =>
    obtain ⟨rfl, -⟩ := Prod.mk.inj (Option.some.inj h)
    exact hout
  | cons c cs ih =>
    rw [baseTo83] at h
    split_ifs at h with h1 h2
    · obtain ⟨rfl, -⟩ := Prod.mk.inj (Option.some.inj h)
      exact hout
    · push Not at h1
      refine ih h fun d hd => ?_
      rcases List.mem_append.mp hd with hd | hd
      · exact hout d hd
      · rw [List.mem_singleton.mp hd]
        exact ⟨storedByte_toUpper h1.1, fun hdot => h1.2 (toUpper_eq_of_lt (by decide) hdot)⟩

lemma extTo83_stored (h : extTo83 name out = some ext) (hout : ∀ c ∈ out, StoredByte c) :
    ∀ c ∈ ext, StoredByte c := by
  induction name generalizing out with
  | nil =>
    obtain rfl := Option.some.inj h
    exact hout
  | cons c cs ih =>
    rw [extTo83] at h
    split_ifs at h with h1 h2
    · obtain rfl := Option.some.inj h
      exact hout
    · refine ih h fun d hd => ?_
      rcases List.mem_append.mp hd with hd | hd
      · exact hout d hd
      · rw [List.mem_singleton.mp hd]
        exact storedByte_toUpper h1

lemma dotTo83_stored (h : dotTo83 rest = some ext) : ∀ c ∈ ext, StoredByte c := by
  cases rest with
  | nil =>
    obtain rfl := Option.some.inj h
    simp
  | cons c cs =>
    rw [dotTo83] at h
    split_ifs at h
    · exact extTo83_stored h (by simp)
    · obtain rfl := Option.some.inj h
      simp

lemma getD_stored {P : UInt8 → Prop} {l : List UInt8} (hl : ∀ c ∈ l, P c) (hspace : P 0x20)
    (k : ℕ) :
    P (l.getD k 0x20) := by
  rw [List.getD_eq_getElem?_getD]
  cases hk : l[k]? with
  | none => exact hspace
  | some c => exact hl c (List.mem_of_getElem? hk)

/-- The bytes of an accepted name: no terminator, no small letter, and no dot in the base. -/
lemma nameTo83_stored (h : nameTo83 name = some w) (k : Fin 11) :
    StoredByte (w k) ∧ (k.val < 8 → w k ≠ 0x2E) := by
  rw [nameTo83] at h
  split at h
  · cases h
  · rename_i base rest hbase
    split_ifs at h
    obtain ⟨ext, hext, rfl⟩ := Option.map_eq_some_iff.mp h
    have hb := baseTo83_stored hbase (by simp)
    rw [pad83]
    split_ifs with hk
    · obtain ⟨h1, h2⟩ := getD_stored hb ⟨storedByte_space, by decide⟩ k.val
      exact ⟨h1, fun _ => h2⟩
    · exact ⟨getD_stored (dotTo83_stored hext) storedByte_space _, fun hlt => absurd hlt hk⟩

/-- The base-name loop goes over stored bytes as they are. -/
lemma baseTo83_append (hb : ∀ c ∈ b, StoredByte c ∧ c ≠ 0x2E) (hlen : out.length + b.length ≤ 8) :
    baseTo83 (b ++ rest) out = baseTo83 rest (out ++ b) := by
  induction b generalizing out with
  | nil => rw [List.nil_append, List.append_nil]
  | cons c cs ih =>
    obtain ⟨⟨h0, hup⟩, hdot⟩ := hb c (by simp)
    rw [List.length_cons] at hlen
    rw [List.cons_append, baseTo83, if_neg (by simp [h0, hdot]), if_neg (by omega), hup,
      ih (fun d hd => hb d (by simp [hd])) (by simp; omega), List.append_assoc,
      List.singleton_append]

lemma extTo83_eq (he : ∀ c ∈ e, StoredByte c) (hlen : out.length + e.length ≤ 3) :
    extTo83 e out = some (out ++ e) := by
  induction e generalizing out with
  | nil => rw [extTo83, List.append_nil]
  | cons c cs ih =>
    obtain ⟨h0, hup⟩ := he c (by simp)
    rw [List.length_cons] at hlen
    rw [extTo83, if_neg h0, if_neg (by omega), hup,
      ih (fun d hd => he d (by simp [hd])) (by simp; omega),
      List.append_assoc, List.singleton_append]

lemma nameTo83_parts (hb : ∀ c ∈ b, StoredByte c ∧ c ≠ 0x2E) (hb8 : b.length ≤ 8) (hb0 : b ≠ [])
    (he : ∀ c ∈ e, StoredByte c) (he3 : e.length ≤ 3) :
    nameTo83 (b ++ 0x2E :: e) = some (pad83 b e) := by
  have hbase : baseTo83 (b ++ 0x2E :: e) [] = some (b, 0x2E :: e) := by
    rw [baseTo83_append hb (by simpa using hb8), List.nil_append, baseTo83, if_pos (.inr rfl)]
  rw [nameTo83, hbase]
  dsimp only
  rw [if_neg (by simpa using hb0), dotTo83, if_pos rfl, extTo83_eq he (by simpa using he3)]
  rfl

/-- A base is stored with an empty extension. -/
lemma nameTo83_base (hb : ∀ c ∈ b, StoredByte c ∧ c ≠ 0x2E) (hb8 : b.length ≤ 8) (hb0 : b ≠ []) :
    nameTo83 b = some (pad83 b []) := by
  have hbase : baseTo83 (b ++ []) [] = baseTo83 [] ([] ++ b) :=
    baseTo83_append hb (by simpa using hb8)
  rw [List.append_nil, List.nil_append, baseTo83] at hbase
  rw [nameTo83, hbase]
  dsimp only
  rw [if_neg (by simpa using hb0)]
  rfl

end Stored

/-! ### Displayed names -/

section Displayed

variable {name : List UInt8} {w : Name83}

/-- The base of a stored name, up to the first space. -/
def shownBase (w : Name83) : List UInt8 := ((List.ofFn w).take 8).takeWhile (· ≠ 0x20)

/-- The extension of a stored name, up to the first space. -/
def shownExt (w : Name83) : List UInt8 := ((List.ofFn w).drop 8).takeWhile (· ≠ 0x20)

/-- No space of a stored name stands before another character of the same half, and the base
does not start with one. -/
def Compact (w : Name83) : Prop :=
  w 0 ≠ 0x20 ∧ ∀ i j : Fin 11, i ≤ j → (i.val < 8 ↔ j.val < 8) → w i = 0x20 → w j = 0x20

instance (w : Name83) : Decidable (Compact w) := inferInstanceAs (Decidable (_ ∧ _))

lemma nameFrom83_eq (w : Name83) :
    nameFrom83 w = if w 8 ≠ 0x20 then shownBase w ++ 0x2E :: shownExt w else shownBase w := rfl

lemma mem_ofFn_take {c : UInt8} (hc : c ∈ (List.ofFn w).take 8) :
    ∃ k : Fin 11, k.val < 8 ∧ w k = c := by
  obtain ⟨i, hi, rfl⟩ := List.mem_take_iff_getElem.mp hc
  simp only [List.length_ofFn, lt_inf_iff] at hi
  exact ⟨⟨i, hi.2⟩, hi.1, (List.getElem_ofFn ..).symm⟩

/-- What is displayed is accepted, as far as its bytes go. -/
lemma shown_stored (h : nameTo83 name = some w) :
    (∀ c ∈ shownBase w, StoredByte c ∧ c ≠ 0x2E) ∧ ∀ c ∈ shownExt w, StoredByte c := by
  refine ⟨fun c hc => ?_, fun c hc => ?_⟩
  · obtain ⟨k, hk, rfl⟩ := mem_ofFn_take (List.takeWhile_subset _ hc)
    exact (nameTo83_stored h k).imp_right fun hdot => hdot hk
  · obtain ⟨k, rfl⟩ := List.mem_ofFn.mp (List.mem_of_mem_drop (List.takeWhile_subset _ hc))
    exact (nameTo83_stored h k).1

lemma shownBase_eq_nil (w : Name83) : shownBase w = [] ↔ w 0 = 0x20 := by
  have hcons : (List.ofFn w).take 8 = w 0 :: ((List.ofFn w).take 8).tail := by
    rw [List.ofFn_succ]
    rfl
  rw [shownBase, hcons, List.takeWhile_cons]
  split_ifs with h0
  · simpa using h0
  · simpa using h0

lemma shownExt_eq_nil {w : Name83} (h : w 8 = 0x20) : shownExt w = [] := by
  have hcons : (List.ofFn w).drop 8 = w 8 :: ((List.ofFn w).drop 8).tail := by
    simp [List.ofFn_succ]
  rw [shownExt, hcons, h, List.takeWhile_cons, if_neg (by simp)]

/-- Displayed and stored again, a name keeps what stands before the first spaces. -/
lemma nameTo83_nameFrom83 (h : nameTo83 name = some w) : nameTo83 (nameFrom83 w) =
    if w 0 = 0x20 then none else some (pad83 (shownBase w) (shownExt w)) := by
  obtain ⟨hb, he⟩ := shown_stored h
  have hb8 : (shownBase w).length ≤ 8 :=
    ((List.takeWhile_sublist _).length_le).trans (List.length_take_le ..)
  have he3 : (shownExt w).length ≤ 3 :=
    ((List.takeWhile_sublist _).length_le).trans (by simp)
  rw [nameFrom83_eq]
  by_cases h0 : w 0 = 0x20
  · rw [if_pos h0, (shownBase_eq_nil w).mpr h0]
    split_ifs <;> rfl
  · have hne : shownBase w ≠ [] := mt (shownBase_eq_nil w).mp h0
    rw [if_neg h0]
    split_ifs with h8
    · exact nameTo83_parts hb hb8 hne he he3
    · rw [nameTo83_base hb hb8 hne, shownExt_eq_nil (not_not.mp h8)]

/-- Dropping what follows the first space, and padding, keeps a list exactly if only spaces
follow a space. -/
lemma getD_takeWhile_iff (l : List UInt8) :
    (∀ k < l.length, (l.takeWhile (· ≠ 0x20)).getD k 0x20 = l.getD k 0x20) ↔
      ∀ i j, i ≤ j → j < l.length → l.getD i 0x20 = 0x20 → l.getD j 0x20 = 0x20 := by
  induction l with
  | nil => simp
  | cons a l ih =>
    by_cases ha : a = 0x20
    · subst ha
      rw [List.takeWhile_cons, if_neg (by simp)]
      constructor
      · intro h i j _ hj _
        exact (h j hj).symm.trans (by simp)
      · intro h k hk
        rw [h 0 k (Nat.zero_le k) hk rfl]
        simp
    · rw [List.takeWhile_cons, if_pos (by simpa using ha)]
      constructor
      · intro h i j hij hj hi
        cases i with
        | zero => exact absurd hi ha
        | succ i =>
          obtain ⟨j, rfl⟩ : ∃ j', j = j' + 1 := ⟨j - 1, by omega⟩
          refine ih.mp (fun k hk => ?_) i j (by omega) (by simpa using hj) (by simpa using hi)
          simpa using h (k + 1) (by simpa using hk)
      · intro h k hk
        cases k with
        | zero => simp
        | succ k =>
          have hrest := ih.mpr (fun i j hij hj hi => by
            simpa using h (i + 1) (j + 1) (by omega) (by simpa using hj) (by simpa using hi))
          simpa using hrest k (by simpa using hk)

lemma getD_base (w : Name83) {k : ℕ} (hk : k < 8) :
    ((List.ofFn w).take 8).getD k 0x20 = w ⟨k, by omega⟩ := by
  rw [List.getD_eq_getElem _ _ (by simp; omega), List.getElem_take, List.getElem_ofFn]

lemma getD_ext (w : Name83) {k : ℕ} (hk : k < 3) :
    ((List.ofFn w).drop 8).getD k 0x20 = w ⟨8 + k, by omega⟩ := by
  rw [List.getD_eq_getElem _ _ (by simp; omega), List.getElem_drop, List.getElem_ofFn]

lemma pad83_shown_iff (w : Name83) : pad83 (shownBase w) (shownExt w) = w ↔
    ∀ i j : Fin 11, i ≤ j → (i.val < 8 ↔ j.val < 8) → w i = 0x20 → w j = 0x20 := by
  have hbase := getD_takeWhile_iff ((List.ofFn w).take 8)
  have hext := getD_takeWhile_iff ((List.ofFn w).drop 8)
  rw [show ((List.ofFn w).take 8).length = 8 by simp] at hbase
  rw [show ((List.ofFn w).drop 8).length = 3 by simp] at hext
  constructor
  · intro h i j hij hhalf hi
    have hpad : ∀ k : Fin 11, (if k.val < 8 then (shownBase w).getD k.val 0x20 else
        (shownExt w).getD (k.val - 8) 0x20) = w k := fun k => congrFun h k
    by_cases hi8 : i.val < 8
    · have hj8 := hhalf.mp hi8
      have hkeep : ∀ k < 8, (((List.ofFn w).take 8).takeWhile (· ≠ 0x20)).getD k 0x20 =
          ((List.ofFn w).take 8).getD k 0x20 := fun k hk => by
        have hk' := hpad ⟨k, by omega⟩
        rw [if_pos (by exact hk)] at hk'
        rw [getD_base w hk]
        exact hk'
      have hj := hbase.mp hkeep i.val j.val hij hj8 (by rw [getD_base w hi8]; exact hi)
      rwa [getD_base w hj8] at hj
    · have hj8 : ¬ j.val < 8 := mt hhalf.mpr hi8
      have hkeep : ∀ k < 3, (((List.ofFn w).drop 8).takeWhile (· ≠ 0x20)).getD k 0x20 =
          ((List.ofFn w).drop 8).getD k 0x20 := fun k hk => by
        have hk' := hpad ⟨8 + k, by omega⟩
        rw [if_neg (by simp), show (8 + k) - 8 = k by omega] at hk'
        rw [getD_ext w hk]
        exact hk'
      have hle : i.val ≤ j.val := hij
      have hj := hext.mp hkeep (i.val - 8) (j.val - 8) (by omega) (by omega) (by
        rw [getD_ext w (by omega)]
        exact (congrArg w (Fin.ext (by simp; omega))).trans hi)
      rw [getD_ext w (by omega)] at hj
      exact (congrArg w (Fin.ext (by simp; omega))).trans hj
  · intro h
    funext k
    rw [pad83]
    split_ifs with hk
    · refine (hbase.mpr (fun i j hij hj hi => ?_) k.val hk).trans (getD_base w hk)
      rw [getD_base w (by omega)] at hi
      rw [getD_base w hj]
      exact h ⟨i, by omega⟩ ⟨j, by omega⟩ hij (by simp; omega) hi
    · have hk3 : k.val - 8 < 3 := by omega
      refine (hext.mpr (fun i j hij hj hi => ?_) (k.val - 8) hk3).trans ?_
      · rw [getD_ext w (by omega)] at hi
        rw [getD_ext w hj]
        exact h ⟨8 + i, by omega⟩ ⟨8 + j, by omega⟩ (Fin.mk_le_mk.mpr (by omega)) (by simp) hi
      · rw [getD_ext w hk3]
        exact congrArg w (Fin.ext (by simp; omega))

/-- **The name a listing shows leads back to the entry** exactly if no space stands before
another character: stored again it is the same name. Then `fat32_stat`, `fat32_read_file`,
`fat32_write_file` and `fat32_delete` do the same with it as with the name the file was
written under. -/
theorem listed_name_opens_iff (h : nameTo83 name = some w) :
    (nameFrom83 w).takeWhile (· ≠ 0) = nameFrom83 w ∧
    (nameTo83 (nameFrom83 w) = some w ↔ Compact w) ∧
    (Compact w → ∀ fs, fat32Stat fs (nameFrom83 w) = fat32Stat fs name ∧
      (∀ n, fat32ReadFile fs (nameFrom83 w) n = fat32ReadFile fs name n) ∧
      (∀ buf, fat32WriteFile fs (nameFrom83 w) buf = fat32WriteFile fs name buf) ∧
      fat32Delete fs (nameFrom83 w) = fat32Delete fs name) := by
  have hiff : nameTo83 (nameFrom83 w) = some w ↔ Compact w := by
    rw [nameTo83_nameFrom83 h, Compact, ← pad83_shown_iff]
    by_cases h0 : w 0 = 0x20
    · simp [h0]
    · simp [h0]
  refine ⟨?_, hiff, fun hc fs => ?_⟩
  · obtain ⟨hb, he⟩ := shown_stored h
    rw [List.takeWhile_eq_self_iff]
    intro c hc
    have hc0 : StoredByte c := by
      rw [nameFrom83_eq] at hc
      split_ifs at hc
      · rcases List.mem_append.mp hc with hc | hc
        · exact (hb c hc).1
        · rcases List.mem_cons.mp hc with rfl | hc
          · exact ⟨by decide, by decide⟩
          · exact he c hc
      · exact (hb c hc).1
    simpa using hc0.1
  · have hsame : nameTo83 (nameFrom83 w) = nameTo83 name := (hiff.mpr hc).trans h.symm
    have hlookup : lookupRootFile fs (nameFrom83 w) = lookupRootFile fs name := by
      rw [lookupRootFile, hsame, lookupRootFile]
    refine ⟨?_, fun n => ?_, fun buf => ?_, ?_⟩
    · rw [fat32Stat, hlookup, fat32Stat]
    · rw [fat32ReadFile, hlookup, fat32ReadFile]
    · rw [fat32WriteFile, hsame, fat32WriteFile]
    · rw [fat32Delete, hsame, fat32Delete]

/-- The name `a` is listed as `A`. -/
theorem listed_name_opens_iff_nameA :
    Compact nameA ∧ nameTo83 (nameFrom83 nameA) = some nameA := by
  have h : nameTo83 [0x61] = some nameA := by decide
  exact ⟨by decide, (listed_name_opens_iff h).2.1.mpr (by decide)⟩

set_option maxRecDepth 100000 in
/-- The file `A B` is listed as `A`, and under that name there is no file. -/
theorem listed_name_not_opens :
    ∃ w, nameTo83 [0x41, 0x20, 0x42] = some w ∧ nameFrom83 w = [0x41] ∧
      nameTo83 (nameFrom83 w) ≠ some w ∧
      (exec smallFs (.write [0x41, 0x20, 0x42] [1]) emptyVolume).1 = .done ∧
      ((fat32ListNames smallFs 512).run
        (exec smallFs (.write [0x41, 0x20, 0x42] [1]) emptyVolume).2 []).value =
          some ([0x41, 0x0A], 1) ∧
      (exec smallFs (.stat [0x41])
        (exec smallFs (.write [0x41, 0x20, 0x42] [1]) emptyVolume).2).1 = .failed := by
  refine ⟨fun k => if k = 0 then 0x41 else if k = 2 then 0x42 else 0x20, by decide, by decide,
    by decide, by decide +kernel, by decide +kernel, by decide +kernel⟩

end Displayed

/-! ### Files under their names -/

section Findable

variable {fs : Fs} {v u : Vol} {name buf : List UInt8} {w : Name83}

/-- A name with the deleted marker in front is never live. -/
lemma lookup_of_deleted (h : WellFormed fs v) (hw : w 0 = direntDeleted) :
    (fileMap fs v).lookup w = none := by
  rw [lookup_of_formed h.2, View.node, Option.map_eq_none_iff, Option.eq_none_iff_forall_ne_some]
  exact fun s hs => h.2.ne_deleted hs hw

/-- What is found under a name that stands for a file. -/
lemma found_of_lookup (h : WellFormed fs v) (hw : nameTo83 name = some w)
    (hfile : (fileMap fs v).lookup w = some (.file buf)) :
    (exec fs (.stat name) v).1 = .size buf.length ∧
      ∀ n, buf.length ≤ n → (exec fs (.read name n) v).1 = .bytes buf := by
  have hcont : (fileMap fs v).contents name = some buf := by
    rw [FileMap.contents, hw, Option.bind_some, hfile]
    rfl
  refine ⟨by rw [exec_stat_eq h, hcont]; rfl, fun n hn => ?_⟩
  rw [exec_read_eq h, hcont, Option.filter_some, if_pos (by simpa using hn)]
  rfl

/-- A file that is not named stays where it is and what it is. -/
lemma Untouched.lookup_eq (h : Untouched fs v u w) :
    (fileMap fs u).lookup w = (fileMap fs v).lookup w := by
  rw [fileMap, lookup_fileMap, fileMap, lookup_fileMap]
  exact h.node_eq

/-- **A file is found under the name it was written with**, exactly if the stored name does not
start with the deleted marker. If it does not, no later write of other names moves the file to
another slot or changes it. -/
theorem accepted_name_findable_iff (h : WellFormed fs v) (hw : nameTo83 name = some w)
    (hlen : buf.length + fs.bytesPerCluster ≤ 2 ^ 32)
    (hdone : (exec fs (.write name buf) v).1 = .done) :
    (((exec fs (.stat name) (exec fs (.write name buf) v).2).1 = .size buf.length ∧
        ∀ n, buf.length ≤ n →
          (exec fs (.read name n) (exec fs (.write name buf) v).2).1 = .bytes buf) ↔
      w 0 ≠ direntDeleted) ∧
    (w 0 ≠ direntDeleted → ∀ writes : List (List UInt8 × List UInt8),
      (∀ x ∈ writes, x.2.length + fs.bytesPerCluster ≤ 2 ^ 32 ∧ nameTo83 x.1 ≠ some w) →
        let u := (Runs.run (exec fs) (writes.map fun x => .write x.1 x.2)
          (exec fs (.write name buf) v).2).2
        Untouched fs (exec fs (.write name buf) v).2 u w ∧
          (exec fs (.stat name) u).1 = .size buf.length ∧
          ∀ n, buf.length ≤ n → (exec fs (.read name n) u).1 = .bytes buf) := by
  have hseen : w 0 ≠ direntDeleted → (Call.write name buf).Seen fs := fun hne =>
    ⟨fun w' hw' => Option.some.inj (hw.symm.trans hw') ▸ hne, hlen⟩
  have hfile : w 0 ≠ direntDeleted → WellFormed fs (exec fs (.write name buf) v).2 ∧
      (fileMap fs (exec fs (.write name buf) v).2).lookup w = some (.file buf) := by
    intro hne
    obtain ⟨hwf, hstep⟩ := exec_refines (hseen hne) h
    rw [FileMap.step, FileMap.write, hw] at hstep
    dsimp only at hstep
    split_ifs at hstep
    · rw [hdone] at hstep
      cases (Prod.mk.inj hstep).1
    · rw [hdone] at hstep
      cases (Prod.mk.inj hstep).1
    · rw [← (Prod.mk.inj hstep).2]
      exact ⟨hwf, Finmap.lookup_insert _⟩
  refine ⟨⟨fun hfound hdel => ?_, fun hne => ?_⟩, fun hne writes hwrites => ?_⟩
  · -- the entry is there, but no walk sees it
    have hwf : WellFormed fs (exec fs (.write name buf) v).2 := exec_write_wellFormed h hlen
    have hcont : (fileMap fs (exec fs (.write name buf) v).2).contents name = none := by
      rw [FileMap.contents, hw, Option.bind_some, lookup_of_deleted hwf hdel, Option.bind_none]
    have hstat := hfound.1
    rw [exec_stat_eq hwf, hcont] at hstat
    cases hstat
  · obtain ⟨hwf, hlookup⟩ := hfile hne
    exact found_of_lookup hwf hw hlookup
  · obtain ⟨hwf, hlookup⟩ := hfile hne
    have hcalls : ∀ c ∈ writes.map fun x => Call.write x.1 x.2,
        c.Short fs ∧ c.target ≠ some w := by
      intro c hc
      obtain ⟨x, hx, rfl⟩ := List.mem_map.mp hc
      exact hwrites x hx
    obtain ⟨hu, -, hsame⟩ := run_keeps hwf fun c hc => (hcalls c hc).1
    have hstay := hsame w fun c hc => (hcalls c hc).2
    exact ⟨hstay, found_of_lookup hu hw (hstay.lookup_eq.trans hlookup)⟩

end Findable

set_option maxRecDepth 100000 in
/-- The file `a` is written to an empty volume and found. -/
theorem accepted_name_findable_iff_emptyVolume :
    WellFormed smallFs emptyVolume ∧ nameTo83 [0x61] = some nameA ∧
      (exec smallFs (.write [0x61] [1, 2, 3]) emptyVolume).1 = .done ∧
      (exec smallFs (.stat [0x61]) (exec smallFs (.write [0x61] [1, 2, 3]) emptyVolume).2).1 =
        .size 3 := by
  have hwf : WellFormed smallFs emptyVolume := by decide
  have hname : nameTo83 [0x61] = some nameA := by decide
  have hdone : (exec smallFs (.write [0x61] [1, 2, 3]) emptyVolume).1 = .done := by decide +kernel
  refine ⟨hwf, hname, hdone, ?_⟩
  exact ((accepted_name_findable_iff hwf hname (by decide) hdone).1.mpr (by decide)).1

set_option maxRecDepth 100000 in
/-- A file whose name starts with the byte `0xE5` is written, and cannot be found. -/
theorem accepted_name_not_findable :
    WellFormed smallFs emptyVolume ∧ (nameTo83 [0xE5, 0x41]).isSome ∧
      (exec smallFs (.write [0xE5, 0x41] [1, 2, 3]) emptyVolume).1 = .done ∧
      (exec smallFs (.stat [0xE5, 0x41])
        (exec smallFs (.write [0xE5, 0x41] [1, 2, 3]) emptyVolume).2).1 = .failed :=
  ⟨by decide, by decide, by decide +kernel, by decide +kernel⟩

end TownOS

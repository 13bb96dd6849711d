import TownOS.Memory.Spaces
import TownOS.Memory.Elf

/-!
What the program loader does.

The abstract side is `prescribed`: for a list of segments, what each page holds and whether it
may be written. `Image` says that an address space has these pages and no others. One round of
`load_segment` extends an image by a page (`Image.round`); the loops follow by induction.

Every frame of the space is accounted for: those that were taken and are in no tree any more
are `lost`. A page that is mapped twice loses the frame of the first time, and a page for which
there is no table loses its frame.

* `safe_elfValidate`: validation reads only bytes of the file;
* `Created.elfLoad`: what `elf_load` leaves behind, whether it succeeds or not;
* `elfLoad_faithful`: it is safe on every file, and the pages are as the segments prescribe;
* `entry_mapped_iff`: when the entry point is in one of them.
-/

namespace TownOS.Memory

open Bytes

/-! ### The contents of a file -/

/-- A field, wherever it is. -/
def fieldAt (file : List UInt8) (offset size : ℕ) : ℕ := leNat (fun i => file.getD i 0) offset size

/-- The header. -/
def ehdrOf (file : List UInt8) : Ehdr where
  eIdent := file.take 16
  eType := fieldAt file 16 2
  eMachine := fieldAt file 18 2
  eEntry := fieldAt file 24 8
  ePhoff := fieldAt file 32 8
  ePhentsize := fieldAt file 54 2
  ePhnum := fieldAt file 56 2

/-- An entry of the program header table. -/
def phdrOf (file : List UInt8) (phoff i : ℕ) : Phdr where
  pType := fieldAt file (phoff + i * elf64PhdrSize) 4
  pFlags := fieldAt file (phoff + i * elf64PhdrSize + 4) 4
  pOffset := fieldAt file (phoff + i * elf64PhdrSize + 8) 8
  pVaddr := fieldAt file (phoff + i * elf64PhdrSize + 16) 8
  pFilesz := fieldAt file (phoff + i * elf64PhdrSize + 32) 8
  pMemsz := fieldAt file (phoff + i * elf64PhdrSize + 40) 8

/-- The `PT_LOAD` segments among some entries of the table. -/
def loadable (file : List UInt8) (phoff : ℕ) (is : List ℕ) : List Phdr :=
  (is.map (phdrOf file phoff)).filter fun ph => ph.pType = ptLoad

/-- The `PT_LOAD` segments of a file, in table order. -/
def segmentsOf (file : List UInt8) : List Phdr :=
  loadable file (ehdrOf file).ePhoff (List.range (ehdrOf file).ePhnum)

section Reading

variable {file : List UInt8}

lemma readField_eq {offset size : ℕ} (h : offset + size ≤ file.length) :
    readField file offset size = .ok (fieldAt file offset size) := if_pos h

lemma readBytes_eq {offset length : ℕ} (h : offset + length ≤ file.length) :
    readBytes file offset length = .ok ((file.drop offset).take length) := if_pos h

/-- The header is read from the first 64 bytes. -/
lemma readEhdr_eq (h : elf64EhdrSize ≤ file.length) : readEhdr file = .ok (ehdrOf file) := by
  have hle : ∀ {n}, n ≤ 64 → n ≤ file.length := fun hn => hn.trans h
  rw [readEhdr, readBytes_eq (hle (by norm_num)), readField_eq (hle (by norm_num)),
    readField_eq (hle (by norm_num)), readField_eq (hle (by norm_num)),
    readField_eq (hle (by norm_num)), readField_eq (hle (by norm_num)),
    readField_eq (hle (by norm_num))]
  rfl

lemma readPhdr_eq {phoff i n : ℕ} (hi : i < n) (h : phoff + n * elf64PhdrSize ≤ file.length) :
    readPhdr file phoff i = .ok (phdrOf file phoff i) := by
  have hle : ∀ {k}, k ≤ 56 → phoff + i * elf64PhdrSize + k ≤ file.length := by
    intro k hk
    have hmul : (i + 1) * elf64PhdrSize ≤ n * elf64PhdrSize := Nat.mul_le_mul_right _ hi
    rw [Nat.add_mul, Nat.one_mul] at hmul
    have : elf64PhdrSize = 56 := rfl
    omega
  have hfield : ∀ {k size}, k + size ≤ 56 → readField file (phoff + i * elf64PhdrSize + k) size =
      .ok (fieldAt file (phoff + i * elf64PhdrSize + k) size) :=
    fun hk => readField_eq ((Nat.add_assoc ..).trans_le (hle hk))
  rw [readPhdr, readField_eq (hle (by norm_num)), hfield (by norm_num), hfield (by norm_num),
    hfield (by norm_num), hfield (by norm_num), hfield (by norm_num)]
  rfl

end Reading

/-! ### Validation -/

/-- The file is rejected before anything is loaded, or what is returned is good. -/
inductive Safe {α : Type} (Q : α → Prop) : Except Failure α → Prop
  | ok {a : α} (h : Q a) : Safe Q (.ok a)
  | reject {r : Reason} (hr : r ≠ .noTableFrames) : Safe Q (.error (.reject r))

section Safe

variable {α β : Type} {P : α → Prop} {Q : β → Prop}

lemma Safe.bind {x : Except Failure α} {f : α → Except Failure β} (h : Safe P x)
    (hf : ∀ a, P a → Safe Q (f a)) : Safe Q (x >>= f) := by
  cases h with
  | ok h => exact hf _ h
  | reject hr => exact .reject hr

lemma Safe.mono {Q : α → Prop} {x : Except Failure α} (h : Safe P x) (hPQ : ∀ a, P a → Q a) :
    Safe Q x := by
  cases h with
  | ok h => exact .ok (hPQ _ h)
  | reject hr => exact .reject hr

lemma safe_require (check : Bool) {reason : Reason} (hr : reason ≠ .noTableFrames) :
    Safe (fun _ => check = true) (require check reason) := by
  cases check with
  | false => exact .reject hr
  | true => exact .ok rfl

end Safe

/-- What a segment of an accepted file is like. -/
structure Phdr.Valid (file : List UInt8) (ph : Phdr) : Prop where
  contents : ph.pOffset + ph.pFilesz ≤ file.length
  filesz : ph.pFilesz ≤ ph.pMemsz
  vaddr : ph.pVaddr % frameSize = 0
  memsz : ph.pMemsz % frameSize = 0

lemma rangeInFile_iff {offset length fileSize : ℕ} :
    rangeInFile offset length fileSize = true ↔ offset + length ≤ fileSize := by
  rw [rangeInFile]
  split_ifs
  · simp only [false_iff]
    omega
  · simp only [decide_eq_true_eq]
    omega

lemma isPageAligned_iff {value : ℕ} : isPageAligned value = true ↔ value % frameSize = 0 := by
  have hmod : value &&& (frameSize - 1) = value % 2 ^ 12 := Nat.and_two_pow_sub_one_eq_mod value 12
  rw [isPageAligned, decide_eq_true_eq, hmod]
  rfl

section Validation

variable {file : List UInt8} {phoff n : ℕ}

lemma safe_checkSegment (ph : Phdr) : Safe (fun _ => ph.Valid file) (checkSegment file ph) := by
  refine (safe_require _ (by decide)).bind fun _ hrange => ?_
  refine (safe_require _ (by decide)).bind fun _ hfilesz => ?_
  refine (safe_require _ (by decide)).mono fun _ halign => ?_
  obtain ⟨hv, hm⟩ := (Bool.and_eq_true _ _).mp halign
  exact ⟨rangeInFile_iff.1 hrange, of_decide_eq_true hfilesz, isPageAligned_iff.1 hv,
    isPageAligned_iff.1 hm⟩

/-- The loop over the program headers stays in the table, and checks every segment. -/
lemma safe_checkSegments (htable : phoff + n * elf64PhdrSize ≤ file.length) (is : List ℕ)
    (his : ∀ i ∈ is, i < n) (count : ℕ) :
    Safe (fun _ => ∀ ph ∈ loadable file phoff is, ph.Valid file)
      (checkSegments file phoff is count) := by
  induction is generalizing count with
  | nil => exact .ok fun _ h => absurd h List.not_mem_nil
  | cons i is ih =>
    have hrest : ∀ j ∈ is, j < n := fun j hj => his j (List.mem_cons_of_mem i hj)
    rw [checkSegments, readPhdr_eq (his i List.mem_cons_self) htable]
    change Safe _ (if (phdrOf file phoff i).pType ≠ ptLoad then _ else _)
    rw [loadable, List.map_cons]
    split_ifs with htype
    · rw [List.filter_cons_of_neg (by simpa using htype)]
      exact ih hrest count
    · rw [List.filter_cons_of_pos (by simpa using htype)]
      refine (safe_checkSegment _).bind fun _ hvalid => ?_
      refine (ih hrest (count + 1)).mono fun _ hall => ?_
      exact List.forall_mem_cons.2 ⟨hvalid, hall⟩

/-- **Validation reads only bytes of the file**, and what it accepts has its table and the contents
of its segments in the file. -/
theorem safe_elfValidate (file : List UInt8) :
    Safe (fun header => header = ehdrOf file ∧
      (ehdrOf file).ePhoff + (ehdrOf file).ePhnum * elf64PhdrSize ≤ file.length ∧
      ∀ ph ∈ segmentsOf file, ph.Valid file) (elfValidate file) := by
  rw [elfValidate]
  refine (safe_require _ (by decide)).bind fun _ hsize => ?_
  rw [readEhdr_eq (of_decide_eq_true hsize)]
  refine Safe.bind (P := fun header => header = ehdrOf file) (.ok rfl) ?_
  rintro _ rfl
  refine (safe_require _ (by decide)).bind fun _ _ => ?_
  refine (safe_require _ (by decide)).bind fun _ _ => ?_
  refine (safe_require _ (by decide)).bind fun _ _ => ?_
  refine (safe_require _ (by decide)).bind fun _ _ => ?_
  refine (safe_require _ (by decide)).bind fun _ _ => ?_
  refine (safe_require _ (by decide)).bind fun _ _ => ?_
  refine (safe_require _ (by decide)).bind fun _ hphentsize => ?_
  refine (safe_require _ (by decide)).bind fun _ _ => ?_
  refine (safe_require _ (by decide)).bind fun _ _ => ?_
  refine (safe_require _ (by decide)).bind fun _ htable => ?_
  rw [of_decide_eq_true hphentsize, rangeInFile_iff] at htable
  refine (safe_checkSegments htable _ (fun i => List.mem_range.1) 0).bind fun _ hvalid => ?_
  refine (safe_require _ (by decide)).bind fun _ _ => ?_
  exact .ok ⟨rfl, htable, hvalid⟩

end Validation

/-! ### What segments prescribe -/

namespace Phdr

/-- The address is in the segment. -/
def Covers (ph : Phdr) (va : ℕ) : Prop := ph.pVaddr ≤ va ∧ va < ph.pVaddr + ph.pMemsz

instance (ph : Phdr) (va : ℕ) : Decidable (ph.Covers va) := inferInstanceAs (Decidable (_ ∧ _))

/-- The segment is where a program may be. -/
def InWindow (ph : Phdr) : Prop :=
  elfLoadMinVaddr ≤ ph.pVaddr ∧ ph.pVaddr + ph.pMemsz ≤ elfLoadMaxVaddr

/-- The byte of a segment at an address: from the file, then zeros. -/
def byteAt (ph : Phdr) (file : List UInt8) (va : ℕ) : UInt8 :=
  if va - ph.pVaddr < ph.pFilesz then file.getD (ph.pOffset + (va - ph.pVaddr)) 0 else 0

/-- The first bytes of a segment. -/
def upTo (ph : Phdr) (page : ℕ) : Phdr := { ph with pMemsz := page }

/-- No page is in both segments. -/
def Apart (ph q : Phdr) : Prop := ∀ n, ¬(ph.Covers (n * frameSize) ∧ q.Covers (n * frameSize))

/-- For a whole number of pages an address is in the segment when its page is. -/
lemma covers_page {ph : Phdr} (hv : ph.pVaddr % frameSize = 0) (hm : ph.pMemsz % frameSize = 0)
    (va : ℕ) : ph.Covers (va / frameSize * frameSize) ↔ ph.Covers va := by
  simp only [Covers, frameSize] at *
  omega

end Phdr

/-- The last segment at an address. -/
def lastSegment (segs : List Phdr) (va : ℕ) : Option Phdr :=
  segs.reverse.find? fun ph => ph.Covers va

lemma lastSegment_concat (segs : List Phdr) (q : Phdr) (va : ℕ) :
    lastSegment (segs ++ [q]) va = if q.Covers va then some q else lastSegment segs va := by
  rw [lastSegment, List.reverse_append, List.reverse_singleton, List.singleton_append,
    List.find?_cons]
  by_cases hq : q.Covers va
  · simp only [hq, decide_true, if_true]
  · simp only [hq, decide_false, if_false, lastSegment]

lemma lastSegment_eq_none {segs : List Phdr} {va : ℕ} :
    lastSegment segs va = none ↔ ∀ ph ∈ segs, ¬ ph.Covers va := by
  simp [lastSegment, List.find?_eq_none]

lemma lastSegment_congr {segs : List Phdr} {va vb : ℕ}
    (h : ∀ ph ∈ segs, ph.Covers va ↔ ph.Covers vb) : lastSegment segs va = lastSegment segs vb := by
  refine List.find?_congr fun ph hph => ?_
  exact decide_eq_decide.2 (h ph (List.mem_reverse.1 hph))

/-- What a page is to hold: its flags, and its bytes. -/
def prescribed (file : List UInt8) (segs : List Phdr) (n : ℕ) : Option (ℕ × (ℕ → UInt8)) :=
  (lastSegment segs (n * frameSize)).map fun ph =>
    (ph.pageFlags, fun i => ph.byteAt file (n * frameSize + i))

lemma prescribed_concat (file : List UInt8) (segs : List Phdr) (q : Phdr) (n : ℕ) :
    prescribed file (segs ++ [q]) n =
      if q.Covers (n * frameSize) then
        some (q.pageFlags, fun i => q.byteAt file (n * frameSize + i))
      else prescribed file segs n := by
  rw [prescribed, lastSegment_concat]
  split_ifs <;> rfl

lemma prescribed_eq_none {file : List UInt8} {segs : List Phdr} {n : ℕ} :
    prescribed file segs n = none ↔ ∀ ph ∈ segs, ¬ ph.Covers (n * frameSize) := by
  rw [prescribed, Option.map_eq_none_iff, lastSegment_eq_none]

/-- A page is as prescribed. -/
inductive Holds (m : ℕ → UInt8) : Option Page → Option (ℕ × (ℕ → UInt8)) → Prop
  | absent : Holds m none none
  | present {x : Page} {fl : ℕ} {bytes : ℕ → UInt8} (hfl : x.flags = fl)
      (hbytes : ∀ i < frameSize, m (x.frame + i) = bytes i) : Holds m (some x) (some (fl, bytes))

lemma Holds.of_same {m m' : ℕ → UInt8} {x : Option Page} {y : Option (ℕ × (ℕ → UInt8))}
    (h : Holds m x y) (hsame : ∀ p, x = some p → SameFrame p.frame m m') : Holds m' x y := by
  cases h with
  | absent => exact .absent
  | present hfl hbytes => exact .present hfl fun i hi => (hsame _ rfl i hi).trans (hbytes i hi)

lemma Holds.eq_none_iff {m : ℕ → UInt8} {x : Option Page} {y : Option (ℕ × (ℕ → UInt8))}
    (h : Holds m x y) : x = none ↔ y = none := by
  cases h with
  | absent => exact iff_of_true rfl rfl
  | present => exact iff_of_false (Option.some_ne_none _) (Option.some_ne_none _)

/-- An address space whose pages are those of some segments, made from frames that were free in
`s₀`. -/
structure Image (file : List UInt8) (s₀ : Phys) (segs : List Phdr) (s : Phys) (V : Space)
    (lost : ℕ → Prop) : Prop where
  shows : Shows s V
  num : s.pool.numFrames = s₀.pool.numFrames
  outside : ∀ g, s.Outside V g ↔ s₀.pool.Taken g ∨ lost g
  fresh : ∀ g, lost g → ¬ s₀.pool.Taken g
  same : ∀ g, s₀.pool.Taken g → SameFrame g s₀.mem s.mem
  pages : ∀ n, Holds s.mem (V.page n) (prescribed file segs n)

/-- A new space has no segments. -/
lemma Created.image {s₀ s : Phys} {V : Space} (h : Created s₀ s V) (file : List UInt8) :
    Image file s₀ [] s V fun _ => False where
  shows := h.shows
  num := h.num
  outside := fun g => by rw [h.outside, or_false]
  fresh := fun _ h => h.elim
  same := h.same
  pages := fun n => by
    rw [h.blank n]
    exact .absent

section Rounds

variable {file : List UInt8} {s₀ s s' : Phys} {segs : List Phdr} {V : Space} {lost : ℕ → Prop}
  {ph : Phdr} {page : ℕ}

/-- Pages are where segments are. -/
lemma Image.page_eq_none_iff (h : Image file s₀ segs s V lost) (n : ℕ) :
    V.page n = none ↔ ∀ ph ∈ segs, ¬ ph.Covers (n * frameSize) :=
  (h.pages n).eq_none_iff.trans prescribed_eq_none

/-- The first bytes of a segment up to nothing are no segment. -/
lemma Image.start (h : Image file s₀ segs s V lost) (ph : Phdr) :
    Image file s₀ (segs ++ [ph.upTo 0]) s V lost := by
  refine ⟨h.shows, h.num, h.outside, h.fresh, h.same, fun n => ?_⟩
  rw [prescribed_concat, if_neg]
  · exact h.pages n
  · simp only [Phdr.Covers, Phdr.upTo]
    omega

/-- A frame is taken, and does not get into the space. -/
lemma Image.lose {f : ℕ} (h : Image file s₀ segs s V lost) (htook : Took s f s') :
    Image file s₀ segs s' V fun g => lost g ∨ g = f := by
  have hbase : ∀ {g}, s₀.pool.Taken g → s.pool.Taken g := fun hg => ((h.outside _).2 (.inl hg)).1
  refine ⟨h.shows.took htook, htook.num.trans h.num, fun g => ?_, ?_, fun g hg => ?_, fun n => ?_⟩
  · rw [← or_assoc, ← h.outside, Phys.Outside, Phys.Outside, htook.taken, or_and_right]
    refine or_congr_right ⟨And.left, ?_⟩
    rintro rfl
    exact ⟨rfl, h.shows.free_of_took htook⟩
  · rintro g (hg | rfl) hg₀
    · exact h.fresh g hg hg₀
    · exact htook.fresh (hbase hg₀)
  · exact (h.same g hg).trans
      (htook.same g ((hbase hg).isFrame h.shows.sized) (htook.ne (hbase hg)))
  · refine (h.pages n).of_same fun x hx => ?_
    have htaken := h.shows.taken (.page n) x.frame (congrArg (Option.map Page.frame) hx)
    exact htook.same x.frame (htaken.isFrame h.shows.sized) (htook.ne htaken)

/-- The bytes that one round copies. -/
lemma chunk_eq (hvalid : ph.Valid file) (page : ℕ) :
    ∃ bytes, ph.chunk file page = .ok bytes ∧ bytes.length ≤ frameSize ∧
      ∀ (m : ℕ → UInt8) (f i : ℕ), i < frameSize →
        storeAt (fill m f frameSize 0) f bytes (f + i) = ph.byteAt file (ph.pVaddr + page + i) := by
  have hcontents := hvalid.contents
  rw [Phdr.chunk]
  split_ifs with hpage
  · have hle : ph.pOffset + page + min (ph.pFilesz - page) frameSize ≤ file.length := by omega
    refine ⟨_, readBytes_eq hle, ?_, ?_⟩
    · rw [List.length_take]
      omega
    · intro m f i hi
      have hsub : ph.pVaddr + page + i - ph.pVaddr = page + i := by omega
      rw [Phdr.byteAt, hsub]
      split_ifs with hlt
      · have hi' : ph.pOffset + (page + i) < file.length := by omega
        refine storeAt_inside ?_
        rw [List.getElem?_take_of_lt (by omega), List.getElem?_drop, List.getD_eq_getElem?_getD,
          Nat.add_assoc, List.getElem?_eq_getElem hi', Option.getD_some]
      · rw [storeAt_outside, fill_inside (Nat.le_add_right _ _) (Nat.add_lt_add_left hi _)]
        rw [List.length_take, List.length_drop]
        omega
  · refine ⟨[], rfl, Nat.zero_le _, fun m f i hi => ?_⟩
    have hout : f + i < f ∨ f + ([] : List UInt8).length ≤ f + i := .inr (Nat.le_add_right f i)
    rw [storeAt_outside hout, fill_inside (Nat.le_add_right _ _) (Nat.add_lt_add_left hi _),
      Phdr.byteAt, if_neg (by omega)]

lemma upTo_covers {n p : ℕ} (hv : ph.pVaddr % frameSize = 0) (hp : page % frameSize = 0)
    (hn : n = (ph.pVaddr + page) / frameSize) :
    (ph.upTo (page + frameSize)).Covers (p * frameSize) ↔
      p = n ∨ (ph.upTo page).Covers (p * frameSize) := by
  simp only [Phdr.Covers, Phdr.upTo, frameSize] at *
  omega

/-- A new page, where the segment goes on. -/
lemma Image.mapped {s₁ : Phys} {V' : Space} {f : ℕ} (hv : ph.pVaddr % frameSize = 0)
    (hp : page % frameSize = 0) (h : Image file s₀ (segs ++ [ph.upTo page]) s V lost)
    (htook : Took s f s₁)
    (hbytes : ∀ i < frameSize, s₁.mem (f + i) = ph.byteAt file (ph.pVaddr + page + i))
    (hmap : Mapped s₁ V ((ph.pVaddr + page) / frameSize) ⟨f, ph.pageFlags⟩ s' V') :
    Image file s₀ (segs ++ [ph.upTo (page + frameSize)]) s' V'
      fun g => lost g ∨ (V.page ((ph.pVaddr + page) / frameSize)).map Page.frame = some g := by
  have h₁ := h.lose htook
  have hfree : V.Free f := h.shows.free_of_took htook
  generalize hn : (ph.pVaddr + page) / frameSize = n at hmap ⊢
  refine ⟨hmap.shows, hmap.num.trans h₁.num, fun g => ?_, ?_, fun g hg => ?_, fun p => ?_⟩
  · have hne : s₀.pool.Taken g ∨ lost g → g ≠ f := fun hg => htook.ne ((h.outside g).2 hg).1
    rw [hmap.outside, h₁.outside]
    dsimp only
    tauto
  · rintro g (hg | hg) hg₀
    · exact h.fresh g hg hg₀
    · exact ((h.outside g).2 (.inl hg₀)).2 (.page n) hg
  · obtain ⟨htaken, hg'⟩ := (h₁.outside g).2 (.inl hg)
    exact (h₁.same g hg).trans (hmap.same g htaken fun a _ => hg' a)
  · rw [prescribed_concat, hmap.page]
    by_cases hpn : p = n
    · subst hpn
      have haddr : p * frameSize = ph.pVaddr + page := by
        simp only [frameSize] at *
        omega
      have hsame := hmap.same f htook.self fun a _ => hfree a
      rw [if_pos ((upTo_covers hv hp hn.symm).2 (.inl rfl)), Function.update_self]
      refine .present rfl fun i hi => ?_
      rw [haddr]
      exact (hsame i hi).trans (hbytes i hi)
    · have hwant : prescribed file (segs ++ [ph.upTo page]) p = _ := prescribed_concat ..
      rw [Function.update_of_ne hpn, if_congr ((upTo_covers hv hp hn.symm).trans (or_iff_right hpn))
        rfl rfl]
      refine (hwant ▸ h₁.pages p).of_same fun x hx => ?_
      have hx' : V.frameAt (.page p) = some x.frame := congrArg (Option.map Page.frame) hx
      refine hmap.same x.frame (h₁.shows.taken _ _ hx') fun a ha hax => ?_
      rw [h.shows.apart _ _ _ hax hx'] at ha
      exact ha

/-- A frame is lost when two segments have a page in common. -/
def Losing (lost : ℕ → Prop) (segs : List Phdr) : Prop :=
  (∃ g, lost g) ↔ ¬ segs.Pairwise Phdr.Apart

lemma Losing.start (h : Losing lost segs) (ph : Phdr) : Losing lost (segs ++ [ph.upTo 0]) := by
  have hempty : ∀ q : Phdr, q.Apart (ph.upTo 0) := by
    rintro q n ⟨-, hcov⟩
    simp only [Phdr.Covers, Phdr.upTo] at hcov
    omega
  rw [Losing, List.pairwise_append]
  refine h.trans (not_congr ⟨fun hseg => ⟨hseg, List.pairwise_singleton .., ?_⟩, And.left⟩)
  intro q _ b hb
  rw [List.mem_singleton.1 hb]
  exact hempty q

/-- The page that comes next is there already when a segment before has it. -/
lemma Image.page_isSome_iff {n : ℕ} (h : Image file s₀ (segs ++ [ph.upTo page]) s V lost)
    (hn : ¬ (ph.upTo page).Covers (n * frameSize)) :
    (∃ g, (V.page n).map Page.frame = some g) ↔ ∃ q ∈ segs, q.Covers (n * frameSize) := by
  have hnone : V.page n = none ↔ ∀ q ∈ segs, ¬ q.Covers (n * frameSize) := by
    rw [h.page_eq_none_iff, List.forall_mem_append, List.forall_mem_singleton, and_iff_left hn]
  rw [← Option.isSome_iff_exists, Option.isSome_map, Option.isSome_iff_ne_none, Ne, hnone]
  push Not
  rfl

/-- One more page is lost when a segment before has it. -/
lemma Losing.next {n : ℕ} (hv : ph.pVaddr % frameSize = 0) (hp : page % frameSize = 0)
    (hn : (ph.pVaddr + page) / frameSize = n) (h : Image file s₀ (segs ++ [ph.upTo page]) s V lost)
    (hlost : Losing lost (segs ++ [ph.upTo page])) :
    Losing (fun g => lost g ∨ (V.page n).map Page.frame = some g)
      (segs ++ [ph.upTo (page + frameSize)]) := by
  have hnot : ¬ (ph.upTo page).Covers (n * frameSize) := by
    simp only [Phdr.Covers, Phdr.upTo, frameSize] at *
    omega
  have hapart : ∀ q : Phdr, q.Apart (ph.upTo (page + frameSize)) ↔
      q.Apart (ph.upTo page) ∧ ¬ q.Covers (n * frameSize) := by
    intro q
    simp only [Phdr.Apart, upTo_covers hv hp hn.symm]
    constructor
    · exact fun hq => ⟨fun p hcov => hq p ⟨hcov.1, .inr hcov.2⟩, fun hcov => hq n ⟨hcov, .inl rfl⟩⟩
    · rintro ⟨hq, hcov⟩ p ⟨hcov', rfl | hp⟩
      · exact hcov hcov'
      · exact hq p ⟨hcov', hp⟩
  simp only [Losing, List.pairwise_append, List.pairwise_singleton, List.mem_singleton,
    forall_eq, true_and] at hlost ⊢
  rw [exists_or, hlost, h.page_isSome_iff hnot]
  simp only [hapart]
  constructor
  · rintro (hno | ⟨q, hq, hcov⟩) ⟨hseg, hall⟩
    · exact hno ⟨hseg, fun q hq => (hall q hq).1⟩
    · exact (hall q hq).2 hcov
  · intro hno
    by_contra hall
    push Not at hall
    exact hno ⟨hall.1.1, fun q hq => ⟨hall.1.2 q hq, hall.2 q hq⟩⟩

/-- What is left behind: all segments, or some of them. -/
inductive Loaded {α : Type} (file : List UInt8) (s₀ : Phys) (root : ℕ) (segs : List Phdr) :
    Except Failure α → Phys → Prop
  | ok {a : α} {s : Phys} {V : Space} {lost : ℕ → Prop} (hroot : V.pml4 = root)
      (hwindow : ∀ ph ∈ segs, ph.InWindow) (himage : Image file s₀ segs s V lost)
      (hlost : Losing lost segs) : Loaded file s₀ root segs (.ok a) s
  | rejected {r : Reason} {s : Phys} {V : Space} {lost : ℕ → Prop} (done : List Phdr)
      (hroot : V.pml4 = root) (hwindow : ∀ ph ∈ done, ph.InWindow)
      (himage : Image file s₀ done s V lost)
      (hlost : if r = .noTableFrames then ∃ g, lost g else Losing lost done) :
      Loaded file s₀ root segs (.error (.reject r)) s

lemma userSlot_of_window {va : ℕ} (h : elfLoadMinVaddr ≤ va) (h' : va < elfLoadMaxVaddr) :
    UserSlot va := by
  simp only [elfLoadMinVaddr, elfLoadMaxVaddr, userStackBase] at h h'
  have hslot : va / twoMb = 2 ∨ va / twoMb = 3 := by
    rw [twoMb]
    omega
  rw [UserSlot]
  rcases hslot with heq | heq <;> rw [heq] <;> decide

lemma proper_pageFlags (ph : Phdr) (f : ℕ) : (Page.mk f ph.pageFlags).Proper := by
  rw [Page.Proper, Phdr.pageFlags]
  split_ifs
  · exact .inr (show pgPresent ||| pgUser ||| pgWritable = userPageFlags by decide)
  · exact .inl rfl

/-- What one round can do. -/
inductive Round (file : List UInt8) (s₀ : Phys) (segs : List Phdr) (ph : Phdr) (s : Phys)
    (V : Space)
    (lost : ℕ → Prop) (rounds page : ℕ) : Except Failure Unit × Phys → Prop
  | noFrames : Round file s₀ segs ph s V lost rounds page (.error (.reject .noFrames), s)
  | noTableFrames {s' : Phys} (f : ℕ)
      (himage : Image file s₀ (segs ++ [ph.upTo page]) s' V fun g => lost g ∨ g = f) :
      Round file s₀ segs ph s V lost rounds page (.error (.reject .noTableFrames), s')
  | next {s' : Phys} {V' : Space} {lost' : ℕ → Prop} (hroot : V'.pml4 = V.pml4)
      (himage : Image file s₀ (segs ++ [ph.upTo (page + frameSize)]) s' V' lost')
      (hlost : Losing lost (segs ++ [ph.upTo page]) →
        Losing lost' (segs ++ [ph.upTo (page + frameSize)])) :
      Round file s₀ segs ph s V lost rounds page
        (loadPages ph file V'.pml4 rounds (page + frameSize) s')

/-- One round of `load_segment`. -/
lemma Image.round (hvalid : ph.Valid file) (hwin : ph.InWindow) (hp : page % frameSize = 0)
    (hlt : page < ph.pMemsz) (h : Image file s₀ (segs ++ [ph.upTo page]) s V lost) (rounds : ℕ) :
    Round file s₀ segs ph s V lost rounds page
      (loadPages ph file V.pml4 (rounds + 1) page s) := by
  have hva : ph.pVaddr + page < elfLoadMaxVaddr := by
    have := hwin.2
    omega
  have hsmall : elfLoadMaxVaddr + frameSize < 2 ^ 64 := by
    norm_num [elfLoadMaxVaddr, userStackBase, frameSize]
  have hmod : (ph.pVaddr + page) % 2 ^ 64 = ph.pVaddr + page := Nat.mod_eq_of_lt (by omega)
  have hmod' : (page + frameSize) % 2 ^ 64 = page + frameSize := Nat.mod_eq_of_lt (by omega)
  rw [loadPages, if_neg (by omega), hmod, hmod']
  obtain ⟨halloc, -⟩ | ⟨f, s₁, halloc, htook, -⟩ := allocFrame_cases s
  · rw [halloc]
    exact .noFrames
  obtain ⟨bytes, hchunk, hlen, hbytes⟩ := chunk_eq hvalid page
  rw [halloc, hchunk]
  dsimp only
  have hf := htook.isFrame h.shows.sized
  have htook' : Took s f ((s₁.zeroFrame f).copyTo f bytes) :=
    (htook.write hf (only_zeroFrame s₁ f)).write hf (only_copyTo (s₁.zeroFrame f) f hlen)
  have hbytes' := hbytes s₁.mem f
  change ∀ i, i < frameSize → ((s₁.zeroFrame f).copyTo f bytes).mem (f + i) = _ at hbytes'
  generalize (s₁.zeroFrame f).copyTo f bytes = s₂ at htook' hbytes' ⊢
  have hslot : UserSlot (ph.pVaddr + page) :=
    userSlot_of_window (hwin.1.trans (Nat.le_add_right _ _)) hva
  obtain ⟨hmap, -⟩ | ⟨s₃, V', hmap, hmapped⟩ := (h.shows.took htook').mapPage hslot
    (proper_pageFlags ph f) ⟨htook'.self, h.shows.free_of_took htook'⟩
  · rw [hmap]
    exact .noTableFrames f (h.lose htook')
  · rw [hmap]
    dsimp only
    rw [← hmapped.root]
    exact .next hmapped.root (h.mapped hvalid.vaddr hp htook' hbytes' hmapped)
      (.next hvalid.vaddr hp rfl h)

/-- The loop of `load_segment`, by induction on the rounds it has left. -/
lemma Image.loadPages (hvalid : ph.Valid file) (hwin : ph.InWindow)
    (hsegs : ∀ q ∈ segs, q.InWindow) {rounds : ℕ} (hp : page % frameSize = 0)
    (hle : page ≤ ph.pMemsz) (hrounds : ph.pMemsz < page + rounds * frameSize)
    (h : Image file s₀ (segs ++ [ph.upTo page]) s V lost)
    (hlost : Losing lost (segs ++ [ph.upTo page])) :
    Loaded file s₀ V.pml4 (segs ++ [ph]) (loadPages ph file V.pml4 rounds page s).1
      (loadPages ph file V.pml4 rounds page s).2 := by
  induction rounds generalizing page s V lost with
  | zero => omega
  | succ rounds ih =>
    have hwindow : ∀ q ∈ segs ++ [ph.upTo page], q.InWindow := by
      refine List.forall_mem_append.2 ⟨hsegs, List.forall_mem_singleton.2 ?_⟩
      exact ⟨hwin.1, (Nat.add_le_add_left hle _).trans hwin.2⟩
    obtain rfl | hlt := Nat.eq_or_lt_of_le hle
    · rw [Memory.loadPages, if_pos le_rfl]
      exact .ok rfl hwindow h hlost
    · have hround := h.round hvalid hwin hp hlt rounds
      generalize Memory.loadPages ph file V.pml4 (rounds + 1) page s = r at hround ⊢
      cases hround with
      | noFrames => exact .rejected _ rfl hwindow h hlost
      | noTableFrames f himage => exact .rejected _ rfl hwindow himage ⟨f, .inr rfl⟩
      | next hroot himage hlost' =>
        have hmemsz := hvalid.memsz
        rw [← hroot]
        refine ih ?_ ?_ ?_ himage (hlost' hlost)
        · rw [Nat.add_mod_right, hp]
        · simp only [frameSize] at *
          omega
        · rw [Nat.add_mul, Nat.one_mul] at hrounds
          omega

lemma Image.loadSegment (hvalid : ph.Valid file) (hbound : ph.pVaddr < 2 ^ 64 ∧ ph.pMemsz < 2 ^ 64)
    (hsegs : ∀ q ∈ segs, q.InWindow) (h : Image file s₀ segs s V lost) (hlost : Losing lost segs) :
    Loaded file s₀ V.pml4 (segs ++ [ph]) (loadSegment ph file V.pml4 s).1
      (loadSegment ph file V.pml4 s).2 := by
  rw [Memory.loadSegment]
  split_ifs with hwrap hwin
  · exact .rejected segs rfl hsegs h hlost
  · exact .rejected segs rfl hsegs h hlost
  · have hinside : ph.InWindow := by
      obtain ⟨hv, hm⟩ := hbound
      rw [not_or] at hwin
      have hsum : (ph.pVaddr + ph.pMemsz) % 2 ^ 64 = ph.pVaddr + ph.pMemsz := by omega
      rw [hsum] at hwin
      exact ⟨Nat.le_of_not_lt hwin.1, Nat.le_of_not_lt hwin.2⟩
    refine (h.start ph).loadPages hvalid hinside hsegs (Nat.zero_mod _) (Nat.zero_le _) ?_
      (hlost.start ph)
    simp only [frameSize]
    omega

lemma fieldAt_lt (file : List UInt8) (offset : ℕ) : fieldAt file offset 8 < 2 ^ 64 := leNat_lt _ _ 8

/-- The loop of `elf_load`, by induction on the headers that are left. -/
lemma Image.loadSegments {phoff n : ℕ} (htable : phoff + n * elf64PhdrSize ≤ file.length)
    (is : List ℕ) (his : ∀ i ∈ is, i < n) (hvalid : ∀ ph ∈ loadable file phoff is, ph.Valid file)
    (hsegs : ∀ q ∈ segs, q.InWindow) (h : Image file s₀ segs s V lost) (hlost : Losing lost segs) :
    Loaded file s₀ V.pml4 (segs ++ loadable file phoff is) (loadSegments file phoff V.pml4 is s).1
      (loadSegments file phoff V.pml4 is s).2 := by
  induction is generalizing segs s V lost with
  | nil =>
    rw [loadable, List.map_nil, List.filter_nil, List.append_nil]
    exact .ok rfl hsegs h hlost
  | cons i is ih =>
    have hrest : ∀ j ∈ is, j < n := fun j hj => his j (List.mem_cons_of_mem i hj)
    rw [Memory.loadSegments, readPhdr_eq (his i List.mem_cons_self) htable]
    dsimp only
    by_cases htype : (phdrOf file phoff i).pType ≠ ptLoad
    · have heq : loadable file phoff (i :: is) = loadable file phoff is := by
        rw [loadable, List.map_cons, List.filter_cons_of_neg (by simpa using htype)]
        rfl
      rw [heq] at hvalid ⊢
      rw [if_pos htype]
      exact ih hrest hvalid hsegs h hlost
    · have heq : loadable file phoff (i :: is) = phdrOf file phoff i :: loadable file phoff is := by
        rw [loadable, List.map_cons, List.filter_cons_of_pos (by simpa using htype)]
        rfl
      rw [heq] at hvalid ⊢
      obtain ⟨hfirst, hvalid⟩ := List.forall_mem_cons.1 hvalid
      have hseg := h.loadSegment hfirst ⟨fieldAt_lt .., fieldAt_lt ..⟩ hsegs hlost
      rw [if_neg htype]
      cases hres : Memory.loadSegment (phdrOf file phoff i) file V.pml4 s with
      | mk r s' =>
        rw [hres] at hseg
        cases hseg with
        | rejected done hroot hwindow himage hlost =>
          exact .rejected done hroot hwindow himage hlost
        | ok hroot hwindow himage hlost =>
          rw [← hroot, List.append_cons]
          exact ih hrest hvalid hwindow himage hlost

/-- **What `elf_load` leaves behind.** It never reads outside of the file, and its loops end. -/
theorem Created.elfLoad (h : Created s₀ s V) (file : List UInt8) :
    Loaded file s₀ V.pml4 (segmentsOf file) (elfLoad file V.pml4 s).1 (elfLoad file V.pml4 s).2 ∧
      ∀ entry, (elfLoad file V.pml4 s).1 = .ok entry →
        entry = (ehdrOf file).eEntry ∧ ∀ ph ∈ segmentsOf file, ph.Valid file := by
  have himage := h.image file
  have hlost : Losing (fun _ => False) [] := by simp [Losing]
  have hsafe := safe_elfValidate file
  rw [Memory.elfLoad]
  cases hv : elfValidate file with
  | error e =>
    rw [hv] at hsafe
    cases hsafe with
    | reject hr =>
      exact ⟨.rejected [] rfl (by simp) himage (by rwa [if_neg hr]), fun _ hok => nomatch hok⟩
  | ok header =>
    rw [hv] at hsafe
    cases hsafe with
    | ok hgood =>
      obtain ⟨rfl, htable, hvalid⟩ := hgood
      have hload := himage.loadSegments htable _ (fun i => List.mem_range.1) hvalid (by simp) hlost
      dsimp only
      cases hres : Memory.loadSegments file (ehdrOf file).ePhoff V.pml4
          (List.range (ehdrOf file).ePhnum) s with
      | mk r s' =>
        rw [hres] at hload
        cases hload with
        | rejected done hroot hwindow himage hlost =>
          exact ⟨.rejected done hroot hwindow himage hlost, fun _ hok => nomatch hok⟩
        | ok hroot hwindow himage hlost =>
          refine ⟨.ok hroot hwindow himage hlost, fun entry hok => ⟨?_, hvalid⟩⟩
          exact (Except.ok.inj hok).symm

end Rounds

/-! ### Loading into a new address space -/

section Fresh

variable {file : List UInt8} {s₀ s : Phys} {segs : List Phdr} {V : Space} {lost : ℕ → Prop}

/-- What the segments of a file prescribe for an address. -/
def AsPrescribed (file : List UInt8) (s : Phys) (root va : ℕ) : Prop :=
  match lastSegment (segmentsOf file) va with
  | none => userPage s root va = none
  | some ph => ∃ leaf, userPage s root va = some leaf ∧
      (leaf.writable = true ↔ ph.pFlags &&& pfW ≠ 0) ∧
      ∀ i < frameSize, s.mem (leaf.frame + i) = ph.byteAt file (va / frameSize * frameSize + i)

/-- A page of a segment may be written when the segment says so. -/
lemma leaf_writable {x : Page} {ph : Phdr} (hx : x.flags = ph.pageFlags) :
    x.leaf.writable = true ↔ ph.pFlags &&& pfW ≠ 0 := by
  change decide (x.flags &&& pgWritable ≠ 0) = true ↔ _
  rw [hx, Phdr.pageFlags]
  split_ifs with hw
  · exact iff_of_true (by decide) hw
  · exact iff_of_false (by decide) hw

lemma Image.asPrescribed (h : Image file s₀ (segmentsOf file) s V lost)
    (hvalid : ∀ ph ∈ segmentsOf file, ph.Valid file) (va : ℕ) : AsPrescribed file s V.pml4 va := by
  have hlast : lastSegment (segmentsOf file) (va / frameSize * frameSize) =
      lastSegment (segmentsOf file) va :=
    lastSegment_congr fun ph hph => Phdr.covers_page (hvalid ph hph).vaddr (hvalid ph hph).memsz va
  have hpage := h.pages (va / frameSize)
  rw [prescribed, hlast] at hpage
  rw [AsPrescribed, h.shows.userPage_eq]
  cases hseg : lastSegment (segmentsOf file) va with
  | none =>
    rw [hseg] at hpage
    exact Option.map_eq_none_iff.2 (hpage.eq_none_iff.2 rfl)
  | some ph =>
    rw [hseg] at hpage
    generalize V.page (va / frameSize) = x at hpage ⊢
    cases hpage with
    | present hfl hbytes => exact ⟨_, rfl, leaf_writable hfl, hbytes⟩

/-- Pages are where a program may be. -/
lemma Image.inWindow (h : Image file s₀ segs s V lost) (hsegs : ∀ ph ∈ segs, ph.InWindow) {va : ℕ}
    {leaf : Leaf} (hva : userPage s V.pml4 va = some leaf) :
    elfLoadMinVaddr ≤ va ∧ va < elfLoadMaxVaddr := by
  have hne : V.page (va / frameSize) ≠ none := by
    intro hnone
    rw [h.shows.userPage_eq, hnone] at hva
    cases hva
  rw [Ne, h.page_eq_none_iff] at hne
  push Not at hne
  obtain ⟨ph, hph, hcov⟩ := hne
  have hwin := hsegs ph hph
  simp only [Phdr.InWindow, Phdr.Covers, elfLoadMaxVaddr, userStackBase, frameSize] at hwin hcov ⊢
  omega

/-- **The loader is safe and faithful on every file.** Loading into a new address space,
it reads only bytes of the file and ends; it maps pages only where a program may be; and
if it accepts the file, then every page is as the last segment there prescribes, and there
are no other pages. -/
theorem elfLoad_faithful {mapTop root : ℕ} {room : Bool} (hp : s₀.pool.numFrames ≤ maxFrames)
    (hcreate : pagingCreateAddressSpace s₀ (pdTable mapTop) room = (some root, s))
    (file : List UInt8) :
    ((elfLoad file root s).1 ≠ .error .outside ∧ (elfLoad file root s).1 ≠ .error .endless) ∧
      (∀ va leaf, userPage (elfLoad file root s).2 root va = some leaf →
        elfLoadMinVaddr ≤ va ∧ va < elfLoadMaxVaddr) ∧
      ∀ entry, (elfLoad file root s).1 = .ok entry →
        ∀ va, AsPrescribed file (elfLoad file root s).2 root va := by
  obtain ⟨V, rfl, hcreated, -⟩ := Created.of_create (kernelEntries_pdTable mapTop) hp hcreate
  obtain ⟨hloaded, hok⟩ := hcreated.elfLoad file
  generalize elfLoad file V.pml4 s = r at hloaded hok ⊢
  obtain ⟨r, s'⟩ := r
  dsimp only at hloaded hok ⊢
  cases hloaded with
  | rejected done hroot hwindow himage hlost =>
    refine ⟨by simp, fun va leaf hva => himage.inWindow hwindow (hroot ▸ hva), ?_⟩
    exact fun entry hentry => nomatch hentry
  | ok hroot hwindow himage hlost =>
    refine ⟨by simp, fun va leaf hva => himage.inWindow hwindow (hroot ▸ hva), ?_⟩
    intro entry hentry va
    rw [← hroot]
    exact himage.asPrescribed (hok entry hentry).2 va

/-- A program of one page at 4 MB, with an entry point. -/
def onePage (entry : ℕ) : List UInt8 :=
  elfMag ++ [2, 1, 1] ++ leBytes 0 9 ++ leBytes etExec 2 ++ leBytes emX8664 2 ++ leBytes 1 4 ++
    leBytes entry 8 ++ leBytes 64 8 ++ leBytes 0 12 ++ leBytes 64 2 ++ leBytes 56 2 ++
      leBytes 1 2 ++
    leBytes 0 6 ++ leBytes ptLoad 4 ++ leBytes 5 4 ++ leBytes 0 8 ++ leBytes elfLoadMinVaddr 8 ++
    leBytes 0 8 ++ leBytes 120 8 ++ leBytes 4096 8 ++ leBytes 4096 8

lemma elfLoad_onePage : (elfLoad (onePage elfLoadMinVaddr) (frameAddr 0)
    (pagingCreateAddressSpace eightFrames (pdTable 0) true).2).1 = .ok elfLoadMinVaddr := by
  decide +kernel

/-- A program of one page. -/
theorem elfLoad_faithful_onePage :
    ∃ root s, pagingCreateAddressSpace eightFrames (pdTable 0) true = (some root, s) ∧
      (elfLoad (onePage elfLoadMinVaddr) root s).1 = .ok elfLoadMinVaddr ∧
      ∀ va, AsPrescribed (onePage elfLoadMinVaddr) (elfLoad (onePage elfLoadMinVaddr) root s).2 root
        va := by
  exact ⟨_, _, create_eightFrames, elfLoad_onePage,
    (elfLoad_faithful (by decide) create_eightFrames _).2.2 _ elfLoad_onePage⟩

/-- **The entry point is in a page of the program exactly when a segment has it.** Nothing checks
that one has. -/
theorem entry_mapped_iff {mapTop root entry : ℕ} {room : Bool}
    (hp : s₀.pool.numFrames ≤ maxFrames)
    (hcreate : pagingCreateAddressSpace s₀ (pdTable mapTop) room = (some root, s))
    (hload : (elfLoad file root s).1 = .ok entry) :
    (∃ leaf, userPage (elfLoad file root s).2 root entry = some leaf) ↔
      ∃ ph ∈ segmentsOf file, ph.Covers (ehdrOf file).eEntry := by
  obtain ⟨V, rfl, hcreated, -⟩ := Created.of_create (kernelEntries_pdTable mapTop) hp hcreate
  obtain ⟨hloaded, hok⟩ := hcreated.elfLoad file
  obtain ⟨rfl, hvalid⟩ := hok entry hload
  rw [hload] at hloaded
  generalize (elfLoad file V.pml4 s).2 = s' at hloaded ⊢
  cases hloaded with
  | ok hroot hwindow himage hlost =>
    rw [← hroot, himage.shows.userPage_eq, ← Option.isSome_iff_exists, Option.isSome_map,
      Option.isSome_iff_ne_none, Ne, himage.page_eq_none_iff]
    push Not
    refine exists_congr fun ph => and_congr_right fun hph => ?_
    exact Phdr.covers_page (hvalid ph hph).vaddr (hvalid ph hph).memsz _

set_option maxRecDepth 100000 in
/-- It starts in that page. -/
theorem entry_mapped_onePage :
    ∃ root s leaf, pagingCreateAddressSpace eightFrames (pdTable 0) true = (some root, s) ∧
      (elfLoad (onePage elfLoadMinVaddr) root s).1 = .ok elfLoadMinVaddr ∧
      userPage (elfLoad (onePage elfLoadMinVaddr) root s).2 root elfLoadMinVaddr = some leaf := by
  obtain ⟨leaf, hleaf⟩ := (entry_mapped_iff (by decide) create_eightFrames elfLoad_onePage).2
    ⟨phdrOf (onePage elfLoadMinVaddr) 64 0, by decide +kernel, by decide +kernel⟩
  exact ⟨_, _, leaf, create_eightFrames, elfLoad_onePage, hleaf⟩

set_option maxRecDepth 100000 in
/-- A program that is to start at address 0 is accepted, and there is no page. -/
theorem entry_unmapped :
    ∃ file root s, pagingCreateAddressSpace eightFrames (pdTable 0) true = (some root, s) ∧
      (elfLoad file root s).1 = .ok 0 ∧ userPage (elfLoad file root s).2 root 0 = none := by
  refine ⟨onePage 0, frameAddr 0, (pagingCreateAddressSpace eightFrames (pdTable 0) true).2,
    create_eightFrames, ?_, ?_⟩
  · decide +kernel
  · decide +kernel

end Fresh

end TownOS.Memory
